/-
# Where decoders stop

A decoder that stops gives a cause and leaves the reader behind the fields that
it had read. Both are told by the bytes in front of it: `d.Stops fault` says
that `d` stops exactly where `fault` finds something to object to, with just
that cause and after just so many bytes. For a decoder made of fields the
fault is computed field by field (`Decoder.behind`).

The same is said of written forms. If the bytes end within a field of a written
form, `d` stops at the start of that field with its cause (`d.StopsWithin`).
Every cut of a written form lies within one field (`Decoder.exists_cut_field`).

Where all fields of a decoder have one cause, it needs no fault to tell which
one it is: `d.StopsFor e` says that `d` only ever stops for `e`. Such a decoder
stops just where no form that it accepts stands (`Decoder.Accepts.stops`).

Key definitions: `Decoder.Stops`, `Decoder.behind`, `Decoder.StopsWithin`,
`Decoder.StopsFor`.
Key theorems: `Decoder.stops_field_bind`, `Decoder.stopsWithin_cons`,
`Decoder.exists_cut_field`, `Decoder.Accepts.stops`.
-/
import HardwareSigner.Proofs.Grammar

namespace HardwareSigner
namespace Decoder

open ByteReader

variable {ε α β : Type}

/-! ### Faults -/

/-- `d` stops exactly where `fault` says so of the bytes in front of it, with
the cause that is given there, and having passed as many bytes. -/
def Stops (d : Decoder ε α) (fault : Bytes → Option (ε × Nat)) : Prop :=
  ∀ r e r', d.run r = (.error e, r') ↔ ∃ k, fault r.rest = some (e, k) ∧ r' = r.advance k

/-- The fault of a field and of what is read behind it: the field's, if its
bytes are missing, and else what `next` finds, told the field's bytes and those
behind them. -/
def behind (e : ε) (width : Nat) (next : Bytes → Bytes → Option (ε × Nat)) (bs : Bytes) :
    Option (ε × Nat) :=
  if bs.length < width then some (e, 0)
  else (next (bs.take width) (bs.drop width)).map fun p => (p.1, width + p.2)

theorem stops_pure (a : α) : (pure a : Decoder ε α).Stops fun _ => none := by
  intro r e r'
  simp

/-- To stop where the reader stands is to stop after no bytes. -/
theorem stopped_here_iff {e e' : ε} {r r' : ByteReader} :
    ((.error e, r) : Except ε α × ByteReader) = (.error e', r') ↔
      ∃ k, some (e, 0) = some (e', k) ∧ r' = r.advance k := by
  constructor
  · intro h
    cases h
    exact ⟨0, rfl, rfl⟩
  · rintro ⟨k, hk, rfl⟩
    cases hk
    rfl

theorem stops_fail (e : ε) : (fail e : Decoder ε α).Stops fun _ => some (e, 0) :=
  fun _ _ _ => stopped_here_iff

theorem stops_field {e : ε} {read : ByteReader → Option (α × ByteReader)} {width : Nat}
    {written : α → Bytes} (h : IsField read width written) :
    (field e read).Stops fun bs => if bs.length < width then some (e, 0) else none := by
  intro r e' r'
  simp only [length_rest]
  rcases h.cases r with ⟨hlt, hread⟩ | ⟨hle, a, hread, -⟩
  · rw [field_none hread, if_pos hlt]
    exact stopped_here_iff
  · rw [field_some hread, if_neg (Nat.not_lt_of_le hle)]
    simp

/-- **A field stops a decoder, or what follows it does.** -/
theorem stops_field_bind {e : ε} {read : ByteReader → Option (α × ByteReader)} {width : Nat}
    {written : α → Bytes} (h : IsField read width written) {f : α → Decoder ε β}
    {next : Bytes → Bytes → Option (ε × Nat)} (hf : ∀ a, (f a).Stops (next (written a))) :
    (field e read >>= f).Stops (behind e width next) := by
  intro r e' r'
  unfold behind
  rcases h.cases r with ⟨hlt, hread⟩ | ⟨hle, a, hread, ha⟩
  · rw [bind_error (field_none hread), if_pos (by rwa [length_rest])]
    exact stopped_here_iff
  · -- What `next` is told are the bytes of `a`, so its fault is that of `f a`.
    rw [bind_ok (field_some hread), if_neg (by rw [length_rest]; omega), hf a, rest_advance, ha]
    constructor
    · rintro ⟨k, hk, rfl⟩
      exact ⟨width + k, by rw [hk]; rfl, advance_advance r width k⟩
    · rintro ⟨k, hk, rfl⟩
      obtain ⟨⟨e'', k'⟩, hk', heq⟩ := Option.map_eq_some_iff.mp hk
      cases heq
      exact ⟨k', hk', (advance_advance r width k').symm⟩

theorem Stops.bind_pure {d : Decoder ε α} {fault : Bytes → Option (ε × Nat)} (hd : d.Stops fault)
    (g : α → β) : (d >>= fun a => pure (g a)).Stops fault := by
  intro r e r'
  rw [← hd r e r', run_bind]
  split
  · rename_i a r₁ h₁
    simp [h₁]
  · rename_i e₁ r₁ h₁
    simp [h₁]

theorem Stops.congr {d : Decoder ε α} {fault fault' : Bytes → Option (ε × Nat)}
    (hd : d.Stops fault) (h : ∀ bs, fault bs = fault' bs) : d.Stops fault' := by
  intro r e r'
  rw [← h]
  exact hd r e r'

/-! ### Written forms that are cut -/

/-- Where the fields of a written form end within one of them, `d` stops with
that field's cause and the reader at its start. -/
def StopsWithin (d : Decoder ε α) (fields : List (ε × Bytes)) : Prop :=
  ∀ before e bs after, fields = before ++ (e, bs) :: after →
    ∀ part, part <+: bs → part.length < bs.length →
      ∀ r : ByteReader, r.rest = before.flatMap Prod.snd ++ part →
        d.run r = (.error e, r.advance (before.flatMap Prod.snd).length)

theorem stopsWithin_nil (d : Decoder ε α) : d.StopsWithin [] := by
  intro before e bs after heq
  simp at heq

/-- **A field and what is read behind it stop within either.** -/
theorem stopsWithin_cons {e : ε} {read : ByteReader → Option (α × ByteReader)} {width : Nat}
    {written : α → Bytes} (h : IsField read width written) {f : α → Decoder ε β} {a : α}
    {fields : List (ε × Bytes)} (hf : (f a).StopsWithin fields) :
    (field e read >>= f).StopsWithin ((e, written a) :: fields) := by
  intro before e' bs after heq part hpart hlt r hr
  cases before with
  | nil =>
    -- The field itself is cut.
    simp only [List.nil_append, List.cons.injEq, Prod.mk.injEq] at heq
    obtain ⟨⟨rfl, rfl⟩, -⟩ := heq
    have hread : read r = none := by
      apply h.none_iff.mpr
      rw [← length_rest, hr, ← h.length_written a]
      simpa using hlt
    exact bind_error (field_none hread)
  | cons first before =>
    -- The field is whole, so it is read, and the cut is behind it.
    simp only [List.cons_append, List.cons.injEq] at heq
    obtain ⟨rfl, rfl⟩ := heq
    rw [List.flatMap_cons, List.append_assoc] at hr
    have hread : read r = some (a, r.advance width) :=
      h.some_iff.mpr ⟨by rw [hr]; exact List.prefix_append _ _, rfl⟩
    have hrest : (r.advance width).rest = before.flatMap Prod.snd ++ part := by
      rw [rest_advance, hr]
      exact List.drop_left' (h.length_written a)
    rw [bind_ok (field_some hread), hf before e' bs after rfl part hpart hlt _ hrest,
      advance_advance, List.flatMap_cons, List.length_append, h.length_written a]

theorem StopsWithin.bind {d : Decoder ε α} {fields : List (ε × Bytes)} (hd : d.StopsWithin fields)
    (f : α → Decoder ε β) : (d >>= f).StopsWithin fields := by
  intro before e bs after heq part hpart hlt r hr
  exact bind_error (hd before e bs after heq part hpart hlt r hr)

/-- Where some fields are cut, one of them is cut and those before it are
whole. -/
theorem exists_cut_field :
    ∀ (fields : List (ε × Bytes)) {m : Nat}, m < (fields.flatMap Prod.snd).length →
      ∃ before e bs after part, fields = before ++ (e, bs) :: after ∧ part <+: bs ∧
        part.length < bs.length ∧ m = (before.flatMap Prod.snd).length + part.length ∧
        (fields.flatMap Prod.snd).take m = before.flatMap Prod.snd ++ part
  | [], m, hm => by simp at hm
  | (e, bs) :: fields, m, hm => by
    simp only [List.flatMap_cons, List.length_append] at hm
    by_cases hcut : m < bs.length
    · refine ⟨[], e, bs, fields, bs.take m, rfl, List.take_prefix _ _, ?_, ?_, ?_⟩
      · rw [List.length_take]
        omega
      · rw [List.flatMap_nil, List.length_nil, List.length_take]
        omega
      · exact List.take_append_of_le_length (Nat.le_of_lt hcut)
    · obtain ⟨before, e', bs', after, part, rfl, hpart, hlt, hlen, htake⟩ :=
        exists_cut_field fields (m := m - bs.length) (by omega)
      refine ⟨(e, bs) :: before, e', bs', after, part, rfl, hpart, hlt, ?_, ?_⟩
      · simp only [List.flatMap_cons, List.length_append]
        omega
      · simp only [List.flatMap_cons]
        rw [List.take_append, htake, List.take_of_length_le (by omega), List.append_assoc]

/-! ### One cause for all fields -/

/-- Wherever `d` stops, it stops for `e`. -/
def StopsFor (d : Decoder ε α) (e : ε) : Prop := ∀ r e' r', d.run r = (.error e', r') → e' = e

theorem stopsFor_pure (a : α) (e : ε) : (pure a : Decoder ε α).StopsFor e := by
  intro r e' r' h
  cases h

theorem stopsFor_fail (e : ε) : (fail e : Decoder ε α).StopsFor e := by
  intro r e' r' h
  cases h
  rfl

theorem stopsFor_field (e : ε) (read : ByteReader → Option (α × ByteReader)) :
    (field e read).StopsFor e := by
  intro r e' r' h
  cases hread : read r with
  | none =>
    rw [field_none hread] at h
    cases h
    rfl
  | some p =>
    rw [field_some hread] at h
    cases h

theorem StopsFor.bind {d : Decoder ε α} {f : α → Decoder ε β} {e : ε} (hd : d.StopsFor e)
    (hf : ∀ a, (f a).StopsFor e) : (d >>= f).StopsFor e := by
  intro r e' r' h
  rcases d.run_cases r with ⟨a, r₁, h₁⟩ | ⟨e₁, r₁, h₁⟩
  · rw [bind_ok h₁] at h
    exact hf a r₁ e' r' h
  · rw [bind_error h₁] at h
    cases h
    exact hd r e' r' h₁

/-- A decoder with one cause stops for it where no form that it accepts stands. -/
theorem Accepts.stops {d : Decoder ε α} {language : α → Bytes → Prop} (hd : d.Accepts language)
    {e : ε} (he : d.StopsFor e) {r : ByteReader} (hnone : ∀ a bs, language a bs → ¬bs <+: r.rest) :
    ∃ r', d.run r = (.error e, r') := by
  rcases d.run_cases r with ⟨a, r', hrun⟩ | ⟨e', r', hrun⟩
  · obtain ⟨bs, hbs, hpre, -⟩ := (hd r r' a).mp hrun
    exact absurd hpre (hnone a bs hbs)
  · obtain rfl := he r e' r' hrun
    exact ⟨r', hrun⟩

end Decoder
end HardwareSigner
