/-
# What decoders accept

A fixed-width read answers a value exactly when the value's written form
stands at the reader, and fails exactly when too few bytes are left
(`IsField`). A decoder accepts a language: it answers `a` exactly when one of
the written forms of `a` stands at the reader, and moves on by just that form
(`Decoder.Accepts`). The language of a decoder made of smaller ones is
computed from theirs, so a decoder is proved correct in both directions at
once.

Key definitions: `ByteReader.IsField`, `Decoder.Accepts`, `Decoder.Advances`.
Key theorems: `ByteReader.isField_map`, `Decoder.Accepts.bind`,
`Decoder.accepts_dite`, `Decoder.Accepts.run_append`,
`Decoder.Accepts.run_eq_iff`.
-/
import HardwareSigner.Address
import HardwareSigner.Bytes.Decoder

namespace HardwareSigner

/-! ### Words and their bytes -/

theorem ofBigEndian_be32 (n : UInt32) : ofBigEndian (be32 n) = n.toNat := by
  rw [be32, ofBigEndian_bigEndian]
  exact Nat.mod_eq_of_lt n.toNat_lt

theorem be32_ofNat_ofBigEndian {bs : Bytes} (h : bs.length = 4) :
    be32 (UInt32.ofNat (ofBigEndian bs)) = bs := by
  have hlt := ofBigEndian_lt bs
  have hback := bigEndian_ofBigEndian bs
  rw [h] at hlt hback
  rw [be32, UInt32.toNat_ofNat_of_lt' hlt, hback]

theorem words_flatMap_be32 : ∀ ws : List UInt32, words (ws.flatMap be32) = ws
  | [] => rfl
  | w :: ws => by rw [List.flatMap_cons, words_be32_append, words_flatMap_be32 ws]

theorem flatMap_be32_words (bs : Bytes) (h : bs.length % 4 = 0) : (words bs).flatMap be32 = bs := by
  fun_induction words bs with
  | case1 a b c d rest ih =>
    simp only [List.length_cons] at h
    rw [List.flatMap_cons, be32_ofNat_ofBigEndian rfl, ih (by omega)]
    rfl
  | case2 bs hshort =>
    rcases bs with _ | ⟨a, _ | ⟨b, _ | ⟨c, _ | ⟨d, rest⟩⟩⟩⟩
    · rfl
    · simp at h
    · simp at h
    · simp at h
    · exact absurd rfl (hshort a b c d rest)

theorem length_flatMap_be32 (ws : List UInt32) : (ws.flatMap be32).length = 4 * ws.length := by
  induction ws with
  | nil => rfl
  | cons w ws ih => simp [ih]; omega

namespace ByteReader

@[simp] theorem advance_advance (r : ByteReader) (m n : Nat) :
    (r.advance m).advance n = r.advance (m + n) := by
  simp [advance, Nat.add_assoc]

/-- Coming back to a mark undoes every move made since. -/
@[simp] theorem rewind_mark_advance (r : ByteReader) (n : Nat) :
    (r.advance n).rewind r.mark = r := rfl

theorem advance_injective {r : ByteReader} {m n : Nat} (h : r.advance m = r.advance n) : m = n :=
  Nat.add_left_cancel (congrArg offset h)

@[simp] theorem consumedSince_mark_advance (r : ByteReader) (n : Nat) :
    (r.advance n).consumedSince r.mark = n := by
  simp [consumedSince, mark]

/-! ### Fields of one width -/

variable {α : Type}

/-- `read` is a field of `width` bytes: it takes the written form of a value
off the reader, and fails only where fewer bytes are left. -/
structure IsField (read : ByteReader → Option (α × ByteReader)) (width : Nat)
    (written : α → Bytes) : Prop where
  some_iff : ∀ {r r' : ByteReader} {a : α},
    read r = some (a, r') ↔ written a <+: r.rest ∧ r' = r.advance width
  none_iff : ∀ {r : ByteReader}, read r = none ↔ r.remaining < width
  length_written : ∀ a, (written a).length = width

theorem IsField.written_injective {read : ByteReader → Option (α × ByteReader)} {width : Nat}
    {written : α → Bytes} (h : IsField read width written) {a b : α}
    (hab : written a = written b) : a = b := by
  have ha : read (ofBytes (written a)) = some (a, (ofBytes (written a)).advance width) :=
    h.some_iff.mpr ⟨List.prefix_rfl, rfl⟩
  have hb : read (ofBytes (written a)) = some (b, (ofBytes (written a)).advance width) :=
    h.some_iff.mpr ⟨hab ▸ List.prefix_rfl, rfl⟩
  rw [ha] at hb
  cases hb
  rfl

/-- A field is missing, or it is read and written in just the next bytes. -/
theorem IsField.cases {read : ByteReader → Option (α × ByteReader)} {width : Nat}
    {written : α → Bytes} (h : IsField read width written) (r : ByteReader) :
    (r.remaining < width ∧ read r = none) ∨
      (width ≤ r.remaining ∧ ∃ a, read r = some (a, r.advance width) ∧
        written a = r.rest.take width) := by
  cases hread : read r with
  | none => exact .inl ⟨h.none_iff.mp hread, rfl⟩
  | some p =>
    obtain ⟨a, r'⟩ := p
    obtain ⟨hpre, rfl⟩ := h.some_iff.mp hread
    have hle := hpre.length_le
    have htake := List.prefix_iff_eq_take.mp hpre
    rw [h.length_written] at hle htake
    exact .inr ⟨by rwa [length_rest] at hle, a, rfl, htake⟩

theorem isField_readExact (n : Nat) : IsField (readExact n) n FixedBytes.toList where
  some_iff {r r' bs} := by
    rw [readExact_eq_some_iff, List.prefix_iff_eq_take, bs.length_toList]
    constructor
    · rintro ⟨_, h, h'⟩
      exact ⟨h, h'⟩
    · rintro ⟨h, h'⟩
      refine ⟨?_, h, h'⟩
      have := congrArg List.length h
      rw [bs.length_toList, List.length_take, length_rest] at this
      omega
  none_iff := readExact_eq_none_iff
  length_written bs := bs.length_toList

/-- An exact read whose bytes are another way to write `α` is a field. -/
theorem isField_map {n : Nat} {f : FixedBytes n → α} {written : α → Bytes}
    (hlen : ∀ a, (written a).length = n) (hread : ∀ a, f ⟨written a, hlen a⟩ = a)
    (hback : ∀ bs, written (f bs) = bs.toList) :
    IsField (fun r => (r.readExact n).map fun p => (f p.1, p.2)) n written where
  some_iff {r r' a} := by
    simp only [Option.map_eq_some_iff, Prod.exists, Prod.mk.injEq]
    constructor
    · rintro ⟨bs, _, h, rfl, rfl⟩
      rw [hback]
      exact (isField_readExact n).some_iff.mp h
    · intro h
      exact ⟨⟨written a, hlen a⟩, r', (isField_readExact n).some_iff.mpr h, hread a, rfl⟩
  none_iff := by
    simp only [Option.map_eq_none_iff]
    exact readExact_eq_none_iff
  length_written := hlen

theorem isField_readByte : IsField readByte 1 fun b => [b] where
  some_iff {r r' b} := by
    rw [readByte_eq_some_iff]
    cases r.rest <;> simp [eq_comm]
  none_iff {r} := by
    rw [readByte_eq_none_iff, ← List.length_eq_zero_iff, length_rest]
    omega
  length_written _ := rfl

theorem isField_readUInt32 (e : Endian) :
    IsField (readUInt32 e) 4 fun n => e.encode 4 n.toNat := by
  refine isField_map (f := fun bs => UInt32.ofNat (e.decode bs.toList))
    (fun n => e.length_encode 4 _) (fun n => ?_) (fun bs => ?_)
  · have hlt : n.toNat < Nat.pow 256 4 := n.toNat_lt
    rw [e.decode_encode, Nat.mod_eq_of_lt hlt, UInt32.ofNat_toNat]
  · have hlt := e.decode_lt bs.toList
    have hback := e.encode_decode bs.toList
    rw [bs.length_toList] at hlt hback
    rw [UInt32.toNat_ofNat_of_lt' hlt, hback]

theorem isField_readUInt64 (e : Endian) :
    IsField (readUInt64 e) 8 fun n => e.encode 8 n.toNat := by
  refine isField_map (f := fun bs => UInt64.ofNat (e.decode bs.toList))
    (fun n => e.length_encode 8 _) (fun n => ?_) (fun bs => ?_)
  · have hlt : n.toNat < Nat.pow 256 8 := n.toNat_lt
    rw [e.decode_encode, Nat.mod_eq_of_lt hlt, UInt64.ofNat_toNat]
  · have hlt := e.decode_lt bs.toList
    have hback := e.encode_decode bs.toList
    rw [bs.length_toList] at hlt hback
    rw [UInt64.toNat_ofNat_of_lt' hlt, hback]

theorem isField_readAddress : IsField readAddress 21 Address.bytes :=
  isField_map (f := Address.ofBytes) Address.length_bytes Address.ofBytes_bytes
    Address.bytes_ofBytes

end ByteReader

namespace Decoder

open ByteReader

variable {ε α β : Type}

theorem run_cases (d : Decoder ε α) (r : ByteReader) :
    (∃ a r', d.run r = (.ok a, r')) ∨ ∃ e r', d.run r = (.error e, r') := by
  rcases d.run r with ⟨e | a, r'⟩
  · exact .inr ⟨e, r', rfl⟩
  · exact .inl ⟨a, r', rfl⟩

/-! ### Decoders and their languages -/

/-- `d` answers `a` exactly when a written form of `a` stands at the reader,
and then moves on by that form. -/
def Accepts (d : Decoder ε α) (language : α → Bytes → Prop) : Prop :=
  ∀ r r' a, d.run r = (.ok a, r') ↔
    ∃ bs, language a bs ∧ bs <+: r.rest ∧ r' = r.advance bs.length

theorem accepts_pure (a : α) : (pure a : Decoder ε α).Accepts fun b bs => b = a ∧ bs = [] := by
  intro r r' b
  simp only [run_pure, Prod.mk.injEq, Except.ok.injEq]
  constructor
  · rintro ⟨rfl, rfl⟩
    exact ⟨[], ⟨rfl, rfl⟩, List.nil_prefix, rfl⟩
  · rintro ⟨bs, ⟨rfl, rfl⟩, -, rfl⟩
    exact ⟨rfl, rfl⟩

theorem accepts_fail (e : ε) : (fail e : Decoder ε α).Accepts fun _ _ => False := by
  intro r r' a
  simp

theorem accepts_field {e : ε} {read : ByteReader → Option (α × ByteReader)} {width : Nat}
    {written : α → Bytes} (h : IsField read width written) :
    (field e read).Accepts fun a bs => bs = written a := by
  intro r r' a
  simp only [exists_eq_left, h.length_written]
  rw [← h.some_iff, run_field]
  cases read r with
  | none => simp
  | some p => simp [Prod.ext_iff]

/-- **A sequence of decoders accepts the concatenations.** -/
theorem Accepts.bind {d : Decoder ε α} {f : α → Decoder ε β} {first : α → Bytes → Prop}
    {second : α → β → Bytes → Prop} (hd : d.Accepts first) (hf : ∀ a, (f a).Accepts (second a)) :
    (d >>= f).Accepts fun b bs => ∃ a u v, first a u ∧ second a b v ∧ bs = u ++ v := by
  intro r r' b
  constructor
  · intro h
    rw [run_bind] at h
    split at h
    · rename_i a r₁ h₁
      obtain ⟨u, hu, hpre, rfl⟩ := (hd _ _ _).mp h₁
      obtain ⟨v, hv, hpre', rfl⟩ := (hf a _ _ _).mp h
      refine ⟨u ++ v, ⟨a, u, v, hu, hv, rfl⟩, ?_, by simp⟩
      -- The second form stands where the first one ends.
      rw [rest_advance] at hpre'
      obtain ⟨tail, htail⟩ := hpre
      rw [← htail, List.drop_left] at hpre'
      rw [← htail]
      exact (List.prefix_append_right_inj u).mpr hpre'
    · simp at h
  · rintro ⟨_, ⟨a, u, v, hu, hv, rfl⟩, hpre, rfl⟩
    have hu' := (hd r _ a).mpr ⟨u, hu, (List.prefix_append u v).trans hpre, rfl⟩
    rw [bind_ok hu']
    refine (hf a _ _ b).mpr ⟨v, hv, ?_, by simp⟩
    obtain ⟨tail, htail⟩ := hpre
    rw [rest_advance, ← htail, List.append_assoc, List.drop_left]
    exact List.prefix_append v tail

theorem Accepts.congr {d : Decoder ε α} {language language' : α → Bytes → Prop}
    (hd : d.Accepts language) (h : ∀ a bs, language a bs ↔ language' a bs) :
    d.Accepts language' := by
  intro r r' a
  simp only [← h]
  exact hd r r' a

theorem accepts_dite {p : Prop} [Decidable p] {d : p → Decoder ε α} {d' : ¬p → Decoder ε α}
    {yes : p → α → Bytes → Prop} {no : ¬p → α → Bytes → Prop} (hyes : ∀ h, (d h).Accepts (yes h))
    (hno : ∀ h, (d' h).Accepts (no h)) :
    (if h : p then d h else d' h).Accepts fun a bs => (∃ h, yes h a bs) ∨ ∃ h, no h a bs := by
  by_cases h : p
  · rw [dif_pos h]
    refine (hyes h).congr fun a bs => ⟨fun hbs => .inl ⟨h, hbs⟩, ?_⟩
    rintro (⟨_, hbs⟩ | ⟨hnot, _⟩)
    · exact hbs
    · exact absurd h hnot
  · rw [dif_neg h]
    refine (hno h).congr fun a bs => ⟨fun hbs => .inr ⟨h, hbs⟩, ?_⟩
    rintro (⟨h', _⟩ | ⟨_, hbs⟩)
    · exact absurd h' h
    · exact hbs

theorem accepts_ite {p : Prop} [Decidable p] {d d' : Decoder ε α} {yes no : α → Bytes → Prop}
    (hyes : d.Accepts yes) (hno : d'.Accepts no) :
    (if p then d else d').Accepts fun a bs => (p ∧ yes a bs) ∨ (¬p ∧ no a bs) := by
  by_cases h : p
  · rw [if_pos h]
    exact hyes.congr fun a bs => by simp [h]
  · rw [if_neg h]
    exact hno.congr fun a bs => by simp [h]

/-- A written form with anything behind it is read back. -/
theorem Accepts.run_append {d : Decoder ε α} {language : α → Bytes → Prop}
    (hd : d.Accepts language) {a : α} {bs : Bytes} (h : language a bs) (tail : Bytes) :
    d.run (ofBytes (bs ++ tail)) = (.ok a, (ofBytes (bs ++ tail)).advance bs.length) :=
  (hd _ _ _).mpr ⟨bs, h, List.prefix_append bs tail, rfl⟩

/-- `d` answers `a` and takes `k` bytes exactly if there are as many and they are
a written form of `a`. -/
theorem Accepts.run_eq_iff {d : Decoder ε α} {language : α → Bytes → Prop} (hd : d.Accepts language)
    {r : ByteReader} {a : α} {k : Nat} :
    d.run r = (.ok a, r.advance k) ↔ k ≤ r.remaining ∧ language a (r.rest.take k) := by
  rw [hd, ← length_rest]
  constructor
  · rintro ⟨bs, hbs, hpre, hend⟩
    obtain rfl := advance_injective hend
    rw [← List.prefix_iff_eq_take.mp hpre]
    exact ⟨hpre.length_le, hbs⟩
  · rintro ⟨hle, hbs⟩
    exact ⟨_, hbs, List.take_prefix _ _, by rw [List.length_take_of_le hle]⟩

/-- An answer is told by the bytes that are taken for it. -/
theorem Accepts.run_congr {d : Decoder ε α} {language : α → Bytes → Prop} (hd : d.Accepts language)
    {r s : ByteReader} {a : α} {k : Nat} (h : d.run r = (.ok a, r.advance k))
    (hsame : s.rest.take k = r.rest.take k) : d.run s = (.ok a, s.advance k) := by
  obtain ⟨hle, hbs⟩ := hd.run_eq_iff.mp h
  have hlength : min k s.remaining = min k r.remaining := by
    have hlen := congrArg List.length hsame
    simpa only [List.length_take, length_rest] using hlen
  apply hd.run_eq_iff.mpr
  rw [hsame]
  exact ⟨by omega, hbs⟩

/-- Two values with written forms at one reader are the same value, written
the same way. -/
theorem Accepts.unique {d : Decoder ε α} {language : α → Bytes → Prop} (hd : d.Accepts language)
    {a b : α} {u v whole : Bytes} (hu : language a u) (hv : language b v) (hu' : u <+: whole)
    (hv' : v <+: whole) : a = b ∧ u = v := by
  have ha := (hd (ofBytes whole) _ a).mpr ⟨u, hu, hu', rfl⟩
  have hb := (hd (ofBytes whole) _ b).mpr ⟨v, hv, hv', rfl⟩
  rw [ha] at hb
  simp only [Prod.mk.injEq, Except.ok.injEq] at hb
  have hlen : u.length = v.length := advance_injective hb.2
  exact ⟨hb.1, by rw [List.prefix_iff_eq_take.mp hu', List.prefix_iff_eq_take.mp hv', hlen]⟩

/-! ### Decoders only move on -/

/-- Wherever `d` stops, it is behind where it started, in the same bytes. -/
def Advances (d : Decoder ε α) : Prop := ∀ r, ∃ n, (d.run r).2 = r.advance n

/-- A decoder that only moves on answers or stops somewhere further on. -/
theorem Advances.cases {d : Decoder ε α} (hd : d.Advances) (r : ByteReader) :
    (∃ a k, d.run r = (.ok a, r.advance k)) ∨ ∃ e k, d.run r = (.error e, r.advance k) := by
  obtain ⟨k, hk⟩ := hd r
  rcases d.run_cases r with ⟨a, r', hrun⟩ | ⟨e, r', hrun⟩
  · rw [hrun] at hk
    exact .inl ⟨a, k, hk ▸ hrun⟩
  · rw [hrun] at hk
    exact .inr ⟨e, k, hk ▸ hrun⟩

theorem advances_pure (a : α) : (pure a : Decoder ε α).Advances := fun _ => ⟨0, rfl⟩

theorem advances_fail (e : ε) : (fail e : Decoder ε α).Advances := fun _ => ⟨0, rfl⟩

theorem advances_field {e : ε} {read : ByteReader → Option (α × ByteReader)} {width : Nat}
    {written : α → Bytes} (h : IsField read width written) : (field e read).Advances := by
  intro r
  rw [run_field]
  cases hr : read r with
  | none => exact ⟨0, rfl⟩
  | some p => exact ⟨width, (h.some_iff.mp hr).2⟩

theorem Advances.bind {d : Decoder ε α} {f : α → Decoder ε β} (hd : d.Advances)
    (hf : ∀ a, (f a).Advances) : (d >>= f).Advances := by
  intro r
  obtain ⟨m, hm⟩ := hd r
  rw [run_bind]
  split
  · rename_i a r₁ h₁
    obtain ⟨n, hn⟩ := hf a r₁
    rw [h₁] at hm
    subst hm
    exact ⟨m + n, by rw [hn, advance_advance]⟩
  · rename_i e r₁ h₁
    rw [h₁] at hm
    exact ⟨m, hm⟩

end Decoder
end HardwareSigner
