/-
# The transfer decoder accepts the written forms of transfers

A call is recognised exactly if it goes to the token contract and a written
form of the transfer stands at the reader (`Transfer.accepts_decoder`); the
decoder then takes just that form. Wherever it stops, it only moved on
(`Transfer.advances_decoder`), so going back to the mark undoes it.

Key definitions: `Memo.forms`.
Key theorems: `Transfer.mem_encodings_iff`, `Transfer.accepts_decoder`,
`Transfer.eq_of_mem_encodings`, `Transfer.advances_decoder`.
-/
import HardwareSigner.Proofs.Grammar
import HardwareSigner.Transfer.Decode

namespace HardwareSigner

open Decoder ByteReader

/-- The forms of a call that carry a memo, each with the memo as it is
written there. -/
def Memo.forms : Memo → List (Transfer.Form × Bytes)
  | none => [(.plain, []), (.textMemo, be32 0)]
  | number n => [(.numberMemo, be64 n)]
  | text s =>
    if s.bytes = [] then [] else [(.textMemo, be32 (UInt32.ofNat s.bytes.length) ++ s.bytes)]

theorem MemoText.toNat_ofNat_length (s : MemoText) :
    (UInt32.ofNat s.bytes.length).toNat = s.bytes.length :=
  UInt32.toNat_ofNat_of_lt' (Nat.lt_of_le_of_lt s.length_le_twenty (by decide))

namespace Transfer

theorem encodings_eq_map (t : Transfer) :
    t.encodings = t.memo.forms.map fun p => call p.1 t.recipient t.amount p.2 := by
  unfold encodings Memo.forms
  cases t.memo with
  | none => rfl
  | number n => rfl
  | text s => by_cases h : s.bytes = [] <;> simp [h]

/-- The written forms of a transfer are calls with the forms of its memo. -/
theorem mem_encodings_iff {t : Transfer} {bs : Bytes} :
    bs ∈ t.encodings ↔
      ∃ form memo, (form, memo) ∈ t.memo.forms ∧ bs = call form t.recipient t.amount memo := by
  simp only [encodings_eq_map, List.mem_map, Prod.exists, eq_comm]

/-! ### The memo -/

/-- What stands behind the length `n` of a text memo: nothing if there is no
text, or a text of that length. -/
def TextMemo (n : UInt32) (m : Memo) (bs : Bytes) : Prop :=
  (n = 0 ∧ m = .none ∧ bs = []) ∨
    (n ≠ 0 ∧ ∃ s : MemoText, m = .text s ∧ bs = s.bytes ∧ s.bytes.length = n.toNat)

theorem mem_forms_textMemo_iff {m : Memo} {bs : Bytes} :
    (Form.textMemo, bs) ∈ m.forms ↔ ∃ n tail, TextMemo n m tail ∧ bs = be32 n ++ tail := by
  constructor
  · intro h
    cases m with
    | none =>
      have hbs : bs = be32 0 := by simpa [Memo.forms] using h
      exact ⟨0, [], .inl ⟨rfl, rfl, rfl⟩, by rw [hbs, List.append_nil]⟩
    | number n => simp [Memo.forms] at h
    | text s =>
      by_cases hs : s.bytes = []
      · simp [Memo.forms, hs] at h
      · have hbs : bs = be32 (UInt32.ofNat s.bytes.length) ++ s.bytes := by
          simpa [Memo.forms, hs] using h
        have hn := s.toNat_ofNat_length
        refine ⟨_, _, .inr ⟨fun h0 => hs ?_, s, rfl, rfl, hn.symm⟩, hbs⟩
        rw [h0] at hn
        exact List.eq_nil_of_length_eq_zero hn.symm
  · rintro ⟨n, _, ⟨rfl, rfl, rfl⟩ | ⟨hn, s, rfl, rfl, hs⟩, rfl⟩
    · simp [Memo.forms]
    · have hne : s.bytes ≠ [] := fun h0 => hn (UInt32.toNat_inj.mp (by simp [← hs, h0]))
      simp [Memo.forms, hne, hs]

theorem accepts_textMemoDecoder :
    textMemoDecoder.Accepts fun m bs => (Form.textMemo, bs) ∈ m.forms := by
  refine ((accepts_field (isField_readUInt32 .big)).bind fun n =>
    accepts_dite (fun _ => accepts_ite (accepts_pure _)
      ((accepts_field (isField_readExact _)).bind fun _ => accepts_pure _))
      fun _ => accepts_fail _).congr fun m bs => ?_
  rw [mem_forms_textMemo_iff]
  constructor
  · rintro ⟨n, _, tail, rfl, ⟨_, h⟩ | ⟨_, hfalse⟩, rfl⟩
    · refine ⟨n, tail, ?_, rfl⟩
      rcases h with ⟨hn, rfl, rfl⟩ | ⟨hn, text, _, _, rfl, ⟨rfl, rfl⟩, rfl⟩
      · exact .inl ⟨hn, rfl, rfl⟩
      · exact .inr ⟨hn, _, rfl, List.append_nil _, text.length_toList⟩
    · exact hfalse.elim
  · rintro ⟨n, tail, h, rfl⟩
    refine ⟨n, _, tail, rfl, .inl ?_, rfl⟩
    rcases h with ⟨rfl, rfl, rfl⟩ | ⟨hn, s, rfl, rfl, hs⟩
    · exact ⟨Nat.zero_le _, .inl ⟨rfl, rfl, rfl⟩⟩
    · exact ⟨hs ▸ s.length_le,
        .inr ⟨hn, ⟨s.bytes, hs⟩, _, _, rfl, ⟨rfl, rfl⟩, (List.append_nil _).symm⟩⟩

theorem mem_forms_plain_iff {m : Memo} {bs : Bytes} :
    (Form.plain, bs) ∈ m.forms ↔ m = .none ∧ bs = [] := by
  cases m with
  | none => simp [Memo.forms]
  | number n => simp [Memo.forms]
  | text s => by_cases hs : s.bytes = [] <;> simp [Memo.forms, hs]

theorem mem_forms_numberMemo_iff {m : Memo} {bs : Bytes} :
    (Form.numberMemo, bs) ∈ m.forms ↔ ∃ n, m = .number n ∧ bs = be64 n := by
  cases m with
  | none => simp [Memo.forms]
  | number n => simp [Memo.forms]
  | text s => by_cases hs : s.bytes = [] <;> simp [Memo.forms, hs]

theorem accepts_memoDecoder (form : Form) :
    form.memoDecoder.Accepts fun m bs => (form, bs) ∈ m.forms := by
  cases form with
  | plain => exact (accepts_pure _).congr fun m bs => mem_forms_plain_iff.symm
  | numberMemo =>
    refine ((accepts_field (isField_readUInt64 .big)).bind fun _ => accepts_pure _).congr
      fun m bs => ?_
    rw [mem_forms_numberMemo_iff]
    constructor
    · rintro ⟨n, _, _, rfl, ⟨rfl, rfl⟩, rfl⟩
      exact ⟨n, rfl, List.append_nil _⟩
    · rintro ⟨n, rfl, rfl⟩
      exact ⟨n, _, _, rfl, ⟨rfl, rfl⟩, (List.append_nil _).symm⟩
  | textMemo => exact accepts_textMemoDecoder

/-! ### The whole transfer -/

/-- Reads a transfer of a known form, behind its shortname. -/
def Form.behindShortname (form : Form) : Decoder TransferError Transfer := do
  let recipient ← .field .recipient ByteReader.readAddress
  let amount ← .field .amount (ByteReader.readUInt64 .big)
  let memo ← form.memoDecoder
  return { recipient, amount, memo }

theorem accepts_behindShortname (form : Form) :
    form.behindShortname.Accepts fun t bs =>
      ∃ memo, (form, memo) ∈ t.memo.forms ∧ bs = t.recipient.bytes ++ be64 t.amount ++ memo := by
  refine ((accepts_field isField_readAddress).bind fun _ =>
    (accepts_field (isField_readUInt64 .big)).bind fun _ =>
    (accepts_memoDecoder form).bind fun _ => accepts_pure _).congr fun t bs => ?_
  constructor
  · rintro ⟨recipient, _, _, rfl, ⟨amount, _, _, rfl, ⟨m, w, _, hw, ⟨rfl, rfl⟩, rfl⟩, rfl⟩, rfl⟩
    exact ⟨w, hw, by simp [be64, Endian.encode]⟩
  · rintro ⟨w, hw, rfl⟩
    exact ⟨t.recipient, _, _, rfl, ⟨t.amount, _, _, rfl, ⟨t.memo, w, _, hw, ⟨rfl, rfl⟩, rfl⟩, rfl⟩,
      by simp [be64, Endian.encode]⟩

/-- Reads a transfer behind a shortname, if it is one. -/
def namedDecoder (shortname : UInt8) : Decoder TransferError Transfer :=
  match Form.ofShortname? shortname with
  | none => .fail .unknownShortname
  | some form => form.behindShortname

theorem accepts_namedDecoder (b : UInt8) :
    (namedDecoder b).Accepts fun t bs => ∃ form : Form, b = form.shortname ∧
      ∃ memo, (form, memo) ∈ t.memo.forms ∧ bs = t.recipient.bytes ++ be64 t.amount ++ memo := by
  unfold namedDecoder
  cases hb : Form.ofShortname? b with
  | none =>
    refine (accepts_fail _).congr fun t bs => ⟨False.elim, ?_⟩
    rintro ⟨form, rfl, -⟩
    rw [Form.ofShortname?_eq_some_iff.mpr rfl] at hb
    cases hb
  | some form =>
    rw [Form.ofShortname?_eq_some_iff] at hb
    refine (accepts_behindShortname form).congr fun t bs => ⟨fun h => ⟨form, hb, h⟩, ?_⟩
    rintro ⟨form', hb', h⟩
    rw [← Form.ofShortname?_eq_some_iff, hb, Form.ofShortname?_eq_some_iff.mpr rfl] at hb'
    cases hb'
    exact h

theorem decoder_tokenContract :
    decoder tokenContract = (.field .missingShortname readByte >>= namedDecoder) := rfl

theorem decoder_of_ne {contract : Address} (h : contract ≠ tokenContract) :
    decoder contract = .fail .unknownContract := if_neg h

/-- **A transfer is recognised exactly where it is written.** The decoder
answers a transfer exactly if the call goes to the token contract and a
written form of the transfer stands at the reader, and it takes that form. -/
theorem accepts_decoder (contract : Address) :
    (decoder contract).Accepts fun t bs => contract = tokenContract ∧ bs ∈ t.encodings := by
  by_cases hc : contract = tokenContract
  · subst hc
    rw [decoder_tokenContract]
    refine ((accepts_field isField_readByte).bind accepts_namedDecoder).congr fun t bs => ?_
    rw [mem_encodings_iff]
    constructor
    · rintro ⟨_, _, _, rfl, ⟨form, rfl, memo, hm, rfl⟩, rfl⟩
      exact ⟨rfl, form, memo, hm, by simp [call]⟩
    · rintro ⟨-, form, memo, hm, rfl⟩
      exact ⟨_, _, _, rfl, ⟨form, rfl, memo, hm, rfl⟩, by simp [call]⟩
  · rw [decoder_of_ne hc]
    exact (accepts_fail _).congr fun t bs => ⟨False.elim, fun h => hc h.1⟩

/-- No call is written as two transfers. -/
theorem eq_of_mem_encodings {t t' : Transfer} {bs : Bytes} (h : bs ∈ t.encodings)
    (h' : bs ∈ t'.encodings) : t = t' :=
  ((accepts_decoder tokenContract).unique ⟨rfl, h⟩ ⟨rfl, h'⟩ List.prefix_rfl List.prefix_rfl).1

/-! ### The decoder only moves on -/

theorem advances_memoDecoder (form : Form) : form.memoDecoder.Advances := by
  cases form with
  | plain => exact advances_pure _
  | numberMemo =>
    exact (advances_field (isField_readUInt64 .big)).bind fun _ => advances_pure _
  | textMemo =>
    refine (advances_field (isField_readUInt32 .big)).bind fun n => ?_
    split
    · split
      · exact advances_pure _
      · exact (advances_field (isField_readExact _)).bind fun _ => advances_pure _
    · exact advances_fail _

theorem advances_namedDecoder (b : UInt8) : (namedDecoder b).Advances := by
  unfold namedDecoder
  split
  · exact advances_fail _
  · exact (advances_field isField_readAddress).bind fun _ =>
      (advances_field (isField_readUInt64 .big)).bind fun _ =>
      (advances_memoDecoder _).bind fun _ => advances_pure _

/-- The transfer decoder only moves the reader on. -/
theorem advances_decoder (contract : Address) : (decoder contract).Advances := by
  by_cases hc : contract = tokenContract
  · subst hc
    rw [decoder_tokenContract]
    exact (advances_field isField_readByte).bind advances_namedDecoder
  · rw [decoder_of_ne hc]
    exact advances_fail _

end Transfer
end HardwareSigner
