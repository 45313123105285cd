/-
# Written transfers are a code

A transfer is written field by field: shortname, recipient, amount, and a memo
that is left out, a number, or the length of a text and the text
(`Transfer.LaidOut`). The decoder accepts just this grammar. It answers a
transfer and takes `k` bytes exactly if the call goes to the token contract and
the next `k` bytes are a written form of the transfer, so nothing behind them
matters.

Hence the written forms are a prefix code: none of them begins another one. The
code is not quite one to one. A transfer without memo has two written forms, as
the length of no text also writes no memo; an empty text has none, and any
other transfer has one (`Transfer.decodable_iff`).

Key definitions: `Transfer.LaidOut`, `Transfer.Written`, `Transfer.Whole`.
Key theorems: `Transfer.written_iff_mem_encodings`, `Transfer.accepts_written`,
`Transfer.eq_of_prefix`, `Transfer.decodable_iff`,
`Transfer.read_where_written`.
-/
import HardwareSigner.Proofs.TransferGrammar

namespace HardwareSigner

open Decoder ByteReader

namespace Transfer

/-! ### The grammar -/

/-- The fields that every call begins with, each with the cause that is given
where it is missing. -/
def front (shortname : UInt8) (recipient : Address) (amount : UInt64) :
    List (TransferError × Bytes) :=
  [(.missingShortname, [shortname]), (.recipient, recipient.bytes), (.amount, be64 amount)]

/-- The ways to lay out a transfer in fields, each with the cause that is given
where it is missing. The length of a text memo is a field of its own. -/
inductive LaidOut : Transfer → List (TransferError × Bytes) → Prop
  | plain (recipient : Address) (amount : UInt64) :
      LaidOut ⟨recipient, amount, .none⟩ (front 3 recipient amount)
  | numberMemo (recipient : Address) (amount n : UInt64) :
      LaidOut ⟨recipient, amount, .number n⟩ (front 13 recipient amount ++ [(.memo, be64 n)])
  | noText (recipient : Address) (amount : UInt64) :
      LaidOut ⟨recipient, amount, .none⟩ (front 23 recipient amount ++ [(.memo, be32 0)])
  | textMemo (recipient : Address) (amount : UInt64) (text : MemoText) (length : UInt32)
      (hpos : 1 ≤ text.bytes.length) (hlength : length.toNat = text.bytes.length) :
      LaidOut ⟨recipient, amount, .text text⟩
        (front 23 recipient amount ++ [(.memo, be32 length), (.memo, text.bytes)])

/-- The fields of the transfer, one behind the other, are `bs`. -/
def Written (t : Transfer) (bs : Bytes) : Prop :=
  ∃ fields, t.LaidOut fields ∧ bs = fields.flatMap Prod.snd

theorem written_iff_mem_encodings {t : Transfer} {bs : Bytes} :
    t.Written bs ↔ bs ∈ t.encodings := by
  constructor
  · rintro ⟨fields, hfields, rfl⟩
    cases hfields with
    | plain recipient amount => simp [encodings, call, front, Form.shortname]
    | numberMemo recipient amount n => simp [encodings, call, front, Form.shortname]
    | noText recipient amount => simp [encodings, call, front, Form.shortname]
    | textMemo recipient amount text length hpos hlength =>
      have hne : text.bytes ≠ [] := List.length_pos_iff.mp hpos
      have hword : UInt32.ofNat text.bytes.length = length := by
        rw [← hlength, UInt32.ofNat_toNat]
      simp [encodings, call, front, Form.shortname, hne, hword]
  · intro h
    obtain ⟨recipient, amount, memo⟩ := t
    cases memo with
    | none =>
      rcases List.mem_cons.mp h with rfl | h
      · exact ⟨_, .plain recipient amount, by simp [call, front, Form.shortname]⟩
      · cases List.mem_singleton.mp h
        exact ⟨_, .noText recipient amount, by simp [call, front, Form.shortname]⟩
    | number n =>
      cases List.mem_singleton.mp h
      exact ⟨_, .numberMemo recipient amount n, by simp [call, front, Form.shortname]⟩
    | text s =>
      by_cases hs : s.bytes = []
      · simp [encodings, hs] at h
      · have hbs : bs = call .textMemo recipient amount
            (be32 (UInt32.ofNat s.bytes.length) ++ s.bytes) := by
          simpa [encodings, hs] using h
        subst hbs
        exact ⟨_, .textMemo recipient amount s _ (List.length_pos_iff.mpr hs) s.toNat_ofNat_length,
          by simp [call, front, Form.shortname]⟩

theorem accepts_written (contract : Address) :
    (decoder contract).Accepts fun t bs => contract = tokenContract ∧ t.Written bs := by
  simp only [written_iff_mem_encodings]
  exact accepts_decoder contract

/-! ### A prefix code -/

theorem eq_of_prefix {t t' : Transfer} {bs bs' : Bytes} (h : t.Written bs) (h' : t'.Written bs')
    (hbegins : bs <+: bs') : bs = bs' ∧ t = t' := by
  -- In front of `bs'` the decoder would accept both.
  obtain ⟨ht, hbs⟩ :=
    (accepts_written tokenContract).unique ⟨rfl, h⟩ ⟨rfl, h'⟩ hbegins List.prefix_rfl
  exact ⟨hbs, ht⟩

/-- `bs` is read as `t`, to the last byte. -/
def Whole (t : Transfer) (bs : Bytes) : Prop :=
  (decoder tokenContract).run (ofBytes bs) = (.ok t, (ofBytes bs).advance bs.length)

theorem whole_iff_written {t : Transfer} {bs : Bytes} : t.Whole bs ↔ t.Written bs := by
  unfold Whole
  rw [(accepts_written tokenContract).run_eq_iff]
  show bs.length ≤ bs.length ∧ tokenContract = tokenContract ∧ t.Written (bs.take bs.length) ↔ _
  rw [List.take_length]
  exact ⟨fun h => h.2.2, fun h => ⟨Nat.le_refl _, rfl, h⟩⟩

/-- A transfer without memo is written in two ways. -/
theorem whole_iff_of_memo_eq_none {t : Transfer} (h : t.memo = .none) :
    ∃ a b, a ≠ b ∧ ∀ bs, t.Whole bs ↔ bs = a ∨ bs = b := by
  refine ⟨call .plain t.recipient t.amount [], call .textMemo t.recipient t.amount (be32 0),
    ?_, fun bs => ?_⟩
  · intro heq
    have hname := congrArg List.head? heq
    simp [call, Form.shortname] at hname
  · rw [whole_iff_written, written_iff_mem_encodings]
    unfold encodings
    rw [h]
    simp

theorem eq_of_whole_of_memo_ne_none {t : Transfer} (h : t.memo ≠ .none) {bs bs' : Bytes}
    (hbs : t.Whole bs) (hbs' : t.Whole bs') : bs = bs' := by
  rw [whole_iff_written] at hbs hbs'
  obtain ⟨fields, hfields, rfl⟩ := hbs
  obtain ⟨fields', hfields', rfl⟩ := hbs'
  cases hfields with
  | plain => exact absurd rfl h
  | noText => exact absurd rfl h
  | numberMemo recipient amount n =>
    cases hfields'
    rfl
  | textMemo recipient amount text length hpos hlength =>
    cases hfields' with
    | textMemo _ _ _ length' hpos' hlength' =>
      have hsame : length = length' := UInt32.toNat_inj.mp (hlength.trans hlength'.symm)
      rw [hsame]

/-- Just the transfers with an empty text for a memo cannot be written. -/
theorem decodable_iff (t : Transfer) :
    (∃ bs, t.Whole bs) ↔ ∀ text, t.memo = .text text → text.bytes ≠ [] := by
  simp only [whole_iff_written]
  constructor
  · rintro ⟨bs, fields, hfields, -⟩ text htext
    cases hfields with
    | plain => cases htext
    | numberMemo => cases htext
    | noText => cases htext
    | textMemo recipient amount text' length hpos hlength =>
      cases htext
      exact List.length_pos_iff.mp hpos
  · intro h
    obtain ⟨recipient, amount, memo⟩ := t
    cases memo with
    | none => exact ⟨_, _, .plain recipient amount, rfl⟩
    | number n => exact ⟨_, _, .numberMemo recipient amount n, rfl⟩
    | text s =>
      exact ⟨_, _, .textMemo recipient amount s _ (List.length_pos_iff.mpr (h s rfl))
        s.toNat_ofNat_length, rfl⟩

/-! ### The decoder and the code -/

/-- **A transfer is read where it is written.** The decoder answers `t` and takes
`k` bytes exactly if the call goes to the token contract and the next `k` bytes
are a written form of `t`; with an answer it has always taken some bytes. So a
written form is read back whatever is behind it, and the answer is told by the
bytes that were taken. Two byte strings are read whole as a transfer without
memo, one as any other transfer that can be written, and no written form begins
another one. -/
theorem read_where_written :
    (∀ (contract : Address) (r : ByteReader) (t : Transfer),
      (∀ k, (decoder contract).run r = (.ok t, r.advance k) ↔
        contract = tokenContract ∧ k ≤ r.remaining ∧ t.Written (r.rest.take k)) ∧
      ∀ r', (decoder contract).run r = (.ok t, r') → ∃ k, r' = r.advance k) ∧
    (∀ (t : Transfer) (bs behind : Bytes) (r : ByteReader), t.Written bs → r.rest = bs ++ behind →
      (decoder tokenContract).run r = (.ok t, r.advance bs.length)) ∧
    (∀ (contract : Address) (r s : ByteReader) (t : Transfer) (k : Nat),
      (decoder contract).run r = (.ok t, r.advance k) → s.rest.take k = r.rest.take k →
        (decoder contract).run s = (.ok t, s.advance k)) ∧
    (∀ t : Transfer, t.memo = .none → ∃ a b, a ≠ b ∧ ∀ bs, t.Whole bs ↔ bs = a ∨ bs = b) ∧
    (∀ t : Transfer, t.memo ≠ .none → (∃ bs, t.Whole bs) → ∃ a, ∀ bs, t.Whole bs ↔ bs = a) ∧
    (∀ t : Transfer, (∃ bs, t.Whole bs) ↔ ∀ text, t.memo = .text text → text.bytes ≠ []) ∧
    ∀ (t t' : Transfer) (bs bs' : Bytes), t.Written bs → t'.Written bs' → bs <+: bs' →
      bs = bs' ∧ t = t' := by
  refine ⟨fun contract r t => ⟨fun k => ?_, fun r' h => ?_⟩, ?_, ?_, ?_, ?_, decodable_iff, ?_⟩
  · rw [(accepts_written contract).run_eq_iff]
    exact and_left_comm
  · obtain ⟨bs, -, -, hr'⟩ := (accepts_written contract r r' t).mp h
    exact ⟨bs.length, hr'⟩
  · intro t bs behind r hbs hr
    apply (accepts_written tokenContract r _ t).mpr
    exact ⟨bs, ⟨rfl, hbs⟩, hr ▸ List.prefix_append bs behind, rfl⟩
  · intro contract r s t k h hsame
    exact (accepts_written contract).run_congr h hsame
  · intro t h
    exact whole_iff_of_memo_eq_none h
  · rintro t h ⟨a, ha⟩
    refine ⟨a, fun bs => ⟨fun hbs => eq_of_whole_of_memo_ne_none h hbs ha, ?_⟩⟩
    rintro rfl
    exact ha
  · intro t t' bs bs' h h' hbegins
    exact eq_of_prefix h h' hbegins

/-- Between other bytes, a transfer with a number for a memo is read where it is
written, and there is no other way to write it. -/
theorem read_where_written_numberMemo :
    let t : Transfer := ⟨.zero, 90000, .number 7⟩
    let bs := call .numberMemo .zero 90000 (be64 7)
    let r : ByteReader := ⟨[1, 2] ++ bs ++ [9], 2⟩
    t.Written bs ∧ (decoder tokenContract).run r = (.ok t, r.advance 38) ∧
      ∀ bs', t.Whole bs' ↔ bs' = bs := by
  intro t bs r
  have hwritten : t.Written bs := ⟨_, .numberMemo .zero 90000 7, rfl⟩
  obtain ⟨-, hread, -, -, hone, -, -⟩ := read_where_written
  obtain ⟨a, ha⟩ := hone t Memo.noConfusion ⟨bs, whole_iff_written.mpr hwritten⟩
  have hbs : bs = a := (ha bs).mp (whole_iff_written.mpr hwritten)
  exact ⟨hwritten, hread t bs [9] r hwritten rfl, hbs ▸ ha⟩

end Transfer
end HardwareSigner
