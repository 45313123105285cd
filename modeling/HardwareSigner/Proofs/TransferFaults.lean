/-
# Where the transfer decoder stops

What keeps a call from being read as a transfer is told by its first bytes: the
contract, the shortname, how many bytes there are, and what length a text memo
claims to have (`Transfer.fault?`). The checks come in this order, and a text
that is too long is refused at its length, whether or not it is there. The
decoder stops exactly at this fault (`Transfer.stops_decoder`).

The same said of written transfers: cut one anywhere, and the decoder names the
field that is cut and is left at its start.

Key definitions: `Transfer.fault?`.
Key theorems: `Transfer.behind_namedFault`, `Transfer.stops_decoder`,
`Transfer.LaidOut.stopsWithin`, `Transfer.stops_at_first_fault`.
-/
import HardwareSigner.Proofs.Faults
import HardwareSigner.Proofs.TransferCode

namespace HardwareSigner

open Decoder ByteReader

namespace Transfer

/-- What keeps the bytes of a call from being a transfer, and how many of them
are passed before this is seen. -/
def fault? (contract : Address) (bs : Bytes) : Option (TransferError × Nat) :=
  if contract ≠ tokenContract then some (.unknownContract, 0)
  else match bs with
  | [] => some (.missingShortname, 0)
  | shortname :: _ =>
    let textLength := ofBigEndian ((bs.drop 30).take 4)
    if shortname ≠ 3 ∧ shortname ≠ 13 ∧ shortname ≠ 23 then some (.unknownShortname, 1)
    else if bs.length < 22 then some (.recipient, 1)
    else if bs.length < 30 then some (.amount, 22)
    else if shortname = 13 ∧ bs.length < 38 then some (.memo, 30)
    else if shortname = 23 ∧ bs.length < 34 then some (.memo, 30)
    else if shortname = 23 ∧ 20 < textLength then some (.memo, 34)
    else if shortname = 23 ∧ bs.length < 34 + textLength then some (.memo, 34)
    else none

/-! ### The faults of the fields -/

/-- The fault of a memo's text, told the bytes of its length. -/
def textFault (length text : Bytes) : Option (TransferError × Nat) :=
  if 20 < ofBigEndian length ∨ text.length < ofBigEndian length then some (.memo, 0) else none

/-- The fault of a memo. -/
def Form.memoFault : Form → Bytes → Option (TransferError × Nat)
  | .plain => fun _ => none
  | .numberMemo => fun bs => if bs.length < 8 then some (.memo, 0) else none
  | .textMemo => behind .memo 4 textFault

/-- The fault of what is behind a shortname. -/
def namedFault (shortname : Bytes) : Bytes → Option (TransferError × Nat) :=
  match Form.ofShortname? (shortname.headD 0) with
  | none => fun _ => some (.unknownShortname, 0)
  | some form => behind .recipient 21 fun _ => behind .amount 8 fun _ => form.memoFault

theorem stops_textMemoDecoder : textMemoDecoder.Stops (behind .memo 4 textFault) := by
  apply stops_field_bind (isField_readUInt32 .big)
  intro n
  have hn : ofBigEndian (Endian.big.encode 4 n.toNat) = n.toNat := ofBigEndian_be32 n
  have h20 : MemoText.maxLength = 20 := rfl
  unfold textFault
  rw [hn]
  by_cases hle : n.toNat ≤ MemoText.maxLength
  · rw [dif_pos hle]
    by_cases hzero : n = 0
    · rw [if_pos hzero]
      refine (stops_pure _).congr fun bs => (if_neg ?_).symm
      rw [hzero]
      show ¬(20 < 0 ∨ bs.length < 0)
      omega
    · rw [if_neg hzero]
      refine ((stops_field (isField_readExact _)).bind_pure _).congr fun bs => ?_
      exact ite_congr (propext (by omega)) (fun _ => rfl) fun _ => rfl
  · rw [dif_neg hle]
    exact (stops_fail _).congr fun bs => (if_pos (by omega)).symm

theorem stops_memoDecoder (form : Form) : form.memoDecoder.Stops form.memoFault := by
  cases form with
  | plain => exact stops_pure _
  | numberMemo => exact (stops_field (isField_readUInt64 .big)).bind_pure _
  | textMemo => exact stops_textMemoDecoder

theorem stops_namedDecoder (b : UInt8) : (namedDecoder b).Stops (namedFault [b]) := by
  unfold namedDecoder namedFault
  show Decoder.Stops _ (match Form.ofShortname? b with
    | none => fun _ => some (.unknownShortname, 0)
    | some form => behind .recipient 21 fun _ => behind .amount 8 fun _ => form.memoFault)
  cases Form.ofShortname? b with
  | none => exact stops_fail _
  | some form =>
    exact stops_field_bind isField_readAddress fun _ =>
      stops_field_bind (isField_readUInt64 .big) fun _ => (stops_memoDecoder form).bind_pure _

/-! ### The fault of a call -/

/-- Behind the shortname of a form come the recipient, the amount and the memo. -/
theorem namedFault_shortname (form : Form) (bs : Bytes) :
    namedFault [form.shortname] bs =
      if bs.length < 21 then some (.recipient, 0)
      else if bs.length < 29 then some (.amount, 21)
      else (form.memoFault (bs.drop 29)).map fun p => (p.1, 29 + p.2) := by
  have hname : Form.ofShortname? ([form.shortname].headD 0) = some form :=
    Form.ofShortname?_eq_some_iff.mpr rfl
  unfold namedFault
  rw [hname]
  show behind .recipient 21 (fun _ => behind .amount 8 fun _ => form.memoFault) bs = _
  unfold behind
  by_cases h21 : bs.length < 21
  · rw [if_pos h21, if_pos h21]
  rw [if_neg h21, if_neg h21]
  simp only [List.length_drop, List.drop_drop]
  by_cases h29 : bs.length < 29
  · rw [if_pos (by omega), if_pos h29]
    rfl
  · rw [if_neg (by omega), if_neg h29, Option.map_map]
    congr 1
    funext p
    show (p.1, 21 + (8 + p.2)) = (p.1, 29 + p.2)
    rw [← Nat.add_assoc]

theorem namedFault_of_none {b : UInt8} (h : Form.ofShortname? b = none) (bs : Bytes) :
    namedFault [b] bs = some (.unknownShortname, 0) := by
  have hname : Form.ofShortname? ([b].headD 0) = none := h
  unfold namedFault
  rw [hname]

theorem behind_namedFault (bs : Bytes) :
    behind .missingShortname 1 namedFault bs = fault? tokenContract bs := by
  unfold fault?
  rw [if_neg (not_not_intro rfl)]
  cases bs with
  | nil => rfl
  | cons b bs =>
    have hone : behind .missingShortname 1 namedFault (b :: bs) =
        (namedFault [b] bs).map fun p => (p.1, 1 + p.2) := if_neg (by simp)
    rw [hone]
    cases hname : Form.ofShortname? b with
    | none =>
      have hne : ∀ form : Form, b ≠ form.shortname := by
        intro form hform
        rw [Form.ofShortname?_eq_some_iff.mpr hform] at hname
        cases hname
      rw [namedFault_of_none hname]
      exact (if_pos ⟨hne .plain, hne .numberMemo, hne .textMemo⟩).symm
    | some form =>
      obtain rfl := Form.ofShortname?_eq_some_iff.mp hname
      rw [namedFault_shortname]
      -- Only lengths are left to compare, counted from the shortname or from behind it.
      cases form with
      | plain =>
        simp only [Form.shortname, Form.memoFault, List.length_cons]
        grind
      | numberMemo =>
        simp only [Form.shortname, Form.memoFault, List.length_cons, List.length_drop]
        grind
      | textMemo =>
        simp only [Form.shortname, Form.memoFault, behind, textFault, List.length_cons,
          List.length_drop, List.drop_drop, List.drop_succ_cons]
        grind

/-- **The decoder stops at the first fault.** -/
theorem stops_decoder (contract : Address) : (decoder contract).Stops (fault? contract) := by
  by_cases hc : contract = tokenContract
  · subst hc
    rw [decoder_tokenContract]
    exact (stops_field_bind isField_readByte stops_namedDecoder).congr behind_namedFault
  · rw [decoder_of_ne hc]
    exact (stops_fail _).congr fun bs => (if_pos hc).symm

theorem fault?_ne_lengthMismatch {contract : Address} {bs : Bytes} {e : TransferError} {k : Nat}
    (h : fault? contract bs = some (e, k)) : e ≠ .lengthMismatch := by
  rintro rfl
  unfold fault? at h
  grind

/-! ### Written forms that are cut -/

theorem namedDecoder_shortname (form : Form) :
    namedDecoder form.shortname = form.behindShortname := by
  unfold namedDecoder
  rw [Form.ofShortname?_eq_some_iff.mpr rfl]

theorem stopsWithin_front (form : Form) (recipient : Address) (amount : UInt64)
    {memo : List (TransferError × Bytes)} (h : form.memoDecoder.StopsWithin memo) :
    (decoder tokenContract).StopsWithin (front form.shortname recipient amount ++ memo) := by
  rw [decoder_tokenContract]
  apply stopsWithin_cons isField_readByte
  rw [namedDecoder_shortname]
  apply stopsWithin_cons isField_readAddress
  apply stopsWithin_cons (isField_readUInt64 .big)
  exact h.bind _

theorem stopsWithin_text {text : MemoText} {length : UInt32} (hpos : 1 ≤ text.bytes.length)
    (hlength : length.toNat = text.bytes.length) :
    textMemoDecoder.StopsWithin [(.memo, be32 length), (.memo, text.bytes)] := by
  apply stopsWithin_cons (isField_readUInt32 .big)
  have hzero : length ≠ 0 := by
    rintro rfl
    exact absurd hlength (by show 0 ≠ _; omega)
  rw [dif_pos (hlength ▸ text.length_le), if_neg hzero]
  exact stopsWithin_cons (a := ⟨text.bytes, hlength.symm⟩) (isField_readExact length.toNat)
    (stopsWithin_nil _)

/-- Cut within any of its fields, a written transfer is refused for that field. -/
theorem LaidOut.stopsWithin {t : Transfer} {fields : List (TransferError × Bytes)}
    (h : t.LaidOut fields) : (decoder tokenContract).StopsWithin fields := by
  cases h with
  | plain recipient amount =>
    rw [← List.append_nil (front 3 recipient amount)]
    exact stopsWithin_front .plain recipient amount (stopsWithin_nil _)
  | numberMemo recipient amount n =>
    apply stopsWithin_front .numberMemo
    exact stopsWithin_cons (isField_readUInt64 .big) (stopsWithin_nil _)
  | noText recipient amount =>
    apply stopsWithin_front .textMemo
    exact stopsWithin_cons (isField_readUInt32 .big) (stopsWithin_nil _)
  | textMemo recipient amount text length hpos hlength =>
    exact stopsWithin_front .textMemo recipient amount (stopsWithin_text hpos hlength)

/-- **The first bad field is reported.** The decoder fails exactly where the bytes
have a fault, with its cause and having passed what is in front of it. So if a
written transfer is cut at any point, the cause is that of the field that is
cut, and the reader is left at the start of this field. -/
theorem stops_at_first_fault :
    (∀ (contract : Address) (r r' : ByteReader) (e : TransferError),
      (decoder contract).run r = (.error e, r') ↔
        ∃ k, fault? contract r.rest = some (e, k) ∧ r' = r.advance k) ∧
    ∀ (t : Transfer) (fields : List (TransferError × Bytes)), t.LaidOut fields →
      ∀ m < (fields.flatMap Prod.snd).length, ∃ before e bs after part,
        fields = before ++ (e, bs) :: after ∧ part <+: bs ∧ part.length < bs.length ∧
        m = (before.flatMap Prod.snd).length + part.length ∧
        ∀ r : ByteReader, r.rest = (fields.flatMap Prod.snd).take m →
          (decoder tokenContract).run r =
            (.error e, r.advance (before.flatMap Prod.snd).length) := by
  refine ⟨fun contract r r' e => stops_decoder contract r e r', fun t fields hfields m hm => ?_⟩
  obtain ⟨before, e, bs, after, part, heq, hpart, hlt, hlen, htake⟩ := exists_cut_field fields hm
  refine ⟨before, e, bs, after, part, heq, hpart, hlt, hlen, fun r hr => ?_⟩
  exact hfields.stopsWithin before e bs after heq part hpart hlt r (hr.trans htake)

/-- A text of twenty-one bytes is refused at its length, though it is all there;
a number for a memo that is cut off, where it starts. -/
theorem stops_at_first_fault_memo :
    let longText := ofBytes (call .textMemo .zero 90000 (be32 21 ++ List.replicate 21 97))
    let fields := front 13 .zero 90000 ++ [(.memo, be64 7)]
    let cut := ofBytes ((fields.flatMap Prod.snd).take 35)
    (decoder tokenContract).run longText = (.error .memo, longText.advance 34) ∧
      (decoder tokenContract).run cut = (.error .memo, cut.advance 30) ∧
      ∃ before bs after, fields = before ++ (.memo, bs) :: after ∧
        (before.flatMap Prod.snd).length = 30 := by
  intro longText fields cut
  obtain ⟨hfault, hcut⟩ := stops_at_first_fault
  have hrun : (decoder tokenContract).run cut = (.error .memo, cut.advance 30) :=
    (hfault tokenContract cut _ .memo).mpr ⟨30, by decide, rfl⟩
  refine ⟨(hfault tokenContract longText _ .memo).mpr ⟨34, by decide, rfl⟩, hrun, ?_⟩
  obtain ⟨before, e, bs, after, part, heq, -, -, -, hstop⟩ :=
    hcut _ fields (.numberMemo .zero 90000 7) 35 (by decide)
  have hsame := hrun.symm.trans (hstop cut rfl)
  simp only [Prod.mk.injEq, Except.error.injEq] at hsame
  obtain ⟨rfl, hend⟩ := hsame
  exact ⟨before, bs, after, heq, (Nat.add_left_cancel (congrArg ByteReader.offset hend)).symm⟩

end Transfer
end HardwareSigner
