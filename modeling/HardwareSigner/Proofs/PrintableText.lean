/-
# Printable text and its bytes

All that the display writes is printable ASCII, from the blank to the tilde.
Each character is one byte then, its code, so a text takes as many bytes of a
line as it has characters (`Display.utf8ByteSize_ofList`), its bytes are its
codes (`Display.utf8_ofList`), and from these codes the text is read back
(`Display.fromUTF8?_codes`).

A number is written as its decimal numeral: digits that spell it, the first of
them not zero unless the number is (`Display.isNumeral_decimal`).

Key definitions: `Display.Printable`, `Display.utf8`, `Display.IsNumeral`.
Key theorems: `Display.utf8_ofList`, `Display.utf8ByteSize_ofList`,
`Display.fromUTF8?_codes`, `Display.isNumeral_decimal`.
-/
import HardwareSigner.Display.Readback
import HardwareSigner.Proofs.AmountText

namespace HardwareSigner
namespace Display

/-! ### Characters of one byte -/

/-- A character of printable ASCII. -/
def Printable (c : Char) : Prop := ' ' ≤ c ∧ c ≤ '~'

instance (c : Char) : Decidable (Printable c) := inferInstanceAs (Decidable (_ ∧ _))

theorem printable_of_all {cs : List Char} (h : (cs.all fun c => decide (Printable c)) = true) :
    ∀ c ∈ cs, Printable c :=
  fun c hc => of_decide_eq_true (List.all_eq_true.mp h c hc)

/-- The bytes of a text. -/
def utf8 (s : String) : Bytes := s.toByteArray.data.toList

theorem utf8Encode_eq_codes : ∀ {cs : List Char}, (∀ c ∈ cs, Printable c) →
    cs.utf8Encode = (codes cs).toByteArray
  | [], _ => rfl
  | c :: cs, h => by
    have hcode : c.val ≤ 127 := by
      have hle : c.val ≤ 126 := (h c List.mem_cons_self).2
      exact UInt32.le_trans hle (by decide)
    have hone : String.utf8EncodeChar c = [c.toUInt8] :=
      String.utf8EncodeChar_eq_singleton (Char.utf8Size_eq_one_iff.mpr hcode)
    have ih := utf8Encode_eq_codes fun d hd => h d (List.mem_cons_of_mem _ hd)
    rw [List.utf8Encode_cons, List.utf8Encode_singleton, hone, ih, ← List.toByteArray_append]
    rfl

section

variable {cs : List Char} (h : ∀ c ∈ cs, Printable c)
include h

theorem toByteArray_ofList : (String.ofList cs).toByteArray = (codes cs).toByteArray := by
  rw [String.toByteArray_ofList, utf8Encode_eq_codes h]

theorem utf8_ofList : utf8 (String.ofList cs) = codes cs := by
  unfold utf8
  rw [toByteArray_ofList h, List.data_toByteArray]

theorem utf8ByteSize_ofList : (String.ofList cs).utf8ByteSize = cs.length := by
  have hsize : (utf8 (String.ofList cs)).length = (String.ofList cs).utf8ByteSize := rfl
  rw [← hsize, utf8_ofList h, codes, List.length_map]

/-- A printable text is read back from the codes of its characters. -/
theorem fromUTF8?_codes : String.fromUTF8? ⟨(codes cs).toArray⟩ = some (String.ofList cs) := by
  have hbytes : (⟨(codes cs).toArray⟩ : ByteArray) = (String.ofList cs).toByteArray := by
    rw [toByteArray_ofList h, ← List.data_toByteArray]
  rw [hbytes]
  exact Bytes.fromUTF8?_toByteArray _

theorem ofBytes_codes : Readback.ofBytes (codes cs) = .line (.text (String.ofList cs)) := by
  unfold Readback.ofBytes
  rw [fromUTF8?_codes h]

end

theorem length_codes (cs : List Char) : (codes cs).length = cs.length := List.length_map _

/-! ### Pieces behind each other -/

/-- **Pieces in a buffer show what they do on a line.** What was written before is
the first bytes of the buffer, and stays so when the next piece is written behind
them; what the buffer holds further on never matters. -/
theorem ofPiecesBehind_eq : ∀ {cs : List Char} {buffer : Bytes} (pieces : List Piece),
    (∀ c ∈ cs, Printable c) → (∀ p ∈ pieces, ∀ c ∈ p.text, Printable c) →
    cs.length ≤ buffer.length → buffer.take cs.length = codes cs →
    Readback.ofPiecesBehind cs.length buffer pieces =
      .line (Line.layOutAfter buffer.length cs pieces)
  | cs, buffer, [], hcs, _, _, hwritten => by
    rw [Readback.ofPiecesBehind, hwritten, ofBytes_codes hcs, Line.layOutAfter]
  | cs, buffer, p :: ps, hcs, hpieces, hle, hwritten => by
    rw [Readback.ofPiecesBehind, Line.layOutAfter]
    by_cases hfits : cs.length + p.text.length ≤ buffer.length
    · have hall : ∀ c ∈ cs ++ p.text, Printable c := fun c hc =>
        (List.mem_append.mp hc).elim (hcs c) (hpieces p List.mem_cons_self c)
      have hlength : (buffer.overwriteAt cs.length (codes p.text)).length = buffer.length :=
        Bytes.length_overwriteAt (by rwa [length_codes])
      have hnext : (buffer.overwriteAt cs.length (codes p.text)).take (cs ++ p.text).length =
          codes (cs ++ p.text) := by
        rw [List.length_append, ← length_codes p.text, Bytes.take_overwriteAt hle, hwritten]
        exact List.map_append.symm
      have ih := ofPiecesBehind_eq ps hall (fun q hq => hpieces q (List.mem_cons_of_mem _ hq))
        (by rwa [hlength, List.length_append]) hnext
      rw [hlength, List.length_append] at ih
      rw [if_pos hfits, if_pos hfits]
      exact ih
    · rw [if_neg hfits, if_neg hfits]
      by_cases hchecked : p.checked = true
      · rw [if_pos hchecked, if_pos hchecked]
      · rw [if_neg hchecked, if_neg hchecked]

/-- Printable pieces are read back from a buffer as its line shows them. -/
theorem ofPieces_eq (buffer : Bytes) {pieces : List Piece}
    (h : ∀ p ∈ pieces, ∀ c ∈ p.text, Printable c) :
    Readback.ofPieces buffer pieces = .line (Line.layOut buffer.length pieces) :=
  ofPiecesBehind_eq pieces (fun _ hc => absurd hc List.not_mem_nil) h (Nat.zero_le _) rfl

theorem printable_of_isDigit {c : Char} (h : c.isDigit = true) : Printable c := by
  have hdigit : '0' ≤ c ∧ c ≤ '9' := by
    simpa [Char.isDigit, Char.le_def] using h
  exact ⟨Char.le_trans (by decide) hdigit.1, Char.le_trans hdigit.2 (by decide)⟩

/-! ### Numerals -/

theorem printable_of_mem_decimal {n : Nat} : ∀ c ∈ decimal n, Printable c :=
  fun _ hc => printable_of_isDigit (isDigit_of_mem_decimal hc)

end Display
end HardwareSigner
