/-
# The buffer behind a line

A line is kept in a buffer of bytes, which may hold anything when a field is
shown. The field's bytes are written from its start, if it has room for them, and
as many bytes are read back as UTF-8. If they are none, an error text of its own
is shown. An amount is written piece by piece, each behind the one before it
(`Readback.ofPieces`). That what is read back is always UTF-8, and that a line
shows it whatever the buffer held, is proved in `Proofs.AmountLines` and
`Proofs.FieldTexts`.

Key definitions: `Readback`, `Readback.ofBuffer`, `Readback.ofPieces`,
`Display.tokenAmountIn`, `Display.gasIn`, `Display.memoIn`, `Display.addressIn`.
-/
import HardwareSigner.Display.Field

namespace HardwareSigner

/-- What is read back from the buffer behind a line. -/
inductive Readback
  | line (l : Line)
  /-- The bytes that were written are no UTF-8. -/
  | malformed
  deriving DecidableEq, Repr

namespace Readback

/-- What is shown in place of bytes that are no UTF-8. -/
def malformedText : String := "INVALID_UTF8"

/-- What the user is shown, unless the end was run over. -/
def shown? : Readback → Option String
  | line l => l.shown?
  | malformed => some malformedText

/-- The text that bytes make. -/
def ofBytes (bs : Bytes) : Readback :=
  match String.fromUTF8? ⟨bs.toArray⟩ with
  | some s => line (.text s)
  | none => malformed

end Readback

namespace Display

/-- The codes of characters, a byte each. -/
def codes (cs : List Char) : Bytes := cs.map Char.toUInt8

end Display

/-- Write pieces into a buffer behind the `n` bytes of it that are written
already, and read all of these back. -/
def Readback.ofPiecesBehind (n : Nat) (buffer : Bytes) : List Piece → Readback
  | [] => ofBytes (buffer.take n)
  | p :: ps =>
    if n + p.text.length ≤ buffer.length then
      ofPiecesBehind (n + p.text.length) (buffer.overwriteAt n (Display.codes p.text)) ps
    else if p.checked then line .unfit
    else line .overrun

/-- Write pieces from the start of a buffer, and read them back. -/
def Readback.ofPieces (buffer : Bytes) (pieces : List Piece) : Readback :=
  ofPiecesBehind 0 buffer pieces

namespace Display

/-- An amount of tokens, read back from a buffer. -/
def tokenAmountIn (amount : UInt64) (buffer : Bytes) : Readback :=
  if amount.toNat ≤ maxAmount then Readback.ofPieces buffer (amountPieces amount.toNat)
  else .line .unfit

end Display
end HardwareSigner
