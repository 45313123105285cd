/-
# What the user is shown of a transaction

Each field of a transfer has a line: the amount in tokens with its unit, the
gas as a plain number, an address in hexadecimal digits, a memo as a number
or as text. Bytes of a text memo that are not printable ASCII are shown as
question marks.

An amount is shown without trailing zeros in its fraction, and without a
fraction if it is whole. The zeros between the point and the first digit of
the fraction are the only piece that is written unchecked. Amounts from
`2 ^ 63` on are not shown.

Key definitions: `Display.tokenAmount`, `Display.gas`, `Display.address`,
`Display.memo`.
-/
import HardwareSigner.Display.Line
import HardwareSigner.Transfer.Basic

namespace HardwareSigner
namespace Display

/-- How many of the amount's units make a token. -/
def tokenScale : Nat := 10000

/-- The most an amount can be to be shown. -/
def maxAmount : Nat := 0x7fffffffffffffff

/-- How many characters an address takes. -/
def addressLength : Nat := 2 * Address.length

/-- A number in decimal digits, without leading zeros. -/
def decimal (n : Nat) : List Char := Nat.toDigits 10 n

/-- A text without the zeros at its end. -/
def dropTrailingZeros (cs : List Char) : List Char := (cs.reverse.dropWhile (· == '0')).reverse

/-- A piece that is written only if it fits. -/
def checked (cs : List Char) : Piece := ⟨cs, true⟩

/-- A piece that is written whether or not it fits. -/
def unchecked (cs : List Char) : Piece := ⟨cs, false⟩

/-- The fraction of an amount, in units of which `tokenScale` make a token: a
point, the zeros in front of its first digit, and its digits up to the last
that is not zero. A fraction of zero is not written. -/
def fraction (units : Nat) : List Piece :=
  if units = 0 then []
  else
    let digits := decimal units
    [checked ['.'], unchecked (List.replicate (4 - digits.length) '0'),
      checked (dropTrailingZeros digits)]

/-- The pieces of an amount: whole tokens, fraction, unit. -/
def amountPieces (amount : Nat) : List Piece :=
  checked (decimal (amount / tokenScale)) :: fraction (amount % tokenScale) ++
    [checked " MPC".toList]

/-- An amount of tokens. -/
def tokenAmount (amount : UInt64) (capacity : Nat) : Line :=
  if amount.toNat ≤ maxAmount then Line.layOut capacity (amountPieces amount.toNat) else .unfit

/-- A cost in gas. -/
def gas (cost : UInt64) (capacity : Nat) : Line :=
  Line.layOut capacity [checked (decimal cost.toNat)]

/-- An address. -/
def address (a : Address) (capacity : Nat) : Line := Line.layOut capacity [checked a.text]

/-- A byte of a memo: itself if it is printable ASCII, else a question mark. -/
def printable (b : UInt8) : Char := if 0x20 ≤ b ∧ b ≤ 0x7e then Char.ofNat b.toNat else '?'

/-- The text of a memo. -/
def memoText : Memo → List Char
  | .none => []
  | .number n => decimal n.toNat
  | .text t => t.bytes.map printable

/-- A memo. -/
def memo (m : Memo) (capacity : Nat) : Line := Line.layOut capacity [checked (memoText m)]

end Display
end HardwareSigner
