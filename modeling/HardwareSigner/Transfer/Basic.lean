/-
# Token transfers

The one contract call that the device can show in full is a transfer of
tokens: a recipient, an amount in ten-thousandths of a token, and perhaps a
memo, which is a number or a short text. A call to the token contract starts
with a shortname, one byte that tells which form of transfer follows.

A transfer is written as its form's shortname, the recipient, the amount and
the memo. A transfer without memo has two written forms, the plain one and
the one with a text memo of length zero; one with a number or a text has one;
an empty text cannot be written, because it would be read as no memo.

Key definitions: `Memo`, `Transfer`, `Transfer.Form`, `tokenContract`,
`Transfer.call`, `Transfer.encodings`.
-/
import HardwareSigner.Address

namespace HardwareSigner

/-- The most bytes a text memo has. -/
def MemoText.maxLength : Nat := 20

/-- At most twenty bytes of text. -/
@[ext] structure MemoText where
  bytes : Bytes
  length_le : bytes.length ≤ MemoText.maxLength
  deriving DecidableEq

/-- A list of bytes as a memo's text, if they are not too many. -/
def MemoText.ofList? (bs : Bytes) : Option MemoText :=
  if h : bs.length ≤ maxLength then some ⟨bs, h⟩ else none

theorem MemoText.length_le_twenty (t : MemoText) : t.bytes.length ≤ 20 := t.length_le

/-- What the sender notes on a transfer. -/
inductive Memo
  | none
  | number (n : UInt64)
  | text (t : MemoText)
  deriving DecidableEq

namespace Memo

/-- How many bytes a memo takes: eight for a number. -/
def length : Memo → Nat
  | none => 0
  | number _ => 8
  | text t => t.bytes.length

/-- Whether a memo takes no bytes. -/
def isEmpty (m : Memo) : Bool := m.length == 0

end Memo

/-- A transfer of tokens; the amount is in ten-thousandths of a token. -/
structure Transfer where
  recipient : Address
  amount : UInt64
  memo : Memo
  deriving DecidableEq

/-- The contract that holds the tokens. -/
def tokenContract : Address where
  tag := 0x01
  identifier := ⟨[
    0xa4, 0x08, 0x2d, 0x9d, 0x56, 0x07, 0x49, 0xec, 0xd0, 0xff,
    0xa1, 0xdc, 0xaa, 0xae, 0xe2, 0xc2, 0xcb, 0x25, 0xd8, 0x81], rfl⟩

/-- The forms of a transfer call, which differ in the memo. -/
inductive Transfer.Form
  | plain
  | numberMemo
  | textMemo
  deriving DecidableEq, Repr

namespace Transfer.Form

/-- The byte that a call of this form starts with. -/
def shortname : Form → UInt8
  | plain => 3
  | numberMemo => 13
  | textMemo => 23

/-- The form of a call that starts with this byte. -/
def ofShortname? (b : UInt8) : Option Form :=
  [plain, numberMemo, textMemo].find? fun f => f.shortname == b

/-- A byte starts a call of a form exactly when it is that form's shortname. -/
theorem ofShortname?_eq_some_iff {b : UInt8} {f : Form} :
    ofShortname? b = some f ↔ b = f.shortname := by
  constructor
  · intro h
    have hb := List.find?_some h
    exact (beq_iff_eq.mp hb).symm
  · rintro rfl
    cases f <;> rfl

end Transfer.Form

/-! ### How a transfer is written -/

namespace Transfer

/-- A call of a form with a written memo. -/
def call (form : Form) (recipient : Address) (amount : UInt64) (memo : Bytes) : Bytes :=
  form.shortname :: recipient.bytes ++ be64 amount ++ memo

/-- The written forms of a transfer. -/
def encodings (t : Transfer) : List Bytes :=
  match t.memo with
  | .none =>
    [call .plain t.recipient t.amount [], call .textMemo t.recipient t.amount (be32 0)]
  | .number n => [call .numberMemo t.recipient t.amount (be64 n)]
  | .text s =>
    if s.bytes = [] then []
    else [call .textMemo t.recipient t.amount (be32 (UInt32.ofNat s.bytes.length) ++ s.bytes)]

end Transfer
end HardwareSigner
