/-
# Derivation paths

A key of the device is found by a path: up to ten 32-bit components, a
component with its top bit set (`hardened`) being derived from the private
key. The path of the wallet's account number `i` is `m/44'/3757'/0'/0/i`.

Key definitions: `DerivationPath`, `DerivationPath.ofList?`,
`DerivationPath.account`, `DerivationPath.bytes`.
-/
import HardwareSigner.Bytes.Endian

namespace HardwareSigner

/-- The most components a path has. -/
def DerivationPath.maxLength : Nat := 10

/-- At most ten components that lead to a key. -/
@[ext] structure DerivationPath where
  components : List UInt32
  length_le : components.length ≤ DerivationPath.maxLength
  deriving DecidableEq

namespace DerivationPath

/-- How many components an account's path has. -/
def accountLength : Nat := 5

/-- The bit that marks a component derived from the private key. -/
def hardened : UInt32 := 0x80000000

/-- The path without components, of the master key. -/
def empty : DerivationPath := ⟨[], Nat.zero_le _⟩

instance : Inhabited DerivationPath := ⟨empty⟩

/-- The path of these components, if they are not too many. -/
def ofList? (components : List UInt32) : Option DerivationPath :=
  if h : components.length ≤ maxLength then some ⟨components, h⟩ else none

/-- The path of an account of this chain, by its number. -/
def account (index : UInt32) : DerivationPath :=
  ⟨[44 ||| hardened, 3757 ||| hardened, hardened, 0, index], by simp [maxLength]⟩

/-- Whether the path has no components. -/
def isEmpty (path : DerivationPath) : Bool := path.components.isEmpty

/-- The path on the wire: the number of components, then each as four bytes,
most significant first. -/
def bytes (path : DerivationPath) : Bytes :=
  UInt8.ofNat path.components.length :: path.components.flatMap be32

theorem length_le_ten (path : DerivationPath) : path.components.length ≤ 10 := path.length_le

/-- A list of components makes a path exactly when it has at most ten. -/
theorem ofList?_eq_some_iff {components : List UInt32} {path : DerivationPath} :
    ofList? components = some path ↔ path.components = components := by
  unfold ofList?
  split
  · simp [DerivationPath.ext_iff, eq_comm]
  · rename_i h
    simp only [reduceCtorEq, false_iff]
    rintro rfl
    exact h path.length_le

end DerivationPath
end HardwareSigner
