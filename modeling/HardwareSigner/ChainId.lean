/-
# Chain ids

A transaction is meant for one chain. The chain's id, up to twenty-seven
bytes, is hashed behind the transaction with its length in front of it, so a
signature for one chain is no signature for another.

Key definitions: `ChainId`, `ChainId.ofList?`, `ChainId.lengthBytes`,
`ChainId.framed`.
-/
import HardwareSigner.Bytes.Endian

namespace HardwareSigner

/-- The most bytes a chain id has. -/
def ChainId.maxLength : Nat := 27

/-- At most twenty-seven bytes that name a chain. -/
@[ext] structure ChainId where
  bytes : Bytes
  length_le : bytes.length ≤ ChainId.maxLength
  deriving DecidableEq

namespace ChainId

/-- The chain id without bytes. -/
def empty : ChainId := ⟨[], Nat.zero_le _⟩

instance : Inhabited ChainId := ⟨empty⟩

/-- The chain id of these bytes, if they are not too many. -/
def ofList? (bs : Bytes) : Option ChainId :=
  if h : bs.length ≤ maxLength then some ⟨bs, h⟩ else none

/-- Whether the chain id has no bytes. -/
def isEmpty (c : ChainId) : Bool := c.bytes.isEmpty

/-- The length of the chain id as four bytes, most significant first. -/
def lengthBytes (c : ChainId) : Bytes := be32 (UInt32.ofNat c.bytes.length)

/-- The chain id behind its length, as it travels and as it is hashed. -/
def framed (c : ChainId) : Bytes := c.lengthBytes ++ c.bytes

theorem length_le_twentySeven (c : ChainId) : c.bytes.length ≤ 27 := c.length_le

/-- A list of bytes makes a chain id exactly when it has at most twenty-seven. -/
theorem ofList?_eq_some_iff {bs : Bytes} {c : ChainId} : ofList? bs = some c ↔ c.bytes = bs := by
  unfold ofList?
  split
  · simp [ChainId.ext_iff, eq_comm]
  · rename_i h
    simp only [reduceCtorEq, false_iff]
    rintro rfl
    exact h c.length_le

end ChainId
end HardwareSigner
