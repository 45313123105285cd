/-
# Addresses

An address on the chain is a tag that tells what lives there and an
identifier of twenty bytes. The account of a public key has tag zero and the
last twenty bytes of the key's SHA-256 digest. Two addresses are equal only
if tag and identifier both are.

Key definitions: `Address`, `Address.bytes`, `Address.ofBytes`,
`Address.ofPublicKey`, `Address.kind?`, `ByteReader.readAddress`.
Key theorems: `Address.length_bytes`, `Address.ofBytes_bytes`, `Address.bytes_ofBytes`.
-/
import HardwareSigner.Bytes.Hex
import HardwareSigner.Bytes.Reader
import HardwareSigner.Digest.Sha256
import HardwareSigner.Enumerated

namespace HardwareSigner

/-- What an address belongs to. -/
inductive AddressKind
  | account
  | contractSystem
  | contractPublic
  | contractZk
  | contractGovernance
  deriving DecidableEq, Repr

instance : Coded AddressKind UInt8 where
  all := [.account, .contractSystem, .contractPublic, .contractZk, .contractGovernance]
  name
    | .account => "Account"
    | .contractSystem => "ContractSystem"
    | .contractPublic => "ContractPublic"
    | .contractZk => "ContractZk"
    | .contractGovernance => "ContractGovernance"
  code
    | .account => 0
    | .contractSystem => 1
    | .contractPublic => 2
    | .contractZk => 3
    | .contractGovernance => 4

@[ext] structure Address where
  tag : UInt8
  identifier : FixedBytes 20
  deriving DecidableEq

/-- An uncompressed secp256k1 public key. -/
abbrev PublicKey := FixedBytes 65

namespace Address

/-- How many bytes identify what lives at an address. -/
def identifierLength : Nat := 20

/-- How many bytes an address takes. -/
def length : Nat := identifierLength + 1

/-- How many bytes a public key takes. -/
def publicKeyLength : Nat := 65

/-- The address of twenty-one zero bytes. -/
def zero : Address := ⟨0, FixedBytes.zero 20⟩

instance : Inhabited Address := ⟨zero⟩

/-- The bytes of an address: the tag, then the identifier. -/
def bytes (a : Address) : Bytes := a.tag :: a.identifier.toList

/-- The address that twenty-one bytes spell. -/
def ofBytes : FixedBytes 21 → Address
  | ⟨tag :: identifier, h⟩ => ⟨tag, identifier, by simpa using h⟩

/-- The account of a public key. -/
def ofPublicKey (key : PublicKey) : Address where
  tag := Coded.code AddressKind.account
  identifier := ⟨(Sha256.digest key.toList).toList.drop 12, by
    simp [(Sha256.digest key.toList).length_toList]⟩

/-- What the address belongs to, if its tag is known. -/
def kind? (a : Address) : Option AddressKind := Coded.ofCode? AddressKind a.tag

/-- The address in lowercase hexadecimal digits. -/
def text (a : Address) : List Char := Hex.encode a.bytes

@[simp] theorem length_bytes (a : Address) : a.bytes.length = 21 := by
  simp [bytes, a.identifier.length_toList]

theorem ofBytes_bytes (a : Address) : ofBytes ⟨a.bytes, a.length_bytes⟩ = a := rfl

theorem bytes_ofBytes : ∀ bs : FixedBytes 21, (ofBytes bs).bytes = bs.toList
  | ⟨_ :: _, _⟩ => rfl

end Address

/-- The next twenty-one bytes as an address. -/
def ByteReader.readAddress (r : ByteReader) : Option (Address × ByteReader) :=
  (r.readExact 21).map fun (bs, r) => (Address.ofBytes bs, r)

end HardwareSigner
