/-
# Payloads

A payload is a value that travels behind a command's header or in a reply.
It has one written form (`bytes`). It tells how long that is, writes itself
into a buffer of a given size, and is read back from the front of a buffer.
Most payloads are written with one check of their own length (`Payload.put`);
a payload made of others has them written one after the other. That all this
is about one written form is `LawfulPayload`.

A payload that cannot be read, or that does not fit the buffer it should be
written to, is refused with one of four causes. Only chain ids report an
invalid encoding, so that cause alone has a status word of its own.

Addresses, derivation paths and chain ids are payloads of their own and parts
of larger ones, so their decoders are here, to be run one after the other.

Key definitions: `PayloadError`, `Payload`, `Payload.put`, `Payload.decode`,
`LawfulPayload`, `DerivationPath.ofList`, `DerivationPath.decoder`,
`ChainId.ofList`, `ChainId.decoder`.
-/
import HardwareSigner.Address
import HardwareSigner.Apdu.StatusWord
import HardwareSigner.Bytes.Decoder
import HardwareSigner.ChainId
import HardwareSigner.DerivationPath

namespace HardwareSigner

/-- Why a payload cannot be read or written. -/
inductive PayloadError
  | invalidLength
  | invalidUtf8
  | invalidVersion (version : UInt8)
  | invalidEncoding
  deriving DecidableEq, Repr

namespace PayloadError

/-- What the host is told in words. -/
def message : PayloadError → String
  | invalidLength => "Invalid buffer length"
  | invalidUtf8 => "Invalid Utf8 string encoding"
  | invalidVersion version => "Invalid APDU encoding version " ++ Nat.repr version.toNat
  | invalidEncoding => "Invalid APDU encoding"

/-- What the host is told as a number: a bad chain id, or a bad length. -/
def statusWord : PayloadError → StatusWord
  | invalidEncoding => .invalidChainId
  | invalidLength | invalidUtf8 | invalidVersion _ => .wrongDataLength

end PayloadError

/-- A value with a written form. -/
class Payload (α : Type) where
  /-- The written form. -/
  bytes : α → Bytes
  /-- How many bytes the written form has. -/
  encodedLength : α → Nat
  /-- Writes a value into a buffer of so many bytes: what was written, or why
  it was not. -/
  encode : α → Nat → Except PayloadError Bytes
  /-- Reads the written form off the front of a buffer. -/
  decoder : Decoder PayloadError α

namespace Payload

/-- Write `length` bytes into a buffer of `capacity` bytes, if it has room for
them. -/
def put (length capacity : Nat) (bs : Bytes) : Except PayloadError Bytes :=
  if capacity < length then .error .invalidLength else .ok bs

/-- Read a value off the front of a buffer; the value and how many bytes it
took. -/
def decode (α : Type) [Payload α] (buffer : Bytes) : Except PayloadError (α × Nat) :=
  match (decoder : Decoder PayloadError α).run (ByteReader.ofBytes buffer) with
  | (.ok a, r) => .ok (a, r.offset)
  | (.error e, _) => .error e

end Payload

/-- A payload that is as long as it tells, and is written in full into every
buffer that has room for it and into no other. -/
class LawfulPayload (α : Type) [Payload α] : Prop where
  encodedLength_eq : ∀ a : α, Payload.encodedLength a = (Payload.bytes a).length
  encode_eq : ∀ (a : α) (capacity : Nat), Payload.encode a capacity =
    if (Payload.bytes a).length ≤ capacity then .ok (Payload.bytes a) else .error .invalidLength

/-- Bytes are put into a buffer if their number is told right and they fit. -/
theorem Payload.put_eq {length : Nat} {bs : Bytes} (h : length = bs.length) (capacity : Nat) :
    put length capacity bs = if bs.length ≤ capacity then .ok bs else .error .invalidLength := by
  subst h
  unfold put
  by_cases hfits : bs.length ≤ capacity
  · rw [if_pos hfits, if_neg (Nat.not_lt_of_le hfits)]
  · rw [if_neg hfits, if_pos (Nat.lt_of_not_le hfits)]

/-! ### The parts of larger payloads -/

/-- The path of these components, or the cause for which a payload with too
many of them is refused. -/
def DerivationPath.ofList (components : List UInt32) : Except PayloadError DerivationPath :=
  match ofList? components with
  | some path => .ok path
  | none => .error .invalidLength

/-- The chain id of these bytes, or the cause for which a payload with too
many of them is refused. -/
def ChainId.ofList (bs : Bytes) : Except PayloadError ChainId :=
  match ofList? bs with
  | some c => .ok c
  | none => .error .invalidEncoding

/-- An address is its twenty-one bytes. -/
def Address.decoder : Decoder PayloadError Address :=
  .field .invalidLength ByteReader.readAddress

/-- A path is a count of at most ten, and as many words of four bytes, most
significant first. -/
def DerivationPath.decoder : Decoder PayloadError DerivationPath := do
  let count ← .field .invalidLength ByteReader.readByte
  if h : count.toNat ≤ maxLength then do
    let components ← .field .invalidLength (ByteReader.readExact (4 * count.toNat))
    return ⟨words components.toList, by
      rw [length_words, components.length_toList, Nat.mul_div_cancel_left _ (by decide)]
      exact h⟩
  else .fail .invalidLength

/-- A chain id is a length of at most twenty-seven in four bytes, most
significant first, and as many bytes. Whatever is wrong with it is reported
as an invalid encoding. -/
def ChainId.decoder : Decoder PayloadError ChainId := do
  let length ← .field .invalidEncoding (ByteReader.readUInt32 .big)
  if h : length.toNat ≤ maxLength then do
    let bytes ← .field .invalidEncoding (ByteReader.readExact length.toNat)
    return ⟨bytes.toList, by rw [bytes.length_toList]; exact h⟩
  else .fail .invalidEncoding

instance : Payload Address where
  bytes := Address.bytes
  encodedLength _ := Address.length
  encode a capacity := Payload.put Address.length capacity a.bytes
  decoder := Address.decoder

/-- How many bytes a path takes: one for the count, four for each component. -/
def DerivationPath.encodedLength (path : DerivationPath) : Nat := 1 + path.components.length * 4

instance : Payload DerivationPath where
  bytes := DerivationPath.bytes
  encodedLength := DerivationPath.encodedLength
  encode path capacity := Payload.put path.encodedLength capacity path.bytes
  decoder := DerivationPath.decoder

/-- How many bytes a chain id takes behind its length. -/
def ChainId.encodedLength (c : ChainId) : Nat := 4 + c.bytes.length

instance : Payload ChainId where
  bytes := ChainId.framed
  encodedLength := ChainId.encodedLength
  encode c capacity := Payload.put c.encodedLength capacity c.framed
  decoder := ChainId.decoder

end HardwareSigner
