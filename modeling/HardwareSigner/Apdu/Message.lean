/-
# Messages between host and device

The host may ask for the application's version and name, for an address, and
for a signature; a signing request is one `SigningOpening`, which carries the
key's path and the chain id, and `SigningChunk`s, which carry the
transaction. The replies are a version, a name, an address and a
`Signature`.

Each message is a `Payload`; a message that the host sends also has the
instruction it is sent with (`Carried`).

Key definitions: `SigningOpening`, `SigningChunk`, `Signature`, `Carried`,
`Carried.plainHeader`, `SigningOpening.header`, `SigningChunk.header`.
-/
import HardwareSigner.Apdu.Command
import HardwareSigner.Apdu.Payload

namespace HardwareSigner

/-- A payload that the host sends with one instruction. -/
class Carried (α : Type) extends Payload α where
  /-- The instruction it is sent with. -/
  instruction : Instruction

/-- The header of a message before its parameters are set: class and
instruction, and zero for both parameters. -/
def Carried.plainHeader (α : Type) [Carried α] : CommandHeader where
  cla := Command.appClass
  ins := Coded.code (Carried.instruction α)
  p1 := 0
  p2 := 0

/-! ### About the application -/

/-- The host asks for the application's version. -/
structure VersionRequest where
  deriving DecidableEq

instance : Carried VersionRequest where
  bytes _ := []
  encodedLength _ := 0
  encode _ _ := .ok []
  decoder := pure {}
  instruction := .getVersion

/-- The application's version. -/
structure VersionReply where
  major : UInt8
  minor : UInt8
  patch : UInt8
  deriving DecidableEq

/-- A version is its three numbers, a byte each. -/
def VersionReply.bytes (v : VersionReply) : Bytes := [v.major, v.minor, v.patch]

instance : Payload VersionReply where
  bytes := VersionReply.bytes
  encodedLength _ := 3
  encode v capacity := Payload.put 3 capacity v.bytes
  decoder := do
    let major ← .field .invalidLength ByteReader.readByte
    let minor ← .field .invalidLength ByteReader.readByte
    let patch ← .field .invalidLength ByteReader.readByte
    return { major, minor, patch }

/-- The host asks for the application's name. -/
structure NameRequest where
  deriving DecidableEq

instance : Carried NameRequest where
  bytes _ := []
  encodedLength _ := 0
  encode _ _ := .ok []
  decoder := pure {}
  instruction := .getAppName

/-- The application's name. -/
structure NameReply where
  name : String
  deriving DecidableEq

/-- A name is its UTF-8 form. -/
def NameReply.bytes (n : NameReply) : Bytes := n.name.toByteArray.data.toList

/-- A name is read up to the end of the payload. -/
instance : Payload NameReply where
  bytes := NameReply.bytes
  encodedLength n := n.name.utf8ByteSize
  encode n capacity := Payload.put n.name.utf8ByteSize capacity n.bytes
  decoder := do
    let bytes ← .takeRest
    match String.fromUTF8? ⟨bytes.toArray⟩ with
    | some name => return { name }
    | none => .fail .invalidUtf8

/-! ### Addresses -/

/-- The host asks for the address of a path's key. -/
structure AddressRequest where
  path : DerivationPath
  deriving DecidableEq

instance : Carried AddressRequest where
  bytes m := m.path.bytes
  encodedLength m := m.path.encodedLength
  encode m := Payload.encode m.path
  decoder := do
    let path ← DerivationPath.decoder
    return { path }
  instruction := .getAddress

/-- The address of a path's key. -/
structure AddressReply where
  address : Address
  deriving DecidableEq

instance : Payload AddressReply where
  bytes m := m.address.bytes
  encodedLength _ := Address.length
  encode m := Payload.encode m.address
  decoder := do
    let address ← Address.decoder
    return { address }

/-! ### Signing -/

/-- The host opens a signing request. -/
structure SigningOpening where
  path : DerivationPath
  chainId : ChainId
  deriving DecidableEq

/-- An opening is its path, then its chain id: the one is written at the start
of the buffer, the other into what is left of it. -/
instance : Carried SigningOpening where
  bytes m := m.path.bytes ++ m.chainId.framed
  encodedLength m := m.path.encodedLength + m.chainId.encodedLength
  encode m capacity := do
    let path ← Payload.encode m.path capacity
    let chainId ← Payload.encode m.chainId (capacity - path.length)
    return path ++ chainId
  decoder := do
    let path ← DerivationPath.decoder
    let chainId ← ChainId.decoder
    return { path, chainId }
  instruction := .signTx

namespace SigningOpening

/-- An opening is the first command of its request. -/
def p1 (_ : SigningOpening) : UInt8 := Command.p1FirstChunk

/-- An opening is always followed by transaction data. -/
def p2 (_ : SigningOpening) : UInt8 := Command.p2NotLastChunk

/-- The header an opening is sent with. -/
def header (m : SigningOpening) : CommandHeader :=
  { Carried.plainHeader SigningOpening with p1 := m.p1, p2 := m.p2 }

end SigningOpening

/-- The host sends the next bytes of a transaction, and whether more follow. -/
structure SigningChunk where
  data : Bytes
  more : Bool
  deriving DecidableEq

/-- A chunk is its bytes, as many as a payload holds and at least one to be
accepted. Whether more follow is told by the header, so a chunk is read as
the last one. -/
instance : Carried SigningChunk where
  bytes m := m.data
  encodedLength m := m.data.length
  encode m capacity :=
    if m.data.length > Command.maxPayload || capacity < m.data.length then .error .invalidLength
    else .ok m.data
  decoder := do
    let data ← .takeRest
    if data.isEmpty || data.length > Command.maxPayload then .fail .invalidLength
    else return { data, more := false }
  instruction := .signTx

namespace SigningChunk

/-- A chunk is never the first command of its request. -/
def p1 (_ : SigningChunk) : UInt8 := Command.p1NotFirstChunk

/-- Whether more chunks follow. -/
def p2 (m : SigningChunk) : UInt8 := if m.more then Command.p2NotLastChunk else Command.p2LastChunk

/-- The header a chunk is sent with. -/
def header (m : SigningChunk) : CommandHeader :=
  { Carried.plainHeader SigningChunk with p1 := m.p1, p2 := m.p2 }

end SigningChunk

/-- The reply that carries a signature. -/
structure Signature where
  recoveryId : UInt8
  r : FixedBytes 32
  s : FixedBytes 32
  deriving DecidableEq

/-- How many bytes a signature takes. -/
def Signature.length : Nat := 65

/-- A signature is its recovery id, then its two halves. -/
def Signature.bytes (m : Signature) : Bytes := m.recoveryId :: m.r.toList ++ m.s.toList

instance : Payload Signature where
  bytes := Signature.bytes
  encodedLength _ := Signature.length
  encode m capacity := Payload.put Signature.length capacity m.bytes
  decoder := do
    let recoveryId ← .field .invalidLength ByteReader.readByte
    let r ← .field .invalidLength (ByteReader.readExact 32)
    let s ← .field .invalidLength (ByteReader.readExact 32)
    return { recoveryId, r, s }

end HardwareSigner
