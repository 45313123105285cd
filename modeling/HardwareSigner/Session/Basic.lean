/-
# What a signing session holds, is asked and answers

A session serves one host. It is asked for addresses and for signatures, and
the user approves or denies what it holds pending. It holds the path and the
chain id of the last request opened, and an `Intake`: what has come in of the
transaction of that request.

The keys are not part of a session: a `KeyStore` derives public keys and
signs, or fails with an error of the session.

Key definitions: `State`, `SessionError`, `RecoverableSignature`, `KeyStore`,
`Request`, `Reply`, `Intake`, `Session`.
-/
import HardwareSigner.Apdu.Message
import HardwareSigner.Transaction.Parser

namespace HardwareSigner

/-- The digest of a transaction that is signed. -/
abbrev Hash := FixedBytes 32

/-- How many bytes a digest has. -/
def Hash.length : Nat := 32

/-- Where a session stands: nothing going on, receiving a transaction,
waiting for the user, denied by the user, failed, or signed. -/
inductive State
  | idle
  | receiving
  | pending
  | denied
  | failed
  | complete
  deriving DecidableEq, Repr

instance : Enumerated State where
  all := [.idle, .receiving, .pending, .denied, .failed, .complete]
  name
    | .idle => "Init"
    | .receiving => "Receiving"
    | .pending => "Pending"
    | .denied => "Deny"
    | .failed => "Error"
    | .complete => "Complete"

/-- Why a session refuses or fails. -/
inductive SessionError
  | invalidLength
  | unexpectedRequest
  | signing
  | keyDerivation
  | denied
  | expectedMoreData
  | expectedLessData
  | header (field : HeaderError)
  deriving DecidableEq, Repr

namespace SessionError

/-- The cause in words. -/
def message : SessionError → String
  | invalidLength => "Invalid argument length"
  | unexpectedRequest => "Unexpected event"
  | signing => "Signing error"
  | keyDerivation => "key derivation failed"
  | denied => "transaction denied"
  | expectedMoreData => "expected more transaction data"
  | expectedLessData => "expected less transaction data"
  | header field => "transaction parsing failed: " ++ field.message

/-- The status word that reports the cause. -/
def statusWord : SessionError → StatusWord
  | invalidLength => .wrongDataLength
  | unexpectedRequest => .badState
  | signing => .signatureFail
  | keyDerivation => .displayAddressFail
  | denied => .deny
  | expectedMoreData => .expectedMoreData
  | expectedLessData => .expectedLessData
  | header field => field.statusWord

end SessionError

/-- A recoverable secp256k1 signature, as a key makes it of a digest. -/
structure RecoverableSignature where
  recoveryId : UInt8
  r : FixedBytes 32
  s : FixedBytes 32
  deriving DecidableEq

/-- The reply that carries a signature. -/
def RecoverableSignature.toReply (signature : RecoverableSignature) : Signature where
  recoveryId := signature.recoveryId
  r := signature.r
  s := signature.s

/-- The keys of the device: a public key and a signature for each path, or
the error the attempt ends in. -/
structure KeyStore where
  publicKey : DerivationPath → Except SessionError PublicKey
  sign : DerivationPath → Hash → Except SessionError RecoverableSignature

/-- What a host asks of a session. -/
inductive Request
  /-- Nothing: tell where the session stands. -/
  | none
  /-- The address of a path's key, perhaps shown to the user. -/
  | getAddress (path : DerivationPath) (display : Bool)
  /-- Open a signing request. -/
  | openSigning (path : DerivationPath) (chainId : ChainId)
  /-- The next bytes of the transaction, and whether more follow. -/
  | chunk (data : Bytes) (more : Bool)
  deriving DecidableEq

/-- What a session answers. -/
inductive Reply
  /-- Where the session stands. -/
  | state (s : State)
  /-- The address asked for, and whether to show it to the user. -/
  | address (a : Address) (display : Bool)
  /-- The signature of the approved transaction. -/
  | signature (s : RecoverableSignature)
  /-- The transaction is complete and waits for the user. -/
  | pending
  deriving DecidableEq

namespace Reply

/-- The state that a reply tells, if it tells one. -/
def state? : Reply → Option State
  | .state s => some s
  | .address _ _ | .signature _ | .pending => Option.none

/-- Whether a reply tells just this state. -/
def tells (r : Reply) (s : State) : Bool := r.state? == some s

/-- The payload of a reply, written into a buffer of `capacity` bytes; only
addresses and signatures have one. -/
def encode (r : Reply) (capacity : Nat) : Except PayloadError Bytes :=
  match r with
  | .state _ | .pending => .ok []
  | .address a _ => Payload.encode (AddressReply.mk a) capacity
  | .signature s => Payload.encode s.toReply capacity

end Reply

/-- What has come in of a transaction: how far it is parsed, what it is
known to be, the bytes to be hashed so far, and the hash once it is taken. -/
structure Intake where
  parser : Transaction.Parser := {}
  transaction : Transaction := {}
  absorbed : Bytes := []
  hash : Hash := FixedBytes.zero 32
  deriving DecidableEq

/-- A signing session. -/
structure Session where
  state : State := .idle
  path : DerivationPath := DerivationPath.empty
  chainId : ChainId := ChainId.empty
  intake : Intake := {}
  deriving DecidableEq

namespace Session

/-- Whether the transaction is received in full: it waits for the user, or
it is signed. -/
def isReceived (s : Session) : Bool := s.state == .pending || s.state == .complete

/-- The transaction, once it is received in full. -/
def transaction? (s : Session) : Option Transaction :=
  if s.isReceived then some s.intake.transaction else none

/-- The hash to be signed, once the transaction is received in full. -/
def hash? (s : Session) : Option Hash := if s.isReceived then some s.intake.hash else none

end Session
end HardwareSigner
