/-
# The steps of a signing session

A host's request, the user's approval or denial, and a reset each take a
session to the next one. The rules:

* Asking for an address and opening a signing request drop whatever is going
  on; the first leaves the session idle even if the key cannot be derived.
* Chunks are taken only while receiving. An empty chunk is refused. Every
  other chunk is hashed and parsed; the last one must end where the
  transaction does, and then the chain id is hashed behind it.
* Only a pending transaction can be approved, and only once: signing ends the
  session in `complete` or `failed`.
* A refusal (a chunk or an approval that is not expected, an empty chunk)
  changes nothing; a failure leaves the session `failed` until it is reset or
  asked anew.

Dropping a transaction empties the intake and keeps the path and the chain
id, which nothing uses before the next opening sets them.

Key definitions: `Session.handle`, `Session.approve`, `Session.deny`,
`Session.reset`, `Session.takeChunk`, `Action`, `Session.step`, `Session.run`.
-/
import HardwareSigner.Session.Basic

namespace HardwareSigner
namespace Session

/-- Drop the transaction, if there is one. -/
def clear (s : Session) : Session := { s with intake := {} }

/-- The digest that is signed for a transaction on a chain: of the
transaction's bytes and the chain id behind its length. -/
def signingHash (transaction : Bytes) (chainId : ChainId) : Hash :=
  Sha256.digest (transaction ++ chainId.framed)

/-- Take the next bytes of the transaction, while receiving. -/
def takeChunk (s : Session) (data : Bytes) (more : Bool) : Except SessionError Reply × Session :=
  if data.isEmpty then (.error .invalidLength, s)
  else
    let absorbed := s.intake.absorbed ++ data
    let fed := s.intake.parser.feedChunk s.intake.transaction data
    let intake :=
      { s.intake with parser := fed.parser, transaction := fed.transaction, absorbed }
    let s := { s with intake }
    let failed := { s with state := .failed }
    match fed.status with
    | .error field => (.error (.header field), failed)
    | .ok .more =>
      if more then (.ok (.state s.state), s) else (.error .expectedMoreData, failed)
    | .ok .done =>
      if more || !fed.reader.isEmpty then (.error .expectedLessData, failed)
      else
        let intake := { intake with absorbed := [], hash := signingHash absorbed s.chainId }
        (.ok .pending, { s with state := .pending, intake })

/-- Answer a host's request. -/
def handle (keys : KeyStore) (request : Request) (s : Session) :
    Except SessionError Reply × Session :=
  match request with
  | .none => (.ok (.state s.state), s)
  | .getAddress path display =>
    let s := { s.clear with state := .idle }
    match keys.publicKey path with
    | .error e => (.error e, s)
    | .ok key => (.ok (.address (Address.ofPublicKey key) display), s)
  | .openSigning path chainId =>
    (.ok (.state .receiving), { s.clear with path, chainId, state := .receiving })
  | .chunk data more =>
    if s.state = .receiving then s.takeChunk data more else (.error .unexpectedRequest, s)

/-- The user approves: sign the pending transaction. -/
def approve (keys : KeyStore) (s : Session) : Except SessionError Reply × Session :=
  match s.state with
  | .pending =>
    match keys.sign s.path s.intake.hash with
    | .error e => (.error e, { s with state := .failed })
    | .ok signature => (.ok (.signature signature), { s with state := .complete })
  | .denied => (.error .denied, s)
  | .idle | .receiving | .failed | .complete => (.error .unexpectedRequest, s)

/-- The user denies: drop the transaction. -/
def deny (s : Session) : Session := { s.clear with state := .denied }

/-- Drop the transaction and wait for a request. -/
def reset (s : Session) : Session := { s.clear with state := .idle }

end Session

/-- What can happen to a session. -/
inductive Action
  | handle (request : Request)
  | approve
  | deny
  | reset
  deriving DecidableEq

/-- What an action is answered with; denying and resetting have no answer. -/
abbrev Answer := Option (Except SessionError Reply)

namespace Session

/-- One action: its answer and the session after it. -/
def step (keys : KeyStore) (action : Action) (s : Session) : Answer × Session :=
  match action with
  | .handle request =>
    let (answer, s) := s.handle keys request
    (some answer, s)
  | .approve =>
    let (answer, s) := s.approve keys
    (some answer, s)
  | .deny => (none, s.deny)
  | .reset => (none, s.reset)

/-- A sequence of actions: their answers and the session after them. -/
def run (keys : KeyStore) : List Action → Session → List Answer × Session
  | [], s => ([], s)
  | action :: actions, s =>
    let (answer, s) := s.step keys action
    let (answers, s) := s.run keys actions
    (answer :: answers, s)

end Session
end HardwareSigner
