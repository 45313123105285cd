/-
# Receiving a transaction, told by lengths alone

A `Receiver` keeps the whole transaction in one buffer and decides by its
length: the header's forty-nine bytes must come first, the last four of them
tell how many follow, and the last chunk must end just there. It parses
nothing and hashes nothing, and says what a session that is receiving answers
to chunks.

Key definitions: `Receiver`, `Receiver.take`, `HeaderError.ofLength?`,
`announcedLength`.
-/
import HardwareSigner.Session.Basic

namespace HardwareSigner

/-- The first header field that a transaction of `n` bytes does not hold. -/
def HeaderError.ofLength? (n : Nat) : Option HeaderError :=
  if n < 8 then some .nonce
  else if n < 16 then some .validToTime
  else if n < 24 then some .gasCost
  else if n < 45 then some .contract
  else if n < 49 then some .rpcLength
  else none

/-- The length of a transaction as its header announces it. -/
def announcedLength (transaction : Bytes) : Nat :=
  Header.length + ofBigEndian ((transaction.drop 45).take 4)

/-- What has come in of a transaction. -/
inductive Receiver
  | receiving (buffer : Bytes)
  | pending
  | failed
  deriving DecidableEq

namespace Receiver

/-- Where a session with this receiver stands. -/
def state : Receiver → State
  | receiving _ => .receiving
  | pending => .pending
  | failed => .failed

/-- Take a chunk. -/
def take (data : Bytes) (more : Bool) : Receiver → Except SessionError Reply × Receiver
  | receiving buffer =>
    if data = [] then (.error .invalidLength, receiving buffer)
    else
      let buffer := buffer ++ data
      match HeaderError.ofLength? buffer.length with
      | some field => (.error (.header field), failed)
      | none =>
        if buffer.length < announcedLength buffer then
          if more then (.ok (.state .receiving), receiving buffer)
          else (.error .expectedMoreData, failed)
        else if buffer.length = announcedLength buffer ∧ more = false then (.ok .pending, pending)
        else (.error .expectedLessData, failed)
  | pending => (.error .unexpectedRequest, pending)
  | failed => (.error .unexpectedRequest, failed)

end Receiver
end HardwareSigner
