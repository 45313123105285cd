/-
# One command, from header to answer

A command from the host goes through three gates: its header is parsed, its
payload is read, and the session answers the request. Only the last gate can
change the session. A refusal at any of them has a status word.

Bytes behind a path or a chain id are ignored; a chunk is its whole payload,
and whether more follow is told by the header. The application's version and
name are no matter of the session, so their commands ask nothing of it.

Key definitions: `Request.ofCommand`, `Refusal`, `Refusal.statusWord`,
`Session.exchange`.
-/
import HardwareSigner.Session.Step

namespace HardwareSigner

/-- The request that a command makes with this payload, or why the payload is
refused. -/
def Request.ofCommand (command : Command) (payload : Bytes) : Except PayloadError Request :=
  match command with
  | .getVersion | .getAppName => .ok .none
  | .getAddress display =>
    match Payload.decode AddressRequest payload with
    | .ok (m, _) => .ok (.getAddress m.path display)
    | .error e => .error e
  | .signTx true _ =>
    match Payload.decode SigningOpening payload with
    | .ok (m, _) => .ok (.openSigning m.path m.chainId)
    | .error e => .error e
  | .signTx false more =>
    match Payload.decode SigningChunk payload with
    | .ok (m, _) => .ok (.chunk m.data more)
    | .error e => .error e

/-- Why a command is refused: by its header, by its payload, or by the
session. -/
inductive Refusal
  | header (sw : StatusWord)
  | payload (e : PayloadError)
  | session (e : SessionError)
  deriving DecidableEq

/-- The status word that the host is sent. -/
def Refusal.statusWord : Refusal → StatusWord
  | header sw => sw
  | payload e => e.statusWord
  | session e => e.statusWord

/-- Answer a command. -/
def Session.exchange (keys : KeyStore) (header : CommandHeader) (payload : Bytes) (s : Session) :
    Except Refusal Reply × Session :=
  match Command.parse header with
  | .error sw => (.error (.header sw), s)
  | .ok command =>
    match Request.ofCommand command payload with
    | .error e => (.error (.payload e), s)
    | .ok request =>
      match s.handle keys request with
      | (.error e, s) => (.error (.session e), s)
      | (.ok reply, s) => (.ok reply, s)

end HardwareSigner
