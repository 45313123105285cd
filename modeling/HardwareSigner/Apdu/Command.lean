/-
# Commands

A command from the host starts with a header of four bytes: class,
instruction and two parameters. `Command.parse` accepts the headers of this
application and refuses all others with the status word of the first field
that is wrong.

The first command of a signing request opens it and carries no transaction
data, so it must announce that more follows; the others may be the last.

Key definitions: `CommandHeader`, `Instruction`, `Command`, `Command.parse`.
-/
import HardwareSigner.Apdu.StatusWord

namespace HardwareSigner

/-- The four bytes in front of a command's payload. -/
structure CommandHeader where
  cla : UInt8
  ins : UInt8
  p1 : UInt8
  p2 : UInt8
  deriving DecidableEq

/-- What the host asks for. -/
inductive Instruction
  | getVersion
  | getAppName
  | signTx
  | getAddress
  deriving DecidableEq, Repr

instance : Coded Instruction UInt8 where
  all := [.getVersion, .getAppName, .signTx, .getAddress]
  name
    | .getVersion => "GetVersion"
    | .getAppName => "GetAppName"
    | .signTx => "SignTx"
    | .getAddress => "GetAddress"
  code
    | .getVersion => 0x03
    | .getAppName => 0x04
    | .signTx => 0x06
    | .getAddress => 0x07

/-- An instruction with its parameters read. -/
inductive Command
  | getVersion
  | getAppName
  | getAddress (display : Bool)
  | signTx (first more : Bool)
  deriving DecidableEq, Repr

namespace Command

/-- The class of this application's commands. -/
def appClass : UInt8 := 0xe0

/-- The most bytes a command carries behind its header. -/
def maxPayload : Nat := 255

/-- First parameter of the command that opens a signing request. -/
def p1FirstChunk : UInt8 := 0x00

/-- First parameter of the commands that carry a transaction. -/
def p1NotFirstChunk : UInt8 := 0x01

/-- First parameter of a request answered without asking the user. -/
def p1Silent : UInt8 := 0x00

/-- First parameter of a request the user has to confirm. -/
def p1Confirm : UInt8 := 0x01

/-- Second parameter of the last command of a signing request. -/
def p2LastChunk : UInt8 := 0x00

/-- Second parameter of a command that another one follows. -/
def p2NotLastChunk : UInt8 := 0x80

/-- The command of an instruction with these parameters, if it takes them. -/
def ofParameters? (instruction : Instruction) (p1 p2 : UInt8) : Option Command :=
  match instruction with
  | .getVersion => if p1 = 0 ∧ p2 = 0 then some getVersion else none
  | .getAppName => if p1 = 0 ∧ p2 = 0 then some getAppName else none
  | .getAddress =>
    if (p1 = p1Silent ∨ p1 = p1Confirm) ∧ p2 = 0 then some (getAddress (p1 == p1Confirm))
    else none
  | .signTx =>
    if (p1 = p1FirstChunk ∧ p2 = p2NotLastChunk) ∨
        (p1 = p1NotFirstChunk ∧ (p2 = p2LastChunk ∨ p2 = p2NotLastChunk)) then
      some (signTx (p1 == p1FirstChunk) (p2 == p2NotLastChunk))
    else none

/-- The command that a header announces, or the status word of the first of
class, instruction and parameters that is not one of this application. -/
def parse (header : CommandHeader) : Except StatusWord Command :=
  if header.cla = appClass then
    match Coded.ofCode? Instruction header.ins with
    | none => .error .instructionNotSupported
    | some instruction =>
      match ofParameters? instruction header.p1 header.p2 with
      | none => .error .wrongParameters
      | some command => .ok command
  else .error .classNotSupported

end Command
end HardwareSigner
