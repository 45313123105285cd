/-
# Transactions

A transaction calls a contract. Its header has three numbers (a nonce, the
last time it is valid, the cost in gas) and the contract's address, and ends
in the length of the call behind it. The device either recognises the call as
a transfer, or has to sign it blind and remembers why.

Key definitions: `Header`, `TransactionKind`, `Transaction`, `HeaderError`,
`Header.overwrite`.
-/
import HardwareSigner.Apdu.StatusWord
import HardwareSigner.Transfer.Decode

namespace HardwareSigner

/-- The fields in front of a transaction's call. -/
structure Header where
  nonce : UInt64 := 0
  validToTime : UInt64 := 0
  gasCost : UInt64 := 0
  contract : Address := Address.zero
  deriving DecidableEq

/-- How many bytes a header takes, with the length of the call. -/
def Header.length : Nat := 8 + 8 + 8 + 21 + 4

/-- What the device knows of a transaction's call: nothing, perhaps with the
reason, or the transfer it is. -/
inductive TransactionKind
  | blind (reason : Option TransferError)
  | transfer (t : Transfer)
  deriving DecidableEq

/-- A transaction as far as it was read. -/
structure Transaction where
  header : Header := {}
  kind : TransactionKind := .blind none
  deriving DecidableEq

namespace Transaction

/-- The transfer the transaction makes, if it was recognised. -/
def transfer? (tx : Transaction) : Option Transfer :=
  match tx.kind with
  | .transfer t => some t
  | .blind _ => none

/-- Why the call was not recognised, if that is known. -/
def blindReason? (tx : Transaction) : Option TransferError :=
  match tx.kind with
  | .transfer _ => none
  | .blind reason => reason

/-- Whether approving the transaction means signing it blind. -/
def isBlind (tx : Transaction) : Bool :=
  match tx.kind with
  | .transfer _ => false
  | .blind _ => true

end Transaction

/-- The header field at which a transaction ends too early. -/
inductive HeaderError
  | nonce
  | validToTime
  | gasCost
  | contract
  | rpcLength
  deriving DecidableEq, Repr

instance : Coded HeaderError UInt8 where
  all := [.nonce, .validToTime, .gasCost, .contract, .rpcLength]
  name
    | .nonce => "Nonce"
    | .validToTime => "ValidToTime"
    | .gasCost => "GasCost"
    | .contract => "ContractAddress"
    | .rpcLength => "RpcLength"
  code
    | .nonce => 1
    | .validToTime => 2
    | .gasCost => 3
    | .contract => 4
    | .rpcLength => 5

/-- The field in words. -/
def HeaderError.message : HeaderError → String
  | nonce => "failed to parse nonce"
  | validToTime => "failed to parse valid-to time"
  | gasCost => "failed to parse gas cost"
  | contract => "failed to parse contract address"
  | rpcLength => "failed to parse RPC length"

/-- The status word of a header field that is missing. -/
def HeaderError.statusWord : HeaderError → StatusWord
  | nonce => .parsingFailNonce
  | validToTime => .parsingFailValidToTime
  | gasCost => .parsingFailGasCost
  | contract => .parsingFailContractAddress
  | rpcLength => .parsingFailRpcLength

/-- Read a header over an older one, field by field, all numbers most
significant byte first: the length of the call, or the first field that is
missing; the header, whose fields from the missing one on keep their old
values; and the reader behind the fields that were read. -/
def Header.overwrite (h : Header) (r : ByteReader) :
    Except HeaderError UInt32 × Header × ByteReader :=
  match r.readUInt64 .big with
  | none => (.error .nonce, h, r)
  | some (nonce, r) =>
  let h := { h with nonce }
  match r.readUInt64 .big with
  | none => (.error .validToTime, h, r)
  | some (validToTime, r) =>
  let h := { h with validToTime }
  match r.readUInt64 .big with
  | none => (.error .gasCost, h, r)
  | some (gasCost, r) =>
  let h := { h with gasCost }
  match r.readAddress with
  | none => (.error .contract, h, r)
  | some (contract, r) =>
  let h := { h with contract }
  match r.readUInt32 .big with
  | none => (.error .rpcLength, h, r)
  | some (rpcLength, r) => (.ok rpcLength, h, r)

end HardwareSigner
