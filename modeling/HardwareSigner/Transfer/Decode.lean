/-
# Recognising a transfer

`Transfer.decoder contract` reads a transfer off the call that a transaction
makes to `contract`. It stops at the first field that is wrong and leaves the
reader there; nothing is read if the contract does not hold the tokens.

A text memo of length zero is no memo. A longer one than a memo holds is
refused once its length is read, whether or not the text is there.

Key definitions: `TransferError`, `Transfer.Form.memoDecoder`, `Transfer.decoder`.
-/
import HardwareSigner.Bytes.Decoder
import HardwareSigner.Transfer.Basic

namespace HardwareSigner

/-- Why a call is not recognised as a transfer. -/
inductive TransferError
  | unknownContract
  | missingShortname
  | unknownShortname
  | recipient
  | amount
  | memo
  | lengthMismatch
  deriving DecidableEq, Repr

instance : Coded TransferError UInt8 where
  all := [
    .unknownContract, .missingShortname, .unknownShortname, .recipient, .amount, .memo,
    .lengthMismatch]
  name
    | .unknownContract => "AddressUnknown"
    | .missingShortname => "Shortname"
    | .unknownShortname => "ShortnameUnknown"
    | .recipient => "MpcRecipient"
    | .amount => "MpcTokenAmount"
    | .memo => "Memo"
    | .lengthMismatch => "Length"
  code
    | .unknownContract => 1
    | .missingShortname => 2
    | .unknownShortname => 3
    | .recipient => 4
    | .amount => 5
    | .memo => 6
    | .lengthMismatch => 7

/-- The cause in words. -/
def TransferError.message : TransferError → String
  | unknownContract => "unknown contract address"
  | missingShortname => "missing shortname"
  | unknownShortname => "unknown shortname"
  | recipient => "invalid transfer recipient"
  | amount => "invalid transfer amount"
  | memo => "invalid memo"
  | lengthMismatch => "RPC length mismatch"

namespace Transfer

/-- Reads a text memo: a length of at most twenty in four bytes, most
significant first, and as many bytes. -/
def textMemoDecoder : Decoder TransferError Memo := do
  let length ← .field .memo (ByteReader.readUInt32 .big)
  if h : length.toNat ≤ MemoText.maxLength then
    if length = 0 then return .none
    else do
      let text ← .field .memo (ByteReader.readExact length.toNat)
      return .text ⟨text.toList, by rw [text.length_toList]; exact h⟩
  else .fail .memo

/-- Reads the memo of a call of this form. -/
def Form.memoDecoder : Form → Decoder TransferError Memo
  | .plain => return .none
  | .numberMemo => do
    let n ← .field .memo (ByteReader.readUInt64 .big)
    return .number n
  | .textMemo => textMemoDecoder

/-- Reads a transfer off a call to `contract`: shortname, recipient, amount,
memo. -/
def decoder (contract : Address) : Decoder TransferError Transfer :=
  if contract = tokenContract then do
    let shortname ← .field .missingShortname ByteReader.readByte
    match Form.ofShortname? shortname with
    | none => .fail .unknownShortname
    | some form => do
      let recipient ← .field .recipient ByteReader.readAddress
      let amount ← .field .amount (ByteReader.readUInt64 .big)
      let memo ← form.memoDecoder
      return { recipient, amount, memo }
  else .fail .unknownContract

end Transfer
end HardwareSigner
