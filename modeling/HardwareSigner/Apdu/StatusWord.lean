/-
# Status words

Every answer of the device ends in a 16-bit status word: success, or the
cause of a refusal. A malformed header field of a transaction has its own
word, so that the host can tell which field it was.

Key definitions: `StatusWord`, `StatusWord.isOk`.
-/
import HardwareSigner.Enumerated

namespace HardwareSigner

/-- What the device answers at the end of every reply. -/
inductive StatusWord
  | ok
  | deny
  | wrongParameters
  | wrongDataLength
  | instructionNotSupported
  | classNotSupported
  | wrongResponseLength
  | displayAddressFail
  | displayAmountFail
  | wrongTransactionLength
  | parsingFail
  | hashFail
  | badState
  | signatureFail
  | invalidChainId
  | expectedMoreData
  | expectedLessData
  | parsingFailNonce
  | parsingFailValidToTime
  | parsingFailGasCost
  | parsingFailContractAddress
  | parsingFailRpcLength
  deriving DecidableEq, Repr

instance : Coded StatusWord UInt16 where
  all := [
    .ok, .deny, .wrongParameters, .wrongDataLength, .instructionNotSupported, .classNotSupported,
    .wrongResponseLength, .displayAddressFail, .displayAmountFail, .wrongTransactionLength,
    .parsingFail, .hashFail, .badState, .signatureFail, .invalidChainId, .expectedMoreData,
    .expectedLessData, .parsingFailNonce, .parsingFailValidToTime, .parsingFailGasCost,
    .parsingFailContractAddress, .parsingFailRpcLength]
  name
    | .ok => "Ok"
    | .deny => "Deny"
    | .wrongParameters => "WrongP1P2"
    | .wrongDataLength => "WrongDataLength"
    | .instructionNotSupported => "InsNotSupported"
    | .classNotSupported => "ClaNotSupported"
    | .wrongResponseLength => "WrongResponseLength"
    | .displayAddressFail => "DisplayAddressFail"
    | .displayAmountFail => "DisplayAmountFail"
    | .wrongTransactionLength => "WrongTxLength"
    | .parsingFail => "TxParsingFail"
    | .hashFail => "TxHashFail"
    | .badState => "BadState"
    | .signatureFail => "SignatureFail"
    | .invalidChainId => "InvalidChainId"
    | .expectedMoreData => "TxExpectedMoreData"
    | .expectedLessData => "TxExpectedLessData"
    | .parsingFailNonce => "TxParsingFailNonce"
    | .parsingFailValidToTime => "TxParsingFailValidToTime"
    | .parsingFailGasCost => "TxParsingFailGasCost"
    | .parsingFailContractAddress => "TxParsingFailContractAddress"
    | .parsingFailRpcLength => "TxParsingFailRpcLength"
  code
    | .ok => 0x9000
    | .deny => 0x6985
    | .wrongParameters => 0x6A86
    | .wrongDataLength => 0x6A87
    | .instructionNotSupported => 0x6D00
    | .classNotSupported => 0x6E00
    | .wrongResponseLength => 0xB000
    | .displayAddressFail => 0xB002
    | .displayAmountFail => 0xB003
    | .wrongTransactionLength => 0xB004
    | .parsingFail => 0xB005
    | .hashFail => 0xB006
    | .badState => 0xB007
    | .signatureFail => 0xB008
    | .invalidChainId => 0xB009
    | .expectedMoreData => 0xB00A
    | .expectedLessData => 0xB00B
    | .parsingFailNonce => 0xB101
    | .parsingFailValidToTime => 0xB102
    | .parsingFailGasCost => 0xB103
    | .parsingFailContractAddress => 0xB104
    | .parsingFailRpcLength => 0xB105

/-- Whether a status word reports success. -/
def StatusWord.isOk (sw : StatusWord) : Bool := sw == .ok

end HardwareSigner
