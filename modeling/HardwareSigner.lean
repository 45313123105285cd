import HardwareSigner.Address
import HardwareSigner.Apdu.Command
import HardwareSigner.Apdu.Message
import HardwareSigner.Apdu.Payload
import HardwareSigner.Apdu.StatusWord
import HardwareSigner.Bytes.Basic
import HardwareSigner.Bytes.Decoder
import HardwareSigner.Bytes.Endian
import HardwareSigner.Bytes.Hex
import HardwareSigner.Bytes.Reader
import HardwareSigner.ChainId
import HardwareSigner.DerivationPath
import HardwareSigner.Digest.Sha256
import HardwareSigner.Display.Field
import HardwareSigner.Display.Line
import HardwareSigner.Display.Readback
import HardwareSigner.Enumerated
import HardwareSigner.Proofs.AmountLines
import HardwareSigner.Proofs.AmountText
import HardwareSigner.Proofs.ApprovalGating
import HardwareSigner.Proofs.Faults
import HardwareSigner.Proofs.FieldTexts
import HardwareSigner.Proofs.Grammar
import HardwareSigner.Proofs.HashInput
import HardwareSigner.Proofs.HeaderRetry
import HardwareSigner.Proofs.MessageLimits
import HardwareSigner.Proofs.PayloadGrammar
import HardwareSigner.Proofs.PrintableText
import HardwareSigner.Proofs.ReaderRuns
import HardwareSigner.Proofs.ReadingPosition
import HardwareSigner.Proofs.ReceiverRefinement
import HardwareSigner.Proofs.Reception
import HardwareSigner.Proofs.Refusals
import HardwareSigner.Proofs.RequestGrammar
import HardwareSigner.Proofs.RoundTrips
import HardwareSigner.Proofs.SessionConsistency
import HardwareSigner.Proofs.SessionIsolation
import HardwareSigner.Proofs.SessionSteps
import HardwareSigner.Proofs.ShownTransaction
import HardwareSigner.Proofs.SigningFlow
import HardwareSigner.Proofs.SigningHash
import HardwareSigner.Proofs.StreamDivisions
import HardwareSigner.Proofs.StreamParsing
import HardwareSigner.Proofs.StreamRuns
import HardwareSigner.Proofs.SurplusBytes
import HardwareSigner.Proofs.TransferCode
import HardwareSigner.Proofs.TransferDisplay
import HardwareSigner.Proofs.TransferFaults
import HardwareSigner.Proofs.TransferGrammar
import HardwareSigner.Session.Basic
import HardwareSigner.Session.Exchange
import HardwareSigner.Session.History
import HardwareSigner.Session.Receiver
import HardwareSigner.Session.Step
import HardwareSigner.Transaction.Basic
import HardwareSigner.Transaction.Parser
import HardwareSigner.Transfer.Basic
import HardwareSigner.Transfer.Decode
