/-
# Parsing a transaction in chunks

A transaction arrives in chunks that may end anywhere, except that the first
one holds the whole header. The parser reads the header from the first chunk
and tries, once, to recognise the call as a transfer in what is left of it:
the transfer must take exactly the bytes that the header announced. If it
does not, the reader goes back to the end of the header and the call is
passed over, in this chunk and the next ones, until its announced length is
reached; the transaction is then signed blind.

A chunk without the whole header leaves the parser as it was, so another
first chunk can follow.

Key definitions: `Transaction.Parser`, `Transaction.Parser.feed`,
`Transaction.Parser.feedChunk`, `Transaction.recognise`, `Progress`,
`ParseStatus.code`.
-/
import HardwareSigner.Transaction.Basic

namespace HardwareSigner

/-- Whether a parser expects more chunks. -/
inductive Progress
  | done
  | more
  deriving DecidableEq, Repr

instance : Coded Progress UInt8 where
  all := [.done, .more]
  name
    | .done => "Done"
    | .more => "Continue"
  code
    | .done => 1
    | .more => 2

/-- What a chunk led to: progress, or a header field that is missing. -/
abbrev ParseStatus := Except HeaderError Progress

/-- A status as one number: that of the progress, or minus that of the
field. -/
def ParseStatus.code : ParseStatus → Int
  | .ok progress => (Coded.code progress).toNat
  | .error field => -(Coded.code field).toNat

namespace Transaction

/-- The state of a parser between chunks: the announced length of the call
and how much of it was passed, both zero until the header is read. -/
structure Parser where
  rpcTotal : UInt32 := 0
  rpcParsed : UInt32 := 0
  headerRead : Bool := false
  deriving DecidableEq

/-- What is to be known of a call of the announced length that starts at the
reader: the transfer it is and the reader behind it, or why it is none and
the reader as it was. -/
def recognise (contract : Address) (announced : UInt32) (r : ByteReader) :
    TransactionKind × ByteReader :=
  match (Transfer.decoder contract).run r with
  | (.ok t, r') =>
    if r'.consumedSince r.mark = announced.toNat then (.transfer t, r')
    else (.blind (some .lengthMismatch), r'.rewind r.mark)
  | (.error e, r') => (.blind (some e), r'.rewind r.mark)

namespace Parser

/-- What feeding a parser leaves: the status, the parser, the transaction as
far as it is known, and the reader behind what was consumed. -/
structure Fed where
  status : ParseStatus
  parser : Parser
  transaction : Transaction
  reader : ByteReader

/-- Whether the whole call was passed. -/
def isDone (p : Parser) : Bool := p.headerRead && p.rpcParsed == p.rpcTotal

/-- How much of the announced call has not been passed. -/
def pending (p : Parser) : UInt32 := p.rpcTotal - p.rpcParsed

/-- The parser behind a header that announced a call of this length, of which
a recognised transfer is all. -/
def afterHeader (p : Parser) (announced : UInt32) (kind : TransactionKind) : Parser where
  rpcTotal := announced
  rpcParsed :=
    match kind with
    | .transfer _ => announced
    | .blind _ => p.rpcParsed
  headerRead := true

/-- Pass over what is left of the call, or over as much of it as there is. -/
def skipCall (p : Parser) (tx : Transaction) (r : ByteReader) : Fed :=
  let (passed, r) := r.skip p.pending.toNat
  let p := { p with rpcParsed := p.rpcParsed + UInt32.ofNat passed }
  { status := .ok (if p.rpcParsed = p.rpcTotal then .done else .more)
    parser := p
    transaction := tx
    reader := r }

/-- Consume what belongs to the transaction from a reader; bytes behind it
stay unread. -/
def feed (p : Parser) (tx : Transaction) (r : ByteReader) : Fed :=
  if p.headerRead then p.skipCall tx r
  else
    match tx.header.overwrite r with
    | (.error field, header, r) =>
      { status := .error field, parser := p, transaction := { tx with header }, reader := r }
    | (.ok announced, header, r) =>
      let (kind, r) := recognise header.contract announced r
      (p.afterHeader announced kind).skipCall { header, kind } r

/-- Feed a parser one chunk, from its start. -/
def feedChunk (p : Parser) (tx : Transaction) (chunk : Bytes) : Fed :=
  p.feed tx (ByteReader.ofBytes chunk)

end Parser
end Transaction
end HardwareSigner
