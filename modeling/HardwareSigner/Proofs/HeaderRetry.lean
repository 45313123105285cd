/-
# A header that is cut off

A header that ends too early is refused for the first field that is missing,
and this can be made good: the parser is left as new, and only the transaction
keeps what was read, in the place of the fields in front of the missing one
(`Parser.feed_short`). These fields are overwritten by the next header that is
whole, so what a whole header gives does not depend on the transaction that
comes with it (`Parser.feed_of_header_le`). Any number of failed headers is
forgotten then.

Key definitions: `Parser.feedAll`.
Key theorems: `Header.overwrite_congr`, `Parser.feed_of_header_le`,
`Parser.feedAll_fst_of_short`, `Parser.failed_headers_are_forgotten`.
-/
import HardwareSigner.Proofs.StreamParsing

namespace HardwareSigner

open ByteReader

theorem Header.overwrite_congr (h k : Header) {r : ByteReader} (hr : Header.length ≤ r.remaining) :
    h.overwrite r = k.overwrite r := by
  obtain ⟨n, h', hread, hpre⟩ := h.overwrite_of_le hr
  obtain ⟨m, k', hread', hpre'⟩ := k.overwrite_of_le hr
  have hheader : h' = k' :=
    Header.eq_of_prefix ((List.prefix_append _ _).trans hpre) ((List.prefix_append _ _).trans hpre')
  have hlength : n = m := by
    apply UInt32.toNat_inj.mp
    have hn := announcedLength_of_prefix hpre
    have hm := announcedLength_of_prefix hpre'
    omega
  rw [hread, hread', hheader, hlength]

namespace Transaction.Parser

/-- What a new parser makes of a whole header does not depend on the
transaction that comes with it. -/
theorem feed_of_header_le (tx tx' : Transaction) {r : ByteReader}
    (hr : Header.length ≤ r.remaining) : ({} : Parser).feed tx r = ({} : Parser).feed tx' r := by
  rw [feed_new, feed_new, tx.header.overwrite_congr tx'.header hr]
  obtain ⟨n, header, hread, -⟩ := tx'.header.overwrite_of_le hr
  rw [hread]

/-- The parser and the transaction behind some calls, each of them handing the
transaction on to the next. -/
def feedAll (p : Parser) (tx : Transaction) : List ByteReader → Parser × Transaction
  | [] => (p, tx)
  | r :: later => feedAll (p.feed tx r).parser (p.feed tx r).transaction later

theorem feedAll_fst_of_short (tries : List ByteReader)
    (hshort : ∀ r ∈ tries, r.remaining < Header.length) (tx : Transaction) :
    (({} : Parser).feedAll tx tries).1 = {} := by
  induction tries generalizing tx with
  | nil => rfl
  | cons r later ih =>
    have hlater : ∀ r ∈ later, r.remaining < Header.length :=
      fun r hr => hshort r (List.mem_cons_of_mem _ hr)
    obtain ⟨field, hfield⟩ := HeaderError.exists_ofLength? (hshort r List.mem_cons_self)
    obtain ⟨header, -, hfeed⟩ := feed_short tx hfield
    unfold feedAll
    rw [hfeed]
    -- The parser is new again, whatever became of the transaction.
    exact ih hlater _

/-- **Failed headers are forgotten.** Take a parser that was asked anything and
has not read a header. It is as new, and a reader with less than a header is
refused for the first field that is missing. This leaves the parser as it was,
moves the reader to the start of that field, and writes the bytes in front of
it over those of the transaction's header; nothing else of the transaction
changes. And after any number of such failures a reader with a whole header
gives what it gives to a new parser, with a new transaction. -/
theorem failed_headers_are_forgotten (calls : List Call)
    (hread : (afterCalls calls).headerRead = false) :
    let p := afterCalls calls
    p = {} ∧
    (∀ (tx : Transaction) (r : ByteReader), r.remaining < 49 → ∃ (field : HeaderError)
      (header : Header), HeaderError.ofLength? r.remaining = some field ∧
      header.bytes = r.rest.take field.offset ++ tx.header.bytes.drop field.offset ∧
      p.feed tx r =
        { status := .error field
          parser := p
          transaction := { header, kind := tx.kind }
          reader := r.advance field.offset }) ∧
    ∀ (tx : Transaction) (tries : List ByteReader), (∀ r ∈ tries, r.remaining < 49) →
      ∀ r : ByteReader, 49 ≤ r.remaining →
        (p.feedAll tx tries).1.feed (p.feedAll tx tries).2 r = ({} : Parser).feed {} r := by
  intro p
  have hnew : p = {} := afterCalls_eq_new hread
  rw [hnew]
  refine ⟨rfl, fun tx r hr => ?_, fun tx tries hshort r hr => ?_⟩
  · obtain ⟨field, hfield⟩ := HeaderError.exists_ofLength? hr
    obtain ⟨header, hbytes, hfeed⟩ := feed_short tx hfield
    exact ⟨field, header, hfield, hbytes, hfeed⟩
  · rw [feedAll_fst_of_short tries hshort tx]
    exact feed_of_header_le _ _ hr

/-- A call to the token contract, of no bytes. -/
def emptyCall : Bytes := Header.bytes { nonce := 1, contract := tokenContract } ++ be32 0

/-- The parser was fed a header cut off in its contract, and is then fed one cut
off in its third number and a whole one. -/
theorem failed_headers_are_forgotten_cutTwice :
    let calls : List Call := [.feedChunk {} (emptyCall.take 44)]
    let p := afterCalls calls
    let cut := ofBytes (emptyCall.take 20)
    p.headerRead = false ∧ cut.remaining < 49 ∧ (p.feed {} cut).status = .error .gasCost ∧
      (p.feed {} cut).transaction.header = { nonce := 1 } ∧
      (p.feedAll {} [cut]).1.feed (p.feedAll {} [cut]).2 (ofBytes emptyCall) =
        ({} : Parser).feed {} (ofBytes emptyCall) := by
  intro calls p cut
  have hread : p.headerRead = false := by decide
  have hcut : cut.remaining < 49 := by decide
  obtain ⟨-, hfail, hretry⟩ := failed_headers_are_forgotten calls hread
  obtain ⟨field, header, hfield, hbytes, hfeed⟩ := hfail {} cut hcut
  have hgasCost : HeaderError.ofLength? cut.remaining = some .gasCost := by decide
  rw [hgasCost] at hfield
  cases hfield
  have hheader : header = { nonce := 1 } := Header.bytes_injective (hbytes.trans (by decide))
  refine ⟨hread, hcut, congrArg Fed.status hfeed, ?_, ?_⟩
  · rw [hfeed, hheader]
  · apply hretry
    · intro r hr
      cases List.mem_singleton.mp hr
      exact hcut
    · decide

end Transaction.Parser
end HardwareSigner
