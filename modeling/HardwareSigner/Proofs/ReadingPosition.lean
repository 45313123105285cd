/-
# Where a buffer starts does not matter

A reader keeps its place as a distance from the start of its buffer, and so does
a mark. Both only ever meet each other: what is read is what is left, and the
length that a call took is a difference. So two readers with the same bytes left
go on in step. They lead to the same, and each of them moves on by as much: in
the decoder, whether it answers or stops (`Decoder.Accepts.run_of_rest_eq`), in
the header, in the attempt to recognise the call, which goes back to its mark
when it fails, and in all that a parser does (`Parser.inStep_feed`).

To parse from within a buffer is then to parse what is left of it.

Key definitions: `Parser.Fed.InStep`.
Key theorems: `Decoder.Accepts.run_of_rest_eq`, `Header.overwrite_of_rest_eq`,
`Transaction.recognise_of_rest_eq`, `Parser.inStep_feed`,
`Parser.parses_what_is_left`.
-/
import HardwareSigner.Proofs.StreamParsing
import HardwareSigner.Proofs.TransferFaults

namespace HardwareSigner

open ByteReader

variable {r s : ByteReader}

theorem ByteReader.remaining_of_rest_eq (h : r.rest = s.rest) : r.remaining = s.remaining := by
  rw [← length_rest, ← length_rest, h]

theorem Decoder.Accepts.run_of_rest_eq {ε α : Type} {d : Decoder ε α} {language : α → Bytes → Prop}
    {fault : Bytes → Option (ε × Nat)} (hd : d.Accepts language) (hstops : d.Stops fault)
    (h : r.rest = s.rest) :
    ∃ answer k, d.run r = (answer, r.advance k) ∧ d.run s = (answer, s.advance k) := by
  rcases d.run_cases r with ⟨a, r', hrun⟩ | ⟨e, r', hrun⟩
  · obtain ⟨bs, hbs, hpre, rfl⟩ := (hd r r' a).mp hrun
    refine ⟨.ok a, bs.length, hrun, (hd s _ a).mpr ⟨bs, hbs, ?_, rfl⟩⟩
    rwa [← h]
  · obtain ⟨k, hk, rfl⟩ := (hstops r e r').mp hrun
    refine ⟨.error e, k, hrun, (hstops s e _).mpr ⟨k, ?_, rfl⟩⟩
    rwa [← h]

theorem Header.overwrite_of_rest_eq (old : Header) (h : r.rest = s.rest) :
    ∃ answer new k, old.overwrite r = (answer, new, r.advance k) ∧
      old.overwrite s = (answer, new, s.advance k) := by
  have hlen := remaining_of_rest_eq h
  cases hfield : HeaderError.ofLength? r.remaining with
  | some field =>
    obtain ⟨new, hread, hbytes⟩ := old.overwrite_of_short hfield
    obtain ⟨new', hread', hbytes'⟩ := old.overwrite_of_short (hlen ▸ hfield)
    have hnew : new' = new := by
      apply Header.bytes_injective
      rw [hbytes', hbytes, h]
    exact ⟨_, new, _, hread, hnew ▸ hread'⟩
  | none =>
    have hr := HeaderError.ofLength?_eq_none_iff.mp hfield
    obtain ⟨n, new, hread, hpre⟩ := old.overwrite_of_le hr
    obtain ⟨n', new', hread', hpre'⟩ := old.overwrite_of_le (hlen ▸ hr)
    rw [← h] at hpre'
    have hnew : new' = new := Header.eq_of_prefix ((List.prefix_append _ _).trans hpre')
      ((List.prefix_append _ _).trans hpre)
    have hn : n' = n := by
      apply UInt32.toNat_inj.mp
      have hannounced := announcedLength_of_prefix hpre
      have hannounced' := announcedLength_of_prefix hpre'
      omega
    exact ⟨_, new, _, hread, by rw [hread', hnew, hn]⟩

namespace Transaction

/-- The attempt to recognise a call goes back to its mark or stays where it
ended. Either way the reader has moved on by a number of bytes. -/
theorem recognise_of_rest_eq (contract : Address) (announced : UInt32) (h : r.rest = s.rest) :
    ∃ kind k, recognise contract announced r = (kind, r.advance k) ∧
      recognise contract announced s = (kind, s.advance k) := by
  obtain ⟨answer, k, hr, hs⟩ := (Transfer.accepts_decoder contract).run_of_rest_eq
    (Transfer.stops_decoder contract) h
  cases answer with
  | ok t =>
    rw [recognise_of_ok hr, recognise_of_ok hs]
    by_cases hlen : k = announced.toNat
    · rw [if_pos hlen, if_pos hlen]
      exact ⟨_, k, rfl, rfl⟩
    · rw [if_neg hlen, if_neg hlen]
      exact ⟨_, 0, rfl, rfl⟩
  | error e => exact ⟨_, 0, recognise_of_error hr, recognise_of_error hs⟩

namespace Parser

/-- Fed from two readers a parser made the same of both, and took as much of
either. -/
structure Fed.InStep (r s : ByteReader) (fed fed' : Fed) : Prop where
  status : fed.status = fed'.status
  parser : fed.parser = fed'.parser
  transaction : fed.transaction = fed'.transaction
  reader : ∃ k, fed.reader = r.advance k ∧ fed'.reader = s.advance k

theorem Fed.InStep.of_advance {fed fed' : Fed} {k : Nat}
    (h : Fed.InStep (r.advance k) (s.advance k) fed fed') : Fed.InStep r s fed fed' := by
  obtain ⟨hstatus, hparser, htransaction, m, hr, hs⟩ := h
  rw [advance_advance] at hr hs
  exact ⟨hstatus, hparser, htransaction, k + m, hr, hs⟩

theorem inStep_skipCall (p : Parser) (tx : Transaction) (h : r.rest = s.rest) :
    Fed.InStep r s (p.skipCall tx r) (p.skipCall tx s) := by
  unfold skipCall skip
  rw [remaining_of_rest_eq h]
  exact ⟨rfl, rfl, rfl, _, rfl, rfl⟩

/-- **Readers with the same bytes left go on in step**, whatever state the parser
is in and whatever transaction it is given. -/
theorem inStep_feed (p : Parser) (tx : Transaction) (h : r.rest = s.rest) :
    Fed.InStep r s (p.feed tx r) (p.feed tx s) := by
  unfold feed
  by_cases hread : p.headerRead
  · rw [if_pos hread, if_pos hread]
    exact inStep_skipCall p tx h
  rw [if_neg hread, if_neg hread]
  obtain ⟨answer, header, k, hr, hs⟩ := tx.header.overwrite_of_rest_eq h
  rw [hr, hs]
  cases answer with
  | error field => exact ⟨rfl, rfl, rfl, k, rfl, rfl⟩
  | ok announced =>
    -- Behind the header the bytes left are the same again.
    have hbehind : (r.advance k).rest = (s.advance k).rest := by rw [rest_advance, rest_advance, h]
    obtain ⟨kind, m, hr', hs'⟩ := recognise_of_rest_eq header.contract announced hbehind
    simp only [hr', hs']
    apply Fed.InStep.of_advance (k := k)
    apply Fed.InStep.of_advance (k := m)
    apply inStep_skipCall
    rw [rest_advance, rest_advance (s.advance k), hbehind]

/-- **What is left is parsed.** A parser that is fed a buffer from its byte `k`
on makes of it what it makes of a chunk with just the bytes from there, and
leaves its reader `k` bytes behind where it leaves that of the chunk: the same
status, the same parser and the same transaction, in every state of the parser
and for every transaction. The same holds of the transfer decoder for every
contract, whether it answers or stops. -/
theorem parses_what_is_left (buffer : Bytes) (k : Nat) :
    let within := (ofBytes buffer).advance k
    let left := buffer.drop k
    (∀ (p : Parser) (tx : Transaction),
      let fed := p.feed tx within
      let fed' := p.feedChunk tx left
      fed.status = fed'.status ∧ fed.parser = fed'.parser ∧ fed.transaction = fed'.transaction ∧
        fed.reader = (ofBytes buffer).advance (k + fed'.reader.offset)) ∧
    ∀ contract : Address,
      let fresh := (Transfer.decoder contract).run (ofBytes left)
      (Transfer.decoder contract).run within =
        (fresh.1, (ofBytes buffer).advance (k + fresh.2.offset)) := by
  intro within left
  have hrest : within.rest = (ofBytes left).rest := rest_advance _ _
  have hplace : ∀ n, within.advance n =
      (ofBytes buffer).advance (k + ((ofBytes left).advance n).offset) := by
    intro n
    have hoffset : ((ofBytes left).advance n).offset = n := Nat.zero_add n
    rw [advance_advance, hoffset]
  refine ⟨fun p tx => ?_, fun contract => ?_⟩
  · obtain ⟨hstatus, hparser, htransaction, n, hreader, hreader'⟩ := inStep_feed p tx hrest
    refine ⟨hstatus, hparser, htransaction, ?_⟩
    rw [feedChunk, hreader, hreader', hplace]
  · obtain ⟨answer, n, hrun, hrun'⟩ := (Transfer.accepts_decoder contract).run_of_rest_eq
      (Transfer.stops_decoder contract) hrest
    simp only [hrun, hrun', hplace]

end Parser
end Transaction
end HardwareSigner
