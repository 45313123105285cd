/-
# What the parser makes of the bytes so far

A parser that saw the bytes `bs` is told by `bs` alone (`Parser.After`): it
read the header, holds the announced length, and passed what of the call is
in `bs`, or all of it if `bs` is longer. Feeding it a reader leaves it after
`bs` and the reader's bytes, done exactly when the announced length is
reached, with the reader behind the last byte that belongs to the transaction
(`Parser.feed_of_after`). The first chunk starts this if it holds the header
(`Parser.feed_first`), and fixes the transaction: the header's fields are the
first forty-five bytes, and a transfer is recognised exactly if the call ends
in this chunk and is written as that transfer (`Transaction.ReadFrom`).

Key definitions: `Header.bytes`, `Transaction.Recognised`,
`Transaction.ReadFrom`, `Parser.After`, `Parser.Settled`, `Fed.Continues`,
`Parser.afterCalls`.
Key theorems: `Header.bytes_injective`, `Header.overwrite_cases`,
`Transaction.recognise_cases`, `Parser.feed_of_after`, `Parser.feed_first`,
`Parser.feed_short`, `Parser.Settled.feed`, `Parser.afterCalls_eq_new`.
-/
import HardwareSigner.Proofs.TransferGrammar
import HardwareSigner.Session.Receiver

namespace HardwareSigner

open ByteReader

/-! ### The header -/

/-- The fields of a header as they are written. -/
def Header.bytes (h : Header) : Bytes :=
  be64 h.nonce ++ be64 h.validToTime ++ be64 h.gasCost ++ h.contract.bytes

@[simp] theorem Header.length_bytes (h : Header) : h.bytes.length = 45 := by
  simp [Header.bytes]

theorem Header.bytes_injective {h k : Header} (heq : h.bytes = k.bytes) : h = k := by
  obtain ⟨nonce, validToTime, gasCost, contract⟩ := h
  obtain ⟨nonce', validToTime', gasCost', contract'⟩ := k
  simp only [Header.bytes] at heq
  have hword := ByteReader.isField_readUInt64 .big
  obtain ⟨heq, hcontract⟩ := List.append_inj heq (by simp)
  obtain ⟨heq, hgasCost⟩ := List.append_inj heq (by simp)
  obtain ⟨hnonce, hvalidToTime⟩ := List.append_inj heq (by simp)
  have h₁ : nonce = nonce' := hword.written_injective hnonce
  have h₂ : validToTime = validToTime' := hword.written_injective hvalidToTime
  have h₃ : gasCost = gasCost' := hword.written_injective hgasCost
  have h₄ : contract = contract' := ByteReader.isField_readAddress.written_injective hcontract
  rw [h₁, h₂, h₃, h₄]

theorem Header.eq_of_prefix {h k : Header} {bs : Bytes} (hh : h.bytes <+: bs)
    (hk : k.bytes <+: bs) : h = k := by
  apply Header.bytes_injective
  have hlen : h.bytes.length = k.bytes.length := by simp
  rw [List.prefix_iff_eq_take.mp hh, List.prefix_iff_eq_take.mp hk, hlen]

theorem HeaderError.ofLength?_eq_none_iff {n : Nat} :
    HeaderError.ofLength? n = none ↔ Header.length ≤ n := by
  have h49 : Header.length = 49 := rfl
  unfold HeaderError.ofLength?
  repeat' split
  all_goals simp only [reduceCtorEq, false_iff, true_iff]
  all_goals omega

theorem HeaderError.exists_ofLength? {n : Nat} (h : n < Header.length) :
    ∃ field, HeaderError.ofLength? n = some field := by
  apply Option.ne_none_iff_exists'.mp
  rw [ne_eq, ofLength?_eq_none_iff]
  exact Nat.not_le_of_lt h

/-- Where a field starts in a header. -/
def HeaderError.offset : HeaderError → Nat
  | nonce => 0
  | validToTime => 8
  | gasCost => 16
  | contract => 24
  | rpcLength => 45

theorem Header.drop_bytes (h : Header) :
    h.bytes.drop 8 = be64 h.validToTime ++ be64 h.gasCost ++ h.contract.bytes ∧
      h.bytes.drop 16 = be64 h.gasCost ++ h.contract.bytes ∧
      h.bytes.drop 24 = h.contract.bytes ∧ h.bytes.drop 45 = [] := by
  have hassoc : h.bytes =
      be64 h.nonce ++ (be64 h.validToTime ++ (be64 h.gasCost ++ h.contract.bytes)) := by
    simp [Header.bytes]
  refine ⟨?_, ?_, ?_, ?_⟩
  · rw [hassoc, List.drop_left' (by simp), List.append_assoc]
  · rw [hassoc, ← List.append_assoc, List.drop_left' (by simp)]
  · exact List.drop_left' (by simp)
  · exact List.drop_of_length_le (by simp)

theorem take_add_of_read {r : ByteReader} {m n : Nat} {front bs : Bytes}
    (hfront : r.rest.take m = front) (hread : bs = (r.advance m).rest.take n) :
    r.rest.take (m + n) = front ++ bs := by
  rw [rest_advance] at hread
  rw [List.take_add, hfront, hread]

/-- A header is read in full if it is there, and else up to the first field
that is missing. What was read before that stands for the bytes it replaces. -/
theorem Header.overwrite_cases (h : Header) (r : ByteReader) :
    (∃ field h', HeaderError.ofLength? r.remaining = some field ∧
        h.overwrite r = (.error field, h', r.advance field.offset) ∧
        h'.bytes = r.rest.take field.offset ++ h.bytes.drop field.offset) ∨
      (HeaderError.ofLength? r.remaining = none ∧ ∃ n h',
        h.overwrite r = (.ok n, h', r.advance Header.length) ∧ h'.bytes ++ be32 n <+: r.rest) := by
  have hword := isField_readUInt64 .big
  obtain ⟨drop8, drop16, drop24, drop45⟩ := h.drop_bytes
  rcases hword.cases r with ⟨hlt, h₁⟩ | ⟨h8, nonce, h₁, b₁⟩
  · exact .inl ⟨.nonce, h, if_pos hlt, by simp only [Header.overwrite, h₁]; rfl, rfl⟩
  have take8 : r.rest.take 8 = be64 nonce := b₁.symm
  rcases hword.cases (r.advance 8) with ⟨hlt, h₂⟩ | ⟨h16, validToTime, h₂, b₂⟩
  · rw [remaining_advance] at hlt
    refine .inl ⟨.validToTime, { h with nonce }, ?_,
      by simp only [Header.overwrite, h₁, h₂]; rfl, ?_⟩
    · rw [HeaderError.ofLength?, if_neg (by omega), if_pos (by omega)]
    · rw [HeaderError.offset, take8, drop8]
      simp [Header.bytes]
  rw [remaining_advance] at h16
  have take16 : r.rest.take (8 + 8) = be64 nonce ++ be64 validToTime := take_add_of_read take8 b₂
  rcases hword.cases (r.advance (8 + 8)) with ⟨hlt, h₃⟩ | ⟨h24, gasCost, h₃, b₃⟩
  · rw [remaining_advance] at hlt
    refine .inl ⟨.gasCost, { h with nonce, validToTime }, ?_,
      by simp only [Header.overwrite, h₁, h₂, h₃, advance_advance]; rfl, ?_⟩
    · rw [HeaderError.ofLength?, if_neg (by omega), if_neg (by omega), if_pos (by omega)]
    · rw [HeaderError.offset, take16, drop16]
      simp [Header.bytes]
  rw [remaining_advance] at h24
  have take24 : r.rest.take (8 + 8 + 8) = be64 nonce ++ be64 validToTime ++ be64 gasCost :=
    take_add_of_read take16 b₃
  rcases isField_readAddress.cases (r.advance (8 + 8 + 8)) with
    ⟨hlt, h₄⟩ | ⟨h45, contract, h₄, b₄⟩
  · rw [remaining_advance] at hlt
    refine .inl ⟨.contract, { h with nonce, validToTime, gasCost }, ?_,
      by simp only [Header.overwrite, h₁, h₂, h₃, h₄, advance_advance]; rfl, ?_⟩
    · rw [HeaderError.ofLength?, if_neg (by omega), if_neg (by omega), if_neg (by omega),
        if_pos (by omega)]
    · rw [HeaderError.offset, take24, drop24]
      rfl
  rw [remaining_advance] at h45
  have take45 : r.rest.take (8 + 8 + 8 + 21) =
      Header.bytes { nonce, validToTime, gasCost, contract } := take_add_of_read take24 b₄
  rcases (isField_readUInt32 .big).cases (r.advance (8 + 8 + 8 + 21)) with
    ⟨hlt, h₅⟩ | ⟨h49, n, h₅, b₅⟩
  · rw [remaining_advance] at hlt
    refine .inl ⟨.rpcLength, { nonce, validToTime, gasCost, contract }, ?_,
      by simp only [Header.overwrite, h₁, h₂, h₃, h₄, h₅, advance_advance]; rfl, ?_⟩
    · rw [HeaderError.ofLength?, if_neg (by omega), if_neg (by omega), if_neg (by omega),
        if_neg (by omega), if_pos (by omega)]
    · rw [HeaderError.offset, take45, drop45, List.append_nil]
  rw [remaining_advance] at h49
  -- Every field is there: the five pieces are the first forty-nine bytes.
  refine .inr ⟨?_, n, { nonce, validToTime, gasCost, contract },
    by simp only [Header.overwrite, h₁, h₂, h₃, h₄, h₅, advance_advance]; rfl, ?_⟩
  · rw [HeaderError.ofLength?, if_neg (by omega), if_neg (by omega), if_neg (by omega),
      if_neg (by omega), if_neg (by omega)]
  · have take49 : r.rest.take (8 + 8 + 8 + 21 + 4) =
        Header.bytes { nonce, validToTime, gasCost, contract } ++ be32 n :=
      take_add_of_read take45 b₅
    rw [← take49]
    exact List.take_prefix _ _

theorem Header.overwrite_of_le (h : Header) {r : ByteReader} (hr : Header.length ≤ r.remaining) :
    ∃ n h', h.overwrite r = (.ok n, h', r.advance Header.length) ∧
      h'.bytes ++ be32 n <+: r.rest := by
  rcases h.overwrite_cases r with ⟨field, -, hfield, -⟩ | ⟨-, hread⟩
  · rw [HeaderError.ofLength?_eq_none_iff.mpr hr] at hfield
    cases hfield
  · exact hread

theorem Header.overwrite_of_short (h : Header) {r : ByteReader} {field : HeaderError}
    (hr : HeaderError.ofLength? r.remaining = some field) :
    ∃ h', h.overwrite r = (.error field, h', r.advance field.offset) ∧
      h'.bytes = r.rest.take field.offset ++ h.bytes.drop field.offset := by
  rcases h.overwrite_cases r with ⟨field', h', hfield, hread⟩ | ⟨hnone, -⟩
  · rw [hr] at hfield
    cases hfield
    exact ⟨h', hread⟩
  · rw [hr] at hnone
    cases hnone

theorem announcedLength_of_prefix {h : Header} {n : UInt32} {bs : Bytes}
    (hp : h.bytes ++ be32 n <+: bs) : announcedLength bs = Header.length + n.toNat := by
  obtain ⟨tail, rfl⟩ := hp
  rw [announcedLength, List.append_assoc, List.drop_left' h.length_bytes,
    List.take_left' (length_be32 n), ofBigEndian_be32]

theorem announcedLength_append {bs : Bytes} (h : Header.length ≤ bs.length) (tail : Bytes) :
    announcedLength (bs ++ tail) = announcedLength bs := by
  have h' : 49 ≤ bs.length := h
  rw [announcedLength, announcedLength, List.drop_append_of_le_length (by omega),
    List.take_append_of_le_length (by rw [List.length_drop]; omega)]

namespace Transaction

/-! ### Recognising the call -/

/-- The call of the announced length in front of `bs` is all there, and is
written as `t`. -/
def Recognised (contract : Address) (announced : UInt32) (bs : Bytes) (t : Transfer) : Prop :=
  contract = tokenContract ∧ announced.toNat ≤ bs.length ∧ bs.take announced.toNat ∈ t.encodings

theorem Recognised.unique {contract : Address} {announced : UInt32} {bs : Bytes}
    {t t' : Transfer} (h : Recognised contract announced bs t)
    (h' : Recognised contract announced bs t') : t = t' :=
  Transfer.eq_of_mem_encodings h.2.2 h'.2.2

/-- A call is recognised exactly if the decoder reads it to its announced end. -/
theorem run_eq_iff_recognised {contract : Address} {announced : UInt32} {r : ByteReader}
    {t : Transfer} : (Transfer.decoder contract).run r = (.ok t, r.advance announced.toNat) ↔
      Recognised contract announced r.rest t := by
  rw [(Transfer.accepts_decoder contract).run_eq_iff, Recognised, length_rest]
  exact and_left_comm

theorem recognise_of_ok {contract : Address} {announced : UInt32} {r : ByteReader} {t : Transfer}
    {k : Nat} (h : (Transfer.decoder contract).run r = (.ok t, r.advance k)) :
    recognise contract announced r =
      if k = announced.toNat then (.transfer t, r.advance k)
      else (.blind (some .lengthMismatch), r) := by
  unfold recognise
  rw [h]
  simp only [consumedSince_mark_advance, rewind_mark_advance]

theorem recognise_of_error {contract : Address} {announced : UInt32} {r : ByteReader}
    {e : TransferError} {k : Nat}
    (h : (Transfer.decoder contract).run r = (.error e, r.advance k)) :
    recognise contract announced r = (.blind (some e), r) := by
  unfold recognise
  rw [h]
  simp only [rewind_mark_advance]

/-- A call is recognised and passed, or it is blind for a reason and nothing
of it is passed. -/
theorem recognise_cases (contract : Address) (announced : UInt32) (r : ByteReader) :
    (∃ t, Recognised contract announced r.rest t ∧
        recognise contract announced r = (.transfer t, r.advance announced.toNat)) ∨
      ((∀ t, ¬ Recognised contract announced r.rest t) ∧
        ∃ e, recognise contract announced r = (.blind (some e), r)) := by
  simp only [← run_eq_iff_recognised]
  rcases (Transfer.advances_decoder contract).cases r with ⟨t, k, hrun⟩ | ⟨e, k, hrun⟩
  · rw [hrun, recognise_of_ok hrun]
    by_cases hlen : k = announced.toNat
    · subst hlen
      exact .inl ⟨t, rfl, if_pos rfl⟩
    · refine .inr ⟨fun t' h => hlen ?_, _, if_neg hlen⟩
      exact advance_injective (congrArg Prod.snd h)
  · rw [hrun, recognise_of_error hrun]
    exact .inr ⟨fun t h => by simp at h, e, rfl⟩

theorem recognise_eq_transfer_iff {contract : Address} {announced : UInt32} {r : ByteReader}
    {t : Transfer} : (recognise contract announced r).1 = .transfer t ↔
      Recognised contract announced r.rest t := by
  rcases recognise_cases contract announced r with ⟨t', ht', hrec⟩ | ⟨hnone, e, hrec⟩
  · rw [hrec]
    constructor
    · intro h
      cases h
      exact ht'
    · intro h
      rw [ht'.unique h]
  · rw [hrec]
    exact ⟨nofun, fun h => absurd h (hnone t)⟩

theorem recognise_kind (contract : Address) (announced : UInt32) (r : ByteReader) :
    (∃ t, (recognise contract announced r).1 = .transfer t) ∨
      ∃ e, (recognise contract announced r).1 = .blind (some e) := by
  rcases recognise_cases contract announced r with ⟨t, -, hrec⟩ | ⟨-, e, hrec⟩
  · exact .inl ⟨t, by rw [hrec]⟩
  · exact .inr ⟨e, by rw [hrec]⟩

end Transaction

/-- How much of a call of the announced length is passed by recognising it:
all of a transfer, nothing else. -/
def TransactionKind.passed (announced : UInt32) : TransactionKind → Nat
  | transfer _ => announced.toNat
  | blind _ => 0

theorem TransactionKind.passed_le (announced : UInt32) (kind : TransactionKind) :
    kind.passed announced ≤ announced.toNat := by
  cases kind with
  | transfer t => exact Nat.le_refl _
  | blind reason => exact Nat.zero_le _

namespace Transaction

theorem recognise_snd (contract : Address) (announced : UInt32) (r : ByteReader) :
    (recognise contract announced r).2 =
        r.advance ((recognise contract announced r).1.passed announced) ∧
      (recognise contract announced r).1.passed announced ≤ r.remaining := by
  rcases recognise_cases contract announced r with ⟨t, ht, hrec⟩ | ⟨-, e, hrec⟩
  · rw [hrec]
    exact ⟨rfl, by simpa [TransactionKind.passed] using ht.2.1⟩
  · rw [hrec]
    exact ⟨rfl, Nat.zero_le _⟩

/-- What the transaction is after its first chunk: the header's fields as they
are written in front, and a transfer exactly if the call ends in this chunk
and is written as that transfer. -/
structure ReadFrom (first : Bytes) (tx : Transaction) : Prop where
  header : tx.header.bytes <+: first
  transfer_iff : ∀ t, tx.kind = .transfer t ↔ tx.header.contract = tokenContract ∧
    announcedLength first ≤ first.length ∧
    (first.take (announcedLength first)).drop Header.length ∈ t.encodings
  kind : (∃ t, tx.kind = .transfer t) ∨ ∃ e, tx.kind = .blind (some e)

end Transaction

namespace Transaction.Parser

/-- The parser saw the bytes `bs`, with the whole header in front. -/
structure After (bs : Bytes) (p : Parser) : Prop where
  header_le : Header.length ≤ bs.length
  headerRead : p.headerRead = true
  total : announcedLength bs = Header.length + p.rpcTotal.toNat
  parsed : p.rpcParsed.toNat = min p.rpcTotal.toNat (bs.length - Header.length)

theorem After.isDone_iff {bs : Bytes} {p : Parser} (h : p.After bs) :
    p.isDone = true ↔ announcedLength bs ≤ bs.length := by
  have hle := h.header_le
  have htotal := h.total
  have hparsed := h.parsed
  unfold isDone
  rw [h.headerRead, Bool.true_and, beq_iff_eq, ← UInt32.toNat_inj]
  omega

theorem After.unique {bs : Bytes} {p q : Parser} (hp : p.After bs) (hq : q.After bs) : p = q := by
  have htotal : p.rpcTotal = q.rpcTotal := by
    apply UInt32.toNat_inj.mp
    have hptotal := hp.total
    have hqtotal := hq.total
    omega
  have hparsed : p.rpcParsed = q.rpcParsed := by
    apply UInt32.toNat_inj.mp
    rw [hp.parsed, hq.parsed, htotal]
  have hread : p.headerRead = q.headerRead := by rw [hp.headerRead, hq.headerRead]
  obtain ⟨total, parsed, read⟩ := p
  obtain ⟨total', parsed', read'⟩ := q
  simp only at htotal hparsed hread
  rw [htotal, hparsed, hread]

/-- Where feeding leaves a parser that saw `seen` before: after the reader's
bytes too, done if they reach the announced length, and with the reader behind
the last byte that belongs to the transaction. -/
structure Fed.Continues (seen : Bytes) (r : ByteReader) (fed : Fed) : Prop where
  after : fed.parser.After (seen ++ r.rest)
  status : fed.status = .ok (if announcedLength (seen ++ r.rest) ≤ seen.length + r.remaining
    then .done else .more)
  reader : fed.reader =
    r.advance (min (announcedLength (seen ++ r.rest) - seen.length) r.remaining)

theorem progress_congr {p q : Prop} [Decidable p] [Decidable q] (h : p ↔ q) :
    (if p then Progress.done else .more) = if q then .done else .more :=
  ite_congr (propext h) (fun _ => rfl) fun _ => rfl

theorem skipCall_eq {p : Parser} (hle : p.rpcParsed.toNat ≤ p.rpcTotal.toNat) (tx : Transaction)
    (r : ByteReader) :
    ∃ k parsed, k = min (p.rpcTotal.toNat - p.rpcParsed.toNat) r.remaining ∧
      parsed.toNat = p.rpcParsed.toNat + k ∧
      p.skipCall tx r =
        { status := .ok (if p.rpcParsed.toNat + k = p.rpcTotal.toNat then .done else .more)
          parser := { p with rpcParsed := parsed }
          transaction := tx
          reader := r.advance k } := by
  have htotal := p.rpcTotal.toNat_lt
  have hpending : p.pending.toNat = p.rpcTotal.toNat - p.rpcParsed.toNat :=
    UInt32.toNat_sub_of_le _ _ (UInt32.le_iff_toNat_le.mpr hle)
  -- The count does not wrap: it stays within the announced length, which is a word.
  have hsum : (p.rpcParsed + UInt32.ofNat (min p.pending.toNat r.remaining)).toNat =
      p.rpcParsed.toNat + min p.pending.toNat r.remaining := by
    rw [UInt32.toNat_add, UInt32.toNat_ofNat_of_lt' (by simp only [UInt32.size]; omega)]
    exact Nat.mod_eq_of_lt (by omega)
  refine ⟨min p.pending.toNat r.remaining, _, by rw [hpending], hsum, ?_⟩
  simp only [skipCall, skip, ← UInt32.toNat_inj, hsum]

/-- **The parser is told by the bytes it saw.** Feeding it on leaves it after
all of them, and the transaction as it was. -/
theorem feed_of_after {seen : Bytes} {p : Parser} (h : p.After seen) (tx : Transaction)
    (r : ByteReader) :
    (p.feed tx r).Continues seen r ∧ (p.feed tx r).transaction = tx := by
  have hle := h.header_le
  have htotal := h.total
  have hparsed := h.parsed
  have hannounced := announcedLength_append hle r.rest
  obtain ⟨k, parsed, rfl, hsum, hskip⟩ := skipCall_eq (p := p) (by omega) tx r
  have hfeed : p.feed tx r = p.skipCall tx r := if_pos h.headerRead
  rw [hfeed, hskip]
  refine ⟨⟨⟨?_, h.headerRead, ?_, ?_⟩, ?_, ?_⟩, rfl⟩
  · rw [List.length_append]
    omega
  · rw [hannounced]
    exact htotal
  · simp only [hsum, hparsed, List.length_append, length_rest]
    omega
  · simp only [hannounced, htotal, hparsed]
    exact congrArg Except.ok (progress_congr (by omega))
  · simp only [hannounced, htotal, hparsed]
    exact congrArg r.advance (by omega)

/-- A parser that already saw the reader's first `m` bytes, none of them behind
the transaction, goes on as one that is fed them all. -/
theorem Fed.Continues.of_take {r : ByteReader} {fed : Fed} {m : Nat} (hm : m ≤ r.remaining)
    (hend : m ≤ announcedLength r.rest) (h : fed.Continues (r.rest.take m) (r.advance m)) :
    fed.Continues [] r := by
  have hall : r.rest.take m ++ (r.advance m).rest = r.rest := by
    rw [rest_advance, List.take_append_drop]
  have hlen : (r.rest.take m).length = m := by
    rw [List.length_take, length_rest, Nat.min_eq_left hm]
  obtain ⟨hafter, hstatus, hreader⟩ := h
  rw [hall] at hafter hstatus hreader
  rw [hlen, remaining_advance] at hstatus hreader
  refine ⟨hafter, ?_, ?_⟩
  · rw [hstatus, List.nil_append, List.length_nil]
    exact congrArg Except.ok (progress_congr (by omega))
  · rw [hreader, advance_advance, List.nil_append, List.length_nil]
    exact congrArg r.advance (by omega)

/-- A parser whose header was just read saw the header, and with a recognised
transfer the call too. -/
theorem after_afterHeader {bs : Bytes} {n : UInt32} {kind : TransactionKind}
    (hle : Header.length ≤ bs.length) (hannounced : announcedLength bs = Header.length + n.toNat)
    (hlen : bs.length = Header.length + kind.passed n) :
    (({} : Parser).afterHeader n kind).After bs := by
  refine ⟨hle, rfl, hannounced, ?_⟩
  rw [hlen, Nat.add_sub_cancel_left]
  cases kind with
  | transfer t => exact (Nat.min_self _).symm
  | blind reason => exact (Nat.min_zero _).symm

/-- What a new parser does with a chunk: the header, the call, the rest. -/
theorem feed_new (tx : Transaction) (r : ByteReader) : ({} : Parser).feed tx r =
    match tx.header.overwrite r with
    | (.error field, header, r) =>
      { status := .error field, parser := {}, transaction := { tx with header }, reader := r }
    | (.ok n, header, r) =>
      (({} : Parser).afterHeader n (recognise header.contract n r).1).feed
        { header, kind := (recognise header.contract n r).1 } (recognise header.contract n r).2 :=
  rfl

/-- Behind the header a new parser goes on with what it recognised, and with what
is left of the call. -/
theorem feed_of_overwrite_eq_ok {tx : Transaction} {r : ByteReader} {n : UInt32} {header : Header}
    (hread : tx.header.overwrite r = (.ok n, header, r.advance Header.length)) :
    let kind := (recognise header.contract n (r.advance Header.length)).1
    ({} : Parser).feed tx r = (({} : Parser).afterHeader n kind).feed { header, kind }
      (r.advance (Header.length + kind.passed n)) := by
  intro kind
  obtain ⟨hbehind, -⟩ := recognise_snd header.contract n (r.advance Header.length)
  rw [feed_new, hread, ← advance_advance]
  simp only
  rw [hbehind]

/-- What is recognised behind the header is what `ReadFrom` says of the chunk. -/
theorem readFrom_recognise {r : ByteReader} {n : UInt32} {header : Header}
    (hr : Header.length ≤ r.remaining) (hpre : header.bytes <+: r.rest)
    (hannounced : announcedLength r.rest = Header.length + n.toNat) :
    Transaction.ReadFrom r.rest
      { header, kind := (recognise header.contract n (r.advance Header.length)).1 } := by
  refine ⟨hpre, fun t => ?_, recognise_kind _ _ _⟩
  rw [recognise_eq_transfer_iff, Recognised, rest_advance, List.drop_take, hannounced,
    Nat.add_sub_cancel_left, List.length_drop, length_rest]
  constructor
  · rintro ⟨hc, hle, hbs⟩
    exact ⟨hc, by omega, hbs⟩
  · rintro ⟨hc, hle, hbs⟩
    exact ⟨hc, by omega, hbs⟩

/-- **The first chunk.** A new parser that is fed a whole header reads it, and
with it all that is ever known of the transaction. -/
theorem feed_first (tx : Transaction) {r : ByteReader} (hr : Header.length ≤ r.remaining) :
    (({} : Parser).feed tx r).Continues [] r ∧
      (({} : Parser).feed tx r).transaction.ReadFrom r.rest := by
  obtain ⟨n, header, hread, hpre⟩ := tx.header.overwrite_of_le hr
  have hannounced := announcedLength_of_prefix hpre
  rw [feed_of_overwrite_eq_ok hread]
  have htx := readFrom_recognise hr ((List.prefix_append _ _).trans hpre) hannounced
  obtain ⟨-, hpassed⟩ := recognise_snd header.contract n (r.advance Header.length)
  rw [remaining_advance] at hpassed
  generalize (recognise header.contract n (r.advance Header.length)).1 = kind at htx hpassed ⊢
  -- So far the parser saw the header, and the call too if it was recognised.
  have hle := kind.passed_le n
  have hlen : (r.rest.take (Header.length + kind.passed n)).length =
      Header.length + kind.passed n := by
    rw [List.length_take, length_rest]
    omega
  have htake : announcedLength (r.rest.take (Header.length + kind.passed n)) =
      Header.length + n.toNat := by
    rw [← hannounced, ← announcedLength_append (by omega), List.take_append_drop]
  obtain ⟨hcont, hsame⟩ := feed_of_after (after_afterHeader (by omega) htake hlen)
    { header, kind } (r.advance (Header.length + kind.passed n))
  refine ⟨hcont.of_take (by omega) (by omega), ?_⟩
  rw [hsame]
  exact htx

/-- A first chunk without the whole header is refused by the field that is
missing. It leaves the parser new, and of the transaction it replaces what was
read in front of that field. -/
theorem feed_short (tx : Transaction) {r : ByteReader} {field : HeaderError}
    (hr : HeaderError.ofLength? r.remaining = some field) :
    ∃ header : Header,
      header.bytes = r.rest.take field.offset ++ tx.header.bytes.drop field.offset ∧
      ({} : Parser).feed tx r =
        { status := .error field
          parser := {}
          transaction := { tx with header }
          reader := r.advance field.offset } := by
  obtain ⟨header, hread, hbytes⟩ := tx.header.overwrite_of_short hr
  exact ⟨header, hbytes, by rw [feed_new, hread]⟩

/-- The parser is new, or it saw some bytes with the whole header in front. -/
def Settled (p : Parser) : Prop := p = {} ∨ ∃ bs, p.After bs

theorem settled_new : ({} : Parser).Settled := .inl rfl

/-- **A parser is always settled.** Whatever it is fed, it is new or told by
the bytes it saw. -/
theorem Settled.feed {p : Parser} (h : p.Settled) (tx : Transaction) (r : ByteReader) :
    (p.feed tx r).parser.Settled := by
  rcases h with rfl | ⟨seen, h⟩
  · cases hr : HeaderError.ofLength? r.remaining with
    | some field =>
      obtain ⟨header, -, hfeed⟩ := feed_short tx hr
      exact .inl (congrArg Fed.parser hfeed)
    | none =>
      have hle := HeaderError.ofLength?_eq_none_iff.mp hr
      exact .inr ⟨_, (feed_first tx hle).1.after⟩
  · exact .inr ⟨_, (feed_of_after h tx r).1.after⟩

theorem Settled.parsed_le {p : Parser} (h : p.Settled) : p.rpcParsed ≤ p.rpcTotal := by
  rcases h with rfl | ⟨seen, h⟩
  · exact UInt32.le_refl _
  · rw [UInt32.le_iff_toNat_le, h.parsed]
    exact Nat.min_le_left _ _

theorem Settled.eq_new {p : Parser} (h : p.Settled) (hread : p.headerRead = false) : p = {} := by
  rcases h with hnew | ⟨seen, h⟩
  · exact hnew
  · rw [h.headerRead] at hread
    cases hread

/-! ### Whatever a parser is asked -/

/-- What can be asked of a parser: to start anew, and to consume a chunk or what
is left of a reader, for the transaction that comes with the call. -/
inductive Call
  | restart
  | feedChunk (tx : Transaction) (chunk : Bytes)
  | feed (tx : Transaction) (r : ByteReader)

/-- The parser behind a call. -/
def afterCall (p : Parser) : Call → Parser
  | .restart => {}
  | .feedChunk tx chunk => (p.feedChunk tx chunk).parser
  | .feed tx r => (p.feed tx r).parser

/-- The parser behind some calls, the first of them to a new one. -/
def afterCalls (calls : List Call) : Parser := calls.foldl afterCall {}

theorem Settled.afterCall {p : Parser} (h : p.Settled) (call : Call) :
    (p.afterCall call).Settled := by
  cases call with
  | restart => exact settled_new
  | feedChunk tx chunk => exact h.feed tx (ofBytes chunk)
  | feed tx r => exact h.feed tx r

theorem Settled.foldl_afterCall (calls : List Call) {p : Parser} (h : p.Settled) :
    (calls.foldl Parser.afterCall p).Settled := by
  induction calls generalizing p with
  | nil => exact h
  | cons call calls ih => exact ih (h.afterCall call)

/-- **A parser that has not read a header is new**, whatever it was asked. -/
theorem afterCalls_eq_new {calls : List Call} (hread : (afterCalls calls).headerRead = false) :
    afterCalls calls = {} :=
  (settled_new.foldl_afterCall calls).eq_new hread

end Transaction.Parser

end HardwareSigner
