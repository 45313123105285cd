/-
# A stream that is fed in chunks

A new parser is fed the chunks of a stream, one after the other. If the first
chunk holds the header, what every call leaves is told by three lengths: that
of the call which the header announces, that of the stream in front of the
chunk, and that of the chunk (`Fed.ToldBy`). So it does not matter whether a
transfer was recognised, where the attempt to recognise one stopped, or how
far behind the announced end it read.

The parser counts in 32-bit words. A stream may be longer than a word can
count and the announced length is any word, but no sum and no difference that
is taken ever wraps around: a parser that stops where one would
(`Parser.feed?`) never stops (`Parser.Settled.feedChunks?_eq`).

Key definitions: `Parser.feedChunks`, `Fed.ToldBy`, `Parser.feed?`,
`Parser.feedChunks?`.
Key theorems: `Parser.feedChunks_of_after`, `Parser.feedChunks_new`,
`Parser.Settled.feedChunks?_eq`, `Parser.every_call_told_by_lengths`.
-/
import HardwareSigner.Proofs.StreamParsing

namespace HardwareSigner

open ByteReader

namespace Transaction.Parser

/-! ### Runs -/

/-- What feeding a parser some chunks, one after the other, leaves after each
of them. -/
def feedChunks (p : Parser) (tx : Transaction) : List Bytes → List Fed
  | [] => []
  | chunk :: chunks =>
    p.feedChunk tx chunk ::
      feedChunks (p.feedChunk tx chunk).parser (p.feedChunk tx chunk).transaction chunks

theorem length_feedChunks :
    ∀ (chunks : List Bytes) (p : Parser) (tx : Transaction),
      (p.feedChunks tx chunks).length = chunks.length
  | [], _, _ => rfl
  | chunk :: chunks, p, tx => by
    rw [feedChunks, List.length_cons, length_feedChunks chunks, List.length_cons]

theorem feedChunks_ne_nil (p : Parser) (tx : Transaction) (first : Bytes) (later : List Bytes) :
    p.feedChunks tx (first :: later) ≠ [] := List.cons_ne_nil _ _

/-- **Each call goes on behind what came before it**, and none of them touches
the transaction, once the header is read. -/
theorem feedChunks_of_after (tx : Transaction) :
    ∀ (chunks : List Bytes) {seen : Bytes} {p : Parser}, p.After seen →
      ∀ {i : Nat} {chunk : Bytes}, chunks[i]? = some chunk →
        ∃ fed, (p.feedChunks tx chunks)[i]? = some fed ∧
          fed.Continues (seen ++ (chunks.take i).flatten) (ofBytes chunk) ∧ fed.transaction = tx
  | [], _, _, _, i, _, hi => by simp at hi
  | first :: later, seen, p, h, i, chunk, hi => by
    obtain ⟨hcont, htx⟩ := feed_of_after h tx (ofBytes first)
    cases i with
    | zero =>
      have hchunk : first = chunk := by simpa using hi
      subst hchunk
      refine ⟨p.feedChunk tx first, rfl, ?_, htx⟩
      rw [List.take_zero, List.flatten_nil, List.append_nil]
      exact hcont
    | succ i =>
      rw [List.getElem?_cons_succ] at hi
      -- The first call left the transaction as it was, so the others are handed the same one.
      obtain ⟨fed, hfed, hcont', htx'⟩ := feedChunks_of_after tx later hcont.after hi
      refine ⟨fed, ?_, ?_, htx'⟩
      · rw [feedChunks, List.getElem?_cons_succ]
        unfold feedChunk
        rw [htx]
        exact hfed
      · rw [List.take_succ_cons, List.flatten_cons, ← List.append_assoc]
        exact hcont'

/-- **A run from a new parser.** If the first chunk holds the header, it fixes
the transaction, and every call goes on behind the chunks before it. -/
theorem feedChunks_new (tx : Transaction) {first : Bytes} (later : List Bytes)
    (hfirst : Header.length ≤ first.length) {i : Nat} {chunk : Bytes}
    (hi : (first :: later)[i]? = some chunk) :
    ∃ fed, (({} : Parser).feedChunks tx (first :: later))[i]? = some fed ∧
      fed.Continues ((first :: later).take i).flatten (ofBytes chunk) ∧
      fed.transaction.ReadFrom first := by
  obtain ⟨hcont, hread⟩ := feed_first tx (r := ofBytes first) hfirst
  cases i with
  | zero =>
    have hchunk : first = chunk := by simpa using hi
    subst hchunk
    exact ⟨({} : Parser).feedChunk tx first, rfl, hcont, hread⟩
  | succ i =>
    rw [List.getElem?_cons_succ] at hi
    obtain ⟨fed, hfed, hcont', htx⟩ :=
      feedChunks_of_after (({} : Parser).feedChunk tx first).transaction later hcont.after hi
    refine ⟨fed, hfed, ?_, ?_⟩
    · rw [List.take_succ_cons, List.flatten_cons]
      exact hcont'
    · rw [htx]
      exact hread

/-! ### Calls told by lengths -/

/-- What a call leaves that is fed `chunk` behind `before` bytes of a stream
whose header announces `n`: the counters, whether the parser is done, and the
reader behind the part of the chunk that belongs to the transaction. -/
structure Fed.ToldBy (n before : Nat) (chunk : Bytes) (fed : Fed) : Prop where
  headerRead : fed.parser.headerRead = true
  total : fed.parser.rpcTotal.toNat = n
  parsed : fed.parser.rpcParsed.toNat = min n (before + chunk.length - Header.length)
  status : fed.status = .ok (if fed.parser.isDone then .done else .more)
  isDone_iff : fed.parser.isDone = true ↔ Header.length + n ≤ before + chunk.length
  reader : fed.reader = (ofBytes chunk).advance (min (Header.length + n - before) chunk.length)

theorem Fed.Continues.toldBy {seen chunk : Bytes} {fed : Fed}
    (h : fed.Continues seen (ofBytes chunk)) {n : Nat}
    (hn : announcedLength (seen ++ chunk) = Header.length + n) :
    fed.ToldBy n seen.length chunk := by
  have hafter : fed.parser.After (seen ++ chunk) := h.after
  have htotal := hafter.total
  have hparsed := hafter.parsed
  have hdone := hafter.isDone_iff
  have hlen : (seen ++ chunk).length = seen.length + chunk.length := List.length_append
  have hn' : fed.parser.rpcTotal.toNat = n := by omega
  rw [hn, hlen] at hdone
  refine ⟨hafter.headerRead, hn', ?_, ?_, hdone, ?_⟩
  · rw [hparsed, hn', hlen]
  · rw [h.status, rest_ofBytes, hn]
    exact congrArg Except.ok (progress_congr hdone.symm)
  · rw [h.reader, rest_ofBytes, hn]
    rfl

/-- Of two calls told by lengths, the later of which has at least as much of
the stream in front of it as the earlier has seen, the later one counts no
less, and does nothing if the earlier one was done. -/
theorem Fed.ToldBy.later {n before before' : Nat} {chunk chunk' : Bytes} {fed fed' : Fed}
    (h : fed.ToldBy n before chunk) (h' : fed'.ToldBy n before' chunk')
    (hle : before + chunk.length ≤ before') :
    fed.parser.rpcParsed ≤ fed'.parser.rpcParsed ∧
      (fed.status = .ok .done → fed'.status = .ok .done ∧ fed'.reader = ofBytes chunk') := by
  constructor
  · rw [UInt32.le_iff_toNat_le, h.parsed, h'.parsed]
    omega
  · intro hstatus
    have hdone : fed.parser.isDone = true := by
      cases hd : fed.parser.isDone with
      | true => rfl
      | false => simp [h.status, hd] at hstatus
    have hend := h.isDone_iff.mp hdone
    have hdone' : fed'.parser.isDone = true := h'.isDone_iff.mpr (by omega)
    refine ⟨by rw [h'.status, if_pos hdone'], ?_⟩
    have hzero : min (Header.length + n - before') chunk'.length = 0 := by omega
    rw [h'.reader, hzero]
    rfl

/-! ### Counting without wrapping around -/

/-- The difference of two words, if it is not below zero. -/
def subWords? (a b : UInt32) : Option UInt32 := if b ≤ a then some (a - b) else none

/-- The sum of two words, if it is a word. -/
def addWords? (a b : UInt32) : Option UInt32 :=
  if a.toNat + b.toNat < UInt32.size then some (a + b) else none

/-- A number as a word, if it is one. -/
def wordOfNat? (n : Nat) : Option UInt32 := if n < UInt32.size then some (UInt32.ofNat n) else none

/-- Pass over what is left of the call, and stop where a number is no word. -/
def skipCall? (p : Parser) (tx : Transaction) (r : ByteReader) : Option Fed := do
  let pending ← subWords? p.rpcTotal p.rpcParsed
  let (passed, r) := r.skip pending.toNat
  let passed ← wordOfNat? passed
  let parsed ← addWords? p.rpcParsed passed
  return {
    status := .ok (if parsed = p.rpcTotal then .done else .more)
    parser := { p with rpcParsed := parsed }
    transaction := tx
    reader := r }

/-- Feed a parser, and stop where a number is no word. -/
def feed? (p : Parser) (tx : Transaction) (r : ByteReader) : Option Fed :=
  if p.headerRead then p.skipCall? tx r
  else
    match tx.header.overwrite r with
    | (.error field, header, r) =>
      some { status := .error field, parser := p, transaction := { tx with header }, reader := r }
    | (.ok announced, header, r) =>
      let (kind, r) := recognise header.contract announced r
      (p.afterHeader announced kind).skipCall? { header, kind } r

/-- Feed a parser some chunks, and stop where a number is no word. -/
def feedChunks? (p : Parser) (tx : Transaction) : List Bytes → Option (List Fed)
  | [] => some []
  | chunk :: chunks => do
    let fed ← p.feed? tx (ofBytes chunk)
    let later ← feedChunks? fed.parser fed.transaction chunks
    return fed :: later

theorem skipCall?_eq {p : Parser} (hle : p.rpcParsed ≤ p.rpcTotal) (tx : Transaction)
    (r : ByteReader) : p.skipCall? tx r = some (p.skipCall tx r) := by
  have htotal := p.rpcTotal.toNat_lt
  have hpending : (p.rpcTotal - p.rpcParsed).toNat = p.rpcTotal.toNat - p.rpcParsed.toNat :=
    UInt32.toNat_sub_of_le _ _ hle
  have hsub : subWords? p.rpcTotal p.rpcParsed = some p.pending := if_pos hle
  rw [UInt32.le_iff_toNat_le] at hle
  -- No more is passed than is left of the call, so the sum is at most the announced length.
  have hpassed : min p.pending.toNat r.remaining ≤ p.rpcTotal.toNat - p.rpcParsed.toNat := by
    rw [← hpending]
    exact Nat.min_le_left _ _
  have hword : wordOfNat? (min p.pending.toNat r.remaining) =
      some (UInt32.ofNat (min p.pending.toNat r.remaining)) :=
    if_pos (by simp only [UInt32.size]; omega)
  have hadd : addWords? p.rpcParsed (UInt32.ofNat (min p.pending.toNat r.remaining)) =
      some (p.rpcParsed + UInt32.ofNat (min p.pending.toNat r.remaining)) := by
    apply if_pos
    rw [UInt32.toNat_ofNat_of_lt' (by simp only [UInt32.size]; omega)]
    simp only [UInt32.size]
    omega
  unfold skipCall?
  rw [hsub]
  simp only [Option.bind_eq_bind, Option.bind_some, skip, hword, hadd]
  rfl

theorem Settled.feed?_eq {p : Parser} (h : p.Settled) (tx : Transaction) (r : ByteReader) :
    p.feed? tx r = some (p.feed tx r) := by
  unfold Parser.feed? Parser.feed
  by_cases hread : p.headerRead = true
  · rw [if_pos hread, if_pos hread]
    exact skipCall?_eq h.parsed_le tx r
  · rw [if_neg hread, if_neg hread]
    obtain rfl := h.eq_new (Bool.eq_false_iff.mpr hread)
    obtain ⟨answer, header, behind⟩ := tx.header.overwrite r
    cases answer with
    | error field => rfl
    | ok announced =>
      -- Of the call all is passed or nothing.
      have hle : ∀ kind, (({} : Parser).afterHeader announced kind).rpcParsed ≤ announced := by
        intro kind
        cases kind with
        | transfer t => exact UInt32.le_refl _
        | blind reason => exact UInt32.le_iff_toNat_le.mpr (Nat.zero_le _)
      exact skipCall?_eq (hle _) _ _

/-- **Nothing wraps around.** A parser that stops where a number is no word
is fed any chunks without stopping, and does what the parser does. -/
theorem Settled.feedChunks?_eq (tx : Transaction) :
    ∀ (chunks : List Bytes) {p : Parser}, p.Settled →
      p.feedChunks? tx chunks = some (p.feedChunks tx chunks)
  | [], _, _ => rfl
  | chunk :: chunks, p, h => by
    have hlater := Settled.feedChunks?_eq (p.feedChunk tx chunk).transaction chunks
      (h.feed tx (ofBytes chunk))
    unfold feedChunks? feedChunks
    rw [h.feed?_eq tx (ofBytes chunk), Option.bind_eq_bind, Option.bind_some]
    unfold feedChunk at hlater
    rw [hlater, Option.bind_eq_bind, Option.bind_some]
    rfl

/-! ### The closed form of a run -/

theorem flatten_take_append {chunks : List Bytes} {i : Nat} {chunk : Bytes}
    (hi : chunks[i]? = some chunk) :
    (chunks.take i).flatten ++ chunk = (chunks.take (i + 1)).flatten := by
  rw [List.take_add_one, hi, List.flatten_append]
  simp

theorem length_flatten_take_add_le {chunks : List Bytes} {i j : Nat} {chunk : Bytes}
    (hi : chunks[i]? = some chunk) (hij : i < j) :
    (chunks.take i).flatten.length + chunk.length ≤ (chunks.take j).flatten.length := by
  have hcut : chunks.take j =
      chunks.take (i + 1) ++ (chunks.drop (i + 1)).take (j - (i + 1)) := by
    rw [← List.take_add, Nat.add_sub_cancel' hij]
  rw [← List.length_append, flatten_take_append hi, hcut, List.flatten_append, List.length_append]
  exact Nat.le_add_right _ _

/-- **Every call of a run is told by lengths.** Feed a new parser any chunks
of which the first holds the header. Then no count wraps around, each chunk
is answered, and what each call leaves is told by the announced length and by
the lengths of the chunk and of those before it. The count of the call's bytes
never falls, and once the parser is done it takes no byte and stays done. -/
theorem every_call_told_by_lengths (tx : Transaction) (first : Bytes) (later : List Bytes)
    (hfirst : Header.length ≤ first.length) :
    let chunks := first :: later
    let calls := ({} : Parser).feedChunks tx chunks
    ({} : Parser).feedChunks? tx chunks = some calls ∧
    calls.length = chunks.length ∧
    (∀ (i : Nat) (chunk : Bytes) (fed : Fed), chunks[i]? = some chunk → calls[i]? = some fed →
      fed.ToldBy (ofBigEndian ((first.drop 45).take 4)) (chunks.take i).flatten.length chunk) ∧
    ∀ (i j : Nat) (fed fed' : Fed), i < j → calls[i]? = some fed → calls[j]? = some fed' →
      fed.parser.rpcParsed ≤ fed'.parser.rpcParsed ∧
      (fed.status = .ok .done → fed'.status = .ok .done ∧ fed'.reader.offset = 0) := by
  intro chunks calls
  have hlength : calls.length = chunks.length := length_feedChunks chunks _ tx
  have htold : ∀ (i : Nat) (chunk : Bytes) (fed : Fed), chunks[i]? = some chunk →
      calls[i]? = some fed →
      fed.ToldBy (ofBigEndian ((first.drop 45).take 4)) (chunks.take i).flatten.length chunk := by
    intro i chunk fed hi hfed
    obtain ⟨fed', hfed', hcont, -⟩ := feedChunks_new tx later hfirst hi
    have heq : fed = fed' := Option.some.inj (hfed.symm.trans hfed')
    subst heq
    apply hcont.toldBy
    rw [flatten_take_append hi, List.take_succ_cons, List.flatten_cons,
      announcedLength_append hfirst]
    rfl
  refine ⟨settled_new.feedChunks?_eq tx chunks, hlength, htold, ?_⟩
  intro i j fed fed' hij hfed hfed'
  have hj : j < chunks.length := by
    rw [← hlength]
    exact (List.getElem?_eq_some_iff.mp hfed').1
  have hchunk := List.getElem?_eq_getElem (Nat.lt_trans hij hj)
  have hchunk' := List.getElem?_eq_getElem hj
  obtain ⟨hparsed, hdone⟩ := (htold i _ fed hchunk hfed).later (htold j _ fed' hchunk' hfed')
    (length_flatten_take_add_le hchunk hij)
  refine ⟨hparsed, fun hstatus => ?_⟩
  obtain ⟨hstatus', hreader⟩ := hdone hstatus
  exact ⟨hstatus', by rw [hreader]; rfl⟩

/-- A call of thirty bytes, of which the header announces all but the last. -/
def announcedShort : Bytes :=
  Header.bytes { contract := tokenContract } ++ be32 29 ++ Transfer.call .plain .zero 90000 []

theorem every_call_told_by_lengths_announcedShort :
    let calls := ({} : Parser).feedChunks {} [announcedShort, [1]]
    Header.length ≤ announcedShort.length ∧ ∃ fed fed', calls = [fed, fed'] ∧
      fed.ToldBy 29 0 announcedShort ∧ fed.status = .ok .done ∧
      fed.reader.offset + 1 = announcedShort.length ∧ fed'.reader.offset = 0 := by
  intro calls
  have hfirst : Header.length ≤ announcedShort.length := by decide
  obtain ⟨-, -, htold, hlater⟩ := every_call_told_by_lengths {} announcedShort [[1]] hfirst
  have hfed := htold 0 announcedShort _ rfl rfl
  have hstatus : (({} : Parser).feedChunk {} announcedShort).status = .ok .done := by
    rw [hfed.status, if_pos (hfed.isDone_iff.mpr (by decide))]
  obtain ⟨-, hdone⟩ := hlater 0 1 _ _ (by decide) rfl rfl
  refine ⟨hfirst, _, _, rfl, hfed, hstatus, ?_, (hdone hstatus).2⟩
  rw [hfed.reader]
  decide

end Transaction.Parser
end HardwareSigner
