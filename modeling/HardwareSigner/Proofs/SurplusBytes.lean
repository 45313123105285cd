/-
# Bytes behind the announced end

The attempt to recognise a transfer reads on in all of the first chunk, also
behind the end that the header announces: the length of a memo or its text may
lie there. This does not show. Of two chunks that hold the whole call and agree
up to its end, a parser makes the same, whatever is behind it: it is done, has
taken the announced bytes, and either knows the same transfer or none. Only the
reason why it knows none may differ, as it tells where the attempt stopped.

The reason that the length is wrong is given just where the attempt succeeded
and did not stop at the announced end (`recognise_eq_lengthMismatch_iff`).

Key definitions: `Parser.Fed.OfWhole`, `AgreeTo`.
Key theorems: `Transaction.recognise_eq_lengthMismatch_iff`,
`Parser.feed_whole`, `Parser.After.eq_of_agreeTo`,
`Transaction.ReadFrom.kind_of_agreeTo`, `Parser.surplus_does_not_show`.
-/
import HardwareSigner.Proofs.StreamParsing
import HardwareSigner.Proofs.TransferFaults

namespace HardwareSigner

open ByteReader

theorem announcedLength_take {bs : Bytes} {m : Nat} (hm : Header.length ≤ m) :
    announcedLength (bs.take m) = announcedLength bs := by
  have hm' : 49 ≤ m := hm
  rw [announcedLength, announcedLength, List.drop_take, List.take_take, Nat.min_eq_left (by omega)]

namespace Transaction

/-- The length is to blame exactly where a transfer was read that ends
elsewhere. -/
theorem recognise_eq_lengthMismatch_iff {contract : Address} {announced : UInt32}
    {r : ByteReader} :
    (recognise contract announced r).1 = .blind (some .lengthMismatch) ↔
      ∃ t k, (Transfer.decoder contract).run r = (.ok t, r.advance k) ∧ k ≠ announced.toNat := by
  rcases (Transfer.advances_decoder contract).cases r with ⟨t, k, hrun⟩ | ⟨e, k, hrun⟩
  · rw [recognise_of_ok hrun]
    by_cases hlen : k = announced.toNat
    · rw [if_pos hlen]
      constructor
      · exact TransactionKind.noConfusion
      · rintro ⟨t', k', hrun', hne⟩
        have hk : k = k' := advance_injective (congrArg Prod.snd (hrun.symm.trans hrun'))
        exact absurd (hk.symm.trans hlen) hne
    · rw [if_neg hlen]
      exact ⟨fun _ => ⟨t, k, hrun, hlen⟩, fun _ => rfl⟩
  · rw [recognise_of_error hrun]
    obtain ⟨_, hfault, -⟩ := (Transfer.stops_decoder contract r e _).mp hrun
    constructor
    · intro h
      cases h
      exact absurd rfl (Transfer.fault?_ne_lengthMismatch hfault)
    · rintro ⟨t', k', hrun', -⟩
      rw [hrun] at hrun'
      cases hrun'

end Transaction

namespace Transaction.Parser

/-- What a parser leaves of a reader that holds a transaction with a call of `n`
bytes, and perhaps more. -/
structure Fed.OfWhole (n : Nat) (r : ByteReader) (fed : Fed) : Prop where
  status : fed.status = .ok .done
  reader : fed.reader = r.advance (49 + n)
  header : fed.transaction.header.bytes <+: r.rest
  lengthMismatch_iff : fed.transaction.kind = .blind (some .lengthMismatch) ↔
    fed.transaction.header.contract = tokenContract ∧ ∃ t k,
      (Transfer.decoder tokenContract).run (r.advance 49) = (.ok t, (r.advance 49).advance k) ∧
      k ≠ n

/-- What is known of the call after a whole header is what was recognised
behind it. -/
theorem kind_feed_of_header_le (tx : Transaction) {r : ByteReader}
    (hr : Header.length ≤ r.remaining) :
    ∃ n : UInt32, announcedLength r.rest = Header.length + n.toNat ∧
      (({} : Parser).feed tx r).transaction.kind =
        (recognise (({} : Parser).feed tx r).transaction.header.contract n
          (r.advance Header.length)).1 := by
  obtain ⟨n, header, hread, hpre⟩ := tx.header.overwrite_of_le hr
  refine ⟨n, announcedLength_of_prefix hpre, ?_⟩
  rw [feed_new, hread]
  rfl

theorem feed_whole (tx : Transaction) {r : ByteReader} {n : Nat}
    (hannounced : announcedLength r.rest = 49 + n) (hr : 49 + n ≤ r.remaining) :
    (({} : Parser).feed tx r).OfWhole n r := by
  have hle : Header.length ≤ r.remaining := Nat.le_trans (Nat.le_add_right 49 n) hr
  obtain ⟨hcont, hread⟩ := feed_first tx hle
  obtain ⟨n', hn', hkind⟩ := kind_feed_of_header_le tx hle
  have hn' : n'.toNat = n := Nat.add_left_cancel (hn'.symm.trans hannounced)
  refine ⟨?_, ?_, hread.header, ?_⟩
  · rw [hcont.status, List.nil_append, List.length_nil, hannounced, if_pos (by omega)]
  · rw [hcont.reader, List.nil_append, List.length_nil, hannounced]
    exact congrArg r.advance (by omega)
  · rw [hkind, recognise_eq_lengthMismatch_iff, hn']
    constructor
    · rintro ⟨t, k, hrun, hne⟩
      obtain ⟨-, ⟨hcontract, -⟩, -⟩ := (Transfer.accepts_decoder _ _ _ _).mp hrun
      rw [hcontract] at hrun
      exact ⟨hcontract, t, k, hrun, hne⟩
    · rintro ⟨hcontract, hmismatch⟩
      rw [hcontract]
      exact hmismatch

end Transaction.Parser

/-! ### Two chunks that agree up to the end -/

/-- Two byte strings that both hold a transaction of `m` bytes, as its header
announces, are the same so far. -/
structure AgreeTo (m : Nat) (bs bs' : Bytes) : Prop where
  announced : announcedLength bs = m
  announced' : announcedLength bs' = m
  le_length : m ≤ bs.length
  le_length' : m ≤ bs'.length
  take_eq : bs.take m = bs'.take m

namespace Transaction

variable {m : Nat} {bs bs' : Bytes}

theorem Parser.After.take {p : Parser} (h : p.After bs) (hm : announcedLength bs = m)
    (hle : m ≤ bs.length) : p.After (bs.take m) := by
  have hheader := h.header_le
  have htotal := h.total
  have hparsed := h.parsed
  have hlen : (bs.take m).length = m := List.length_take_of_le hle
  refine ⟨by omega, h.headerRead, ?_, by omega⟩
  rw [announcedLength_take (by omega), htotal]

theorem Parser.After.eq_of_agreeTo {p q : Parser} (hp : p.After bs) (hq : q.After bs')
    (h : AgreeTo m bs bs') : p = q := by
  have hp' := hp.take h.announced h.le_length
  rw [h.take_eq] at hp'
  exact hp'.unique (hq.take h.announced' h.le_length')

variable {tx tx' : Transaction}

theorem ReadFrom.header_eq_of_agreeTo (hread : tx.ReadFrom bs) (hread' : tx'.ReadFrom bs')
    (h : AgreeTo m bs bs') (hm : Header.length ≤ m) : tx.header = tx'.header := by
  have hle : ∀ h : Header, h.bytes.length ≤ m := by
    intro h
    rw [h.length_bytes]
    exact Nat.le_trans (by decide : 45 ≤ 49) hm
  have hfront : tx.header.bytes <+: bs.take m := List.prefix_take_iff.mpr ⟨hread.header, hle _⟩
  have hfront' : tx'.header.bytes <+: bs'.take m :=
    List.prefix_take_iff.mpr ⟨hread'.header, hle _⟩
  rw [h.take_eq] at hfront
  exact Header.eq_of_prefix hfront hfront'

/-- Read from chunks that agree up to the announced end, two transactions are
the same transfer, or none of them is a transfer. -/
theorem ReadFrom.kind_of_agreeTo (hread : tx.ReadFrom bs) (hread' : tx'.ReadFrom bs')
    (h : AgreeTo m bs bs') (hheader : tx.header = tx'.header) :
    (∃ t, tx.kind = .transfer t ∧ tx'.kind = .transfer t) ∨
      ∃ e e', tx.kind = .blind (some e) ∧ tx'.kind = .blind (some e') := by
  have hiff : ∀ t, tx.kind = .transfer t ↔ tx'.kind = .transfer t := by
    intro t
    rw [hread.transfer_iff, hread'.transfer_iff, hheader, h.announced, h.announced', h.take_eq]
    exact and_congr_right fun _ =>
      and_congr_left fun _ => ⟨fun _ => h.le_length', fun _ => h.le_length⟩
  rcases hread.kind with ⟨t, ht⟩ | ⟨e, he⟩
  · exact .inl ⟨t, ht, (hiff t).mp ht⟩
  · rcases hread'.kind with ⟨t, ht⟩ | ⟨e', he'⟩
    · rw [(hiff t).mpr ht] at he
      cases he
    · exact .inr ⟨e, e', he, he'⟩

end Transaction

namespace Transaction.Parser

/-- **Bytes behind the announced end do not show.** Take a parser that was asked
anything and has not read a header, and two readers that hold a transaction
whose call has the announced `n` bytes, and anything behind it. The parser makes
the same of both. It is done, and has taken just the transaction; the headers
are the same; and so is the transfer that is recognised, or none is in either.
What may differ is why there is none, and it is the length exactly if the bytes
behind the header are read as a transfer that does not take `n` of them. -/
theorem surplus_does_not_show (calls : List Call)
    (hread : (afterCalls calls).headerRead = false) (tx : Transaction) (r s : ByteReader) (n : Nat)
    (hn : ofBigEndian ((r.rest.drop 45).take 4) = n) (hr : 49 + n ≤ r.remaining)
    (hs : 49 + n ≤ s.remaining) (hsame : r.rest.take (49 + n) = s.rest.take (49 + n)) :
    let p := afterCalls calls
    let fed := p.feed tx r
    let fed' := p.feed tx s
    fed.OfWhole n r ∧ fed'.OfWhole n s ∧ fed.parser = fed'.parser ∧
    fed.transaction.header = fed'.transaction.header ∧
    ((∃ t, fed.transaction.kind = .transfer t ∧ fed'.transaction.kind = .transfer t) ∨
      ∃ e e', fed.transaction.kind = .blind (some e) ∧
        fed'.transaction.kind = .blind (some e')) := by
  rw [afterCalls_eq_new hread]
  intro p fed fed'
  have hle : Header.length ≤ 49 + n := Nat.le_add_right 49 n
  have hannounced : announcedLength r.rest = 49 + n := congrArg (49 + ·) hn
  have hannounced' : announcedLength s.rest = 49 + n := by
    rw [← announcedLength_take hle, ← hsame, announcedLength_take hle, hannounced]
  have hagree : AgreeTo (49 + n) r.rest s.rest :=
    ⟨hannounced, hannounced', by rwa [length_rest], by rwa [length_rest], hsame⟩
  obtain ⟨hcont, hfirst⟩ := feed_first tx (Nat.le_trans hle hr)
  obtain ⟨hcont', hfirst'⟩ := feed_first tx (Nat.le_trans hle hs)
  have hheader := hfirst.header_eq_of_agreeTo hfirst' hagree hle
  exact ⟨feed_whole tx hannounced hr, feed_whole tx hannounced' hs,
    hcont.after.eq_of_agreeTo hcont'.after hagree, hheader,
    hfirst.kind_of_agreeTo hfirst' hagree hheader⟩

/-- A transfer whose memo is announced to end behind the length of its text. -/
def cutAtText : Bytes :=
  Header.bytes { contract := tokenContract } ++ be32 34 ++
    Transfer.call .textMemo .zero 90000 (be32 2)

/-- A transfer with a text as its memo. -/
def greeting : Transfer where
  recipient := .zero
  amount := 90000
  memo := .text ⟨[104, 105], by decide⟩

/-- The same call, announced to end behind the text. -/
def wholeText : Bytes :=
  Header.bytes { contract := tokenContract } ++ be32 36 ++
    Transfer.call .textMemo .zero 90000 (be32 2 ++ [104, 105])

/-- With the text behind the announced end a transfer is read that is too long;
without it the memo is missing. Neither shows a transfer. If the text is announced,
the transfer is shown, also with a byte behind it. -/
theorem surplus_does_not_show_textBehind :
    let r := ofBytes (cutAtText ++ [104, 105])
    let s := ofBytes cutAtText
    let fed := ({} : Parser).feed {} r
    let fed' := ({} : Parser).feed {} s
    let shown := ({} : Parser).feed {} (ofBytes (wholeText ++ [33]))
    let shown' := ({} : Parser).feed {} (ofBytes wholeText)
    fed.OfWhole 34 r ∧ fed'.OfWhole 34 s ∧ fed.parser = fed'.parser ∧
      fed.transaction.header = fed'.transaction.header ∧
      fed.transaction.kind = .blind (some .lengthMismatch) ∧
      fed'.transaction.kind = .blind (some .memo) ∧
      shown.parser = shown'.parser ∧ shown.transaction.kind = .transfer greeting ∧
      shown'.transaction.kind = .transfer greeting := by
  intro r s fed fed' shown shown'
  obtain ⟨hwhole, hwhole', hparser, hheader, -⟩ :=
    surplus_does_not_show [] rfl {} r s 34 (by decide) (by decide) (by decide) (by decide)
  obtain ⟨-, -, hsame, -, hkind⟩ :=
    surplus_does_not_show [] rfl {} (ofBytes (wholeText ++ [33])) (ofBytes wholeText) 36
      (by decide) (by decide) (by decide) (by decide)
  have hshown : shown'.transaction.kind = .transfer greeting := by decide
  refine ⟨hwhole, hwhole', hparser, hheader, by decide, by decide, hsame, ?_, hshown⟩
  rcases hkind with ⟨t, ht, ht'⟩ | ⟨_, e', -, he'⟩
  · cases hshown.symm.trans ht'
    exact ht
  · cases hshown.symm.trans he'

end Transaction.Parser
end HardwareSigner
