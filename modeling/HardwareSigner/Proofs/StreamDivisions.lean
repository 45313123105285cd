/-
# Where a stream is cut

The host chooses where the bytes of a transaction are cut into chunks, as long
as the first one holds the header. This changes nothing that is counted: all
divisions of a stream end with the same parser, the same status and the same
header. A division can only change what the call is known to be, and only in
one way. A transfer is recognised exactly if the whole call came with the
first chunk and is written as that transfer (`Division.kind_eq_transfer_iff`),
so cutting the call hides a transfer, and no cut shows another one.

Key definitions: `Division`, `Division.fed`.
Key theorems: `Division.fed_spec`, `Division.kind_eq_transfer_iff`,
`Division.cuts_only_hide_transfers`.
-/
import HardwareSigner.Proofs.StreamRuns

namespace HardwareSigner

open ByteReader Transaction

/-- A stream that is cut into chunks, the first of which holds the header. -/
structure Division where
  first : Bytes
  later : List Bytes
  header_le : Header.length ≤ first.length

namespace Division

/-- The stream that is cut. -/
def stream (d : Division) : Bytes := (d.first :: d.later).flatten

/-- What feeding the chunks to a new parser, with a new transaction, leaves in
the end. -/
def fed (d : Division) : Parser.Fed :=
  (({} : Parser).feedChunks {} (d.first :: d.later)).getLast (Parser.feedChunks_ne_nil _ _ _ _)

/-- The last chunk ends the stream, and the transaction is that of the first. -/
theorem fed_spec (d : Division) :
    ∃ before last, before ++ last = d.stream ∧ d.fed.Continues before (ofBytes last) ∧
      d.fed.transaction.ReadFrom d.first := by
  have hlt : d.later.length < (d.first :: d.later).length := Nat.lt_succ_self _
  have hlast := List.getElem?_eq_getElem hlt
  obtain ⟨fed, hfed, hcont, hread⟩ := Parser.feedChunks_new {} d.later d.header_le hlast
  have hend : d.fed = fed := by
    unfold Division.fed
    rw [List.getLast_eq_iff_getLast?_eq_some, List.getLast?_eq_getElem?, Parser.length_feedChunks]
    exact hfed
  have hall : (d.first :: d.later).take (d.later.length + 1) = d.first :: d.later :=
    List.take_of_length_le (Nat.le_refl _)
  have hstream := Parser.flatten_take_append hlast
  rw [hall] at hstream
  rw [hend]
  exact ⟨_, _, hstream, hcont, hread⟩

theorem first_prefix (d : Division) : d.first <+: d.stream := List.prefix_append _ _

theorem announcedLength_first (d : Division) :
    announcedLength d.first = announcedLength d.stream :=
  (announcedLength_append d.header_le d.later.flatten).symm

theorem after (d : Division) : d.fed.parser.After d.stream := by
  obtain ⟨before, last, hstream, hcont, -⟩ := d.fed_spec
  rw [← hstream]
  exact hcont.after

theorem status_eq (d : Division) :
    d.fed.status =
      .ok (if announcedLength d.stream ≤ d.stream.length then .done else .more) := by
  obtain ⟨before, last, hstream, hcont, -⟩ := d.fed_spec
  rw [hcont.status, ← hstream, List.length_append]
  rfl

theorem header_prefix (d : Division) : d.fed.transaction.header.bytes <+: d.stream := by
  obtain ⟨-, -, -, -, hread⟩ := d.fed_spec
  exact hread.header.trans d.first_prefix

/-- **A division shows a transfer or hides it.** Which transfer it is, is told
by the stream alone; whether it is shown, by the length of the first chunk. -/
theorem kind_eq_transfer_iff (d : Division) (t : Transfer) :
    d.fed.transaction.kind = .transfer t ↔ announcedLength d.stream ≤ d.first.length ∧
      d.fed.transaction.header.contract = tokenContract ∧
      (d.stream.take (announcedLength d.stream)).drop Header.length ∈ t.encodings := by
  obtain ⟨-, -, -, -, hread⟩ := d.fed_spec
  have htake : announcedLength d.stream ≤ d.first.length →
      d.first.take (announcedLength d.stream) = d.stream.take (announcedLength d.stream) :=
    fun hle => (List.take_append_of_le_length hle).symm
  rw [hread.transfer_iff, d.announcedLength_first]
  constructor
  · rintro ⟨hcontract, hle, hbs⟩
    exact ⟨hle, hcontract, htake hle ▸ hbs⟩
  · rintro ⟨hle, hcontract, hbs⟩
    exact ⟨hcontract, hle, htake hle ▸ hbs⟩

/-- A transaction that is not shown as a transfer is blind, for a reason. -/
theorem kind_eq_blind (d : Division) (h : ∀ t, d.fed.transaction.kind ≠ .transfer t) :
    ∃ e, d.fed.transaction.kind = .blind (some e) := by
  obtain ⟨-, -, -, -, hread⟩ := d.fed_spec
  rcases hread.kind with ⟨t, ht⟩ | hblind
  · exact absurd ht (h t)
  · exact hblind

variable {a b : Division}

theorem blind_of_lt (h : a.first.length < announcedLength a.stream) :
    ∃ e, a.fed.transaction.kind = .blind (some e) := by
  apply a.kind_eq_blind
  intro t ht
  have hle := ((a.kind_eq_transfer_iff t).mp ht).1
  exact absurd hle (Nat.not_le_of_lt h)

theorem header_eq (h : a.stream = b.stream) :
    a.fed.transaction.header = b.fed.transaction.header := by
  have ha := a.header_prefix
  rw [h] at ha
  exact Header.eq_of_prefix ha b.header_prefix

theorem kind_eq_transfer_iff_of_le (h : a.stream = b.stream)
    (ha : announcedLength a.stream ≤ a.first.length)
    (hb : announcedLength a.stream ≤ b.first.length) (t : Transfer) :
    a.fed.transaction.kind = .transfer t ↔ b.fed.transaction.kind = .transfer t := by
  rw [a.kind_eq_transfer_iff, b.kind_eq_transfer_iff, ← h, header_eq h]
  exact and_congr_left fun _ => ⟨fun _ => hb, fun _ => ha⟩

/-- Divisions of one stream do not show two transfers. -/
theorem transfer_unique (h : a.stream = b.stream) {t t' : Transfer}
    (ht : a.fed.transaction.kind = .transfer t) (ht' : b.fed.transaction.kind = .transfer t') :
    t = t' := by
  obtain ⟨-, -, hbs⟩ := (a.kind_eq_transfer_iff t).mp ht
  obtain ⟨-, -, hbs'⟩ := (b.kind_eq_transfer_iff t').mp ht'
  rw [h] at hbs
  exact Transfer.eq_of_mem_encodings hbs hbs'

/-- **Cutting a stream only hides transfers.** Two divisions of one stream end
with the same parser, the same status and the same header. One whose first
chunk does not hold the whole call is blind. If both first chunks do, the same
transfer is shown by both or none by either, and in no case are two transfers
shown. -/
theorem cuts_only_hide_transfers (a b : Division) (h : a.stream = b.stream) :
    let n := ofBigEndian ((a.stream.drop 45).take 4)
    (a.fed.parser = b.fed.parser ∧ a.fed.status = b.fed.status ∧
      a.fed.transaction.header = b.fed.transaction.header) ∧
    (a.first.length < 49 + n → ∃ e, a.fed.transaction.kind = .blind (some e)) ∧
    (49 + n ≤ a.first.length → 49 + n ≤ b.first.length →
      (∃ t, a.fed.transaction.kind = .transfer t ∧ b.fed.transaction.kind = .transfer t) ∨
      ∃ e e', a.fed.transaction.kind = .blind (some e) ∧
        b.fed.transaction.kind = .blind (some e')) ∧
    ∀ t t', a.fed.transaction.kind = .transfer t → b.fed.transaction.kind = .transfer t' →
      t = t' := by
  intro n
  have hparser : a.fed.parser = b.fed.parser := by
    have ha := a.after
    rw [h] at ha
    exact ha.unique b.after
  have hstatus : a.fed.status = b.fed.status := by rw [a.status_eq, b.status_eq, h]
  refine ⟨⟨hparser, hstatus, header_eq h⟩, blind_of_lt, ?_, fun t t' => transfer_unique h⟩
  intro ha hb
  have hsame := kind_eq_transfer_iff_of_le h ha hb
  cases hkind : a.fed.transaction.kind with
  | transfer t => exact .inl ⟨t, rfl, (hsame t).mp hkind⟩
  | blind reason =>
    have hnone : ∀ t, a.fed.transaction.kind ≠ .transfer t := by
      intro t
      rw [hkind]
      exact TransactionKind.noConfusion
    obtain ⟨e, he⟩ := a.kind_eq_blind hnone
    obtain ⟨e', he'⟩ := b.kind_eq_blind fun t ht => hnone t ((hsame t).mpr ht)
    exact .inr ⟨e, e', hkind ▸ he, he'⟩

/-- A transfer with a memo of two characters. -/
def withMemo : Bytes :=
  Header.bytes { contract := tokenContract } ++ be32 36 ++
    Transfer.call .textMemo .zero 90000 (be32 2 ++ [104, 105])

/-- The transfer in one chunk, with an empty one behind it. -/
def uncut : Division := ⟨withMemo, [[]], by decide⟩

/-- The transfer cut within the length of its memo. -/
def cutInMemo : Division := ⟨withMemo.take 81, [withMemo.drop 81], by decide⟩

theorem cuts_only_hide_transfers_cutInMemo :
    uncut.stream = cutInMemo.stream ∧ uncut.fed.parser = cutInMemo.fed.parser ∧
      uncut.fed.transaction.kind = .transfer ⟨.zero, 90000, .text ⟨[104, 105], by decide⟩⟩ ∧
      ∃ e, cutInMemo.fed.transaction.kind = .blind (some e) := by
  have hstream : cutInMemo.stream = uncut.stream := by decide
  obtain ⟨⟨hparser, -, -⟩, hblind, -, -⟩ := cuts_only_hide_transfers cutInMemo uncut hstream
  exact ⟨hstream.symm, hparser.symm, by decide, hblind (by decide)⟩

end Division
end HardwareSigner
