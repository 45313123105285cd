/-
# What has come in of a transaction

While a session receives, its intake holds nothing yet, or the header and a
part of the call (`Intake.Partial`); once the transaction is received, it
holds the whole of it (`Intake.Whole`): the announced length to the byte, the
header's fields as they are written in front, and a transfer exactly if the
transaction came in one chunk and its call is written as that transfer. A
transaction that is still going on is never a transfer.

The next chunk is judged by the length of all that came in
(`Intake.Receives.status`), so the parser's counters can be forgotten from
here on. What a session's intake holds is kept in step with its history
(`Session.invariant_intake`).

Key definitions: `Intake.Partial`, `Intake.Whole`, `Intake.Receives`,
`Session.Awaits`.
Key theorems: `Intake.Receives.feed`, `Intake.Receives.status`,
`Intake.Receives.partial_of_lt`, `Intake.Receives.whole_of_eq`,
`Session.invariant_intake`, `Session.Awaits.whole`.
-/
import HardwareSigner.Proofs.SessionSteps
import HardwareSigner.Proofs.StreamParsing

namespace HardwareSigner

open ByteReader

namespace Intake

/-- The bytes `bs` came in, with the header and some of the call, but not all
of it. -/
structure Partial (bs : Bytes) (i : Intake) : Prop where
  after : i.parser.After bs
  length_lt : bs.length < announcedLength bs
  header : i.transaction.header.bytes <+: bs
  blind : ∃ e, i.transaction.kind = .blind (some e)

/-- The chunks are the whole transaction. -/
structure Whole (chunks : List Bytes) (i : Intake) : Prop where
  after : i.parser.After chunks.flatten
  length_eq : chunks.flatten.length = announcedLength chunks.flatten
  header : i.transaction.header.bytes <+: chunks.flatten
  transfer_iff : ∀ t, i.transaction.kind = .transfer t ↔ chunks = [chunks.flatten] ∧
    i.transaction.header.contract = tokenContract ∧
    chunks.flatten.drop Header.length ∈ t.encodings

/-- What an intake holds that is still open for these chunks and more. -/
def Receives (chunks : List Bytes) (i : Intake) : Prop :=
  (chunks = [] ∧ i = {}) ∨ i.Partial chunks.flatten

theorem receives_nil : ({} : Intake).Receives [] := .inl ⟨rfl, rfl⟩

variable {chunks : List Bytes} {i : Intake}

/-- **A chunk is judged by length.** With the header there, the parser goes on
as the bytes received so far and this chunk say together. -/
theorem Receives.feed (h : i.Receives chunks) {data : Bytes}
    (hle : Header.length ≤ (chunks.flatten ++ data).length) :
    (i.fed data).Continues chunks.flatten (ofBytes data) := by
  rcases h with ⟨rfl, rfl⟩ | h
  · exact (Transaction.Parser.feed_first _ (r := ofBytes data) hle).1
  · exact (Transaction.Parser.feed_of_after h.after _ _).1

/-- What the parser says of a chunk. The header can be cut off only in the
first one. -/
theorem Receives.status (h : i.Receives chunks) (data : Bytes) :
    (i.fed data).status =
      match HeaderError.ofLength? (chunks.flatten ++ data).length with
      | some field => .error field
      | none => .ok (if announcedLength (chunks.flatten ++ data) ≤ (chunks.flatten ++ data).length
          then .done else .more) := by
  split
  · rename_i field hfield
    rcases h with ⟨rfl, rfl⟩ | h
    · obtain ⟨header, -, hfeed⟩ := Transaction.Parser.feed_short _ (r := ofBytes data) hfield
      exact congrArg Transaction.Parser.Fed.status hfeed
    · have hle := h.after.header_le
      rw [HeaderError.ofLength?_eq_none_iff.mpr (by rw [List.length_append]; omega)] at hfield
      cases hfield
  · rename_i hnone
    rw [List.length_append] at *
    refine (h.feed ?_).status
    rw [List.length_append]
    exact HeaderError.ofLength?_eq_none_iff.mp hnone

theorem Receives.of_more (h : i.Receives chunks) {data : Bytes}
    (hmore : (i.fed data).status = .ok .more) :
    Header.length ≤ (chunks.flatten ++ data).length ∧
      (chunks.flatten ++ data).length < announcedLength (chunks.flatten ++ data) := by
  rw [h.status] at hmore
  split at hmore
  · cases hmore
  · rename_i hnone
    refine ⟨HeaderError.ofLength?_eq_none_iff.mp hnone, Nat.lt_of_not_le fun hle => ?_⟩
    rw [if_pos hle] at hmore
    cases hmore

theorem Receives.of_done (h : i.Receives chunks) {data : Bytes}
    (hdone : (i.fed data).status = .ok .done) :
    Header.length ≤ (chunks.flatten ++ data).length ∧
      announcedLength (chunks.flatten ++ data) ≤ (chunks.flatten ++ data).length := by
  rw [h.status] at hdone
  split at hdone
  · cases hdone
  · rename_i hnone
    refine ⟨HeaderError.ofLength?_eq_none_iff.mp hnone, Decidable.byContradiction fun hlt => ?_⟩
    rw [if_neg hlt] at hdone
    cases hdone

theorem Receives.isEmpty_iff (h : i.Receives chunks) {data : Bytes} (hdata : data ≠ [])
    (hle : Header.length ≤ (chunks.flatten ++ data).length) :
    (i.fed data).reader.isEmpty = true ↔
      (chunks.flatten ++ data).length ≤ announcedLength (chunks.flatten ++ data) := by
  have hpos := List.length_pos_iff.mpr hdata
  have hremaining : (ofBytes data).remaining = data.length := rfl
  rw [(h.feed hle).reader, isEmpty, beq_iff_eq, remaining_advance, hremaining, rest_ofBytes,
    List.length_append]
  omega

/-- The transaction's header and kind after a chunk that is not the first are
those before it. -/
theorem Partial.transaction_feed {bs : Bytes} (h : i.Partial bs) (data : Bytes) :
    (i.feed data).transaction = i.transaction :=
  (Transaction.Parser.feed_of_after h.after _ _).2

theorem Receives.partial_of_lt (h : i.Receives chunks) {data : Bytes}
    (hle : Header.length ≤ (chunks.flatten ++ data).length)
    (hlt : (chunks.flatten ++ data).length < announcedLength (chunks.flatten ++ data)) :
    (i.feed data).Partial (chunks.flatten ++ data) := by
  have hafter := (h.feed hle).after
  rcases h with ⟨rfl, rfl⟩ | h
  · obtain ⟨-, hread⟩ := Transaction.Parser.feed_first ({} : Transaction) (r := ofBytes data) hle
    refine ⟨hafter, hlt, hread.header, ?_⟩
    rcases hread.kind with ⟨t, ht⟩ | hblind
    · exact absurd ((hread.transfer_iff t).mp ht).2.1 (Nat.not_le_of_lt hlt)
    · exact hblind
  · refine ⟨hafter, hlt, ?_, ?_⟩
    · rw [h.transaction_feed]
      exact h.header.trans (List.prefix_append _ _)
    · rw [h.transaction_feed]
      exact h.blind

theorem Receives.whole_of_eq (h : i.Receives chunks) {data : Bytes}
    (hle : Header.length ≤ (chunks.flatten ++ data).length)
    (heq : (chunks.flatten ++ data).length = announcedLength (chunks.flatten ++ data)) :
    (i.feed data).Whole (chunks ++ [data]) := by
  have hafter := (h.feed hle).after
  have hflat : (chunks ++ [data]).flatten = chunks.flatten ++ data := by simp
  refine ⟨by rw [hflat]; exact hafter, by rw [hflat]; exact heq, ?_, fun t => ?_⟩ <;> rw [hflat]
  · rcases h with ⟨rfl, rfl⟩ | h
    · exact (Transaction.Parser.feed_first {} (r := ofBytes data) hle).2.header
    · rw [h.transaction_feed]
      exact h.header.trans (List.prefix_append _ _)
  · rcases h with ⟨rfl, rfl⟩ | h
    · have hall : data.length ≤ announcedLength data := Nat.le_of_eq heq
      have hiff := (Transaction.Parser.feed_first {} (r := ofBytes data) hle).2.transfer_iff t
      rw [rest_ofBytes, List.take_of_length_le hall] at hiff
      constructor
      · intro ht
        obtain ⟨hc, -, hbs⟩ := hiff.mp ht
        exact ⟨rfl, hc, hbs⟩
      · rintro ⟨-, hc, hbs⟩
        exact hiff.mpr ⟨hc, Nat.le_of_eq heq.symm, hbs⟩
    · obtain ⟨e, he⟩ := h.blind
      rw [h.transaction_feed, he]
      refine ⟨nofun, fun ⟨hone, _⟩ => ?_⟩
      -- The header was in the chunks before, so this one is not the only one.
      have hchunks : chunks = [] := by simpa using congrArg List.length hone
      have hheader := h.after.header_le
      rw [hchunks] at hheader
      exact absurd hheader (by decide)

end Intake

namespace Session

/-! ### Sessions -/

/-- What came in is held by the intake, still open while receiving and then
whole. -/
theorem invariant_intake :
    Invariant (fun _ _ i h => i.Receives h.chunks) (fun _ _ i h => i.Whole h.chunks) where
  opens _ _ := Intake.receives_nil
  goesOn := by
    intro _ _ i h data hi hdata hmore
    obtain ⟨hle, hlt⟩ := hi.of_more hmore
    have hpartial := hi.partial_of_lt hle hlt
    exact .inr (by simpa using hpartial)
  completes := by
    intro _ _ i h data hi hdata hdone hempty
    obtain ⟨hle, hge⟩ := hi.of_done hdone
    have heq := Nat.le_antisymm ((hi.isEmpty_iff hdata hle).mp hempty) hge
    have hwhole := hi.whole_of_eq hle heq
    exact ⟨hwhole.after, hwhole.length_eq, hwhole.header, hwhole.transfer_iff⟩

/-- A run ends waiting for the user: this transaction was taken since the last
opening, which named this chain, and is shown as `tx`. -/
structure Awaits (keys : KeyStore) (actions : List Action) (transaction : Bytes)
    (chainId : ChainId) (tx : Transaction) : Prop where
  state : (follow keys actions {} {}).1.state = .pending
  taken : (follow keys actions {} {}).2.bytes = transaction
  opening : ∃ path, (follow keys actions {} {}).2.opening = some (path, chainId)
  shown : (follow keys actions {} {}).1.transaction? = some tx

theorem Awaits.whole {keys : KeyStore} {actions : List Action} {transaction : Bytes}
    {chainId : ChainId} {tx : Transaction} (h : Awaits keys actions transaction chainId tx) :
    ∃ chunks i, Intake.Whole chunks i ∧ chunks.flatten = transaction ∧ i.transaction = tx := by
  have hreceived : (follow keys actions {} {}).1.isReceived = true :=
    isReceived_iff.mpr (.inl h.state)
  have hshown := h.shown
  rw [transaction?, if_pos hreceived] at hshown
  exact ⟨_, _, (invariant_intake.follow keys actions).received hreceived, h.taken,
    Option.some.inj hshown⟩

end Session
end HardwareSigner
