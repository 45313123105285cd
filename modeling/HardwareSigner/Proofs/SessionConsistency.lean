/-
# What a session holds fits together

A session holds how far a transaction is parsed, what it is known to be and
what is to be hashed, and it was told some chunks since its last opening.
Wherever a run leads, these fit together (`Session.Consistent`). While the
session receives, nothing has come in yet, or the header and a part of the
call: the parser counts just the bytes that are to be hashed, and no transfer
is seen in them. Once the transaction is received, all that was announced has
come in, and if it is a transfer, its memo tells how long the call is
(`Memo.FitsCall`).

That the parser has not passed more of the call than was announced holds in
failed sessions too, so it does not go by the stages of a request but by the
parser alone (`Session.parser_settled`).

Key definitions: `Memo.FitsCall`, `Intake.Untouched`, `Intake.Underway`,
`Intake.Complete`, `Session.Consistent`.
Key theorems: `Transfer.fitsCall_of_mem_encodings`, `Intake.Partial.underway`,
`Intake.Whole.complete`, `Session.parser_settled`, `Session.consistent_after`.
-/
import HardwareSigner.Proofs.Reception
import HardwareSigner.Proofs.SigningHash

namespace HardwareSigner

/-! ### The length of a transfer's call -/

/-- A transfer with this memo can be written in `n` bytes. Shortname, recipient
and amount are thirty; a number takes eight more, a text its length in four
bytes and itself, and no memo nothing or the length of no text. -/
def Memo.FitsCall (n : Nat) : Memo → Prop
  | none => n = 30 ∨ n = 34
  | number _ => n = 38
  | text s => n = 34 + s.bytes.length ∧ 1 ≤ s.bytes.length ∧ s.bytes.length ≤ 20

theorem Transfer.length_call (form : Form) (recipient : Address) (amount : UInt64)
    (memo : Bytes) : (call form recipient amount memo).length = 30 + memo.length := by
  simp only [call, List.length_cons, List.length_append, Address.length_bytes, length_be64]

theorem Memo.fitsCall_of_mem_forms {m : Memo} {form : Transfer.Form} {bs : Bytes}
    (h : (form, bs) ∈ m.forms) : m.FitsCall (30 + bs.length) := by
  cases m with
  | none =>
    rcases List.mem_cons.mp h with heq | h
    · cases heq
      exact .inl rfl
    · cases List.mem_singleton.mp h
      exact .inr rfl
  | number n =>
    cases List.mem_singleton.mp h
    exact congrArg (30 + ·) (length_be64 n)
  | text s =>
    by_cases hs : s.bytes = []
    · rw [Memo.forms, if_pos hs] at h
      exact absurd h List.not_mem_nil
    · rw [Memo.forms, if_neg hs] at h
      cases List.mem_singleton.mp h
      refine ⟨?_, List.length_pos_iff.mpr hs, s.length_le_twenty⟩
      rw [List.length_append, length_be32, ← Nat.add_assoc]

/-- A call that is written as a transfer is as long as its memo tells. -/
theorem Transfer.fitsCall_of_mem_encodings {t : Transfer} {bs : Bytes} (h : bs ∈ t.encodings) :
    t.memo.FitsCall bs.length := by
  obtain ⟨form, memo, hforms, rfl⟩ := mem_encodings_iff.mp h
  rw [length_call]
  exact Memo.fitsCall_of_mem_forms hforms

/-! ### The intake -/

namespace Intake

/-- Nothing has come in since the opening. -/
structure Untouched (i : Intake) (h : History) : Prop where
  parser_eq : i.parser = {}
  transaction_eq : i.transaction = {}
  absorbed_eq : i.absorbed = []
  chunks_eq : h.chunks = []

/-- The header and a part of the call came in since the opening. They are to
be hashed, and are taken for no transfer. -/
structure Underway (i : Intake) (h : History) : Prop where
  headerRead : i.parser.headerRead = true
  parsed_lt : i.parser.rpcParsed < i.parser.rpcTotal
  absorbed_eq : i.absorbed = h.bytes
  length_eq : i.absorbed.length = 49 + i.parser.rpcParsed.toNat
  blind : ∃ e, i.transaction.kind = .blind (some e)

/-- All of what was announced came in since the opening. A transfer goes to
the token contract, and its call is as long as its memo tells. -/
structure Complete (i : Intake) (h : History) : Prop where
  isDone : i.parser.isDone = true
  length_eq : h.bytes.length = 49 + i.parser.rpcTotal.toNat
  transfer : ∀ t, i.transaction.kind = .transfer t →
    i.transaction.header.contract = tokenContract ∧ t.memo.FitsCall i.parser.rpcTotal.toNat

variable {i : Intake} {h : History}

theorem Partial.underway (hi : i.Partial h.bytes) (habsorbed : i.absorbed = h.bytes) :
    i.Underway h := by
  have hle := hi.after.header_le
  have htotal := hi.after.total
  have hparsed := hi.after.parsed
  have hlt := hi.length_lt
  have h49 : Header.length = 49 := rfl
  refine ⟨hi.after.headerRead, ?_, habsorbed, ?_, hi.blind⟩
  · rw [UInt32.lt_iff_toNat_lt]
    omega
  · rw [habsorbed]
    omega

theorem Receives.untouched_or_underway (hi : i.Receives h.chunks)
    (habsorbed : i.absorbed = h.bytes) : i.Untouched h ∨ i.Underway h := by
  rcases hi with ⟨hchunks, rfl⟩ | hi
  · exact .inl ⟨rfl, rfl, rfl, hchunks⟩
  · exact .inr (Partial.underway hi habsorbed)

theorem Whole.complete (hi : i.Whole h.chunks) : i.Complete h := by
  have htotal : announcedLength h.bytes = 49 + i.parser.rpcTotal.toNat := hi.after.total
  have hlength : h.bytes.length = 49 + i.parser.rpcTotal.toNat := hi.length_eq.trans htotal
  refine ⟨hi.after.isDone_iff.mpr (Nat.le_of_eq hi.length_eq.symm), hlength, ?_⟩
  intro t ht
  obtain ⟨-, hcontract, hcall⟩ := (hi.transfer_iff t).mp ht
  refine ⟨hcontract, ?_⟩
  have hfits := Transfer.fitsCall_of_mem_encodings hcall
  have hn : (h.bytes.drop Header.length).length = i.parser.rpcTotal.toNat := by
    rw [List.length_drop, hlength]
    exact Nat.add_sub_cancel_left 49 _
  rw [← hn]
  exact hfits

end Intake

namespace Session

/-! ### Sessions -/

/-- A transition feeds the parser, takes a new one, or leaves it alone. -/
theorem Transition.settled {keys : KeyStore} {s s' : Session} {action : Action} {answer : Answer}
    (ht : Transition keys s action answer s') (hs : s.intake.parser.Settled) :
    s'.intake.parser.Settled := by
  cases ht with
  | derives | derivesNot | opens | denies | resets => exact Transaction.Parser.settled_new
  | takes _ _ htakes => cases htakes <;> exact hs.feed _ _
  | tells | unexpectedChunk | emptyChunk | signs | signsNot | approvesDenied
  | approvesNothing => exact hs

/-- **A session's parser is always settled**, also behind failures. -/
theorem parser_settled (calls : List Call) : (after calls {}).intake.parser.Settled :=
  after_preserves (P := fun s _ => s.intake.parser.Settled) (h := {}) (fun hs ht => ht.settled hs)
    calls Transaction.Parser.settled_new

theorem isSome_transaction? (s : Session) : s.transaction?.isSome = s.isReceived := by
  unfold transaction?
  cases s.isReceived <;> rfl

theorem isSome_hash? (s : Session) : s.hash?.isSome = s.isReceived := by
  unfold hash?
  cases s.isReceived <;> rfl

/-- What a session holds fits together, and fits what it was told. -/
structure Consistent (s : Session) (h : History) : Prop where
  parsed_le : s.intake.parser.rpcParsed ≤ s.intake.parser.rpcTotal
  receiving : s.state = .receiving → s.intake.Untouched h ∨ s.intake.Underway h
  received : s.state = .pending ∨ s.state = .complete → s.intake.Complete h
  isSome_transaction?_iff :
    s.transaction?.isSome = true ↔ s.state = .pending ∨ s.state = .complete
  isSome_hash?_iff : s.hash?.isSome = true ↔ s.state = .pending ∨ s.state = .complete

/-- **Wherever a run leads, a session is consistent** with its history, whatever
the keys answer at each step. -/
theorem consistent_after (calls : List Call) :
    Consistent (after calls {}) (historyAfter calls {} {}) := by
  have hintake := invariant_intake.staged_after calls
  have hhash := invariant_hash.staged_after calls
  refine ⟨(parser_settled calls).parsed_le, ?_, ?_, ?_, ?_⟩
  · intro hs
    exact (hintake.receiving hs).untouched_or_underway (hhash.receiving hs).2
  · intro hs
    exact (hintake.received (isReceived_iff.mpr hs)).complete
  · rw [isSome_transaction?, isReceived_iff]
  · rw [isSome_hash?, isReceived_iff]

end Session
end HardwareSigner
