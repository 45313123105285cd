/-
# A signature takes an opening, a whole transaction and one approval

The log of a run keeps of every action the state it met and its answer. From
the log alone it can be said what a signature needs: a request was opened,
nothing dropped it or used it up since, and just one chunk completed its
transaction (`Gated`). In particular a request is good for one attempt to
sign, whatever becomes of the attempt: the keys may refuse it now and would
sign later, but they are not asked again.

The invariant behind it says what the log looks like while a session receives
or waits for the user (`Session.Accounted`): its last opening still stands,
with no completed transaction behind it, or with one. That signatures do not
outnumber openings is a matter of credit: an opening gives the session one,
which it holds until it signs or loses it (`Session.countP_log_le`).

Key definitions: `Entry`, `Session.log`, `Gated`, `OpeningStands`,
`Session.Accounted`.
Key theorems: `Session.Accounted.transition`, `Session.accounted_log`,
`Session.countP_log_le`, `Session.step_congr_keys`,
`Session.approvals_are_gated`.
-/
import HardwareSigner.Proofs.SessionSteps

namespace HardwareSigner

/-! ### Logs -/

/-- Whether the action is a chunk of a transaction. -/
def Action.isChunk : Action → Bool
  | .handle (.chunk _ _) => true
  | .handle .none | .handle (.getAddress _ _) | .handle (.openSigning _ _) => false
  | .approve | .deny | .reset => false

/-- Whether the action opens a signing request. -/
def Action.opens : Action → Bool
  | .handle (.openSigning _ _) => true
  | .handle .none | .handle (.getAddress _ _) | .handle (.chunk _ _) => false
  | .approve | .deny | .reset => false

/-- Whether the answer is a signature. -/
def Answer.isSignature : Answer → Bool
  | some (.ok (.signature _)) => true
  | some (.ok (.state _)) | some (.ok (.address _ _)) | some (.ok .pending) => false
  | some (.error _) | none => false

/-- Whether the answer is that the transaction waits for the user. -/
def Answer.isPending : Answer → Bool
  | some (.ok .pending) => true
  | some (.ok (.state _)) | some (.ok (.address _ _)) | some (.ok (.signature _)) => false
  | some (.error _) | none => false

/-- Whether the error is one of a transaction that is received wrong. A chunk
that is empty or not expected is refused with another one. -/
def SessionError.ofTransaction : SessionError → Bool
  | .header _ | .expectedMoreData | .expectedLessData => true
  | .invalidLength | .unexpectedRequest | .signing | .keyDerivation | .denied => false

/-- Whether the answer tells that the transaction is received wrong. -/
def Answer.isFailure : Answer → Bool
  | some (.error e) => e.ofTransaction
  | some (.ok _) | none => false

/-- An action of a run, as the log keeps it. -/
structure Entry where
  met : State
  action : Action
  answer : Answer

namespace Entry

/-- A request is opened. -/
def opens (e : Entry) : Bool := e.action.opens

/-- A chunk completes the transaction. -/
def completes (e : Entry) : Bool := e.action.isChunk && e.answer.isPending

/-- A chunk is taken and fails. -/
def fails (e : Entry) : Bool := e.action.isChunk && e.answer.isFailure

/-- The keys are asked for a signature: an approval meets a session that waits
for it. -/
def asks (e : Entry) : Bool := e.action == .approve && e.met == .pending

/-- A signature is given. -/
def signs (e : Entry) : Bool := e.answer.isSignature

/-- The request is over: it is dropped, it fails, or the keys are asked for
its signature, which may be given or not. -/
def ends (e : Entry) : Bool := e.action.drops || e.fails || e.asks

theorem not_ends_of_opens {e : Entry} (h : e.opens = true) : e.ends = false := by
  obtain ⟨met, action, answer⟩ := e
  cases action with
  | handle request =>
    cases request with
    | openSigning => rfl
    | none | getAddress | chunk => simp [opens, Action.opens] at h
  | approve | deny | reset => simp [opens, Action.opens] at h

end Entry

/-- The last opening of the log still stands: the request was not ended since,
and `n` chunks completed its transaction. -/
def OpeningStands (n : Nat) (log : List Entry) : Prop :=
  ∃ earlier opening since, log = earlier ++ opening :: since ∧ opening.opens = true ∧
    (∀ e ∈ since, e.opens = false ∧ e.ends = false) ∧ since.countP Entry.completes = n

namespace OpeningStands

variable {n : Nat} {past : List Entry} {e : Entry}

theorem snoc (h : OpeningStands n past) (hopens : e.opens = false) (hends : e.ends = false) :
    OpeningStands (n + if e.completes then 1 else 0) (past ++ [e]) := by
  obtain ⟨earlier, opening, since, rfl, hopening, hsince, hcount⟩ := h
  refine ⟨earlier, opening, since ++ [e], by simp, hopening, ?_, ?_⟩
  · intro x hx
    rcases List.mem_append.mp hx with hx | hx
    · exact hsince x hx
    · rw [List.mem_singleton.mp hx]
      exact ⟨hopens, hends⟩
  · rw [List.countP_append, hcount, List.countP_singleton]

theorem of_opens (past : List Entry) (hopens : e.opens = true) : OpeningStands 0 (past ++ [e]) :=
  ⟨past, e, [], rfl, hopens, by simp, rfl⟩

theorem of_ends {before between : List Entry} {x : Entry}
    (h : OpeningStands n (before ++ x :: between)) (hx : x.ends = true) :
    OpeningStands n between := by
  obtain ⟨earlier, opening, since, heq, hopening, hsince, hcount⟩ := h
  have hnot : x ∉ opening :: since := by
    intro hmem
    rcases List.mem_cons.mp hmem with rfl | hmem
    · rw [Entry.not_ends_of_opens hopening] at hx
      cases hx
    · rw [(hsince x hmem).2] at hx
      cases hx
  -- So `x` is in front of the opening.
  rcases List.append_eq_append_iff.mp heq with ⟨front, -, hfront⟩ | ⟨front, -, hfront⟩
  · cases front with
    | nil =>
      rw [List.nil_append] at hfront
      exact absurd (hfront ▸ List.mem_cons_self) hnot
    | cons y front =>
      rw [List.cons_append, List.cons_eq_cons] at hfront
      exact ⟨front, opening, since, hfront.2, hopening, hsince, hcount⟩
  · exact absurd (hfront ▸ List.mem_append_right front List.mem_cons_self) hnot

end OpeningStands

/-- **Approvals are gated**, told by the log of a run. -/
structure Gated (log : List Entry) : Prop where
  /-- Where a signature is given, the last opening stands, and one chunk
  completed its transaction. -/
  signs : ∀ before e behind, log = before ++ e :: behind → e.signs = true → OpeningStands 1 before
  /-- Up to any point there are no more signatures than openings, and no more
  than completed transactions. -/
  signs_le : ∀ prior, prior <+: log →
    prior.countP Entry.signs ≤ prior.countP Entry.opens ∧
      prior.countP Entry.signs ≤ prior.countP Entry.completes
  /-- The keys are asked no more often than requests are opened, and between
  two openings at most once. -/
  asks_le : (∀ prior, prior <+: log → prior.countP Entry.asks ≤ prior.countP Entry.opens) ∧
    ∀ part, part <:+: log → (∀ e ∈ part, e.opens = false) → part.countP Entry.asks ≤ 1
  /-- Where the request was over, a signature takes a new opening and a whole
  transaction behind it. -/
  afresh : ∀ before x between e behind, log = before ++ x :: (between ++ e :: behind) →
    x.ends = true → e.signs = true → OpeningStands 1 between

namespace Session

/-- The log of a run, in which the keys may answer every action otherwise. -/
def log : List Call → Session → List Entry :=
  trace fun s action answer _ => ⟨s.state, action, answer⟩

variable {keys : KeyStore} {s s' : Session} {action : Action} {answer : Answer}

/-- What every transition keeps of a session and the log so far, a run keeps. -/
theorem log_preserves {P : Session → List Entry → Prop}
    (hstep : ∀ {keys s past action answer s'}, P s past → Transition keys s action answer s' →
      P s' (past ++ [⟨s.state, action, answer⟩])) :
    ∀ (calls : List Call) {s : Session} {past : List Entry}, P s past →
      P (after calls s) (past ++ s.log calls)
  | [], s, past, hP => by
    rw [log, trace, List.append_nil]
    exact hP
  | call :: calls, s, past, hP => by
    have h := log_preserves hstep calls (hstep hP (s.step_transition call.keys call.action))
    rw [List.append_assoc] at h
    exact h

theorem exists_of_prefix_log {prior : List Entry} {calls : List Call}
    (h : prior <+: s.log calls) : ∃ front, prior = s.log front := by
  obtain ⟨later, hlog⟩ := h
  obtain ⟨front, -, -, hfront, -⟩ := trace_eq_append _ hlog.symm
  exact ⟨front, hfront.symm⟩

/-- A part of a log is the log of a run from a session that came to it. -/
theorem exists_of_infix_log {part : List Entry} {calls : List Call}
    (h : part <:+: s.log calls) : ∃ t, ∃ middle, part = log middle t := by
  obtain ⟨before, behind, hlog⟩ := h
  obtain ⟨front, hfront⟩ := exists_of_prefix_log ⟨behind, hlog⟩
  obtain ⟨first, middle, -, -, hmiddle⟩ := trace_eq_append _ hfront.symm
  exact ⟨after first s, middle, hmiddle.symm⟩

theorem exists_of_mem_log {e : Entry} :
    ∀ (calls : List Call) (s : Session), e ∈ s.log calls →
      ∃ keys t action answer t', Transition keys t action answer t' ∧
        e = ⟨t.state, action, answer⟩
  | [], _, he => by simp [log, trace] at he
  | call :: calls, s, he => by
    rw [log, trace, List.mem_cons] at he
    rcases he with rfl | he
    · exact ⟨call.keys, s, call.action, _, _, s.step_transition call.keys call.action, rfl⟩
    · exact exists_of_mem_log calls _ he

/-! ### The last opening stands -/

/-- While the session receives, the last opening of the log stands without a
completed transaction; while it waits for the user, with one. -/
structure Accounted (s : Session) (past : List Entry) : Prop where
  receiving : s.state = .receiving → OpeningStands 0 past
  pending : s.state = .pending → OpeningStands 1 past

theorem Accounted.snoc {past : List Entry} {e : Entry} (h : Accounted s past)
    (hopens : e.opens = false) (hends : e.ends = false) (hcompletes : e.completes = false) :
    Accounted s (past ++ [e]) := by
  constructor
  · intro hs
    have hstands := (h.receiving hs).snoc hopens hends
    rwa [hcompletes] at hstands
  · intro hs
    have hstands := (h.pending hs).snoc hopens hends
    rwa [hcompletes] at hstands

theorem Accounted.takes {past : List Entry} {data : Bytes} {more : Bool}
    {answer : Except SessionError Reply} (h : Accounted s past) (hs : s.state = .receiving)
    (ht : s.Takes data more answer s') :
    Accounted s' (past ++ [⟨s.state, .handle (.chunk data more), some answer⟩]) := by
  cases ht with
  | malformed | endsEarly | runsOver => exact ⟨nofun, nofun⟩
  | goesOn =>
    have hkept := h.snoc (e := ⟨s.state, .handle (.chunk data more), some (.ok (.state s.state))⟩)
      rfl rfl rfl
    exact ⟨hkept.receiving, hkept.pending⟩
  | completes => exact ⟨nofun, fun _ => (h.receiving hs).snoc rfl rfl⟩

/-- **Every transition keeps the account.** -/
theorem Accounted.transition {past : List Entry} (h : Accounted s past)
    (ht : Transition keys s action answer s') :
    Accounted s' (past ++ [⟨s.state, action, answer⟩]) := by
  cases ht with
  | tells => exact h.snoc rfl rfl rfl
  | derives | derivesNot | denies | resets => exact ⟨nofun, nofun⟩
  | opens => exact ⟨fun _ => .of_opens past rfl, nofun⟩
  | unexpectedChunk | emptyChunk => exact h.snoc rfl rfl rfl
  | takes hs _ ht => exact h.takes hs ht
  | signs | signsNot => exact ⟨nofun, nofun⟩
  | approvesDenied hs =>
    have hasks : (s.state == State.pending) = false := by rw [hs]; rfl
    exact h.snoc rfl hasks rfl
  | approvesNothing hs =>
    have hasks : (s.state == State.pending) = false := by simpa using hs
    exact h.snoc rfl hasks rfl

theorem accounted_log (calls : List Call) : Accounted (after calls {}) (log calls {}) := by
  have hnew : Accounted ({} : Session) [] := ⟨nofun, nofun⟩
  exact log_preserves Accounted.transition calls hnew

/-! ### Credit -/

/-- What is spent in a run is covered by what is granted, if every transition
covers what it spends by the credit of the state it meets. -/
theorem countP_log_le {spends grants : Entry → Bool} {credit : State → Nat}
    (hstep : ∀ {keys s action answer s'}, Transition keys s action answer s' →
      (if spends ⟨s.state, action, answer⟩ then 1 else 0) + credit s'.state ≤
        credit s.state + if grants ⟨s.state, action, answer⟩ then 1 else 0) :
    ∀ (calls : List Call) (s : Session),
      (s.log calls).countP spends + credit (after calls s).state ≤
        credit s.state + (s.log calls).countP grants
  | [], s => by simp [log, trace, after]
  | call :: calls, s => by
    have h := hstep (s.step_transition call.keys call.action)
    -- What the rest may spend is the credit that the first call leaves.
    have ih := countP_log_le hstep calls (s.step call.keys call.action).2
    rw [log, trace, List.countP_cons, List.countP_cons]
    simp only [after]
    rw [log] at ih
    omega

/-- A session that receives or waits for the user may still ask the keys for
one signature. -/
def requestCredit : State → Nat
  | .receiving | .pending => 1
  | .idle | .denied | .failed | .complete => 0

/-- A session that waits for the user holds one completed transaction. -/
def transactionCredit : State → Nat
  | .pending => 1
  | .idle | .receiving | .denied | .failed | .complete => 0

theorem requestCredit_le_one (state : State) : requestCredit state ≤ 1 := by
  cases state <;> decide

/-- Asking the keys takes the credit that the opening gave. -/
theorem requestCredit_step (ht : Transition keys s action answer s') :
    (if Entry.asks ⟨s.state, action, answer⟩ then 1 else 0) + requestCredit s'.state ≤
      requestCredit s.state + if Entry.opens ⟨s.state, action, answer⟩ then 1 else 0 := by
  cases ht with
  | tells | unexpectedChunk | emptyChunk => exact Nat.le_of_eq (Nat.add_comm _ _)
  | derives | derivesNot | denies | resets => exact Nat.zero_le _
  | opens => exact Nat.le_add_left 1 _
  | takes hs _ ht =>
    have hle := requestCredit_le_one s'.state
    rw [hs]
    show 0 + requestCredit s'.state ≤ 1 + 0
    omega
  | signs hs | signsNot hs => simp [Entry.asks, hs, requestCredit]
  | approvesDenied hs => simp [Entry.asks, hs]
  | approvesNothing hs => simp [Entry.asks, hs]

theorem transactionCredit_step (ht : Transition keys s action answer s') :
    (if Entry.asks ⟨s.state, action, answer⟩ then 1 else 0) + transactionCredit s'.state ≤
      transactionCredit s.state + if Entry.completes ⟨s.state, action, answer⟩ then 1 else 0 := by
  cases ht with
  | tells | unexpectedChunk | emptyChunk => exact Nat.le_of_eq (Nat.add_comm _ _)
  | derives | derivesNot | denies | resets | opens => exact Nat.zero_le _
  | takes hs _ ht =>
    cases ht with
    | malformed | endsEarly | runsOver => exact Nat.zero_le _
    | goesOn => exact Nat.le_of_eq (Nat.add_comm _ _)
    | completes => exact Nat.le_add_left 1 _
  | signs hs | signsNot hs => simp [Entry.asks, hs, transactionCredit]
  | approvesDenied hs => simp [Entry.asks, hs]
  | approvesNothing hs => simp [Entry.asks, hs]

theorem countP_asks_le_opens (calls : List Call) :
    (log calls {}).countP Entry.asks ≤ (log calls {}).countP Entry.opens := by
  have h : (log calls {}).countP Entry.asks + requestCredit (after calls {}).state ≤
      0 + (log calls {}).countP Entry.opens := countP_log_le requestCredit_step calls {}
  omega

theorem countP_asks_le_completes (calls : List Call) :
    (log calls {}).countP Entry.asks ≤ (log calls {}).countP Entry.completes := by
  have h : (log calls {}).countP Entry.asks + transactionCredit (after calls {}).state ≤
      0 + (log calls {}).countP Entry.completes := countP_log_le transactionCredit_step calls {}
  omega

/-- As long as no request is opened, there is at most one attempt to sign,
whatever the session came from. -/
theorem countP_asks_le_one (calls : List Call) (s : Session)
    (hno : ∀ e ∈ s.log calls, e.opens = false) : (s.log calls).countP Entry.asks ≤ 1 := by
  have h := countP_log_le requestCredit_step calls s
  have hcredit := requestCredit_le_one s.state
  have hopens : (s.log calls).countP Entry.opens = 0 := by
    rw [List.countP_eq_zero]
    intro e he
    simp [hno e he]
  omega

/-! ### Gating -/

theorem asks_of_signs (ht : Transition keys s action answer s')
    (h : Entry.signs ⟨s.state, action, answer⟩ = true) :
    s.state = .pending ∧ Entry.asks ⟨s.state, action, answer⟩ = true := by
  cases ht with
  | signs hs => exact ⟨hs, by simp [Entry.asks, hs]⟩
  | takes _ _ ht => cases ht <;> simp [Entry.signs, Answer.isSignature] at h
  | tells | derives | derivesNot | opens | unexpectedChunk | emptyChunk | signsNot
  | approvesDenied | approvesNothing | denies | resets =>
    simp [Entry.signs, Answer.isSignature] at h

theorem countP_signs_le_asks (calls : List Call) (s : Session) :
    (s.log calls).countP Entry.signs ≤ (s.log calls).countP Entry.asks := by
  apply List.countP_mono_left
  intro e he hsigns
  obtain ⟨keys, t, action, answer, t', ht, rfl⟩ := exists_of_mem_log calls s he
  exact (asks_of_signs ht hsigns).2

theorem openingStands_of_signs {calls : List Call} {before behind : List Entry} {e : Entry}
    (hlog : log calls {} = before ++ e :: behind) (he : e.signs = true) :
    OpeningStands 1 before := by
  obtain ⟨front, back, -, hfront, hback⟩ := trace_eq_append _ hlog
  cases back with
  | nil => cases hback
  | cons call back =>
    rw [trace, List.cons_eq_cons] at hback
    obtain ⟨rfl, -⟩ := hback
    have hpending := (asks_of_signs (step_transition call.keys _ call.action) he).1
    have hstands := (accounted_log front).pending hpending
    rwa [log, hfront] at hstands

/-- The keys matter to a step only by the public keys, and where they are asked
for a signature by that signature. -/
theorem step_congr_keys {keys other : KeyStore} {s : Session} {action : Action}
    (hpublic : other.publicKey = keys.publicKey)
    (hsign : action = .approve → s.state = .pending →
      other.sign s.path s.intake.hash = keys.sign s.path s.intake.hash) :
    s.step other action = s.step keys action := by
  cases action with
  | handle request => cases request <;> simp only [step, handle, hpublic]
  | approve =>
    by_cases hs : s.state = .pending
    · simp only [step, approve, hs, hsign rfl hs]
    · rw [step_approve_of_ne_pending other hs, step_approve_of_ne_pending keys hs]
  | deny | reset => rfl

/-- **Approvals are gated.** In the log of every run of a new session, however
the keys answer from one action to the next, a signature is given only for the
last request opened, to which nothing put an end since and whose transaction
was completed once; signatures and attempts to sign are never more than
openings, and an opening is good for one attempt. An attempt is all a step
wants of the keys but for their public keys. -/
theorem approvals_are_gated (calls : List Call) :
    Gated (log calls {}) ∧
    ∀ (keys other : KeyStore) (s : Session) (action : Action),
      other.publicKey = keys.publicKey →
      (Entry.asks ⟨s.state, action, (s.step keys action).1⟩ = true →
        other.sign s.path s.intake.hash = keys.sign s.path s.intake.hash) →
      s.step other action = s.step keys action := by
  refine ⟨⟨?_, ?_, ⟨?_, ?_⟩, ?_⟩, ?_⟩
  · intro before e behind hlog he
    exact openingStands_of_signs hlog he
  · intro prior hprior
    obtain ⟨front, rfl⟩ := exists_of_prefix_log hprior
    have hsigns := countP_signs_le_asks front {}
    exact ⟨Nat.le_trans hsigns (countP_asks_le_opens front),
      Nat.le_trans hsigns (countP_asks_le_completes front)⟩
  · intro prior hprior
    obtain ⟨front, rfl⟩ := exists_of_prefix_log hprior
    exact countP_asks_le_opens front
  · intro part hpart hno
    obtain ⟨t, middle, rfl⟩ := exists_of_infix_log hpart
    exact countP_asks_le_one middle t hno
  · intro before x between e behind hlog hx he
    rw [← List.cons_append, ← List.append_assoc] at hlog
    exact (openingStands_of_signs hlog he).of_ends hx
  · intro keys other s action hpublic hasked
    exact step_congr_keys hpublic fun haction hs => hasked (by simp [Entry.asks, haction, hs])

/-- A header without a call, in one chunk. -/
def emptyCall : Action := .handle (.chunk (List.replicate Header.length 0) false)

/-- A request is opened and its transaction taken, but the keys refuse to sign.
Another request is opened and taken, and now they sign. -/
def refusedThenSigned : List Call :=
  [⟨refusingKeys, .handle (.openSigning .empty .empty)⟩, ⟨refusingKeys, emptyCall⟩,
    ⟨refusingKeys, .approve⟩, ⟨echoKeys, .handle (.openSigning .empty .empty)⟩,
    ⟨echoKeys, emptyCall⟩, ⟨echoKeys, .approve⟩]

theorem approvals_are_gated_refusedThenSigned :
    ∃ before x between e, log refusedThenSigned {} = before ++ x :: (between ++ [e]) ∧
      before.length = 2 ∧ x.ends = true ∧ e.signs = true ∧ OpeningStands 1 between ∧
      (log refusedThenSigned {}).countP Entry.signs ≤
        (log refusedThenSigned {}).countP Entry.opens := by
  obtain ⟨hgated, -⟩ := approvals_are_gated refusedThenSigned
  have hlog : ∃ before x between e, log refusedThenSigned {} = before ++ x :: (between ++ [e]) ∧
      before.length = 2 ∧ x.ends = true ∧ e.signs = true :=
    ⟨[_, _], _, [_, _], _, rfl, rfl, rfl, rfl⟩
  obtain ⟨before, x, between, e, hlog, hlength, hends, hsigns⟩ := hlog
  exact ⟨before, x, between, e, hlog, hlength, hends, hsigns,
    hgated.afresh before x between e [] hlog hends hsigns, (hgated.signs_le _ List.prefix_rfl).1⟩

end Session
end HardwareSigner
