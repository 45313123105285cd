/-
# Refusals change nothing, failures close the session

An action that is not expected where the session stands is refused, and so is
an empty chunk (`Action.refusal?`). A refusal is an answer and nothing else:
the session behind it is the one that was asked. So refused actions, and
requests that ask nothing, can be left out of a run wherever they are, and
what is left is answered and goes on as before (`Session.trace_kept`).

An attempt that fails is no refusal. If a chunk does not go with the
transaction, or the keys do not sign it, the session ends up failed; if they
do not derive an address, it ends up idle. Of the transaction nothing is to be
seen any more (`Session.Closed`).

Key definitions: `Action.refusal?`, `Action.idles`, `kept`,
`Session.erasable`, `Session.Closed`.
Key theorems: `Session.Transition.of_refusal`, `Session.step_of_idles`,
`Session.trace_kept`, `Session.Transition.closed_of_error`,
`Session.refusals_keep_failures_close`.
-/
import HardwareSigner.Proofs.SessionSteps

namespace HardwareSigner

/-- Why the action is refused where the session stands, if it is. -/
def Action.refusal? (state : State) : Action → Option SessionError
  | .handle (.chunk data _) =>
    if state ≠ .receiving then some .unexpectedRequest
    else if data = [] then some .invalidLength
    else none
  | .approve =>
    if state = .pending then none
    else if state = .denied then some .denied
    else some .unexpectedRequest
  | .handle .none | .handle (.getAddress _ _) | .handle (.openSigning _ _) | .deny | .reset => none

namespace Action

variable {state : State}

theorem refusal?_chunk_of_ne (h : state ≠ .receiving) (data : Bytes) (more : Bool) :
    refusal? state (.handle (.chunk data more)) = some .unexpectedRequest := if_pos h

theorem refusal?_chunk_nil (h : state = .receiving) (more : Bool) :
    refusal? state (.handle (.chunk [] more)) = some .invalidLength := by
  rw [refusal?, if_neg (not_not_intro h), if_pos rfl]

end Action

/-- The action asks nothing, or is refused where the session stands. -/
def Action.idles (state : State) (action : Action) : Bool :=
  action == .handle .none || (action.refusal? state).isSome

/-- The entries of a list that are not marked. -/
def kept {α : Type} (marked : List (α × Bool)) : List α :=
  (marked.filter fun entry => !entry.2).map Prod.fst

section Kept

variable {α : Type} (entry : α) (marked : List (α × Bool))

@[simp] theorem kept_cons_true : kept ((entry, true) :: marked) = kept marked := rfl

@[simp] theorem kept_cons_false : kept ((entry, false) :: marked) = entry :: kept marked := rfl

end Kept

namespace Session

variable {keys : KeyStore} {s s' : Session} {action : Action} {answer : Answer} {e : SessionError}

/-! ### Refusals -/

/-- **A refusal is an answer and nothing else.** -/
theorem Transition.of_refusal (ht : Transition keys s action answer s')
    (h : action.refusal? s.state = some e) : answer = some (.error e) ∧ s' = s := by
  cases ht with
  | tells | derives | derivesNot | opens | denies | resets => cases h
  | unexpectedChunk hs =>
    rw [Action.refusal?_chunk_of_ne hs] at h
    cases h
    exact ⟨rfl, rfl⟩
  | emptyChunk hs =>
    rw [Action.refusal?_chunk_nil hs] at h
    cases h
    exact ⟨rfl, rfl⟩
  | takes hs hdata =>
    rw [Action.refusal?, if_neg (not_not_intro hs), if_neg hdata] at h
    cases h
  | signs hs | signsNot hs =>
    rw [Action.refusal?, if_pos hs] at h
    cases h
  | approvesDenied hs =>
    rw [Action.refusal?, hs, if_neg State.noConfusion, if_pos rfl] at h
    cases h
    exact ⟨rfl, rfl⟩
  | approvesNothing hs hs' =>
    rw [Action.refusal?, if_neg hs, if_neg hs'] at h
    cases h
    exact ⟨rfl, rfl⟩

theorem step_of_refusal (keys : KeyStore) (h : action.refusal? s.state = some e) :
    s.step keys action = (some (.error e), s) := by
  obtain ⟨hanswer, hs⟩ := (s.step_transition keys action).of_refusal h
  exact Prod.ext hanswer hs

theorem step_of_idles (keys : KeyStore) (h : action.idles s.state = true) :
    (s.step keys action).2 = s := by
  unfold Action.idles at h
  rcases Bool.or_eq_true_iff.mp h with hnone | hrefused
  · rw [beq_iff_eq.mp hnone]
    rfl
  · obtain ⟨e, he⟩ := Option.isSome_iff_exists.mp hrefused
    rw [step_of_refusal keys he]

/-! ### Runs with refusals left out -/

/-- Each marked call idles in the session that it meets. -/
def erasable : List (Call × Bool) → Session → Bool
  | [], _ => true
  | entry :: marked, s =>
    (!entry.2 || entry.1.action.idles s.state) &&
      erasable marked (s.step entry.1.keys entry.1.action).2

/-- **Calls that idle can be left out.** A run without them ends in the same
session, and whatever is noted of the calls that are kept is the same. -/
theorem trace_kept :
    ∀ (marked : List (Call × Bool)) {s : Session}, erasable marked s = true →
      after (kept marked) s = after (marked.map Prod.fst) s ∧
      ∀ (α : Type) (note : Session → Action → Answer → Session → α),
        trace note (kept marked) s =
          kept ((trace note (marked.map Prod.fst) s).zip (marked.map Prod.snd))
  | [], _, _ => ⟨rfl, fun _ _ => rfl⟩
  | (call, erased) :: marked, s, h => by
    obtain ⟨hidles, hlater⟩ := Bool.and_eq_true_iff.mp h
    obtain ⟨hafter, htrace⟩ := trace_kept marked hlater
    cases erased with
    | true =>
      -- The calls behind it meet the session that this one met.
      have hs : (s.step call.keys call.action).2 = s := step_of_idles call.keys hidles
      rw [hs] at hafter htrace
      simp only [List.map_cons, after, trace, List.zip_cons_cons, kept_cons_true, hs]
      exact ⟨hafter, htrace⟩
    | false =>
      simp only [List.map_cons, after, trace, List.zip_cons_cons, kept_cons_false]
      exact ⟨hafter, fun α note => congrArg (List.cons _) (htrace α note)⟩

/-! ### Failures -/

/-- The session stands in this state, and nothing is to be seen of a
transaction. -/
structure Closed (state : State) (s : Session) : Prop where
  state_eq : s.state = state
  transaction?_eq : s.transaction? = none
  hash?_eq : s.hash? = none

theorem closed_of_not_isReceived {state : State} (hstate : s.state = state)
    (hs : s.isReceived = false) : Closed state s := by
  refine ⟨hstate, ?_, ?_⟩
  · rw [transaction?, hs]
    rfl
  · rw [hash?, hs]
    rfl

/-- A chunk that is neither refused nor taken well closes the session. -/
theorem Transition.closed_of_error {data : Bytes} {more : Bool}
    (ht : Transition keys s (.handle (.chunk data more)) (some (.error e)) s')
    (hno : Action.refusal? s.state (.handle (.chunk data more)) = none) : Closed .failed s' := by
  cases ht with
  | unexpectedChunk hs =>
    rw [Action.refusal?_chunk_of_ne hs] at hno
    cases hno
  | emptyChunk hs =>
    rw [Action.refusal?_chunk_nil hs] at hno
    cases hno
  | takes _ _ htakes =>
    cases htakes with
    | malformed | endsEarly | runsOver => exact closed_of_not_isReceived rfl rfl

/-- Keys that do not sign close the session. -/
theorem step_approve_of_sign_error (hs : s.state = .pending)
    (hsign : keys.sign s.path s.intake.hash = .error e) :
    s.step keys .approve = (some (.error e), { s with state := .failed }) := by
  simp only [step, approve, hs, hsign]

/-- Keys that do not derive an address leave the session idle, without the
transaction. -/
theorem step_getAddress_of_error {path : DerivationPath} (display : Bool)
    (hkey : keys.publicKey path = .error e) :
    s.step keys (.handle (.getAddress path display)) =
      (some (.error e), { s.clear with state := .idle }) := by
  simp only [step, handle, hkey]

/-- **Refusals change nothing, failures close the session.** Whatever the
session and the keys: an action that is refused is answered with the reason
and leaves the session as it is, so any refused actions, and requests that ask
nothing, can be left out of any run without a change to the rest. Every other
chunk that is answered with an error, and every approval of a pending
transaction that the keys fail to sign, leaves the session failed with no
transaction and no hash; an address that the keys fail to derive leaves it
idle, with the transaction dropped. -/
theorem refusals_keep_failures_close (keys : KeyStore) (s : Session) :
    (∀ action e, action.refusal? s.state = some e → s.step keys action = (some (.error e), s)) ∧
    (∀ marked : List (Call × Bool), erasable marked s = true →
      after (kept marked) s = after (marked.map Prod.fst) s ∧
      ∀ (α : Type) (note : Session → Action → Answer → Session → α),
        trace note (kept marked) s =
          kept ((trace note (marked.map Prod.fst) s).zip (marked.map Prod.snd))) ∧
    (∀ data more e, (s.step keys (.handle (.chunk data more))).1 = some (.error e) →
      Action.refusal? s.state (.handle (.chunk data more)) = none →
      Closed .failed (s.step keys (.handle (.chunk data more))).2) ∧
    (∀ e, s.state = .pending → keys.sign s.path s.intake.hash = .error e →
      (s.step keys .approve).1 = some (.error e) ∧ Closed .failed (s.step keys .approve).2) ∧
    ∀ path display e, keys.publicKey path = .error e →
      (s.step keys (.handle (.getAddress path display))).1 = some (.error e) ∧
      Closed .idle (s.step keys (.handle (.getAddress path display))).2 ∧
      (s.step keys (.handle (.getAddress path display))).2.intake = {} := by
  refine ⟨fun _ _ => step_of_refusal keys, fun marked => trace_kept marked, ?_, ?_, ?_⟩
  · intro data more e herror hno
    have ht := s.step_transition keys (.handle (.chunk data more))
    rw [herror] at ht
    exact ht.closed_of_error hno
  · intro e hs hsign
    rw [step_approve_of_sign_error hs hsign]
    exact ⟨rfl, closed_of_not_isReceived rfl rfl⟩
  · intro path display e hkey
    rw [step_getAddress_of_error display hkey]
    exact ⟨rfl, closed_of_not_isReceived rfl rfl, rfl⟩

/-- A request whose chunks come between refused ones and an approval that
comes too early; the keys do not sign it in the end. -/
def interrupted : List (Call × Bool) :=
  [(⟨echoKeys, .approve⟩, true), (⟨echoKeys, .handle (.openSigning .empty .empty)⟩, false),
    (⟨echoKeys, .handle (.chunk [] true)⟩, true), (⟨echoKeys, .handle .none⟩, true),
    (⟨echoKeys, .handle (.chunk (List.replicate Header.length 0) false)⟩, false),
    (⟨echoKeys, .handle (.chunk [1] true)⟩, true), (⟨refusingKeys, .approve⟩, false)]

theorem refusals_keep_failures_close_interrupted :
    let opened := Session.opened {} .empty .empty
    let waiting := (opened.step echoKeys (.handle (.chunk (List.replicate Header.length 0) false))).2
    erasable interrupted {} = true ∧
    after (kept interrupted) {} = after (interrupted.map Prod.fst) {} ∧
    waiting.step refusingKeys (.handle (.chunk [1] true)) =
      (some (.error .unexpectedRequest), waiting) ∧
    Closed .failed (opened.step refusingKeys (.handle (.chunk [1] true))).2 ∧
    Closed .failed (waiting.step refusingKeys .approve).2 ∧
    Closed .idle (waiting.step refusingKeys (.handle (.getAddress .empty true))).2 := by
  intro opened waiting
  have herasable : erasable interrupted {} = true := by decide
  have hwaiting : waiting.state = .pending := by decide
  have hrefused : Action.refusal? waiting.state (.handle (.chunk [1] true)) =
      some .unexpectedRequest := Action.refusal?_chunk_of_ne (by decide) [1] true
  obtain ⟨-, hkept, -⟩ := refusals_keep_failures_close refusingKeys {}
  obtain ⟨-, -, hchunk, -⟩ := refusals_keep_failures_close refusingKeys opened
  obtain ⟨hrefusal, -, -, hsign, hderive⟩ := refusals_keep_failures_close refusingKeys waiting
  exact ⟨herasable, (hkept interrupted herasable).1, hrefusal _ _ hrefused, hchunk [1] true _ rfl rfl,
    (hsign .signing hwaiting rfl).2, (hderive .empty true .keyDerivation rfl).2.1⟩

end Session
end HardwareSigner
