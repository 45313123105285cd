/-
# What a step of a session can do

`Session.Transition` lists every way a session answers an action and goes on,
each under the condition for which it happens; `Session.Takes` does the same
for a chunk that is taken while receiving. A step is always one of these
(`Session.step_transition`), so what a step keeps is proved by going through
the list, and what a run keeps follows for the session and the history kept
beside it (`Session.after_preserves`).

What a session knows of a transaction comes in with the chunks and then stays
until the request is dropped, so most of what is kept has two parts: one for
while the session receives, and one for when the transaction is received
(`Session.Staged`). For such a pair only openings and chunks have to be
looked at (`Session.Invariant`).

Key definitions: `Intake.feed`, `Intake.seal`, `Action.drops`, `Session.Takes`,
`Session.Transition`, `Session.Call`, `Session.historyAfter`, `Session.trace`,
`Session.Staged`, `Session.Invariant`.
Key theorems: `Session.takeChunk_takes`, `Session.step_transition`,
`Session.step_approve_of_ne_pending`, `Session.step_chunk_of_ne_receiving`,
`Session.after_preserves`, `Session.trace_eq_append`,
`Session.Invariant.transition`, `Session.Invariant.staged_after`.
-/
import HardwareSigner.Session.History

namespace HardwareSigner

/-! ### The intake -/

/-- What the parser makes of the next chunk. -/
def Intake.fed (i : Intake) (data : Bytes) : Transaction.Parser.Fed :=
  i.parser.feedChunk i.transaction data

/-- The intake with one more chunk parsed and to be hashed. -/
def Intake.feed (i : Intake) (data : Bytes) : Intake :=
  { i with
    parser := (i.fed data).parser
    transaction := (i.fed data).transaction
    absorbed := i.absorbed ++ data }

/-- The intake with the hash taken for a chain. -/
def Intake.seal (i : Intake) (chainId : ChainId) : Intake :=
  { i with absorbed := [], hash := Session.signingHash i.absorbed chainId }

/-- A history with one more chunk taken. -/
def History.add (h : History) (data : Bytes) : History := { h with chunks := h.chunks ++ [data] }

@[simp] theorem History.chunks_add (h : History) (data : Bytes) :
    (h.add data).chunks = h.chunks ++ [data] := rfl

@[simp] theorem History.bytes_add (h : History) (data : Bytes) :
    (h.add data).bytes = h.bytes ++ data := by
  simp [History.bytes]

/-- The action drops the transaction, whatever the session is doing. -/
def Action.drops : Action → Bool
  | .handle (.getAddress _ _) | .deny | .reset => true
  | .handle .none | .handle (.openSigning _ _) | .handle (.chunk _ _) | .approve => false

namespace Session

/-! ### Chunks -/

/-- What a session answers to a chunk that is not empty, and the session after
it: the header is cut off, or the transaction goes on as announced, ends
early, runs over its end, or is complete. -/
inductive Takes (s : Session) (data : Bytes) (more : Bool) :
    Except SessionError Reply → Session → Prop
  | malformed {field : HeaderError} (h : (s.intake.fed data).status = .error field) :
    Takes s data more (.error (.header field))
      { s with state := .failed, intake := s.intake.feed data }
  | goesOn (h : (s.intake.fed data).status = .ok .more) (hmore : more = true) :
    Takes s data more (.ok (.state s.state)) { s with intake := s.intake.feed data }
  | endsEarly (h : (s.intake.fed data).status = .ok .more) (hmore : more = false) :
    Takes s data more (.error .expectedMoreData)
      { s with state := .failed, intake := s.intake.feed data }
  | runsOver (h : (s.intake.fed data).status = .ok .done)
    (hmore : more = true ∨ (s.intake.fed data).reader.isEmpty = false) :
    Takes s data more (.error .expectedLessData)
      { s with state := .failed, intake := s.intake.feed data }
  | completes (h : (s.intake.fed data).status = .ok .done) (hmore : more = false)
    (hempty : (s.intake.fed data).reader.isEmpty = true) :
    Takes s data more (.ok .pending)
      { s with state := .pending, intake := (s.intake.feed data).seal s.chainId }

theorem takeChunk_takes (s : Session) {data : Bytes} (hdata : data ≠ []) (more : Bool) :
    s.Takes data more (s.takeChunk data more).1 (s.takeChunk data more).2 := by
  have hempty : data.isEmpty = false := by simpa using hdata
  unfold takeChunk
  simp only [hempty, Bool.false_eq_true, if_false]
  split
  · rename_i field h
    exact .malformed h
  · rename_i h
    cases more with
    | true => exact .goesOn h rfl
    | false => exact .endsEarly h rfl
  · rename_i h
    split
    · rename_i hover
      simp only [Bool.or_eq_true, Bool.not_eq_true'] at hover
      exact .runsOver h hover
    · rename_i hends
      simp only [Bool.or_eq_true, Bool.not_eq_true', not_or, Bool.not_eq_true,
        Bool.not_eq_false] at hends
      exact .completes h hends.1 hends.2

/-! ### Actions -/

/-- The session behind an opening. -/
def opened (s : Session) (path : DerivationPath) (chainId : ChainId) : Session :=
  { s.clear with path, chainId, state := .receiving }

/-- What a session answers to an action, and the session after it. -/
inductive Transition (keys : KeyStore) (s : Session) : Action → Answer → Session → Prop
  | tells : Transition keys s (.handle .none) (some (.ok (.state s.state))) s
  | derives {path : DerivationPath} {display : Bool} {key : PublicKey}
    (h : keys.publicKey path = .ok key) :
    Transition keys s (.handle (.getAddress path display))
      (some (.ok (.address (Address.ofPublicKey key) display))) { s.clear with state := .idle }
  | derivesNot {path : DerivationPath} {display : Bool} {e : SessionError}
    (h : keys.publicKey path = .error e) :
    Transition keys s (.handle (.getAddress path display)) (some (.error e))
      { s.clear with state := .idle }
  | opens {path : DerivationPath} {chainId : ChainId} :
    Transition keys s (.handle (.openSigning path chainId)) (some (.ok (.state .receiving)))
      (s.opened path chainId)
  | unexpectedChunk {data : Bytes} {more : Bool} (hs : s.state ≠ .receiving) :
    Transition keys s (.handle (.chunk data more)) (some (.error .unexpectedRequest)) s
  | emptyChunk {more : Bool} (hs : s.state = .receiving) :
    Transition keys s (.handle (.chunk [] more)) (some (.error .invalidLength)) s
  | takes {data : Bytes} {more : Bool} {answer : Except SessionError Reply} {s' : Session}
    (hs : s.state = .receiving) (hdata : data ≠ []) (h : s.Takes data more answer s') :
    Transition keys s (.handle (.chunk data more)) (some answer) s'
  | signs {signature : RecoverableSignature} (hs : s.state = .pending)
    (h : keys.sign s.path s.intake.hash = .ok signature) :
    Transition keys s .approve (some (.ok (.signature signature))) { s with state := .complete }
  | signsNot {e : SessionError} (hs : s.state = .pending)
    (h : keys.sign s.path s.intake.hash = .error e) :
    Transition keys s .approve (some (.error e)) { s with state := .failed }
  | approvesDenied (hs : s.state = .denied) :
    Transition keys s .approve (some (.error .denied)) s
  | approvesNothing (hs : s.state ≠ .pending) (hs' : s.state ≠ .denied) :
    Transition keys s .approve (some (.error .unexpectedRequest)) s
  | denies : Transition keys s .deny none s.deny
  | resets : Transition keys s .reset none s.reset

/-- **A step is one of the transitions.** -/
theorem step_transition (keys : KeyStore) (s : Session) (action : Action) :
    Transition keys s action (s.step keys action).1 (s.step keys action).2 := by
  cases action with
  | handle request =>
    cases request with
    | none => exact .tells
    | getAddress path display =>
      simp only [step, handle]
      split
      · rename_i e h
        exact .derivesNot h
      · rename_i key h
        exact .derives h
    | openSigning path chainId => exact .opens
    | chunk data more =>
      simp only [step, handle]
      by_cases hs : s.state = .receiving
      · rw [if_pos hs]
        by_cases hdata : data = []
        · subst hdata
          exact .emptyChunk hs
        · exact .takes hs hdata (s.takeChunk_takes hdata more)
      · rw [if_neg hs]
        exact .unexpectedChunk hs
  | approve =>
    simp only [step, approve]
    split
    · rename_i hs
      split
      · rename_i e h
        exact .signsNot hs h
      · rename_i signature h
        exact .signs hs h
    · rename_i hs
      exact .approvesDenied hs
    all_goals
      rename_i hs
      exact .approvesNothing (by simp [hs]) (by simp [hs])
  | deny => exact .denies
  | reset => exact .resets

theorem transition_of_step {keys : KeyStore} {s s' : Session} {action : Action} {answer : Answer}
    (h : s.step keys action = (answer, s')) : Transition keys s action answer s' := by
  have ht := s.step_transition keys action
  rw [h] at ht
  exact ht

/-! ### Refusals -/

/-- A session that does not wait for the user answers an approval as its state
tells, and stays as it is. -/
theorem step_approve_of_ne_pending (keys : KeyStore) {s : Session} (hs : s.state ≠ .pending) :
    s.step keys .approve =
      (some (.error (if s.state = .denied then .denied else .unexpectedRequest)), s) := by
  have ht := s.step_transition keys .approve
  revert ht
  generalize s.step keys .approve = p
  obtain ⟨answer, s'⟩ := p
  intro ht
  cases ht with
  | signs hpending | signsNot hpending => exact absurd hpending hs
  | approvesDenied hdenied => rw [if_pos hdenied]
  | approvesNothing _ hdenied => rw [if_neg hdenied]

theorem step_chunk_of_ne_receiving (keys : KeyStore) {s : Session} (hs : s.state ≠ .receiving)
    (data : Bytes) (more : Bool) :
    s.step keys (.handle (.chunk data more)) = (some (.error .unexpectedRequest), s) := by
  simp only [step, handle, if_neg hs]

/-! ### Runs -/

/-- Keys whose signature of a hash is the hash itself. -/
def echoKeys : KeyStore where
  publicKey _ := .error .keyDerivation
  sign _ hash := .ok { recoveryId := 0, r := hash, s := hash }

/-- Keys that give no signature. -/
def refusingKeys : KeyStore where
  publicKey _ := .error .keyDerivation
  sign _ _ := .error .signing

theorem isReceived_iff {s : Session} :
    s.isReceived = true ↔ s.state = .pending ∨ s.state = .complete := by
  simp [isReceived]

/-! ### Runs step by step -/

/-- An action, and the keys it meets. The next action may meet keys that
answer otherwise. -/
structure Call where
  keys : KeyStore
  action : Action

/-- The session behind some calls. -/
def after : List Call → Session → Session
  | [], s => s
  | call :: calls, s => after calls (s.step call.keys call.action).2

theorem after_map (keys : KeyStore) :
    ∀ (actions : List Action) (s : Session),
      after (actions.map (Call.mk keys)) s = (run keys actions s).2
  | [], _ => rfl
  | action :: actions, s => after_map keys actions (s.step keys action).2

/-- The history of a session behind some calls. -/
def historyAfter : List Call → Session → History → History
  | [], _, h => h
  | call :: calls, s, h =>
    historyAfter calls (s.step call.keys call.action).2 (h.record s.state call.action)

/-- A run with one set of keys, followed with its history. -/
theorem follow_eq (keys : KeyStore) :
    ∀ (actions : List Action) (s : Session) (h : History),
      follow keys actions s h =
        (after (actions.map (Call.mk keys)) s, historyAfter (actions.map (Call.mk keys)) s h)
  | [], _, _ => rfl
  | action :: actions, s, h =>
    follow_eq keys actions (s.step keys action).2 (h.record s.state action)

/-- **What every transition keeps, a run keeps**, of a session and its history. -/
theorem after_preserves {P : Session → History → Prop}
    (hstep : ∀ {keys s h action answer s'}, P s h → Transition keys s action answer s' →
      P s' (h.record s.state action)) :
    ∀ (calls : List Call) {s : Session} {h : History}, P s h →
      P (after calls s) (historyAfter calls s h)
  | [], _, _, hP => hP
  | call :: calls, s, _, hP =>
    after_preserves hstep calls (hstep hP (s.step_transition call.keys call.action))

/-- What `note` makes of each step of a run: of the session that the action
met, the action, the answer, and the session behind it. -/
def trace {α : Type} (note : Session → Action → Answer → Session → α) :
    List Call → Session → List α
  | [], _ => []
  | call :: calls, s =>
    note s call.action (s.step call.keys call.action).1 (s.step call.keys call.action).2 ::
      trace note calls (s.step call.keys call.action).2

section Trace

variable {α : Type} (note : Session → Action → Answer → Session → α)

theorem length_trace :
    ∀ (calls : List Call) (s : Session), (trace note calls s).length = calls.length
  | [], _ => rfl
  | call :: calls, s => by
    rw [trace, List.length_cons, length_trace calls, List.length_cons]

theorem trace_append :
    ∀ (front back : List Call) (s : Session),
      trace note (front ++ back) s = trace note front s ++ trace note back (after front s)
  | [], _, _ => rfl
  | call :: front, back, s => by
    have ih := trace_append front back (s.step call.keys call.action).2
    rw [List.cons_append, trace, ih]
    rfl

theorem trace_eq_append {calls : List Call} {s : Session} {before behind : List α}
    (h : trace note calls s = before ++ behind) :
    ∃ front back, calls = front ++ back ∧ trace note front s = before ∧
      trace note back (after front s) = behind := by
  have hle : before.length ≤ calls.length := by
    rw [← length_trace note calls s, h, List.length_append]
    exact Nat.le_add_right _ _
  have hcut := trace_append note (calls.take before.length) (calls.drop before.length) s
  rw [List.take_append_drop, h] at hcut
  have hlen : before.length = (trace note (calls.take before.length) s).length := by
    rw [length_trace, List.length_take, Nat.min_eq_left hle]
  obtain ⟨hbefore, hbehind⟩ := List.append_inj hcut hlen
  exact ⟨_, _, (List.take_append_drop before.length calls).symm, hbefore.symm, hbehind.symm⟩

end Trace

/-! ### What is kept while receiving, and then to the end of the request -/

/-- Something said of a request's path, chain id and intake in view of a
history. -/
abbrev Remark := DerivationPath → ChainId → Intake → History → Prop

/-- `P` holds while the session receives, and `Q` once the transaction is
received. -/
structure Staged (P Q : Remark) (s : Session) (h : History) : Prop where
  receiving : s.state = .receiving → P s.path s.chainId s.intake h
  received : s.isReceived = true → Q s.path s.chainId s.intake h

/-- A session that neither receives nor has received anything is at no stage. -/
theorem staged_of_state {P Q : Remark} {s : Session} (h : History) (hs : s.state ≠ .receiving)
    (hs' : s.isReceived = false) : Staged P Q s h :=
  ⟨fun h => absurd h hs, fun h => by simp [hs'] at h⟩

/-- An opening brings `P` about, a chunk with which the transaction goes on
keeps it, and the last chunk turns it into `Q`. Nothing else touches what
they speak of. -/
structure Invariant (P Q : Remark) : Prop where
  opens : ∀ path chainId, P path chainId {} { opening := some (path, chainId) }
  goesOn : ∀ {path chainId i h data}, P path chainId i h → data ≠ [] →
    (i.fed data).status = .ok .more → P path chainId (i.feed data) (h.add data)
  completes : ∀ {path chainId i h data}, P path chainId i h → data ≠ [] →
    (i.fed data).status = .ok .done → (i.fed data).reader.isEmpty = true →
    Q path chainId ((i.feed data).seal chainId) (h.add data)

variable {P Q : Remark}

theorem Invariant.opened (hinv : Invariant P Q) (s : Session) (path : DerivationPath)
    (chainId : ChainId) :
    Staged P Q (s.opened path chainId) { opening := some (path, chainId) } :=
  ⟨fun _ => hinv.opens path chainId, nofun⟩

theorem Invariant.takes (hinv : Invariant P Q) {s s' : Session} {h : History} {data : Bytes}
    {more : Bool} {answer : Except SessionError Reply} (hst : Staged P Q s h)
    (hs : s.state = .receiving) (hdata : data ≠ []) (ht : s.Takes data more answer s') :
    Staged P Q s' (h.add data) := by
  have hP := hst.receiving hs
  cases ht with
  | malformed | endsEarly | runsOver => exact staged_of_state _ nofun rfl
  | goesOn hmore =>
    refine ⟨fun _ => hinv.goesOn hP hdata hmore, fun hr => ?_⟩
    simp [isReceived, hs] at hr
  | completes hdone _ hempty => exact ⟨nofun, fun _ => hinv.completes hP hdata hdone hempty⟩

/-- **Every transition keeps an invariant of the stages.** -/
theorem Invariant.transition (hinv : Invariant P Q) {keys : KeyStore} {s s' : Session}
    {h : History} {action : Action} {answer : Answer} (hst : Staged P Q s h)
    (ht : Transition keys s action answer s') : Staged P Q s' (h.record s.state action) := by
  cases ht with
  | tells => exact hst
  | derives | derivesNot | denies | resets => exact staged_of_state _ nofun rfl
  | opens => exact hinv.opened s _ _
  | unexpectedChunk hs =>
    rw [History.record, if_neg fun h => hs h.1]
    exact hst
  | emptyChunk hs =>
    rw [History.record, if_neg fun h => h.2 rfl]
    exact hst
  | takes hs hdata h =>
    rw [History.record, if_pos ⟨hs, hdata⟩]
    exact hinv.takes hst hs hdata h
  | signs hs => exact ⟨nofun, fun _ => hst.received (isReceived_iff.mpr (.inl hs))⟩
  | signsNot => exact staged_of_state _ nofun rfl
  | approvesDenied | approvesNothing => exact hst

theorem Invariant.staged_after (hinv : Invariant P Q) (calls : List Call) :
    Staged P Q (after calls {}) (historyAfter calls {} {}) :=
  after_preserves hinv.transition calls (staged_of_state _ nofun rfl)

theorem Invariant.follow (hinv : Invariant P Q) (keys : KeyStore) (actions : List Action) :
    Staged P Q (follow keys actions {} {}).1 (follow keys actions {} {}).2 := by
  rw [follow_eq]
  exact hinv.staged_after (actions.map (Call.mk keys))

end Session
end HardwareSigner
