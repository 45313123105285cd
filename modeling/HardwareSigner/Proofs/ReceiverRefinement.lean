/-
# A session receives as a receiver with one buffer does

A session never sees the whole transaction: it counts what the parser has
passed, and looks at what a chunk leaves over only when the parser is done. A
`Receiver` keeps the transaction in one buffer and decides by its length.
Chunk by chunk the two answer alike and stand alike (`Session.Mirrors`), so
behind an opening they cannot be told apart, whatever chunks come and in
whatever state the opening met the session.

Key definitions: `Session.transcript`, `Receiver.transcript`,
`Session.Mirrors`.
Key theorems: `Session.Mirrors.takes`, `Session.Mirrors.transition`,
`Session.transcript_eq_receiver`.
-/
import HardwareSigner.Proofs.Reception

namespace HardwareSigner

/-- What a session answers to each of some actions, and where it stands then. -/
def Session.transcript (keys : KeyStore) : List Action → Session → List (Answer × State)
  | [], _ => []
  | action :: actions, s =>
    ((s.step keys action).1, (s.step keys action).2.state) ::
      transcript keys actions (s.step keys action).2

/-- What a receiver answers to each of some chunks, and where it stands then. -/
def Receiver.transcript : List (Bytes × Bool) → Receiver → List (Answer × State)
  | [], _ => []
  | (data, more) :: chunks, r =>
    (some (r.take data more).1, (r.take data more).2.state) ::
      transcript chunks (r.take data more).2

namespace Receiver

variable {buffer data : Bytes}

/-! ### One equation for each way a receiver takes a chunk -/

theorem take_of_short {field : HeaderError} (hdata : data ≠ [])
    (h : HeaderError.ofLength? (buffer ++ data).length = some field) (more : Bool) :
    take data more (receiving buffer) = (.error (.header field), failed) := by
  simp only [take, if_neg hdata, h]

theorem take_of_lt (hdata : data ≠ []) (hle : Header.length ≤ (buffer ++ data).length)
    (hlt : (buffer ++ data).length < announcedLength (buffer ++ data)) (more : Bool) :
    take data more (receiving buffer) =
      if more then (.ok (.state .receiving), receiving (buffer ++ data))
      else (.error .expectedMoreData, failed) := by
  simp only [take, if_neg hdata, HeaderError.ofLength?_eq_none_iff.mpr hle, if_pos hlt]

theorem take_of_ge (hdata : data ≠ []) (hle : Header.length ≤ (buffer ++ data).length)
    (hge : announcedLength (buffer ++ data) ≤ (buffer ++ data).length) (more : Bool) :
    take data more (receiving buffer) =
      if (buffer ++ data).length = announcedLength (buffer ++ data) ∧ more = false then
        (.ok .pending, pending)
      else (.error .expectedLessData, failed) := by
  simp only [take, if_neg hdata, HeaderError.ofLength?_eq_none_iff.mpr hle,
    if_neg (Nat.not_lt.mpr hge)]

end Receiver

namespace Session

variable {keys : KeyStore} {s s' : Session} {r : Receiver} {data : Bytes} {more : Bool}

/-- The session stands where the receiver stands, and while they receive, the
buffer is what came in. -/
inductive Mirrors (s : Session) : Receiver → Prop
  | receiving {chunks : List Bytes} (hs : s.state = .receiving)
    (hi : s.intake.Receives chunks) : Mirrors s (.receiving chunks.flatten)
  | pending (hs : s.state = .pending) : Mirrors s .pending
  | failed (hs : s.state = .failed) : Mirrors s .failed

theorem Mirrors.state (h : s.Mirrors r) : s.state = r.state := by
  cases h with
  | receiving hs | pending hs | failed hs => exact hs

theorem mirrors_opened (s : Session) (path : DerivationPath) (chainId : ChainId) :
    (s.opened path chainId).Mirrors (.receiving []) :=
  @Mirrors.receiving (s.opened path chainId) [] rfl Intake.receives_nil

/-- A chunk that a session takes, the receiver with what came in before takes
alike. -/
theorem Mirrors.takes {chunks : List Bytes} {answer : Except SessionError Reply}
    (hs : s.state = .receiving) (hi : s.intake.Receives chunks) (hdata : data ≠ [])
    (ht : s.Takes data more answer s') :
    answer = ((Receiver.receiving chunks.flatten).take data more).1 ∧
      s'.Mirrors ((Receiver.receiving chunks.flatten).take data more).2 := by
  cases ht with
  | @malformed field h =>
    have hfield : HeaderError.ofLength? (chunks.flatten ++ data).length = some field := by
      rw [hi.status] at h
      split at h
      · rename_i hfield
        cases h
        exact hfield
      · cases h
    rw [Receiver.take_of_short hdata hfield]
    exact ⟨rfl, .failed rfl⟩
  | goesOn h hmore =>
    obtain ⟨hle, hlt⟩ := hi.of_more h
    have hpartial := hi.partial_of_lt hle hlt
    have hflat : chunks.flatten ++ data = (chunks ++ [data]).flatten := by simp
    rw [Receiver.take_of_lt hdata hle hlt, if_pos hmore, hs]
    rw [hflat] at hpartial ⊢
    exact ⟨rfl, .receiving rfl (.inr hpartial)⟩
  | endsEarly h hmore =>
    obtain ⟨hle, hlt⟩ := hi.of_more h
    rw [Receiver.take_of_lt hdata hle hlt, hmore]
    exact ⟨rfl, .failed rfl⟩
  | runsOver h hmore =>
    obtain ⟨hle, hge⟩ := hi.of_done h
    -- Bytes are left over or more are to come, so this is not the end the receiver waits for.
    have hover : ¬((chunks.flatten ++ data).length = announcedLength (chunks.flatten ++ data) ∧
        more = false) := by
      rintro ⟨heq, rfl⟩
      have hempty := (hi.isEmpty_iff hdata hle).mpr (Nat.le_of_eq heq)
      rw [hempty] at hmore
      simp at hmore
    rw [Receiver.take_of_ge hdata hle hge, if_neg hover]
    exact ⟨rfl, .failed rfl⟩
  | completes h hmore hempty =>
    obtain ⟨hle, hge⟩ := hi.of_done h
    have heq := Nat.le_antisymm ((hi.isEmpty_iff hdata hle).mp hempty) hge
    rw [Receiver.take_of_ge hdata hle hge, if_pos ⟨heq, hmore⟩]
    exact ⟨rfl, .pending rfl⟩

/-- **Session and receiver take every chunk alike.** -/
theorem Mirrors.transition {answer : Answer} (h : s.Mirrors r)
    (ht : Transition keys s (.handle (.chunk data more)) answer s') :
    answer = some (r.take data more).1 ∧ s'.Mirrors (r.take data more).2 := by
  cases ht with
  | unexpectedChunk hs =>
    cases h with
    | receiving hs' => exact absurd hs' hs
    | pending hs' => exact ⟨rfl, .pending hs'⟩
    | failed hs' => exact ⟨rfl, .failed hs'⟩
  | emptyChunk hs =>
    cases h with
    | receiving _ hi => exact ⟨rfl, .receiving hs hi⟩
    | pending hs' | failed hs' => simp [hs'] at hs
  | takes hs hdata ht =>
    cases h with
    | receiving _ hi =>
      obtain ⟨hanswer, hmirrors⟩ := Mirrors.takes hs hi hdata ht
      exact ⟨congrArg some hanswer, hmirrors⟩
    | pending hs' | failed hs' => simp [hs'] at hs

theorem Mirrors.transcript (keys : KeyStore) :
    ∀ (chunks : List (Bytes × Bool)) {s : Session} {r : Receiver}, s.Mirrors r →
      s.transcript keys (chunks.map fun c => .handle (.chunk c.1 c.2)) = r.transcript chunks
  | [], _, _, _ => rfl
  | (data, more) :: chunks, s, r, h => by
    obtain ⟨hanswer, hmirrors⟩ := h.transition (s.step_transition keys (.handle (.chunk data more)))
    rw [List.map_cons, Session.transcript, Receiver.transcript, hanswer, hmirrors.state,
      Mirrors.transcript keys chunks hmirrors]

/-- A chunk that is empty or not expected leaves a session as it is. -/
theorem step_chunk_of_refused (hs : s.state ≠ .receiving ∨ data = []) :
    (s.step keys (.handle (.chunk data more))).2 = s := by
  obtain ⟨answer, s', hstep⟩ :
      ∃ answer s', s.step keys (.handle (.chunk data more)) = (answer, s') := ⟨_, _, rfl⟩
  rw [hstep]
  cases transition_of_step hstep with
  | unexpectedChunk | emptyChunk => rfl
  | takes hs' hdata => exact absurd hs (not_or.mpr ⟨fun h => h hs', hdata⟩)

/-- **Behind an opening a session is a receiver.** Whatever the session, the
opening and the chunks after it, the answers and states are those of the
receiver that keeps one buffer and decides by its length; a chunk that is
empty or not expected changes nothing at all. -/
theorem transcript_eq_receiver (keys : KeyStore) (s : Session) (path : DerivationPath)
    (chainId : ChainId) (chunks : List (Bytes × Bool)) :
    s.transcript keys (.handle (.openSigning path chainId) ::
        chunks.map fun c => .handle (.chunk c.1 c.2)) =
      (some (.ok (.state .receiving)), .receiving) ::
        Receiver.transcript chunks (.receiving []) ∧
    ∀ (t : Session) (data : Bytes) (more : Bool), t.state ≠ .receiving ∨ data = [] →
      (t.step keys (.handle (.chunk data more))).2 = t := by
  refine ⟨?_, fun t data more => step_chunk_of_refused⟩
  rw [Session.transcript, ← Mirrors.transcript keys chunks (s.mirrors_opened path chainId)]
  rfl

/-- An empty chunk, a header without a call, and one chunk more. -/
def headerBetween : List (Bytes × Bool) :=
  [([], true), (List.replicate Header.length 0, false), ([1], false)]

theorem transcript_eq_receiver_headerBetween :
    Session.transcript echoKeys (.handle (.openSigning .empty .empty) ::
        headerBetween.map fun c => .handle (.chunk c.1 c.2)) {} =
      [(some (.ok (.state .receiving)), .receiving),
        (some (.error .invalidLength), .receiving),
        (some (.ok .pending), .pending),
        (some (.error .unexpectedRequest), .pending)] ∧
    (Session.step echoKeys (.handle (.chunk [1] false)) {}).2 = {} := by
  obtain ⟨htranscript, hrefused⟩ :=
    transcript_eq_receiver echoKeys {} .empty .empty headerBetween
  refine ⟨?_, hrefused {} [1] false (.inl (by decide))⟩
  rw [htranscript]
  rfl

end Session
end HardwareSigner
