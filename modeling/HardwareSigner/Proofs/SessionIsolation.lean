/-
# Sessions do not leak into each other

A request leaves things behind. Dropping it keeps its path and its chain id,
and one that failed also keeps its parser, its transaction and the bytes that
were to be hashed. None of this residue is used again, and none of it can be
seen: two sessions that stand alike answer every action alike and stay alike,
whatever they hold, as long as they hold the same while a transaction is
received, waits for the user or is signed (`Session.Alike.step`). So they are
never told apart, however long they are watched (`Session.Alike.observe`).

An opening makes any two sessions the same, and whatever drops the
transaction makes them alike, so the past of a session ends there. Only the
chain id that a session can be asked for is older than that: it is the last
opening's, and agrees again from the next opening on.

Key definitions: `Session.View`, `Session.observe`, `Session.Alike`.
Key theorems: `Session.Alike.step`, `Session.Alike.observe`,
`Session.alike_of_drops`, `Session.forgets_the_past`.
-/
import HardwareSigner.Proofs.SessionSteps

namespace HardwareSigner
namespace Session

/-! ### What can be seen -/

/-- What a session shows, its chain id apart: where it stands, and the
transaction and its hash once it is received. -/
structure View where
  state : State
  transaction : Option Transaction
  hash : Option Hash
  deriving DecidableEq

/-- What the session shows, its chain id apart. -/
def view (s : Session) : View := ⟨s.state, s.transaction?, s.hash?⟩

/-- What the session shows, with its chain id. -/
def viewWithChain (s : Session) : View × ChainId := (s.view, s.chainId)

/-- What is answered to each of some actions, and what is then seen of the
session. -/
def observe {α : Type} (look : Session → α) (keys : KeyStore) (actions : List Action) :
    Session → List (Answer × α) :=
  trace (fun _ _ answer s => (answer, look s)) (actions.map (Call.mk keys))

/-! ### Sessions that cannot be told apart -/

/-- The sessions stand alike, and if anything is going on in them, or was
signed, they are the same. -/
inductive Alike : Session → Session → Prop
  | same (s : Session) : Alike s s
  | resting {s t : Session} (hstate : s.state = t.state) (hidle : s.state ≠ .receiving)
    (hreceived : s.isReceived = false) : Alike s t

variable {keys : KeyStore} {s t : Session}

theorem Alike.view_eq (h : Alike s t) : s.view = t.view := by
  cases h with
  | same => rfl
  | resting hstate _ hs =>
    have ht : t.isReceived = false := by
      rw [isReceived, ← hstate]
      exact hs
    simp only [view, transaction?, hash?, hs, ht, hstate, Bool.false_eq_true, if_false]

theorem Alike.of_dropped {state : State} (h : state = .idle ∨ state = .denied)
    (hs : s.state = state) (ht : t.state = state) : Alike s t := by
  apply Alike.resting
  · rw [hs, ht]
  · rw [hs]
    rcases h with rfl | rfl <;> decide
  · rw [isReceived, hs]
    rcases h with rfl | rfl <;> rfl

theorem alike_of_drops (keys : KeyStore) (s t : Session) {action : Action}
    (h : action.drops = true) : (s.step keys action).1 = (t.step keys action).1 ∧
      Alike (s.step keys action).2 (t.step keys action).2 := by
  cases action with
  | handle request =>
    cases request with
    | getAddress path display =>
      simp only [step, handle]
      cases keys.publicKey path with
      | error e => exact ⟨rfl, .of_dropped (.inl rfl) rfl rfl⟩
      | ok key => exact ⟨rfl, .of_dropped (.inl rfl) rfl rfl⟩
    | none | openSigning | chunk => simp [Action.drops] at h
  | deny => exact ⟨rfl, .of_dropped (.inr rfl) rfl rfl⟩
  | reset => exact ⟨rfl, .of_dropped (.inl rfl) rfl rfl⟩
  | approve => simp [Action.drops] at h

/-- **Alike sessions go on alike.** They answer every action alike, and are
alike after it. -/
theorem Alike.step (h : Alike s t) (keys : KeyStore) (action : Action) :
    (s.step keys action).1 = (t.step keys action).1 ∧
      Alike (s.step keys action).2 (t.step keys action).2 := by
  cases h with
  | same => exact ⟨rfl, .same _⟩
  | resting hstate hs hreceived =>
    have ht : t.state ≠ .receiving := hstate ▸ hs
    have hrest : Alike s t := .resting hstate hs hreceived
    cases action with
    | handle request =>
      cases request with
      | none =>
        refine ⟨?_, hrest⟩
        simp only [Session.step, handle, hstate]
      | getAddress path display => exact alike_of_drops keys s t rfl
      | openSigning path chainId => exact ⟨rfl, .same (s.opened path chainId)⟩
      | chunk data more =>
        rw [step_chunk_of_ne_receiving keys hs, step_chunk_of_ne_receiving keys ht]
        exact ⟨rfl, hrest⟩
    | approve =>
      have hs' : s.state ≠ .pending := by
        intro hpending
        simp [isReceived, hpending] at hreceived
      have ht' : t.state ≠ .pending := hstate ▸ hs'
      rw [step_approve_of_ne_pending keys hs', step_approve_of_ne_pending keys ht', hstate]
      exact ⟨rfl, hrest⟩
    | deny | reset => exact alike_of_drops keys s t rfl

/-- **Alike sessions are never told apart**: whatever follows, the answers and
what is seen are the same at every step. -/
theorem Alike.observe (keys : KeyStore) :
    ∀ (actions : List Action) {s t : Session}, Alike s t →
      s.observe view keys actions = t.observe view keys actions
  | [], _, _, _ => rfl
  | action :: actions, _, _, h => by
    obtain ⟨hanswer, hafter⟩ := h.step keys action
    have ih := Alike.observe keys actions hafter
    simp only [Session.observe, List.map_cons, trace] at ih ⊢
    rw [hanswer, hafter.view_eq, ih]

/-! ### The past ends at an opening, and where the transaction is dropped -/

/-- **A session forgets its past.** Take any two sessions. Behind the same
opening all that is answered and seen of them, chain ids included, is the same
for ever. Behind the same action that drops the transaction all but the chain
ids is the same for ever, and from the next opening on they are too. -/
theorem forgets_the_past (keys : KeyStore) (s t : Session) (actions : List Action) :
    (∀ path chainId,
      s.observe viewWithChain keys (.handle (.openSigning path chainId) :: actions) =
        t.observe viewWithChain keys (.handle (.openSigning path chainId) :: actions)) ∧
    ∀ action, action.drops = true →
      s.observe view keys (action :: actions) = t.observe view keys (action :: actions) ∧
      ∀ before path chainId later,
        actions = before ++ .handle (.openSigning path chainId) :: later →
        (s.observe viewWithChain keys (action :: actions)).drop (before.length + 1) =
          (t.observe viewWithChain keys (action :: actions)).drop (before.length + 1) := by
  -- An opening sets every field, so what it leaves does not depend on the session.
  have hopens : ∀ (s t : Session) path chainId later,
      s.observe viewWithChain keys (.handle (.openSigning path chainId) :: later) =
        t.observe viewWithChain keys (.handle (.openSigning path chainId) :: later) :=
    fun s t path chainId later => rfl
  refine ⟨fun path chainId => hopens s t path chainId actions, ?_⟩
  intro action hdrops
  constructor
  · obtain ⟨hanswer, hafter⟩ := alike_of_drops keys s t hdrops
    have hlater := hafter.observe keys actions
    simp only [observe, List.map_cons, trace] at hlater ⊢
    rw [hanswer, hafter.view_eq, hlater]
  · intro before path chainId later hactions
    have hsplit : action :: actions =
        (action :: before) ++ .handle (.openSigning path chainId) :: later := by
      rw [hactions, List.cons_append]
    have hlater : ∀ u : Session,
        (u.observe viewWithChain keys (action :: actions)).drop (before.length + 1) =
          (run keys (action :: before) u).2.observe viewWithChain keys
            (.handle (.openSigning path chainId) :: later) := by
      intro u
      rw [hsplit, observe, List.map_append, trace_append, after_map]
      apply List.drop_left'
      rw [length_trace, List.length_map, List.length_cons]
    rw [hlater s, hlater t]
    exact hopens _ _ path chainId later

/-- The run that opens a request on a chain with a name and fails on a chunk
too short for a header. -/
def failsOnShortChunk : List Action :=
  [.handle (.openSigning (.account 0) ⟨[1], by decide⟩), .handle (.chunk [7] false)]

theorem forgets_the_past_failed :
    let failed := (run echoKeys failsOnShortChunk {}).2
    let fresh : Session := {}
    let later := [.approve, .handle (.openSigning .empty .empty), .handle (.chunk [] true)]
    failed.deny ≠ fresh.deny ∧ Action.deny.drops = true ∧
      failed.observe view echoKeys (.deny :: later) =
        fresh.observe view echoKeys (.deny :: later) ∧
      (failed.observe viewWithChain echoKeys (.deny :: later)).drop 2 =
        (fresh.observe viewWithChain echoKeys (.deny :: later)).drop 2 := by
  intro failed fresh later
  obtain ⟨-, hdrops⟩ := forgets_the_past echoKeys failed fresh later
  obtain ⟨hview, hchain⟩ := hdrops .deny rfl
  refine ⟨by decide, rfl, hview, ?_⟩
  exact hchain [.approve] .empty .empty [.handle (.chunk [] true)] rfl

end Session
end HardwareSigner
