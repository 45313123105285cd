/-
# What a session was told since its last opening

A `History` is kept beside a session and looks only at the actions and at the
state each of them met: which path and chain id the last opening named, and
which chunks were taken since. It knows nothing of parsing or hashing, so it
says on its own what a signature is a signature of.

Key definitions: `History`, `History.record`, `History.bytes`, `Session.follow`.
Key theorems: `Session.follow_fst`.
-/
import HardwareSigner.Session.Step

namespace HardwareSigner

/-- The path and chain id of the last opening, if there was one, and the
chunks taken since, in order. -/
structure History where
  opening : Option (DerivationPath × ChainId) := none
  chunks : List Bytes := []
  deriving DecidableEq

namespace History

/-- Note an action that a session in this state is about to take: an opening
starts anew, and a chunk counts if it is not empty and the session is
receiving. -/
def record (state : State) (action : Action) (h : History) : History :=
  match action with
  | .handle (.openSigning path chainId) => { opening := some (path, chainId), chunks := [] }
  | .handle (.chunk data _) =>
    if state = .receiving ∧ data ≠ [] then { h with chunks := h.chunks ++ [data] } else h
  | .handle .none | .handle (.getAddress _ _) | .approve | .deny | .reset => h

/-- The transaction's bytes taken so far. -/
def bytes (h : History) : Bytes := h.chunks.flatten

end History

/-- The session and its history after a sequence of actions. -/
def Session.follow (keys : KeyStore) : List Action → Session → History → Session × History
  | [], s, h => (s, h)
  | action :: actions, s, h =>
    follow keys actions (s.step keys action).2 (h.record s.state action)

/-- Keeping a history does not change where a session goes. -/
theorem Session.follow_fst (keys : KeyStore) :
    ∀ (actions : List Action) (s : Session) (h : History),
      (Session.follow keys actions s h).1 = (s.run keys actions).2
  | [], _, _ => rfl
  | action :: actions, s, h =>
    follow_fst keys actions (s.step keys action).2 (h.record s.state action)

end HardwareSigner
