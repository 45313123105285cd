/-
# The hash binds the chunks and the chain

While a session receives, what it is going to hash is the chunks of its
history, and its path and chain id are those of the last opening
(`Session.Absorbs`); once the transaction is received, the hash is that of
those bytes and that chain (`Session.Hashes`). This is kept however sessions
fail, are refused, abandoned and opened anew (`Session.invariant_hash`).

The history a run leaves is the last opening, and behind it the chunks that
met the session receiving (`Session.follow_history`).

Key definitions: `Session.Absorbs`, `Session.Hashes`, `Session.taken`.
Key theorems: `Session.invariant_hash`, `Session.follow_history`,
`Session.signs_chunks_and_chain`.
-/
import HardwareSigner.Proofs.SessionSteps

namespace HardwareSigner
namespace Session

/-- While receiving, the path and the chain id are those of the opening, and
what is to be hashed is what came in. -/
def Absorbs : Remark := fun path chainId i h =>
  h.opening = some (path, chainId) ∧ i.absorbed = h.bytes

/-- Then the hash is that of what came in, on the opening's chain. -/
def Hashes : Remark := fun path chainId i h =>
  h.opening = some (path, chainId) ∧ i.hash = signingHash h.bytes chainId

/-- A chunk that is taken is hashed behind the ones before it, and behind the
last one comes the chain id. -/
theorem invariant_hash : Invariant Absorbs Hashes where
  opens _ _ := ⟨rfl, rfl⟩
  goesOn := by
    rintro path chainId i h data ⟨hopening, habsorbed⟩ - -
    exact ⟨hopening, by rw [History.bytes_add, ← habsorbed]; rfl⟩
  completes := by
    rintro path chainId i h data ⟨hopening, habsorbed⟩ - - -
    exact ⟨hopening, by rw [History.bytes_add, ← habsorbed]; rfl⟩

/-! ### What a history is -/

/-- The chunks that are taken in a run, in order: those that are not empty
and meet the session receiving. -/
def taken (keys : KeyStore) : List Action → Session → List Bytes
  | [], _ => []
  | .handle (.chunk data more) :: actions, s =>
    let later := taken keys actions (s.step keys (.handle (.chunk data more))).2
    if s.state = .receiving ∧ data ≠ [] then data :: later else later
  | action :: actions, s => taken keys actions (s.step keys action).2

/-- **The history is the last opening and what was taken since.** From an
opening on, until there is another one, it keeps the opening's path and chain
id and just the chunks that are taken. -/
theorem follow_history (keys : KeyStore) :
    ∀ (actions : List Action) (s : Session) (h : History),
      (∀ path chainId, .handle (.openSigning path chainId) ∉ actions) →
      (follow keys actions s h).2 =
        { opening := h.opening, chunks := h.chunks ++ s.taken keys actions }
  | [], s, h, _ => by simp [follow, taken]
  | action :: actions, s, h, hno => by
    have hno' : ∀ path chainId, .handle (.openSigning path chainId) ∉ actions :=
      fun path chainId hmem => hno path chainId (List.mem_cons_of_mem _ hmem)
    rw [follow, follow_history keys actions _ _ hno']
    cases action with
    | handle request =>
      cases request with
      | none | getAddress => rfl
      | openSigning path chainId => exact absurd List.mem_cons_self (hno path chainId)
      | chunk data more =>
        by_cases htaken : s.state = .receiving ∧ data ≠ []
        · simp [History.record, taken, htaken]
        · simp only [History.record, taken, if_neg htaken]
    | approve | deny | reset => rfl

/-! ### What is signed -/

theorem signingHash_eq (transaction : Bytes) (chainId : ChainId) :
    signingHash transaction chainId = Sha256.digest
      (transaction ++ be32 (UInt32.ofNat chainId.bytes.length) ++ chainId.bytes) := by
  unfold signingHash ChainId.framed ChainId.lengthBytes
  rw [← List.append_assoc]

/-- A session that answers an approval with a signature was pending, and the
signature is that of its path and hash. -/
theorem sign_of_approve {keys : KeyStore} {s : Session} {signature : RecoverableSignature}
    (h : (s.step keys .approve).1 = some (.ok (.signature signature))) :
    s.state = .pending ∧ keys.sign s.path s.intake.hash = .ok signature := by
  obtain ⟨s', hstep⟩ : ∃ s', s.step keys .approve = (some (.ok (.signature signature)), s') :=
    ⟨_, Prod.ext h rfl⟩
  cases transition_of_step hstep with
  | signs hs hsign => exact ⟨hs, hsign⟩

/-- **The hash is that of the chunks and the chain.** At every point of every
run where the transaction is received, the hash is the digest of the bytes
taken since the last opening, with that opening's chain id behind its length
at the end; a signature is what the keys give for that opening's path and
this hash. -/
theorem signs_chunks_and_chain (keys : KeyStore) (actions : List Action) :
    let s := (follow keys actions {} {}).1
    let h := (follow keys actions {} {}).2
    (s.state = .pending ∨ s.state = .complete → ∃ path chainId,
      h.opening = some (path, chainId) ∧
      s.hash? = some (Sha256.digest
        (h.bytes ++ be32 (UInt32.ofNat chainId.bytes.length) ++ chainId.bytes))) ∧
    ∀ signature, (s.step keys .approve).1 = some (.ok (.signature signature)) →
      ∃ path chainId, h.opening = some (path, chainId) ∧
        keys.sign path (Sha256.digest
          (h.bytes ++ be32 (UInt32.ofNat chainId.bytes.length) ++ chainId.bytes)) =
            .ok signature := by
  intro s h
  have hst : Staged Absorbs Hashes s h := invariant_hash.follow keys actions
  constructor
  · intro hs
    have hreceived := isReceived_iff.mpr hs
    obtain ⟨hopening, hhash⟩ := hst.received hreceived
    refine ⟨s.path, s.chainId, hopening, ?_⟩
    rw [hash?, if_pos hreceived, hhash, signingHash_eq]
  · intro signature happrove
    obtain ⟨hs, hsign⟩ := sign_of_approve happrove
    obtain ⟨hopening, hhash⟩ := hst.received (isReceived_iff.mpr (.inl hs))
    refine ⟨s.path, s.chainId, hopening, ?_⟩
    rw [← signingHash_eq, ← hhash]
    exact hsign

/-- The run that opens a request, has a chunk refused, takes a header without
a call and waits for the user. -/
def headerOnly : List Action :=
  [.handle (.openSigning (.account 0) .empty), .handle (.chunk [] true),
    .handle (.chunk (List.replicate Header.length 0) false)]

theorem signs_chunks_and_chain_headerOnly :
    let s := (follow echoKeys headerOnly {} {}).1
    let hash := Sha256.digest (List.replicate Header.length 0 ++ be32 0)
    s.state = .pending ∧ s.hash? = some hash ∧
      (s.step echoKeys .approve).1 = some (.ok (.signature ⟨0, hash, hash⟩)) := by
  intro s hash
  have hs : s.state = .pending := by decide
  have happrove : (s.step echoKeys .approve).1 =
      some (.ok (.signature ⟨0, s.intake.hash, s.intake.hash⟩)) := rfl
  obtain ⟨hhash, hsign⟩ := signs_chunks_and_chain echoKeys headerOnly
  obtain ⟨_, _, hopening, hhash⟩ := hhash (.inl hs)
  cases hopening
  obtain ⟨_, _, hopening, hsign⟩ := hsign _ happrove
  cases hopening
  have hsignature : RecoverableSignature.mk 0 hash hash = ⟨0, s.intake.hash, s.intake.hash⟩ :=
    Except.ok.inj hsign
  exact ⟨hs, hhash, by rw [happrove, hsignature]⟩

end Session
end HardwareSigner
