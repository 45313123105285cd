/-
# What is shown is what is signed

The device shows a transaction once it is received: its header's fields, and
the transfer it makes if its call was recognised as one. All of this is read
back from the bytes that were hashed. They are as many as the header
announces, the fields are the first of them, and a transfer is shown exactly
if they came in one chunk, go to the token contract, and the call is written
as that transfer, to the last byte.

Key theorems: `Header.bytes_eq_take`, `Session.shows_what_is_signed`.
-/
import HardwareSigner.Proofs.Reception
import HardwareSigner.Proofs.SigningHash

namespace HardwareSigner

theorem Header.bytes_eq_take {h : Header} {bs : Bytes} (hp : h.bytes <+: bs) :
    bs.take 45 = be64 h.nonce ++ be64 h.validToTime ++ be64 h.gasCost ++ h.contract.bytes := by
  have htake := List.prefix_iff_eq_take.mp hp
  rw [h.length_bytes] at htake
  exact htake.symm

namespace Session

/-- **What is shown is what is signed.** At every point of every run where the
transaction is received, the bytes taken since the last opening are hashed, with
that opening's chain id behind its length at the end. They are as long as they
announce, begin with the fields of the transaction shown, and a transfer is shown
exactly if they came in one chunk, call the token contract, and call it in one of
the transfer's written forms. -/
theorem shows_what_is_signed (keys : KeyStore) (actions : List Action) :
    let s := (follow keys actions {} {}).1
    let h := (follow keys actions {} {}).2
    s.state = .pending ∨ s.state = .complete → ∃ tx path chainId, s.transaction? = some tx ∧
      h.opening = some (path, chainId) ∧ s.chainId = chainId ∧
      s.hash? = some (Sha256.digest
        (h.bytes ++ be32 (UInt32.ofNat chainId.bytes.length) ++ chainId.bytes)) ∧
      h.bytes.length = 49 + ofBigEndian ((h.bytes.drop 45).take 4) ∧
      h.bytes.take 45 = be64 tx.header.nonce ++ be64 tx.header.validToTime ++
        be64 tx.header.gasCost ++ tx.header.contract.bytes ∧
      ∀ t, tx.kind = .transfer t ↔ h.chunks = [h.bytes] ∧ tx.header.contract = tokenContract ∧
        h.bytes.drop 49 ∈ t.encodings := by
  intro s h hs
  have hreceived := isReceived_iff.mpr hs
  obtain ⟨hopening, hhash⟩ := (invariant_hash.follow keys actions).received hreceived
  have hwhole := (invariant_intake.follow keys actions).received hreceived
  refine ⟨s.intake.transaction, s.path, s.chainId, ?_, hopening, rfl, ?_, hwhole.length_eq, ?_,
    hwhole.transfer_iff⟩
  · rw [transaction?, if_pos hreceived]
  · rw [hash?, if_pos hreceived, hhash, signingHash_eq]
  · exact Header.bytes_eq_take hwhole.header

/-- Nine tokens to the account of twenty-one zero bytes. -/
def nineTokens : Transfer := { recipient := .zero, amount := 90000, memo := .none }

/-- The transaction that makes this transfer. -/
def paysNineTokens : Bytes :=
  Header.bytes { contract := tokenContract } ++ be32 30 ++
    Transfer.call .plain nineTokens.recipient nineTokens.amount []

/-- The run that opens a request and takes the transfer in one chunk. -/
def takesNineTokens : List Action :=
  [.handle (.openSigning .empty .empty), .handle (.chunk paysNineTokens false)]

theorem shows_what_is_signed_nineTokens :
    (follow echoKeys takesNineTokens {} {}).1.transaction? =
      some { header := { contract := tokenContract }, kind := .transfer nineTokens } := by
  obtain ⟨tx, _, _, htx, -, -, -, -, -, htransfer⟩ :=
    shows_what_is_signed echoKeys takesNineTokens (.inl (by decide))
  have hheader : ((follow echoKeys takesNineTokens {} {}).1.transaction?.map (·.header)) =
      some { contract := tokenContract } := by decide
  rw [htx, Option.map_some, Option.some_inj] at hheader
  have hkind := (htransfer nineTokens).mpr ⟨by decide, by rw [hheader], by decide⟩
  obtain ⟨header, kind⟩ := tx
  subst hheader hkind
  exact htx

end Session
end HardwareSigner
