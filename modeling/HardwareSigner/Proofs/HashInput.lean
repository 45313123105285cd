/-
# What is hashed tells the transaction and the chain

A transaction is hashed without its length in front, and the chain id behind
it. That the bytes cannot be cut in two ways is owed to the transaction: its
header, which is always there, announces its length, and only a transaction
that ends just there is ever waiting for the user. So of two such
transactions in front of equal bytes neither is longer
(`append_inj_of_announcedLength`), however each of them was cut into chunks.
From there on everything shown is read back from the same bytes: the header's
fields, and the transfer if both are recognised as one.

Key definitions: `Session.hashInput`.
Key theorems: `append_inj_of_announcedLength`, `ChainId.framed_injective`,
`Session.hash_input_tells_request`.
-/
import HardwareSigner.Proofs.PayloadGrammar
import HardwareSigner.Proofs.ShownTransaction

namespace HardwareSigner

/-! ### Where a transaction ends -/

/-- **A transaction of its announced length ends in one place.** If two of
them stand in front of equal bytes, they are the same, and so is what is
behind them. -/
theorem append_inj_of_announcedLength {u v x y : Bytes} (hu : Header.length ≤ u.length)
    (hv : Header.length ≤ v.length) (hulen : u.length = announcedLength u)
    (hvlen : v.length = announcedLength v) (h : u ++ x = v ++ y) : u = v ∧ x = y := by
  have hlen : u.length = v.length :=
    calc u.length = announcedLength (u ++ x) := by rw [announcedLength_append hu, hulen]
      _ = announcedLength (v ++ y) := by rw [h]
      _ = v.length := by rw [announcedLength_append hv, hvlen]
  exact List.append_inj h hlen

/-! ### Values with equal written forms -/

theorem ChainId.framed_injective {c d : ChainId} (h : c.framed = d.framed) : c = d := by
  have hd : d.framed <+: c.framed := h ▸ List.prefix_rfl
  have hboth := ChainId.accepts_decoder.unique rfl rfl List.prefix_rfl hd
  exact hboth.1

/-- Two intakes with the same transaction show the same header, and the same
transfer if both show one. -/
theorem Intake.Whole.transaction_unique {chunks chunks' : List Bytes} {i i' : Intake}
    (h : i.Whole chunks) (h' : i'.Whole chunks') (heq : chunks.flatten = chunks'.flatten) :
    i.transaction.header = i'.transaction.header ∧
      ∀ t t', i.transaction.kind = .transfer t → i'.transaction.kind = .transfer t' → t = t' := by
  refine ⟨Header.eq_of_prefix h.header (heq ▸ h'.header), ?_⟩
  intro t t' ht ht'
  obtain ⟨-, -, hbs⟩ := (h.transfer_iff t).mp ht
  obtain ⟨-, -, hbs'⟩ := (h'.transfer_iff t').mp ht'
  rw [heq] at hbs
  exact Transfer.eq_of_mem_encodings hbs hbs'

namespace Session

/-! ### Two runs -/

/-- What is hashed for a transaction on a chain: the chain id, behind its
length, is put behind the transaction. -/
def hashInput (transaction : Bytes) (chainId : ChainId) : Bytes :=
  transaction ++ be32 (UInt32.ofNat chainId.bytes.length) ++ chainId.bytes

theorem hashInput_eq_append (transaction : Bytes) (chainId : ChainId) :
    hashInput transaction chainId = transaction ++ chainId.framed := by
  rw [hashInput, ChainId.framed, ChainId.lengthBytes, List.append_assoc]

variable {keys : KeyStore} {actions : List Action} {transaction : Bytes} {chainId : ChainId}
  {tx : Transaction}

theorem Awaits.hash_eq (h : Awaits keys actions transaction chainId tx) :
    (follow keys actions {} {}).1.hash? =
      some (Sha256.digest (hashInput transaction chainId)) := by
  have hreceived : (follow keys actions {} {}).1.isReceived = true :=
    isReceived_iff.mpr (.inl h.state)
  obtain ⟨hopening, hhash⟩ := (invariant_hash.follow keys actions).received hreceived
  obtain ⟨path, hpath⟩ := h.opening
  rw [hpath, Option.some_inj, Prod.mk.injEq] at hopening
  rw [hash?, if_pos hreceived, hhash, h.taken, ← hopening.2, signingHash_eq]
  rfl

/-- **Two requests with one hash input are one request.** Of any two runs that
end waiting for the user, each has its hash taken of its transaction and its
chain. If the two are hashed from equal bytes, the transactions are equal,
byte for byte, and so are the chains, the header's fields that are shown, and
the transfers if both are recognised. -/
theorem hash_input_tells_request {keys₁ keys₂ : KeyStore} {actions₁ actions₂ : List Action}
    {transaction₁ transaction₂ : Bytes} {chainId₁ chainId₂ : ChainId}
    {tx₁ tx₂ : Transaction}
    (h₁ : Awaits keys₁ actions₁ transaction₁ chainId₁ tx₁)
    (h₂ : Awaits keys₂ actions₂ transaction₂ chainId₂ tx₂) :
    (follow keys₁ actions₁ {} {}).1.hash? =
      some (Sha256.digest (hashInput transaction₁ chainId₁)) ∧
    (follow keys₂ actions₂ {} {}).1.hash? =
      some (Sha256.digest (hashInput transaction₂ chainId₂)) ∧
    (hashInput transaction₁ chainId₁ = hashInput transaction₂ chainId₂ →
      transaction₁ = transaction₂ ∧ chainId₁ = chainId₂ ∧ tx₁.header = tx₂.header ∧
        ∀ t₁ t₂, tx₁.kind = .transfer t₁ → tx₂.kind = .transfer t₂ → t₁ = t₂) := by
  refine ⟨h₁.hash_eq, h₂.hash_eq, ?_⟩
  intro heq
  obtain ⟨chunks₁, i₁, hwhole₁, rfl, rfl⟩ := h₁.whole
  obtain ⟨chunks₂, i₂, hwhole₂, rfl, rfl⟩ := h₂.whole
  rw [hashInput_eq_append, hashInput_eq_append] at heq
  have hcut := append_inj_of_announcedLength hwhole₁.after.header_le hwhole₂.after.header_le
    hwhole₁.length_eq hwhole₂.length_eq heq
  obtain ⟨htransaction, hframed⟩ := hcut
  exact ⟨htransaction, ChainId.framed_injective hframed,
    hwhole₁.transaction_unique hwhole₂ htransaction⟩

/-- The run that takes the transfer, is denied, and takes it again with another
key. -/
def takesNineTokensAgain : List Action :=
  takesNineTokens ++
    [.deny, .handle (.openSigning (.account 0) .empty), .handle (.chunk paysNineTokens false)]

/-- The run that fails with a request, opens another one and takes the transfer
in two chunks, the second of one byte. -/
def takesNineTokensCut : List Action :=
  [.handle (.openSigning .empty .empty), .handle (.chunk paysNineTokens true),
    .handle (.openSigning (.account 0) .empty), .handle (.chunk (paysNineTokens.take 78) true),
    .handle (.chunk [] false), .handle (.chunk (paysNineTokens.drop 78) false)]

/-- In one chunk the transfer is shown, in two it is not; the hash input is the
same, and so is what was sent. -/
theorem hash_input_tells_request_cut :
    let cut := paysNineTokens.take 78 ++ paysNineTokens.drop 78
    let shown : Transaction :=
      { header := { contract := tokenContract }, kind := .transfer nineTokens }
    let blind : Transaction := { shown with kind := .blind (some .amount) }
    Awaits echoKeys takesNineTokens paysNineTokens .empty shown ∧
      Awaits echoKeys takesNineTokensCut cut .empty blind ∧
      Awaits echoKeys takesNineTokensAgain paysNineTokens .empty shown ∧
      hashInput paysNineTokens .empty = hashInput cut .empty ∧ paysNineTokens = cut ∧
      ∀ t, shown.kind = .transfer t → nineTokens = t := by
  intro cut shown blind
  have hshown : Awaits echoKeys takesNineTokens paysNineTokens .empty shown :=
    ⟨by decide, by decide, ⟨_, rfl⟩, by decide⟩
  have hblind : Awaits echoKeys takesNineTokensCut cut .empty blind :=
    ⟨by decide, by decide, ⟨_, rfl⟩, by decide⟩
  have hagain : Awaits echoKeys takesNineTokensAgain paysNineTokens .empty shown :=
    ⟨by decide, by decide, ⟨_, rfl⟩, by decide⟩
  have hinput : hashInput paysNineTokens .empty = hashInput cut .empty := by decide
  obtain ⟨-, -, hcut⟩ := hash_input_tells_request hshown hblind
  obtain ⟨-, -, hsame⟩ := hash_input_tells_request hshown hagain
  exact ⟨hshown, hblind, hagain, hinput, (hcut hinput).1, fun t ht =>
    (hsame rfl).2.2.2 nineTokens t rfl ht⟩

end Session
end HardwareSigner
