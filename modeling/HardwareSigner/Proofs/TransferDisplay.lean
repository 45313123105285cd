/-
# The screen tells a recognised transfer

A transfer that is recognised is signed with its recipient and its amount
behind the shortname (`Transfer.take_of_mem_encodings`), and the user is shown
both. The recipient is always shown, digit by digit, and the amount up to the
largest that the display has a text for. Above it the amount's line shows the
error text, although the transfer is recognised and can be signed: the decoder
takes every amount, and only the display sets a bound.

So the screen tells the recipient, and of the amount as much as it shows: two
transfers look alike exactly if they have one recipient, and one amount or
both an amount above the bound (`Display.recipientAndAmount_eq_iff`).

Key definitions: `Display.recipientAndAmount`, `Transfer.SignedAndShown`.
Key theorems: `Display.shown?_address_eq_iff`,
`Display.shown?_tokenAmount_eq_iff`, `Session.transfers_are_displayed`.
-/
import HardwareSigner.Proofs.AmountLines
import HardwareSigner.Proofs.FieldTexts
import HardwareSigner.Proofs.Reception

namespace HardwareSigner

/-! ### The text of an address -/

theorem Address.text_injective {a b : Address} (h : a.text = b.text) : a = b := by
  apply ByteReader.isField_readAddress.written_injective
  have hbytes := congrArg Hex.decode? h
  unfold Address.text at hbytes
  rw [Hex.decode?_encode, Hex.decode?_encode] at hbytes
  exact Option.some.inj hbytes

namespace Display

theorem address_eq_text (a : Address) {capacity : Nat} (h : addressLength ≤ capacity) :
    address a capacity = .text (String.ofList a.text) := by
  have hfits : a.text.length ≤ capacity := a.length_text ▸ h
  unfold address checked
  rw [Line.layOut_checked, if_pos hfits]

/-- The text of an address is never the one shown where nothing fits: it is
longer. -/
theorem addressText_ne_unfitText (a : Address) : String.ofList a.text ≠ Line.unfitText := by
  intro h
  have hlen := congrArg (fun s => s.toList.length) h
  simp only [String.toList_ofList, a.length_text] at hlen
  exact absurd hlen (by decide)

theorem shown?_address_eq_iff {a b : Address} {capacity capacity' : Nat}
    (h : addressLength ≤ capacity) (h' : addressLength ≤ capacity') :
    (address a capacity).shown? = (address b capacity').shown? ↔ a = b := by
  rw [address_eq_text a h, address_eq_text b h', Line.shown?, Line.shown?, Option.some_inj,
    String.ofList_inj]
  constructor
  · exact Address.text_injective
  · rintro rfl
    rfl

theorem shown?_tokenAmount {amount : UInt64} {capacity : Nat} (h : 24 ≤ capacity) :
    (tokenAmount amount capacity).shown? =
      some (if amount.toNat ≤ maxAmount then String.ofList (amountText amount.toNat)
        else Line.unfitText) := by
  by_cases hamount : amount.toNat ≤ maxAmount
  · rw [tokenAmount_eq_text hamount h, if_pos hamount, Line.shown?]
  · rw [tokenAmount_eq_unfit (Nat.lt_of_not_le hamount), if_neg hamount, Line.shown?]

/-- Lines that are wide enough show the same of two amounts exactly if the
amounts are the same, or neither is shown. -/
theorem shown?_tokenAmount_eq_iff {a b : UInt64} {capacity capacity' : Nat}
    (h : 24 ≤ capacity) (h' : 24 ≤ capacity') :
    (tokenAmount a capacity).shown? = (tokenAmount b capacity').shown? ↔
      a = b ∨ (maxAmount < a.toNat ∧ maxAmount < b.toNat) := by
  rw [shown?_tokenAmount h, shown?_tokenAmount h', Option.some_inj]
  constructor
  · intro htext
    by_cases ha : a.toNat ≤ maxAmount
    · by_cases hb : b.toNat ≤ maxAmount
      · rw [if_pos ha, if_pos hb, String.ofList_inj] at htext
        have hamount := congrArg readAmount htext
        rw [readAmount_amountText, readAmount_amountText] at hamount
        exact .inl (UInt64.toNat_inj.mp hamount)
      · rw [if_pos ha, if_neg hb] at htext
        exact absurd htext (amountText_ne_unfitText _)
    · by_cases hb : b.toNat ≤ maxAmount
      · rw [if_neg ha, if_pos hb] at htext
        exact absurd htext.symm (amountText_ne_unfitText _)
      · exact .inr ⟨Nat.lt_of_not_le ha, Nat.lt_of_not_le hb⟩
  · rintro (rfl | ⟨ha, hb⟩)
    · rfl
    · rw [if_neg (Nat.not_le_of_lt ha), if_neg (Nat.not_le_of_lt hb)]

/-- What the user is shown of a transfer's recipient and of its amount, each
on its line. -/
def recipientAndAmount (t : Transfer) (recipientWidth amountWidth : Nat) :
    Option String × Option String :=
  ((address t.recipient recipientWidth).shown?, (tokenAmount t.amount amountWidth).shown?)

/-- **The screen tells two transfers apart** by their recipients, and by their
amounts if one of them is shown. -/
theorem recipientAndAmount_eq_iff {t t' : Transfer} {m n m' n' : Nat} (hm : addressLength ≤ m)
    (hn : 24 ≤ n) (hm' : addressLength ≤ m') (hn' : 24 ≤ n') :
    recipientAndAmount t m n = recipientAndAmount t' m' n' ↔
      t.recipient = t'.recipient ∧
        (t.amount = t'.amount ∨ (maxAmount < t.amount.toNat ∧ maxAmount < t'.amount.toNat)) := by
  unfold recipientAndAmount
  rw [Prod.mk.injEq, shown?_address_eq_iff hm hm', shown?_tokenAmount_eq_iff hn hn']

end Display

/-! ### A transfer that waits for the user -/

theorem Transaction.isBlind_eq_false_iff {tx : Transaction} :
    tx.isBlind = false ↔ ∃ t, tx.kind = .transfer t := by
  obtain ⟨header, kind⟩ := tx
  cases kind <;> simp [Transaction.isBlind]

/-- Every written form of a transfer has the recipient and the amount behind
the shortname. -/
theorem Transfer.take_of_mem_encodings {t : Transfer} {bs : Bytes} (h : bs ∈ t.encodings) :
    (bs.drop 1).take 29 = t.recipient.bytes ++ be64 t.amount := by
  obtain ⟨form, memo, -, rfl⟩ := Transfer.mem_encodings_iff.mp h
  have hlen : (t.recipient.bytes ++ be64 t.amount).length = 29 := by simp
  rw [Transfer.call, List.cons_append, List.cons_append, List.drop_succ_cons, List.drop_zero]
  exact List.take_left' hlen

/-- The transaction makes the transfer, and lines of these widths show it: the
recipient, and the amount unless it is above the bound. -/
structure Transfer.SignedAndShown (t : Transfer) (transaction : Bytes)
    (recipientWidth amountWidth : Nat) : Prop where
  signed : (transaction.drop 50).take 29 = t.recipient.bytes ++ be64 t.amount
  recipient : Display.address t.recipient recipientWidth = .text (String.ofList t.recipient.text) ∧
    String.ofList t.recipient.text ≠ Line.unfitText
  amount : t.amount.toNat ≤ Display.maxAmount →
    Display.tokenAmount t.amount amountWidth =
        .text (String.ofList (Display.amountText t.amount.toNat)) ∧
      String.ofList (Display.amountText t.amount.toNat) ≠ Line.unfitText
  unshown : Display.maxAmount < t.amount.toNat → Display.tokenAmount t.amount amountWidth = .unfit

namespace Session

variable {keys : KeyStore} {actions : List Action} {transaction : Bytes} {chainId : ChainId}
  {tx : Transaction}

/-- A recognised transfer that waits for the user is the one that will be
signed, and is shown. -/
theorem Awaits.signedAndShown (h : Awaits keys actions transaction chainId tx) {t : Transfer}
    (ht : tx.kind = .transfer t) {m n : Nat} (hm : 64 ≤ m) (hn : 64 ≤ n) :
    t.SignedAndShown transaction m n := by
  obtain ⟨chunks, i, hwhole, rfl, rfl⟩ := h.whole
  obtain ⟨-, -, hcall⟩ := (hwhole.transfer_iff t).mp ht
  have hm' : Display.addressLength ≤ m := Nat.le_trans (by decide) hm
  have hn' : 24 ≤ n := Nat.le_trans (by decide) hn
  constructor
  · rw [← Transfer.take_of_mem_encodings hcall, List.drop_drop]
    rfl
  · exact ⟨Display.address_eq_text _ hm', Display.addressText_ne_unfitText _⟩
  · intro hamount
    exact ⟨Display.tokenAmount_eq_text hamount hn', Display.amountText_ne_unfitText _⟩
  · intro hamount
    exact Display.tokenAmount_eq_unfit hamount n

/-- **Recognised transfers are displayed.** Of any two runs that end waiting
for the user, each with a transaction that need not be signed blind, each has
its transfer's recipient shown, and its amount up to the largest; and what is
shown of the two is the same only if the recipients are, and the amounts are
or are both above the largest. -/
theorem transfers_are_displayed {keys₁ keys₂ : KeyStore} {actions₁ actions₂ : List Action}
    {transaction₁ transaction₂ : Bytes} {chainId₁ chainId₂ : ChainId} {tx₁ tx₂ : Transaction}
    (h₁ : Awaits keys₁ actions₁ transaction₁ chainId₁ tx₁) (hblind₁ : tx₁.isBlind = false)
    (h₂ : Awaits keys₂ actions₂ transaction₂ chainId₂ tx₂) (hblind₂ : tx₂.isBlind = false)
    (m₁ n₁ m₂ n₂ : Nat) (hm₁ : 64 ≤ m₁) (hn₁ : 64 ≤ n₁) (hm₂ : 64 ≤ m₂) (hn₂ : 64 ≤ n₂) :
    ∃ t₁ t₂, tx₁.kind = .transfer t₁ ∧ tx₂.kind = .transfer t₂ ∧
      t₁.SignedAndShown transaction₁ m₁ n₁ ∧ t₂.SignedAndShown transaction₂ m₂ n₂ ∧
      (Display.recipientAndAmount t₁ m₁ n₁ = Display.recipientAndAmount t₂ m₂ n₂ ↔
        t₁.recipient = t₂.recipient ∧ (t₁.amount = t₂.amount ∨
          (Display.maxAmount < t₁.amount.toNat ∧ Display.maxAmount < t₂.amount.toNat))) := by
  obtain ⟨t₁, ht₁⟩ := Transaction.isBlind_eq_false_iff.mp hblind₁
  obtain ⟨t₂, ht₂⟩ := Transaction.isBlind_eq_false_iff.mp hblind₂
  refine ⟨t₁, t₂, ht₁, ht₂, h₁.signedAndShown ht₁ hm₁ hn₁, h₂.signedAndShown ht₂ hm₂ hn₂, ?_⟩
  have haddress : Display.addressLength ≤ 64 := by decide
  have hamount : 24 ≤ 64 := by decide
  exact Display.recipientAndAmount_eq_iff (Nat.le_trans haddress hm₁) (Nat.le_trans hamount hn₁)
    (Nat.le_trans haddress hm₂) (Nat.le_trans hamount hn₂)

/-- The transaction that transfers an amount to the account of twenty-one zero
bytes, as it is sent. -/
def sentAmount (amount : UInt64) : Bytes :=
  Header.bytes { contract := tokenContract } ++ be32 30 ++ Transfer.call .plain .zero amount []

/-- The transaction that transfers an amount, as it is shown. -/
def amountTransaction (amount : UInt64) : Transaction where
  header := { contract := tokenContract }
  kind := .transfer { recipient := .zero, amount, memo := .none }

/-- The run that opens a request and takes the transfer of an amount in one
chunk. -/
def takesAmount (amount : UInt64) : List Action :=
  [.handle (.openSigning .empty .empty), .handle (.chunk (sentAmount amount) false)]

theorem transfers_are_displayed_oneUnit :
    let one := amountTransaction 1
    let largest := amountTransaction 0x7fffffffffffffff
    Awaits echoKeys (takesAmount 1) (sentAmount 1) .empty one ∧ one.isBlind = false ∧
      Awaits echoKeys (takesAmount 0x7fffffffffffffff) (sentAmount 0x7fffffffffffffff) .empty
        largest ∧ largest.isBlind = false ∧
      ∃ t₁ t₂, one.kind = .transfer t₁ ∧ largest.kind = .transfer t₂ ∧
        Display.recipientAndAmount t₁ 64 64 ≠ Display.recipientAndAmount t₂ 64 64 := by
  intro one largest
  have h₁ : Awaits echoKeys (takesAmount 1) (sentAmount 1) .empty one :=
    ⟨by decide, by decide, ⟨_, rfl⟩, by decide⟩
  have h₂ : Awaits echoKeys (takesAmount 0x7fffffffffffffff) (sentAmount 0x7fffffffffffffff)
      .empty largest := ⟨by decide, by decide, ⟨_, rfl⟩, by decide⟩
  have hwidth : 64 ≤ 64 := Nat.le_refl 64
  obtain ⟨t₁, t₂, ht₁, ht₂, -, -, htells⟩ :=
    transfers_are_displayed h₁ rfl h₂ rfl 64 64 64 64 hwidth hwidth hwidth hwidth
  refine ⟨h₁, rfl, h₂, rfl, t₁, t₂, ht₁, ht₂, ?_⟩
  intro hsame
  obtain ⟨-, hamounts⟩ := htells.mp hsame
  cases ht₁
  cases ht₂
  exact absurd hamounts (by decide)

/-- **Large amounts look alike.** Two amounts that differ are both recognised
and both shown as the error text. -/
theorem large_amounts_look_alike :
    let a : UInt64 := 0x8000000000000000
    let b : UInt64 := 0x8000000000000001
    let t : Transfer := { recipient := .zero, amount := a, memo := .none }
    let t' : Transfer := { recipient := .zero, amount := b, memo := .none }
    Awaits echoKeys (takesAmount a) (sentAmount a) .empty (amountTransaction a) ∧
      Awaits echoKeys (takesAmount b) (sentAmount b) .empty (amountTransaction b) ∧
      (amountTransaction a).isBlind = false ∧ (amountTransaction b).isBlind = false ∧
      (amountTransaction a).kind = .transfer t ∧ (amountTransaction b).kind = .transfer t' ∧
      t.amount ≠ t'.amount ∧
      Display.tokenAmount t.amount 64 = .unfit ∧ (Display.tokenAmount t.amount 64).shown? =
        some "ENCODE_ERR" ∧
      Display.recipientAndAmount t 64 64 = Display.recipientAndAmount t' 64 64 := by
  intro a b t t'
  have hunfit : Display.tokenAmount t.amount 64 = .unfit :=
    Display.tokenAmount_eq_unfit (by decide) 64
  have hunfit' : Display.tokenAmount t'.amount 64 = .unfit :=
    Display.tokenAmount_eq_unfit (by decide) 64
  refine ⟨⟨by decide, by decide, ⟨_, rfl⟩, by decide⟩, ⟨by decide, by decide, ⟨_, rfl⟩, by decide⟩,
    rfl, rfl, rfl, rfl, by decide, hunfit, by rw [hunfit]; rfl, ?_⟩
  unfold Display.recipientAndAmount
  rw [hunfit, hunfit']

end Session
end HardwareSigner
