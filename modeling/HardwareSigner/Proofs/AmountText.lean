/-
# The text of an amount tells the amount

An amount is shown as whole tokens and, behind a point, the ten-thousandths
that are left: in four places, without the zeros at the end, and without the
point if they are all zero (`Display.text_amountPieces`). What is left out can
be put back, so the text can be read again (`Display.readAmount_amountText`)
and two amounts never have one text.

Up to the largest amount that is shown at all, the text takes at most
twenty-four characters (`Display.length_amountText_le`).

Key definitions: `Display.shownPlaces`, `Display.amountText`,
`Display.readAmount`.
Key theorems: `Display.text_amountPieces`, `Display.readAmount_amountText`,
`Display.length_amountText_le`.
-/
import HardwareSigner.Display.Field

namespace HardwareSigner
namespace Display

/-! ### Zeros at the end -/

theorem dropTrailingZeros_append_replicate (cs : List Char) :
    dropTrailingZeros cs ++ List.replicate (cs.length - (dropTrailingZeros cs).length) '0' =
      cs := by
  have hsplit := List.takeWhile_append_dropWhile (p := (· == '0')) (l := cs.reverse)
  have hzeros : cs.reverse.takeWhile (· == '0') =
      List.replicate (cs.reverse.takeWhile (· == '0')).length '0' := by
    rw [List.eq_replicate_iff]
    refine ⟨rfl, ?_⟩
    intro c hc
    have hall := List.all_takeWhile (p := (· == '0')) (l := cs.reverse)
    rw [List.all_eq_true] at hall
    exact beq_iff_eq.mp (hall c hc)
  have hlen := congrArg List.length hsplit
  rw [List.length_append, List.length_reverse] at hlen
  have hcount : cs.length - (dropTrailingZeros cs).length =
      (cs.reverse.takeWhile (· == '0')).length := by
    rw [dropTrailingZeros, List.length_reverse]
    omega
  rw [hcount, dropTrailingZeros]
  have hback := congrArg List.reverse hsplit
  rw [List.reverse_append, List.reverse_reverse, hzeros, List.reverse_replicate] at hback
  exact hback

theorem getLast?_dropTrailingZeros (cs : List Char) :
    (dropTrailingZeros cs).getLast? ≠ some '0' := by
  intro hlast
  have hfirst := List.head?_dropWhile_not (· == '0') cs.reverse
  rw [dropTrailingZeros, List.getLast?_reverse] at hlast
  rw [hlast] at hfirst
  exact absurd hfirst (by decide)

/-- Zeros are dropped from the end of the last part, if not all of it is
zeros. -/
theorem dropTrailingZeros_append {cs ds : List Char} (h : dropTrailingZeros ds ≠ []) :
    dropTrailingZeros (cs ++ ds) = cs ++ dropTrailingZeros ds := by
  have hne : (ds.reverse.dropWhile (· == '0')).isEmpty = false := by
    rw [List.isEmpty_eq_false_iff]
    intro hnil
    rw [dropTrailingZeros, hnil] at h
    exact h rfl
  simp only [dropTrailingZeros, List.reverse_append, List.dropWhile_append, hne,
    Bool.false_eq_true, if_false, List.reverse_append, List.reverse_reverse]

/-! ### Digits -/

theorem isDigit_of_mem_decimal {n : Nat} {c : Char} (h : c ∈ decimal n) : c.isDigit = true :=
  Nat.isDigit_of_mem_toDigits (by decide) (by decide) h

theorem dropTrailingZeros_decimal_ne_nil {n : Nat} (hn : n ≠ 0) :
    dropTrailingZeros (decimal n) ≠ [] := by
  intro hnil
  have hzeros := dropTrailingZeros_append_replicate (decimal n)
  rw [hnil, List.nil_append] at hzeros
  have hvalue : Nat.ofDigitChars 10 (decimal n) 0 = n := Nat.ofDigitChars_ten_toDigits
  rw [← hzeros, Nat.ofDigitChars_replicate_zero, Nat.mul_zero] at hvalue
  exact hn hvalue.symm

/-- Ten-thousandths in four places, with zeros in front. -/
def places (units : Nat) : List Char :=
  List.replicate (4 - (decimal units).length) '0' ++ decimal units

theorem length_places {units : Nat} (h : units < tokenScale) : (places units).length = 4 := by
  have hle : (decimal units).length ≤ 4 :=
    (Nat.length_toDigits_le_iff (by decide) (by decide)).mpr h
  rw [places, List.length_append, List.length_replicate]
  omega

theorem isDigit_of_mem_places {units : Nat} {c : Char} (h : c ∈ places units) :
    c.isDigit = true := by
  rcases List.mem_append.mp h with hzero | hdigit
  · rw [List.eq_of_mem_replicate hzero]
    rfl
  · exact isDigit_of_mem_decimal hdigit

theorem ofDigitChars_places (units : Nat) : Nat.ofDigitChars 10 (places units) 0 = units := by
  rw [places, Nat.ofDigitChars_append, Nat.ofDigitChars_replicate_zero, Nat.mul_zero]
  exact Nat.ofDigitChars_ten_toDigits

/-- The places that are shown: all up to the last that is not zero. -/
def shownPlaces (units : Nat) : List Char := dropTrailingZeros (places units)

/-- Unless there is nothing to show, the zeros in front stay. -/
theorem shownPlaces_of_ne {units : Nat} (h : units ≠ 0) :
    shownPlaces units =
      List.replicate (4 - (decimal units).length) '0' ++ dropTrailingZeros (decimal units) :=
  dropTrailingZeros_append (dropTrailingZeros_decimal_ne_nil h)

theorem shownPlaces_append {units : Nat} (h : units < tokenScale) :
    shownPlaces units ++ List.replicate (4 - (shownPlaces units).length) '0' = places units := by
  have hback := dropTrailingZeros_append_replicate (places units)
  rw [length_places h] at hback
  exact hback

theorem length_shownPlaces_le {units : Nat} (h : units < tokenScale) :
    (shownPlaces units).length ≤ 4 := by
  have hlen := congrArg List.length (shownPlaces_append h)
  rw [List.length_append, length_places h] at hlen
  omega

theorem isDigit_of_mem_shownPlaces {units : Nat} (h : units < tokenScale) {c : Char}
    (hc : c ∈ shownPlaces units) : c.isDigit = true := by
  apply isDigit_of_mem_places
  rw [← shownPlaces_append h]
  exact List.mem_append_left _ hc

theorem ofDigitChars_decimal_append (tokens : Nat) {four : List Char} (h : four.length = 4) :
    Nat.ofDigitChars 10 (decimal tokens ++ four) 0 =
      tokenScale * tokens + Nat.ofDigitChars 10 four 0 := by
  have hvalue : Nat.ofDigitChars 10 (decimal tokens) 0 = tokens := Nat.ofDigitChars_ten_toDigits
  rw [Nat.ofDigitChars_append, hvalue, Nat.ofDigitChars_eq_ofDigitChars_zero, h]
  rfl

/-- Whole tokens, the places that are shown and zeros for the others spell the
amount. -/
theorem ofDigitChars_tokens_append_places (amount : Nat) :
    Nat.ofDigitChars 10 (decimal (amount / tokenScale) ++ (shownPlaces (amount % tokenScale) ++
      List.replicate (4 - (shownPlaces (amount % tokenScale)).length) '0')) 0 = amount := by
  have hlt : amount % tokenScale < tokenScale := Nat.mod_lt _ (by decide)
  calc Nat.ofDigitChars 10 (decimal (amount / tokenScale) ++ (shownPlaces (amount % tokenScale) ++
        List.replicate (4 - (shownPlaces (amount % tokenScale)).length) '0')) 0
      = Nat.ofDigitChars 10 (decimal (amount / tokenScale) ++ places (amount % tokenScale)) 0 := by
        rw [shownPlaces_append hlt]
    _ = tokenScale * (amount / tokenScale) + amount % tokenScale := by
        rw [ofDigitChars_decimal_append _ (length_places hlt), ofDigitChars_places]
    _ = amount := Nat.div_add_mod amount tokenScale

/-! ### The text of an amount -/

/-- An amount as it is shown: whole tokens, and behind a point the four places
of what is left, without the zeros at their end; then the unit. -/
def amountText (amount : Nat) : List Char :=
  decimal (amount / tokenScale) ++
    (if amount % tokenScale = 0 then [] else '.' :: shownPlaces (amount % tokenScale)) ++
    " MPC".toList

theorem text_amountPieces (amount : Nat) :
    (amountPieces amount).flatMap Piece.text = amountText amount := by
  have hfraction : (fraction (amount % tokenScale)).flatMap Piece.text =
      if amount % tokenScale = 0 then [] else '.' :: shownPlaces (amount % tokenScale) := by
    unfold fraction
    by_cases hzero : amount % tokenScale = 0
    · rw [if_pos hzero, if_pos hzero, List.flatMap_nil]
    · rw [if_neg hzero, if_neg hzero, shownPlaces_of_ne hzero]
      simp [checked, unchecked]
  unfold amountPieces amountText
  rw [List.flatMap_append, List.flatMap_cons, hfraction]
  simp [checked]

example : amountText 1001000 = "100.1 MPC".toList := by decide

theorem amountText_ne_unfitText (amount : Nat) :
    String.ofList (amountText amount) ≠ Line.unfitText := by
  intro h
  have hmem : ' ' ∈ amountText amount := by simp [amountText]
  have hlist := congrArg String.toList h
  rw [String.toList_ofList] at hlist
  rw [hlist] at hmem
  exact absurd hmem (by decide)

/-! ### Reading it back -/

/-- Digits end where something else follows. -/
theorem takeWhile_isDigit_append {digits rest : List Char}
    (hdigits : ∀ c ∈ digits, c.isDigit = true) (hrest : rest.takeWhile Char.isDigit = []) :
    (digits ++ rest).takeWhile Char.isDigit = digits := by
  rw [List.takeWhile_append_of_pos hdigits, hrest, List.append_nil]

/-- The amount that a text spells: the digits in front, and the four places
behind the character after them, of which zeros at the end may be missing. -/
def readAmount (text : List Char) : Nat :=
  let tokens := text.takeWhile Char.isDigit
  let shown := (text.drop (tokens.length + 1)).takeWhile Char.isDigit
  Nat.ofDigitChars 10 (tokens ++ (shown ++ List.replicate (4 - shown.length) '0')) 0

/-- What is read where the digits in front, the places and the rest are told
apart. -/
theorem readAmount_of_digits {tokens shown rest : List Char} {point : Char}
    (htokens : ∀ c ∈ tokens, c.isDigit = true) (hshown : ∀ c ∈ shown, c.isDigit = true)
    (hpoint : point.isDigit = false) (hrest : rest.takeWhile Char.isDigit = []) :
    readAmount (tokens ++ point :: (shown ++ rest)) =
      Nat.ofDigitChars 10 (tokens ++ (shown ++ List.replicate (4 - shown.length) '0')) 0 := by
  have hfront : (tokens ++ point :: (shown ++ rest)).takeWhile Char.isDigit = tokens :=
    takeWhile_isDigit_append htokens (List.takeWhile_cons_of_neg (by simp [hpoint]))
  have hback : (tokens ++ point :: (shown ++ rest)).drop (tokens.length + 1) = shown ++ rest := by
    rw [← List.drop_drop, List.drop_left]
    rfl
  have hplaces : (shown ++ rest).takeWhile Char.isDigit = shown :=
    takeWhile_isDigit_append hshown hrest
  unfold readAmount
  simp only [hfront, hback, hplaces]

/-- **The text of an amount tells the amount.** -/
theorem readAmount_amountText (amount : Nat) : readAmount (amountText amount) = amount := by
  have hlt : amount % tokenScale < tokenScale := Nat.mod_lt _ (by decide)
  have htokens : ∀ c ∈ decimal (amount / tokenScale), c.isDigit = true :=
    fun c hc => isDigit_of_mem_decimal hc
  have hshown : ∀ c ∈ shownPlaces (amount % tokenScale), c.isDigit = true :=
    fun c hc => isDigit_of_mem_shownPlaces hlt hc
  calc readAmount (amountText amount)
      = Nat.ofDigitChars 10 (decimal (amount / tokenScale) ++ (shownPlaces (amount % tokenScale) ++
          List.replicate (4 - (shownPlaces (amount % tokenScale)).length) '0')) 0 := by
        unfold amountText
        by_cases hzero : amount % tokenScale = 0
        · -- The unit follows at once, and none of the four places is shown.
          have hnone : shownPlaces 0 = [] := rfl
          have hspace : ' '.isDigit = false := rfl
          have hunit : "MPC".toList.takeWhile Char.isDigit = [] := rfl
          have h := readAmount_of_digits htokens hshown hspace hunit
          rw [hzero, hnone, List.nil_append] at h
          rw [hzero, hnone, if_pos rfl, List.append_nil]
          exact h
        · have hpoint : '.'.isDigit = false := rfl
          have hunit : " MPC".toList.takeWhile Char.isDigit = [] := rfl
          rw [if_neg hzero, List.append_assoc, List.cons_append]
          exact readAmount_of_digits htokens hshown hpoint hunit
    _ = amount := ofDigitChars_tokens_append_places amount

/-! ### On a line -/

theorem length_decimal_tokens_le {amount : Nat} (h : amount ≤ maxAmount) :
    (decimal (amount / tokenScale)).length ≤ 15 := by
  have hmax : amount ≤ 9223372036854775807 := h
  refine (Nat.length_toDigits_le_iff (by decide) (by decide)).mpr ?_
  show amount / 10000 < 1000000000000000
  omega

theorem length_amountText_le {amount : Nat} (h : amount ≤ maxAmount) :
    (amountText amount).length ≤ 24 := by
  have htokens := length_decimal_tokens_le h
  have hlt : amount % tokenScale < tokenScale := Nat.mod_lt _ (by decide)
  have hplaces := length_shownPlaces_le hlt
  have hunit : " MPC".toList.length = 4 := rfl
  unfold amountText
  rw [List.length_append, List.length_append, hunit]
  by_cases hzero : amount % tokenScale = 0
  · rw [if_pos hzero, List.length_nil]
    omega
  · rw [if_neg hzero, List.length_cons]
    omega

theorem tokenAmount_eq_unfit {amount : UInt64} (h : maxAmount < amount.toNat) (capacity : Nat) :
    tokenAmount amount capacity = .unfit :=
  if_neg (Nat.not_le_of_lt h)

end Display
end HardwareSigner
