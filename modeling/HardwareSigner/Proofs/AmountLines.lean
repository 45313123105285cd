/-
# An amount on a line of any width

An amount is written in up to five pieces: whole tokens, a point, the zeros
behind it, the other places, the unit. All but the zeros are asked first whether
they fit. So an amount is shown whole, or its line is given up, unless the line
ends among the zeros (`Display.ZerosCut`): these are written over its end, and
nothing is shown at all (`Display.tokenAmount_eq`). It happens on lines of at
most eighteen bytes only (`Display.zerosEnd_le`).

The text in front of the unit is a decimal numeral. Read as an exact number, it is
the amount in tokens (`Display.decimalValue?_amountNumeral`).

Key definitions: `Display.amountNumeral`, `Display.decimalValue?`,
`Display.ZerosCut`, `Display.ShownWhole`.
Key theorems: `Line.layOut_around`, `Display.tokenAmount_eq`,
`Display.decimalValue?_amountNumeral`, `Display.amounts_are_shown_exactly`,
`Display.shownWhole_iff`.
-/
import HardwareSigner.Proofs.PrintableText

namespace HardwareSigner

/-! ### The piece that does not fit -/

namespace Line

/-- Checked pieces are written if they fit together, and what follows then goes
on behind them; if not, the line is given up. -/
theorem layOutAfter_append {capacity : Nat} : ∀ (written : List Char) (front back : List Piece),
    (∀ p ∈ front, p.checked = true) → written.length ≤ capacity →
    layOutAfter capacity written (front ++ back) =
      if written.length + (front.flatMap Piece.text).length ≤ capacity then
        layOutAfter capacity (written ++ front.flatMap Piece.text) back
      else unfit
  | written, [], back, _, hwritten => by
    rw [List.flatMap_nil, List.append_nil, List.length_nil, Nat.add_zero, if_pos hwritten]
    rfl
  | written, p :: front, back, hchecked, hwritten => by
    have hp : p.checked = true := hchecked p List.mem_cons_self
    have hfront : ∀ q ∈ front, q.checked = true :=
      fun q hq => hchecked q (List.mem_cons_of_mem _ hq)
    rw [List.cons_append, layOutAfter, List.flatMap_cons, List.length_append]
    by_cases hfits : written.length + p.text.length ≤ capacity
    · have hlen : (written ++ p.text).length = written.length + p.text.length :=
        List.length_append
      rw [if_pos hfits, layOutAfter_append _ front back hfront (hlen ▸ hfits), hlen,
        List.append_assoc, Nat.add_assoc]
    · rw [if_neg hfits, if_pos hp, if_neg (by omega)]

theorem layOut_of_checked (capacity : Nat) (pieces : List Piece)
    (hchecked : ∀ p ∈ pieces, p.checked = true) :
    layOut capacity pieces = if (pieces.flatMap Piece.text).length ≤ capacity then
      text (String.ofList (pieces.flatMap Piece.text)) else unfit := by
  have h := layOutAfter_append [] pieces [] hchecked (Nat.zero_le capacity)
  rw [List.append_nil, List.length_nil, Nat.zero_add, List.nil_append] at h
  exact h

/-- **One unchecked piece among checked ones.** A line that does not hold all of
them is given up, unless it ends within the unchecked piece. -/
theorem layOut_around (capacity : Nat) (front back : List Piece) (cs : List Char)
    (hfront : ∀ p ∈ front, p.checked = true) (hback : ∀ p ∈ back, p.checked = true) :
    layOut capacity (front ++ ⟨cs, false⟩ :: back) =
      if ((front ++ ⟨cs, false⟩ :: back).flatMap Piece.text).length ≤ capacity then
        text (String.ofList ((front ++ ⟨cs, false⟩ :: back).flatMap Piece.text))
      else if (front.flatMap Piece.text).length ≤ capacity ∧
          capacity < (front.flatMap Piece.text).length + cs.length then overrun
      else unfit := by
  unfold layOut
  by_cases hwhole : ((front ++ ⟨cs, false⟩ :: back).flatMap Piece.text).length ≤ capacity
  · rw [if_pos hwhole, layOutAfter_of_fits (by rwa [List.length_nil, Nat.zero_add])]
    rfl
  · rw [if_neg hwhole, layOutAfter_append [] front _ hfront (Nat.zero_le _), List.nil_append,
      List.length_nil, Nat.zero_add, layOutAfter]
    have hlong : capacity < (front.flatMap Piece.text).length +
        (cs.length + (back.flatMap Piece.text).length) := by
      rw [List.flatMap_append, List.flatMap_cons, List.length_append, List.length_append] at hwhole
      exact Nat.lt_of_not_le hwhole
    by_cases hf : (front.flatMap Piece.text).length ≤ capacity
    · rw [if_pos hf]
      by_cases hcs : (front.flatMap Piece.text).length + cs.length ≤ capacity
      -- The line ends behind the unchecked piece, where every piece is checked.
      · have hlen : (front.flatMap Piece.text ++ cs).length =
            (front.flatMap Piece.text).length + cs.length := List.length_append
        have h := layOutAfter_append _ back [] hback (hlen ▸ hcs)
        rw [List.append_nil, hlen, if_neg (by omega)] at h
        rw [if_pos hcs, h, if_neg (by omega)]
      · rw [if_neg hcs, if_neg Bool.false_ne_true, if_pos ⟨hf, Nat.lt_of_not_le hcs⟩]
    · rw [if_neg hf, if_neg (by omega)]

end Line

namespace Display

/-! ### Where an amount is cut -/

/-- Where the zeros behind the point start. -/
def zerosStart (amount : Nat) : Nat := (decimal (amount / tokenScale)).length + 1

/-- Where the zeros behind the point end. -/
def zerosEnd (amount : Nat) : Nat :=
  zerosStart amount + (4 - (decimal (amount % tokenScale)).length)

/-- The amount is shown in places behind a point, and the line ends among the
zeros there: it holds the point, but not all zeros that follow it. -/
def ZerosCut (amount capacity : Nat) : Prop :=
  amount % tokenScale ≠ 0 ∧ zerosStart amount ≤ capacity ∧ capacity < zerosEnd amount

instance (amount capacity : Nat) : Decidable (ZerosCut amount capacity) :=
  inferInstanceAs (Decidable (_ ∧ _ ∧ _))

theorem zerosEnd_le {amount : Nat} (h : amount ≤ maxAmount) : zerosEnd amount ≤ 19 := by
  have htokens := length_decimal_tokens_le h
  have hdigit : 0 < (decimal (amount % tokenScale)).length := Nat.length_toDigits_pos
  unfold zerosEnd zerosStart
  omega

theorem amountPieces_of_ne {amount : Nat} (h : amount % tokenScale ≠ 0) :
    amountPieces amount = [checked (decimal (amount / tokenScale)), checked ['.']] ++
      unchecked (List.replicate (4 - (decimal (amount % tokenScale)).length) '0') ::
        [checked (dropTrailingZeros (decimal (amount % tokenScale))), checked " MPC".toList] := by
  unfold amountPieces fraction
  rw [if_neg h]
  rfl

/-- **What a line shows of an amount.** The whole text if it fits; nothing at all
if the line ends among the zeros behind the point; else the error text. -/
theorem tokenAmount_eq {amount : UInt64} (h : amount.toNat ≤ maxAmount) (capacity : Nat) :
    tokenAmount amount capacity =
      if (amountText amount.toNat).length ≤ capacity then
        .text (String.ofList (amountText amount.toNat))
      else if ZerosCut amount.toNat capacity then .overrun
      else .unfit := by
  unfold tokenAmount
  rw [if_pos h]
  by_cases hzero : amount.toNat % tokenScale = 0
  -- Without places there are no zeros behind the point, and every piece is checked.
  · have hcut : ¬ZerosCut amount.toNat capacity := fun hcut => hcut.1 hzero
    have hchecked : ∀ p ∈ amountPieces amount.toNat, p.checked = true := by
      simp [amountPieces, fraction, hzero, checked]
    rw [Line.layOut_of_checked _ _ hchecked, text_amountPieces, if_neg hcut]
  · have hline := Line.layOut_around capacity
      [checked (decimal (amount.toNat / tokenScale)), checked ['.']]
      [checked (dropTrailingZeros (decimal (amount.toNat % tokenScale))), checked " MPC".toList]
      (List.replicate (4 - (decimal (amount.toNat % tokenScale)).length) '0')
      (by simp [checked]) (by simp [checked])
    have hstart : ([checked (decimal (amount.toNat / tokenScale)), checked ['.']].flatMap
        Piece.text).length = zerosStart amount.toNat := by
      simp [checked, zerosStart]
    have hcut : (zerosStart amount.toNat ≤ capacity ∧ capacity < zerosStart amount.toNat +
        (List.replicate (4 - (decimal (amount.toNat % tokenScale)).length) '0').length) ↔
        ZerosCut amount.toNat capacity := by
      rw [List.length_replicate]
      exact (and_iff_right hzero).symm
    rw [← unchecked, ← amountPieces_of_ne hzero, text_amountPieces, hstart] at hline
    simp only [hcut] at hline
    exact hline

theorem tokenAmount_eq_text {amount : UInt64} {capacity : Nat} (h : amount.toNat ≤ maxAmount)
    (hcapacity : 24 ≤ capacity) :
    tokenAmount amount capacity = .text (String.ofList (amountText amount.toNat)) := by
  rw [tokenAmount_eq h, if_pos (Nat.le_trans (length_amountText_le h) hcapacity)]

/-! ### Printable -/

theorem printable_of_mem_amountText (amount : Nat) : ∀ c ∈ amountText amount, Printable c := by
  have hlt : amount % tokenScale < tokenScale := Nat.mod_lt _ (by decide)
  intro c hc
  unfold amountText at hc
  rcases List.mem_append.mp hc with hnumeral | hunit
  · rcases List.mem_append.mp hnumeral with htokens | hplaces
    · exact printable_of_mem_decimal c htokens
    · by_cases hzero : amount % tokenScale = 0
      · rw [if_pos hzero] at hplaces
        exact absurd hplaces List.not_mem_nil
      · rw [if_neg hzero] at hplaces
        rcases List.mem_cons.mp hplaces with rfl | hshown
        · decide
        · exact printable_of_isDigit (isDigit_of_mem_shownPlaces hlt hshown)
  · exact printable_of_all (by decide) c hunit

theorem tokenAmountIn_eq (amount : UInt64) (buffer : Bytes) :
    tokenAmountIn amount buffer = .line (tokenAmount amount buffer.length) := by
  have hprintable : ∀ p ∈ amountPieces amount.toNat, ∀ c ∈ p.text, Printable c := by
    intro p hp c hc
    apply printable_of_mem_amountText amount.toNat
    rw [← text_amountPieces]
    exact List.mem_flatMap.mpr ⟨p, hp, hc⟩
  unfold tokenAmountIn tokenAmount
  by_cases hmax : amount.toNat ≤ maxAmount
  · rw [if_pos hmax, if_pos hmax, ofPieces_eq buffer hprintable]
  · rw [if_neg hmax, if_neg hmax]

theorem utf8ByteSize_amountText (amount : Nat) :
    (String.ofList (amountText amount)).utf8ByteSize = (amountText amount).length :=
  utf8ByteSize_ofList (printable_of_mem_amountText amount)

/-! ### The numeral in front of the unit -/

/-- An amount in tokens: the whole ones, and behind a point the four places of
what is left, without the zeros at their end. -/
def amountNumeral (amount : Nat) : List Char :=
  decimal (amount / tokenScale) ++
    (if amount % tokenScale = 0 then [] else '.' :: shownPlaces (amount % tokenScale))

/-- The exact number that a decimal numeral spells: digits, or digits, a point and
more digits, each of which is a tenth of the one in front of it. -/
def decimalValue? (cs : List Char) : Option Rat :=
  let tokens := cs.takeWhile Char.isDigit
  match cs.dropWhile Char.isDigit with
  | [] => if tokens = [] then none else some (Nat.ofDigitChars 10 tokens 0 : Rat)
  | point :: places =>
    if point = '.' ∧ tokens ≠ [] ∧ places ≠ [] ∧ places.all Char.isDigit = true then
      some ((Nat.ofDigitChars 10 (tokens ++ places) 0 : Rat) / (Nat.pow 10 places.length : Rat))
    else none

theorem shownPlaces_ne_nil {units : Nat} (h : units ≠ 0) : shownPlaces units ≠ [] := by
  rw [shownPlaces_of_ne h]
  exact List.append_ne_nil_of_right_ne_nil _ (dropTrailingZeros_decimal_ne_nil h)

theorem getLast?_amountNumeral {amount : Nat} (h : amount % tokenScale ≠ 0) :
    (amountNumeral amount).getLast? ≠ some '0' := by
  obtain ⟨d, ds, hshown⟩ := List.exists_cons_of_ne_nil (shownPlaces_ne_nil h)
  have hlast : (amountNumeral amount).getLast? = (shownPlaces (amount % tokenScale)).getLast? := by
    unfold amountNumeral
    rw [if_neg h, hshown, List.getLast?_append, List.getLast?_cons_cons]
    simp [List.getLast?_cons]
  rw [hlast]
  exact getLast?_dropTrailingZeros _

theorem decimalValue?_of_digits {tokens : List Char} (hne : tokens ≠ [])
    (htokens : ∀ c ∈ tokens, c.isDigit = true) :
    decimalValue? tokens = some (Nat.ofDigitChars 10 tokens 0 : Rat) := by
  have hfront : tokens.takeWhile Char.isDigit = tokens := by
    have h : (tokens ++ []).takeWhile Char.isDigit = tokens :=
      takeWhile_isDigit_append htokens List.takeWhile_nil
    rwa [List.append_nil] at h
  have hback : tokens.dropWhile Char.isDigit = [] := by
    have h : (tokens ++ []).dropWhile Char.isDigit = [].dropWhile Char.isDigit :=
      List.dropWhile_append_of_pos htokens
    rwa [List.append_nil, List.dropWhile_nil] at h
  unfold decimalValue?
  simp only [hfront, hback]
  exact if_neg hne

theorem decimalValue?_of_point {tokens places : List Char} (hne : tokens ≠ [])
    (htokens : ∀ c ∈ tokens, c.isDigit = true) (hne' : places ≠ [])
    (hplaces : ∀ c ∈ places, c.isDigit = true) :
    decimalValue? (tokens ++ '.' :: places) =
      some ((Nat.ofDigitChars 10 (tokens ++ places) 0 : Rat) /
        (Nat.pow 10 places.length : Rat)) := by
  have hpoint : ¬Char.isDigit '.' = true := by decide
  have hfront : (tokens ++ '.' :: places).takeWhile Char.isDigit = tokens :=
    takeWhile_isDigit_append htokens (List.takeWhile_cons_of_neg hpoint)
  have hback : (tokens ++ '.' :: places).dropWhile Char.isDigit = '.' :: places := by
    rw [List.dropWhile_append_of_pos htokens, List.dropWhile_cons_of_neg hpoint]
  unfold decimalValue?
  simp only [hfront, hback]
  exact if_pos ⟨trivial, hne, hne', List.all_eq_true.mpr hplaces⟩

/-- The number that digits with `k` of them behind the point spell, in
ten-thousandths: the zeros that are missing behind them make it whole. -/
theorem numeral_mul_tokenScale (digits : Nat) {k : Nat} (h : k ≤ 4) :
    (digits : Rat) / (Nat.pow 10 k : Rat) * (tokenScale : Rat) =
      ((digits * Nat.pow 10 (4 - k) : Nat) : Rat) := by
  have hscale : tokenScale = Nat.pow 10 k * Nat.pow 10 (4 - k) := by
    have hpow := Nat.pow_add 10 k (4 - k)
    rw [Nat.add_sub_cancel' h] at hpow
    exact hpow
  have hne : (Nat.pow 10 k : Rat) ≠ 0 := by
    have hpos : Nat.pow 10 k ≠ 0 := Nat.pos_iff_ne_zero.mp (Nat.pow_pos (by decide))
    exact fun hzero => hpos (Rat.natCast_eq_zero_iff.mp hzero)
  calc (digits : Rat) / (Nat.pow 10 k : Rat) * (tokenScale : Rat)
      = (digits : Rat) / (Nat.pow 10 k : Rat) * (Nat.pow 10 k : Rat) *
          (Nat.pow 10 (4 - k) : Rat) := by rw [hscale, Rat.natCast_mul, Rat.mul_assoc]
    _ = (digits : Rat) * (Nat.pow 10 (4 - k) : Rat) := by rw [Rat.div_mul_cancel hne]
    _ = ((digits * Nat.pow 10 (4 - k) : Nat) : Rat) := (Rat.natCast_mul _ _).symm

/-- **The numeral is the amount in tokens**, as an exact number. -/
theorem decimalValue?_amountNumeral (amount : Nat) : ∃ value,
    decimalValue? (amountNumeral amount) = some value ∧ value * (tokenScale : Rat) = amount := by
  have hlt : amount % tokenScale < tokenScale := Nat.mod_lt _ (by decide)
  have htokens : ∀ c ∈ decimal (amount / tokenScale), c.isDigit = true :=
    fun c hc => isDigit_of_mem_decimal hc
  have hne : decimal (amount / tokenScale) ≠ [] := Nat.toDigits_ne_nil
  unfold amountNumeral
  by_cases hzero : amount % tokenScale = 0
  · rw [if_pos hzero, List.append_nil]
    refine ⟨_, decimalValue?_of_digits hne htokens, ?_⟩
    have hvalue : Nat.ofDigitChars 10 (decimal (amount / tokenScale)) 0 = amount / tokenScale :=
      Nat.ofDigitChars_ten_toDigits
    rw [hvalue, ← Rat.natCast_mul, Nat.div_mul_cancel (Nat.dvd_of_mod_eq_zero hzero)]
  · have hshown : ∀ c ∈ shownPlaces (amount % tokenScale), c.isDigit = true :=
      fun c hc => isDigit_of_mem_shownPlaces hlt hc
    rw [if_neg hzero]
    refine ⟨_, decimalValue?_of_point hne htokens (shownPlaces_ne_nil hzero) hshown, ?_⟩
    -- What is missing behind the shown places are zeros: each makes the digits ten
    -- times as much.
    have hall := ofDigitChars_tokens_append_places amount
    have hle := length_shownPlaces_le hlt
    rw [← List.append_assoc, Nat.ofDigitChars_append, Nat.ofDigitChars_replicate_zero] at hall
    rw [numeral_mul_tokenScale _ hle, Nat.mul_comm]
    exact congrArg Nat.cast hall

/-! ### What is shown of an amount -/

theorem eq_of_tokenAmount_eq_text {amount : UInt64} {capacity : Nat} {s : String}
    (h : tokenAmount amount capacity = .text s) :
    s = String.ofList (amountText amount.toNat) ∧ amount.toNat ≤ maxAmount ∧
      (amountText amount.toNat).length ≤ capacity := by
  by_cases hmax : amount.toNat ≤ maxAmount
  · rw [tokenAmount_eq hmax] at h
    by_cases hfits : (amountText amount.toNat).length ≤ capacity
    · rw [if_pos hfits] at h
      exact ⟨(Line.text.inj h).symm, hmax, hfits⟩
    · rw [if_neg hfits] at h
      by_cases hcut : ZerosCut amount.toNat capacity
      · rw [if_pos hcut] at h
        cases h
      · rw [if_neg hcut] at h
        cases h
  · rw [tokenAmount_eq_unfit (Nat.lt_of_not_le hmax)] at h
    cases h

/-- **Amounts are shown exactly.** Up to the largest, every line that has as many
bytes as the text shows it, and twenty-four bytes are always enough; the text is a
numeral, which is the exact number of tokens, without a zero at the end of its
places, and the unit. So no two amounts are ever shown alike. An amount above the
largest has the error text on every line. What a buffer held before does not
matter. -/
theorem amounts_are_shown_exactly (amount : UInt64) :
    let text := String.ofList (amountText amount.toNat)
    (amount.toNat ≤ maxAmount →
      (∀ capacity, text.utf8ByteSize ≤ capacity → tokenAmount amount capacity = .text text) ∧
      (∀ capacity, 24 ≤ capacity → tokenAmount amount capacity = .text text) ∧
      text.utf8ByteSize ≤ 24 ∧
      text.toList = amountNumeral amount.toNat ++ " MPC".toList ∧
      (amount.toNat % tokenScale ≠ 0 → (amountNumeral amount.toNat).getLast? ≠ some '0') ∧
      ∃ value, decimalValue? (amountNumeral amount.toNat) = some value ∧
        value * (tokenScale : Rat) = amount.toNat) ∧
    (∀ (other : UInt64) (capacity capacity' : Nat) (s : String),
      tokenAmount amount capacity = .text s → tokenAmount other capacity' = .text s →
      amount = other) ∧
    (maxAmount < amount.toNat → ∀ capacity, tokenAmount amount capacity = .unfit ∧
      (tokenAmount amount capacity).shown? = some "ENCODE_ERR") ∧
    ∀ buffer, tokenAmountIn amount buffer = .line (tokenAmount amount buffer.length) := by
  intro text
  have hsize : text.utf8ByteSize = (amountText amount.toNat).length := utf8ByteSize_amountText _
  refine ⟨fun hmax => ⟨fun capacity hfits => ?_, fun capacity hcapacity => ?_, ?_, ?_, ?_, ?_⟩,
    fun other capacity capacity' s hs hs' => ?_, fun hmax capacity => ?_, tokenAmountIn_eq amount⟩
  · rw [hsize] at hfits
    rw [tokenAmount_eq hmax, if_pos hfits]
  · exact tokenAmount_eq_text hmax hcapacity
  · rw [hsize]
    exact length_amountText_le hmax
  · rw [String.toList_ofList]
    rfl
  · exact getLast?_amountNumeral
  · exact decimalValue?_amountNumeral amount.toNat
  · obtain ⟨hwhole, -, -⟩ := eq_of_tokenAmount_eq_text hs
    obtain ⟨hwhole', -, -⟩ := eq_of_tokenAmount_eq_text hs'
    have htext : amountText amount.toNat = amountText other.toNat :=
      String.ofList_inj.mp (hwhole.symm.trans hwhole')
    apply UInt64.toNat_inj.mp
    calc amount.toNat = readAmount (amountText amount.toNat) := (readAmount_amountText _).symm
      _ = readAmount (amountText other.toNat) := by rw [htext]
      _ = other.toNat := readAmount_amountText _
  · have hunfit := tokenAmount_eq_unfit hmax capacity
    rw [hunfit]
    exact ⟨rfl, rfl⟩

example : tokenAmount 1001000 9 = .text "100.1 MPC" := by decide

/-- The line shows the whole text of the amount or is given up, and it is given up
if the text does not fit. -/
structure ShownWhole (amount : UInt64) (capacity : Nat) : Prop where
  whole : tokenAmount amount capacity = .text (String.ofList (amountText amount.toNat)) ∨
    tokenAmount amount capacity = .unfit
  given_up : capacity < (String.ofList (amountText amount.toNat)).utf8ByteSize →
    tokenAmount amount capacity = .unfit

theorem zerosEnd_le_length {amount : Nat} (h : amount % tokenScale ≠ 0) :
    zerosEnd amount ≤ (amountText amount).length := by
  unfold zerosEnd zerosStart amountText
  rw [if_neg h, shownPlaces_of_ne h]
  simp only [List.length_append, List.length_cons, List.length_replicate]
  omega

/-- The end of the line is run over exactly where it cuts the zeros of an amount
that is shown at all. -/
theorem tokenAmount_eq_overrun_iff {amount : UInt64} {capacity : Nat} :
    tokenAmount amount capacity = .overrun ↔
      amount.toNat ≤ maxAmount ∧ ZerosCut amount.toNat capacity := by
  by_cases hmax : amount.toNat ≤ maxAmount
  · rw [tokenAmount_eq hmax, and_iff_right hmax]
    by_cases hfits : (amountText amount.toNat).length ≤ capacity
    · have hcut : ¬ZerosCut amount.toNat capacity := by
        intro hcut
        have hle := zerosEnd_le_length hcut.1
        have hlt := hcut.2.2
        omega
      simp [hfits, hcut]
    · by_cases hcut : ZerosCut amount.toNat capacity <;> simp [hfits, hcut]
  · rw [tokenAmount_eq_unfit (Nat.lt_of_not_le hmax)]
    simp [hmax]

theorem shownWhole_iff_ne_overrun {amount : UInt64} {capacity : Nat} :
    ShownWhole amount capacity ↔ tokenAmount amount capacity ≠ .overrun := by
  constructor
  · rintro ⟨hwhole, -⟩ hover
    rw [hover] at hwhole
    rcases hwhole with h | h <;> cases h
  · intro hover
    cases hline : tokenAmount amount capacity with
    | overrun => exact absurd hline hover
    | unfit => exact ⟨.inr hline, fun _ => hline⟩
    | text s =>
      obtain ⟨rfl, -, hfits⟩ := eq_of_tokenAmount_eq_text hline
      refine ⟨.inl hline, fun hshort => ?_⟩
      rw [utf8ByteSize_amountText] at hshort
      exact absurd hfits (Nat.not_le_of_lt hshort)

/-- **Where an amount is shown whole or not at all.** That is so exactly if it is above
the largest or the line does not end among the zeros behind its point, and on
every line of nineteen bytes or more. Where it is not so, the end of the line is run
over. What is shown, if anything, is the whole text, with the unit at its end,
whatever the buffer held before. -/
theorem shownWhole_iff (amount : UInt64) (capacity : Nat) :
    (ShownWhole amount capacity ↔
      ¬(amount.toNat ≤ maxAmount ∧ ZerosCut amount.toNat capacity)) ∧
    (tokenAmount amount capacity = .overrun ↔
      amount.toNat ≤ maxAmount ∧ ZerosCut amount.toNat capacity) ∧
    (19 ≤ capacity → ShownWhole amount capacity) ∧
    (∀ s, tokenAmount amount capacity = .text s → s = String.ofList (amountText amount.toNat) ∧
      s.utf8ByteSize ≤ capacity ∧ " MPC".toList <:+ s.toList) ∧
    ∀ buffer : Bytes, buffer.length = capacity →
      tokenAmountIn amount buffer = .line (tokenAmount amount capacity) := by
  refine ⟨?_, tokenAmount_eq_overrun_iff, fun hcapacity => ?_, fun s hs => ?_, ?_⟩
  · rw [shownWhole_iff_ne_overrun, Ne, tokenAmount_eq_overrun_iff]
  · rw [shownWhole_iff_ne_overrun, Ne, tokenAmount_eq_overrun_iff]
    rintro ⟨hmax, hcut⟩
    have hend := zerosEnd_le hmax
    have hlt := hcut.2.2
    omega
  · obtain ⟨rfl, -, hfits⟩ := eq_of_tokenAmount_eq_text hs
    have hchars : (String.ofList (amountText amount.toNat)).toList = amountText amount.toNat :=
      String.toList_ofList
    rw [utf8ByteSize_amountText, hchars]
    exact ⟨rfl, hfits, List.suffix_append _ _⟩
  · rintro buffer rfl
    exact tokenAmountIn_eq amount buffer

/-- One ten-thousandth on a line of two bytes: the point fits, and the first zero
behind it runs over the end. -/
theorem smallest_amount_overruns :
    tokenAmount 1 2 = .overrun ∧ (tokenAmount 1 2).shown? = none ∧ ¬ShownWhole 1 2 := by
  have hover : tokenAmount 1 2 = .overrun := by decide
  refine ⟨hover, by rw [hover]; rfl, fun h => ?_⟩
  exact shownWhole_iff_ne_overrun.mp h hover

end Display
end HardwareSigner
