import RouteWire.Proofs.Number.Read
import RouteWire.Proofs.Numeral.Place

/-!
# Numbers out of range

A token may spell a number for which there is no finite word: it rounds to zero though it is not
zero, or it rounds beyond the largest finite word. The first kind reads as a zero with the sign of
the number and the second kind is refused.

`readNumber_of_outOfRange` says so for tokens of fewer than `2 ^ 62` characters, whatever digits
and exponent they spell, under the condition `Numeral.SumFits`. Without it the two kinds are taken
for each other: the place of the leading digit and the exponent are added as 64-bit words, and a
sum that is no such word wraps around to one with the other sign.
-/

set_option autoImplicit false

namespace RouteWire

open Binary64 Numeral

variable {token : String} {cs : List Char} {n : Numeral}

/-- Without its plus sign a token is not longer. -/
theorem Number.length_le_of_withoutPlus (hplus : withoutPlus token.toList = some cs) :
    cs.length ≤ token.length := by
  rw [← String.length_toList]
  rcases withoutPlus_eq hplus with heq | heq
  · rw [heq]
  · rw [heq, List.length_cons]
    exact Nat.le_succ _

/-- The counter never leaves the 64-bit words, since it moves by at most one with each character. -/
theorem wordExponent_count_run {ds : List Char} (h : ds.length < 2 ^ 62) :
    WordExponent (PlaceCounter.run ds).count := by
  have hcount := abs_le.mp (PlaceCounter.abs_count_run_le ds)
  rw [wordExponent_iff]
  omega

/-- Without a nearest word the place of the leading digit decides. -/
theorem readNumber_of_nearest?_eq_none (hplus : withoutPlus token.toList = some cs)
    (hn : Spells cs n) (hlen : token.length < 2 ^ 62) (hnone : n.toDecimal.nearest? = none) :
    readNumber token = if n.SumFits ↔ n.place + n.exponent ≤ 0 then .ok (ofCode n.negative 0)
      else .error (.malformed 0 (.numberOutOfRange token)) := by
  have hshort := (length_digitPart_le cs).trans (Number.length_le_of_withoutPlus hplus)
  have hplace := PlaceCounter.abs_count_run_le (digitPart cs)
  rw [PlaceCounter.count_run (mantissaText_digitPart hn)] at hplace
  -- Fewer than `2 ^ 62` characters keep the place far from the ends of the 64-bit words.
  have hvanishes := vanishes_eq (hplace.trans (by omega))
  rw [readNumber, Number.read_of_spells hplus hn, hnone, hvanishes]
  simp only [decide_eq_true_eq]
  split <;> rfl

/-- How numbers out of range are told apart. The counter of places stays a 64-bit word at every
step; its sum with the exponent decides, and decides rightly exactly if it is a word too. -/
theorem readNumber_of_outOfRange (hplus : withoutPlus token.toList = some cs)
    (hn : Spells cs n) (hlen : token.length < 2 ^ 62) :
    (∀ k, WordExponent (PlaceCounter.run ((digitPart cs).take k)).count) ∧
      (PlaceCounter.run (digitPart cs)).count = n.place ∧
      (Underflows n.toDecimal.value →
        readNumber token =
          if n.SumFits then .ok (ofCode (decide (n.toDecimal.value < 0)) 0)
          else .error (.malformed 0 (.numberOutOfRange token))) ∧
      (Overflows n.toDecimal.value →
        readNumber token =
          if n.SumFits then .error (.malformed 0 (.numberOutOfRange token))
          else .ok (ofCode (decide (n.toDecimal.value < 0)) 0)) := by
  have hmantissa := mantissaText_digitPart hn
  have hshort := (length_digitPart_le cs).trans (Number.length_le_of_withoutPlus hplus)
  have hwhole := hmantissa.isDigit_whole
  have hfraction := hmantissa.isDigit_fraction
  have hnegative (hne : n.toDecimal.value ≠ 0) :
      decide (n.toDecimal.value < 0) = n.negative := by
    rw [Bool.eq_iff_iff, decide_eq_true_iff]
    exact Decimal.value_neg_iff (Decimal.significand_ne_zero hne)
  -- One separates the two kinds, and the sum of place and exponent says on which side they are.
  have hside (hne : n.toDecimal.value ≠ 0) : |n.toDecimal.value| < 1 ↔ n.place + n.exponent ≤ 0 :=
    abs_value_lt_one_iff hwhole hfraction (Decimal.significand_ne_zero hne)
  refine ⟨fun k => ?_, PlaceCounter.count_run hmantissa, fun hsmall => ?_, fun hlarge => ?_⟩
  · have htake := (List.take_prefix k (digitPart cs)).length_le
    exact wordExponent_count_run (by omega)
  · have hle := (hside hsmall.1).mp hsmall.abs_lt_one
    have hnone := Decimal.nearest?_eq_none (.inl hsmall)
    rw [readNumber_of_nearest?_eq_none hplus hn hlen hnone, hnegative hsmall.1]
    simp only [hle, iff_true]
  · have hgt := mt (hside hlarge.ne_zero).mpr (not_lt.mpr hlarge.one_le_abs)
    have hnone := Decimal.nearest?_eq_none (.inr hlarge)
    rw [readNumber_of_nearest?_eq_none hplus hn hlen hnone, hnegative hlarge.ne_zero]
    simp only [hgt, iff_false, ite_not]

/-- A number that is too small, with both signs and a point. -/
theorem readNumber_of_outOfRange_small :
    withoutPlus "-.5E-400".toList = some "-.5E-400".toList ∧
      Spells "-.5E-400".toList ⟨true, [], ['5'], -400⟩ ∧ "-.5E-400".length < 2 ^ 62 ∧
      Underflows (Numeral.mk true [] ['5'] (-400)).toDecimal.value ∧
      readNumber "-.5E-400" = .ok (ofCode true 0) := by
  have hplus : withoutPlus "-.5E-400".toList = some "-.5E-400".toList := by decide
  have hn : Spells "-.5E-400".toList ⟨true, [], ['5'], -400⟩ := spells_iff_scan.mpr rfl
  have hsmall : Underflows (Numeral.mk true [] ['5'] (-400)).toDecimal.value :=
    Decimal.underflows_of_isTiny (by decide) (by decide)
  have hneg : (Numeral.mk true [] ['5'] (-400)).toDecimal.value < 0 :=
    (Decimal.value_neg_iff (by decide)).mpr rfl
  have hread := (readNumber_of_outOfRange hplus hn (by decide)).2.2.1 hsmall
  rw [if_pos (by decide), decide_eq_true hneg] at hread
  exact ⟨hplus, hn, by decide, hsmall, hread⟩

/-- The largest exponent that is a 64-bit word, one place on: the sum wraps around, and a number
that is too large reads as zero. -/
theorem readNumber_wrapped_exponent :
    withoutPlus "1e9223372036854775807".toList = some "1e9223372036854775807".toList ∧
      Spells "1e9223372036854775807".toList ⟨false, ['1'], [], 9223372036854775807⟩ ∧
      "1e9223372036854775807".length < 2 ^ 62 ∧
      Overflows (Numeral.mk false ['1'] [] 9223372036854775807).toDecimal.value ∧
      ¬ SumFits ⟨false, ['1'], [], 9223372036854775807⟩ ∧
      readNumber "1e9223372036854775807" = .ok (ofCode false 0) ∧
      readNumber "1e9223372036854775807" ≠
        .error (.malformed 0 (.numberOutOfRange "1e9223372036854775807")) := by
  have hread : readNumber "1e9223372036854775807" = .ok (ofCode false 0) := by decide
  refine ⟨by decide, spells_iff_scan.mpr rfl, by decide, ?_, by decide, hread, ?_⟩
  · exact Decimal.overflows_of_isHuge (by decide) (by decide)
  · simp [hread]

end RouteWire
