import RouteWire.Proofs.Number.RoundTrip
import RouteWire.Proofs.Outcome
import RouteWire.Proofs.Tokens

/-!
# The number that comes back

`Binary64.settled` is what is read from the text of a number. Numbers settle after one trip: the
settled number has the same text (`writeNumber_settled`), so that it settles to itself. It also
stays within the bounds of an angle (`between_settled`).

The text of a number is not empty and holds neither delimiter, so two of them can be joined and
are found again (`tokens_pair`).
-/

set_option autoImplicit false

namespace RouteWire

open Binary64

/-- The number that the text of `x` reads as; `x` itself if it has no text. -/
def Binary64.settled (x : Binary64) : Binary64 :=
  (writeNumber x >>= readNumber).toOption.getD x

variable {x y : Binary64} {s t : String}

/-- A finite number settles to the word of its rounding. -/
theorem settled_eq (hx : x.IsFinite) : x.settled = (Fixed.ofBinary64 x).word := by
  have hwrite := writeNumber_eq_ok_iff.mpr ⟨hx, rfl⟩
  have hread := Fixed.readNumber_canonical (code_ofBinary64_lt hx)
  rw [settled, hwrite]
  show (readNumber _).toOption.getD x = _
  rw [hread]
  rfl

/-- A finite number settles to a finite number. -/
theorem isFinite_settled (hx : x.IsFinite) : x.settled.IsFinite := by
  rw [settled_eq hx]
  exact isFinite_ofCode (code_ofBinary64_lt hx)

/-- A finite number is less than a millionth away from what it settles to. -/
theorem abs_value_settled_sub_value_lt (hx : x.IsFinite) :
    |x.settled.value - x.value| < 1 / 10 ^ 6 := by
  rw [settled_eq hx]
  exact abs_value_word_sub_value_lt hx

/-- The text of a number reads as the settled number. -/
theorem readNumber_settled (h : writeNumber x = .ok t) : readNumber t = .ok x.settled := by
  obtain ⟨hx, rfl⟩ := writeNumber_eq_ok_iff.mp h
  rw [settled_eq hx]
  exact Fixed.readNumber_canonical (code_ofBinary64_lt hx)

/-- The settled number has the same text. -/
theorem writeNumber_settled (h : writeNumber x = .ok t) : writeNumber x.settled = .ok t := by
  obtain ⟨hx, rfl⟩ := writeNumber_eq_ok_iff.mp h
  have hfinite := isFinite_settled hx
  rw [settled_eq hx] at hfinite ⊢
  rw [writeNumber_eq_ok_iff, canonical_ofBinary64_word hx]
  exact ⟨hfinite, rfl⟩

/-! ### Angles -/

/-- The code of 360. -/
def fullTurnCode : ℕ :=
  1030 * 2 ^ 52 + 360 * 2 ^ 44

/-- A full turn in units. -/
theorem unitsOfCode_fullTurnCode : unitsOfCode fullTurnCode = 360 * unitsPerOne := by
  rw [fullTurnCode, unitsOfCode_grid (by omega) (by omega)]
  decide +kernel

/-- A finite number from 0 to 360. -/
def Binary64.InTurn (x : Binary64) : Prop :=
  x.IsFinite ∧ 0 ≤ x.value ∧ x.value ≤ 360

/-- Infinity is no number from 0 to 360: it counts as more units than there are in 360. -/
theorem between_iff_inTurn : x.between 360 = true ↔ x.InTurn := by
  have hvalue : (0 ≤ x.value ↔ 0 ≤ x.units) ∧ (x.value ≤ 360 ↔ x.units ≤ 360 * unitsPerOne) := by
    rw [value, le_div_iff₀ cast_unitsPerOne_pos, zero_mul, div_le_iff₀ cast_unitsPerOne_pos]
    exact ⟨Int.cast_nonneg_iff, by exact_mod_cast Iff.rfl⟩
  rw [between, decide_eq_true_eq, InTurn, hvalue.1, hvalue.2]
  refine and_congr_left fun h => ?_
  show ¬ infinityCode < x.code ↔ x.code < infinityCode
  have hne : x.code ≠ infinityCode := by
    intro hcode
    have hmag : 360 * unitsPerOne < x.magnitude := by
      rw [magnitude, hcode, ← unitsOfCode_fullTurnCode]
      exact strictMono_unitsOfCode (by decide)
    have hpos := unitsPerOne_pos
    unfold units at h
    split at h <;> omega
  omega

/-- A number from 0 to 360 settles to such a number: 360 is a word itself, and rounding does not
cross it. A negative zero loses its sign. -/
theorem between_settled (hx : x.IsFinite) (h : x.between 360) : x.settled.between 360 := by
  obtain ⟨-, hnonneg, hle⟩ := of_decide_eq_true h
  have hcode := code_ofBinary64_lt hx
  -- The sign is gone: either it was not set, or the number is a zero.
  have hsign : (Fixed.ofBinary64 x).word.negative = false := by
    by_cases hzero : (Fixed.ofBinary64 x).millionths = 0
    · rw [Fixed.word, negative_ofCode (Nat.lt_trans hcode (by decide)), Fixed.numeral]
      simp [hzero]
    · rw [Fixed.negative_word hcode hzero]
      show x.negative = false
      by_contra hnegative
      rw [Bool.not_eq_false] at hnegative
      rw [units, if_pos hnegative] at hnonneg
      -- The magnitude of a negative number that is not below zero is zero.
      have hmag : x.magnitude = 0 := by omega
      have hcount := @millionths_le x 0 (by rw [hmag, Nat.zero_mul])
      omega
  have hmag : x.magnitude ≤ 360 * unitsPerOne := by
    unfold units at hnonneg hle
    push_cast at hle
    split at hnonneg <;> rename_i hnegative
    · omega
    · rw [if_neg hnegative] at hle
      exact_mod_cast hle
  have hunits := Fixed.units_le (millionths_le hmag)
  have hbelow : (Fixed.ofBinary64 x).code ≤ fullTurnCode := by
    refine (Fixed.ofBinary64 x).nearestTo_code.mono (nearestTo_unitsOfCode fullTurnCode) ?_
    rw [unitsOfCode_fullTurnCode, Nat.cast_mul]
    exact hunits
  have hword : (Fixed.ofBinary64 x).word.magnitude ≤ 360 * unitsPerOne := by
    rw [magnitude, Fixed.code_word hcode, ← unitsOfCode_fullTurnCode]
    exact strictMono_unitsOfCode.monotone hbelow
  have hnan : ¬ x.settled.IsNaN := Nat.lt_asymm (isFinite_settled hx)
  rw [settled_eq hx] at hnan ⊢
  refine decide_eq_true ⟨hnan, ?_⟩
  rw [units, if_neg (by simp [hsign])]
  exact ⟨Int.natCast_nonneg _, by exact_mod_cast hword⟩

/-! ### Two numbers in one text -/

/-- The text of a number is not empty. -/
theorem ne_empty_of_readNumber (h : readNumber t = .ok x) : t ≠ "" := by
  rintro rfl
  cases h

/-- What is written for a number holds no other characters than those of numerals. -/
theorem not_mem_of_writeNumber {d : Char} (h : writeNumber x = .ok t)
    (hd : ¬ Numeral.NumeralChar d) : d ∉ t.toList :=
  Number.not_mem_of_read (readNumber_eq_ok_iff.mp (readNumber_settled h)) hd

/-- Two texts with a delimiter between them are not empty. -/
theorem push_append_ne_empty (d : Char) (s t : String) : s.push d ++ t ≠ "" := by
  intro hempty
  have hlist := congrArg String.toList hempty
  simp at hlist

/-- The texts of two numbers and their delimiter hold no other delimiter. -/
theorem not_mem_push_append {d e : Char} (hs : writeNumber x = .ok s)
    (ht : writeNumber y = .ok t) (hne : d ≠ e) (hd : ¬ Numeral.NumeralChar d) :
    d ∉ (s.push e ++ t).toList := by
  simp [not_mem_of_writeNumber hs hd, not_mem_of_writeNumber ht hd, hne]

/-- The texts of two numbers are found again. -/
theorem tokens_pair {d : Char} (hs : writeNumber x = .ok s) (ht : writeNumber y = .ok t)
    (hd : ¬ Numeral.NumeralChar d) : tokens d (s.push d ++ t) = [s, t] := by
  rw [tokens_push_append, tokens_of_not_mem (not_mem_of_writeNumber hs hd),
    tokens_of_not_mem (not_mem_of_writeNumber ht hd)]
  rfl

end RouteWire
