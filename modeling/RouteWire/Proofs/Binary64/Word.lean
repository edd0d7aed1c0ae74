import RouteWire.Proofs.Binary64.Range

/-!
# Words as numbers

The number that a word stands for is its magnitude with its sign. `NearestWord q x` says that the
finite word `x` is nearest to `q` among all finite words, in terms of the numbers they stand for.

- `nearestWord_of_nearestTo` finds it by the nearest code and the sign of `q`: no word of the other
  sign is nearer to `q` than zero is.
- `not_outOfRange_value` and `NearestWord.value_eq`: a number that has a word is in range, and the
  nearest word stands for the number itself.
-/

set_option autoImplicit false

namespace RouteWire.Binary64

/-- The value of a word by its sign and its magnitude. -/
theorem value_eq (x : Binary64) :
    x.value = (if x.negative then -1 else 1) * (x.magnitude / unitsPerOne) := by
  rw [value, units]
  split <;> push_cast <;> ring

/-- A sign has the size one. -/
theorem abs_sign (negative : Bool) : |if negative then (-1 : ℚ) else 1| = 1 := by
  cases negative <;> simp

/-- Two numbers with one sign differ as their magnitudes do. -/
theorem abs_value_sub_value {x y : Binary64} (h : x.negative = y.negative) :
    |x.value - y.value| = |(x.magnitude : ℚ) - y.magnitude| / unitsPerOne := by
  rw [value_eq, value_eq, h, ← mul_sub, ← sub_div, abs_mul, abs_div,
    abs_of_pos cast_unitsPerOne_pos, abs_sign, one_mul]

/-- The size of a word is its magnitude. -/
theorem abs_value (x : Binary64) : |x.value| = x.magnitude / unitsPerOne := by
  rw [value_eq, abs_mul, abs_div, abs_of_pos cast_unitsPerOne_pos, Nat.abs_cast, abs_sign, one_mul]

/-- Only the zeros have no magnitude. -/
theorem magnitude_pos_iff {x : Binary64} : 0 < x.magnitude ↔ x.code ≠ 0 := by
  rw [magnitude, ← unitsOfCode_zero, strictMono_unitsOfCode.lt_iff_lt]
  exact Nat.pos_iff_ne_zero

/-- The units are below zero if there is a minus sign and the word is not a zero. -/
theorem units_neg_iff {x : Binary64} : x.units < 0 ↔ x.negative = true ∧ x.code ≠ 0 := by
  rw [units, ← magnitude_pos_iff]
  cases x.negative with
  | false => simp
  | true => simp

/-- The value is below zero if the units are. -/
theorem value_neg_iff {x : Binary64} : x.value < 0 ↔ x.units < 0 := by
  rw [value, div_lt_iff₀ cast_unitsPerOne_pos, zero_mul, Int.cast_lt_zero]

/-- A code below the infinities is a finite word, with either sign. -/
theorem isFinite_ofCode {negative : Bool} {c : ℕ} (h : c < infinityCode) :
    (ofCode negative c).IsFinite := by
  have hlt : c < signWeight := Nat.lt_trans h (by decide)
  rw [IsFinite, code_ofCode hlt]
  exact h

/-! ### The nearest word -/

/-- `x` is finite, no finite word is nearer to `q`, and if a finite word for another number is
equally near then the code of `x` is even. -/
structure NearestWord (q : ℚ) (x : Binary64) : Prop where
  finite : x.IsFinite
  le : ∀ y : Binary64, y.IsFinite → |x.value - q| ≤ |y.value - q|
  even : ∀ y : Binary64, y.IsFinite → y.value ≠ x.value → |y.value - q| = |x.value - q| →
    Even x.code

/-- A number that rounds to zero without being zero, or beyond the largest finite word. -/
def OutOfRange (q : ℚ) : Prop :=
  Underflows q ∨ Overflows q

variable {q : ℚ} {x : Binary64}

/-- Distances of numbers from distances of magnitudes in units. -/
theorem abs_magnitude_sub_eq (x : Binary64) (q : ℚ) :
    |(x.magnitude : ℚ) - |q| * unitsPerOne| = |(|x.value| - |q|)| * unitsPerOne := by
  have hunit := cast_unitsPerOne_pos
  have hmag : (x.magnitude : ℚ) = |x.value| * unitsPerOne := by
    rw [abs_value, div_mul_cancel₀ _ hunit.ne']
  rw [hmag, ← sub_mul, abs_mul, abs_of_pos hunit]

/-- With the sign of the number, a word is as far from it as the magnitudes are apart. -/
theorem abs_value_sub_of_sign (hsign : q ≠ 0 → (x.negative = true ↔ q < 0)) :
    |x.value - q| = |(|x.value| - |q|)| := by
  rcases eq_or_ne q 0 with rfl | hne
  · simp
  have hnonneg : 0 ≤ (x.magnitude : ℚ) / unitsPerOne :=
    div_nonneg (Nat.cast_nonneg _) cast_unitsPerOne_pos.le
  rw [abs_value, value_eq]
  by_cases hq : q < 0
  · rw [if_pos ((hsign hne).mpr hq), abs_of_neg hq, ← abs_neg]
    congr 1
    ring
  · rw [if_neg (mt (hsign hne).mp hq), abs_of_nonneg (not_lt.mp hq), one_mul]

section
variable (hnear : NearestTo (|q| * unitsPerOne) x.code) {y : Binary64}
include hnear

/-- No other word is nearer in size to the number. -/
theorem NearestTo.abs_value_sub_le (y : Binary64) :
    |(|x.value| - |q|)| ≤ |(|y.value| - |q|)| := by
  have h : |(x.magnitude : ℚ) - |q| * unitsPerOne| ≤ |(y.magnitude : ℚ) - |q| * unitsPerOne| :=
    hnear.le y.code
  rw [abs_magnitude_sub_eq, abs_magnitude_sub_eq] at h
  exact le_of_mul_le_mul_right h cast_unitsPerOne_pos

/-- If another word is as near in size, the code is even. -/
theorem NearestTo.even_of_abs_value_sub_eq (hcode : y.code ≠ x.code)
    (htie : |(|y.value| - |q|)| = |(|x.value| - |q|)|) : Even x.code := by
  have h : |(y.magnitude : ℚ) - |q| * unitsPerOne| = |(x.magnitude : ℚ) - |q| * unitsPerOne| := by
    rw [abs_magnitude_sub_eq, abs_magnitude_sub_eq, htie]
  exact hnear.even y.code hcode h

/-- Only zero is as far from a number as from its opposite, and the code of zero is even. -/
theorem NearestTo.even_of_opposite (hvalue : x.value ≠ 0)
    (htie : |-x.value - q| = |x.value - q|) : Even x.code := by
  have hq : q = 0 := by
    rcases abs_eq_abs.mp htie with htie | htie
    · exact absurd (by linarith) hvalue
    · linarith
  rw [hq, abs_zero, zero_mul] at hnear
  rw [hnear.unique (nearestTo_zero_iff.mpr (by norm_num))]
  exact Even.zero

end

/-- The nearest code and the sign of the number make the nearest word. -/
theorem nearestWord_of_nearestTo (hfinite : x.IsFinite)
    (hnear : NearestTo (|q| * unitsPerOne) x.code)
    (hsign : q ≠ 0 → (x.negative = true ↔ q < 0)) : NearestWord q x := by
  have hdist := abs_value_sub_of_sign hsign
  have hreverse (y : Binary64) : |(|y.value| - |q|)| ≤ |y.value - q| :=
    abs_abs_sub_abs_le y.value q
  refine ⟨hfinite, fun y _ => ?_, fun y _ hvalue htie => ?_⟩
  · rw [hdist]
    exact (hnear.abs_value_sub_le y).trans (hreverse y)
  · by_cases hcode : y.code = x.code
    · -- The two words differ in their signs alone, and their numbers are opposite.
      have habs : |y.value| = |x.value| := by
        rw [abs_value, abs_value, magnitude, magnitude, hcode]
      have hopposite : y.value = -x.value := (abs_eq_abs.mp habs).resolve_left hvalue
      rw [hopposite] at hvalue htie
      refine hnear.even_of_opposite ?_ htie
      intro hzero
      rw [hzero, neg_zero] at hvalue
      exact hvalue rfl
    · -- Otherwise the two magnitudes are equally near, and the codes decide.
      have hle : |(|y.value| - |q|)| ≤ |(|x.value| - |q|)| := by
        rw [← hdist, ← htie]
        exact hreverse y
      exact hnear.even_of_abs_value_sub_eq hcode (le_antisymm hle (hnear.abs_value_sub_le y))

/-! ### Numbers of words -/

/-- The number of a finite word is in range. -/
theorem not_outOfRange_value (hx : x.IsFinite) : ¬ OutOfRange x.value := by
  have hunits : |x.value| * unitsPerOne = unitsOfCode x.code := by
    rw [abs_value, div_mul_cancel₀ _ cast_unitsPerOne_pos.ne', magnitude]
  -- The code of the word is nearest to its own number, and no other code is.
  have hself := nearestTo_unitsOfCode x.code
  rintro (⟨hne, hnear⟩ | ⟨c, hc, hnear⟩)
  · rw [hunits] at hnear
    refine hne ?_
    rw [← abs_eq_zero, abs_value, magnitude, hself.unique hnear, unitsOfCode_zero, Nat.cast_zero,
      zero_div]
  · rw [hunits] at hnear
    rw [← hself.unique hnear] at hc
    exact absurd hx (not_lt.mpr hc)

/-- The word nearest to the number of a word stands for this number. -/
theorem NearestWord.value_eq {y : Binary64} (h : NearestWord y.value x) (hy : y.IsFinite) :
    x.value = y.value := by
  have hle := h.le y hy
  rw [sub_self, abs_zero] at hle
  exact sub_eq_zero.mp (abs_nonpos_iff.mp hle)

end RouteWire.Binary64
