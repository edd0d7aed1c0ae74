import Mathlib.Algebra.Order.Field.Rat
import Mathlib.Algebra.Order.Ring.Abs
import Mathlib.Tactic.FieldSimp
import Mathlib.Tactic.Linarith
import Mathlib.Tactic.NormNum
import Mathlib.Tactic.Ring
import RouteWire.Rounding

/-!
# Rounding to the nearest integer, over the rationals

`roundHalfEven num den` is compared with the quotient itself, as a rational number:

- `abs_roundHalfEven_sub_le`: the result is at most one half away.
- `roundHalfEven_eq_of_abs_sub_lt`: an integer that is less than one half away is the result.
- `even_roundHalfEven`: a result that is exactly one half away is even.

`NearestInt q n` says what it means for an integer to be the one nearest to a number, without saying
how it is found; `nearestInt_roundHalfEven` says that rounding finds it, and `NearestInt.unique`
that there is no other.
-/

set_option autoImplicit false

namespace RouteWire

/-- Rounding moves a number by a half at most. -/
theorem abs_roundHalfEven_sub_le (num : ℕ) {den : ℕ} (hden : 0 < den) :
    |(roundHalfEven num den : ℚ) - num / den| ≤ 1 / 2 := by
  have hd : (0 : ℚ) < den := by exact_mod_cast hden
  obtain ⟨hlo, hhi⟩ := roundHalfEven_bounds num hden
  have hlo' : (2 : ℚ) * num ≤ 2 * (roundHalfEven num den * den) + den := by exact_mod_cast hlo
  have hhi' : (2 : ℚ) * (roundHalfEven num den * den) ≤ 2 * num + den := by exact_mod_cast hhi
  -- The bounds are those of the integer rounding, multiplied by twice the denominator.
  have hq : (num : ℚ) / den * den = num := div_mul_cancel₀ _ hd.ne'
  rw [abs_le]
  constructor <;> nlinarith

/-- Two integers that are both within one half of the quotient, one of them strictly, are less
than one apart. -/
theorem roundHalfEven_eq_of_abs_sub_lt {num den n : ℕ} (hden : 0 < den)
    (h : |(n : ℚ) - num / den| < 1 / 2) : roundHalfEven num den = n := by
  have hr := abs_le.mp (abs_roundHalfEven_sub_le num hden)
  have hn := abs_lt.mp h
  have hlt : (roundHalfEven num den : ℚ) < n + 1 := by linarith
  have hgt : (n : ℚ) < roundHalfEven num den + 1 := by linarith
  have hlt' : roundHalfEven num den < n + 1 := by exact_mod_cast hlt
  have hgt' : n < roundHalfEven num den + 1 := by exact_mod_cast hgt
  omega

/-- A bound that is an integer is a bound of the result. -/
theorem roundHalfEven_le {num den k : ℕ} (hden : 0 < den) (h : num ≤ k * den) :
    roundHalfEven num den ≤ k := by
  obtain ⟨-, hhi⟩ := roundHalfEven_bounds num hden
  -- A result of `k + 1` would be at least half a unit above the quotient.
  refine Nat.le_of_lt_succ (Nat.lt_of_mul_lt_mul_right (a := den) ?_)
  rw [Nat.succ_mul]
  omega

/-- A whole number is rounded to itself. -/
theorem roundHalfEven_mul_right (n : ℕ) {den : ℕ} (hden : 0 < den) :
    roundHalfEven (n * den) den = n := by
  have hd : (den : ℚ) ≠ 0 := by exact_mod_cast hden.ne'
  apply roundHalfEven_eq_of_abs_sub_lt hden
  push_cast
  rw [mul_div_cancel_right₀ _ hd, sub_self, abs_zero]
  norm_num

/-- One half away from the result, the remainder is half the denominator. -/
theorem even_roundHalfEven {num den : ℕ} (hden : 0 < den)
    (h : |(roundHalfEven num den : ℚ) - num / den| = 1 / 2) : Even (roundHalfEven num den) := by
  have hd : (0 : ℚ) < den := by exact_mod_cast hden
  have hq : (num : ℚ) / den * den = num := div_mul_cancel₀ _ hd.ne'
  -- Cleared of denominators, the result is half a denominator below or above.
  have hside : 2 * num = 2 * (roundHalfEven num den * den) + den ∨
      2 * num + den = 2 * (roundHalfEven num den * den) := by
    rcases (abs_eq (by norm_num)).mp h with h | h
    · right
      have : 2 * (num : ℚ) + den = 2 * (roundHalfEven num den * den) := by nlinarith
      exact_mod_cast this
    · left
      have : 2 * (num : ℚ) = 2 * (roundHalfEven num den * den) + den := by nlinarith
      exact_mod_cast this
  have hdiv := Nat.div_add_mod' num den
  have hmod := Nat.mod_lt num hden
  have htie : 2 * (num % den) = den := by
    revert hside
    unfold roundHalfEven
    split
    · omega
    · rw [Nat.add_mul]
      omega
  exact Nat.even_iff.mpr (roundHalfEven_even_of_tie htie)

/-! ### The nearest integer -/

/-- The lower one of two numbers is nearer to what lies below their midpoint. -/
theorem abs_sub_le_abs_sub_right {a b q : ℚ} (h : a < b) :
    |a - q| ≤ |b - q| ↔ 2 * q ≤ a + b := by
  have hdiff : (b - q) ^ 2 - (a - q) ^ 2 = (b - a) * (a + b - 2 * q) := by ring
  rw [← sq_le_sq, ← sub_nonneg, hdiff, mul_nonneg_iff_of_pos_left (sub_pos.mpr h), sub_nonneg]

/-- The larger of two numbers is nearer if and only if the point halfway between them is not above
`q`. -/
theorem abs_sub_le_abs_sub_left {a b q : ℚ} (h : a < b) :
    |b - q| ≤ |a - q| ↔ a + b ≤ 2 * q := by
  have hdiff : (a - q) ^ 2 - (b - q) ^ 2 = (b - a) * (2 * q - (a + b)) := by ring
  rw [← sq_le_sq, ← sub_nonneg, hdiff, mul_nonneg_iff_of_pos_left (sub_pos.mpr h), sub_nonneg]

/-- `n` is the integer nearest to `q`; of two that are equally near it is the even one. -/
structure NearestInt (q : ℚ) (n : ℤ) : Prop where
  le : ∀ m : ℤ, |(n : ℚ) - q| ≤ |(m : ℚ) - q|
  even : ∀ m : ℤ, m ≠ n → |(m : ℚ) - q| = |(n : ℚ) - q| → Even n

/-- Halfway between two integers. -/
def Halfway (q : ℚ) : Prop :=
  ∃ k : ℤ, q = k + 1 / 2

/-- Two integers are at least one apart, and so are their distances from `q` together. -/
theorem one_le_abs_sub_add {m n : ℤ} (hne : m ≠ n) (q : ℚ) :
    1 ≤ |(m : ℚ) - q| + |(n : ℚ) - q| := by
  have hapart : (1 : ℚ) ≤ |(m : ℚ) - n| := by
    exact_mod_cast Int.one_le_abs (sub_ne_zero.mpr hne)
  have htriangle := abs_sub_le (m : ℚ) q n
  rw [abs_sub_comm q n] at htriangle
  linarith

/-- An integer within one half is nearest, if it is even where it is one half away. -/
theorem nearestInt_of_abs_sub_le {q : ℚ} {n : ℤ} (hle : |(n : ℚ) - q| ≤ 1 / 2)
    (heven : |(n : ℚ) - q| = 1 / 2 → Even n) : NearestInt q n := by
  refine ⟨fun m => ?_, fun m hne htie => ?_⟩
  · rcases eq_or_ne m n with rfl | hne
    · exact le_rfl
    · have := one_le_abs_sub_add hne q
      linarith
  · have := one_le_abs_sub_add hne q
    exact heven (by linarith)

/-- Rounding gives the nearest whole number, with ties to even. -/
theorem nearestInt_roundHalfEven (num : ℕ) {den : ℕ} (hden : 0 < den) :
    NearestInt ((num : ℚ) / den) (roundHalfEven num den) := by
  have hle := abs_roundHalfEven_sub_le num hden
  have heven := @even_roundHalfEven num den hden
  rw [← Int.cast_natCast (R := ℚ) (roundHalfEven num den)] at hle heven
  exact nearestInt_of_abs_sub_le hle fun htie => (Int.even_coe_nat _).mpr (heven htie)

/-- Otherwise the next integer would be nearer. -/
theorem NearestInt.le_add_half {q : ℚ} {n : ℤ} (h : NearestInt q n) : q ≤ n + 1 / 2 := by
  have hlt : (n : ℚ) < (n + 1 : ℤ) := by exact_mod_cast Int.lt_succ n
  have hmid := (abs_sub_le_abs_sub_right hlt).mp (h.le (n + 1))
  push_cast at hmid
  linarith

/-- The nearest whole number is at most a half above. -/
theorem NearestInt.sub_half_le {q : ℚ} {n : ℤ} (h : NearestInt q n) : n - 1 / 2 ≤ q := by
  have hlt : ((n - 1 : ℤ) : ℚ) < n := by exact_mod_cast Int.pred_self_lt n
  have hmid := (abs_sub_le_abs_sub_left hlt).mp (h.le (n - 1))
  push_cast at hmid
  linarith

/-- If the integers came in the wrong order they would be neighbours with the number halfway between
them, and neighbours are not both even. -/
theorem NearestInt.mono {q q' : ℚ} {m n : ℤ} (h : NearestInt q m) (h' : NearestInt q' n)
    (hq : q ≤ q') : m ≤ n := by
  by_contra hlt
  have hlow := h.sub_half_le
  have hhigh := h'.le_add_half
  have hnext : (n : ℚ) + 1 ≤ m := by exact_mod_cast not_le.mp hlt
  obtain rfl : q = q' := by linarith
  have hm : (m : ℚ) = n + 1 := by linarith
  have hdist : |(m : ℚ) - q| = |(n : ℚ) - q| := by
    rw [abs_sub_comm (n : ℚ) q]
    congr 1
    linarith
  have heven := h.even n (by omega) hdist.symm
  have heven' := h'.even m (by omega) hdist
  have hm' : m = n + 1 := by exact_mod_cast hm
  rw [Int.even_iff] at heven heven'
  omega

/-- No number has two nearest whole numbers. -/
theorem NearestInt.unique {q : ℚ} {m n : ℤ} (h : NearestInt q m) (h' : NearestInt q n) : m = n :=
  le_antisymm (h.mono h' le_rfl) (h'.mono h le_rfl)

/-- Rounding does not depend on the sign. -/
theorem NearestInt.neg {q : ℚ} {n : ℤ} (h : NearestInt q n) : NearestInt (-q) (-n) := by
  have hflip : ∀ m : ℤ, |((-m : ℤ) : ℚ) - -q| = |(m : ℚ) - q| := by
    intro m
    rw [Int.cast_neg, neg_sub_neg, abs_sub_comm]
  refine ⟨fun m => ?_, fun m hne htie => ?_⟩
  · rw [hflip, ← neg_neg m, hflip]
    exact h.le (-m)
  · rw [hflip, ← neg_neg m, hflip] at htie
    exact (h.even (-m) (fun heq => hne (by rw [← heq, neg_neg])) htie).neg

end RouteWire
