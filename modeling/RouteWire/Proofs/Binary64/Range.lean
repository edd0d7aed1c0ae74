import Mathlib.Algebra.Order.Field.Power
import Mathlib.Tactic.Positivity
import RouteWire.Proofs.Binary64.Nearest

/-!
# The range of binary64 numbers

A number is out of range if the code nearest to its magnitude is that of zero, though the number
is not zero (`Underflows`), or is not the code of a finite word (`Overflows`).

- `underflows_iff`: the numbers up to `2 ^ -1075`, half of the least positive word, underflow. The
  midpoint goes to zero because the code of zero is even.
- `overflows_iff`: the numbers from `2 ^ 1024 - 2 ^ 970` on overflow. That is the midpoint between
  the largest finite word and the next place of the grid, and the code of that place is even.
-/

set_option autoImplicit false

namespace RouteWire.Binary64

/-- A number that is not zero, but whose nearest word is zero. -/
def Underflows (x : ℚ) : Prop :=
  x ≠ 0 ∧ NearestTo (|x| * unitsPerOne) 0

/-- A number that rounds beyond the largest finite word. -/
def Overflows (x : ℚ) : Prop :=
  ∃ c, infinityCode ≤ c ∧ NearestTo (|x| * unitsPerOne) c

/-- A power of naturals, as a rational number. -/
theorem cast_natPow (a b : ℕ) : ((a.pow b : ℕ) : ℚ) = (a : ℚ) ^ b :=
  Nat.cast_pow a b

/-- One is a power of two in units. -/
theorem cast_unitsPerOne : (unitsPerOne : ℚ) = 2 ^ 1074 := by
  unfold unitsPerOne
  generalize 1074 = n
  rw [cast_natPow, Nat.cast_ofNat]

/-- One has units. -/
theorem unitsPerOne_pos : 0 < unitsPerOne := by
  unfold unitsPerOne
  generalize 1074 = n
  exact Nat.two_pow_pos n

/-- One has units, as a rational number. -/
theorem cast_unitsPerOne_pos : (0 : ℚ) < unitsPerOne :=
  Nat.cast_pos.mpr unitsPerOne_pos

/-- Every number that is not negative has a nearest code. -/
theorem exists_nearestTo {q : ℚ} (hq : 0 ≤ q) : ∃ c, NearestTo q c := by
  have hfrac : ((q.num.toNat : ℕ) : ℚ) / q.den = q := by
    have hnum : ((q.num.toNat : ℕ) : ℚ) = q.num := by
      exact_mod_cast Int.toNat_of_nonneg (Rat.num_nonneg.mpr hq)
    rw [hnum, Rat.num_div_den]
  exact ⟨_, hfrac ▸ nearestTo_nearestCode q.num.toNat q.den_pos⟩

/-- Nearest to zero is what is at most half a unit. -/
theorem nearestTo_zero_iff {q : ℚ} : NearestTo q 0 ↔ 2 * q ≤ 1 := by
  have hone : unitsOfCode (0 + 1) = 1 := by
    rw [unitsOfCode_succ, unitsOfCode_zero]
    rfl
  rw [nearestTo_iff, hone, unitsOfCode_zero]
  constructor
  · rintro ⟨⟨h, -⟩, -⟩
    simpa using h
  · intro h
    exact ⟨⟨by simpa using h, fun _ => Even.zero⟩, fun b hb => absurd hb b.succ_ne_zero⟩

/-- A number is too large from the midpoint below the code of infinity on. On the midpoint itself
the code of the largest finite word, which is odd, gives way. -/
theorem exists_nearestTo_infinity_iff {q : ℚ} (hq : 0 ≤ q) :
    (∃ c, infinityCode ≤ c ∧ NearestTo q c) ↔ (2 ^ 54 - 1) * 2 ^ 2044 ≤ q := by
  have hcode : infinityCode = 2045 * 2 ^ 52 + (2 ^ 53 - 1) + 1 := by decide
  have hpow : (2 : ℚ) ^ 2045 = 2 * 2 ^ 2044 := pow_succ' 2 2044
  have hlast : (unitsOfCode (2045 * 2 ^ 52 + (2 ^ 53 - 1)) : ℚ) =
      (2 ^ 53 - 1) * (2 * 2 ^ 2044) := by
    rw [cast_unitsOfCode_grid (by omega) (by omega), hpow]
    generalize (2 : ℚ) ^ 2044 = u
    norm_num
  have hinf : (unitsOfCode (2045 * 2 ^ 52 + (2 ^ 53 - 1) + 1) : ℚ) = 2 ^ 53 * (2 * 2 ^ 2044) := by
    rw [show 2045 * 2 ^ 52 + (2 ^ 53 - 1) + 1 = 2045 * 2 ^ 52 + 2 ^ 53 by omega,
      cast_unitsOfCode_grid (by omega) (by omega), hpow]
    generalize (2 : ℚ) ^ 2044 = u
    norm_num
  -- From here on the large power of two is a letter, so that it is never computed.
  clear hpow
  rw [hcode]
  generalize (2 : ℚ) ^ 2044 = u at *
  constructor
  · rintro ⟨c, hc, h⟩
    obtain ⟨b, rfl⟩ : ∃ b, c = b + 1 := ⟨c - 1, by omega⟩
    have hmid := ((nearestTo_iff.mp h).2 b rfl).1
    have hb : (unitsOfCode (2045 * 2 ^ 52 + (2 ^ 53 - 1)) : ℚ) ≤ unitsOfCode b := by
      exact_mod_cast strictMono_unitsOfCode.monotone (by omega)
    have hsucc : (unitsOfCode (2045 * 2 ^ 52 + (2 ^ 53 - 1) + 1) : ℚ) ≤ unitsOfCode (b + 1) := by
      exact_mod_cast strictMono_unitsOfCode.monotone hc
    rw [hlast] at hb
    rw [hinf] at hsucc
    linarith
  · intro h
    obtain ⟨c, hc⟩ := exists_nearestTo hq
    refine ⟨c, ?_, hc⟩
    by_contra hlt
    -- A finite nearest code could only be the largest, on the midpoint, and even. It is odd.
    obtain ⟨⟨hmid, heven⟩, -⟩ := nearestTo_iff.mp hc
    have hle : c ≤ 2045 * 2 ^ 52 + (2 ^ 53 - 1) := by omega
    have hcc : (unitsOfCode c : ℚ) ≤ unitsOfCode (2045 * 2 ^ 52 + (2 ^ 53 - 1)) := by
      exact_mod_cast strictMono_unitsOfCode.monotone hle
    have hsucc : (unitsOfCode (c + 1) : ℚ) ≤ unitsOfCode (2045 * 2 ^ 52 + (2 ^ 53 - 1) + 1) := by
      exact_mod_cast strictMono_unitsOfCode.monotone (Nat.succ_le_succ hle)
    rw [hlast] at hcc
    rw [hinf] at hsucc
    have hodd := Nat.even_iff.mp (heven (by linarith))
    have hne : c < 2045 * 2 ^ 52 + (2 ^ 53 - 1) := by omega
    have hstrict : (unitsOfCode c : ℚ) < unitsOfCode (2045 * 2 ^ 52 + (2 ^ 53 - 1)) := by
      exact_mod_cast strictMono_unitsOfCode hne
    rw [hlast] at hstrict
    linarith

/-! ### The bounds as numbers -/

/-- Up to half of the least positive word a number underflows. -/
theorem underflows_iff {x : ℚ} : Underflows x ↔ x ≠ 0 ∧ |x| ≤ 2 ^ (-1075 : ℤ) := by
  rw [Underflows, nearestTo_zero_iff, cast_unitsPerOne]
  -- Half a unit is `2 ^ -1075`: both sides are scaled by two units.
  have hpow : (2 : ℚ) ^ (-1075 : ℤ) * (2 * 2 ^ 1074) = 1 := by
    rw [← pow_succ', ← zpow_natCast, ← zpow_add₀ two_ne_zero]
    rfl
  have hpos : (0 : ℚ) < 2 * 2 ^ 1074 := by positivity
  generalize (2 : ℚ) ^ 1074 = u at *
  generalize (2 : ℚ) ^ (-1075 : ℤ) = v at *
  have hscale := mul_le_mul_iff_of_pos_right (b := |x|) (c := v) hpos
  rw [hpow] at hscale
  rw [← hscale, show 2 * (|x| * u) = |x| * (2 * u) by ring]

/-- From half a step below the place after the largest finite word on a number overflows. -/
theorem overflows_iff {x : ℚ} : Overflows x ↔ 2 ^ 1024 - 2 ^ 970 ≤ |x| := by
  have hunit : (0 : ℚ) < 2 ^ 1074 := by positivity
  rw [Overflows, exists_nearestTo_infinity_iff (mul_nonneg (abs_nonneg x) cast_unitsPerOne_pos.le),
    cast_unitsPerOne]
  have h2044 : (2 : ℚ) ^ 2044 = 2 ^ 970 * 2 ^ 1074 := by rw [← pow_add]
  have h1024 : (2 : ℚ) ^ 1024 = 2 ^ 54 * 2 ^ 970 := by rw [← pow_add]
  rw [h2044, h1024]
  generalize (2 : ℚ) ^ 1074 = u at *
  generalize (2 : ℚ) ^ 970 = v
  rw [← mul_assoc, mul_le_mul_iff_of_pos_right hunit, sub_mul, one_mul]

/-- One lies between the numbers that underflow and those that overflow. -/
theorem Underflows.abs_lt_one {x : ℚ} (h : Underflows x) : |x| < 1 :=
  lt_of_le_of_lt (underflows_iff.mp h).2 (zpow_lt_one_of_neg₀ one_lt_two (by decide))

/-- What is too large is at least one. -/
theorem Overflows.one_le_abs {x : ℚ} (h : Overflows x) : 1 ≤ |x| := by
  have hpow : (1 : ℚ) ≤ 2 ^ 970 := one_le_pow₀ one_le_two
  have hbound := overflows_iff.mp h
  rw [show (2 : ℚ) ^ 1024 = 2 ^ 54 * 2 ^ 970 by rw [← pow_add]] at hbound
  generalize (2 : ℚ) ^ 970 = v at *
  norm_num at hbound
  linarith

/-- What is too large is not zero. -/
theorem Overflows.ne_zero {x : ℚ} (h : Overflows x) : x ≠ 0 :=
  abs_pos.mp (zero_lt_one.trans_le h.one_le_abs)

end RouteWire.Binary64
