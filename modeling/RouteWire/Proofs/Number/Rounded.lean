import Mathlib.Algebra.Order.Ring.Int
import Mathlib.RingTheory.Coprime.Lemmas
import RouteWire.Proofs.Number.Canonical

/-!
# Numbers are rounded to the nearest millionth

The text of a finite number is canonical and stands for the nearest count of millionths, and of two
counts that are equally near for the even one (`writeNumber_nearest_millionth`).

There are numbers halfway between two counts. They are the odd multiples of one 128th
(`halfway_millionths_iff`): half a millionth is `1 / (2 ^ 7 * 5 ^ 6)`, and a binary number that is
an odd multiple of it must have its five to the sixth in the count.
-/

set_option autoImplicit false

namespace RouteWire

open Binary64

/-- The count of millionths with its sign. -/
def Fixed.count (f : Fixed) : ℤ :=
  if f.negative then -(f.millionths : ℤ) else f.millionths

/-- The value is the signed count of millionths. -/
theorem Fixed.value_eq (f : Fixed) : f.value = f.count / 10 ^ 6 := by
  rw [value, cast_decimalsPerOne]
  rfl

/-- The count is the one nearest to the magnitude. -/
theorem nearestInt_millionths (x : Binary64) :
    NearestInt (|x.value| * 10 ^ 6) (Fixed.ofBinary64 x).millionths := by
  have hnear := nearestInt_roundHalfEven (x.magnitude * decimalsPerOne) unitsPerOne_pos
  rw [Nat.cast_mul, cast_decimalsPerOne, mul_div_right_comm, ← Binary64.abs_value,
    ← Fixed.millionths_ofBinary64] at hnear
  exact hnear

/-- Rounding the magnitude and keeping the sign rounds the number. -/
theorem nearestInt_count (x : Binary64) :
    NearestInt (x.value * 10 ^ 6) (Fixed.ofBinary64 x).count := by
  have hnear := nearestInt_millionths x
  rw [Binary64.abs_value] at hnear
  rw [Binary64.value_eq, Fixed.count]
  show NearestInt _ (if x.negative then _ else _)
  -- Both sides carry the sign of the word.
  split
  · rw [neg_one_mul, neg_mul]
    exact hnear.neg
  · rw [one_mul]
    exact hnear

/-! ### Halfway between two counts -/

/-- A binary number is halfway between two counts of millionths if it is an odd multiple of one
128th. -/
theorem halfway_div_two_pow_iff (u : ℤ) (k : ℕ) :
    Halfway ((u : ℚ) / 2 ^ k * 10 ^ 6) ↔ ∃ m : ℤ, Odd m ∧ 128 * ((u : ℚ) / 2 ^ k) = m := by
  have hpow : (2 : ℚ) ^ k ≠ 0 := by positivity
  constructor
  · rintro ⟨n, hn⟩
    -- Twice the count is odd, and the powers of two and five in it are coprime.
    have hcount : 128 * u * 5 ^ 6 = 2 ^ k * (2 * n + 1) := by
      rw [div_mul_eq_mul_div, div_eq_iff hpow] at hn
      have hcast : (128 : ℚ) * u * 5 ^ 6 = 2 ^ k * (2 * n + 1) := by linarith
      exact_mod_cast hcast
    have hcoprime : IsCoprime ((2 : ℤ) ^ k) (5 ^ 6) := IsCoprime.pow ⟨-2, 1, by norm_num⟩
    obtain ⟨m, hm⟩ := hcoprime.dvd_of_dvd_mul_right (Dvd.intro _ hcount.symm)
    have hodd : m * 5 ^ 6 = 2 * n + 1 := by
      rw [hm, mul_assoc] at hcount
      exact mul_left_cancel₀ (by positivity) hcount
    refine ⟨m, (Int.odd_mul.mp ⟨n, hodd⟩).1, ?_⟩
    rw [← mul_div_assoc, div_eq_iff hpow, mul_comm (m : ℚ)]
    exact_mod_cast hm
  · -- The other way round, a product of odd numbers is odd.
    rintro ⟨m, hm, hvalue⟩
    obtain ⟨n, hn⟩ : Odd (m * 5 ^ 6) := hm.mul (by decide)
    have hcast : (m : ℚ) * 5 ^ 6 = 2 * n + 1 := by exact_mod_cast hn
    exact ⟨n, by linarith⟩

/-- A number is halfway between two millionths if and only if it is an odd multiple of `1 / 128`. -/
theorem halfway_millionths_iff (x : Binary64) :
    Halfway (x.value * 10 ^ 6) ↔ ∃ m : ℤ, Odd m ∧ 128 * x.value = m := by
  rw [value, cast_unitsPerOne]
  exact halfway_div_two_pow_iff x.units 1074

/-- One 128th is halfway between two counts. -/
theorem halfway_one_128th :
    Halfway ((Binary64.mk 0x3F80000000000000).value * 10 ^ 6) := by
  have hunits : 128 * (Binary64.mk 0x3F80000000000000).units = unitsPerOne := by decide +kernel
  have hcast : (128 : ℚ) * (Binary64.mk 0x3F80000000000000).units = unitsPerOne := by
    exact_mod_cast hunits
  rw [halfway_millionths_iff]
  refine ⟨1, odd_one, ?_⟩
  rw [value, ← mul_div_assoc, hcast, div_self cast_unitsPerOne_pos.ne', Int.cast_one]

/-- The text of a finite number is canonical and stands for the nearest count of millionths, a tie
going to the even count. There are ties, and they are the odd multiples of one 128th. -/
theorem writeNumber_nearest_millionth :
    (∀ x : Binary64, x.IsFinite → ∃ (text : String) (n : Numeral) (k : ℤ),
        writeNumber x = .ok text ∧ CanonicalText text.toList n ∧ text ≠ "-0" ∧
          n.toDecimal.value = k / 10 ^ 6 ∧ NearestInt (x.value * 10 ^ 6) k ∧
          (Halfway (x.value * 10 ^ 6) ↔ ∃ m : ℤ, Odd m ∧ 128 * x.value = m)) ∧
      ∃ x : Binary64, x.IsFinite ∧ Halfway (x.value * 10 ^ 6) := by
  refine ⟨fun x hx => ?_, _, by decide, halfway_one_128th⟩
  have hcanonical := (Fixed.ofBinary64 x).canonicalText
  have hvalue := (Fixed.ofBinary64 x).value_numeral
  have hne : String.ofList (Fixed.ofBinary64 x).canonical ≠ "-0" := by
    intro heq
    have hlist := congrArg String.toList heq
    rw [String.toList_ofList] at hlist
    exact (Fixed.ofBinary64 x).canonical_ne hlist
  rw [Fixed.value_eq] at hvalue
  refine ⟨_, _, _, writeNumber_eq_ok_iff.mpr ⟨hx, rfl⟩, ?_, hne, hvalue, nearestInt_count x,
    halfway_millionths_iff x⟩
  rw [String.toList_ofList]
  exact hcanonical

/-- A negative number halfway between two counts, of which the even one is further from zero. -/
theorem writeNumber_nearest_millionth_tie :
    (Binary64.mk 0xBF98000000000000).IsFinite ∧
      writeNumber (Binary64.mk 0xBF98000000000000) = .ok "-0.023438" ∧
      ∃ (n : Numeral) (k : ℤ), CanonicalText "-0.023438".toList n ∧ n.toDecimal.value = k / 10 ^ 6 ∧
        NearestInt ((Binary64.mk 0xBF98000000000000).value * 10 ^ 6) k := by
  have hfinite : (Binary64.mk 0xBF98000000000000).IsFinite := by decide
  have hwrite : writeNumber (Binary64.mk 0xBF98000000000000) = .ok "-0.023438" := by decide +kernel
  obtain ⟨text, n, k, htext, hcanonical, -, hvalue, hnear, -⟩ :=
    writeNumber_nearest_millionth.1 _ hfinite
  obtain rfl : "-0.023438" = text := Except.ok.inj (hwrite.symm.trans htext)
  exact ⟨hfinite, hwrite, n, k, hcanonical, hvalue, hnear⟩

end RouteWire
