import RouteWire.Decimal
import RouteWire.Proofs.Binary64.Word

/-!
# The nearest word of a decimal number

`nearest?_eq` says what `Decimal.nearest?` gives in terms of the code that is nearest to the
decimal: none if that code is zero or not finite, and else its word. So the two cheap bounds that
keep powers of ten small never change an answer (`overflows_of_isHuge`, `underflows_of_isTiny`).
A decimal has a nearest word if and only if its number is in range (`exists_nearestWord`,
`nearest?_eq_none_iff`), and this word is below zero if and only if the number is
(`value_neg_iff_of_nearest?`).
-/

set_option autoImplicit false

namespace RouteWire.Decimal

open Binary64

variable {d : Decimal}

/-- The size of a decimal, its sign left aside. -/
theorem abs_value (d : Decimal) : |d.value| = d.significand * (10 : ℚ) ^ d.exponent := by
  have hpow : (0 : ℚ) < 10 ^ d.exponent := by positivity
  rw [value, abs_mul, abs_of_pos hpow]
  congr 1
  cases d.negative <;> simp

/-- A decimal with a significand is not zero. -/
theorem value_ne_zero (h : d.significand ≠ 0) : d.value ≠ 0 := by
  have hpow : (0 : ℚ) < 10 ^ d.exponent := by positivity
  rw [← abs_ne_zero, abs_value]
  exact mul_ne_zero (Nat.cast_ne_zero.mpr h) hpow.ne'

/-- A decimal that is not zero has a significand. -/
theorem significand_ne_zero (h : d.value ≠ 0) : d.significand ≠ 0 := by
  intro hzero
  simp [value, hzero] at h

/-- The sign of a decimal is the sign of its number, a zero apart. -/
theorem value_neg_iff (h : d.significand ≠ 0) : d.value < 0 ↔ d.negative = true := by
  have hpow : (0 : ℚ) < 10 ^ d.exponent := by positivity
  have hsig : (0 : ℚ) < d.significand := by exact_mod_cast Nat.pos_of_ne_zero h
  rw [value]
  cases d.negative with
  | false => simpa using (mul_pos hsig hpow).le
  | true => simpa using mul_pos hsig hpow

/-- The code is looked for at the number itself. -/
theorem nearestTo_code (d : Decimal) : NearestTo (|d.value| * unitsPerOne) d.code := by
  have hden : 0 < Nat.pow 10 (-d.exponent).toNat := Nat.pow_pos (by decide)
  -- A negative exponent goes into the denominator.
  have hscale : (10 : ℚ) ^ d.exponent = 10 ^ d.exponent.toNat / 10 ^ (-d.exponent).toNat := by
    rw [← zpow_natCast, ← zpow_natCast, ← zpow_sub₀ (by norm_num)]
    congr 1
    omega
  have hnum : |d.value| * unitsPerOne =
      ((d.significand * Nat.pow 10 d.exponent.toNat * unitsPerOne : ℕ) : ℚ) /
        (Nat.pow 10 (-d.exponent).toNat : ℕ) := by
    rw [abs_value, hscale, Nat.cast_mul, Nat.cast_mul, cast_natPow, cast_natPow, Nat.cast_ofNat]
    ring
  rw [hnum]
  exact nearestTo_nearestCode _ hden

/-! ### The two bounds -/

/-- A power of ten beyond all finite words. -/
private theorem two_pow_le_ten_pow : (2 : ℚ) ^ 1024 ≤ 10 ^ 310 := by
  have h : 2 ^ 1024 ≤ 10 ^ 310 := by decide +kernel
  exact_mod_cast h

/-- A decimal that is huge by its number of digits is too large. -/
theorem overflows_of_isHuge (h : d.significand ≠ 0) (hhuge : d.IsHuge) : Overflows d.value := by
  have hsig : (1 : ℚ) ≤ d.significand := by exact_mod_cast Nat.pos_of_ne_zero h
  rw [overflows_iff, abs_value]
  calc (2 : ℚ) ^ 1024 - 2 ^ 970 ≤ 2 ^ 1024 := sub_le_self _ (by positivity)
    _ ≤ 10 ^ 310 := two_pow_le_ten_pow
    _ = 10 ^ (310 : ℤ) := (zpow_natCast _ _).symm
    _ ≤ 10 ^ d.exponent := zpow_le_zpow_right₀ (by norm_num) hhuge
    _ ≤ d.significand * 10 ^ d.exponent := le_mul_of_one_le_left (by positivity) hsig

/-- A decimal that is tiny by its number of digits is too small. -/
theorem underflows_of_isTiny (h : d.significand ≠ 0) (htiny : d.IsTiny) : Underflows d.value := by
  have hexp : d.exponent = -((-d.exponent).toNat : ℤ) := by
    unfold IsTiny at htiny
    omega
  generalize (-d.exponent).toNat = k at hexp
  have hlog : d.significand.log2 + 1 + 1075 ≤ 3 * k := by
    unfold IsTiny at htiny
    omega
  -- Three bits to a decimal place: `8 ^ k ≤ 10 ^ k`.
  have hsig : d.significand * 2 ^ 1075 ≤ 10 ^ k :=
    calc d.significand * 2 ^ 1075 ≤ 2 ^ (d.significand.log2 + 1) * 2 ^ 1075 :=
          Nat.mul_le_mul_right _ Nat.lt_log2_self.le
      _ = 2 ^ (d.significand.log2 + 1 + 1075) := by rw [← Nat.pow_add]
      _ ≤ 2 ^ (3 * k) := Nat.pow_le_pow_right (by decide) hlog
      _ = 8 ^ k := Nat.pow_mul 2 3 k
      _ ≤ 10 ^ k := Nat.pow_le_pow_left (by decide) k
  have hsig' : (d.significand : ℚ) * 2 ^ 1075 ≤ 10 ^ k := by exact_mod_cast hsig
  refine underflows_iff.mpr ⟨value_ne_zero h, ?_⟩
  rw [abs_value, hexp, zpow_neg, zpow_neg, zpow_natCast, ← div_eq_mul_inv,
    div_le_iff₀ (by positivity), ← div_eq_inv_mul, le_div_iff₀ (zpow_pos two_pos _)]
  exact hsig'

/-! ### The nearest word -/

/-- The nearest word is that of the nearest code, if this is finite and not zero. -/
theorem nearest?_eq {c : ℕ} (h : d.significand ≠ 0)
    (hc : NearestTo (|d.value| * unitsPerOne) c) :
    d.nearest? = if c = 0 ∨ infinityCode ≤ c then none else some (ofCode d.negative c) := by
  obtain rfl := hc.unique (nearestTo_code d)
  rw [nearest?, if_neg h]
  by_cases hbound : d.IsHuge ∨ d.IsTiny
  · -- The bounds come before the code is computed, and agree with it.
    have hout : d.code = 0 ∨ infinityCode ≤ d.code := by
      rcases hbound with hhuge | htiny
      · obtain ⟨b, hb, hnear⟩ := overflows_of_isHuge h hhuge
        exact .inr (hc.unique hnear ▸ hb)
      · exact .inl (hc.unique (underflows_of_isTiny h htiny).2)
    rw [if_pos hbound, if_pos hout]
  · rw [if_neg hbound]

/-- A decimal that is too small or too large has no nearest word. -/
theorem nearest?_eq_none (h : Underflows d.value ∨ Overflows d.value) : d.nearest? = none := by
  have hne : d.significand ≠ 0 := significand_ne_zero (h.elim And.left Overflows.ne_zero)
  rcases h with ⟨-, hc⟩ | ⟨c, hge, hc⟩
  · rw [nearest?_eq hne hc, if_pos (.inl rfl)]
  · rw [nearest?_eq hne hc, if_pos (.inr hge)]

/-- A decimal in range has a nearest word. A zero has the sign that is written. -/
theorem exists_nearestWord (h : ¬ OutOfRange d.value) :
    ∃ x, d.nearest? = some x ∧ NearestWord d.value x ∧ x.negative = d.negative := by
  obtain ⟨hunder, hover⟩ := not_or.mp h
  -- In range, the nearest code is finite, and only that of a zero is zero.
  have hfinite : d.code < infinityCode := by
    by_contra hge
    exact hover ⟨d.code, not_lt.mp hge, nearestTo_code d⟩
  have hword : d.nearest? = some (ofCode d.negative d.code) := by
    by_cases hzero : d.significand = 0
    · have hcode : d.code = 0 := by
        have hnear := nearestTo_code d
        rw [abs_value, hzero, Nat.cast_zero, zero_mul, zero_mul] at hnear
        exact hnear.unique (nearestTo_zero_iff.mpr (by norm_num))
      rw [nearest?, if_pos hzero, hcode]
    · have hcode : d.code ≠ 0 := fun hcode =>
        hunder ⟨value_ne_zero hzero, hcode ▸ nearestTo_code d⟩
      rw [nearest?_eq hzero (nearestTo_code d), if_neg (not_or.mpr ⟨hcode, not_le.mpr hfinite⟩)]
  have hlt : d.code < signWeight := Nat.lt_trans hfinite (by decide)
  refine ⟨_, hword, ?_, negative_ofCode hlt⟩
  refine nearestWord_of_nearestTo (isFinite_ofCode hfinite) ?_ fun hne => ?_
  · rw [code_ofCode hlt]
    exact nearestTo_code d
  · rw [negative_ofCode hlt, value_neg_iff (significand_ne_zero hne)]

/-- The decimals without a nearest word are those out of range. -/
theorem nearest?_eq_none_iff : d.nearest? = none ↔ OutOfRange d.value := by
  refine ⟨fun hnone => ?_, nearest?_eq_none⟩
  by_contra hrange
  obtain ⟨x, hx, -⟩ := exists_nearestWord hrange
  rw [hnone] at hx
  cases hx

/-- The sign that is written is that of the nearest word, even at zero. -/
theorem negative_of_nearest? {x : Binary64} (h : d.nearest? = some x) :
    x.negative = d.negative := by
  have hrange : ¬ OutOfRange d.value := by
    rw [← nearest?_eq_none_iff, h]
    simp
  obtain ⟨y, hy, -, hsign⟩ := exists_nearestWord hrange
  rw [h] at hy
  cases hy
  exact hsign

/-- Rounding keeps the sign of a number. A zero has none, whatever sign is written. -/
theorem value_neg_iff_of_nearest? {x : Binary64} (h : d.nearest? = some x) :
    x.value < 0 ↔ d.value < 0 := by
  rw [Binary64.value_neg_iff, units_neg_iff]
  by_cases hzero : d.significand = 0
  · rw [nearest?, if_pos hzero] at h
    obtain rfl := Option.some.inj h
    have hcode : (ofCode d.negative 0).code = 0 := code_ofCode (by decide)
    simp [hcode, value, hzero]
  · rw [nearest?_eq hzero (nearestTo_code d)] at h
    split at h
    · cases h
    · rename_i hrange
      obtain ⟨hne, hfinite⟩ := not_or.mp hrange
      obtain rfl := Option.some.inj h
      have hlt : d.code < signWeight := Nat.lt_trans (not_le.mp hfinite) (by decide)
      rw [negative_ofCode hlt, code_ofCode hlt, value_neg_iff hzero]
      exact and_iff_left hne

end RouteWire.Decimal
