import RouteWire.Number.Write
import RouteWire.Proofs.Decimal
import RouteWire.Proofs.Numeral.Spelling

/-!
# The text of a number

- `spells_canonical`: the canonical text of a rounded number spells a numeral, `Fixed.numeral`.
- `abs_value_numeral`: the number that it spells is the rounded number.
- `length_full_le`: a finite number with all its decimals takes at most 317 characters, so that
  every finite number has a text (`writeNumber_eq_ok_iff`).
-/

set_option autoImplicit false

namespace RouteWire

/-- The decimals that there are count to a million. -/
theorem decimalsPerOne_eq : decimalsPerOne = 10 ^ 6 :=
  rfl

/-- The decimals that there are count to a million, as a rational number. -/
theorem cast_decimalsPerOne : (decimalsPerOne : ℚ) = 10 ^ 6 := by
  rw [decimalsPerOne_eq, Nat.cast_pow, Nat.cast_ofNat]

namespace Fixed

/-- The count of millionths is rounded to the nearest, and to even at a tie. -/
theorem millionths_ofBinary64 (x : Binary64) : (ofBinary64 x).millionths
    = roundHalfEven (x.magnitude * decimalsPerOne) Binary64.unitsPerOne := by
  simp only [ofBinary64]

variable (f : Fixed)

/-- The parts of the canonical text. -/
def numeral : Numeral where
  negative := f.negative && decide (f.millionths ≠ 0)
  whole := f.wholeDigits
  fraction := f.shortDecimals
  exponent := 0

/-! ### Dropping the zeros at the end -/

/-- What is dropped from the decimals are zeros. -/
theorem exists_decimals_eq : ∃ k, f.decimals = f.shortDecimals ++ List.replicate k '0' := by
  obtain ⟨k, hk⟩ : ∃ k, f.decimals.reverse.takeWhile (· = '0') = List.replicate k '0' :=
    ⟨_, List.eq_replicate_iff.mpr ⟨rfl, fun c hc => by
      simpa using List.all_eq_true.mp List.all_takeWhile c hc⟩⟩
  refine ⟨k, ?_⟩
  -- Backwards, the zeros come first and what is left is what is written.
  have hsplit := List.takeWhile_append_dropWhile (p := fun c => decide (c = '0'))
    (l := f.decimals.reverse)
  rw [hk] at hsplit
  have hrev := congrArg List.reverse hsplit
  rw [List.reverse_append, List.reverse_reverse, List.reverse_replicate] at hrev
  exact hrev.symm

/-- There are six decimals. -/
theorem length_decimals : f.decimals.length = 6 :=
  Digits.length_padded (by decide) (Nat.mod_lt _ (by decide))

/-- The decimals that are written are digits. -/
theorem isDigit_of_mem_shortDecimals {c : Char} (h : c ∈ f.shortDecimals) : c.isDigit := by
  obtain ⟨k, hk⟩ := f.exists_decimals_eq
  have hmem : c ∈ f.decimals := hk ▸ List.mem_append_left _ h
  exact Digits.isDigit_of_mem_padded hmem

/-- The digits before the point are digits. -/
theorem isDigit_of_mem_wholeDigits {c : Char} (h : c ∈ f.wholeDigits) : c.isDigit :=
  Digits.isDigit_of_mem_ofNat h

/-- All digits together stand for the count of millionths. -/
theorem value_digits : Digits.value (f.wholeDigits ++ f.decimals) = f.millionths := by
  rw [Digits.value_append, length_decimals, wholeDigits, decimals, Digits.value_ofNat,
    Digits.value_padded, ← decimalsPerOne_eq]
  exact Nat.div_add_mod _ _

/-! ### What the text spells -/

/-- Sign, digits and decimals of the text, with the sign as the numeral has it. -/
theorem canonical_eq : f.canonical = (if f.numeral.negative then ['-'] else []) ++
    (f.wholeDigits ++ if f.shortDecimals = [] then [] else '.' :: f.shortDecimals) := by
  have hsign : (if f.negative ∧ f.millionths ≠ 0 then ['-'] else [])
      = if f.numeral.negative then ['-'] else [] := by
    simp [numeral]
  rw [canonical, hsign, List.append_assoc]

/-- The text of a number has digits, at most one point, and a minus sign if the number is below
zero. -/
theorem mem_canonical {c : Char} (h : c ∈ f.canonical) :
    c.isDigit ∨ c = '.' ∨ c = '-' ∧ f.negative = true := by
  unfold canonical at h
  simp only [List.mem_append] at h
  rcases h with (hsign | hwhole) | hfraction
  · split at hsign
    · rename_i hnegative
      exact .inr (.inr ⟨List.mem_singleton.mp hsign, hnegative.1⟩)
    · cases hsign
  · exact .inl (f.isDigit_of_mem_wholeDigits hwhole)
  · split at hfraction
    · cases hfraction
    · rcases List.mem_cons.mp hfraction with hpoint | hdigit
      · exact .inr (.inl hpoint)
      · exact .inl (f.isDigit_of_mem_shortDecimals hdigit)

/-- What is written spells the numeral of its parts. -/
theorem spells_canonical : Numeral.Spells f.canonical f.numeral := by
  have hwhole : ∀ c ∈ f.wholeDigits, c.isDigit := fun _ h => f.isDigit_of_mem_wholeDigits h
  rw [canonical_eq]
  by_cases hshort : f.shortDecimals = []
  · have hmantissa := Numeral.MantissaText.whole hwhole (Digits.ofNat_ne_nil _)
    rw [if_pos hshort, numeral, hshort]
    exact .mk _ hmantissa .none
  · have hmantissa := Numeral.MantissaText.point hwhole
      (fun _ h => f.isDigit_of_mem_shortDecimals h) (.inr hshort)
    have h := Numeral.Spells.mk f.numeral.negative hmantissa .none
    rw [List.append_nil] at h
    rw [if_neg hshort]
    exact h

/-- Dropping `k` zeros makes the significand smaller by as many powers of ten. -/
theorem exists_significand_eq : ∃ k, f.shortDecimals.length + k = 6 ∧
    10 ^ k * f.numeral.toDecimal.significand = f.millionths := by
  obtain ⟨k, hk⟩ := f.exists_decimals_eq
  refine ⟨k, ?_, ?_⟩
  · rw [← length_decimals f, hk, List.length_append, List.length_replicate]
  · rw [← value_digits, hk, ← List.append_assoc, Digits.value_append, Digits.value_replicate_zero,
      List.length_replicate, Nat.add_zero]
    rfl

/-- Dropping zeros makes the exponent larger too, and the number stays. -/
theorem abs_value_numeral : |f.numeral.toDecimal.value| = f.millionths / 10 ^ 6 := by
  obtain ⟨k, hlen, hsig⟩ := f.exists_significand_eq
  have hexp : f.numeral.toDecimal.exponent = (k : ℤ) - 6 := by
    show (0 : ℤ) - (f.shortDecimals.length : ℤ) = k - 6
    omega
  rw [Decimal.abs_value, hexp, ← hsig, zpow_sub₀ (by norm_num), zpow_natCast]
  push_cast
  ring

/-- The numeral is zero if the count of millionths is. -/
theorem significand_numeral_eq_zero_iff :
    f.numeral.toDecimal.significand = 0 ↔ f.millionths = 0 := by
  obtain ⟨k, -, hsig⟩ := f.exists_significand_eq
  rw [← hsig, Nat.mul_eq_zero]
  have := Nat.pow_pos (n := k) (show 0 < 10 by decide)
  omega

end Fixed

/-! ### The length of the text -/

/-- The finite words end at `2 ^ 1024`. -/
theorem Binary64.magnitude_lt {x : Binary64} (hx : x.IsFinite) :
    x.magnitude < 2 ^ 1024 * unitsPerOne := by
  have hinf : unitsOfCode infinityCode = 2 ^ 52 * 2 ^ 2046 := by
    rw [show infinityCode = 2046 * 2 ^ 52 + 2 ^ 52 by decide]
    exact unitsOfCode_grid (by omega) (.inr le_rfl)
  -- The code of infinity stands for `2 ^ 1024`, the first place after the largest finite number.
  have hbound : 2 ^ 52 * 2 ^ 2046 = 2 ^ 1024 * unitsPerOne := by decide +kernel
  rw [← hbound, ← hinf]
  exact strictMono_unitsOfCode hx

/-- Before the point there are no more digits than the largest finite number has. -/
theorem length_wholeDigits_le {x : Binary64} (hx : x.IsFinite) :
    (Fixed.ofBinary64 x).wholeDigits.length ≤ 309 := by
  have hmag := Nat.mul_le_mul_right decimalsPerOne (Binary64.magnitude_lt hx).le
  rw [Nat.mul_right_comm] at hmag
  have hcount : (Fixed.ofBinary64 x).millionths ≤ 2 ^ 1024 * decimalsPerOne := by
    rw [Fixed.millionths_ofBinary64]
    exact roundHalfEven_le Binary64.unitsPerOne_pos hmag
  rw [Nat.mul_comm] at hcount
  have hwhole := Nat.div_le_of_le_mul hcount
  have hlarge : 2 ^ 1024 < 10 ^ 309 := by decide +kernel
  exact Digits.length_ofNat_le (by decide) (Nat.lt_of_le_of_lt hwhole hlarge)

/-- A finite number with all its decimals takes at most 317 characters. -/
theorem length_full_le {x : Binary64} (hx : x.IsFinite) :
    (Fixed.ofBinary64 x).full.length ≤ 317 := by
  have hwhole := length_wholeDigits_le hx
  have hdecimals := (Fixed.ofBinary64 x).length_decimals
  rw [Fixed.full, List.length_append, List.length_append, List.length_cons, hdecimals]
  split
  · rw [List.length_singleton]
    omega
  · rw [List.length_nil]
    omega

/-- Every finite number has a text, and no other number has one. -/
theorem writeNumber_eq_ok_iff {x : Binary64} {w : String} :
    writeNumber x = .ok w ↔ x.IsFinite ∧ w = String.ofList (Fixed.ofBinary64 x).canonical := by
  unfold writeNumber
  by_cases hx : x.IsFinite
  · have hlen := length_full_le hx
    rw [if_neg (not_not.mpr hx), if_neg (by rw [maxFixedLength]; omega)]
    simp [hx, eq_comm]
  · rw [if_pos hx]
    simp [hx]

/-- A number without a text is one that is not finite. -/
theorem writeNumber_eq_error_iff {x : Binary64} {f : Failure} :
    writeNumber x = .error f ↔ ¬ x.IsFinite ∧ f = .invalid 0 .notFinite := by
  by_cases hx : x.IsFinite
  · rw [writeNumber_eq_ok_iff.mpr ⟨hx, rfl⟩]
    simp [hx]
  · rw [writeNumber, if_pos hx]
    simp [hx, eq_comm]

end RouteWire
