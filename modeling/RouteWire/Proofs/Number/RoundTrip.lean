import RouteWire.Proofs.Number.Read
import RouteWire.Proofs.Number.Text

/-!
# Numbers survive their text

Writing rounds a number to millionths and reading rounds it back to a word. The steps of the
binary64 grid are finer than a millionth below `2 ^ 33` and coarser from there on:

- `code_ofBinary64_of_le`: from `2 ^ 33` on no other word is as near to the rounded number, so
  that the number itself comes back.
- `Fixed.abs_unitsOfCode_code_sub_lt`: up to there, the word that a text reads as is nearer to the
  rounded number than half a millionth, so that it is rounded to the same millionths again.

Either way the second text is the first one (`canonical_ofBinary64_word`), and the two numbers are
less than a millionth apart (`abs_value_word_sub_value_lt`).
-/

set_option autoImplicit false

namespace RouteWire

open Binary64

namespace Fixed

/-- The size of the rounded number, in units. -/
def units (f : Fixed) : ℚ :=
  f.millionths / 10 ^ 6 * unitsPerOne

/-- The code of the word that the text reads as. -/
def code (f : Fixed) : ℕ :=
  nearestCode (f.millionths * unitsPerOne) decimalsPerOne

/-- The word that the text reads as. -/
def word (f : Fixed) : Binary64 :=
  ofCode f.numeral.negative f.code

/-- The code is the nearest one. -/
theorem nearestTo_code (f : Fixed) : NearestTo f.units f.code := by
  have h := nearestTo_nearestCode (f.millionths * unitsPerOne) (show 0 < decimalsPerOne by decide)
  rw [decimalsPerOne_eq] at h
  push_cast at h
  rw [units, div_mul_eq_mul_div]
  exact h

/-- The size of a rounded number is not below zero. -/
theorem units_nonneg (f : Fixed) : 0 ≤ f.units :=
  mul_nonneg (div_nonneg (Nat.cast_nonneg _) (by norm_num)) cast_unitsPerOne_pos.le

/-- A bound in millionths, in units. -/
theorem units_le {f : Fixed} {k : ℕ} (h : f.millionths ≤ k * 10 ^ 6) :
    f.units ≤ k * unitsPerOne := by
  have hcast : (f.millionths : ℚ) ≤ k * 10 ^ 6 := by exact_mod_cast h
  refine mul_le_mul_of_nonneg_right ?_ cast_unitsPerOne_pos.le
  rwa [div_le_iff₀ (by positivity)]

/-- Only a count of zero reads as a zero. -/
theorem code_eq_zero_iff (f : Fixed) : f.code = 0 ↔ f.millionths = 0 := by
  have hunit : (2 : ℚ) ^ 33 ≤ unitsPerOne := by
    rw [cast_unitsPerOne]
    exact pow_le_pow_right₀ one_le_two (by omega)
  constructor
  · intro hcode
    have h := nearestTo_zero_iff.mp (hcode ▸ f.nearestTo_code)
    by_contra hne
    -- One millionth is far more than half a unit.
    have hone : (1 : ℚ) ≤ f.millionths := by exact_mod_cast Nat.pos_of_ne_zero hne
    have hmul : (1 : ℚ) / 10 ^ 6 * 2 ^ 33 ≤ f.units := by
      unfold units
      gcongr
    norm_num at hmul
    linarith
  · intro hzero
    have h := f.nearestTo_code
    rw [units, hzero, Nat.cast_zero, zero_div, zero_mul] at h
    exact h.unique (nearestTo_zero_iff.mpr (by norm_num))

/-- What is written has no plus sign to drop. -/
theorem withoutPlus_canonical (f : Fixed) :
    withoutPlus (String.ofList f.canonical).toList = some f.canonical := by
  rw [String.toList_ofList, canonical_eq]
  exact withoutPlus_digits (fun _ h => f.isDigit_of_mem_wholeDigits h) (Digits.ofNat_ne_nil _) _ _

/-- The text reads as the nearest word, if that is finite. -/
theorem readNumber_canonical {f : Fixed} (hf : f.code < infinityCode) :
    readNumber (String.ofList f.canonical) = .ok f.word := by
  rw [readNumber_eq_ok_iff, Number.read_of_spells f.withoutPlus_canonical f.spells_canonical]
  by_cases hzero : f.millionths = 0
  · -- A zero is read without looking for a nearest word.
    have hsig := f.significand_numeral_eq_zero_iff.mpr hzero
    have hcode := f.code_eq_zero_iff.mpr hzero
    rw [Decimal.nearest?, if_pos hsig, word, hcode]
    rfl
  · have hsig := mt f.significand_numeral_eq_zero_iff.mp hzero
    have hnear := f.nearestTo_code
    rw [units, ← f.abs_value_numeral] at hnear
    have hcode := mt f.code_eq_zero_iff.mp hzero
    rw [Decimal.nearest?_eq hsig hnear, if_neg (not_or.mpr ⟨hcode, not_le.mpr hf⟩)]
    rfl

end Fixed

/-! ### The two sides of `2 ^ 33` -/

/-- The code of `2 ^ 33`, where a step of the grid grows beyond a millionth. -/
def coarseCode : ℕ :=
  1055 * 2 ^ 52 + 2 ^ 52

/-- Where the grid grows coarse, in units. -/
theorem unitsOfCode_coarseCode : unitsOfCode coarseCode = 2 ^ 33 * unitsPerOne := by
  rw [coarseCode, unitsOfCode_grid (by omega) (.inr le_rfl)]
  decide +kernel

/-- A step from `2 ^ 33` on is longer than a millionth. -/
theorem lt_step_of_le {c : ℕ} (h : coarseCode ≤ c) : (unitsPerOne : ℚ) < 10 ^ 6 * step c := by
  have hstart : unitsOfCode coarseCode = 2 ^ (1055 + 52) := by
    rw [unitsOfCode_coarseCode]
    decide +kernel
  have hstep : 2 ^ 1055 ≤ step c :=
    two_pow_le_step (hstart ▸ strictMono_unitsOfCode.monotone h)
  have hunit : unitsPerOne < 10 ^ 6 * 2 ^ 1055 := by decide +kernel
  exact_mod_cast Nat.lt_of_lt_of_le hunit (Nat.mul_le_mul_left _ hstep)

/-- A step below `2 ^ 33` is shorter than a millionth. -/
theorem step_lt_of_lt {c : ℕ} (h : c < coarseCode) : (10 : ℚ) ^ 6 * step c < unitsPerOne := by
  have hend : unitsOfCode coarseCode = 2 ^ (1054 + 53) := by
    rw [unitsOfCode_coarseCode]
    decide +kernel
  have hstep : step c ≤ 2 ^ 1054 :=
    step_le_two_pow (hend ▸ strictMono_unitsOfCode h)
  have hunit : 10 ^ 6 * 2 ^ 1054 < unitsPerOne := by decide +kernel
  exact_mod_cast Nat.lt_of_le_of_lt (Nat.mul_le_mul_left _ hstep) hunit

/-! ### The rounded number between the two words -/

/-- Rounding to millionths moves a number by at most half a millionth. -/
theorem abs_units_sub_magnitude_le (x : Binary64) :
    |(Fixed.ofBinary64 x).units - x.magnitude| ≤ (unitsPerOne : ℚ) / (2 * 10 ^ 6) := by
  have hunit := cast_unitsPerOne_pos
  have herr := abs_roundHalfEven_sub_le (x.magnitude * decimalsPerOne) unitsPerOne_pos
  rw [← Fixed.millionths_ofBinary64, decimalsPerOne_eq] at herr
  rw [Fixed.units]
  generalize ((Fixed.ofBinary64 x).millionths : ℚ) = n at *
  generalize (unitsPerOne : ℚ) = u at *
  -- The error of the rounding, scaled from millionths to units.
  have hscale : n / 10 ^ 6 * u - x.magnitude
      = (n - (x.magnitude * 10 ^ 6 : ℕ) / u) * (u / 10 ^ 6) := by
    push_cast
    field_simp
    ring
  rw [hscale, abs_mul, abs_of_pos (by positivity : 0 < u / 10 ^ 6)]
  calc |n - (x.magnitude * 10 ^ 6 : ℕ) / u| * (u / 10 ^ 6)
      ≤ 1 / 2 * (u / 10 ^ 6) := mul_le_mul_of_nonneg_right herr (by positivity)
    _ = u / (2 * 10 ^ 6) := by ring

/-- Rounding to millionths does not lead beyond a whole number. -/
theorem millionths_le {x : Binary64} {k : ℕ} (h : x.magnitude ≤ k * unitsPerOne) :
    (Fixed.ofBinary64 x).millionths ≤ k * 10 ^ 6 := by
  rw [Fixed.millionths_ofBinary64, decimalsPerOne_eq]
  apply roundHalfEven_le unitsPerOne_pos
  rw [Nat.mul_right_comm]
  exact Nat.mul_le_mul_right _ h

/-- The next code is one step further, as a rational number. -/
theorem cast_unitsOfCode_succ (c : ℕ) : (unitsOfCode (c + 1) : ℚ) = unitsOfCode c + step c := by
  rw [unitsOfCode_succ, Nat.cast_add]

variable {x : Binary64}

/-- From `2 ^ 33` on the midpoints to the neighbours are more than half a millionth away, so that
rounding to millionths does not cross them. -/
theorem code_ofBinary64_of_le (h : coarseCode ≤ x.code) : (Fixed.ofBinary64 x).code = x.code := by
  have hnear := (Fixed.ofBinary64 x).nearestTo_code
  rcases Nat.eq_or_lt_of_le h with heq | hlt
  · -- The step below `2 ^ 33` is shorter, but `2 ^ 33` is not rounded at all.
    have hmag : x.magnitude = 2 ^ 33 * unitsPerOne := by
      rw [magnitude, ← heq, unitsOfCode_coarseCode]
    have hmillionths : (Fixed.ofBinary64 x).millionths = 2 ^ 33 * 10 ^ 6 := by
      rw [Fixed.millionths_ofBinary64, hmag, decimalsPerOne_eq, Nat.mul_right_comm,
        roundHalfEven_mul_right _ unitsPerOne_pos]
    have hexact : (Fixed.ofBinary64 x).units = unitsOfCode coarseCode := by
      rw [Fixed.units, hmillionths, unitsOfCode_coarseCode, Nat.cast_mul, Nat.cast_mul]
      generalize (unitsPerOne : ℚ) = u
      norm_num
    rw [hexact] at hnear
    rw [hnear.unique (nearestTo_unitsOfCode _), heq]
  · obtain ⟨c, hc⟩ := Nat.exists_eq_succ_of_ne_zero (Nat.ne_of_gt (Nat.zero_lt_of_lt hlt))
    have herr := abs_units_sub_magnitude_le x
    have hbelow := lt_step_of_le (show coarseCode ≤ c by omega)
    have habove := lt_step_of_le (show coarseCode ≤ c + 1 by omega)
    -- Both midpoints are half a step away, and the error is less than that.
    rw [magnitude, hc, Nat.succ_eq_add_one, abs_le] at herr
    rw [hc, Nat.succ_eq_add_one]
    refine hnear.unique (nearestTo_iff.mpr ?_)
    rw [cast_unitsOfCode_succ (c + 1)]
    refine ⟨⟨by linarith, fun htie => by linarith⟩, fun b hb => ?_⟩
    obtain rfl : b = c := Nat.succ.inj hb
    rw [cast_unitsOfCode_succ] at herr ⊢
    exact ⟨by linarith, fun htie => by linarith⟩

/-- Below `2 ^ 33` a number is rounded to at most `2 ^ 33`, which is itself a word. -/
theorem units_ofBinary64_le (h : x.code < coarseCode) :
    (Fixed.ofBinary64 x).units ≤ unitsOfCode coarseCode := by
  have hmag := strictMono_unitsOfCode.monotone h.le
  rw [unitsOfCode_coarseCode] at hmag ⊢
  rw [Nat.cast_mul]
  exact Fixed.units_le (millionths_le hmag)

/-- Up to `2 ^ 33` the midpoints to the neighbours are less than half a millionth away, so that
the word that a text reads as is that near to the rounded number. -/
theorem Fixed.abs_unitsOfCode_code_sub_lt {f : Fixed} (hle : f.units ≤ unitsOfCode coarseCode) :
    |(unitsOfCode f.code : ℚ) - f.units| < (unitsPerOne : ℚ) / (2 * 10 ^ 6) := by
  have hunit := cast_unitsPerOne_pos
  have hnonneg := f.units_nonneg
  have hnear := f.nearestTo_code
  have hcode := hnear.mono (nearestTo_unitsOfCode coarseCode) hle
  obtain ⟨⟨habove, -⟩, hbelow⟩ := nearestTo_iff.mp hnear
  generalize f.code = c at *
  -- The number lies between the midpoints to the two neighbours of the code.
  rw [abs_lt]
  constructor
  · rcases Nat.eq_or_lt_of_le hcode with rfl | hlt
    · -- At `2 ^ 33` the step above is a long one, but nothing is rounded from there.
      linarith
    · rw [cast_unitsOfCode_succ] at habove
      linarith [step_lt_of_lt hlt]
  · cases c with
    | zero =>
        rw [unitsOfCode_zero, Nat.cast_zero]
        linarith
    | succ b =>
        have hmid := (hbelow b rfl).1
        rw [cast_unitsOfCode_succ] at hmid ⊢
        linarith [step_lt_of_lt (show b < coarseCode by omega)]

/-- What is not beyond `2 ^ 33` reads as a finite word. -/
theorem Fixed.code_lt_of_units_le {f : Fixed} (hle : f.units ≤ unitsOfCode coarseCode) :
    f.code < infinityCode := by
  have hcode := f.nearestTo_code.mono (nearestTo_unitsOfCode coarseCode) hle
  exact Nat.lt_of_le_of_lt hcode (by decide)

/-- What a finite number is written as reads as a finite word. -/
theorem code_ofBinary64_lt (hx : x.IsFinite) : (Fixed.ofBinary64 x).code < infinityCode := by
  rcases Nat.lt_or_ge x.code coarseCode with hlt | hge
  · exact Fixed.code_lt_of_units_le (units_ofBinary64_le hlt)
  · rw [code_ofBinary64_of_le hge]
    exact hx

/-! ### The word that comes back -/

namespace Fixed

/-- The text does not show the sign of a zero. -/
theorem canonical_congr {f g : Fixed} (hcount : f.millionths = g.millionths)
    (hsign : f.millionths ≠ 0 → f.negative = g.negative) : f.canonical = g.canonical := by
  have hminus : (if f.negative ∧ f.millionths ≠ 0 then ['-'] else [])
      = if g.negative ∧ g.millionths ≠ 0 then ['-'] else [] := by
    by_cases hzero : f.millionths = 0
    · rw [if_neg fun h => h.2 hzero, if_neg fun h => h.2 (hcount ▸ hzero)]
    · rw [hsign hzero, hcount]
  unfold canonical shortDecimals decimals wholeDigits
  rw [hminus, hcount]

variable {f : Fixed}

/-- The word has the code, if this is finite. -/
theorem code_word (hf : f.code < infinityCode) : f.word.code = f.code :=
  code_ofCode (Nat.lt_trans hf (by decide))

/-- A zero comes back without its sign. -/
theorem negative_word (hf : f.code < infinityCode) (hne : f.millionths ≠ 0) :
    f.word.negative = f.negative := by
  rw [word, negative_ofCode (Nat.lt_trans hf (by decide)), numeral]
  simp [hne]

end Fixed

/-- From `2 ^ 33` on numbers come back as they are. -/
theorem word_ofBinary64_of_le (hx : x.IsFinite) (h : coarseCode ≤ x.code) :
    (Fixed.ofBinary64 x).word = x := by
  have hcode := code_ofBinary64_of_le h
  have hne : (Fixed.ofBinary64 x).millionths ≠ 0 := by
    rw [Ne, ← Fixed.code_eq_zero_iff, hcode]
    exact Nat.ne_of_gt (Nat.lt_of_lt_of_le (by decide) h)
  have hfinite := code_ofBinary64_lt hx
  rw [← ofCode_negative_code (Fixed.ofBinary64 x).word, Fixed.code_word hfinite,
    Fixed.negative_word hfinite hne, hcode]
  exact ofCode_negative_code x

/-- Up to `2 ^ 33` the word that a text reads as is rounded to the same count of millionths. -/
theorem Fixed.millionths_ofBinary64_word {f : Fixed} (hle : f.units ≤ unitsOfCode coarseCode) :
    (Fixed.ofBinary64 f.word).millionths = f.millionths := by
  have hunit := cast_unitsPerOne_pos
  have hdist := abs_unitsOfCode_code_sub_lt hle
  rw [Fixed.millionths_ofBinary64 f.word, magnitude, code_word (code_lt_of_units_le hle),
    decimalsPerOne_eq]
  apply roundHalfEven_eq_of_abs_sub_lt unitsPerOne_pos
  -- Half a millionth becomes one half when units are scaled to millionths.
  rw [Fixed.units] at hdist
  generalize (f.millionths : ℚ) = n at *
  generalize unitsOfCode f.code = m at *
  generalize (unitsPerOne : ℚ) = u at *
  have hscale : n - (m * 10 ^ 6 : ℕ) / u = (n / 10 ^ 6 * u - m) * (10 ^ 6 / u) := by
    push_cast
    field_simp
    ring
  rw [hscale, abs_mul, abs_of_pos (by positivity : 0 < 10 ^ 6 / u), abs_sub_comm]
  calc |(m : ℚ) - n / 10 ^ 6 * u| * (10 ^ 6 / u)
      < u / (2 * 10 ^ 6) * (10 ^ 6 / u) := mul_lt_mul_of_pos_right hdist (by positivity)
    _ = 1 / 2 := by field_simp

/-- Up to `2 ^ 33` the word that a text reads as has this text again. -/
theorem Fixed.canonical_ofBinary64_word {f : Fixed} (hle : f.units ≤ unitsOfCode coarseCode) :
    (Fixed.ofBinary64 f.word).canonical = f.canonical := by
  have hcount := millionths_ofBinary64_word hle
  refine canonical_congr hcount fun hne => ?_
  exact negative_word (code_lt_of_units_le hle) (hcount ▸ hne)

/-- The word that comes back has the same text as the number itself. -/
theorem canonical_ofBinary64_word (hx : x.IsFinite) :
    (Fixed.ofBinary64 (Fixed.ofBinary64 x).word).canonical = (Fixed.ofBinary64 x).canonical := by
  rcases Nat.lt_or_ge x.code coarseCode with hlt | hge
  · exact Fixed.canonical_ofBinary64_word (units_ofBinary64_le hlt)
  · rw [word_ofBinary64_of_le hx hge]

/-- The word that comes back is less than a millionth away: rounding twice moves a number by at
most half a millionth each time. -/
theorem abs_value_word_sub_value_lt (hx : x.IsFinite) :
    |(Fixed.ofBinary64 x).word.value - x.value| < 1 / 10 ^ 6 := by
  have hunit := cast_unitsPerOne_pos
  rcases Nat.lt_or_ge x.code coarseCode with hlt | hge
  · have hfinite := code_ofBinary64_lt hx
    have hmag : ((Fixed.ofBinary64 x).word.magnitude : ℚ) =
        unitsOfCode (Fixed.ofBinary64 x).code := by
      rw [magnitude, Fixed.code_word hfinite]
    have hclose : |((Fixed.ofBinary64 x).word.magnitude : ℚ) - x.magnitude|
        < (unitsPerOne : ℚ) / 10 ^ 6 := by
      -- From the number to the count of millionths, and from there to the nearest word.
      have hsecond := Fixed.abs_unitsOfCode_code_sub_lt (units_ofBinary64_le hlt)
      have hfirst := abs_units_sub_magnitude_le x
      have htri := abs_sub_le (unitsOfCode (Fixed.ofBinary64 x).code : ℚ)
        (Fixed.ofBinary64 x).units x.magnitude
      rw [hmag]
      linarith
    have hscaled : |((Fixed.ofBinary64 x).word.magnitude : ℚ) - x.magnitude| / unitsPerOne
        < 1 / 10 ^ 6 := by
      rw [div_lt_iff₀ hunit, one_div_mul_eq_div]
      exact hclose
    by_cases hzero : (Fixed.ofBinary64 x).millionths = 0
    · -- A number that is rounded to zero may lose its sign.
      have hcode := Fixed.code_eq_zero_iff _ |>.mpr hzero
      have hword : ((Fixed.ofBinary64 x).word.magnitude : ℚ) = 0 := by
        rw [hmag, hcode, unitsOfCode_zero, Nat.cast_zero]
      have hvalue : (Fixed.ofBinary64 x).word.value = 0 := by
        rw [← abs_eq_zero, Binary64.abs_value, hword, zero_div]
      rw [hword, zero_sub, abs_neg, Nat.abs_cast] at hscaled
      rw [hvalue, zero_sub, abs_neg, Binary64.abs_value]
      exact hscaled
    · rw [Binary64.abs_value_sub_value (Fixed.negative_word hfinite hzero)]
      exact hscaled
  -- On the coarse side the number itself comes back.
  · rw [word_ofBinary64_of_le hx hge, sub_self, abs_zero]
    norm_num

/-- A number from `2 ^ 33` on has a code from there on. -/
theorem coarseCode_le_code (h : 2 ^ 33 ≤ |x.value|) : coarseCode ≤ x.code := by
  rw [Binary64.abs_value, le_div_iff₀ cast_unitsPerOne_pos] at h
  have hmag : 2 ^ 33 * unitsPerOne ≤ unitsOfCode x.code := by exact_mod_cast h
  rw [← unitsOfCode_coarseCode] at hmag
  exact strictMono_unitsOfCode.le_iff_le.mp hmag

/-- A finite number has a text, and the text reads as a number that has the same text again and
is less than a millionth away; from `2 ^ 33` on it is the number itself. -/
theorem readNumber_writeNumber (hx : x.IsFinite) :
    ∃ text w, writeNumber x = .ok text ∧ readNumber text = .ok w ∧ w.IsFinite ∧
      writeNumber w = .ok text ∧ |w.value - x.value| < 1 / 10 ^ 6 ∧
      (2 ^ 33 ≤ |x.value| → w = x) := by
  have hcode := code_ofBinary64_lt hx
  have hread := Fixed.readNumber_canonical hcode
  have hfinite : (Fixed.ofBinary64 x).word.IsFinite := isFinite_ofCode hcode
  have hagain : writeNumber (Fixed.ofBinary64 x).word
      = .ok (String.ofList (Fixed.ofBinary64 x).canonical) := by
    rw [writeNumber_eq_ok_iff, canonical_ofBinary64_word hx]
    exact ⟨hfinite, rfl⟩
  exact ⟨_, _, writeNumber_eq_ok_iff.mpr ⟨hx, rfl⟩, hread, hfinite, hagain,
    abs_value_word_sub_value_lt hx, fun h => word_ofBinary64_of_le hx (coarseCode_le_code h)⟩

/-- The last word below `2 ^ 33`. -/
theorem readNumber_writeNumber_last_fine :
    (Binary64.mk 0x41FFFFFFFFFFFFFF).IsFinite ∧
      ∃ text w, writeNumber (Binary64.mk 0x41FFFFFFFFFFFFFF) = .ok text ∧
        readNumber text = .ok w ∧ w.IsFinite ∧ writeNumber w = .ok text ∧
        |w.value - (Binary64.mk 0x41FFFFFFFFFFFFFF).value| < 1 / 10 ^ 6 ∧
        (2 ^ 33 ≤ |(Binary64.mk 0x41FFFFFFFFFFFFFF).value| →
          w = Binary64.mk 0x41FFFFFFFFFFFFFF) :=
  ⟨by decide, readNumber_writeNumber (by decide)⟩

end RouteWire
