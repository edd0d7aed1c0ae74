import RouteWire.Proofs.Decimal
import RouteWire.Proofs.Numeral.Spelling

/-!
# The place of the leading digit

A numeral out of range is told to be too small or too large by the decimal place of its leading
digit and its exponent. The place can be counted in one pass over the characters of the mantissa,
without building a number: `PlaceCounter` is that count.

- `abs_count_run_le`: after any characters the counter is no further from zero than their number.
- `count_run`: over a mantissa the counter ends at `Numeral.place`.
- `abs_value_bounds`: place and exponent together bound the number by two powers of
  ten, so that the sign of their sum says on which side of one the number lies
  (`abs_value_lt_one_iff`).
- `vanishes_eq`: the sum of two 64-bit words says so too, unless it wraps around. Then it says the
  opposite. Where place and sum are words, what counts as too small has its leading digit behind the
  point (`place_add_exponent_le_zero`).
-/

set_option autoImplicit false

namespace RouteWire

/-- The count of decimal places over the first characters of a mantissa: whether a digit that is
not zero was seen, whether the point was seen, and the place that results. -/
structure PlaceCounter where
  significant : Bool := false
  afterPoint : Bool := false
  count : Int := 0

namespace PlaceCounter

/-- Counts one character. Before the point, digits count up from the first that is not zero; after
the point, zeros count down to the first digit that is not zero. -/
def step (s : PlaceCounter) (c : Char) : PlaceCounter :=
  if c = '.' then { s with afterPoint := true }
  else
    let significant := s.significant || c ≠ '0'
    if significant && !s.afterPoint then ⟨significant, s.afterPoint, s.count + 1⟩
    else if !significant && s.afterPoint then ⟨significant, s.afterPoint, s.count - 1⟩
    else ⟨significant, s.afterPoint, s.count⟩

/-- Counts characters in order. -/
def run (cs : List Char) : PlaceCounter :=
  cs.foldl step {}

/-! ### How far the counter moves -/

/-- A character moves the counter by one at most. -/
theorem abs_count_step_le (s : PlaceCounter) (c : Char) : |(s.step c).count| ≤ |s.count| + 1 := by
  have hup := abs_add_le s.count 1
  have hdown := abs_sub s.count 1
  rw [abs_one] at hup hdown
  unfold step
  dsimp only
  -- A point, a digit that counts up, a zero that counts down, a digit that does not count.
  split_ifs
  · exact le_add_of_nonneg_right zero_le_one
  · exact hup
  · exact hdown
  · exact le_add_of_nonneg_right zero_le_one

/-- The counter moves by the number of characters at most. -/
theorem abs_count_foldl_le (cs : List Char) (s : PlaceCounter) :
    |(cs.foldl step s).count| ≤ |s.count| + cs.length := by
  induction cs generalizing s with
  | nil => simp
  | cons c cs ih =>
      have hstep := abs_count_step_le s c
      have hrest := ih (s.step c)
      rw [List.foldl_cons, List.length_cons]
      push_cast
      linarith

/-- After any characters the counter is no further from zero than there were characters. -/
theorem abs_count_run_le (cs : List Char) : |(run cs).count| ≤ cs.length := by
  simpa [run] using abs_count_foldl_le cs {}

/-! ### Where the counter ends -/

/-- From the first digit that is not zero on, every digit before the point counts. -/
theorem foldl_step_significant {ds : List Char} (hds : ∀ c ∈ ds, c.isDigit) (k : Int) :
    ds.foldl step ⟨true, false, k⟩ = ⟨true, false, k + ds.length⟩ := by
  induction ds generalizing k with
  | nil => simp
  | cons c ds ih =>
      have hpoint : c ≠ '.' := ne_of_isDigit (hds c List.mem_cons_self) rfl
      have hstep : step ⟨true, false, k⟩ c = ⟨true, false, k + 1⟩ := by simp [step, hpoint]
      rw [List.foldl_cons, hstep, ih fun d hd => hds d (List.mem_cons_of_mem _ hd)]
      push_cast [List.length_cons]
      rw [add_right_comm, add_assoc]

/-- Before the point, zeros at the front do not count. -/
theorem foldl_step_whole {ds : List Char} (hds : ∀ c ∈ ds, c.isDigit) :
    ds.foldl step {} =
      ⟨decide (ds.dropWhile (· = '0') ≠ []), false, (ds.dropWhile (· = '0')).length⟩ := by
  induction ds with
  | nil => rfl
  | cons c ds ih =>
      have htail : ∀ d ∈ ds, d.isDigit := fun d hd => hds d (List.mem_cons_of_mem _ hd)
      by_cases hzero : c = '0'
      · -- A zero at the front leaves the counter as it was.
        have hstep : step {} '0' = {} := rfl
        rw [hzero, List.foldl_cons, hstep, ih htail]
        simp
      · -- From here on the other induction takes over.
        have hpoint : c ≠ '.' := ne_of_isDigit (hds c List.mem_cons_self) rfl
        have hstep : step {} c = ⟨true, false, 1⟩ := by simp [step, hpoint, hzero]
        rw [List.foldl_cons, hstep, foldl_step_significant htail]
        simp [hzero, add_comm]

/-- After the point, digits do not count once one was not zero. -/
theorem foldl_step_fraction_significant {es : List Char} (hes : ∀ c ∈ es, c.isDigit) (k : Int) :
    es.foldl step ⟨true, true, k⟩ = ⟨true, true, k⟩ := by
  induction es with
  | nil => rfl
  | cons c es ih =>
      have hpoint : c ≠ '.' := ne_of_isDigit (hes c List.mem_cons_self) rfl
      have hstep : step ⟨true, true, k⟩ c = ⟨true, true, k⟩ := by simp [step, hpoint]
      rw [List.foldl_cons, hstep, ih fun d hd => hes d (List.mem_cons_of_mem _ hd)]

/-- After the point, zeros count down while all digits were zeros. -/
theorem foldl_step_fraction {es : List Char} (hes : ∀ c ∈ es, c.isDigit) (k : Int) :
    (es.foldl step ⟨false, true, k⟩).count = k - (es.takeWhile (· = '0')).length := by
  induction es generalizing k with
  | nil => simp
  | cons c es ih =>
      have htail : ∀ d ∈ es, d.isDigit := fun d hd => hes d (List.mem_cons_of_mem _ hd)
      by_cases hzero : c = '0'
      · have hstep : step ⟨false, true, k⟩ '0' = ⟨false, true, k - 1⟩ := rfl
        rw [hzero, List.foldl_cons, hstep, ih htail]
        simp only [List.takeWhile_cons, decide_true, if_true, List.length_cons]
        omega
      · have hpoint : c ≠ '.' := ne_of_isDigit (hes c List.mem_cons_self) rfl
        have hstep : step ⟨false, true, k⟩ c = ⟨true, true, k⟩ := by simp [step, hpoint, hzero]
        rw [List.foldl_cons, hstep, foldl_step_fraction_significant htail]
        simp [hzero]

/-- Over a mantissa the counter ends at the place of the leading digit. -/
theorem count_run {mantissa : List Char} {n : Numeral}
    (h : Numeral.MantissaText mantissa n.whole n.fraction) : (run mantissa).count = n.place := by
  obtain ⟨negative, whole, fraction, exponent⟩ := n
  unfold run Numeral.place
  cases h with
  | whole hds hne =>
      rw [foldl_step_whole hds]
      split
      · rename_i hnil
        simp [hnil]
      · rfl
  | point hds hes hne =>
      rw [List.foldl_append, foldl_step_whole hds, List.foldl_cons]
      -- What the point is met with: no digit that counts so far, or some.
      by_cases hnil : whole.dropWhile (· = '0') = []
      · have hpoint : step ⟨decide (whole.dropWhile (· = '0') ≠ []), false,
            (whole.dropWhile (· = '0')).length⟩ '.' = ⟨false, true, 0⟩ := by simp [step, hnil]
        rw [hpoint, foldl_step_fraction hes, if_pos hnil, zero_sub]
      · have hpoint : step ⟨decide (whole.dropWhile (· = '0') ≠ []), false,
            (whole.dropWhile (· = '0')).length⟩ '.' =
              ⟨true, true, (whole.dropWhile (· = '0')).length⟩ := by simp [step, hnil]
        rw [hpoint, foldl_step_fraction_significant hes, if_neg hnil]

end PlaceCounter

namespace Numeral

/-- The characters of a spelling that are looked at for the place: those after a minus sign that
are a digit or a point. -/
def digitPart (cs : List Char) : List Char :=
  (takeMinus cs).2.takeWhile fun c => c = '.' || c.isDigit

/-- There are no more of those characters than characters in the text. -/
theorem length_digitPart_le (cs : List Char) : (digitPart cs).length ≤ cs.length := by
  have hsplit := congrArg List.length (takeMinus_append cs)
  have htake := (List.takeWhile_prefix (l := (takeMinus cs).2)
    fun c => c = '.' || c.isDigit).length_le
  rw [List.length_append] at hsplit
  unfold digitPart
  omega

/-- Those characters are the mantissa. -/
theorem mantissaText_digitPart {cs : List Char} {n : Numeral} (h : Spells cs n) :
    MantissaText (digitPart cs) n.whole n.fraction := by
  cases h with
  | @mk mantissa exponentText whole fraction exponent negative hmantissa hexponent =>
      have hall : ∀ c ∈ mantissa, (c = '.' || c.isDigit) = true := by
        intro c hc
        cases hmantissa with
        | whole hds => simp [hds c hc]
        | point hds hes =>
            rcases List.mem_append.mp hc with hd | hd
            · simp [hds c hd]
            · rcases List.mem_cons.mp hd with rfl | he
              · rfl
              · simp [hes c he]
      have hend : exponentText.takeWhile (fun c => c = '.' || c.isDigit) = [] := by
        cases hexponent with
        | none => rfl
        | written hmark => rcases hmark with rfl | rfl <;> rfl
      rw [digitPart, takeMinus_spelling hmantissa, List.takeWhile_append_of_pos hall, hend,
        List.append_nil]
      exact hmantissa

/-! ### The place and the size of the number -/

/-- Place and exponent are added as 64-bit words; this says that the sum is one, if they are added
at all. -/
def SumFits (n : Numeral) : Prop :=
  WordExponent n.exponent → WordExponent (n.place + n.exponent)

instance (n : Numeral) : Decidable n.SumFits :=
  inferInstanceAs (Decidable (_ → _))

/-- From the leading digit to the last one there are as many digits as the place and the digits
after the point say. -/
theorem place_add_length (n : Numeral) :
    n.place + n.fraction.length = ((n.whole ++ n.fraction).dropWhile (· = '0')).length := by
  rw [List.dropWhile_append]
  unfold place
  by_cases hnil : n.whole.dropWhile (· = '0') = []
  · -- The leading digit stands after the point, behind as many zeros as the place says.
    have hsplit := congrArg List.length
      (List.takeWhile_append_dropWhile (p := fun c => decide (c = '0')) (l := n.fraction))
    rw [List.length_append] at hsplit
    simp only [hnil, List.isEmpty_nil, if_true]
    omega
  · -- The leading digit stands before the point, and all decimals are behind it.
    have hempty : (n.whole.dropWhile (· = '0')).isEmpty = false := by simpa using hnil
    rw [if_neg hnil, hempty, if_neg (by simp), List.length_append]
    push_cast
    rfl

/-- Zeros in front do not count, and the digit after them is at least one. -/
theorem value_bounds {ds : List Char} (hds : ∀ c ∈ ds, c.isDigit) (h : Digits.value ds ≠ 0) :
    10 ^ ((ds.dropWhile (· = '0')).length - 1) ≤ Digits.value ds ∧
      Digits.value ds < 10 ^ (ds.dropWhile (· = '0')).length ∧ ds.dropWhile (· = '0') ≠ [] := by
  induction ds with
  | nil => simp at h
  | cons c ds ih =>
      by_cases hzero : c = '0'
      · have hvalue : Digits.value ('0' :: ds) = Digits.value ds := by simp [Digits.value_cons]
        rw [hzero, hvalue] at h
        rw [hzero, hvalue, List.dropWhile_cons_of_pos (by simp)]
        exact ih (fun d hd => hds d (List.mem_cons_of_mem _ hd)) h
      · rw [List.dropWhile_cons_of_neg (by simpa using hzero)]
        exact ⟨Digits.le_value (hds c List.mem_cons_self) hzero, Digits.value_lt hds, by simp⟩

variable {n : Numeral}

/-- The number is less than ten to the power of place and exponent, and at least a tenth of that. -/
theorem abs_value_bounds (hwhole : ∀ c ∈ n.whole, c.isDigit)
    (hfraction : ∀ c ∈ n.fraction, c.isDigit) (h : n.toDecimal.significand ≠ 0) :
    (10 : ℚ) ^ (n.place + n.exponent - 1) ≤ |n.toDecimal.value| ∧
      |n.toDecimal.value| < 10 ^ (n.place + n.exponent) := by
  have hdigits : ∀ c ∈ n.whole ++ n.fraction, c.isDigit := fun c hc =>
    (List.mem_append.mp hc).elim (hwhole c) (hfraction c)
  obtain ⟨hlow, hhigh, hne⟩ := value_bounds hdigits h
  have hplace := n.place_add_length
  have hpos := List.length_pos_iff.mpr hne
  generalize ((n.whole ++ n.fraction).dropWhile (· = '0')).length = k at *
  have hten : (10 : ℚ) ≠ 0 := by norm_num
  have hexp : (0 : ℚ) < 10 ^ n.toDecimal.exponent := by positivity
  have hlow' : (10 : ℚ) ^ (k - 1) ≤ n.toDecimal.significand := by exact_mod_cast hlow
  have hhigh' : (n.toDecimal.significand : ℚ) < 10 ^ k := by exact_mod_cast hhigh
  -- With `k` digits from the leading one on, the significand is between two powers of ten.
  have hsum : n.place + n.exponent = k + n.toDecimal.exponent := by
    show _ = _ + (n.exponent - n.fraction.length)
    omega
  have hbelow : n.place + n.exponent - 1 = ((k - 1 : ℕ) : ℤ) + n.toDecimal.exponent := by omega
  rw [Decimal.abs_value, hbelow, hsum, zpow_add₀ hten, zpow_add₀ hten, zpow_natCast, zpow_natCast]
  exact ⟨mul_le_mul_of_nonneg_right hlow' hexp.le, mul_lt_mul_of_pos_right hhigh' hexp⟩

/-- The sign of the sum of place and exponent says on which side of one the number lies. -/
theorem abs_value_lt_one_iff (hwhole : ∀ c ∈ n.whole, c.isDigit)
    (hfraction : ∀ c ∈ n.fraction, c.isDigit) (h : n.toDecimal.significand ≠ 0) :
    |n.toDecimal.value| < 1 ↔ n.place + n.exponent ≤ 0 := by
  obtain ⟨hlow, hhigh⟩ := abs_value_bounds hwhole hfraction h
  constructor
  · intro hlt
    by_contra hpos
    have hone : (1 : ℚ) ≤ 10 ^ (n.place + n.exponent - 1) :=
      one_le_zpow₀ (by norm_num) (by omega)
    linarith
  · intro hle
    have hone : (10 : ℚ) ^ (n.place + n.exponent) ≤ 1 := zpow_le_one_of_nonpos₀ (by norm_num) hle
    linarith

/-! ### The sum in 64 bits -/

/-- The exponents that are words, by powers of two. -/
theorem wordExponent_iff {e : Int} : WordExponent e ↔ -2 ^ 63 ≤ e ∧ e < 2 ^ 63 := by
  have hmin : Int64.minValue.toInt = -2 ^ 63 := rfl
  have hmax : Int64.maxValue.toInt = 2 ^ 63 - 1 := rfl
  rw [WordExponent, hmin, hmax]
  omega

/-- A sum of two words that is no word itself has the wrong sign. -/
theorem ofInt_add_le_zero_iff {a b : Int} (ha : |a| ≤ 2 ^ 62) (hb : WordExponent b) :
    Int64.ofInt a + Int64.ofInt b ≤ 0 ↔ (WordExponent (a + b) ↔ a + b ≤ 0) := by
  have hsize : Int64.size = 2 ^ 64 := rfl
  have hzero : (0 : Int64).toInt = 0 := rfl
  rw [abs_le] at ha
  rw [wordExponent_iff] at hb ⊢
  rw [← Int64.ofInt_add, Int64.le_iff_toInt_le, hzero, Int64.toInt_ofInt, hsize, Int.bmod_def]
  split <;> omega

/-- Whether a numeral counts as too small. If the sum of place and exponent is no word, the answer
is the wrong one. -/
theorem vanishes_eq (hplace : |n.place| ≤ 2 ^ 62) :
    n.vanishes = decide (n.SumFits ↔ n.place + n.exponent ≤ 0) := by
  unfold vanishes SumFits
  by_cases hword : WordExponent n.exponent
  · rw [if_pos hword, decide_eq_decide, ofInt_add_le_zero_iff hplace hword]
    simp [hword]
  · -- An exponent that is no word is so large that its sign decides, whatever the place.
    rw [if_neg hword, decide_eq_decide]
    simp only [hword, false_imp_iff, true_iff]
    rw [abs_le] at hplace
    rw [wordExponent_iff] at hword
    omega

/-- Where place and sum are words, a numeral counts as too small only if its leading digit is
behind the point. -/
theorem place_add_exponent_le_zero (hplace : WordExponent n.place) (hfits : n.SumFits)
    (h : n.vanishes = true) : n.place + n.exponent ≤ 0 := by
  unfold vanishes at h
  split at h
  · rename_i hword
    have hsize : Int64.size = 2 ^ 64 := rfl
    have hzero : (0 : Int64).toInt = 0 := rfl
    have hsum := wordExponent_iff.mp (hfits hword)
    have hle := of_decide_eq_true h
    -- The sum is a word, so that it does not wrap around.
    rw [← Int64.ofInt_add, Int64.le_iff_toInt_le, hzero, Int64.toInt_ofInt, hsize,
      Int.bmod_def] at hle
    split at hle <;> omega
  · rename_i hword
    have hneg := of_decide_eq_true h
    rw [wordExponent_iff] at hplace hword
    omega

end Numeral

end RouteWire
