import RouteWire.Proofs.Number.Text

/-!
# Canonical texts

`CanonicalText cs n` is the grammar of canonical numbers, in the form of rules: an optional minus
sign, digits before the point without a zero in front, and up to six decimals of which the last is
not a zero. The text `-0` is of this form, and it is the only one that is not written.

- `Fixed.canonicalText` and `Fixed.canonical_ne`: what is written is canonical and not `-0`.
- `exists_fixed_of_canonicalText`: each other canonical text is written for a rounded number.
- `Fixed.value_numeral`: a text stands for the rounded number that it is written for.
-/

set_option autoImplicit false

namespace RouteWire

/-- Digits before the point: `0|[1-9][0-9]*`. -/
inductive WholeText : List Char → Prop where
  | zero : WholeText ['0']
  | digits {c : Char} {ds : List Char} (hc : c.isDigit) (hne : c ≠ '0')
      (hds : ∀ d ∈ ds, d.isDigit) : WholeText (c :: ds)

/-- A point and decimals, which may be left out, and the decimals: `(\.[0-9]{0,5}[1-9])?`. -/
inductive DecimalsText : List Char → List Char → Prop where
  | none : DecimalsText [] []
  | written {ds : List Char} {c : Char} (hds : ∀ d ∈ ds, d.isDigit) (hlen : ds.length ≤ 5)
      (hc : c.isDigit) (hne : c ≠ '0') : DecimalsText ('.' :: (ds ++ [c])) (ds ++ [c])

/-- A canonical text and the numeral that it spells: `-?`, digits and decimals. -/
inductive CanonicalText : List Char → Numeral → Prop where
  | mk {whole decimalsText decimals : List Char} (negative : Bool) (hwhole : WholeText whole)
      (hdecimals : DecimalsText decimalsText decimals) :
      CanonicalText ((if negative then ['-'] else []) ++ (whole ++ decimalsText))
        ⟨negative, whole, decimals, 0⟩

/-- The part before the point has digits only. -/
theorem WholeText.isDigit {ds : List Char} (h : WholeText ds) : ∀ c ∈ ds, c.isDigit := by
  cases h with
  | zero => exact fun c hc => List.mem_singleton.mp hc ▸ rfl
  | digits hc hne hds => exact List.forall_mem_cons.mpr ⟨hc, hds⟩

/-- The part before the point has a digit. -/
theorem WholeText.ne_nil {ds : List Char} (h : WholeText ds) : ds ≠ [] := by
  cases h with
  | zero => exact List.cons_ne_nil _ _
  | digits => exact List.cons_ne_nil _ _

/-- Decimals are digits. -/
theorem DecimalsText.isDigit {dt ds : List Char} (h : DecimalsText dt ds) :
    ∀ c ∈ ds, c.isDigit := by
  cases h with
  | none => exact fun c hc => absurd hc List.not_mem_nil
  | written hds hlen hc =>
      intro d hd
      rcases List.mem_append.mp hd with hd | hd
      · exact hds d hd
      · exact List.mem_singleton.mp hd ▸ hc

/-- There are six decimals at most. -/
theorem DecimalsText.length_le {dt ds : List Char} (h : DecimalsText dt ds) : ds.length ≤ 6 := by
  cases h with
  | none => exact Nat.zero_le 6
  | written hds hlen =>
      rw [List.length_append, List.length_singleton]
      omega

/-- The text is made of its decimals again. -/
theorem DecimalsText.eq {dt ds : List Char} (h : DecimalsText dt ds) :
    dt = if ds = [] then [] else '.' :: ds := by
  cases h with
  | none => rfl
  | written => simp

/-- A canonical text spells its numeral. -/
theorem CanonicalText.spells {cs : List Char} {n : Numeral} (h : CanonicalText cs n) :
    Numeral.Spells cs n := by
  cases h with
  | mk negative hwhole hdecimals =>
      cases hdecimals with
      | none => exact .mk negative (.whole hwhole.isDigit hwhole.ne_nil) .none
      | written hds hlen hc hne =>
          have hdecimals := (DecimalsText.written hds hlen hc hne).isDigit
          have h := Numeral.Spells.mk negative
            (.point hwhole.isDigit hdecimals (.inl hwhole.ne_nil)) .none
          rw [List.append_nil] at h
          exact h

/-! ### What is written is canonical -/

/-- The digits of a number can stand before the point. -/
theorem wholeText_ofNat (n : ℕ) : WholeText (Digits.ofNat n) := by
  have hdigits : ∀ c ∈ Digits.ofNat n, c.isDigit := fun _ h => Digits.isDigit_of_mem_ofNat h
  obtain ⟨c, ds, hcons⟩ := List.exists_cons_of_ne_nil (Digits.ofNat_ne_nil n)
  rw [hcons] at hdigits ⊢
  obtain ⟨hc, hds⟩ := List.forall_mem_cons.mp hdigits
  by_cases hzero : c = '0'
  · -- A zero in front is the only digit.
    subst hzero
    rw [Digits.eq_zero_of_ofNat_eq_cons hcons]
    exact .zero
  · exact .digits hc hzero hds

namespace Fixed

variable (f : Fixed)

/-- The last decimal that is written is not a zero. -/
theorem decimalsText :
    DecimalsText (if f.shortDecimals = [] then [] else '.' :: f.shortDecimals)
      f.shortDecimals := by
  have hdigits : ∀ c ∈ f.shortDecimals, c.isDigit := fun _ h => f.isDigit_of_mem_shortDecimals h
  obtain ⟨k, hk, -⟩ := f.exists_significand_eq
  rcases List.eq_nil_or_concat' f.shortDecimals with hnil | ⟨ds, c, hconcat⟩
  · rw [if_pos hnil, hnil]
    exact .none
  · have hlast : c ≠ '0' := by
      -- Backwards, `c` is where dropping zeros has stopped.
      have hdrop : f.decimals.reverse.dropWhile (· = '0') = c :: ds.reverse := by
        have hrev := congrArg List.reverse hconcat
        rwa [shortDecimals, List.reverse_reverse, List.reverse_append,
          List.reverse_singleton] at hrev
      have hhead := List.head?_dropWhile_not (fun c => decide (c = '0')) f.decimals.reverse
      rw [hdrop] at hhead
      simpa using hhead
    rw [hconcat] at hdigits hk ⊢
    rw [List.length_append, List.length_singleton] at hk
    rw [if_neg (by simp)]
    refine .written (fun d hd => hdigits d (List.mem_append_left _ hd)) (by omega) ?_ hlast
    exact hdigits c (by simp)

/-- What a rounded number is written as is canonical. -/
theorem canonicalText : CanonicalText f.canonical f.numeral := by
  rw [canonical_eq]
  exact .mk _ (wholeText_ofNat _) f.decimalsText

/-- The text stands for the rounded number. -/
theorem value_numeral : f.numeral.toDecimal.value = f.value := by
  have habs := f.abs_value_numeral
  rw [Decimal.abs_value] at habs
  rw [Decimal.value, value, cast_decimalsPerOne]
  show (((if f.numeral.negative then _ else _ : ℤ) : ℤ) : ℚ) * _ = _
  -- Zero is written without its sign, which makes no difference to its value.
  by_cases hzero : f.millionths = 0
  · simp [hzero, f.significand_numeral_eq_zero_iff.mpr hzero]
  · have hsign : f.numeral.negative = f.negative := by simp [numeral, hzero]
    rw [hsign]
    split
    · push_cast
      rw [neg_mul, habs, neg_div]
    · push_cast
      rw [habs]

/-- A zero is written without a sign. -/
theorem canonical_ne : f.canonical ≠ ['-', '0'] := by
  intro heq
  have hspells : Numeral.Spells ['-', '0'] ⟨true, ['0'], [], 0⟩ :=
    Numeral.spells_iff_scan.mpr rfl
  have hnumeral := f.spells_canonical
  rw [heq] at hnumeral
  have hsame := hnumeral.unique hspells
  -- The text would stand for zero and for a number that is written with a sign.
  have hsig : f.numeral.toDecimal.significand = 0 := by
    rw [hsame]
    rfl
  have hzero := f.significand_numeral_eq_zero_iff.mp hsig
  have hsign : f.numeral.negative = true := by rw [hsame]
  simp [numeral, hzero] at hsign

end Fixed

/-! ### Each canonical text is written -/

/-- The part before the point consists of the digits of its value. -/
theorem ofNat_value_of_wholeText {ds : List Char} (h : WholeText ds) :
    Digits.ofNat (Digits.value ds) = ds := by
  cases h with
  | zero => rfl
  | digits hc hne hds => exact Digits.ofNat_value hc hne hds

section
variable {f : Fixed} {whole ds : List Char} (hds : ∀ c ∈ ds, c.isDigit) (hlength : ds.length = 6)
  (h : Digits.value (whole ++ ds) = f.millionths)
include hds hlength h

/-- Digits before the point and all decimals are found again from the count that they make. -/
theorem Fixed.wholeDigits_eq (hwhole : WholeText whole) : f.wholeDigits = whole := by
  have hlt := Digits.value_lt hds
  rw [hlength, ← decimalsPerOne_eq] at hlt
  rw [Digits.value_append, hlength, ← decimalsPerOne_eq] at h
  rw [wholeDigits, ← h, Nat.mul_add_div (by decide), Nat.div_eq_of_lt hlt, Nat.add_zero,
    ofNat_value_of_wholeText hwhole]

/-- All decimals are found again from the count that they make. -/
theorem Fixed.decimals_eq : f.decimals = ds := by
  have hlt := Digits.value_lt hds
  have hne : ds ≠ [] := List.ne_nil_of_length_pos (hlength ▸ by decide)
  have hwidth : maxFractionDigits = ds.length := hlength.symm
  rw [hlength, ← decimalsPerOne_eq] at hlt
  rw [Digits.value_append, hlength, ← decimalsPerOne_eq] at h
  rw [decimals, ← h, Nat.mul_add_mod, Nat.mod_eq_of_lt hlt, hwidth]
  exact Digits.padded_value hds hne

end

/-- Decimals filled up with zeros to all that there are. -/
def filledDecimals (ds : List Char) : List Char :=
  ds ++ List.replicate (maxFractionDigits - ds.length) '0'

section
variable {dt ds : List Char} (h : DecimalsText dt ds)
include h

/-- Decimals are still digits after they are filled up. -/
theorem isDigit_filledDecimals : ∀ c ∈ filledDecimals ds, c.isDigit := by
  intro c hc
  rcases List.mem_append.mp hc with hc | hc
  · exact h.isDigit c hc
  · rw [List.eq_of_mem_replicate hc]
    rfl

/-- Decimals are filled up to all that there are. -/
theorem length_filledDecimals : (filledDecimals ds).length = maxFractionDigits := by
  have hle : ds.length ≤ maxFractionDigits := h.length_le
  rw [filledDecimals, List.length_append, List.length_replicate]
  omega

/-- The zeros are dropped again, and nothing else. -/
theorem dropWhile_filledDecimals :
    ((filledDecimals ds).reverse.dropWhile (· = '0')).reverse = ds := by
  rw [filledDecimals, List.reverse_append, List.reverse_replicate,
    List.dropWhile_append_of_pos fun c hc => by simp [List.eq_of_mem_replicate hc]]
  -- Backwards the zeros came first, and the decimal behind them is not a zero.
  cases h with
  | none => rfl
  | written hds hlen hc hne => simp [hne]

/-- Decimals that are written stand for more than zero. -/
theorem eq_nil_of_value_filledDecimals (hzero : Digits.value (filledDecimals ds) = 0) :
    ds = [] := by
  rw [filledDecimals, Digits.value_append, Digits.value_replicate_zero, Nat.add_zero] at hzero
  have hvalue := (Nat.mul_eq_zero.mp hzero).resolve_left (Nat.pow_pos (by decide)).ne'
  cases h with
  | none => rfl
  | @written ds c hds hlen hc hne =>
      -- The last decimal alone counts one or more.
      have hpos : 10 ^ ([] : List Char).length ≤ Digits.value [c] := Digits.le_value hc hne
      rw [Digits.value_append] at hvalue
      rw [List.length_nil, Nat.pow_zero] at hpos
      omega

end

namespace Fixed

/-- The rounded number that digits before the point and decimals make. -/
def ofDigits (negative : Bool) (whole decimals : List Char) : Fixed where
  negative := negative
  millionths := decimalsPerOne * Digits.value whole + Digits.value (filledDecimals decimals)

variable {negative : Bool} {whole dt ds : List Char}

/-- The digits make the count of millionths. -/
theorem value_eq_millionths_ofDigits (hdecimals : DecimalsText dt ds) :
    Digits.value (whole ++ filledDecimals ds) = (ofDigits negative whole ds).millionths := by
  rw [Digits.value_append, length_filledDecimals hdecimals]
  rfl

/-- The digits before the point come back from the number that they make. -/
theorem wholeDigits_ofDigits (hwhole : WholeText whole) (hdecimals : DecimalsText dt ds) :
    (ofDigits negative whole ds).wholeDigits = whole :=
  wholeDigits_eq (isDigit_filledDecimals hdecimals) (length_filledDecimals hdecimals)
    (value_eq_millionths_ofDigits hdecimals) hwhole

/-- The decimals come back, filled up. -/
theorem decimals_ofDigits (hdecimals : DecimalsText dt ds) :
    (ofDigits negative whole ds).decimals = filledDecimals ds :=
  decimals_eq (isDigit_filledDecimals hdecimals) (length_filledDecimals hdecimals)
    (value_eq_millionths_ofDigits hdecimals)

/-- The decimals come back without the zeros that filled them up. -/
theorem shortDecimals_ofDigits (hdecimals : DecimalsText dt ds) :
    (ofDigits negative whole ds).shortDecimals = ds := by
  rw [shortDecimals, decimals_ofDigits hdecimals, dropWhile_filledDecimals hdecimals]

/-- Only the digits of a zero make a zero. -/
theorem eq_of_millionths_ofDigits (hwhole : WholeText whole) (hdecimals : DecimalsText dt ds)
    (hzero : (ofDigits negative whole ds).millionths = 0) : whole = ['0'] ∧ ds = [] := by
  obtain ⟨hmul, hvalue⟩ := Nat.add_eq_zero_iff.mp hzero
  have hwholeZero := (Nat.mul_eq_zero.mp hmul).resolve_left (by decide)
  refine ⟨?_, eq_nil_of_value_filledDecimals hdecimals hvalue⟩
  rw [← ofNat_value_of_wholeText hwhole, hwholeZero]
  rfl

end Fixed

/-- A canonical text other than `-0` is written for a rounded number. -/
theorem exists_fixed_of_canonicalText {cs : List Char} {n : Numeral} (h : CanonicalText cs n)
    (hne : cs ≠ ['-', '0']) : ∃ f : Fixed, cs = f.canonical := by
  cases h with
  | @mk whole dt ds negative hwhole hdecimals =>
      refine ⟨Fixed.ofDigits negative whole ds, ?_⟩
      have hsign : (Fixed.ofDigits negative whole ds).numeral.negative = negative := by
        show (negative && decide ((Fixed.ofDigits negative whole ds).millionths ≠ 0)) = negative
        by_cases hzero : (Fixed.ofDigits negative whole ds).millionths = 0
        · -- A zero with a sign would be the text that is excluded.
          obtain ⟨rfl, rfl⟩ := Fixed.eq_of_millionths_ofDigits hwhole hdecimals hzero
          cases negative with
          | false => rfl
          | true => exact absurd (by rw [hdecimals.eq]; rfl) hne
        · simp [hzero]
      rw [Fixed.canonical_eq, hsign, Fixed.wholeDigits_ofDigits hwhole hdecimals,
        Fixed.shortDecimals_ofDigits hdecimals, ← hdecimals.eq]

end RouteWire
