import Mathlib.Data.List.DropRight
import RouteWire.Proofs.Number.Rounded

/-!
# Numbers with all their decimals

Before zeros are dropped, the text of a number has all six decimals, and the sign of the number
even if it rounds to zero. `FixedText x cs` says so without saying how the text is made.

- `fixedText_iff`: there is one such text, `Fixed.full` of the rounded number.
- `Fixed.canonical_eq_withoutZeros`: what is written is this text without the zeros at its end.
- `writeNumber_never_tooLong`: the text of a finite number takes at most 317 characters. This is
  less than a number may take, so that numbers are refused only for not being finite.
-/

set_option autoImplicit false

namespace RouteWire

open Binary64

/-- A text in fixed notation with six decimals for the number `x`: its sign, digits before the
point without a zero in front, a point and six decimals. The digits count the millionths nearest to
the magnitude of `x`, a tie going to the even count. -/
inductive FixedText (x : Binary64) : List Char → Prop where
  | mk {whole decimals : List Char} (hwhole : WholeText whole)
      (hdecimals : ∀ c ∈ decimals, c.isDigit) (hlength : decimals.length = 6)
      (hnearest : NearestInt (|x.value| * 10 ^ 6) (Digits.value (whole ++ decimals))) :
      FixedText x ((if x.negative then ['-'] else []) ++ whole ++ '.' :: decimals)

variable {x : Binary64} {cs : List Char}

/-- The text with all decimals is one in fixed notation. -/
theorem fixedText_full (x : Binary64) : FixedText x (Fixed.ofBinary64 x).full := by
  have hnearest := nearestInt_millionths x
  rw [← Fixed.value_digits] at hnearest
  exact .mk (wholeText_ofNat _) (fun _ h => Digits.isDigit_of_mem_padded h)
    (Fixed.length_decimals _) hnearest

/-- There is only one nearest count, and a count has only one text with all decimals. -/
theorem FixedText.eq_full (h : FixedText x cs) : cs = (Fixed.ofBinary64 x).full := by
  cases h with
  | @mk whole decimals hwhole hdecimals hlength hnearest =>
      have hcount : Digits.value (whole ++ decimals) = (Fixed.ofBinary64 x).millionths := by
        exact_mod_cast hnearest.unique (nearestInt_millionths x)
      rw [Fixed.full, Fixed.wholeDigits_eq hdecimals hlength hcount hwhole,
        Fixed.decimals_eq hdecimals hlength hcount]
      rfl

/-- The text with all decimals is the only one in fixed notation. -/
theorem fixedText_iff : FixedText x cs ↔ cs = (Fixed.ofBinary64 x).full := by
  constructor
  · exact FixedText.eq_full
  · intro h
    rw [h]
    exact fixedText_full x

/-! ### Dropping the zeros -/

/-- A text without the zeros at its end, without a point that this leaves at its end, and without
the sign of a zero. -/
def withoutZeros (cs : List Char) : List Char :=
  let short := (cs.rdropWhile (· = '0')).rdropWhile (· = '.')
  if short = ['-', '0'] then ['0'] else short

/-- Dropping goes on before the last part of a text only if nothing of this part is left. -/
theorem rdropWhile_append (p : Char → Bool) (cs ds : List Char) :
    (cs ++ ds).rdropWhile p =
      if ds.rdropWhile p = [] then cs.rdropWhile p else cs ++ ds.rdropWhile p := by
  simp only [List.rdropWhile, List.reverse_append, List.dropWhile_append, List.isEmpty_iff,
    List.reverse_eq_nil_iff]
  split
  · rfl
  · rw [List.reverse_append, List.reverse_reverse]

/-- Nothing is dropped from the end of a text if its last part does not hold the character. -/
theorem rdropWhile_append_of_ne {c : Char} {ds : List Char} (hne : ds ≠ [])
    (hds : ∀ d ∈ ds, d ≠ c) (cs : List Char) : (cs ++ ds).rdropWhile (· = c) = cs ++ ds := by
  refine List.rdropWhile_eq_self_iff.mpr fun hl => ?_
  rw [List.getLast_append_of_ne_nil hl hne]
  simpa using hds _ (List.getLast_mem hne)

namespace Fixed

variable (f : Fixed)

/-- Without zeros at the end and without a point at the end there are the decimals that are
written, or none. -/
theorem rdropWhile_full : ((f.full).rdropWhile (· = '0')).rdropWhile (· = '.') =
    (if f.negative then ['-'] else []) ++ f.wholeDigits ++
      if f.shortDecimals = [] then [] else '.' :: f.shortDecimals := by
  have hne : f.wholeDigits ≠ [] := Digits.ofNat_ne_nil _
  have hwhole : ∀ c ∈ f.wholeDigits, c ≠ '.' := fun c hc =>
    ne_of_isDigit (f.isDigit_of_mem_wholeDigits hc) rfl
  have hdecimals : ∀ c ∈ f.shortDecimals, c ≠ '.' := fun c hc =>
    ne_of_isDigit (f.isDigit_of_mem_shortDecimals hc) rfl
  have hshort : f.decimals.rdropWhile (· = '0') = f.shortDecimals := rfl
  rw [full, List.append_cons, rdropWhile_append, hshort]
  split
  · -- The point stops the zeros and is then dropped itself, up to the digits before it.
    rw [List.rdropWhile_concat_neg _ _ _ (by decide), List.rdropWhile_concat_pos _ _ _ (by decide),
      rdropWhile_append_of_ne hne hwhole, List.append_nil]
  · rename_i hleft
    rw [rdropWhile_append_of_ne hleft hdecimals, ← List.append_cons]

/-- What is written is the text with all decimals, without its zeros. -/
theorem canonical_eq_withoutZeros : f.canonical = withoutZeros f.full := by
  by_cases hzero : f.millionths = 0
  · -- Of a zero there are two texts with all decimals, one for each sign.
    obtain ⟨negative, millionths⟩ := f
    obtain rfl : millionths = 0 := hzero
    cases negative <;> decide
  · have hne := f.canonical_ne
    have hcanonical : f.canonical = (if f.negative then ['-'] else []) ++ f.wholeDigits ++
        if f.shortDecimals = [] then [] else '.' :: f.shortDecimals := by
      simp [canonical, hzero]
    rw [hcanonical] at hne ⊢
    rw [withoutZeros, rdropWhile_full, if_neg hne]

end Fixed

/-! ### The length of the text -/

/-- Infinity of either sign. -/
def Binary64.IsInfinite (x : Binary64) : Prop :=
  x.code = infinityCode

/-- A number that is not finite is a NaN or an infinity. -/
theorem not_isFinite_iff : ¬ x.IsFinite ↔ x.IsNaN ∨ x.IsInfinite := by
  unfold IsFinite IsNaN IsInfinite
  omega

/-- With all its decimals a finite number has one text, of at most 317 characters, which is less
than the most that a number may take. It is written as this text without its zeros. No number is
refused for the length of its text: only what is not a number, and infinity, has no text. -/
theorem writeNumber_never_tooLong :
    (∀ x : Binary64, x.IsFinite → ∃ cs, (∀ cs', FixedText x cs' ↔ cs' = cs) ∧
        cs.length ≤ 317 ∧ writeNumber x = .ok (String.ofList (withoutZeros cs))) ∧
      317 ≤ maxFixedLength ∧
      (∀ x, writeNumber x ≠ .error (.invalid 0 .textTooLong)) ∧
      ∀ x f, writeNumber x = .error f ↔
        (x.IsNaN ∨ x.IsInfinite) ∧ f = .invalid 0 .notFinite := by
  refine ⟨fun x hx => ?_, by decide, fun x herror => ?_, fun x f => ?_⟩
  · refine ⟨(Fixed.ofBinary64 x).full, fun cs' => fixedText_iff, length_full_le hx, ?_⟩
    rw [← Fixed.canonical_eq_withoutZeros]
    exact writeNumber_eq_ok_iff.mpr ⟨hx, rfl⟩
  · cases (writeNumber_eq_error_iff.mp herror).2
  · rw [writeNumber_eq_error_iff, not_isFinite_iff]

/-- The least finite number takes all of the 317 characters, of which 309 are digits before the
point. -/
theorem writeNumber_never_tooLong_least :
    (Binary64.mk 0xFFEFFFFFFFFFFFFF).IsFinite ∧
      ∃ cs, FixedText (Binary64.mk 0xFFEFFFFFFFFFFFFF) cs ∧ cs.length = 317 ∧
        writeNumber (Binary64.mk 0xFFEFFFFFFFFFFFFF) = .ok (String.ofList (withoutZeros cs)) := by
  have hfinite : (Binary64.mk 0xFFEFFFFFFFFFFFFF).IsFinite := by decide
  have hlength : (Fixed.ofBinary64 (Binary64.mk 0xFFEFFFFFFFFFFFFF)).full.length = 317 := by
    decide +kernel
  obtain ⟨cs, honly, -, hwrite⟩ := writeNumber_never_tooLong.1 _ hfinite
  obtain rfl := (honly _).mp (fixedText_full (Binary64.mk 0xFFEFFFFFFFFFFFFF))
  exact ⟨hfinite, _, fixedText_full _, hlength, hwrite⟩

end RouteWire
