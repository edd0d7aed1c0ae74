import RouteWire.Proofs.Numeral.Spelling

/-!
# The longest numeral at the front of a text

`LongestSpelling cs text n` says that `text` is the longest part at the front of `cs` that spells
a numeral. The scan takes exactly this part off (`longestSpelling_of_scan`), and takes nothing off
only where no part spells one (`scan_eq_none_iff`).

The scan goes at least as far as any spelling at the front. The mantissa is scanned to the end of
the mantissa of the spelling or further (`MantissaText.afterMantissa_suffix`), but never into an
exponent that is written (`MantissaText.afterMantissa_mark`), so that a longer mantissa costs no
exponent. `exists_scan_append` puts both together.
-/

set_option autoImplicit false

namespace RouteWire.Numeral

variable {cs text : List Char} {n : Numeral}

/-- The longest part at the front of `cs` that spells a numeral, and the numeral. -/
structure LongestSpelling (cs text : List Char) (n : Numeral) : Prop where
  spells : Spells text n
  front : text <+: cs
  longest : ∀ text' n', Spells text' n' → text' <+: cs → text'.length ≤ text.length

/-- There is one longest spelling, and it spells one numeral. -/
theorem LongestSpelling.unique {text' : List Char} {n' : Numeral} (h : LongestSpelling cs text n)
    (h' : LongestSpelling cs text' n') : text = text' ∧ n = n' := by
  have hle := h.longest text' n' h'.spells h'.front
  have hge := h'.longest text n h.spells h.front
  obtain rfl : text = text' :=
    (List.prefix_of_prefix_length_le h.front h'.front hge).eq_of_length (le_antisymm hge hle)
  exact ⟨rfl, h.spells.unique h'.spells⟩

/-! ### How far the scan goes -/

/-- What the scan of a mantissa leaves: the text without the digits at its front, and without a
point and the digits behind it. -/
def afterMantissa (cs : List Char) : List Char :=
  (scanFraction (cs.dropWhile Char.isDigit)).2

/-- The scan of decimals leaves an end of the text. -/
theorem scanFraction_suffix (cs : List Char) : (scanFraction cs).2 <:+ cs := by
  unfold scanFraction
  split
  · rename_i tail
    exact (List.dropWhile_suffix _).trans (List.suffix_cons '.' tail)
  · exact List.suffix_rfl

/-- The scan of a mantissa leaves an end of the text. -/
theorem afterMantissa_suffix (cs : List Char) : afterMantissa cs <:+ cs :=
  (scanFraction_suffix _).trans (List.dropWhile_suffix _)

/-- The scan of an exponent leaves an end of the text. -/
theorem scanExponent_suffix (cs : List Char) : (scanExponent cs).2 <:+ cs := by
  obtain ⟨et, -, hcs⟩ :
      ∃ et, ExponentText et (scanExponent cs).1 ∧ cs = et ++ (scanExponent cs).2 :=
    scanExponent_eq rfl
  exact ⟨et, hcs.symm⟩

/-- Digits may go on behind a mantissa without a point, and then a point may follow. -/
theorem afterMantissa_whole {ds : List Char} (hds : ∀ c ∈ ds, c.isDigit) (cs : List Char) :
    afterMantissa (ds ++ cs) = afterMantissa cs := by
  rw [afterMantissa, List.dropWhile_append_of_pos hds, ← afterMantissa]

/-- Behind a mantissa with a point only digits may go on. -/
theorem afterMantissa_point {ds es : List Char} (hds : ∀ c ∈ ds, c.isDigit)
    (hes : ∀ c ∈ es, c.isDigit) (cs : List Char) :
    afterMantissa (ds ++ '.' :: es ++ cs) = cs.dropWhile Char.isDigit := by
  rw [afterMantissa, List.append_assoc, List.cons_append,
    dropWhile_isDigit hds (noDigitAhead_point _)]
  show (es ++ cs).dropWhile Char.isDigit = cs.dropWhile Char.isDigit
  rw [List.dropWhile_append_of_pos hes]

section
variable {mt ds es : List Char} (h : MantissaText mt ds es)
include h

/-- The scan of a text that begins with a mantissa goes beyond that mantissa. -/
theorem MantissaText.afterMantissa_suffix (cs : List Char) : afterMantissa (mt ++ cs) <:+ cs := by
  cases h with
  | whole hds =>
      rw [afterMantissa_whole hds]
      exact Numeral.afterMantissa_suffix cs
  | point hds hes =>
      rw [afterMantissa_point hds hes]
      exact List.dropWhile_suffix _

/-- An exponent mark ends a mantissa. -/
theorem MantissaText.afterMantissa_mark {mark : Char} (hmark : mark = 'e' ∨ mark = 'E')
    (cs : List Char) : afterMantissa (mt ++ mark :: cs) = mark :: cs := by
  cases h with
  | whole hds =>
      rw [afterMantissa_whole hds]
      rcases hmark with rfl | rfl <;> rfl
  | point hds hes =>
      rw [afterMantissa_point hds hes]
      rcases hmark with rfl | rfl <;> rfl

/-- The digits of a mantissa at the front are scanned. -/
theorem MantissaText.scanned_ne_nil (cs : List Char) :
    (mt ++ cs).takeWhile Char.isDigit ≠ [] ∨
      (scanFraction ((mt ++ cs).dropWhile Char.isDigit)).1 ≠ [] := by
  cases h with
  | whole hds hne =>
      rw [List.takeWhile_append_of_pos hds]
      exact .inl (List.append_ne_nil_of_left_ne_nil hne _)
  | point hds hes hne =>
      rw [List.append_assoc, List.cons_append, takeWhile_isDigit hds (noDigitAhead_point _),
        dropWhile_isDigit hds (noDigitAhead_point _)]
      show ds ≠ [] ∨ (es ++ cs).takeWhile Char.isDigit ≠ []
      rw [List.takeWhile_append_of_pos hes]
      exact hne.imp_right fun h => List.append_ne_nil_of_left_ne_nil h _

end

/-- A mantissa and an exponent at the front of a text are scanned at least to their end. -/
theorem afterExponent_suffix {mt ds es et : List Char} {e : ℤ} (hmt : MantissaText mt ds es)
    (het : ExponentText et e) (cs : List Char) :
    (scanExponent (afterMantissa (mt ++ (et ++ cs)))).2 <:+ cs := by
  cases het with
  | none =>
      -- What follows may be an exponent or go on with the mantissa, and is scanned with it.
      exact (scanExponent_suffix _).trans (hmt.afterMantissa_suffix cs)
  | written hmark hsign hds hne =>
      rw [List.cons_append, hmt.afterMantissa_mark hmark, List.append_assoc,
        scanExponent_append hmark hsign hds hne]
      exact List.dropWhile_suffix _

/-- A text that begins with a spelling is scanned at least to the end of that spelling. -/
theorem exists_scan_append (h : Spells text n) (cs : List Char) :
    ∃ n' rest, scan (text ++ cs) = some (n', rest) ∧ rest <:+ cs := by
  cases h with
  | @mk mt et whole fraction e negative hmt het =>
      have hne := hmt.scanned_ne_nil (et ++ cs)
      have hsign := takeMinus_spelling hmt negative (et ++ cs)
      rw [List.append_assoc, List.append_assoc]
      unfold scan
      simp only [hsign]
      rw [if_neg fun hnil => hne.elim (· hnil.1) (· hnil.2)]
      exact ⟨_, _, rfl, afterExponent_suffix hmt het cs⟩

/-! ### The scan takes the longest spelling -/

/-- What is scanned is the longest spelling at the front. -/
theorem longestSpelling_of_scan {rest : List Char} (h : scan cs = some (n, rest)) :
    ∃ text, cs = text ++ rest ∧ LongestSpelling cs text n := by
  obtain ⟨text, hcs, htext⟩ := spells_of_scan h
  refine ⟨text, hcs, htext, ⟨rest, hcs.symm⟩, ?_⟩
  rintro text' n' htext' ⟨after, hafter⟩
  obtain ⟨m, left, hscan, hleft⟩ := exists_scan_append htext' after
  rw [hafter, h] at hscan
  cases hscan
  -- Both texts are what stands before their rests, and the scan leaves the shorter rest.
  have hshorter := hleft.length_le
  have hlength := congrArg List.length hcs
  have hlength' := congrArg List.length hafter
  rw [List.length_append] at hlength hlength'
  omega

/-- The scan finds nothing if and only if no spelling is at the front. -/
theorem scan_eq_none_iff : scan cs = none ↔ ∀ text n, Spells text n → ¬ text <+: cs := by
  constructor
  · rintro hnone text n htext ⟨after, rfl⟩
    obtain ⟨m, left, hscan, -⟩ := exists_scan_append htext after
    rw [hnone] at hscan
    cases hscan
  · intro h
    cases hscan : scan cs with
    | none => rfl
    | some found =>
        obtain ⟨text, -, hlongest⟩ := longestSpelling_of_scan hscan
        exact absurd hlongest.front (h text _ hlongest.spells)

end RouteWire.Numeral
