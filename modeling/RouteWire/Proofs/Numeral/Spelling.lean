import RouteWire.Numeral
import RouteWire.Proofs.Sign

/-!
# How numerals are spelled

`Numeral.Spells cs n` is the grammar of numerals, in the form of rules: an optional minus sign,
the digits with at most one point and at least one digit, and an optional exponent.

- `scan_of_spells`: a text that spells a numeral is scanned to its end.
- `spells_of_scan`: what is scanned off a text is a part of it that spells the numeral.
- `Spells.numeralChar`: a spelling holds no other characters than digits, signs, a point and an
  exponent mark.
-/

set_option autoImplicit false

namespace RouteWire.Numeral

/-- Digits with at most one point: `D+(.D*)?` or `.D+`, with the digits before and after the
point. -/
inductive MantissaText : List Char → List Char → List Char → Prop where
  | whole {ds : List Char} (hds : ∀ c ∈ ds, c.isDigit) (hne : ds ≠ []) : MantissaText ds ds []
  | point {ds es : List Char} (hds : ∀ c ∈ ds, c.isDigit) (hes : ∀ c ∈ es, c.isDigit)
      (hne : ds ≠ [] ∨ es ≠ []) : MantissaText (ds ++ '.' :: es) ds es

/-- The sign of an exponent, which may be left out: `[+-]?`. -/
inductive ExponentSign : List Char → Bool → Prop where
  | none : ExponentSign [] false
  | plus : ExponentSign ['+'] false
  | minus : ExponentSign ['-'] true

/-- An exponent, which may be left out: `([eE][+-]?D+)?`. -/
inductive ExponentText : List Char → Int → Prop where
  | none : ExponentText [] 0
  | written {mark : Char} {sign ds : List Char} {negative : Bool} (hmark : mark = 'e' ∨ mark = 'E')
      (hsign : ExponentSign sign negative) (hds : ∀ c ∈ ds, c.isDigit) (hne : ds ≠ []) :
      ExponentText (mark :: (sign ++ ds))
        (if negative then -(Digits.value ds : Int) else Digits.value ds)

/-- The spellings of a numeral: `-?`, a mantissa and an exponent. -/
inductive Spells : List Char → Numeral → Prop where
  | mk {mantissa exponentText whole fraction : List Char} {exponent : Int} (negative : Bool)
      (hmantissa : MantissaText mantissa whole fraction)
      (hexponent : ExponentText exponentText exponent) :
      Spells ((if negative then ['-'] else []) ++ (mantissa ++ exponentText))
        ⟨negative, whole, fraction, exponent⟩

/-! ### Where the parts begin -/

/-- A mantissa begins with a digit or a point. -/
theorem MantissaText.exists_cons {mt ds es : List Char} (h : MantissaText mt ds es) :
    ∃ c cs, mt = c :: cs ∧ (c.isDigit ∨ c = '.') := by
  cases h with
  | whole hds hne =>
      obtain ⟨c, cs, rfl⟩ := List.exists_cons_of_ne_nil hne
      exact ⟨c, cs, rfl, .inl (hds c List.mem_cons_self)⟩
  | @point ds es hds hes hne =>
      cases ds with
      | nil => exact ⟨'.', es, rfl, .inr rfl⟩
      | cons c cs => exact ⟨c, _, rfl, .inl (hds c List.mem_cons_self)⟩

/-- The digits before the point are digits. -/
theorem MantissaText.isDigit_whole {mt ds es : List Char} (h : MantissaText mt ds es) :
    ∀ c ∈ ds, c.isDigit := by
  cases h with
  | whole hds => exact hds
  | point hds => exact hds

/-- The digits after the point are digits. -/
theorem MantissaText.isDigit_fraction {mt ds es : List Char} (h : MantissaText mt ds es) :
    ∀ c ∈ es, c.isDigit := by
  cases h with
  | whole => exact fun c hc => absurd hc List.not_mem_nil
  | point hds hes => exact hes

/-- An exponent does not begin with a digit. -/
theorem ExponentText.noDigitAhead {et : List Char} {e : Int} (h : ExponentText et e) :
    NoDigitAhead et := by
  cases h with
  | none => exact fun c hc => by simp at hc
  | written hmark =>
      rintro c ⟨⟩
      rcases hmark with rfl | rfl <;> rfl

/-- A point is not a digit. -/
theorem noDigitAhead_point (cs : List Char) : NoDigitAhead ('.' :: cs) := by
  rintro c ⟨⟩
  rfl

/-! ### A spelling is scanned to its end -/

/-- No decimals are scanned where an exponent begins. -/
theorem scanFraction_of_exponentText {et : List Char} {e : Int} (h : ExponentText et e) :
    scanFraction et = ([], et) := by
  cases h with
  | none => rfl
  | written hmark => rcases hmark with rfl | rfl <;> rfl

/-- The sign of an exponent ends where a digit follows. -/
theorem scanExponentSign_cons {sign cs : List Char} {c : Char} {negative : Bool}
    (h : ExponentSign sign negative) (hc : c.isDigit) :
    scanExponentSign (sign ++ c :: cs) = (negative, c :: cs) := by
  cases h with
  | plus => rfl
  | minus => rfl
  | none =>
      have hplus : c ≠ '+' := ne_of_isDigit hc rfl
      have hminus : c ≠ '-' := ne_of_isDigit hc rfl
      show scanExponentSign (c :: cs) = (false, c :: cs)
      unfold scanExponentSign
      split
      · rename_i heq
        cases heq
        exact absurd rfl hplus
      · exact takeMinus_of_ne hminus

/-- A written exponent takes all the digits that follow it, and nothing else. -/
theorem scanExponent_append {mark : Char} {sign ds : List Char} {negative : Bool}
    (hmark : mark = 'e' ∨ mark = 'E') (hsign : ExponentSign sign negative)
    (hds : ∀ c ∈ ds, c.isDigit) (hne : ds ≠ []) (cs : List Char) :
    scanExponent (mark :: (sign ++ (ds ++ cs))) =
      (if negative then -(Digits.value (ds ++ cs.takeWhile Char.isDigit) : Int)
        else Digits.value (ds ++ cs.takeWhile Char.isDigit), cs.dropWhile Char.isDigit) := by
  have hsplit : scanExponentSign (sign ++ (ds ++ cs)) = (negative, ds ++ cs) := by
    obtain ⟨c, tail, rfl⟩ := List.exists_cons_of_ne_nil hne
    exact scanExponentSign_cons hsign (hds c List.mem_cons_self)
  have hrun : ds ++ cs.takeWhile Char.isDigit ≠ [] := List.append_ne_nil_of_left_ne_nil hne _
  unfold scanExponent
  simp only [hsplit, List.takeWhile_append_of_pos hds, List.dropWhile_append_of_pos hds]
  rw [if_pos ⟨hmark, hrun⟩]

/-- An exponent is scanned to its end. -/
theorem scanExponent_of_exponentText {et : List Char} {e : Int} (h : ExponentText et e) :
    scanExponent et = (e, []) := by
  cases h with
  | none => rfl
  | written hmark hsign hds hne =>
      have hscan := scanExponent_append hmark hsign hds hne []
      simpa using hscan

/-- The minus sign of a spelling is taken off its mantissa. -/
theorem takeMinus_spelling {mt ds es : List Char} (h : MantissaText mt ds es) (negative : Bool)
    (et : List Char) :
    takeMinus ((if negative then ['-'] else []) ++ (mt ++ et)) = (negative, mt ++ et) := by
  cases negative with
  | true => rfl
  | false =>
      obtain ⟨c, cs, rfl, hc⟩ := h.exists_cons
      refine takeMinus_of_ne ?_
      rintro rfl
      simp at hc

/-- A spelling is scanned to its end, and the numeral is the one that it spells. -/
theorem scan_of_spells {cs : List Char} {n : Numeral} (h : Spells cs n) :
    scan cs = some (n, []) := by
  cases h with
  | @mk mt et whole fraction e negative hmt het =>
      have hsign := takeMinus_spelling hmt negative et
      unfold scan
      simp only [hsign]
      -- Each part ends where the next one begins, because that does not begin with a digit.
      cases hmt with
      | whole hds hne =>
          rw [takeWhile_isDigit hds het.noDigitAhead, dropWhile_isDigit hds het.noDigitAhead,
            scanFraction_of_exponentText het]
          simp only [scanExponent_of_exponentText het]
          rw [if_neg fun hnil => hne hnil.1]
      | point hds hes hne =>
          rw [List.append_assoc, List.cons_append,
            takeWhile_isDigit hds (noDigitAhead_point _),
            dropWhile_isDigit hds (noDigitAhead_point _)]
          simp only [scanFraction]
          rw [takeWhile_isDigit hes het.noDigitAhead, dropWhile_isDigit hes het.noDigitAhead]
          simp only [scanExponent_of_exponentText het]
          rw [if_neg fun hnil => hne.elim (· hnil.1) (· hnil.2)]

/-- A text spells at most one numeral. -/
theorem Spells.unique {text : List Char} {n n' : Numeral} (h : Spells text n)
    (h' : Spells text n') : n = n' := by
  have hscan := scan_of_spells h
  rw [scan_of_spells h'] at hscan
  cases hscan
  rfl

/-! ### What is scanned is a spelling -/

/-- A run of digits consists of digits. -/
theorem isDigit_of_mem_takeWhile {c : Char} {cs : List Char} (h : c ∈ cs.takeWhile Char.isDigit) :
    c.isDigit :=
  List.all_eq_true.mp List.all_takeWhile c h

/-- The sign that is scanned is one of an exponent. -/
theorem scanExponentSign_eq {cs rest : List Char} {negative : Bool}
    (h : scanExponentSign cs = (negative, rest)) :
    ∃ sign, ExponentSign sign negative ∧ cs = sign ++ rest := by
  unfold scanExponentSign at h
  split at h
  · cases h
    exact ⟨['+'], .plus, rfl⟩
  · unfold takeMinus at h
    split at h
    · cases h
      exact ⟨['-'], .minus, rfl⟩
    · cases h
      exact ⟨[], .none, rfl⟩

/-- The exponent that is scanned is one, and nothing is lost. -/
theorem scanExponent_eq {cs rest : List Char} {e : Int} (h : scanExponent cs = (e, rest)) :
    ∃ et, ExponentText et e ∧ cs = et ++ rest := by
  cases cs with
  | nil =>
      cases h
      exact ⟨[], .none, rfl⟩
  | cons c tail =>
      -- Without a mark, or without digits after it, nothing is scanned at all.
      cases hs : scanExponentSign tail with
      | mk negative after =>
          obtain ⟨sign, hsign, rfl⟩ := scanExponentSign_eq hs
          unfold scanExponent at h
          simp only [hs] at h
          split at h
          · rename_i hcond
            cases h
            refine ⟨_, .written hcond.1 hsign (fun _ hd => isDigit_of_mem_takeWhile hd) hcond.2, ?_⟩
            rw [List.cons_append, List.append_assoc, List.takeWhile_append_dropWhile]
          · cases h
            exact ⟨[], .none, rfl⟩

/-- The decimals that are scanned are digits behind a point, if there are any. -/
theorem scanFraction_eq {cs ds rest : List Char} (h : scanFraction cs = (ds, rest)) :
    ds = [] ∧ cs = rest ∨ (∀ c ∈ ds, c.isDigit) ∧ cs = '.' :: (ds ++ rest) := by
  unfold scanFraction at h
  split at h
  · cases h
    exact .inr ⟨fun _ hd => isDigit_of_mem_takeWhile hd, by rw [List.takeWhile_append_dropWhile]⟩
  · cases h
    exact .inl ⟨rfl, rfl⟩

/-- The numeral that is scanned is spelled at the front. -/
theorem spells_of_scan {cs rest : List Char} {n : Numeral} (h : scan cs = some (n, rest)) :
    ∃ text, cs = text ++ rest ∧ Spells text n := by
  have hcs := takeMinus_append cs
  unfold scan at h
  -- The parts are taken off from left to right, and each loses nothing.
  cases hm : takeMinus cs with
  | mk negative body =>
      rw [hm] at hcs
      simp only [hm] at h
      cases hf : scanFraction (body.dropWhile Char.isDigit) with
      | mk fraction afterFraction =>
          simp only [hf] at h
          cases he : scanExponent afterFraction with
          | mk e afterExponent =>
              simp only [he] at h
              split at h
              · exact absurd h (by simp)
              · rename_i hne
                cases h
                obtain ⟨et, het, rfl⟩ := scanExponent_eq he
                have hwhole : ∀ c ∈ body.takeWhile Char.isDigit, c.isDigit :=
                  fun _ hd => isDigit_of_mem_takeWhile hd
                have hbody := List.takeWhile_append_dropWhile (p := Char.isDigit) (l := body)
                -- The mantissa ends with the whole digits, or goes on with a point.
                obtain ⟨mt, hmt, hsplit⟩ : ∃ mt,
                    MantissaText mt (body.takeWhile Char.isDigit) fraction ∧
                      body = mt ++ (et ++ rest) := by
                  rcases scanFraction_eq hf with ⟨rfl, hrest⟩ | ⟨hfraction, hrest⟩
                  · refine ⟨_, .whole hwhole fun hnil => hne ⟨hnil, rfl⟩, ?_⟩
                    rw [← hrest, hbody]
                  · refine ⟨_, .point hwhole hfraction (not_and_or.mp hne), ?_⟩
                    rw [List.append_assoc, List.cons_append, ← hrest, hbody]
                refine ⟨_, ?_, .mk negative hmt het⟩
                rw [← hcs, hsplit, List.append_assoc, List.append_assoc]

/-- The spellings of a numeral are the texts that are scanned to their end. -/
theorem spells_iff_scan {cs : List Char} {n : Numeral} : Spells cs n ↔ scan cs = some (n, []) := by
  refine ⟨scan_of_spells, fun h => ?_⟩
  obtain ⟨text, rfl, htext⟩ := spells_of_scan h
  rw [List.append_nil]
  exact htext

/-! ### The characters of a spelling -/

/-- The characters that numerals are made of. -/
def NumeralChar (c : Char) : Prop :=
  c.isDigit ∨ c ∈ ['.', 'e', 'E', '+', '-']

/-- A spelling holds no other characters than those of numerals. -/
theorem Spells.numeralChar {cs : List Char} {n : Numeral} (h : Spells cs n) :
    ∀ c ∈ cs, NumeralChar c := by
  intro c hc
  cases h with
  | mk negative hmt het =>
      rcases List.mem_append.mp hc with hsign | hrest
      · cases negative <;> simp_all [NumeralChar]
      · rcases List.mem_append.mp hrest with hmem | hmem
        · cases hmt with
          | whole hds => exact .inl (hds c hmem)
          | point hds hes =>
              rcases List.mem_append.mp hmem with hd | hd
              · exact .inl (hds c hd)
              · rcases List.mem_cons.mp hd with rfl | hd
                · exact .inr (by simp)
                · exact .inl (hes c hd)
        · cases het with
          | none => exact absurd hmem List.not_mem_nil
          | written hmark hsign hds =>
              rcases List.mem_cons.mp hmem with rfl | hmem
              · rcases hmark with rfl | rfl <;> exact .inr (by simp)
              · rcases List.mem_append.mp hmem with hs | hd
                · cases hsign <;> simp_all [NumeralChar]
                · exact .inl (hds c hd)

/-- A negative numeral begins with a minus sign. -/
theorem Spells.minus_mem {cs : List Char} {n : Numeral} (h : Spells cs n)
    (hn : n.negative = true) : '-' ∈ cs := by
  cases h with
  | mk negative hmt het => simp_all

end RouteWire.Numeral
