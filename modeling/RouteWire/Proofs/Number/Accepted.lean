import RouteWire.Proofs.Number.Read
import RouteWire.Proofs.Numeral.Longest

/-!
# Which tokens are numbers

Without its leading plus sign a token is a number if it spells a numeral throughout.
`readNumber_by_spelling` says for every token what comes of it:

- A numeral in range is read as the word nearest to it, and a zero keeps the sign that is written.
- A token that does not spell a numeral throughout is refused. If the longest numeral at its front
  is out of range (`FrontOutOfRange`), then this is what the refusal says, although there is text
  left to read. If it is in range, or if there is none, the token is no number.

A numeral throughout that is out of range is the one case left (`readNumber_of_outOfRange`).
-/

set_option autoImplicit false

namespace RouteWire

open Binary64 Numeral

/-- The longest numeral at the front of a token, its leading plus sign apart, is out of range. -/
def FrontOutOfRange (token : String) : Prop :=
  ∃ cs text n, PlusDropped token.toList cs ∧ LongestSpelling cs text n ∧
    OutOfRange n.toDecimal.value

variable {token : String} {cs text rest : List Char} {n : Numeral}

/-- Only one numeral is the longest at the front. -/
theorem frontOutOfRange_iff (hplus : PlusDropped token.toList cs)
    (hlongest : LongestSpelling cs text n) :
    FrontOutOfRange token ↔ OutOfRange n.toDecimal.value := by
  constructor
  · rintro ⟨cs', text', n', hplus', hlongest', hrange⟩
    obtain rfl := hplus.unique hplus'
    obtain ⟨-, rfl⟩ := hlongest.unique hlongest'
    exact hrange
  · intro hrange
    exact ⟨cs, text, n, hplus, hlongest, hrange⟩

/-- A numeral in range. -/
theorem readNumber_of_spells (hplus : PlusDropped token.toList cs) (hn : Spells cs n)
    (hrange : ¬ OutOfRange n.toDecimal.value) :
    ∃ x, readNumber token = .ok x ∧ NearestWord n.toDecimal.value x ∧ x.negative = n.negative ∧
      (n.toDecimal.value = 0 → x = ofCode n.negative 0) := by
  obtain ⟨x, hx, hnearest, hsign⟩ := Decimal.exists_nearestWord hrange
  refine ⟨x, ?_, hnearest, hsign, fun hzero => ?_⟩
  · rw [readNumber_eq_ok_iff, Number.read_of_spells (withoutPlus_eq_some_iff.mpr hplus) hn, hx]
  · have hsignificand : n.toDecimal.significand = 0 := by
      by_contra hne
      exact Decimal.value_ne_zero hne hzero
    rw [Decimal.nearest?, if_pos hsignificand] at hx
    exact (Option.some.inj hx).symm

/-! ### Tokens that are refused -/

/-- A token with nothing after a plus sign, or with another sign, is no number. -/
theorem readNumber_of_withoutPlus_eq_none (h : withoutPlus token.toList = none) :
    readNumber token = .error (.malformed 0 (.notNumber token)) := by
  rw [readNumber, Number.read, h]
  rfl

/-- A token without a numeral at its front is no number. -/
theorem readNumber_of_scan_eq_none (hplus : PlusDropped token.toList cs) (h : scan cs = none) :
    readNumber token = .error (.malformed 0 (.notNumber token)) := by
  rw [readNumber, Number.read, withoutPlus_eq_some_iff.mpr hplus, Option.bind_some, h]
  rfl

/-- Text is left behind the longest numeral. Its range is looked at first. -/
theorem readNumber_of_rest (hplus : PlusDropped token.toList cs)
    (hscan : scan cs = some (n, rest)) (hrest : rest ≠ []) :
    (OutOfRange n.toDecimal.value →
        readNumber token = .error (.malformed 0 (.numberOutOfRange token))) ∧
      (¬ OutOfRange n.toDecimal.value →
        readNumber token = .error (.malformed 0 (.notNumber token))) := by
  have hread : Number.read token = n.toDecimal.nearest?.elim (.error (.numberOutOfRange token))
      fun _ => .error (.notNumber token) := by
    rw [Number.read, withoutPlus_eq_some_iff.mpr hplus, Option.bind_some, hscan]
    cases hx : n.toDecimal.nearest? with
    | some x => simp [hx, hrest]
    | none => simp [hx, hrest]
  rw [← Decimal.nearest?_eq_none_iff]
  refine ⟨fun hnone => ?_, fun hsome => ?_⟩
  · rw [readNumber, hread, hnone]
    rfl
  · obtain ⟨x, hx⟩ := Option.ne_none_iff_exists'.mp hsome
    rw [readNumber, hread, hx]
    rfl

end RouteWire
