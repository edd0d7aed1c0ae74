import RouteWire.Decimal
import RouteWire.Digits
import RouteWire.Sign

/-!
# Numerals

A numeral is the spelling of a decimal number: an optional minus sign, digits with at most one
point, at least one digit in all, and an optional exponent. `Numeral.scan` takes the longest
numeral off the front of a text. An exponent mark without digits after it does not belong to
the numeral.
-/

set_option autoImplicit false

namespace RouteWire

/-- The parts of a numeral. An exponent that is not written is zero. -/
structure Numeral where
  negative : Bool
  whole : List Char
  fraction : List Char
  exponent : Int

namespace Numeral

/-- The digits after a point, and what follows them; none if there is no point. -/
def scanFraction : List Char → List Char × List Char
  | '.' :: cs => (cs.takeWhile Char.isDigit, cs.dropWhile Char.isDigit)
  | cs => ([], cs)

/-- Whether an exponent has a minus sign, and what follows its sign. -/
def scanExponentSign : List Char → Bool × List Char
  | '+' :: cs => (false, cs)
  | cs => takeMinus cs

/-- A complete exponent and what follows it; zero and the whole text if there is none. -/
def scanExponent (cs : List Char) : Int × List Char :=
  match cs with
  | [] => (0, [])
  | c :: tail =>
    let (negative, rest) := scanExponentSign tail
    let ds := rest.takeWhile Char.isDigit
    if (c = 'e' ∨ c = 'E') ∧ ds ≠ [] then
      (if negative then -(Digits.value ds : Int) else Digits.value ds,
        rest.dropWhile Char.isDigit)
    else (0, cs)

/-- Takes the longest numeral off the front of a text and gives it with what follows it. -/
def scan (cs : List Char) : Option (Numeral × List Char) :=
  let (negative, cs) := takeMinus cs
  let whole := cs.takeWhile Char.isDigit
  let (fraction, cs) := scanFraction (cs.dropWhile Char.isDigit)
  let (exponent, cs) := scanExponent cs
  if whole = [] ∧ fraction = [] then none
  else some (⟨negative, whole, fraction, exponent⟩, cs)

/-- The number that a numeral spells. -/
def toDecimal (n : Numeral) : Decimal where
  negative := n.negative
  significand := Digits.value (n.whole ++ n.fraction)
  exponent := n.exponent - n.fraction.length

/-- The decimal place of the leading digit that is not zero, before the exponent is counted in:
the digits read as `0.ddd` times ten to this power. -/
def place (n : Numeral) : Int :=
  if n.whole.dropWhile (· = '0') = [] then -((n.fraction.takeWhile (· = '0')).length : Int)
  else (n.whole.dropWhile (· = '0')).length

/-- Whether an exponent fits a 64-bit word. -/
def WordExponent (e : Int) : Prop :=
  Int64.minValue.toInt ≤ e ∧ e ≤ Int64.maxValue.toInt

instance (e : Int) : Decidable (WordExponent e) :=
  inferInstanceAs (Decidable (_ ∧ _))

/-- Whether a numeral that is out of range counts as too small, and not as too large: its digits
begin after the point once the exponent is counted in. Place and exponent are added as 64-bit
words, so the sum wraps around; an exponent that is no such word decides by its sign. -/
def vanishes (n : Numeral) : Bool :=
  if WordExponent n.exponent then
    decide (Int64.ofInt n.place + Int64.ofInt n.exponent ≤ 0)
  else decide (n.exponent < 0)

end Numeral

end RouteWire
