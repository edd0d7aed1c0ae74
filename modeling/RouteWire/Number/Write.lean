import RouteWire.Binary64.Basic
import RouteWire.Digits
import RouteWire.Failure
import RouteWire.Rounding

/-!
# Writing numbers

A finite number is written in fixed notation, rounded to six decimals with a tie going to the
even last digit. Zeros at the end of the decimals are dropped, a point with nothing after it is
dropped, and a zero has no sign.

`Fixed` is the rounded number. It has two texts: `full`, with all six decimals and its sign even
at zero, and `canonical`, which is what goes on the wire.
-/

set_option autoImplicit false

namespace RouteWire

/-- How many decimals a number is written with at most. -/
def maxFractionDigits : Nat :=
  6

/-- How many characters a number may take with all its decimals. -/
def maxFixedLength : Nat :=
  400

/-- How many of the least decimal make one. -/
def decimalsPerOne : Nat :=
  Nat.pow 10 maxFractionDigits

/-- A signed count of millionths. -/
structure Fixed where
  negative : Bool
  millionths : Nat
  deriving DecidableEq

namespace Fixed

/-- A finite number rounded to millionths, a tie going to the even count. -/
def ofBinary64 (x : Binary64) : Fixed :=
  ⟨x.negative, roundHalfEven (x.magnitude * decimalsPerOne) Binary64.unitsPerOne⟩

/-- The number itself. -/
def value (f : Fixed) : Rat :=
  (if f.negative then -(f.millionths : Int) else f.millionths : Int) / decimalsPerOne

/-- The digits before the point. -/
def wholeDigits (f : Fixed) : List Char :=
  Digits.ofNat (f.millionths / decimalsPerOne)

/-- All six decimals. -/
def decimals (f : Fixed) : List Char :=
  Digits.padded maxFractionDigits (f.millionths % decimalsPerOne)

/-- The decimals up to the last one that is not zero. -/
def shortDecimals (f : Fixed) : List Char :=
  (f.decimals.reverse.dropWhile (· = '0')).reverse

/-- The text with all decimals, and with the sign of a zero. -/
def full (f : Fixed) : List Char :=
  (if f.negative then ['-'] else []) ++ f.wholeDigits ++ '.' :: f.decimals

/-- The text on the wire: no zeros at the end, no point without decimals, no sign at zero. -/
def canonical (f : Fixed) : List Char :=
  (if f.negative ∧ f.millionths ≠ 0 then ['-'] else []) ++ f.wholeDigits ++
    if f.shortDecimals = [] then [] else '.' :: f.shortDecimals

end Fixed

/-- Writes a number. A number that is not finite has no text. -/
def writeNumber (x : Binary64) : Except Failure String :=
  if ¬ x.IsFinite then .error (.invalid 0 .notFinite)
  else if maxFixedLength < (Fixed.ofBinary64 x).full.length then .error (.invalid 0 .textTooLong)
  else .ok (String.ofList (Fixed.ofBinary64 x).canonical)

end RouteWire
