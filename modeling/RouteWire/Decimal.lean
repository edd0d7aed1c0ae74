import RouteWire.Binary64.Nearest

/-!
# Decimal numbers

A decimal number is a signed integer times a power of ten. `Decimal.nearest?` gives the nearest
binary64 number, if the decimal is in the range of those: it is out of range when it rounds
beyond the largest finite number, or rounds to zero without being zero.

Exponents may be written as large as one likes. Two cheap bounds on the size of the number come
first, so that a power of ten is only computed where the result can be in range.
-/

set_option autoImplicit false

namespace RouteWire

/-- A signed integer times a power of ten. A zero keeps its sign. -/
structure Decimal where
  negative : Bool
  significand : Nat
  exponent : Int

namespace Decimal

/-- The number itself. -/
def value (d : Decimal) : Rat :=
  (if d.negative then -(d.significand : Int) else d.significand : Int) * (10 : Rat) ^ d.exponent

/-- The code of the nearest magnitude. -/
def code (d : Decimal) : Nat :=
  Binary64.nearestCode (d.significand * Nat.pow 10 d.exponent.toNat * Binary64.unitsPerOne)
    (Nat.pow 10 (-d.exponent).toNat)

/-- At least `10 ^ 310`, hence beyond every finite number. -/
def IsHuge (d : Decimal) : Prop :=
  310 ≤ d.exponent

instance (d : Decimal) : Decidable d.IsHuge :=
  inferInstanceAs (Decidable (_ ≤ _))

/-- Less than half a unit, by counting three bits to a decimal place: `significand` is less than
`2 ^ (log2 + 1)` and `10 ^ -k` is at most `2 ^ (-3 * k)`. -/
def IsTiny (d : Decimal) : Prop :=
  (d.significand.log2 : Int) + 1100 < 3 * -d.exponent

instance (d : Decimal) : Decidable d.IsTiny :=
  inferInstanceAs (Decidable (_ < _))

/-- The nearest binary64 number, a tie going to the even word; none if the decimal is out of
range. A zero is never out of range, whatever its exponent. -/
def nearest? (d : Decimal) : Option Binary64 :=
  if d.significand = 0 then some (Binary64.ofCode d.negative 0)
  else if d.IsHuge ∨ d.IsTiny then none
  else if d.code = 0 ∨ Binary64.infinityCode ≤ d.code then none
  else some (Binary64.ofCode d.negative d.code)

end Decimal

end RouteWire
