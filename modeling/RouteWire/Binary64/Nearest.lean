import RouteWire.Binary64.Basic
import RouteWire.Rounding

/-!
# The nearest binary64 number

`nearestCode num den` is the code nearest to `num / den` units, a tie going to the even code.
Every stretch of codes with one exponent field is a grid of equal steps, so the quotient is
rounded on the grid that it falls on. A quotient that rounds up to the end of its grid gets the
first code of the next one without a special case, because codes count on across exponent
fields. Past the largest finite number the same counting goes on, so that a result at or above
the code of infinity says that the quotient is out of range.
-/

set_option autoImplicit false

namespace RouteWire.Binary64

/-- The exponent of the grid step, in units, on which a quotient with this whole part lies. -/
def gridExponent (whole : Nat) : Nat :=
  whole.log2 - 52

/-- The code nearest to `num / den` units, a tie going to the even code. -/
def nearestCode (num den : Nat) : Nat :=
  gridExponent (num / den) * fractionCount +
    roundHalfEven num (den * Nat.pow 2 (gridExponent (num / den)))

end RouteWire.Binary64
