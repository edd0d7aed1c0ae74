/-!
# Decimal digits

The digits of a natural number and the number that a run of digits stands for, over lists of
characters. Main statement: `value_ofNat`, the digits of a number stand for that number.
-/

set_option autoImplicit false

namespace RouteWire

namespace Digits

/-- The decimal digits of `n`, most significant first, without a leading zero except for zero
itself. -/
def ofNat (n : Nat) : List Char :=
  Nat.toDigits 10 n

/-- The number that a run of decimal digits stands for; leading zeros do not count. -/
def value (ds : List Char) : Nat :=
  Nat.ofDigitChars 10 ds 0

/-- The digits of `n`, filled up with zeros on the left to `width` characters. -/
def padded (width n : Nat) : List Char :=
  (ofNat n).leftpad width '0'

/-- The digits of a number have its value. -/
theorem value_ofNat (n : Nat) : value (ofNat n) = n :=
  Nat.ofDigitChars_toDigits (by decide) (by decide)

end Digits

/-- The text of an integer: a minus sign for a negative one, then its digits. -/
def integerText (n : Int) : String :=
  String.ofList (if n < 0 then '-' :: Digits.ofNat n.natAbs else Digits.ofNat n.natAbs)

end RouteWire
