/-!
# Signs in front of a number

Integers and decimal numbers share how a sign is read. A minus sign belongs to the number. One
plus sign may stand in front as well, but not in front of another sign.
-/

set_option autoImplicit false

namespace RouteWire

/-- The characters of a token without its leading plus sign. There are none to read if nothing,
or another sign, follows the plus. -/
def withoutPlus : List Char → Option (List Char)
  | ['+'] => none
  | '+' :: '+' :: _ => none
  | '+' :: '-' :: _ => none
  | '+' :: cs => some cs
  | cs => some cs

/-- Whether there is a minus sign in front, and what follows it. -/
def takeMinus : List Char → Bool × List Char
  | '-' :: cs => (true, cs)
  | cs => (false, cs)

/-- Taking the sign off loses nothing. -/
theorem takeMinus_append (cs : List Char) :
    (if (takeMinus cs).1 then ['-'] else []) ++ (takeMinus cs).2 = cs := by
  unfold takeMinus
  split <;> rfl

end RouteWire
