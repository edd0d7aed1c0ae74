import RouteWire.About
import RouteWire.Params.Document

/-!
# Answers

What a call gives when it succeeds, in one constructor for each shape of value. An unset value
is `none`.
-/

set_option autoImplicit false

namespace RouteWire

/-- The value of a successful call. -/
inductive Answer where
  | about (a : About)
  | text (w : Option String)
  | integer (n : Int)
  | number (x : Binary64)
  | truth (b : Bool)
  | point (p : Point)
  | numberList (xs : List Binary64)
  | tokens (ts : List String)
  | integers (xs : Option (Sequence Int))
  | numbers (xs : Option (Sequence Binary64))
  | texts (xs : Option (Sequence String))
  | booleans (xs : Option (Sequence Bool))
  | points (xs : Option (Sequence Point))
  | numberLists (xs : Option (Sequence (List Binary64)))
  | params (p : Params)
  | query (q : Query)
  | document (d : Document)
  deriving DecidableEq

end RouteWire
