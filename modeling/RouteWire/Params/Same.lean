import RouteWire.Params.Basic

/-!
# Equal parameters

Two sets of parameters are the same if the same ones are set and their values are equal, where
numbers are compared as numbers: the two zeros are equal, and a word that is not a number makes
its parameters differ even from themselves.
-/

set_option autoImplicit false

namespace RouteWire

/-- Equality of optional values, given equality of values. -/
def sameOption {α : Type} (same : α → α → Bool) : Option α → Option α → Bool
  | none, none => true
  | some x, some y => same x y
  | _, _ => false

namespace Sequence

/-- Equality position by position, given equality of elements. -/
def same {α : Type} (same : α → α → Bool) (xs ys : Sequence α) : Bool :=
  xs.isEqv ys (sameOption same)

end Sequence

namespace Param

/-- Equality of two values of a parameter. -/
def same : (k : Param) → k.Value → k.Value → Bool
  | coordinates, ps, qs => ps.isEqv qs Point.same
  | bearings, xs, ys => Sequence.same (Sequence.same Binary64.same) xs ys
  | radiuses, xs, ys => decide (xs = ys)
  | approaches, xs, ys => decide (xs = ys)
  | waypointIndices, xs, ys => decide (xs = ys)
  | waypointNames, xs, ys => decide (xs = ys)
  | waypointTargets, xs, ys => Sequence.same Point.same xs ys
  | closures, xs, ys => decide (xs = ys)
  | annotations, xs, ys => decide (xs = ys)
  | exclusions, xs, ys => decide (xs = ys)
  | inclusions, xs, ys => decide (xs = ys)
  | paymentMethods, xs, ys => decide (xs = ys)
  | layers, xs, ys => decide (xs = ys)

end Param

namespace Params

/-- Equality of parameters. -/
def same (p q : Params) : Bool :=
  Param.all.all fun k => sameOption k.same (p.get k) (q.get k)

end Params

end RouteWire
