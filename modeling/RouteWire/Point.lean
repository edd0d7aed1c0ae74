import RouteWire.Number.Read
import RouteWire.Number.Write

/-!
# Points on the wire

A point is a longitude and a latitude, in this order, with an inner delimiter between them.
-/

set_option autoImplicit false

namespace RouteWire

/-- A place on the map. -/
structure Point where
  longitude : Binary64
  latitude : Binary64
  deriving DecidableEq

namespace Point

/-- Equality of both coordinates as numbers. -/
def same (p q : Point) : Bool :=
  p.longitude.same q.longitude && p.latitude.same q.latitude

end Point

/-- Reads a point. The token has exactly two fields. The order in which the two are read is
unspecified; here the longitude comes first, so that its failure is the outcome if neither field can
be read. -/
def readPoint (inner : Char) (token : String) : Except Failure Point :=
  match tokens inner token with
  | [longitude, latitude] => do
    let longitude ← readNumber longitude
    let latitude ← readNumber latitude
    return ⟨longitude, latitude⟩
  | _ => .error (.malformed 0 (.notPoint token))

/-- Writes a point. -/
def writePoint (inner : Char) (p : Point) : Except Failure String := do
  let longitude ← writeNumber p.longitude
  let latitude ← writeNumber p.latitude
  return longitude.push inner ++ latitude

end RouteWire
