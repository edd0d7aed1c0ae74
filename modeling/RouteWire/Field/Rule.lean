import RouteWire.Criterion.Basic
import RouteWire.Field.Rejection
import RouteWire.Integer
import RouteWire.Point
import RouteWire.Sequence.Read

/-!
# The rules of the fields

A rule says what a present element of a field is on the wire: a text, an absent position after
all, or why it has none (`Fault`). Rules look at one element alone, so they know nothing of
positions.
-/

set_option autoImplicit false

namespace RouteWire

/-- An angle and a tolerance in degrees. A bearing keeps any number of components, so that the
rule of the field can say that there are not two. -/
abbrev Bearing := List (Option Binary64)

/-- The index of a pickup and of a drop-off. Indices after these two are not written. -/
abbrev Distribution := List Int32

/-- Why a present element has no place on the wire: it breaks a rule of its field, which rejects the
field, or writing it fails for another reason. -/
inductive Fault where
  | violation (v : Violation)
  | failure (f : Failure)
  deriving DecidableEq

/-- What becomes of a present element when its field is written. -/
abbrev Rule (α : Type) := α → Except Fault (Option String)

namespace Rule

/-- The text of a number inside a field, which has to be finite. -/
def numberText (x : Binary64) : Except Fault String :=
  if ¬ x.IsFinite then .error (.violation (.invalid .notFinite))
  else (writeNumber x).mapError .failure

/-- The text of a point inside a field, both coordinates of which have to be finite. -/
def pointText (p : Point) : Except Fault String := do
  let longitude ← numberText p.longitude
  let latitude ← numberText p.latitude
  return longitude.push defaultInnerDelimiter ++ latitude

/-- Any finite number. -/
def number : Rule Binary64 := fun x =>
  some <$> numberText x

/-- Any point with finite coordinates. -/
def point : Rule Point := fun p =>
  some <$> pointText p

/-- Exactly two components. If one of them is absent so is the bearing; otherwise both are from
0 to 360. -/
def bearing : Rule Bearing
  | [some angle, some tolerance] =>
    if angle.between 360 && tolerance.between 360 then do
      let angle ← (writeNumber angle).mapError .failure
      let tolerance ← (writeNumber tolerance).mapError .failure
      return some (angle.push defaultInnerDelimiter ++ tolerance)
    else .error (.violation (.invalid .bearingRange))
  | [_, _] => .ok none
  | _ => .error (.violation (.malformed .bearingSize))

/-- No index is an absent position, one index is not enough. -/
def distribution : Rule Distribution
  | [] => .ok none
  | [_] => .error (.violation (.malformed .distributionSize))
  | pickup :: dropOff :: _ =>
    .ok (some ((writeInteger pickup).push defaultInnerDelimiter ++ writeInteger dropOff))

/-- The wire name of an approach. -/
def approach : Rule String := fun s =>
  if Category.approach.accepts s then .ok (some s)
  else .error (.violation (.invalid .approachUnknown))

/-- The text of a radius without a limit. -/
def unlimitedRadius : String :=
  "unlimited"

/-- No limit, or a number that is not below zero. The text itself is what is written. -/
def radius : Rule String := fun s =>
  if s = unlimitedRadius then .ok (some s)
  else do
    let x ← (Number.read s).mapError fun reason => .violation (.malformed reason)
    if x.units < 0 then .error (.violation (.invalid .radiusNegative)) else .ok (some s)

end Rule

end RouteWire
