import RouteWire.Field.Write
import RouteWire.Params.Basic

/-!
# Route parameters as a query

A query gives texts to names. `Params.ofQuery` reads the parameters whose names a query has and
ignores all other names; `Params.toQuery` writes the parameters that are set. Both go through
the parameters in order, and the first one that fails ends the call.
-/

set_option autoImplicit false

namespace RouteWire

/-- Texts under names. A name that stands twice has the text that comes first. -/
structure Query where
  entries : List (String × String) := []
  deriving DecidableEq

namespace Query

/-- The text of a name. -/
def get? (q : Query) (name : String) : Option String :=
  q.entries.lookup name

/-- The names that have a text. -/
def names (q : Query) : List String :=
  q.entries.map Prod.fst

end Query

/-- The coordinates of a sequence without an absent position, the first being position `i`. -/
def requirePresent : Nat → Sequence Point → Except Failure (List Point)
  | _, [] => .ok []
  | i, none :: _ => .error (.malformed i .emptyCoordinate)
  | i, some p :: xs => (p :: ·) <$> requirePresent (i + 1) xs

namespace Param

/-- Reads the text of a parameter. Coordinates are looked at for absent positions only when all
of them can be read. -/
def read : (k : Param) → String → Except Failure k.Value
  | coordinates, w => do
    let points ← Sequence.read defaultDelimiter (readPoint defaultInnerDelimiter) w
    requirePresent 0 points
  | bearings, w =>
    Sequence.read defaultDelimiter
      (fun t => List.map some <$> readNumberList defaultInnerDelimiter t) w
  | radiuses, w => Sequence.read defaultDelimiter .ok w
  | approaches, w => Sequence.read defaultDelimiter (Criterion.ofName .approach) w
  | waypointIndices, w => Sequence.read defaultDelimiter readInteger w
  | waypointNames, w => Sequence.read defaultDelimiter .ok w
  | waypointTargets, w => Sequence.read defaultDelimiter (readPoint defaultInnerDelimiter) w
  | closures, w => Sequence.read defaultDelimiter readBoolean w
  | annotations, w => Sequence.read defaultInnerDelimiter (Criterion.ofName .annotationKind) w
  | exclusions, w => Sequence.read defaultInnerDelimiter (Criterion.ofName .exclusion) w
  | inclusions, w => Sequence.read defaultInnerDelimiter (Criterion.ofName .inclusion) w
  | paymentMethods, w => Sequence.read defaultInnerDelimiter (Criterion.ofName .paymentMethod) w
  | layers, w => Sequence.read defaultDelimiter readInteger w

section
variable {m : Type → Type} [Monad m] [Rejecting m]

/-- Writes the value of a parameter; some values are sent as nothing at all. -/
def write : (k : Param) → k.Value → m (Option String)
  | coordinates, ps => some <$> writeCoordinates ps
  | bearings, xs => writeBearings (some xs)
  | radiuses, xs => writeRadiuses (some xs)
  | approaches, xs => do
    let names ← silently (criterionNames xs)
    writeApproaches (some names)
  | waypointIndices, xs => return writeWaypointIndices (some xs)
  | waypointNames, xs => return writeWaypointNames (some xs)
  | waypointTargets, xs => writeWaypointTargets (some xs)
  | closures, xs => return writeClosures (some xs)
  | annotations, xs => do
    let names ← silently (criterionNames xs)
    return writeAnnotations (some names)
  | exclusions, xs => silently (writeCriteria defaultInnerDelimiter (some xs))
  | inclusions, xs => silently (writeCriteria defaultInnerDelimiter (some xs))
  | paymentMethods, xs => silently (writeCriteria defaultInnerDelimiter (some xs))
  | layers, xs => return writeLayers (some xs)

end

end Param

namespace Params

/-- Reads one parameter of a query, if the query has it. -/
def readParam (q : Query) (k : Param) : Except Failure (Option k.Value) :=
  (q.get? k.wireName).mapM k.read

/-- The parameters of a query. -/
def ofQuery (q : Query) : Except Failure Params :=
  Param.all.foldlM (fun p k => p.set k <$> readParam q k) {}

section
variable {m : Type → Type} [Monad m] [Rejecting m]

/-- The entry of a parameter in a query, if it has one. -/
def entry (p : Params) (k : Param) : m (Option (String × String)) :=
  match p.get k with
  | none => pure none
  | some v => Option.map (k.wireName, ·) <$> k.write v

/-- The query of the parameters that are set. -/
def toQuery (p : Params) : m Query := do
  let entries ← Param.all.mapM p.entry
  return ⟨entries.reduceOption⟩

end

end Params

end RouteWire
