import RouteWire.Field.Rule

/-!
# Writing the fields

Each field of a request has one writer. An unset field has no text. A field with a rule is
checked position by position and the first violation rejects it; the others cannot fail.
-/

set_option autoImplicit false

namespace RouteWire

section
variable {m : Type → Type} [Monad m] [Rejecting m] {α : Type}

namespace Field

/-- What a rule gives at position `i`, or else the end of the call: a violation rejects the field
there, any other failure is silent. -/
def settle (field : Field) (i : Nat) : Except Fault α → m α
  | .ok t => pure t
  | .error (.violation v) => Rejecting.reject ⟨field, i, v⟩
  | .error (.failure f) => Rejecting.fail f

/-- Applies the rule of a field to every present element, the first position being `i`. The
first violation is the rejection. -/
def check (field : Field) (rule : Rule α) : Nat → Sequence α → m (Sequence String)
  | _, [] => return []
  | i, x :: xs => do
    let t ← field.settle i (x.elim (.ok none) rule)
    let ts ← check field rule (i + 1) xs
    return t :: ts

/-- Writes a field that may be unset: checks it, then puts `d` between the positions. -/
def write (field : Field) (rule : Rule α) (d : Char) : Option (Sequence α) → m (Option String)
  | none => return none
  | some xs => do
    let ts ← field.check rule 0 xs
    return some (Sequence.write d id .keep ts)

end Field

/-- Writes bearings as `angle,tolerance` pairs. -/
def writeBearings (xs : Option (Sequence Bearing)) : m (Option String) :=
  Field.bearings.write Rule.bearing defaultDelimiter xs

/-- Writes distributions as `pickup,drop-off` pairs; an empty list counts as unset. -/
def writeDistributions (xs : Option (Sequence Distribution)) : m (Option String) :=
  Field.distributions.write Rule.distribution defaultDelimiter (xs.filter (!·.isEmpty))

/-- Writes approaches by their wire names. -/
def writeApproaches (xs : Option (Sequence String)) : m (Option String) :=
  Field.approaches.write Rule.approach defaultDelimiter xs

/-- Writes radiuses as they are spelled. -/
def writeRadiuses (xs : Option (Sequence String)) : m (Option String) :=
  Field.radiuses.write Rule.radius defaultDelimiter xs

/-- Writes a sequence of numbers. -/
def writeNumbers (d : Char) (xs : Option (Sequence Binary64)) : m (Option String) :=
  Field.numbers.write Rule.number d xs

/-- Writes waypoint targets as `longitude,latitude` pairs. -/
def writeWaypointTargets (xs : Option (Sequence Point)) : m (Option String) :=
  Field.waypointTargets.write Rule.point defaultDelimiter xs

/-- Appends coordinates to a text, the first of them at position `i`, with a delimiter before each
position but the very first. No coordinate is absent. -/
def appendCoordinates : Nat → String → List Point → m String
  | _, out, [] => return out
  | i, out, p :: ps => do
    let out := if 0 < i then out.push defaultDelimiter else out
    let t ← Field.coordinates.settle i (Rule.pointText p)
    appendCoordinates (i + 1) (out ++ t) ps

/-- Writes coordinates as `longitude,latitude` pairs. -/
def writeCoordinates (ps : List Point) : m String :=
  appendCoordinates 0 "" ps

end

/-- Writes waypoint names as they are; an empty list counts as unset. -/
def writeWaypointNames (xs : Option (Sequence String)) : Option String :=
  Sequence.writeOptional defaultDelimiter id .keep (xs.filter (!·.isEmpty))

/-- Writes annotations, which are separated by the inner delimiter. -/
def writeAnnotations (xs : Option (Sequence String)) : Option String :=
  Sequence.writeOptional defaultInnerDelimiter id .keep xs

/-- Writes the indices of waypoints. -/
def writeWaypointIndices (xs : Option (Sequence Int32)) : Option String :=
  Sequence.writeOptional defaultDelimiter writeInteger .keep xs

/-- Writes, for each waypoint, whether closed roads may be snapped to. -/
def writeClosures (xs : Option (Sequence Bool)) : Option String :=
  Sequence.writeOptional defaultDelimiter writeBoolean .keep xs

/-- Writes layers. -/
def writeLayers (xs : Option (Sequence Int32)) : Option String :=
  Sequence.writeOptional defaultDelimiter writeInteger .keep xs

/-- The wire names of a sequence of criteria. The first one outside its catalogue fails. -/
def criterionNames {c : Category} (xs : Sequence (Criterion c)) :
    Except Failure (Sequence String) :=
  xs.mapM fun x => x.mapM Criterion.name

/-- Writes criteria by their wire names. -/
def writeCriteria {c : Category} (d : Char) (xs : Option (Sequence (Criterion c))) :
    Except Failure (Option String) :=
  xs.mapM fun xs => Sequence.write d id .keep <$> criterionNames xs

end RouteWire
