import RouteWire.Call.Answer
import RouteWire.Params.Load
import RouteWire.Params.Same
import RouteWire.TrafficTendency

/-!
# Calls

An operation of the library together with its arguments, as a value. `Call.run` is the computation
that it stands for, with the messages that it sends to the log.
-/

set_option autoImplicit false

namespace RouteWire

/-- A single element to read. -/
inductive Element where
  | integer
  | number
  | boolean
  | point (inner : Char)
  | numberList (inner : Char)

namespace Element

/-- Reads a token as an element. -/
def read (token : String) : Element → Except Failure Answer
  | integer => (fun n => .integer n.toInt) <$> readInteger token
  | number => .number <$> readNumber token
  | boolean => .truth <$> readBoolean token
  | point inner => .point <$> readPoint inner token
  | numberList inner => .numberList <$> readNumberList inner token

end Element

/-- A kind of sequence to read. -/
inductive SequenceKind where
  | integers
  | numbers
  | texts
  | booleans
  | points (inner : Char)
  | numberLists (inner : Char)
  | criteria (c : Category)
  /-- The sizes of tokens in bytes, where reading some tokens fails. -/
  | sizes (failures : List (String × Failure))

namespace SequenceKind

/-- The size of a token in bytes, unless reading it is to fail. -/
def readSize (failures : List (String × Failure)) (token : String) : Except Failure Int :=
  (failures.lookup token).elim (.ok token.utf8ByteSize) .error

/-- Reads a text as a sequence of this kind. -/
def read (d : Char) (w : Option String) : SequenceKind → Except Failure Answer
  | integers =>
    (fun xs => .integers (xs.map (List.map (Option.map Int32.toInt)))) <$> readIntegers d w
  | numbers => .numbers <$> readNumbers d w
  | texts => .texts <$> readTexts d w
  | booleans => .booleans <$> readBooleans d w
  | points inner => .points <$> readPoints d inner w
  | numberLists inner => .numberLists <$> readNumberLists d inner w
  | criteria c =>
    (fun xs => .integers (xs.map (List.map (Option.map Criterion.ordinal)))) <$>
      readCriteria c d w
  | sizes failures => .integers <$> Sequence.readOptional d (readSize failures) w

end SequenceKind

/-- A single element to write. -/
inductive Scalar where
  | integer (n : Int32)
  | number (x : Binary64)
  | boolean (b : Bool)
  | point (inner : Char) (p : Point)

namespace Scalar

/-- The text of an element. -/
def write : Scalar → Except Failure String
  | integer n => .ok (writeInteger n)
  | number x => writeNumber x
  | boolean b => .ok (writeBoolean b)
  | point inner p => writePoint inner p

end Scalar

/-- A field of a request with its value. -/
inductive FieldValue where
  | bearings (xs : Option (Sequence Bearing))
  | distributions (xs : Option (Sequence Distribution))
  | approaches (xs : Option (Sequence String))
  | radiuses (xs : Option (Sequence String))
  | waypointNames (xs : Option (Sequence String))
  | annotations (xs : Option (Sequence String))
  | waypointIndices (xs : Option (Sequence Int32))
  | layers (xs : Option (Sequence Int32))
  | closures (xs : Option (Sequence Bool))
  | numbers (d : Char) (xs : Option (Sequence Binary64))
  | coordinates (ps : List Point)
  | waypointTargets (xs : Option (Sequence Point))
  | criteria (c : Category) (d : Char) (xs : Option (Sequence (Criterion c)))

namespace FieldValue

/-- The text of a field. -/
def write {m : Type → Type} [Monad m] [Rejecting m] : FieldValue → m (Option String)
  | bearings xs => writeBearings xs
  | distributions xs => writeDistributions xs
  | approaches xs => writeApproaches xs
  | radiuses xs => writeRadiuses xs
  | waypointNames xs => return writeWaypointNames xs
  | annotations xs => return writeAnnotations xs
  | waypointIndices xs => return writeWaypointIndices xs
  | layers xs => return writeLayers xs
  | closures xs => return writeClosures xs
  | numbers d xs => writeNumbers d xs
  | coordinates ps => some <$> writeCoordinates ps
  | waypointTargets xs => writeWaypointTargets xs
  | criteria _ d xs => silently (writeCriteria d xs)

end FieldValue

/-- A field whose text can be read and written again. -/
inductive Rewritable where
  | integers
  | layers
  | numbers
  | texts
  | radiuses
  | approaches
  | points
  | booleans

namespace Rewritable

/-- Reads the text of a field. -/
def field (w : Option String) : Rewritable → Except Failure FieldValue
  | integers => .waypointIndices <$> readIntegers defaultDelimiter w
  | layers => .layers <$> readIntegers defaultDelimiter w
  | numbers => .numbers defaultDelimiter <$> readNumbers defaultDelimiter w
  | texts => .waypointNames <$> readTexts defaultDelimiter w
  | radiuses => .radiuses <$> readTexts defaultDelimiter w
  | approaches => .approaches <$> readTexts defaultDelimiter w
  | points => .waypointTargets <$> readPoints defaultDelimiter defaultInnerDelimiter w
  | booleans => .closures <$> readBooleans defaultDelimiter w

/-- Reads the text of a field and writes it again. -/
def rewrite (w : Option String) (r : Rewritable) : Logging (Option String) := do
  let f ← silently (r.field w)
  f.write

end Rewritable

/-- An operation of the library with its arguments. -/
inductive Call where
  | about
  | split (d : Char) (w : String)
  | readElement (e : Element) (token : String)
  | readSequence (k : SequenceKind) (d : Char) (w : Option String)
  | writeScalar (s : Scalar)
  | join (d : Char) (trailing : Trailing) (xs : Option (Sequence String))
  | writeField (f : FieldValue)
  | rewrite (r : Rewritable) (w : Option String)
  | criterionName (c : Category) (v : Criterion c)
  | criterionOfName (c : Category) (name : String)
  | acceptsName (c : Category) (name : String)
  | tendencyOfCode (code : Int)
  | acceptsCode (code : Int)
  | levelName (code : Int)
  | levelOfName (name : String)
  | paramsOfQuery (q : Query)
  | queryOfParams (p : Params)
  | rewriteQuery (q : Query)
  | paramsOfDocument (d : Document)
  | documentOfParams (p : Params)
  | sameParams (p q : Params)
  | load (scan : JsonScanner) (raw : String)

namespace Call

/-- The computation of a call. -/
def run : Call → Logging Answer
  | about => return .about library
  | split d w => return .tokens (RouteWire.tokens d w)
  | readElement e token => silently (e.read token)
  | readSequence k d w => silently (k.read d w)
  | writeScalar s => (fun w => .text (some w)) <$> silently s.write
  | join d trailing xs => return .text (Sequence.writeOptional d id trailing xs)
  | writeField f => .text <$> f.write
  | rewrite r w => .text <$> r.rewrite w
  | criterionName _ v => (fun w => .text (some w)) <$> silently v.name
  | criterionOfName c name => (fun v => .integer v.ordinal) <$> silently (Criterion.ofName c name)
  | acceptsName c name => return .truth (c.accepts name)
  | tendencyOfCode code => (fun t => .integer t.code) <$> silently (TrafficTendency.ofCode code)
  | acceptsCode code => return .truth (TrafficTendency.accepts code)
  | levelName code => return .text (some (Level.nameOfCode code))
  | levelOfName name => (fun l => .integer (l.severity : Nat)) <$> silently (Level.ofName name)
  | paramsOfQuery q => .params <$> silently (Params.ofQuery q)
  | queryOfParams p => .query <$> p.toQuery
  | rewriteQuery q => do
    let p ← silently (Params.ofQuery q)
    .query <$> p.toQuery
  | paramsOfDocument d => .params <$> silently (Params.ofDocument d)
  | documentOfParams p => .document <$> p.toDocument
  | sameParams p q => return .truth (p.same q)
  | load scan raw => .params <$> Params.load scan raw

end Call

end RouteWire
