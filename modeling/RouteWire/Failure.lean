import RouteWire.Criterion.Category
import RouteWire.Digits

/-!
# Failures

A call that cannot give its value says why (`Reason`) and what kind of failure it is
(`Failure`). The two kinds that concern an element of a list carry its position. Reasons are
data; `Reason.message` holds the wording of all of them.

`Failure.relocate` moves a failure to the position of the list element that caused it. Only the
kinds an element reader is meant to fail with are moved; all others pass through unchanged.
-/

set_option autoImplicit false

namespace RouteWire

/-- Why a text, a value or a name was refused. -/
inductive Reason where
  | notInteger (token : String)
  | integerOutOfRange (token : String)
  | notNumber (token : String)
  | numberOutOfRange (token : String)
  | notBoolean (token : String)
  | notPoint (token : String)
  | emptyCoordinate
  | equalDelimiters
  | unknownCriterion (category : Category) (name : String)
  | outsideCatalogue (category : Category)
  | unknownTrafficTendency (code : Int)
  | unknownLevel (name : String)
  | notFinite
  | textTooLong
  | bearingSize
  | bearingRange
  | distributionSize
  | approachUnknown
  | radiusNegative
  | emptyInput
  | notJson (detail : String)
  | notObject
  | memberName (detail : String)
  | memberValue (name detail : String)
  | memberNotText (name : String)
  | memberText (name detail : String)
  | handlerRaised (message : String)
  | custom (message : String)
  deriving DecidableEq

namespace Reason

/-- A token between single quotes. -/
def quoted (token : String) : String :=
  "'" ++ token ++ "'"

/-- The wording of a reason, in full. A failure that is thrown again, at a position, takes its wording
along. Where wordings are handed on as NUL-terminated texts, one that quotes a token with a NUL is
cut at the first NUL when it is thrown again; here it is kept whole. -/
def message : Reason → String
  | notInteger token => "Expected integer, got " ++ quoted token
  | integerOutOfRange token => "Integer out of range: " ++ quoted token
  | notNumber token => "Expected number, got " ++ quoted token
  | numberOutOfRange token => "Number out of range: " ++ quoted token
  | notBoolean token => "Expected 'true' or 'false', got " ++ quoted token
  | notPoint token => "Point needs exactly longitude and latitude, got " ++ quoted token
  | emptyCoordinate => "Coordinates cannot contain an empty position"
  | equalDelimiters => "Outer and inner delimiters must differ"
  | unknownCriterion category name => "Unknown " ++ category.label ++ ": " ++ quoted name
  | outsideCatalogue category => "Invalid " ++ category.title ++ " value"
  | unknownTrafficTendency code => "Unknown traffic tendency: " ++ integerText code
  | unknownLevel name => "Unknown log level: " ++ name
  | notFinite => "Number must be finite"
  | textTooLong => "Number cannot be formatted"
  | bearingSize => "Bearing size should be 2"
  | bearingRange => "Angle and tolerance have to be from 0 to 360"
  | distributionSize => "Distribution needs a pickup and a drop-off index"
  | approachUnknown => "Approach should be one of unrestricted or curb"
  | radiusNegative => "Radiuses need to be greater than 0 or a string \"unlimited\""
  | emptyInput => "Empty input"
  | notJson detail => "JSON parse error: " ++ detail
  | notObject => "Route parameters must be a JSON object"
  | memberName detail => "Invalid member name: " ++ detail
  | memberValue name detail => "Invalid value for " ++ quoted name ++ ": " ++ detail
  | memberNotText name => "Member " ++ quoted name ++ " must be a string"
  | memberText name detail => "Invalid string for " ++ quoted name ++ ": " ++ detail
  | handlerRaised message => "handler: " ++ message
  | custom message => message

end Reason

/-- A failure: its kind, the position where the kind has one, and the reason. -/
inductive Failure where
  /-- An element cannot be read as what it should be. -/
  | malformed (position : Nat) (reason : Reason)
  /-- An element can be read but breaks a rule of its field. -/
  | invalid (position : Nat) (reason : Reason)
  /-- An argument is not one the operation takes. -/
  | badArgument (reason : Reason)
  /-- An argument is outside the range the operation takes. -/
  | outOfRange (reason : Reason)
  /-- A document cannot be read. -/
  | badDocument (reason : Reason)
  /-- A failure of no particular kind, from a handler or a reader that the caller supplies. -/
  | general (reason : Reason)
  deriving DecidableEq

namespace Failure

/-- The reason of a failure. -/
def reason : Failure → Reason
  | malformed _ r | invalid _ r | badArgument r | outOfRange r | badDocument r | general r => r

/-- The wording of a failure. -/
def message (f : Failure) : String :=
  f.reason.message

/-- The position a failure carries, if its kind carries one. -/
def position? : Failure → Option Nat
  | malformed i _ | invalid i _ => some i
  | _ => none

/-- The failure of a list whose element at `position` fails: a failure to read the element
becomes a malformed element at that position, and every other kind stays as it is. -/
def relocate (position : Nat) : Failure → Failure
  | malformed _ r | badArgument r | outOfRange r => malformed position r
  | f => f

/-- A failure says the same at any position. -/
@[simp] theorem message_relocate (i : Nat) (f : Failure) :
    (f.relocate i).message = f.message := by
  cases f <;> rfl

/-- The last position wins. -/
@[simp] theorem relocate_relocate (i j : Nat) (f : Failure) :
    (f.relocate i).relocate j = f.relocate j := by
  cases f <;> rfl

end Failure

end RouteWire
