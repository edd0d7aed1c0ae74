import RouteWire.Boolean
import RouteWire.Criterion.Basic
import RouteWire.Integer
import RouteWire.Point
import RouteWire.Sequence

/-!
# Reading sequences of each element kind

One reader per kind of element: integers, numbers, texts, booleans, points, lists of numbers,
and the criteria of a category. The kinds whose elements are split once more by an inner
delimiter refuse equal delimiters before they look at the text.
-/

set_option autoImplicit false

namespace RouteWire

/-- Reads a sequence of integers. -/
def readIntegers (d : Char) (w : Option String) : Except Failure (Option (Sequence Int32)) :=
  Sequence.readOptional d readInteger w

/-- Reads a sequence of numbers. -/
def readNumbers (d : Char) (w : Option String) : Except Failure (Option (Sequence Binary64)) :=
  Sequence.readOptional d readNumber w

/-- Reads a sequence of texts; every token is one as it stands. -/
def readTexts (d : Char) (w : Option String) : Except Failure (Option (Sequence String)) :=
  Sequence.readOptional d .ok w

/-- Reads a sequence of booleans. -/
def readBooleans (d : Char) (w : Option String) : Except Failure (Option (Sequence Bool)) :=
  Sequence.readOptional d readBoolean w

/-- Reads a sequence of points. -/
def readPoints (d inner : Char) (w : Option String) : Except Failure (Option (Sequence Point)) :=
  if d = inner then .error (.badArgument .equalDelimiters)
  else Sequence.readOptional d (readPoint inner) w

/-- Reads a sequence of number lists. -/
def readNumberLists (d inner : Char) (w : Option String) :
    Except Failure (Option (Sequence (List Binary64))) :=
  if d = inner then .error (.badArgument .equalDelimiters)
  else Sequence.readOptional d (readNumberList inner) w

/-- Reads a sequence of criteria by their wire names. -/
def readCriteria (c : Category) (d : Char) (w : Option String) :
    Except Failure (Option (Sequence (Criterion c))) :=
  Sequence.readOptional d (Criterion.ofName c) w

end RouteWire
