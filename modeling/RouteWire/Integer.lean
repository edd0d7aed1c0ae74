import RouteWire.Digits
import RouteWire.Failure
import RouteWire.Sign

/-!
# Integers on the wire

An integer is 32 bits wide. It is written as a minus sign where needed and decimal digits, and
read with at most one leading plus sign besides. Reading takes the longest run of digits first:
if that run is out of range the token is out of range, whatever follows the run.
-/

set_option autoImplicit false

namespace RouteWire

namespace Integer

/-- The integer of a sign and a run of digits. -/
def signed (negative : Bool) (ds : List Char) : Int :=
  if negative then -(Digits.value ds : Int) else Digits.value ds

/-- Whether an integer fits into 32 bits. -/
def InRange (n : Int) : Prop :=
  Int32.minValue.toInt ≤ n ∧ n ≤ Int32.maxValue.toInt

instance (n : Int) : Decidable (InRange n) :=
  inferInstanceAs (Decidable (_ ∧ _))

/-- Reads a token as an integer. -/
def read (token : String) : Except Reason Int32 :=
  match withoutPlus token.toList with
  | none => .error (.notInteger token)
  | some cs =>
    let (negative, cs) := takeMinus cs
    let ds := cs.takeWhile Char.isDigit
    let n := signed negative ds
    if ds = [] then .error (.notInteger token)
    else if ¬ InRange n then .error (.integerOutOfRange token)
    else if cs.dropWhile Char.isDigit ≠ [] then .error (.notInteger token)
    else .ok (Int32.ofInt n)

end Integer

/-- Reads an integer; a token that is none is malformed. -/
def readInteger (token : String) : Except Failure Int32 :=
  (Integer.read token).mapError (Failure.malformed 0)

/-- Writes an integer. -/
def writeInteger (n : Int32) : String :=
  integerText n.toInt

end RouteWire
