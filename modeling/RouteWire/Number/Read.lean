import RouteWire.Failure
import RouteWire.Numeral
import RouteWire.Tokens

/-!
# Reading numbers

A number is read as the binary64 word nearest to its numeral. The numeral must fill the token,
but its range is looked at first: a numeral out of range makes the token out of range even when
other text follows. The exception is a token that is a numeral throughout and too small, which
reads as a zero with its sign. Infinities and words that are not a number cannot be written.
-/

set_option autoImplicit false

namespace RouteWire

namespace Number

/-- Reads a token as a number. -/
def read (token : String) : Except Reason Binary64 :=
  match (withoutPlus token.toList).bind Numeral.scan with
  | none => .error (.notNumber token)
  | some (n, rest) =>
    match n.toDecimal.nearest? with
    | some x => if rest = [] then .ok x else .error (.notNumber token)
    | none =>
      if rest = [] ∧ n.vanishes then .ok (Binary64.ofCode n.negative 0)
      else .error (.numberOutOfRange token)

end Number

/-- Reads a number; a token that is none is malformed. -/
def readNumber (token : String) : Except Failure Binary64 :=
  (Number.read token).mapError (Failure.malformed 0)

/-- Reads the numbers of a token, separated by `inner`, from left to right. -/
def readNumberList (inner : Char) (token : String) : Except Failure (List Binary64) :=
  (tokens inner token).mapM readNumber

end RouteWire
