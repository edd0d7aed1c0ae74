import RouteWire.Failure
import RouteWire.Tokens

/-!
# Sequences on the wire

A sequence is a list in which each position holds a value or is explicitly absent. On the wire
it is one text with a delimiter between positions and nothing at an absent one.

`Sequence.read` and `Sequence.write` work for any kind of element: the reader of an element is
an argument, and so is its renderer. Three states stay apart on the wire as far as a text can
tell them apart: an unset sequence is no text, the empty sequence is the empty text, and two or
more absent positions are a run of delimiters. Exactly one absent position is the empty text
again, which reads as the empty sequence.
-/

set_option autoImplicit false

namespace RouteWire

variable {α : Type}

/-- An ordered list where each position is either a value or an explicit absence. -/
abbrev Sequence (α : Type) := List (Option α)

/-- What becomes of the absent positions at the end of a sequence when it is written. -/
inductive Trailing where
  | keep
  | trim
  deriving DecidableEq

namespace Sequence

/-- The sequence up to its last present value. -/
def trimmed (xs : Sequence α) : Sequence α :=
  (xs.reverse.dropWhile Option.isNone).reverse

/-- The positions of a sequence that are written under a choice for its trailing absences. -/
def written (xs : Sequence α) : Trailing → Sequence α
  | .keep => xs
  | .trim => xs.trimmed

/-- Reads tokens in order, the first of them at position `i`. An empty token is an absent
position and is not handed to the reader. The first failure ends the reading and is moved to
the position of its token. -/
def readFrom (read : String → Except Failure α) : Nat → List String → Except Failure (Sequence α)
  | _, [] => .ok []
  | i, t :: ts => do
    let x ← if t = "" then .ok none else some <$> (read t).mapError (Failure.relocate i)
    let xs ← readFrom read (i + 1) ts
    return x :: xs

/-- Reads a text whose positions are separated by `d`. The empty text is the empty sequence, not
one absent position. -/
def read (d : Char) (read : String → Except Failure α) (w : String) :
    Except Failure (Sequence α) :=
  if w = "" then .ok [] else readFrom read 0 (tokens d w)

/-- Writes a sequence with `d` between positions and nothing at an absent one. -/
def write (d : Char) (render : α → String) (trailing : Trailing) (xs : Sequence α) : String :=
  joinTokens d ((xs.written trailing).map fun x => x.elim "" render)

/-- Reads a text that may be unset; an unset text is an unset sequence. -/
def readOptional (d : Char) (read : String → Except Failure α) (w : Option String) :
    Except Failure (Option (Sequence α)) :=
  w.mapM (Sequence.read d read)

/-- Writes a sequence that may be unset; an unset sequence is an unset text. -/
def writeOptional (d : Char) (render : α → String) (trailing : Trailing)
    (xs : Option (Sequence α)) : Option String :=
  xs.map (write d render trailing)

end Sequence

end RouteWire
