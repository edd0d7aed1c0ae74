import RouteWire.Log.Logging

/-!
# Rejected fields

A field of a request is written position by position. The first position that breaks a rule of
the field rejects the whole field. A rejection is announced: before it fails the call it sends a
warning to the log. All other failures to write are silent.

What writes can be run in two ways (`Rejecting`). As a `Logging` it sends the warning where the rule
is broken and then fails; this is what a call does. As an `Except Refusal` it is a value that leaves
the log aside and keeps the rejection itself.
-/

set_option autoImplicit false

namespace RouteWire

/-- The fields that check their elements. -/
inductive Field where
  | bearings
  | distributions
  | approaches
  | radiuses
  | numbers
  | coordinates
  | waypointTargets
  deriving DecidableEq

namespace Field

/-- What a log message calls the field. -/
def label : Field → String
  | bearings => "bearings"
  | distributions => "distributions"
  | approaches => "approaches"
  | radiuses => "radiuses"
  | numbers => "numbers"
  | coordinates => "coordinates"
  | waypointTargets => "waypoint_targets"

end Field

/-- What is wrong with an element of a field: it does not have the form of one, or it breaks a
rule of the field. -/
inductive Violation where
  | malformed (reason : Reason)
  | invalid (reason : Reason)
  deriving DecidableEq

namespace Violation

/-- The failure of an element at `position` with this violation. -/
def failure (position : Nat) : Violation → Failure
  | malformed r => .malformed position r
  | invalid r => .invalid position r

end Violation

/-- A field together with the position that breaks a rule of it. -/
structure Rejection where
  field : Field
  position : Nat
  violation : Violation
  deriving DecidableEq

namespace Rejection

/-- The failure of a call that a rejection ends. -/
def failure (r : Rejection) : Failure :=
  r.violation.failure r.position

/-- The warning that announces a rejection. -/
def record (r : Rejection) : Record where
  level := .warning
  logger := "waycodec.formatter"
  message :=
    r.field.label ++ "[" ++ integerText r.position ++ "]: " ++ r.failure.message

end Rejection

/-- Why a call gives no value: a field was rejected, which is announced to the log, or another
failure, which is not. -/
inductive Refusal where
  | announced (rejection : Rejection)
  | silent (failure : Failure)
  deriving DecidableEq

namespace Refusal

/-- The failure of a refused call, the log left aside. -/
def failure : Refusal → Failure
  | announced r => r.failure
  | silent f => f

end Refusal

/-- Computations that can be ended by a rejection, and by a failure that is not announced. -/
class Rejecting (m : Type → Type) where
  /-- Announces a rejection and fails with it. -/
  reject {α : Type} : Rejection → m α
  fail {α : Type} : Failure → m α

/-- The warning is sent just before the failure. -/
instance : Rejecting Logging where
  reject r := .log r.record (.fail r.failure)
  fail := .fail

/-- The log left aside. This is how to write where no other way is given. -/
@[default_instance] instance : Rejecting (Except Refusal) where
  reject r := .error (.announced r)
  fail f := .error (.silent f)

section
variable {m : Type → Type} [Monad m] [Rejecting m] {α : Type}

/-- The outcome of what fails silently if it fails. -/
def silently : Except Failure α → m α
  | .ok a => pure a
  | .error f => Rejecting.fail f

end

end RouteWire
