import RouteWire.Failure

/-!
# Booleans on the wire

A boolean is exactly `true` or `false`, without another spelling.
-/

set_option autoImplicit false

namespace RouteWire

/-- Writes a boolean. -/
def writeBoolean : Bool → String
  | true => "true"
  | false => "false"

/-- Reads a boolean; any other token is malformed. -/
def readBoolean (token : String) : Except Failure Bool :=
  if token = "true" then .ok true
  else if token = "false" then .ok false
  else .error (.malformed 0 (.notBoolean token))

/-- Truth values come back from their texts. -/
theorem readBoolean_writeBoolean (b : Bool) : readBoolean (writeBoolean b) = .ok b := by
  cases b <;> rfl

end RouteWire
