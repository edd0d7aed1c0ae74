import RouteWire.Failure

/-!
# Traffic tendencies

How the congestion of a road segment develops. Unlike the criteria, a tendency is a number on
the wire.
-/

set_option autoImplicit false

namespace RouteWire

/-- How congestion develops. -/
inductive TrafficTendency where
  | unknown
  | constantCongestion
  | increasingCongestion
  | decreasingCongestion
  | rapidlyIncreasingCongestion
  | rapidlyDecreasingCongestion
  deriving DecidableEq

namespace TrafficTendency

/-- The number of a tendency on the wire. -/
def code : TrafficTendency → Int
  | unknown => 0
  | constantCongestion => 1
  | increasingCongestion => 2
  | decreasingCongestion => 3
  | rapidlyIncreasingCongestion => 4
  | rapidlyDecreasingCongestion => 5

/-- All tendencies, in the order of their codes. -/
def all : List TrafficTendency :=
  [unknown, constantCongestion, increasingCongestion, decreasingCongestion,
    rapidlyIncreasingCongestion, rapidlyDecreasingCongestion]

/-- Whether a number is the code of a tendency. -/
def accepts (code : Int) : Bool :=
  decide (unknown.code ≤ code ∧ code ≤ rapidlyDecreasingCongestion.code)

/-- The tendency of a code; any other number is a bad argument. -/
def ofCode (code : Int) : Except Failure TrafficTendency :=
  (all.find? (·.code = code)).elim (.error (.badArgument (.unknownTrafficTendency code))) .ok

/-- A tendency comes back from its code. -/
theorem ofCode_code (t : TrafficTendency) : ofCode t.code = .ok t := by
  cases t <;> rfl

end TrafficTendency

end RouteWire
