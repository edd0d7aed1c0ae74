import RouteWire.Call.Basic
import RouteWire.Log.Handler

/-!
# Performing calls against a log sink

A call is performed by running its computation against the sink (`Sink.run`).
-/

set_option autoImplicit false

namespace RouteWire.Sink

/-- Performs a call. -/
def perform {η : Type} [Handling η] (s : Sink η) (c : Call) : Sink η × Reply Answer :=
  s.run c.run

/-- A sink that records what is at or above the default level. -/
def recorder : Sink Handler :=
  { handler := some .record }

end RouteWire.Sink
