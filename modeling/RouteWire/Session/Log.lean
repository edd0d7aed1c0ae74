import RouteWire.Session.Reply

/-!
# Log sessions

A run of steps over one log sink: steps that configure the sink, log a message, or perform a
call. A step that fails does not end the session.
-/

set_option autoImplicit false

namespace RouteWire

variable {η : Type}

/-- A step of a log session, where `η` are the handlers that can be installed. -/
inductive LogStep (η : Type := Handler) where
  /-- Sets the minimum to the level of a name and gives the minimum. -/
  | setMinimum (level : String)
  /-- Gives the minimum. -/
  | minimum
  /-- Installs a handler, or none. -/
  | install (handler : Option η)
  /-- Logs a message at the level of a name. -/
  | log (level logger message : String)
  | perform (call : Call)

namespace LogStep

/-- The reply to a step that fails before it does anything. -/
def failed (f : Failure) : Reply Answer :=
  { outcome := .error f }

/-- The name of the minimum level, as a reply. -/
def minimumReply (s : Sink η) : Reply Answer :=
  { outcome := .ok (.text (some s.minimum.name)) }

/-- Sends a message. -/
def logMessage (r : Record) : Logging Answer := do
  Logging.send r
  return .text none

/-- Runs a step: the sink afterwards, and the reply. -/
def run [Handling η] (s : Sink η) : LogStep η → Sink η × Reply Answer
  | setMinimum level =>
    match Level.ofName level with
    | .error f => (s, failed f)
    | .ok l =>
      let s := { s with minimum := l }
      (s, minimumReply s)
  | minimum => (s, minimumReply s)
  | install handler => ({ s with handler := handler }, { outcome := .ok (.text none) })
  | log level logger message =>
    match Level.ofName level with
    | .error f => (s, failed f)
    | .ok l => s.run (logMessage { level := l, logger := logger, message := message })
  | perform call => s.perform call

end LogStep

namespace Sink

/-- Runs the steps of a session in order: the sink afterwards, and a reply to each step. -/
def runSession [Handling η] : Sink η → List (LogStep η) → Sink η × List (Reply Answer)
  | s, [] => (s, [])
  | s, step :: steps =>
    let (s, reply) := step.run s
    let (s, replies) := runSession s steps
    (s, reply :: replies)

end Sink

end RouteWire
