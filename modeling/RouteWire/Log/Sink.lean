import RouteWire.Log.Level

/-!
# The log sink

Messages go to a sink, which drops those below its minimum level and hands the others to its
handler, if one is installed. A handler may act on the sink itself: it may install another
handler, set the minimum, log again, or fail.

What handlers there are is left open. `Handling η` says what each handler of a type `η` does with
a record. It holds handlers to the operations on a sink (`Sink.Leads`), in any order and number:
no handler gets at the sink in another way.

`Sink.log` takes the sink as a value and says what one message leads to: the sink afterwards,
the receipts of the handlers in the order in which they got their records, and the failure that
leaves the call if a handler fails.
-/

set_option autoImplicit false

namespace RouteWire

variable {η : Type}

/-- A message with its level and the name of the logger that sends it. -/
structure Record where
  level : Level
  logger : String
  message : String
  deriving DecidableEq

/-- The minimum level and the installed handler. -/
structure Sink (η : Type) where
  minimum : Level := .info
  handler : Option η := none
  deriving DecidableEq

/-- A record that a handler got, and the minimum level that the message found. -/
structure Receipt where
  minimum : Level
  record : Record
  deriving DecidableEq

/-- What a message leads to. -/
structure Delivery (η : Type) where
  sink : Sink η
  receipts : List Receipt := []
  raised : Option Failure := none

/-- The records that handlers got. -/
def Delivery.records (d : Delivery η) : List Record :=
  d.receipts.map Receipt.record

namespace Sink

/-- Delivers a message, where `handle` is what a handler does that gets it. The handler that is
installed when the message arrives is the one that gets it. -/
def deliver (s : Sink η) (r : Record) (handle : η → Delivery η) : Delivery η :=
  if r.level < s.minimum then { sink := s }
  else
    match s.handler with
    | none => { sink := s }
    | some h =>
      let d := handle h
      { d with receipts := ⟨s.minimum, r⟩ :: d.receipts }

/-- What operations on a sink, one after the other, can lead to, where `act` is what handlers do.
They may look at the sink and at the failures of the messages they send, so that any choice of the
next operation is one of these. -/
inductive Leads (act : η → Record → Sink η → Delivery η) : Sink η → Delivery η → Prop where
  | done (s : Sink η) : Leads act s { sink := s }
  | fail (s : Sink η) (f : Failure) : Leads act s { sink := s, raised := some f }
  | setMinimum {s : Sink η} {d : Delivery η} (l : Level)
      (h : Leads act { s with minimum := l } d) : Leads act s d
  | install {s : Sink η} {d : Delivery η} (handler : Option η)
      (h : Leads act { s with handler := handler } d) : Leads act s d
  | log {s : Sink η} {d : Delivery η} (r : Record)
      (h : Leads act (s.deliver r fun h => act h r s).sink d) :
      Leads act s { d with receipts := (s.deliver r fun h => act h r s).receipts ++ d.receipts }

end Sink

/-- What each handler of a type does with a record and the sink that gives it the record. -/
class Handling (η : Type) where
  act : η → Record → Sink η → Delivery η
  /-- A handler works on the sink by the operations on a sink. -/
  leads : ∀ (h : η) (r : Record) (s : Sink η), Sink.Leads act s (act h r s)

namespace Sink

variable [Handling η]

/-- Sends a message to the sink. -/
def log (s : Sink η) (r : Record) : Delivery η :=
  s.deliver r fun h => Handling.act h r s

/-- A message below the minimum changes nothing and reaches no one. -/
theorem log_of_lt {s : Sink η} {r : Record} (h : r.level < s.minimum) : s.log r = { sink := s } :=
  if_pos h

/-- Without a handler a message changes nothing and reaches no one. -/
theorem log_of_handler_none {s : Sink η} (r : Record) (h : s.handler = none) :
    s.log r = { sink := s } := by
  rw [log, deliver]
  split
  · rfl
  · rw [h]

end Sink

end RouteWire
