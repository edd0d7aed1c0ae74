import RouteWire.Log.Sink

/-!
# Computations that log

A computation may send messages to the log at any point on its way to a value or a failure. It does
not see the sink: a message gives nothing back, and the computation goes on after it unless a
handler fails on it (`Sink.run`).
-/

set_option autoImplicit false

namespace RouteWire

/-- A computation that sends messages to the log on its way to a value or a failure. -/
inductive Logging (α : Type) where
  | done (a : α)
  | fail (f : Failure)
  /-- Sends a message, and then goes on. -/
  | log (r : Record) (next : Logging α)

namespace Logging

variable {α β : Type}

/-- Goes on with the value of a computation; a failure is the end of it. -/
def bind : Logging α → (α → Logging β) → Logging β
  | done a, k => k a
  | fail f, _ => fail f
  | log r next, k => log r (next.bind k)

instance : Monad Logging where
  pure := done
  bind := bind

/-- Sends a message. -/
def send (r : Record) : Logging Unit :=
  log r (done ())

/-- The messages of a computation, in order. -/
def messages : Logging α → List Record
  | done _ => []
  | fail _ => []
  | log r next => r :: next.messages

/-- What a computation comes to if no handler fails on its messages. -/
def outcome : Logging α → Except Failure α
  | done a => .ok a
  | fail f => .error f
  | log _ next => next.outcome

end Logging

/-- What a caller sees: the outcome, and what the handlers got on the way. -/
structure Reply (α : Type) where
  outcome : Except Failure α
  receipts : List Receipt := []

/-- The records that handlers got. -/
def Reply.records {α : Type} (r : Reply α) : List Record :=
  r.receipts.map Receipt.record

/-- Runs a computation against a sink. The failure of a handler on a message leaves the computation
at that message. -/
def Sink.run {η α : Type} [Handling η] (s : Sink η) : Logging α → Sink η × Reply α
  | .done a => (s, { outcome := .ok a })
  | .fail f => (s, { outcome := .error f })
  | .log r next =>
    let d := s.log r
    match d.raised with
    | some f => (d.sink, { outcome := .error f, receipts := d.receipts })
    | none =>
      let (s, reply) := d.sink.run next
      (s, { reply with receipts := d.receipts ++ reply.receipts })

end RouteWire
