import RouteWire.Session.Reply

/-!
# Parameter sessions

A run of steps over named slots that each hold parameters. A slot that was never filled holds
parameters that are all unset. A step that fails leaves its slot as it was and does not end the
session. The log sink only records.
-/

set_option autoImplicit false

namespace RouteWire

/-- Parameters under names. -/
abbrev Slots := String → Params

namespace Slots

/-- No parameter set in any slot. -/
def empty : Slots :=
  fun _ => {}

/-- The slots after one of them is filled. -/
def put (s : Slots) (slot : String) (p : Params) : Slots :=
  fun name => if name = slot then p else s name

/-- A slot has the parameters that were put there. -/
@[simp] theorem put_self (s : Slots) (slot : String) (p : Params) : s.put slot p slot = p :=
  if_pos rfl

/-- All other slots stay as they are. -/
theorem put_of_ne (s : Slots) {slot name : String} (p : Params) (h : name ≠ slot) :
    s.put slot p name = s name :=
  if_neg h

end Slots

/-- What a step does with its slot. -/
inductive SlotAction where
  | ofQuery (q : Query)
  | ofDocument (d : Document)
  | set (patches : List Params.Patch)
  /-- Takes over the parameters of another slot. -/
  | copy (source : String)
  /-- Writes the parameters and reads them again. -/
  | reload
  | toQuery
  | toDocument
  /-- Compares with the parameters of another slot. -/
  | same (other : String)

/-- A step of a parameter session. -/
structure SlotStep where
  slot : String
  action : SlotAction

namespace SlotAction

/-- The parameters that an action puts into its slot; none if it only looks at them. -/
def update (s : Slots) (slot : String) : SlotAction → Option (Logging Params)
  | ofQuery q => some (silently (Params.ofQuery q))
  | ofDocument d => some (silently (Params.ofDocument d))
  | set patches => some (return (s slot).apply patches)
  | copy source => some (return s source)
  | reload => some do
    let q ← (s slot).toQuery
    silently (Params.ofQuery q)
  | toQuery | toDocument | same _ => none

/-- What an action that leaves its slot alone answers; one that fills it answers with the
parameters in it. -/
def view (s : Slots) (slot : String) : SlotAction → Logging Answer
  | toQuery => .query <$> (s slot).toQuery
  | toDocument => .document <$> (s slot).toDocument
  | same other => return .truth ((s slot).same (s other))
  | _ => return .params (s slot)

end SlotAction

namespace Slots

/-- Runs a step: the slots afterwards, and the reply. -/
def runStep (s : Slots) (step : SlotStep) : Slots × Reply Answer :=
  match step.action.update s step.slot with
  | none => (s, (Sink.recorder.run (step.action.view s step.slot)).2)
  | some update =>
    let reply := (Sink.recorder.run update).2
    match reply.outcome with
    | .error f => (s, { outcome := .error f, receipts := reply.receipts })
    | .ok p => (s.put step.slot p, { outcome := .ok (.params p), receipts := reply.receipts })

/-- Runs the steps of a session in order and gives a reply to each. -/
def runSession : Slots → List SlotStep → List (Reply Answer)
  | _, [] => []
  | s, step :: steps =>
    let (s, reply) := s.runStep step
    reply :: runSession s steps

end Slots

end RouteWire
