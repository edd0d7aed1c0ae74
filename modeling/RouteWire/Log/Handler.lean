import RouteWire.Log.Sink

/-!
# Handlers

The handlers that a log session can install. All of them take down the record; what they do to the
sink after that tells them apart.
-/

set_option autoImplicit false

namespace RouteWire

/-- What a handler does after it has taken down the record. -/
inductive Handler where
  /-- Nothing more. -/
  | record
  /-- Fails. -/
  | fail
  /-- Uninstalls itself. -/
  | once
  /-- Sets the minimum to the level above the record's, if there is one. -/
  | tighten
  /-- Logs the message again at the level below, if there is one, with a `+` after the logger. -/
  | cascade
  deriving DecidableEq

namespace Handler

/-- What a handler does with a record. -/
def act : Handler → Record → Sink Handler → Delivery Handler
  | record, _, s => { sink := s }
  | fail, r, s => { sink := s, raised := some (.general (.handlerRaised r.message)) }
  | once, _, s => { sink := { s with handler := none } }
  | tighten, r, s => { sink := { s with minimum := r.level.above?.getD s.minimum } }
  | cascade, r, s =>
    match _h : r.level.below? with
    | none => { sink := s }
    | some below =>
      let again := { r with level := below, logger := r.logger ++ "+" }
      s.deliver again fun h => act h again s
termination_by _ r _ => r.level.severity
decreasing_by exact Nat.lt_of_succ_le (Nat.le_of_eq (Level.severity_below _h))

/-- Every handler works on the sink by the operations on a sink. -/
theorem leads_act (h : Handler) (r : Record) (s : Sink Handler) : Sink.Leads act s (act h r s) := by
  cases h with
  | record =>
    rw [act]
    exact .done s
  | fail =>
    rw [act]
    exact .fail s _
  | once =>
    rw [act]
    exact .install none (.done _)
  | tighten =>
    rw [act]
    exact .setMinimum _ (.done _)
  | cascade =>
    rw [act]
    split
    · exact .done s
    · -- The failure of the message it sends is the failure it ends with.
      rename_i below hbelow
      have hlog : ∀ d : Delivery Handler,
          Sink.Leads act d.sink { sink := d.sink, raised := d.raised } := by
        intro d
        cases d.raised with
        | none => exact .done _
        | some f => exact .fail _ f
      have hleads := Sink.Leads.log (s := s)
        { r with level := below, logger := r.logger ++ "+" } (hlog _)
      simpa using hleads

instance : Handling Handler where
  act := act
  leads := leads_act

end Handler

end RouteWire
