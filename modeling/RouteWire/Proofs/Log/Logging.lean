import RouteWire.Log.Logging
import RouteWire.Proofs.Log.Handler

/-!
# What a computation that logs comes to

A computation is its messages and its outcome, and both can be told before there is a sink. When
it is run against one, the handlers get the messages in order, and the outcome is that of the
computation unless a handler fails on a message.

All computations of the library send one message at most. `Sink.run_of_messages_nil` and
`Sink.run_of_messages_singleton` say what becomes of these, and `Sink.outcome_run_cases` when the
sink has a say in the outcome.
-/

set_option autoImplicit false

namespace RouteWire

open Handling (OnlyRecords NeverFails)

variable {α β : Type}

namespace Logging

/-! ### Messages and outcome -/

/-- The laws of sequencing: a message stays where it is. -/
instance : LawfulMonad Logging := LawfulMonad.mk' Logging
  (fun p => by
    induction p with
    | done a => rfl
    | fail f => rfl
    | log r next ih => exact congrArg (log r) ih)
  (fun _ _ => rfl)
  (fun p k l => by
    induction p with
    | done a => rfl
    | fail f => rfl
    | log r next ih => exact congrArg (log r) ih)

/-- A value sends nothing. -/
@[simp] theorem messages_pure (a : α) : (pure a : Logging α).messages = [] :=
  rfl

/-- What is made of the value at the end sends nothing. -/
@[simp] theorem messages_map (f : α → β) (p : Logging α) : (f <$> p).messages = p.messages := by
  induction p with
  | done a => rfl
  | fail e => rfl
  | log r next ih => exact congrArg (r :: ·) ih

/-- What is made of the value at the end is made of the value of the outcome. -/
@[simp] theorem outcome_map (f : α → β) (p : Logging α) : (f <$> p).outcome = f <$> p.outcome := by
  induction p with
  | done a => rfl
  | fail e => rfl
  | log r next ih => exact ih

end Logging

/-! ### Against a sink -/

namespace Sink

variable {η : Type} [Handling η] {s : Sink η} {p : Logging α} {r : Record} {h : η}

/-- What sends no message knows nothing of the sink. -/
theorem run_of_messages_nil (hp : p.messages = []) : s.run p = (s, { outcome := p.outcome }) := by
  cases p with
  | done a => rfl
  | fail f => rfl
  | log r next => cases hp

/-- What sends one message comes to its outcome, unless the message fails. -/
theorem run_of_messages_singleton (hp : p.messages = [r]) :
    s.run p = ((s.log r).sink,
      { outcome := (s.log r).raised.elim p.outcome .error, receipts := (s.log r).receipts }) := by
  cases p with
  | done a => cases hp
  | fail f => cases hp
  | log r' next =>
      obtain ⟨rfl, hnext⟩ := List.cons_eq_cons.mp hp
      -- If the message does not fail, what is left sends nothing.
      rw [run]
      cases hraised : (s.log r').raised with
      | some f => rfl
      | none =>
          simp only [run_of_messages_nil hnext, List.append_nil]
          rfl

/-- The outcome against a sink is that of the computation, unless the handler that gets its message
fails on it: then that failure is the outcome. -/
theorem outcome_run_cases (s : Sink η) (hp : p.messages.length ≤ 1) :
    (s.run p).2.outcome = p.outcome ∨
      ∃ r h e, p.messages = [r] ∧ s.minimum ≤ r.level ∧ s.handler = some h ∧
        (Handling.act h r s).raised = some e ∧ (s.run p).2.outcome = .error e := by
  rcases hmessages : p.messages with _ | ⟨r, rest⟩
  · rw [run_of_messages_nil hmessages]
    exact .inl rfl
  · -- There is no second message.
    obtain rfl : rest = [] := by
      rw [hmessages] at hp
      exact List.eq_nil_of_length_eq_zero (Nat.le_zero.mp (Nat.le_of_succ_le_succ hp))
    rw [run_of_messages_singleton hmessages]
    rcases log_cases s r with ⟨-, hdropped⟩ | ⟨h, hlevel, hhandler, hlog⟩
    · rw [hdropped]
      exact .inl rfl
    · rw [hlog]
      cases hraised : (Handling.act h r s).raised with
      | none => exact .inl rfl
      | some e => exact .inr ⟨r, h, e, rfl, hlevel, hhandler, hraised, rfl⟩

/-- With a handler that does not fail, or none, the outcome is that of the computation. -/
theorem outcome_run (hs : ∀ h, s.handler = some h → NeverFails h) (hp : p.messages.length ≤ 1) :
    (s.run p).2.outcome = p.outcome := by
  rcases outcome_run_cases s hp with houtcome | ⟨r, h, e, -, -, hhandler, hraised, -⟩
  · exact houtcome
  · rw [hs h hhandler _ _ hhandler] at hraised
    cases hraised

/-- The failure of a handler on the message of a computation is the outcome. -/
theorem outcome_run_of_raised {e : Failure} (hp : p.messages = [r]) (hlevel : s.minimum ≤ r.level)
    (hhandler : s.handler = some h) (hraised : (Handling.act h r s).raised = some e) :
    (s.run p).2.outcome = .error e := by
  rw [run_of_messages_singleton hp, log_of_handler hlevel hhandler]
  show (Handling.act h r s).raised.elim p.outcome .error = _
  rw [hraised]
  rfl

/-- A handler that only records gets the message of a computation, and nothing else. -/
theorem run_of_onlyRecords (hh : OnlyRecords h) (hhandler : s.handler = some h)
    (hp : p.messages = [r]) (hlevel : s.minimum ≤ r.level) :
    s.run p = (s, { outcome := p.outcome, receipts := [⟨s.minimum, r⟩] }) := by
  rw [run_of_messages_singleton hp, log_of_onlyRecords hh hlevel hhandler]
  rfl

end Sink

end RouteWire
