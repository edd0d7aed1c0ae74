import RouteWire.Proofs.Session.Perform

/-!
# Runs of log sessions

A step sends at most one message to the sink (`LogStep.message?`): a log step its own, a call the
one that it sends (`Call.messages_run`), which is the warning of its rejection or the number of the
parameters that it has loaded. The first handler that a message gets to may send others.
`LogStep.run_cases` says all that a step can do: the installed handler gets the message and does
what it does, or no one gets a message and the step sets the minimum, if it does that.

- `Sink.records_of_onlyRecords`: a handler that only records gets the messages at or above the
  minimum that the session has set by then, each once and in order (`heard`).
- `Sink.session_invariant`: what holds of the records, the minimum and the handler in every session,
  from whatever sink and with whatever handlers.
-/

set_option autoImplicit false

namespace RouteWire

variable {η : Type}

/-- The message that a call sends to the sink. It sends no other (`Call.messages_eq`). -/
def Call.message? (c : Call) : Option Record :=
  c.run.messages.head?

/-- A call sends the message that it has, if it has one. -/
theorem Call.messages_eq (c : Call) : c.run.messages = c.message?.toList := by
  rw [message?]
  rcases c.messages_run with hnil | ⟨r, hmessages, -⟩
  · rw [hnil]
    rfl
  · rw [hmessages]
    rfl

namespace LogStep

/-- The message that a step sends to the sink. -/
def message? : LogStep η → Option Record
  | log level logger message => (Level.ofName level).toOption.map fun l => ⟨l, logger, message⟩
  | perform c => c.message?
  | _ => none

/-- The minimum after a step, if no handler sets it. -/
def newMinimum (m : Level) : LogStep η → Level
  | setMinimum level => (Level.ofName level).toOption.getD m
  | _ => m

/-- The message of a step, if it is at or above the minimum. -/
def heard? (m : Level) (step : LogStep η) : Option Record :=
  step.message?.filter fun r => m ≤ r.level

variable {step : LogStep η} {r : Record} {m : Level}

/-- A message at or above the minimum is heard. -/
theorem heard?_eq_some (hmessage : step.message? = some r) (hlevel : m ≤ r.level) :
    step.heard? m = some r := by
  rw [heard?, hmessage]
  exact Option.filter_eq_some_iff.mpr ⟨rfl, decide_eq_true hlevel⟩

/-- A message below the minimum is not heard. -/
theorem heard?_eq_none (h : ∀ r, step.message? = some r → r.level < m) : step.heard? m = none := by
  rw [heard?, Option.filter_eq_none_iff]
  intro r hmessage hlevel
  exact Level.not_lt_of_le (of_decide_eq_true hlevel) (h r hmessage)

/-- Only a step without a message sets the minimum. -/
theorem newMinimum_of_message (hmessage : step.message? = some r) (m : Level) :
    step.newMinimum m = m := by
  cases step with
  | setMinimum level => cases hmessage
  | _ => rfl

end LogStep

/-- The messages of a session that are at or above the minimum of their moment, where only the steps
of the session set the minimum. -/
def heard : Level → List (LogStep η) → List Record
  | _, [] => []
  | m, step :: steps => (step.heard? m).toList ++ heard (step.newMinimum m) steps

variable [Handling η]

/-! ### One step -/

namespace LogStep

variable {s : Sink η} {step : LogStep η} {r : Record} {h : η}

/-- A step that has a message does to the sink what logging it does. -/
theorem run_of_message (hmessage : step.message? = some r) :
    (step.run s).1 = (s.log r).sink ∧ (step.run s).2.receipts = (s.log r).receipts := by
  cases step with
  | log level logger message =>
      cases hlevel : Level.ofName level with
      | error f => simp [message?, hlevel, Except.toOption] at hmessage
      | ok l =>
          have hr : (⟨l, logger, message⟩ : Record) = r := by
            simpa [message?, hlevel, Except.toOption] using hmessage
          subst hr
          simp only [run, hlevel]
          rw [Sink.run_of_messages_singleton (p := logMessage _) rfl]
          exact ⟨rfl, rfl⟩
  | perform c =>
      have hmessages : c.run.messages = [r] := by
        rw [Call.messages_eq, show c.message? = some r from hmessage]
        rfl
      rw [run, Sink.perform, Sink.run_of_messages_singleton hmessages]
      exact ⟨rfl, rfl⟩
  | setMinimum level => cases hmessage
  | minimum => cases hmessage
  | install handler => cases hmessage

/-- A step without a message records nothing, and leaves the handler if it installs none. -/
theorem run_of_message_eq_none (hmessage : step.message? = none)
    (hinstall : ∀ handler, step ≠ .install handler) :
    (step.run s).1 = { s with minimum := step.newMinimum s.minimum } ∧
      (step.run s).2.receipts = [] := by
  cases step with
  | log level logger message =>
      cases hlevel : Level.ofName level with
      | error f => simp [run, hlevel, newMinimum, failed]
      | ok l => simp [message?, hlevel, Except.toOption] at hmessage
  | perform c =>
      -- A call that sends no message leaves the sink alone.
      have hmessages : c.run.messages = [] := by
        rw [Call.messages_eq, show c.message? = none from hmessage]
        rfl
      rw [run, Sink.perform, Sink.run_of_messages_nil hmessages]
      exact ⟨rfl, rfl⟩
  | setMinimum level =>
      cases hlevel : Level.ofName level with
      | error f => simp [run, hlevel, newMinimum, failed, Except.toOption]
      | ok l => simp [run, hlevel, newMinimum, minimumReply, Except.toOption]
  | minimum => exact ⟨rfl, rfl⟩
  | install handler => exact absurd rfl (hinstall handler)

/-- A step that fails does not set the minimum. -/
theorem newMinimum_of_error {e : Failure} (herror : (step.run s).2.outcome = .error e) :
    step.newMinimum s.minimum = s.minimum := by
  cases step with
  | setMinimum level =>
      cases hlevel : Level.ofName level with
      | error f => simp [newMinimum, hlevel, Except.toOption]
      | ok l => simp [run, hlevel, minimumReply] at herror
  | _ => rfl

/-- A message below the minimum, and any message without a handler, changes nothing. -/
theorem run_of_dropped (hmessage : step.message? = some r)
    (hdropped : r.level < s.minimum ∨ s.handler = none) :
    (step.run s).1 = s ∧ (step.run s).2.receipts = [] := by
  obtain ⟨hsink, hreceipts⟩ := run_of_message (s := s) hmessage
  have hlog : s.log r = { sink := s } :=
    hdropped.elim Sink.log_of_lt (Sink.log_of_handler_none r)
  rw [hlog] at hsink hreceipts
  exact ⟨hsink, hreceipts⟩

/-- What a step does that does not install a handler: the handler that is installed gets its
message, or no handler gets any and the minimum is what the step sets it to. -/
theorem run_cases (s : Sink η) (hinstall : ∀ handler, step ≠ .install handler) :
    (∃ r h, step.message? = some r ∧ s.minimum ≤ r.level ∧ s.handler = some h ∧
        (step.run s).1 = (Handling.act h r s).sink ∧
        (step.run s).2.receipts = ⟨s.minimum, r⟩ :: (Handling.act h r s).receipts) ∨
      ((∀ r, step.message? = some r → r.level < s.minimum ∨ s.handler = none) ∧
        (step.run s).1 = { s with minimum := step.newMinimum s.minimum } ∧
        (step.run s).2.receipts = []) := by
  cases hmessage : step.message? with
  | none =>
      refine .inr ⟨fun r hr => ?_, run_of_message_eq_none hmessage hinstall⟩
      cases hr
  | some r =>
      rcases Sink.log_cases s r with ⟨hdropped, -⟩ | ⟨h, hlevel, hhandler, hlog⟩
      · refine .inr ⟨fun r' hr' => ?_, ?_⟩
        · cases hr'
          exact hdropped
        · -- The step sends a message, so it is none that sets the minimum.
          rw [newMinimum_of_message hmessage]
          exact run_of_dropped hmessage hdropped
      · obtain ⟨hsink, hreceipts⟩ := run_of_message (s := s) hmessage
        rw [hlog] at hsink hreceipts
        exact .inl ⟨r, h, rfl, hlevel, hhandler, hsink, hreceipts⟩

/-- With a handler installed, the message of a step gets to it if it is heard. -/
theorem run_cases_of_handler (hhandler : s.handler = some h)
    (hinstall : ∀ handler, step ≠ .install handler) :
    (∃ r, step.heard? s.minimum = some r ∧ s.minimum ≤ r.level ∧
        step.newMinimum s.minimum = s.minimum ∧ (step.run s).1 = (Handling.act h r s).sink ∧
        (step.run s).2.receipts = ⟨s.minimum, r⟩ :: (Handling.act h r s).receipts) ∨
      (step.heard? s.minimum = none ∧
        (step.run s).1 = { s with minimum := step.newMinimum s.minimum } ∧
        (step.run s).2.receipts = []) := by
  rcases run_cases s hinstall with
    ⟨r, h', hmessage, hlevel, hhandler', hrun⟩ | ⟨hdropped, hrun⟩
  · rw [hhandler] at hhandler'
    cases hhandler'
    exact .inl ⟨r, heard?_eq_some hmessage hlevel, hlevel, newMinimum_of_message hmessage _, hrun⟩
  · refine .inr ⟨heard?_eq_none fun r hmessage => ?_, hrun⟩
    rcases hdropped r hmessage with hlevel | hnone
    · exact hlevel
    · rw [hhandler] at hnone
      cases hnone

/-- A step that fails leaves the minimum as it was, unless the handler that got its message sets
it. -/
theorem minimum_run_of_error {e : Failure} (herror : (step.run s).2.outcome = .error e) :
    (step.run s).1.minimum = s.minimum ∨
      ∃ r h, step.message? = some r ∧ s.minimum ≤ r.level ∧ s.handler = some h ∧
        (step.run s).1.minimum = (Handling.act h r s).sink.minimum := by
  -- Installing a handler never fails.
  have hinstall : ∀ handler, step ≠ .install handler := by
    intro handler hstep
    rw [hstep] at herror
    cases herror
  rcases run_cases s hinstall with
    ⟨r, h, hmessage, hlevel, hhandler, hsink, -⟩ | ⟨-, hsink, -⟩
  · exact .inr ⟨r, h, hmessage, hlevel, hhandler, congrArg Sink.minimum hsink⟩
  · rw [hsink]
    exact .inl (newMinimum_of_error herror)

/-- The records of a step are at or above the minimum that their messages found. -/
theorem minimum_le_of_mem_receipts (s : Sink η) (step : LogStep η) :
    ∀ x ∈ (step.run s).2.receipts, x.minimum ≤ x.record.level := by
  cases hmessage : step.message? with
  | some r =>
      rw [(run_of_message hmessage).2]
      exact Sink.minimum_le_of_mem_receipts s r
  | none =>
      have hnil : (step.run s).2.receipts = [] := by
        by_cases hinstall : ∃ handler, step = .install handler
        · obtain ⟨handler, rfl⟩ := hinstall
          rfl
        · exact (run_of_message_eq_none hmessage fun handler hstep => hinstall ⟨handler, hstep⟩).2
      simp [hnil]

end LogStep

/-! ### Whole sessions -/

namespace Sink

variable {s : Sink η} {h : η}

/-- The sink after a session. -/
def after (s : Sink η) (steps : List (LogStep η)) : Sink η :=
  (s.runSession steps).1

/-- The sink after a session, by its first step. -/
theorem after_cons (s : Sink η) (step : LogStep η) (steps : List (LogStep η)) :
    s.after (step :: steps) = (step.run s).1.after steps :=
  rfl

/-- The replies to a session, by its first step. -/
theorem replies_cons (s : Sink η) (step : LogStep η) (steps : List (LogStep η)) :
    (s.runSession (step :: steps)).2 = (step.run s).2 :: ((step.run s).1.runSession steps).2 :=
  rfl

/-- Each step has one reply. -/
theorem length_replies (s : Sink η) (steps : List (LogStep η)) :
    (s.runSession steps).2.length = steps.length := by
  induction steps generalizing s with
  | nil => rfl
  | cons step steps ih => rw [replies_cons, List.length_cons, List.length_cons, ih]

/-- A session goes on from the sink that the steps before left behind. -/
theorem runSession_append (s : Sink η) (xs ys : List (LogStep η)) :
    s.runSession (xs ++ ys) =
      ((s.after xs).after ys, (s.runSession xs).2 ++ ((s.after xs).runSession ys).2) := by
  induction xs generalizing s with
  | nil => rfl
  | cons step xs ih =>
      show (((step.run s).1.runSession (xs ++ ys)).1,
        (step.run s).2 :: ((step.run s).1.runSession (xs ++ ys)).2) = _
      rw [ih]
      rfl

/-- The sink after two sessions, one after the other. -/
theorem after_append (s : Sink η) (xs ys : List (LogStep η)) :
    s.after (xs ++ ys) = (s.after xs).after ys := by
  rw [after, runSession_append]

/-- What each step keeps, the session keeps. -/
theorem after_induction {P : Sink η → Prop} {steps : List (LogStep η)}
    (hstep : ∀ step ∈ steps, ∀ s, P s → P (step.run s).1) (hs : P s) : P (s.after steps) := by
  induction steps generalizing s with
  | nil => exact hs
  | cons step steps ih =>
      obtain ⟨hhead, hsteps⟩ := List.forall_mem_cons.mp hstep
      exact ih hsteps (hhead s hs)

/-- The reply to a step is what it gives at the sink that the steps before left behind. -/
theorem getElem?_replies (s : Sink η) (steps : List (LogStep η)) (i : Nat) :
    (s.runSession steps).2[i]? =
      steps[i]?.map fun step => (step.run (s.after (steps.take i))).2 := by
  induction steps generalizing s i with
  | nil => rfl
  | cons step steps ih =>
      cases i with
      | zero => rfl
      | succ i => exact ih (step.run s).1 i

/-- The replies to the steps `during` in a session with steps before and after them. -/
def repliesTo (s : Sink η) (before during rest : List (LogStep η)) : List (Reply Answer) :=
  ((s.runSession (before ++ during ++ rest)).2.drop before.length).take during.length

/-- The replies to a part of a session are those to the part alone, from where it starts. -/
theorem repliesTo_eq (s : Sink η) (before during rest : List (LogStep η)) :
    s.repliesTo before during rest = ((s.after before).runSession during).2 := by
  rw [repliesTo, List.append_assoc, runSession_append, runSession_append]
  show (((s.runSession before).2 ++ (_ ++ _)).drop before.length).take during.length = _
  rw [List.drop_left' (length_replies s before), List.take_left' (length_replies _ during)]

end Sink

/-- A handler that only records gets the message of a step if it is at or above the minimum. -/
theorem LogStep.run_of_onlyRecords {s : Sink η} {step : LogStep η} {h : η}
    (hh : Handling.OnlyRecords h) (hhandler : s.handler = some h)
    (hinstall : ∀ handler, step ≠ .install handler) :
    (step.run s).1 = { s with minimum := step.newMinimum s.minimum } ∧
      (step.run s).2.records = (step.heard? s.minimum).toList := by
  rcases run_cases_of_handler hhandler hinstall with
    ⟨r, hheard, -, hminimum, hsink, hreceipts⟩ | ⟨hheard, hsink, hreceipts⟩
  · rw [hh] at hsink hreceipts
    rw [hheard, hminimum, Reply.records, hreceipts]
    exact ⟨hsink, rfl⟩
  · rw [hheard, Reply.records, hreceipts]
    exact ⟨hsink, rfl⟩

namespace Sink

variable {s : Sink η} {h : η}

/-- A handler that only records gets all messages at or above the minimum, each once and in order,
and the session goes on as its steps have it. -/
theorem records_of_onlyRecords (hh : Handling.OnlyRecords h) {steps : List (LogStep η)}
    (hinstall : ∀ step ∈ steps, ∀ handler, step ≠ .install handler)
    (hhandler : s.handler = some h) :
    (s.runSession steps).2.flatMap Reply.records = heard s.minimum steps ∧
      s.after steps = { s with minimum := steps.foldl LogStep.newMinimum s.minimum } := by
  induction steps generalizing s with
  | nil => exact ⟨rfl, rfl⟩
  | cons step steps ih =>
      obtain ⟨hstep, hsteps⟩ := List.forall_mem_cons.mp hinstall
      obtain ⟨hsink, hrecords⟩ := LogStep.run_of_onlyRecords hh hhandler hstep
      obtain ⟨hrest, hafter⟩ := ih hsteps
        (s := { s with minimum := step.newMinimum s.minimum }) hhandler
      rw [replies_cons, List.flatMap_cons, after_cons, hsink, hrecords, hrest, hafter]
      exact ⟨rfl, rfl⟩

/-- Only messages at or above the minimum of their moment are recorded. -/
theorem minimum_le_of_mem_replies {steps : List (LogStep η)} :
    ∀ reply ∈ (s.runSession steps).2, ∀ x ∈ reply.receipts, x.minimum ≤ x.record.level := by
  induction steps generalizing s with
  | nil =>
      intro reply hreply
      cases hreply
  | cons step steps ih =>
      intro reply hreply
      rw [replies_cons] at hreply
      rcases List.mem_cons.mp hreply with rfl | hreply
      · exact LogStep.minimum_le_of_mem_receipts s step
      · exact ih reply hreply

/-- What holds in every session, whatever its handlers do:
- no record is below the minimum that its message found, the messages that handlers send included;
- a message below the minimum, or without a handler to get it, changes nothing and reaches no one;
- a step that fails leaves the minimum as it was, unless the handler that got its message set it;
- a handler that only records gets the messages at or above the minimum that the steps have set by
  then, each once and in order. -/
theorem session_invariant (s₀ : Sink η) (steps : List (LogStep η)) :
    (∀ reply ∈ (s₀.runSession steps).2, ∀ x ∈ reply.receipts, x.minimum ≤ x.record.level) ∧
      (∀ (s : Sink η) (r : Record), r.level < s.minimum ∨ s.handler = none →
        s.log r = { sink := s }) ∧
      (∀ before step rest, steps = before ++ [step] ++ rest →
        let s := s₀.after before
        let s' := s₀.after (before ++ [step])
        ∃ reply, s₀.repliesTo before [step] rest = [reply] ∧
          (∀ r, step.message? = some r → r.level < s.minimum ∨ s.handler = none →
            s' = s ∧ reply.receipts = []) ∧
          ∀ e, reply.outcome = .error e →
            s'.minimum = s.minimum ∨
              ∃ r h, step.message? = some r ∧ s.minimum ≤ r.level ∧ s.handler = some h ∧
                s'.minimum = (Handling.act h r s).sink.minimum) ∧
      ∀ before during rest h, steps = before ++ during ++ rest →
        let s := s₀.after before
        s.handler = some h → Handling.OnlyRecords h →
        (∀ step ∈ during, ∀ handler, step ≠ .install handler) →
        (s₀.repliesTo before during rest).flatMap Reply.records = heard s.minimum during ∧
          s₀.after (before ++ during) =
            { s with minimum := during.foldl LogStep.newMinimum s.minimum } := by
  refine ⟨minimum_le_of_mem_replies, fun s r hdropped => ?_, fun before step rest _ => ?_,
    fun before during rest h _ => ?_⟩
  · exact hdropped.elim log_of_lt (log_of_handler_none r)
  · intro s s'
    -- What a step does in a session is what it does at the sink that the steps before left.
    have hs' : s' = (step.run s).1 := after_append s₀ before [step]
    rw [hs']
    refine ⟨(step.run s).2, repliesTo_eq s₀ before [step] rest, ?_, ?_⟩
    · intro r hmessage hdropped
      exact LogStep.run_of_dropped hmessage hdropped
    · intro e herror
      exact LogStep.minimum_run_of_error herror
  · intro s hhandler hh hinstall
    rw [repliesTo_eq, after_append]
    exact records_of_onlyRecords hh hinstall hhandler

/-- The same rejected call is heard at first and not at the end, and a level that does not exist
does no harm in between. The parameters of a JSON text are counted on the way. -/
theorem session_invariant_recorded :
    let scan : JsonScanner := fun _ => .object [.text "layers" "1;2", .null "exclude"]
    let during : List LogStep := [.log "info" "app" "started",
      .perform (.writeField (.approaches (some [some "kerb"]))), .setMinimum "debug",
      .perform (.load scan "\x7b\"layers\":\"1;2\",\"exclude\":null\x7d"), .setMinimum "error",
      .setMinimum "loud", .perform (.writeField (.approaches (some [some "kerb"]))),
      .log "emergency" "app" "stopped"]
    let s : Sink Handler := ({} : Sink Handler).after [.install (some .record)]
    s.handler = some .record ∧ Handling.OnlyRecords Handler.record ∧
      (∀ step ∈ during, ∀ handler, step ≠ .install handler) ∧
      (({} : Sink Handler).repliesTo [.install (some .record)] during []).flatMap Reply.records =
        [⟨.info, "app", "started"⟩,
          ⟨.warning, "waycodec.formatter",
            "approaches[0]: Approach should be one of unrestricted or curb"⟩,
          ⟨.debug, "waycodec.route_parameters", "Loaded 1 parameters from JSON"⟩,
          ⟨.emergency, "app", "stopped"⟩] := by
  intro scan during s
  have hinstall : ∀ step ∈ during, ∀ handler, step ≠ .install handler := by simp [during]
  have hinvariant := session_invariant ({} : Sink Handler)
    ([.install (some .record)] ++ during ++ [])
  obtain ⟨hrecords, -⟩ := hinvariant.2.2.2 _ during [] .record rfl rfl Handler.onlyRecords_record
    hinstall
  exact ⟨rfl, Handler.onlyRecords_record, hinstall, hrecords⟩

end Sink

end RouteWire
