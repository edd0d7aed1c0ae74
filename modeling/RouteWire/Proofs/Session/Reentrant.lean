import Mathlib.Data.List.Chain
import RouteWire.Proofs.Session.Run

/-!
# Handlers that act on the sink

A handler that uninstalls itself, one that raises the minimum and one that logs again, each from the
step that installs it to the next step that installs a handler. The messages are those of all steps,
those that calls send included.

- `Sink.records_of_uninstallsItself`: the first message at or above the minimum of its moment is the
  only one that gets through.
- `Sink.records_of_tightens`: after a message that is no emergency only more serious ones get
  through. An emergency leaves the minimum alone, so anything may come after it
  (`Sink.emergency_then_critical`).
- `Sink.isCascade_replies`: a message gets through at every level from its own down to the minimum.

`Sink.reentrant_interval` says all of this of an interval of a session.
-/

set_option autoImplicit false

namespace RouteWire

open Handling (UninstallsItself Tightens Cascades)

variable {η : Type} [Handling η] {s : Sink η} {steps : List (LogStep η)} {step : LogStep η} {h : η}

/-! ### A handler that uninstalls itself -/

namespace Sink

/-- Without a handler there are no records. -/
theorem records_of_handler_none (hinstall : ∀ step ∈ steps, ∀ handler, step ≠ .install handler)
    (hnone : s.handler = none) : (s.runSession steps).2.flatMap Reply.records = [] := by
  induction steps generalizing s with
  | nil => rfl
  | cons step steps ih =>
      obtain ⟨hstep, hsteps⟩ := List.forall_mem_cons.mp hinstall
      rcases LogStep.run_cases s hstep with
        ⟨r, h, -, -, hhandler, -⟩ | ⟨-, hsink, hreceipts⟩
      · rw [hnone] at hhandler
        cases hhandler
      · have hrest := ih hsteps (s := (step.run s).1) (by rw [hsink]; exact hnone)
        rw [replies_cons, List.flatMap_cons, hrest, Reply.records, hreceipts]
        rfl

/-- A handler that uninstalls itself records the first message that it hears, and no other. -/
theorem records_of_uninstallsItself (hh : UninstallsItself h)
    (hinstall : ∀ step ∈ steps, ∀ handler, step ≠ .install handler)
    (hhandler : s.handler = some h) :
    (s.runSession steps).2.flatMap Reply.records = (heard s.minimum steps).take 1 := by
  induction steps generalizing s with
  | nil => rfl
  | cons step steps ih =>
      obtain ⟨hstep, hsteps⟩ := List.forall_mem_cons.mp hinstall
      rw [replies_cons, List.flatMap_cons, heard]
      rcases LogStep.run_cases_of_handler hhandler hstep with
        ⟨r, hheard, -, -, hsink, hreceipts⟩ | ⟨hheard, hsink, hreceipts⟩
      · -- The handler is gone after its first record.
        rw [hh] at hsink hreceipts
        have hrest := records_of_handler_none hsteps (s := (step.run s).1) (by rw [hsink])
        rw [hheard, hrest, Reply.records, hreceipts]
        rfl
      · have hrest := ih hsteps (s := (step.run s).1) (by rw [hsink]; exact hhandler)
        rw [hheard, hrest, Reply.records, hreceipts, hsink]
        rfl

end Sink

/-! ### A handler that raises the minimum -/

/-- The minimum never falls, and a record that is no emergency is below the minimum after it. -/
theorem LogStep.run_of_tightens (hh : Tightens h) (hhandler : s.handler = some h)
    (hinstall : ∀ handler, step ≠ .install handler) (hset : ∀ level, step ≠ .setMinimum level) :
    (step.run s).1.handler = some h ∧ s.minimum ≤ (step.run s).1.minimum ∧
      ((step.run s).2.records = [] ∨
        ∃ r, (step.run s).2.records = [r] ∧ s.minimum ≤ r.level ∧
          (r.level = .emergency ∨ r.level < (step.run s).1.minimum)) := by
  rcases run_cases_of_handler hhandler hinstall with
    ⟨r, -, hlevel, -, hsink, hreceipts⟩ | ⟨-, hsink, hreceipts⟩
  · rw [hh] at hsink hreceipts
    rw [hsink, Reply.records, hreceipts]
    cases habove : r.level.above? with
    | none =>
        -- Only above an emergency there is no level, and then the minimum stays.
        have hemergency := Level.eq_emergency_of_above? habove
        exact ⟨hhandler, Nat.le_refl _, .inr ⟨r, rfl, hlevel, .inl hemergency⟩⟩
    | some above =>
        have hseverity := Level.severity_above habove
        have hlt : r.level < above := Nat.lt_of_lt_of_eq (Nat.lt_succ_self _) hseverity.symm
        exact ⟨hhandler, Nat.le_trans hlevel (Nat.le_of_lt hlt), .inr ⟨r, rfl, hlevel, .inr hlt⟩⟩
  · have hminimum : step.newMinimum s.minimum = s.minimum := by
      cases step with
      | setMinimum level => exact absurd rfl (hset level)
      | _ => rfl
    rw [hsink, Reply.records, hreceipts, hminimum]
    exact ⟨hhandler, Nat.le_refl _, .inl rfl⟩

namespace Sink

/-- A handler that tightens stays installed, and the minimum does not go down. -/
theorem after_of_tightens (hh : Tightens h)
    (hinstall : ∀ step ∈ steps, ∀ handler, step ≠ .install handler)
    (hset : ∀ step ∈ steps, ∀ level, step ≠ .setMinimum level) (hhandler : s.handler = some h) :
    (s.after steps).handler = some h ∧ s.minimum ≤ (s.after steps).minimum := by
  refine after_induction (P := fun s' => s'.handler = some h ∧ s.minimum ≤ s'.minimum) ?_
    ⟨hhandler, Nat.le_refl _⟩
  intro step hstep s' ⟨hhandler', hle⟩
  obtain ⟨hkept, hle', -⟩ :=
    LogStep.run_of_tightens hh hhandler' (hinstall step hstep) (hset step hstep)
  exact ⟨hkept, Nat.le_trans hle hle'⟩

/-- The records of a handler that tightens go up, except after an emergency. -/
theorem records_of_tightens (hh : Tightens h)
    (hinstall : ∀ step ∈ steps, ∀ handler, step ≠ .install handler)
    (hset : ∀ step ∈ steps, ∀ level, step ≠ .setMinimum level) (hhandler : s.handler = some h) :
    (∀ r ∈ (s.runSession steps).2.flatMap Reply.records, s.minimum ≤ r.level) ∧
      ((s.runSession steps).2.flatMap Reply.records).Pairwise
        fun r r' => r.level = .emergency ∨ r.level < r'.level := by
  induction steps generalizing s with
  | nil => exact ⟨by simp [runSession], .nil⟩
  | cons step steps ih =>
      obtain ⟨hstep, hsteps⟩ := List.forall_mem_cons.mp hinstall
      obtain ⟨hkeep, hkeeps⟩ := List.forall_mem_cons.mp hset
      obtain ⟨hhandler', hle, hrecords⟩ := LogStep.run_of_tightens hh hhandler hstep hkeep
      obtain ⟨hrest, hpairwise⟩ := ih hsteps hkeeps hhandler'
      have hminimum : ∀ r ∈ ((step.run s).1.runSession steps).2.flatMap Reply.records,
          s.minimum ≤ r.level := fun r hr => Nat.le_trans hle (hrest r hr)
      rw [replies_cons, List.flatMap_cons]
      rcases hrecords with hnone | ⟨r, hone, hlevel, hafter⟩
      · rw [hnone]
        exact ⟨hminimum, hpairwise⟩
      · rw [hone]
        refine ⟨List.forall_mem_cons.mpr ⟨hlevel, hminimum⟩, hpairwise.cons fun r' hr' => ?_⟩
        -- What comes later is at or above the minimum that this record left behind.
        rcases hafter with hemergency | hlt
        · exact .inl hemergency
        · exact .inr (Nat.lt_of_lt_of_le hlt (hrest r' hr'))

/-- The minimum never falls from one step to a later one. -/
theorem minimum_take_le_of_tightens (hh : Tightens h)
    (hinstall : ∀ step ∈ steps, ∀ handler, step ≠ .install handler)
    (hset : ∀ step ∈ steps, ∀ level, step ≠ .setMinimum level) (hhandler : s.handler = some h)
    {i j : Nat} (hij : i ≤ j) :
    (s.after (steps.take i)).minimum ≤ (s.after (steps.take j)).minimum := by
  induction steps generalizing s i j with
  | nil =>
      rw [List.take_nil, List.take_nil]
      exact Nat.le_refl _
  | cons step steps ih =>
      cases i with
      | zero =>
          exact (after_of_tightens hh (fun step hmem => hinstall step (List.mem_of_mem_take hmem))
            (fun step hmem => hset step (List.mem_of_mem_take hmem)) hhandler).2
      | succ i =>
          cases j with
          | zero => omega
          | succ j =>
              obtain ⟨hstep, hsteps⟩ := List.forall_mem_cons.mp hinstall
              obtain ⟨hkeep, hkeeps⟩ := List.forall_mem_cons.mp hset
              have hkept := (LogStep.run_of_tightens hh hhandler hstep hkeep).1
              exact ih hsteps hkeeps hkept (Nat.le_of_succ_le_succ hij)

end Sink

/-! ### A handler that logs again -/

/-- The handler stays, and a message at or above the minimum goes down to it. -/
theorem LogStep.run_of_cascades (hh : Cascades h) (hhandler : s.handler = some h)
    (hinstall : ∀ handler, step ≠ .install handler) :
    (step.run s).1.handler = some h ∧
      ∀ r, step.message? = some r → s.minimum ≤ r.level →
        IsCascade s.minimum r (step.run s).2.records := by
  cases hmessage : step.message? with
  | none =>
      refine ⟨?_, fun r hr => ?_⟩
      · rw [(run_of_message_eq_none hmessage hinstall).1]
        exact hhandler
      · cases hr
  | some r =>
      obtain ⟨hsink, hreceipts⟩ := run_of_message (s := s) hmessage
      rcases Level.lt_or_le r.level s.minimum with hdropped | hlevel
      · -- Below the minimum nothing happens at all.
        rw [hsink, Sink.log_of_lt hdropped]
        refine ⟨hhandler, fun r' hr' hlevel => ?_⟩
        cases hr'
        exact absurd hdropped (Level.not_lt_of_le hlevel)
      · obtain ⟨hsame, -, hcascade⟩ := Sink.isCascade_log hh hhandler hlevel
        rw [hsink, hsame, Reply.records, hreceipts]
        refine ⟨hhandler, fun r' hr' _ => ?_⟩
        cases hr'
        exact hcascade

/-- Every message of a session at or above the minimum of its moment goes down to it. -/
theorem Sink.isCascade_replies (hh : Cascades h)
    (hinstall : ∀ step ∈ steps, ∀ handler, step ≠ .install handler) (hhandler : s.handler = some h)
    {i : Nat} {r : Record} (hstep : steps[i]? = some step) (hmessage : step.message? = some r)
    (hlevel : (s.after (steps.take i)).minimum ≤ r.level) :
    ∃ reply, (s.runSession steps).2[i]? = some reply ∧
      IsCascade (s.after (steps.take i)).minimum r reply.records := by
  -- The handler is still installed at the step, since it stays through each step before.
  have hkept : (s.after (steps.take i)).handler = some h := by
    refine after_induction (P := fun s' => s'.handler = some h) ?_ hhandler
    intro step hmem s' hhandler'
    exact (LogStep.run_of_cascades hh hhandler' (hinstall step (List.mem_of_mem_take hmem))).1
  refine ⟨(step.run (s.after (steps.take i))).2, ?_, ?_⟩
  · rw [getElem?_replies, hstep]
    rfl
  · have hmem : step ∈ steps := List.mem_of_getElem? hstep
    exact (LogStep.run_of_cascades hh hkept (hinstall step hmem)).2 r hmessage hlevel

/-! ### From one installation to the next -/

namespace Sink

/-- What the handler that a step installs does to the steps `during` after it, none of which
installs another:
- if it uninstalls itself, the first message at or above the minimum of its moment is the only
  record;
- if it raises the minimum, and the steps do not set it, then the minimum never falls, and a record
  is more serious than every record before it that is no emergency;
- if it logs again, every message at or above the minimum gets through at every level from its own
  down to the minimum. -/
theorem reentrant_interval (s₀ : Sink η) (before during rest : List (LogStep η)) (h : η)
    (hinstall : ∀ step ∈ during, ∀ handler, step ≠ .install handler) :
    let installed := before ++ [.install (some h)]
    let s := s₀.after installed
    let replies := s₀.repliesTo installed during rest
    (UninstallsItself h →
        replies.flatMap Reply.records = (heard s.minimum during).take 1) ∧
      (Tightens h → (∀ step ∈ during, ∀ level, step ≠ .setMinimum level) →
        (∀ i j, i ≤ j → (s.after (during.take i)).minimum ≤ (s.after (during.take j)).minimum) ∧
          (replies.flatMap Reply.records).Pairwise
            fun r r' => r.level = .emergency ∨ r.level < r'.level) ∧
      (Cascades h → ∀ i step r, during[i]? = some step → step.message? = some r →
        let m := (s.after (during.take i)).minimum
        m ≤ r.level → ∃ reply, replies[i]? = some reply ∧ IsCascade m r reply.records) := by
  intro installed s replies
  have hreplies : replies = (s.runSession during).2 := repliesTo_eq s₀ installed during rest
  -- The interval starts with the handler installed.
  have hhandler : s.handler = some h := by
    show (s₀.after (before ++ [.install (some h)])).handler = _
    rw [after_append]
    rfl
  rw [hreplies]
  refine ⟨?_, ?_, ?_⟩
  · intro hh
    exact records_of_uninstallsItself hh hinstall hhandler
  · intro hh hset
    refine ⟨fun i j hij => ?_, ?_⟩
    · exact minimum_take_le_of_tightens hh hinstall hset hhandler hij
    · exact (records_of_tightens hh hinstall hset hhandler).2
  · intro hh i step r hstep hmessage m hlevel
    exact isCascade_replies hh hinstall hhandler hstep hmessage hlevel

/-- The warning of a rejected call is heard once by a handler that uninstalls itself, and at three
levels by one that logs again. -/
theorem reentrant_interval_rejected :
    let during : List LogStep :=
      [.perform (.writeField (.approaches (some [some "kerb"]))), .log "critical" "app" "down"]
    (∀ step ∈ during, ∀ handler, step ≠ .install handler) ∧
      UninstallsItself Handler.once ∧ Cascades Handler.cascade ∧
      (({} : Sink Handler).repliesTo [.install (some .once)] during []).flatMap Reply.records =
        [⟨.warning, "waycodec.formatter",
          "approaches[0]: Approach should be one of unrestricted or curb"⟩] ∧
      ∃ reply, (({} : Sink Handler).repliesTo [.install (some .cascade)] during [])[0]? =
        some reply ∧ reply.records.length = 3 := by
  intro during
  have hinstall : ∀ step ∈ during, ∀ handler, step ≠ .install handler := by simp [during]
  have honce := (reentrant_interval ({} : Sink Handler) [] during [] .once hinstall).1
    Handler.uninstallsItself_once
  obtain ⟨reply, hreply, hcascade⟩ :=
    (reentrant_interval ({} : Sink Handler) [] during [] .cascade hinstall).2.2
      Handler.cascades_cascade 0 _ _ rfl rfl (by decide)
  exact ⟨hinstall, Handler.uninstallsItself_once, Handler.cascades_cascade, honce, reply, hreply,
    hcascade.length⟩

/-- A record may follow a more serious one under a handler that raises the minimum: there is no
minimum above an emergency to raise it to. -/
theorem emergency_then_critical :
    let during : List LogStep := [.log "emergency" "app" "flood", .log "critical" "app" "leak"]
    let records :=
      (({} : Sink Handler).repliesTo [.install (some .tighten)] during []).flatMap Reply.records
    Tightens Handler.tighten ∧ (∀ step ∈ during, ∀ handler, step ≠ .install handler) ∧
      (∀ step ∈ during, ∀ level, step ≠ .setMinimum level) ∧
      records = [⟨.emergency, "app", "flood"⟩, ⟨.critical, "app", "leak"⟩] ∧
      ¬ records.IsChain fun r r' =>
        r.level < r'.level ∨ r.level = .emergency ∧ r'.level = .emergency := by
  intro during records
  have hrecords : records = [⟨.emergency, "app", "flood"⟩, ⟨.critical, "app", "leak"⟩] := by
    decide +kernel
  refine ⟨Handler.tightens_tighten, by simp [during], by simp [during], hrecords, ?_⟩
  rw [hrecords]
  decide

end Sink

end RouteWire
