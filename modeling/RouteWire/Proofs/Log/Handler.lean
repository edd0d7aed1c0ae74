import RouteWire.Log.Handler
import RouteWire.Proofs.Log.Sink

/-!
# What the handlers of a log session do

Each of them is of the kind that its name says. Only one of them ever fails (`neverFails_iff`).
-/

set_option autoImplicit false

namespace RouteWire.Handler

open Handling

/-- The handler that records does nothing else. -/
theorem onlyRecords_record : OnlyRecords record := by
  intro r s
  show act record r s = _
  rw [act]

/-- The handler that acts once uninstalls itself. -/
theorem uninstallsItself_once : UninstallsItself once := by
  intro r s
  show act once r s = _
  rw [act]

/-- The handler that tightens raises the minimum. -/
theorem tightens_tighten : Tightens tighten := by
  intro r s
  show act tighten r s = _
  rw [act]

/-- The handler that cascades logs again, one level below. -/
theorem cascades_cascade : Cascades cascade := by
  intro r s
  show act cascade r s = _
  rw [act]
  split
  · rename_i hbelow
    rw [hbelow]
  · rename_i below hbelow
    rw [hbelow]
    rfl

/-- A handler that logs again only ever gets its own messages, so that none of them fails. -/
theorem neverFails_of_cascades {η : Type} [Handling η] {h : η} (hh : Cascades h) :
    NeverFails h := by
  intro r s hhandler
  rw [hh]
  cases r.level.below? with
  | none => rfl
  | some below =>
      show (s.log { r with level := below, logger := r.logger ++ "+" }).raised = none
      rcases Level.lt_or_le below s.minimum with hdropped | hagain
      · rw [Sink.log_of_lt hdropped]
      · exact (Sink.isCascade_log hh hhandler
          (r := { r with level := below, logger := r.logger ++ "+" }) hagain).2.1

/-- One handler fails, and no other does. -/
theorem neverFails_iff {h : Handler} : NeverFails h ↔ h ≠ fail := by
  cases h with
  | fail =>
      refine iff_of_false (fun hnever => ?_) fun hne => hne rfl
      have hraised := hnever ⟨.debug, "", ""⟩ { handler := some fail } rfl
      rw [show Handling.act fail _ _ = act fail _ _ from rfl, act] at hraised
      cases hraised
  | record =>
      refine iff_of_true (fun r s _ => ?_) (by decide)
      rw [onlyRecords_record]
  | once =>
      refine iff_of_true (fun r s _ => ?_) (by decide)
      rw [uninstallsItself_once]
  | tighten =>
      refine iff_of_true (fun r s _ => ?_) (by decide)
      rw [tightens_tighten]
  | cascade => exact iff_of_true (neverFails_of_cascades cascades_cascade) (by decide)

end RouteWire.Handler
