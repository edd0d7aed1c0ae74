import RouteWire.Call.Basic
import RouteWire.Proofs.Field.Write
import RouteWire.Proofs.Log.Logging

/-!
# A rejection is announced once, just before it fails

Fields are written in two ways, with the log and with the log left aside. They agree: a call that
writes sends nothing but the warning of the rejection that it ends with, and sends it last
(`Logging.announce`). This holds of each loop by induction on it, since it stops at the first
position that is at fault, and then of whatever writes fields one after the other.

- `Field.announce_check`, `announce_appendCoordinates`: the two loops.
- `FieldValue.announce_write`, `Params.announce_toQuery`: what they add up to.
-/

set_option autoImplicit false

namespace RouteWire

variable {α β : Type}

namespace Logging

/-- What is left to do about the outcome of writing: a rejection is announced and then fails, any
other failure just fails. -/
def announce : Except Refusal α → Logging α
  | .ok a => pure a
  | .error (.announced r) => Rejecting.reject r
  | .error (.silent f) => Rejecting.fail f

/-! ### What announcing comes to -/

/-- The failure of a refusal is the outcome. -/
theorem outcome_announce (x : Except Refusal α) :
    (announce x).outcome = x.mapError Refusal.failure := by
  cases x with
  | ok a => rfl
  | error refusal => cases refusal <;> rfl

/-- The message is the warning of a rejection. -/
theorem messages_announce_eq_singleton_iff {x : Except Refusal α} {r : Record} :
    (announce x).messages = [r] ↔
      ∃ rejection, x = .error (.announced rejection) ∧ rejection.record = r := by
  cases x with
  | ok a => simp [announce]
  | error refusal =>
      cases refusal with
      | announced rejection => simp [announce, Rejecting.reject, messages]
      | silent f => simp [announce, Rejecting.fail, messages]

/-! ### Announcing part by part -/

/-- Nothing is sent after a failure, so that what comes first may be announced first. -/
theorem announce_bind (x : Except Refusal α) (k : α → Except Refusal β) :
    announce (x >>= k) = announce x >>= fun a => announce (k a) := by
  cases x with
  | ok a => rfl
  | error refusal => cases refusal <;> rfl

/-- What is made of a value is made of it when it is announced. -/
theorem announce_map (f : α → β) (x : Except Refusal α) :
    announce (f <$> x) = f <$> announce x := by
  cases x with
  | ok a => rfl
  | error refusal => cases refusal <;> rfl

/-- A list is announced element by element. -/
theorem announce_mapM (f : α → Except Refusal β) (xs : List α) :
    announce (xs.mapM f) = xs.mapM fun x => announce (f x) := by
  induction xs with
  | nil => rfl
  | cons x xs ih =>
      rw [List.mapM_cons, List.mapM_cons, announce_bind]
      simp only [announce_bind, ih]
      rfl

/-- What fails silently has nothing to announce. -/
theorem announce_silently (x : Except Failure α) : announce (silently x) = silently x := by
  cases x <;> rfl

end Logging

open Logging (announce announce_bind announce_map announce_mapM announce_silently)

/-! ### The loops -/

namespace Field

/-- A fault is announced at its position. -/
theorem announce_settle (field : Field) (i : Nat) (x : Except Fault α) :
    announce (field.settle i x) = field.settle i x := by
  cases x with
  | ok t => rfl
  | error e => cases e <;> rfl

/-- The check of a field announces the first violation, and nothing before it. -/
theorem announce_check (field : Field) (rule : Rule α) (i : Nat) (xs : Sequence α) :
    announce (field.check rule i xs) = field.check rule i xs := by
  induction xs generalizing i with
  | nil => rfl
  | cons x xs ih =>
      -- The position is settled before any other is looked at.
      rw [check, check, announce_bind, announce_settle]
      simp only [announce_bind, ih]
      rfl

/-- A field with a rule is announced as a whole. -/
theorem announce_write (field : Field) (rule : Rule α) (d : Char) (xs : Option (Sequence α)) :
    announce (field.write rule d xs) = field.write rule d xs := by
  cases xs with
  | none => rfl
  | some xs =>
      rw [write, write, announce_bind, announce_check]
      rfl

end Field

/-- The loop over the coordinates announces the first violation, and nothing before it. -/
theorem announce_appendCoordinates (i : Nat) (out : String) (ps : List Point) :
    announce (appendCoordinates i out ps) = appendCoordinates i out ps := by
  induction ps generalizing i out with
  | nil => rfl
  | cons p ps ih =>
      rw [appendCoordinates, appendCoordinates, announce_bind, Field.announce_settle]
      simp only [ih]

/-! ### Fields and parameters -/

/-- A field that is written sends the warning of its rejection, if it is rejected, and nothing
else. -/
theorem FieldValue.announce_write (f : FieldValue) : announce f.write = f.write := by
  cases f with
  | coordinates ps =>
      rw [write, write, announce_map]
      exact congrArg (some <$> ·) (announce_appendCoordinates 0 "" ps)
  | criteria c d xs => exact announce_silently _
  | bearings xs => exact Field.announce_write ..
  | distributions xs => exact Field.announce_write ..
  | approaches xs => exact Field.announce_write ..
  | radiuses xs => exact Field.announce_write ..
  | numbers d xs => exact Field.announce_write ..
  | waypointTargets xs => exact Field.announce_write ..
  | _ => rfl

/-- A field fails with the failure of its refusal. -/
theorem FieldValue.outcome_write (f : FieldValue) :
    (f.write : Logging (Option String)).outcome = f.write.mapError Refusal.failure := by
  rw [← f.announce_write, Logging.outcome_announce]

/-- A field sends a message if and only if it is rejected, and this is the warning about it. -/
theorem FieldValue.messages_write_eq_singleton_iff {f : FieldValue} {r : Record} :
    (f.write : Logging (Option String)).messages = [r] ↔
      ∃ rejection, f.write = .error (.announced rejection) ∧ rejection.record = r := by
  rw [← f.announce_write, Logging.messages_announce_eq_singleton_iff]

/-- A parameter that is written sends the warning of its rejection, and nothing else. The names of
criteria are looked up before, silently. -/
theorem Param.announce_write (k : Param) (v : k.Value) : announce (k.write v) = k.write v := by
  cases k with
  | coordinates => exact FieldValue.announce_write (.coordinates v)
  | bearings => exact FieldValue.announce_write (.bearings (some v))
  | radiuses => exact FieldValue.announce_write (.radiuses (some v))
  | approaches =>
      rw [write, write, announce_bind, announce_silently]
      exact congrArg (silently _ >>= ·) (funext fun names => Field.announce_write ..)
  | waypointTargets => exact FieldValue.announce_write (.waypointTargets (some v))
  | annotations =>
      rw [write, write, announce_bind, announce_silently]
      rfl
  | exclusions => exact announce_silently _
  | inclusions => exact announce_silently _
  | paymentMethods => exact announce_silently _
  | _ => rfl

namespace Params

variable {p : Params}

/-- The entry of one parameter is announced as its field. -/
theorem announce_entry (p : Params) (k : Param) : announce (p.entry k) = p.entry k := by
  unfold entry
  cases p.get k with
  | none => rfl
  | some v =>
      show announce (Option.map (k.wireName, ·) <$> k.write v) = _
      rw [announce_map, Param.announce_write]

/-- Parameters that are written send the warning of the field that is rejected, and nothing else. -/
theorem announce_toQuery (p : Params) : announce p.toQuery = p.toQuery := by
  rw [toQuery, toQuery, announce_bind, announce_mapM]
  simp only [announce_entry]
  rfl

/-- The document form sends what the query form sends. -/
theorem announce_toDocument (p : Params) : announce p.toDocument = p.toDocument := by
  rw [toDocument, toDocument, announce_map, announce_toQuery]

end Params

end RouteWire
