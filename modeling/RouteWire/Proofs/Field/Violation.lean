import RouteWire.Call.Basic
import RouteWire.Proofs.Field.Write
import RouteWire.Proofs.Point

/-!
# The first violation of a field

Seven fields check their elements. `FieldValue.Breaks` says for each of them what may be wrong at a
position, in terms of the value that stands there and not of the rule that finds it. A field is
rejected exactly if something is wrong at some position, and then for what is wrong at the first
one (`FieldValue.write_eq_error_iff`).

No more than one thing is wrong at a position (`FieldValue.Breaks.unique`): the cases exclude each
other, so that a bearing without two components is never looked at for its range.
-/

set_option autoImplicit false

namespace RouteWire

variable {α : Type}

/-! ### What can be wrong with an element -/

/-- Both coordinates are finite. -/
def Point.IsFinite (p : Point) : Prop :=
  p.longitude.IsFinite ∧ p.latitude.IsFinite

/-- A bearing does not have two components, or it has both and they are not from 0 to 360. -/
def BearingViolation (b : Bearing) (v : Violation) : Prop :=
  b.length ≠ 2 ∧ v = .malformed .bearingSize ∨
    ∃ angle tolerance, b = [some angle, some tolerance] ∧
      ¬ (angle.InTurn ∧ tolerance.InTurn) ∧ v = .invalid .bearingRange

/-- A radius that has a limit is not a number, or it is one below zero. -/
def RadiusViolation (s : String) (v : Violation) : Prop :=
  s ≠ "unlimited" ∧
    ((∃ reason, readNumber s = .error (.malformed 0 reason) ∧ v = .malformed reason) ∨
      ∃ x, readNumber s = .ok x ∧ x.value < 0 ∧ v = .invalid .radiusNegative)

/-- A present value stands at position `i`. An unset sequence has no positions. -/
def Present (xs : Option (Sequence α)) (i : ℕ) (x : α) : Prop :=
  (xs.getD [])[i]? = some (some x)

namespace FieldValue

/-- What is wrong with position `i` of a field. Absent positions are never wrong. -/
def Breaks : FieldValue → ℕ → Violation → Prop
  | bearings xs, i, v => ∃ b, Present xs i b ∧ BearingViolation b v
  | distributions xs, i, v =>
    ∃ d, Present xs i d ∧ d.length = 1 ∧ v = .malformed .distributionSize
  | approaches xs, i, v =>
    ∃ s, Present xs i s ∧ (s ≠ "unrestricted" ∧ s ≠ "curb") ∧ v = .invalid .approachUnknown
  | radiuses xs, i, v => ∃ s, Present xs i s ∧ RadiusViolation s v
  | numbers _ xs, i, v => ∃ x, Present xs i x ∧ ¬ x.IsFinite ∧ v = .invalid .notFinite
  | coordinates ps, i, v => ∃ p, ps[i]? = some p ∧ ¬ p.IsFinite ∧ v = .invalid .notFinite
  | waypointTargets xs, i, v => ∃ p, Present xs i p ∧ ¬ p.IsFinite ∧ v = .invalid .notFinite
  | _, _, _ => False

/-- The field that checks its elements, if the value is one of such a field. -/
def field? : FieldValue → Option Field
  | bearings _ => some .bearings
  | distributions _ => some .distributions
  | approaches _ => some .approaches
  | radiuses _ => some .radiuses
  | numbers _ _ => some .numbers
  | coordinates _ => some .coordinates
  | waypointTargets _ => some .waypointTargets
  | _ => none

end FieldValue

/-! ### The rules find what is wrong -/

namespace Rule

variable {e : Fault}

/-- The rule fails for what is wrong with an element, and for nothing else. -/
def Finds (rule : Rule α) (wrong : α → Violation → Prop) : Prop :=
  ∀ {x e}, rule x = .error e ↔ ∃ v, wrong x v ∧ .violation v = e

/-- With both components there, only their range can be wrong. Numbers in range are finite, so that
both have a text. -/
private theorem bearing_pair_eq_error_iff {angle tolerance : Binary64} :
    bearing [some angle, some tolerance] = .error e ↔
      ¬ (angle.InTurn ∧ tolerance.InTurn) ∧ .violation (.invalid .bearingRange) = e := by
  have hrange : (angle.between 360 && tolerance.between 360) = true ↔
      angle.InTurn ∧ tolerance.InTurn := by
    rw [Bool.and_eq_true, between_iff_inTurn, between_iff_inTurn]
  rw [bearing]
  by_cases h : angle.InTurn ∧ tolerance.InTurn
  · rw [if_pos (hrange.mpr h), writeNumber_eq_ok_iff.mpr ⟨h.1.1, rfl⟩,
      writeNumber_eq_ok_iff.mpr ⟨h.2.1, rfl⟩]
    refine iff_of_false (fun herror => ?_) fun he => he.1 h
    cases herror
  · rw [if_neg (mt hrange.mp h)]
    simp [h]

/-- Other than two components are malformed. -/
private theorem bearing_of_length_ne {b : Bearing} (h : b.length ≠ 2) :
    bearing b = .error (.violation (.malformed .bearingSize)) := by
  unfold bearing
  split
  · exact absurd rfl h
  · exact absurd rfl h
  · rfl

/-- What can be wrong with a bearing. -/
theorem bearing_eq_error_iff {b : Bearing} :
    bearing b = .error e ↔ ∃ v, BearingViolation b v ∧ .violation v = e := by
  unfold BearingViolation
  by_cases hlength : b.length = 2
  · obtain ⟨x, y, rfl⟩ := List.length_eq_two.mp hlength
    cases x with
    | none => simp [bearing]
    | some angle =>
        cases y with
        | none => simp [bearing]
        | some tolerance => simp [bearing_pair_eq_error_iff]
  · have hpair : ∀ angle tolerance, b ≠ [some angle, some tolerance] := by
      intro angle tolerance h
      exact hlength (congrArg List.length h)
    rw [bearing_of_length_ne hlength]
    simp [hlength, hpair, eq_comm]

/-- What can be wrong with a distribution. -/
theorem distribution_eq_error_iff {d : Distribution} :
    distribution d = .error e ↔
      ∃ v, (d.length = 1 ∧ v = .malformed .distributionSize) ∧ .violation v = e := by
  unfold distribution
  split
  · simp
  · simp
  · simp

/-- What can be wrong with an approach. -/
theorem approach_eq_error_iff {s : String} :
    approach s = .error e ↔
      ∃ v, ((s ≠ "unrestricted" ∧ s ≠ "curb") ∧ v = .invalid .approachUnknown) ∧
        .violation v = e := by
  have haccepts : Category.approach.accepts s = true ↔ ¬ (s ≠ "unrestricted" ∧ s ≠ "curb") := by
    rw [Criterion.accepts_iff_mem_names]
    simp [Category.names, or_iff_not_imp_left]
  unfold approach
  split
  · rename_i h
    simp [haccepts.mp h]
  · rename_i h
    have hnot := not_not.mp (mt haccepts.mpr h)
    simp [hnot]

/-- What can be wrong with a radius. -/
theorem radius_eq_error_iff {s : String} :
    radius s = .error e ↔ ∃ v, RadiusViolation s v ∧ .violation v = e := by
  unfold radius unlimitedRadius RadiusViolation readNumber
  by_cases hlimit : s = "unlimited"
  · rw [if_pos hlimit]
    simp [hlimit]
  · rw [if_neg hlimit]
    cases Number.read s with
    | error reason =>
        show Except.error (Fault.violation (.malformed reason)) = _ ↔ _
        simp [hlimit, Except.mapError]
    | ok x =>
        show (if x.units < 0 then _ else _) = _ ↔ _
        by_cases hx : x.value < 0
        · rw [if_pos (Binary64.value_neg_iff.mp hx)]
          simp [hlimit, hx, Except.mapError]
        · rw [if_neg (mt Binary64.value_neg_iff.mpr hx)]
          simp [hlimit, hx, Except.mapError]

/-- What can be wrong with a number. -/
theorem number_eq_error_iff {x : Binary64} :
    number x = .error e ↔ ∃ v, (¬ x.IsFinite ∧ v = .invalid .notFinite) ∧ .violation v = e := by
  rw [number, map_eq_error_iff, numberText_eq_error_iff]
  simp

/-- The longitude is written first, but both coordinates fail alike. -/
theorem point_eq_error_iff {p : Point} :
    point p = .error e ↔ ∃ v, (¬ p.IsFinite ∧ v = .invalid .notFinite) ∧ .violation v = e := by
  rw [point, map_eq_error_iff, pointText]
  simp only [bind_eq_error_iff, numberText_eq_error_iff, numberText_eq_ok_iff,
    writeNumber_eq_ok_iff, Point.IsFinite]
  by_cases hlongitude : p.longitude.IsFinite
  · by_cases hlatitude : p.latitude.IsFinite
    · simp [hlongitude, hlatitude, pure, Except.pure]
    · simp [hlongitude, hlatitude]
  · simp [hlongitude]

end Rule

/-! ### The first position at which something is wrong -/

/-- `v` is what is wrong at position `i`, and nothing is wrong before it. -/
def IsFirst (wrong : ℕ → Violation → Prop) (i : ℕ) (v : Violation) : Prop :=
  wrong i v ∧ ∀ j < i, ∀ w, ¬ wrong j w

section
variable {wrong : ℕ → Violation → Prop} {v : Violation}

/-- What is wrong at the very first position is what is wrong first. -/
theorem isFirst_zero_iff : IsFirst wrong 0 v ↔ wrong 0 v := by
  simp [IsFirst]

/-- If nothing is wrong at the very first position, look at the others. -/
theorem isFirst_succ_iff (h : ∀ w, ¬ wrong 0 w) {i : ℕ} :
    IsFirst wrong (i + 1) v ↔ IsFirst (fun j => wrong (j + 1)) i v := by
  refine and_congr_right fun _ => ⟨fun hbefore j hj => ?_, fun hbefore j hj => ?_⟩
  · exact hbefore (j + 1) (by omega)
  · cases j with
    | zero => exact h
    | succ j => exact hbefore j (by omega)

/-- There is a first position at which something is wrong, if there is one at all. -/
theorem exists_isFirst {i : ℕ} (h : wrong i v) : ∃ j w, IsFirst wrong j w := by
  classical
  have hexists : ∃ j, ∃ w, wrong j w := ⟨i, v, h⟩
  obtain ⟨w, hw⟩ := Nat.find_spec hexists
  exact ⟨Nat.find hexists, w, hw, fun j hj w' hw' => Nat.find_min hexists hj ⟨w', hw'⟩⟩

end

namespace Field

/-- The rule finds `v` wrong with the present value at position `i`. -/
def Rejects (rule : Rule α) (xs : Sequence α) (i : ℕ) (v : Violation) : Prop :=
  ∃ x, xs[i]? = some (some x) ∧ rule x = .error (.violation v)

variable {field : Field} {rule : Rule α} {wrong : α → Violation → Prop} {refusal : Refusal}

/-- What the rule finds wrong at a position is what is wrong with the value there. -/
theorem rejects_iff (hrule : rule.Finds wrong) {xs : Sequence α} {i : ℕ} {v : Violation} :
    Rejects rule xs i v ↔ ∃ x, xs[i]? = some (some x) ∧ wrong x v := by
  have hrule' : ∀ x, rule x = .error (.violation v) ↔ wrong x v := by
    intro x
    rw [hrule]
    simp
  simp only [Rejects, hrule']

/-- What is wrong at the very first position is what the rule finds wrong with the value there. -/
theorem rejects_cons_zero {x : Option α} {xs : Sequence α} {v : Violation} :
    Rejects rule (x :: xs) 0 v ↔ x.elim (.ok none) rule = .error (.violation v) := by
  cases x with
  | none => simp [Rejects]
  | some x => simp [Rejects]

/-- A field is rejected for the first position at which its rule finds something wrong, and does not
fail otherwise. -/
theorem check_eq_error_iff (hrule : rule.Finds wrong) {i : ℕ} {xs : Sequence α} :
    field.check rule i xs = .error refusal ↔
      ∃ k v, IsFirst (Rejects rule xs) k v ∧ .announced ⟨field, i + k, v⟩ = refusal := by
  induction xs generalizing i with
  | nil => simp [check, IsFirst, Rejects, pure, Except.pure]
  | cons x xs ih =>
      rw [check, bind_eq_error_iff, settle_eq, mapError_eq_error_iff]
      simp only [mapError_eq_ok_iff, bind_eq_error_iff, ih]
      cases hx : x.elim (.ok none) rule with
      | error e =>
          -- The first position is wrong, so that the others are not looked at.
          obtain ⟨v, rfl⟩ : ∃ v, e = .violation v := by
            cases x with
            | none => cases hx
            | some x =>
                obtain ⟨v, -, rfl⟩ := hrule.mp hx
                exact ⟨v, rfl⟩
          have hzero : Rejects rule (x :: xs) 0 v := rejects_cons_zero.mpr hx
          constructor
          · rintro (⟨w, hw, rfl⟩ | ⟨t, ht, -⟩)
            · cases hw
              exact ⟨0, v, isFirst_zero_iff.mpr hzero, rfl⟩
            · cases ht
          · rintro ⟨k, w, hfirst, rfl⟩
            cases k with
            | zero =>
                have hw := rejects_cons_zero.mp (isFirst_zero_iff.mp hfirst)
                rw [hx] at hw
                exact .inl ⟨_, hw, rfl⟩
            | succ k => exact absurd hzero (hfirst.2 0 (by omega) v)
      | ok t =>
          -- What is wrong first is wrong first among the other positions, one further on.
          have hzero : ∀ w, ¬ Rejects rule (x :: xs) 0 w := by
            intro w hw
            rw [rejects_cons_zero, hx] at hw
            cases hw
          constructor
          · rintro (⟨w, hw, -⟩ | ⟨t', -, ⟨k, v, hfirst, rfl⟩ | ⟨ts, -, hpure⟩⟩)
            · cases hw
            · refine ⟨k + 1, v, (isFirst_succ_iff hzero).mpr hfirst, ?_⟩
              rw [Nat.add_right_comm, Nat.add_assoc]
            · cases hpure
          · rintro ⟨k, v, hfirst, rfl⟩
            cases k with
            | zero => exact absurd (isFirst_zero_iff.mp hfirst) (hzero v)
            | succ k =>
                refine .inr ⟨t, rfl, .inl ⟨k, v, (isFirst_succ_iff hzero).mp hfirst, ?_⟩⟩
                rw [Nat.add_right_comm, Nat.add_assoc]

/-- A field is rejected for the first thing that is wrong in it. -/
theorem write_eq_error_iff (hrule : rule.Finds wrong) {d : Char} {xs : Option (Sequence α)} :
    field.write rule d xs = .error refusal ↔
      ∃ k v, IsFirst (Rejects rule (xs.getD [])) k v ∧ .announced ⟨field, k, v⟩ = refusal := by
  cases xs with
  | none => simp [write, IsFirst, Rejects, pure, Except.pure]
  | some xs =>
      rw [write, bind_eq_error_iff, check_eq_error_iff hrule]
      simp [pure, Except.pure]

end Field

/-! ### Every field that checks its elements -/

/-- An empty list may count as unset: it has no positions either way. -/
theorem getD_filter_isEmpty (xs : Option (Sequence α)) :
    (xs.filter (!·.isEmpty)).getD [] = xs.getD [] := by
  cases xs with
  | none => rfl
  | some xs => cases xs <;> rfl

namespace FieldValue

variable {f : FieldValue} {field : Field} {refusal : Refusal}

/-- A field that checks its elements is written by a rule, and the rule finds what is wrong. -/
theorem exists_rule (hf : f.field? = some field) :
    ∃ (α : Type) (rule : Rule α) (wrong : α → Violation → Prop) (d : Char)
      (xs : Option (Sequence α)), f.write = field.write rule d xs ∧ rule.Finds wrong ∧
        ∀ i v, f.Breaks i v ↔ ∃ x, Present xs i x ∧ wrong x v := by
  cases f with
  | bearings xs =>
      cases hf
      exact ⟨_, _, _, _, xs, rfl, Rule.bearing_eq_error_iff, fun i v => Iff.rfl⟩
  | distributions xs =>
      cases hf
      refine ⟨_, _, _, _, _, rfl, Rule.distribution_eq_error_iff, fun i v => ?_⟩
      simp only [Breaks, Present, getD_filter_isEmpty]
  | approaches xs =>
      cases hf
      exact ⟨_, _, _, _, xs, rfl, Rule.approach_eq_error_iff, fun i v => Iff.rfl⟩
  | radiuses xs =>
      cases hf
      exact ⟨_, _, _, _, xs, rfl, Rule.radius_eq_error_iff, fun i v => Iff.rfl⟩
  | numbers d xs =>
      cases hf
      exact ⟨_, _, _, _, xs, rfl, Rule.number_eq_error_iff, fun i v => Iff.rfl⟩
  | coordinates ps =>
      cases hf
      refine ⟨_, _, _, _, _, writeCoordinates_eq ps, Rule.point_eq_error_iff, fun i v => ?_⟩
      simp [Breaks, Present]
  | waypointTargets xs =>
      cases hf
      exact ⟨_, _, _, _, xs, rfl, Rule.point_eq_error_iff, fun i v => Iff.rfl⟩
  | _ => cases hf

/-- At most one thing is wrong at a position. -/
theorem Breaks.unique (hf : f.field? = some field) {i : ℕ} {v w : Violation} (hv : f.Breaks i v)
    (hw : f.Breaks i w) : v = w := by
  obtain ⟨α, rule, wrong, d, xs, -, hrule, hbreaks⟩ := exists_rule hf
  obtain ⟨x, hx, hwrong⟩ := (hbreaks i v).mp hv
  obtain ⟨y, hy, hwrong'⟩ := (hbreaks i w).mp hw
  rw [Present, hx] at hy
  cases hy
  -- The rule gives one outcome, so that both are what it finds.
  have hfound := hrule.mpr ⟨v, hwrong, rfl⟩
  rw [hrule.mpr ⟨w, hwrong', rfl⟩] at hfound
  cases hfound
  rfl

/-- A field is rejected for what is wrong at the first position at which something is, and for no
other reason. -/
theorem write_eq_error_iff (hf : f.field? = some field) :
    f.write = .error refusal ↔
      ∃ i v, IsFirst f.Breaks i v ∧ .announced ⟨field, i, v⟩ = refusal := by
  obtain ⟨α, rule, wrong, d, xs, hwrite, hrule, hbreaks⟩ := exists_rule hf
  -- What breaks the field is what its rule rejects.
  have hwrong : f.Breaks = Field.Rejects rule (xs.getD []) := by
    funext i v
    rw [hbreaks, Field.rejects_iff hrule]
    rfl
  rw [hwrite, Field.write_eq_error_iff hrule, hwrong]

/-- A field is rejected if and only if something is wrong in it. -/
theorem exists_write_eq_error_iff (hf : f.field? = some field) :
    (∃ refusal, f.write = .error refusal) ↔ ∃ i v, f.Breaks i v := by
  constructor
  · intro ⟨refusal, hwrite⟩
    obtain ⟨i, v, hfirst, -⟩ := (write_eq_error_iff hf).mp hwrite
    exact ⟨i, v, hfirst.1⟩
  · intro ⟨i, v, hbreaks⟩
    obtain ⟨j, w, hfirst⟩ := exists_isFirst hbreaks
    exact ⟨_, (write_eq_error_iff hf).mpr ⟨j, w, hfirst, rfl⟩⟩

end FieldValue

end RouteWire
