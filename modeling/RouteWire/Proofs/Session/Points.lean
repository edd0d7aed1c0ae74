import RouteWire.Proofs.Point
import RouteWire.Proofs.Session.Perform

/-!
# Two fields of points

Coordinates have a loop of their own, and waypoint targets are checked like any other field. They
are written alike (`writeWaypointTargets_eq`), since they have the same rule and the rule of a field
knows nothing of its name (`Field.write_relabel`).

- `writeCoordinates_eq_ok_iff` and `writeCoordinates_eq_error_iff` say what the text is and which
  point is at fault.
- `Sink.exists_records_perform_points`: the warnings of both fields are the same but for the name.
- `writeCoordinates_agrees`: both fields have the same text, or else the same failure.
-/

set_option autoImplicit false

namespace RouteWire

open Handling (OnlyRecords)

variable {α : Type}

/-! ### Fields with the same rule -/

/-- The refusal under the name of another field. -/
def Refusal.relabel (field : Field) : Refusal → Refusal
  | announced r => .announced { r with field := field }
  | silent f => .silent f

namespace Field

/-- The name of a field is in its rejections only. -/
theorem check_relabel (field field' : Field) (rule : Rule α) (i : Nat) (xs : Sequence α) :
    field'.check rule i xs = (field.check rule i xs).mapError (Refusal.relabel field') := by
  induction xs generalizing i with
  | nil => rfl
  | cons x xs ih =>
      rw [check, check, ih]
      cases x.elim (.ok none) rule with
      | error e => cases e <;> rfl
      | ok t => cases field.check (m := Except Refusal) rule (i + 1) xs <;> rfl

/-- The same positions written as two fields fail alike, each under its own name. -/
theorem write_relabel (field field' : Field) (rule : Rule α) (d : Char)
    (xs : Option (Sequence α)) :
    field'.write rule d xs = (field.write rule d xs).mapError (Refusal.relabel field') := by
  cases xs with
  | none => rfl
  | some xs =>
      rw [write, write, check_relabel field field']
      cases field.check (m := Except Refusal) rule 0 xs <;> rfl

end Field

section
variable {ps : List Point}

/-- Waypoint targets without absent positions are written as coordinates are, and rejected under
their own name. -/
theorem writeWaypointTargets_eq (ps : List Point) :
    writeWaypointTargets (some (ps.map some)) =
      (some <$> writeCoordinates ps).mapError (Refusal.relabel .waypointTargets) := by
  rw [writeCoordinates_eq, ← Field.write_relabel]
  rfl

/-! ### The text of points -/

/-- Present points are written if each of them has a text on its own, and these are the texts. -/
theorem written_points_iff {ts : Sequence String} :
    List.Forall₂ (Sequence.Written fun p t => Rule.point p = .ok t) (ps.map some) ts ↔
      ∃ us, List.Forall₂ (fun p u => writePoint defaultInnerDelimiter p = .ok u) ps us ∧
        us.map some = ts := by
  induction ps generalizing ts with
  | nil => simp [eq_comm]
  | cons p ps ih =>
      rw [List.map_cons, List.forall₂_cons_left_iff]
      simp only [ih, Sequence.written_some_iff, List.forall₂_cons_left_iff]
      constructor
      · rintro ⟨t, _, ht, ⟨us, hus, rfl⟩, rfl⟩
        obtain ⟨u, hu, rfl⟩ := Rule.point_eq_ok_iff.mp ht
        exact ⟨u :: us, ⟨u, us, hu, hus, rfl⟩, rfl⟩
      · rintro ⟨_, ⟨u, us, hu, hus, rfl⟩, rfl⟩
        exact ⟨some u, us.map some, Rule.point_eq_ok_iff.mpr ⟨u, hu, rfl⟩, ⟨us, hus, rfl⟩, rfl⟩

/-- Coordinates are written point by point, with the delimiter between them. -/
theorem writeCoordinates_eq_ok_iff {w : String} :
    writeCoordinates ps = .ok w ↔
      ∃ ts, List.Forall₂ (fun p t => writePoint defaultInnerDelimiter p = .ok t) ps ts ∧
        joinTokens defaultDelimiter ts = w := by
  -- The loop agrees with a field of the same rule, whose texts are joined.
  have hfield : writeCoordinates ps = .ok w ↔
      Field.coordinates.write Rule.point defaultDelimiter (some (ps.map some)) = .ok (some w) := by
    rw [← writeCoordinates_eq, map_eq_ok_iff]
    simp
  rw [hfield, Field.write_eq_ok_iff]
  simp only [written_points_iff]
  constructor
  · rintro ⟨_, ⟨ts, hts, rfl⟩, htext⟩
    rw [Sequence.write_map_some] at htext
    exact ⟨ts, hts, Option.some.inj htext⟩
  · rintro ⟨ts, hts, rfl⟩
    exact ⟨_, ⟨ts, hts, rfl⟩, congrArg some (Sequence.write_map_some _ ts)⟩

/-- The texts of points are found again, at the positions of their points. -/
theorem readTexts_joinTokens_points {ts : List String}
    (h : List.Forall₂ (fun p t => writePoint defaultInnerDelimiter p = .ok t) ps ts) :
    readTexts defaultDelimiter (some (joinTokens defaultDelimiter ts)) =
        .ok (some (ts.map some)) ∧
      (ps ≠ [] → tokens defaultDelimiter (joinTokens defaultDelimiter ts) = ts) := by
  -- The text of a point is two numbers and a comma, so that nothing in it ends a position.
  have hplain : ∀ t ∈ ts, t ≠ "" ∧ defaultDelimiter ∉ t.toList :=
    ((List.forall₂_and_left ..).mp (h.flip.imp fun t p hp => ⟨plain_of_writePoint hp, hp⟩)).1
  constructor
  · have hread : Sequence.read defaultDelimiter .ok
        (Sequence.write defaultDelimiter id .keep (ts.map some)) =
          .ok (Sequence.collapsed (ts.map some)) := by
      refine Sequence.read_write fun t ht => ?_
      obtain ⟨hne, hfree⟩ := hplain t (by simpa using ht)
      exact ⟨hne, hfree, rfl⟩
    rw [Sequence.write_map_some, Sequence.collapsed_of_ne (by simp)] at hread
    show some <$> Sequence.read _ _ _ = _
    rw [hread]
    rfl
  · intro hne
    refine tokens_joinTokens ?_ fun t ht => (hplain t ht).2
    rintro rfl
    exact hne (List.forall₂_nil_right_iff.mp h)

/-! ### The point at fault -/

/-- `i` is the first position of a point whose coordinates are not both finite. -/
structure FirstNotFinite (ps : List Point) (i : ℕ) : Prop where
  notFinite : ∃ p, ps[i]? = some p ∧ ¬ p.IsFinite
  before : ∀ j < i, ∀ p, ps[j]? = some p → p.IsFinite

/-- What is wrong with a point is that one of its numbers is not finite. -/
theorem rejects_point_iff {i : ℕ} {v : Violation} :
    Field.Rejects Rule.point (ps.map some) i v ↔
      (∃ p, ps[i]? = some p ∧ ¬ p.IsFinite) ∧ v = .invalid .notFinite := by
  rw [Field.rejects_iff Rule.point_eq_error_iff]
  simp only [List.getElem?_map, Option.map_eq_some_iff, Option.some.injEq, exists_eq_right,
    ← and_assoc, exists_and_right]

/-- The first point that is wrong is the first that is not finite. -/
theorem isFirst_rejects_point_iff {i : ℕ} {v : Violation} :
    IsFirst (Field.Rejects Rule.point (ps.map some)) i v ↔
      FirstNotFinite ps i ∧ v = .invalid .notFinite := by
  simp only [IsFirst, rejects_point_iff]
  constructor
  · rintro ⟨⟨hi, rfl⟩, hbefore⟩
    refine ⟨⟨hi, fun j hj p hp => ?_⟩, rfl⟩
    by_contra hp'
    exact hbefore j hj _ ⟨⟨p, hp, hp'⟩, rfl⟩
  · rintro ⟨hfirst, rfl⟩
    refine ⟨⟨hfirst.notFinite, rfl⟩, ?_⟩
    rintro j hj w ⟨⟨p, hp, hp'⟩, -⟩
    exact hp' (hfirst.before j hj p hp)

/-- Coordinates are rejected for the first point that is not finite, and do not fail otherwise. -/
theorem writeCoordinates_eq_error_iff {r : Refusal} :
    writeCoordinates ps = .error r ↔
      ∃ i, FirstNotFinite ps i ∧ .announced ⟨.coordinates, i, .invalid .notFinite⟩ = r := by
  rw [← map_eq_error_iff (f := some), writeCoordinates_eq,
    Field.write_eq_error_iff Rule.point_eq_error_iff]
  simp only [Option.getD_some, isFirst_rejects_point_iff]
  constructor
  · rintro ⟨i, _, ⟨hfirst, rfl⟩, rfl⟩
    exact ⟨i, hfirst, rfl⟩
  · rintro ⟨i, hfirst, rfl⟩
    exact ⟨i, _, ⟨hfirst, rfl⟩, rfl⟩

/-- Targets are rejected for the first point that is not finite. -/
theorem writeWaypointTargets_of_firstNotFinite {i : ℕ} (h : FirstNotFinite ps i) :
    writeWaypointTargets (some (ps.map some)) =
      .error (.announced ⟨.waypointTargets, i, .invalid .notFinite⟩) := by
  rw [writeWaypointTargets_eq, writeCoordinates_eq_error_iff.mpr ⟨i, h, rfl⟩]
  rfl

/-! ### The warnings -/

/-- A warning is the name of the field, and then a text in which the field has no part. -/
theorem Rejection.exists_record_eq (i : ℕ) (v : Violation) :
    ∃ rest, ∀ field, Rejection.record ⟨field, i, v⟩ =
      ⟨.warning, "waycodec.formatter", field.label ++ rest⟩ := by
  refine ⟨"[" ++ (integerText i ++ ("]: " ++ (v.failure i).message)), fun field => ?_⟩
  rw [record]
  simp only [String.append_assoc]
  rfl

section
variable {η : Type} [Handling η] {s : Sink η} {h : η}

/-- The warnings about the same points differ in the name of the field only. -/
theorem Sink.exists_records_perform_points {i : ℕ} (hfirst : FirstNotFinite ps i)
    (hhandler : s.handler = some h) (hh : OnlyRecords h) (hminimum : s.minimum ≤ .warning) :
    ∃ rest,
      (s.perform (.writeField (.coordinates ps))).2.records =
        [⟨.warning, "waycodec.formatter", "coordinates" ++ rest⟩] ∧
      (s.perform (.writeField (.waypointTargets (some (ps.map some))))).2.records =
        [⟨.warning, "waycodec.formatter", "waypoint_targets" ++ rest⟩] := by
  have hcoordinates : (FieldValue.coordinates ps).write =
      .error (.announced ⟨.coordinates, i, .invalid .notFinite⟩) := by
    rw [FieldValue.write, writeCoordinates_eq_error_iff.mpr ⟨i, hfirst, rfl⟩]
    rfl
  have htargets : (FieldValue.waypointTargets (some (ps.map some))).write =
      .error (.announced ⟨.waypointTargets, i, .invalid .notFinite⟩) :=
    writeWaypointTargets_of_firstNotFinite hfirst
  obtain ⟨rest, hrest⟩ := Rejection.exists_record_eq i (.invalid .notFinite)
  refine ⟨rest, ?_, ?_⟩
  · rw [perform_writeField_of_rejected hcoordinates hh hhandler hminimum, hrest]
    rfl
  · rw [perform_writeField_of_rejected htargets hh hhandler hminimum, hrest]
    rfl

end

/-! ### Both fields -/

/-- Points are written as coordinates if and only if they are written as waypoint targets, and then
the two texts are the same: the texts of the points, with a delimiter between them. If they are not
written, both fields fail in the same way, at the first point that is not finite, and the warnings
of both differ in the name of the field only. -/
theorem writeCoordinates_agrees (ps : List Point) :
    ((∃ w, writeCoordinates ps = .ok w) ↔
        ∃ t, writeWaypointTargets (some (ps.map some)) = .ok t) ∧
      (∀ w, writeCoordinates ps = .ok w →
        writeWaypointTargets (some (ps.map some)) = .ok (some w) ∧
          ∃ ts, List.Forall₂ (fun p t => writePoint defaultInnerDelimiter p = .ok t) ps ts ∧
            readTexts defaultDelimiter (some w) = .ok (some (ts.map some)) ∧
            (ps ≠ [] → tokens defaultDelimiter w = ts)) ∧
      ∀ r, writeCoordinates ps = .error r →
        ∃ i r', writeWaypointTargets (some (ps.map some)) = .error r' ∧ FirstNotFinite ps i ∧
          r.failure = .invalid i .notFinite ∧ r'.failure = .invalid i .notFinite ∧
          ∀ (η : Type) [Handling η] (s : Sink η) (h : η), s.handler = some h → OnlyRecords h →
            s.minimum ≤ .warning → ∃ rest,
              (s.perform (.writeField (.coordinates ps))).2.records =
                [⟨.warning, "waycodec.formatter", "coordinates" ++ rest⟩] ∧
              (s.perform (.writeField (.waypointTargets (some (ps.map some))))).2.records =
                [⟨.warning, "waycodec.formatter", "waypoint_targets" ++ rest⟩] := by
  cases hwrite : writeCoordinates ps with
  | ok w =>
      have htargets := writeWaypointTargets_eq ps
      rw [hwrite] at htargets
      obtain ⟨ts, hts, htext⟩ := writeCoordinates_eq_ok_iff.mp hwrite
      refine ⟨iff_of_true ⟨w, rfl⟩ ⟨_, htargets⟩, ?_, by simp⟩
      rintro _ ⟨⟩
      exact ⟨htargets, ts, hts, htext ▸ readTexts_joinTokens_points hts⟩
  | error r =>
      obtain ⟨i, hfirst, rfl⟩ := writeCoordinates_eq_error_iff.mp hwrite
      have htargets := writeWaypointTargets_of_firstNotFinite hfirst
      refine ⟨iff_of_false (by simp) (by simp [htargets]), by simp, ?_⟩
      rintro _ ⟨⟩
      refine ⟨i, _, htargets, hfirst, rfl, rfl, ?_⟩
      intro η _ s h hhandler hh hminimum
      exact Sink.exists_records_perform_points hfirst hhandler hh hminimum

/-- Two points with a text; and three of which the second has no latitude and the third an infinite
longitude, so that the second is at fault. -/
theorem writeCoordinates_agrees_second_point :
    let ps : List Point := [⟨⟨0x3FF8000000000000⟩, ⟨0x8000000000000000⟩⟩,
      ⟨⟨0xC000000000000000⟩, ⟨0x3FE0000000000000⟩⟩]
    let qs : List Point := [⟨⟨0⟩, ⟨0⟩⟩, ⟨⟨0⟩, ⟨0x7FF8000000000000⟩⟩, ⟨⟨0x7FF0000000000000⟩, ⟨0⟩⟩]
    writeCoordinates ps = .ok "1.5,0;-2,0.5" ∧
      writeWaypointTargets (some (ps.map some)) = .ok (some "1.5,0;-2,0.5") ∧ ps ≠ [] ∧
      List.Forall₂ (fun p t => writePoint defaultInnerDelimiter p = .ok t) ps
        (tokens defaultDelimiter "1.5,0;-2,0.5") ∧
      writeCoordinates qs = .error (.announced ⟨.coordinates, 1, .invalid .notFinite⟩) ∧
      Sink.recorder.handler = some .record ∧ OnlyRecords Handler.record ∧
      Sink.recorder.minimum ≤ .warning ∧ FirstNotFinite qs 1 ∧
      ∃ r, writeWaypointTargets (some (qs.map some)) = .error r ∧
        r.failure = .invalid 1 .notFinite ∧ ∃ rest,
          (Sink.recorder.perform (.writeField (.coordinates qs))).2.records =
            [⟨.warning, "waycodec.formatter", "coordinates" ++ rest⟩] ∧
          (Sink.recorder.perform (.writeField (.waypointTargets (some (qs.map some))))).2.records =
            [⟨.warning, "waycodec.formatter", "waypoint_targets" ++ rest⟩] := by
  intro ps qs
  have hps : writeCoordinates ps = .ok "1.5,0;-2,0.5" := by decide +kernel
  have hqs : writeCoordinates qs = .error (.announced ⟨.coordinates, 1, .invalid .notFinite⟩) := by
    decide +kernel
  have hne : ps ≠ [] := by simp [ps]
  obtain ⟨hsame, ts, hts, -, htokens⟩ := (writeCoordinates_agrees ps).2.1 _ hps
  rw [← htokens hne] at hts
  obtain ⟨i, r, htargets, hfirst, hfailure, hfailure', hrecords⟩ :=
    (writeCoordinates_agrees qs).2.2 _ hqs
  obtain rfl : 1 = i := by
    cases hfailure
    rfl
  have hhandler : Sink.recorder.handler = some .record := rfl
  have hminimum : Sink.recorder.minimum ≤ .warning := by decide
  exact ⟨hps, hsame, hne, hts, hqs, hhandler, Handler.onlyRecords_record, hminimum, hfirst, r,
    htargets, hfailure', hrecords _ _ _ hhandler Handler.onlyRecords_record hminimum⟩

end

end RouteWire
