import RouteWire.Params.Query
import RouteWire.Proofs.Field.Radiuses
import RouteWire.Proofs.Integer
import RouteWire.Proofs.Point

/-!
# The elements of the parameters

Thirteen parameters, one shape: each is a sequence of elements with a delimiter between them. This
module says for every parameter what its elements are, how one of them is read and what it is
written as, and then forgets the differences. `Param.read_eq_ok_iff` and `Param.write_eq_ok_iff`
reduce a parameter to its elements, and the lemmas about one element are the only ones that look
at each parameter in turn:

- `readElement_of_text`: the text of an element reads as the settled element, which has the same
  text.
- `plain_of_text`: the text of an element is not empty and does not hold the delimiter. Waypoint
  names are the exception, since they are written as they are.
- `text_of_readElement`: for eight parameters an element that was read is written as it was
  spelled.
-/

set_option autoImplicit false

namespace RouteWire

namespace Param

/-- What stands at a present position. -/
abbrev Element : Param → Type
  | coordinates => Point
  | bearings => Bearing
  | radiuses => String
  | approaches => Criterion .approach
  | waypointIndices => Int32
  | waypointNames => String
  | waypointTargets => Point
  | closures => Bool
  | annotations => Criterion .annotationKind
  | exclusions => Criterion .exclusion
  | inclusions => Criterion .inclusion
  | paymentMethods => Criterion .paymentMethod
  | layers => Int32

/-- The positions of a value. Coordinates have no absent ones. -/
def positions : (k : Param) → k.Value → Sequence k.Element
  | coordinates, ps => ps.map some
  | bearings, xs => xs
  | radiuses, xs => xs
  | approaches, xs => xs
  | waypointIndices, xs => xs
  | waypointNames, xs => xs
  | waypointTargets, xs => xs
  | closures, xs => xs
  | annotations, xs => xs
  | exclusions, xs => xs
  | inclusions, xs => xs
  | paymentMethods, xs => xs
  | layers, xs => xs

/-- What stands between two positions. -/
def delimiter : Param → Char
  | annotations | exclusions | inclusions | paymentMethods => defaultInnerDelimiter
  | _ => defaultDelimiter

/-- Reads one element. -/
def readElement : (k : Param) → String → Except Failure k.Element
  | coordinates => readPoint defaultInnerDelimiter
  | bearings => readBearing
  | radiuses => .ok
  | approaches => Criterion.ofName .approach
  | waypointIndices => readInteger
  | waypointNames => .ok
  | waypointTargets => readPoint defaultInnerDelimiter
  | closures => readBoolean
  | annotations => Criterion.ofName .annotationKind
  | exclusions => Criterion.ofName .exclusion
  | inclusions => Criterion.ofName .inclusion
  | paymentMethods => Criterion.ofName .paymentMethod
  | layers => readInteger

/-- What an element is written as: a text, or nothing. An element that breaks a rule, or that is
not in its catalogue, is written as neither. -/
def Text : (k : Param) → k.Element → Option String → Prop
  | coordinates, p, t => Rule.point p = .ok t
  | bearings, b, t => Rule.bearing b = .ok t
  | radiuses, s, t => Rule.radius s = .ok t
  | approaches, v, t => some <$> v.name = .ok t
  | waypointIndices, n, t => some (writeInteger n) = t
  | waypointNames, s, t => some s = t
  | waypointTargets, p, t => Rule.point p = .ok t
  | closures, b, t => some (writeBoolean b) = t
  | annotations, v, t => some <$> v.name = .ok t
  | exclusions, v, t => some <$> v.name = .ok t
  | inclusions, v, t => some <$> v.name = .ok t
  | paymentMethods, v, t => some <$> v.name = .ok t
  | layers, n, t => some (writeInteger n) = t

/-- The element that comes back when an element is written and read: numbers settle, and a bearing
with an absent component becomes an absent position. -/
def settle : (k : Param) → k.Element → Option k.Element
  | coordinates, p => some p.settled
  | bearings, b => Bearing.settled b
  | radiuses, s => some s
  | approaches, v => some v
  | waypointIndices, n => some n
  | waypointNames, s => some s
  | waypointTargets, p => some p.settled
  | closures, b => some b
  | annotations, v => some v
  | exclusions, v => some v
  | inclusions, v => some v
  | paymentMethods, v => some v
  | layers, n => some n

end Param

/-! ### One element -/

/-- A truth value is read from its text alone. -/
theorem readBoolean_eq_ok_iff {t : String} {b : Bool} :
    readBoolean t = .ok b ↔ writeBoolean b = t := by
  constructor
  · intro h
    unfold readBoolean at h
    split at h
    · rename_i htrue
      cases h
      exact htrue.symm
    · split at h
      · rename_i hfalse
        cases h
        exact hfalse.symm
      · cases h
  · rintro rfl
    exact readBoolean_writeBoolean b

namespace Param

variable {k : Param} {x : k.Element} {s : String}

/-- An element that is written as nothing settles to no element. -/
theorem settle_of_text_none (h : k.Text x none) : k.settle x = none := by
  cases k with
  | bearings => exact settled_of_bearing_none h
  | coordinates | waypointTargets =>
      obtain ⟨s, -, hnone⟩ := Rule.point_eq_ok_iff.mp h
      cases hnone
  | radiuses => cases (Rule.radius_eq_ok_iff.mp h).1
  | waypointIndices | waypointNames | closures | layers => cases h
  | approaches | annotations | exclusions | inclusions | paymentMethods =>
      obtain ⟨s, -, hnone⟩ := map_eq_ok_iff.mp h
      cases hnone

/-- The text of an element reads as the settled element, which has the same text. -/
theorem readElement_of_text (h : k.Text x (some s)) :
    ∃ y, k.settle x = some y ∧ k.readElement s = .ok y ∧ k.Text y (some s) := by
  cases k with
  | bearings => exact readBearing_settled h
  | coordinates | waypointTargets =>
      obtain ⟨s, hs, ⟨⟩⟩ := Rule.point_eq_ok_iff.mp h
      have hread := readPoint_settled not_numeralChar_defaultInnerDelimiter hs
      exact ⟨_, rfl, hread, Rule.point_eq_ok_iff.mpr ⟨s, writePoint_settled hs, rfl⟩⟩
  | radiuses =>
      cases (Rule.radius_eq_ok_iff.mp h).1
      exact ⟨_, rfl, rfl, h⟩
  | waypointNames =>
      cases h
      exact ⟨_, rfl, rfl, rfl⟩
  | waypointIndices | layers =>
      cases h
      exact ⟨x, rfl, readInteger_writeInteger x, rfl⟩
  | closures =>
      cases h
      exact ⟨x, rfl, readBoolean_writeBoolean x, rfl⟩
  | approaches | annotations | exclusions | inclusions | paymentMethods =>
      obtain ⟨s, hs, ⟨⟩⟩ := map_eq_ok_iff.mp h
      exact ⟨x, rfl, Criterion.ofName_eq_ok_iff.mpr hs, h⟩

/-- The text of an element, a waypoint name apart, is not empty and does not hold the delimiter
that stands between elements. -/
theorem plain_of_text (hk : k ≠ waypointNames) (h : k.Text x (some s)) :
    s ≠ "" ∧ k.delimiter ∉ s.toList := by
  cases k with
  | waypointNames => exact absurd rfl hk
  | bearings => exact plain_of_bearing h
  | coordinates | waypointTargets =>
      obtain ⟨s, hs, ⟨⟩⟩ := Rule.point_eq_ok_iff.mp h
      exact plain_of_writePoint hs
  | radiuses =>
      cases (Rule.radius_eq_ok_iff.mp h).1
      exact Rule.plain_of_radius h
  | waypointIndices | layers =>
      cases h
      exact ⟨writeInteger_ne_empty x, not_mem_writeInteger rfl (by decide) x⟩
  | closures =>
      cases h
      cases x <;> decide
  | approaches =>
      obtain ⟨s, hs, ⟨⟩⟩ := map_eq_ok_iff.mp h
      obtain ⟨hne, houter, -⟩ := Category.plain_of_mem_names (Criterion.mem_names_of_name hs)
      exact ⟨hne, houter⟩
  | annotations | exclusions | inclusions | paymentMethods =>
      obtain ⟨s, hs, ⟨⟩⟩ := map_eq_ok_iff.mp h
      obtain ⟨hne, -, hinner⟩ := Category.plain_of_mem_names (Criterion.mem_names_of_name hs)
      exact ⟨hne, hinner⟩

/-- The parameters whose elements have one spelling each, or are kept as they are spelled. -/
def verbatim : List Param :=
  [radiuses, approaches, waypointNames, closures, annotations, exclusions, inclusions,
    paymentMethods]

/-- An element of one of these parameters is written as the token that it was read from. -/
theorem text_of_readElement {t : Option String} (hk : k ∈ verbatim)
    (hread : k.readElement s = .ok x) (h : k.Text x t) : t = some s := by
  cases k with
  | coordinates | bearings | waypointIndices | waypointTargets | layers => simp [verbatim] at hk
  | radiuses =>
      cases hread
      exact (Rule.radius_eq_ok_iff.mp h).1.symm
  | waypointNames =>
      cases hread
      exact h.symm
  | closures =>
      rw [← readBoolean_eq_ok_iff.mp hread]
      exact h.symm
  | approaches | annotations | exclusions | inclusions | paymentMethods =>
      obtain ⟨u, hu, rfl⟩ := map_eq_ok_iff.mp h
      have hname := Criterion.ofName_eq_ok_iff.mp hread
      rw [hu] at hname
      cases hname
      rfl

/-! ### All positions -/

/-- No position may be absent, and nothing else is asked. -/
theorem requirePresent_eq_ok_iff {i : Nat} {xs : Sequence Point} {ps : List Point} :
    requirePresent i xs = .ok ps ↔ xs = ps.map some := by
  induction xs generalizing i ps with
  | nil => cases ps <;> simp [requirePresent]
  | cons x xs ih =>
      cases x with
      | none => cases ps <;> simp [requirePresent]
      | some p =>
          rw [requirePresent, map_eq_ok_iff]
          simp only [ih]
          constructor
          · rintro ⟨ps, rfl, rfl⟩
            rfl
          · intro h
            cases ps with
            | nil => simp at h
            | cons p' ps =>
                obtain ⟨⟨⟩, htail⟩ := List.cons.inj h
                exact ⟨ps, htail, rfl⟩

/-- Reading a parameter is reading the sequence of its elements. -/
theorem read_eq_ok_iff {w : String} {v : k.Value} :
    k.read w = .ok v ↔
      Sequence.read k.delimiter k.readElement w = .ok (k.positions v) := by
  cases k with
  | coordinates =>
      rw [Param.read, bind_eq_ok_iff]
      simp only [requirePresent_eq_ok_iff]
      constructor
      · rintro ⟨xs, hread, rfl⟩
        exact hread
      · intro hread
        exact ⟨_, hread, rfl⟩
  | _ => exact Iff.rfl

/-- What is written for a whole value, if no position is refused. -/
def Texts (k : Param) (v : k.Value) (t : Option String) : Prop :=
  ∃ ts, List.Forall₂ (Sequence.Written k.Text) (k.positions v) ts ∧
    some (Sequence.write k.delimiter id .keep ts) = t

/-- Coordinates are written point by point. -/
theorem write_coordinates {ps : List Point} {t : Option String} :
    write coordinates ps = .ok t ↔ Texts coordinates ps t := by
  rw [write, writeCoordinates_eq]
  exact Field.write_eq_ok_iff

/-- Approaches are written name by name. -/
theorem write_approaches {xs : Sequence (Criterion .approach)} {t : Option String} :
    write approaches xs = .ok t ↔ Texts approaches xs t := by
  rw [write, bind_eq_ok_iff]
  simp only [silently_eq_ok_iff]
  have hcheck : ∀ ts, criterionNames xs = .ok ts →
      (writeApproaches (some ts) = .ok t ↔
        some (Sequence.write defaultDelimiter id .keep ts) = t) := by
    intro ts hts
    rw [writeApproaches, Field.write, check_approaches 0 hts]
    exact pure_eq_ok_iff
  constructor
  · rintro ⟨ts, hts, hwrite⟩
    exact ⟨ts, criterionNames_eq_ok_iff.mp hts, (hcheck ts hts).mp hwrite⟩
  · rintro ⟨ts, hts, htext⟩
    have hnames := criterionNames_eq_ok_iff.mpr hts
    exact ⟨ts, hnames, (hcheck ts hnames).mpr htext⟩

/-- Annotations are written name by name. -/
theorem write_annotations {xs : Sequence (Criterion .annotationKind)} {t : Option String} :
    write annotations xs = .ok t ↔ Texts annotations xs t := by
  simp only [write, bind_eq_ok_iff, pure_eq_ok_iff, silently_eq_ok_iff, criterionNames_eq_ok_iff]
  exact Iff.rfl

/-- Writing a parameter is writing the texts of its elements. Only an empty list of waypoint names
is written as nothing. -/
theorem write_eq_ok_iff {v : k.Value} {t : Option String} :
    k.write v = .ok t ↔
      if k = waypointNames ∧ k.positions v = [] then t = none else k.Texts v t := by
  cases k with
  | waypointNames =>
      -- The one parameter that may be set and have no text.
      show Except.ok (writeWaypointNames (some v)) = .ok t ↔ _
      rw [Except.ok.injEq]
      cases v with
      | nil =>
          rw [if_pos ⟨rfl, rfl⟩]
          exact eq_comm
      | cons x xs =>
          rw [if_neg (by simp [positions])]
          exact write_render_eq_some_iff
  | coordinates =>
      rw [if_neg (by simp)]
      exact write_coordinates
  | bearings | radiuses | waypointTargets =>
      rw [if_neg (by simp)]
      exact Field.write_eq_ok_iff
  | approaches =>
      rw [if_neg (by simp)]
      exact write_approaches
  | waypointIndices | layers | closures =>
      rw [if_neg (by simp)]
      exact (Except.ok.injEq _ _).to_iff.trans write_render_eq_some_iff
  | annotations =>
      rw [if_neg (by simp)]
      exact write_annotations
  | exclusions | inclusions | paymentMethods =>
      rw [if_neg (by simp)]
      exact silently_eq_ok_iff.trans writeCriteria_eq_ok_iff

/-- A value can be written if and only if each of its elements can be. -/
theorem exists_write_iff {v : k.Value} :
    (∃ t, k.write v = .ok t) ↔ ∀ x, some x ∈ k.positions v → ∃ t, k.Text x t := by
  rw [← Sequence.exists_written_iff]
  simp only [write_eq_ok_iff]
  split
  · rename_i hempty
    rw [hempty.2]
    simp
  · simp [Texts]

end Param

/-- The element stands at a position of the parameter. -/
def Params.Holds (p : Params) (k : Param) (x : k.Element) : Prop :=
  ∃ v, p.get k = some v ∧ some x ∈ k.positions v

end RouteWire
