import Mathlib.Data.List.ReduceOption
import RouteWire.Params.Same
import RouteWire.Proofs.Params.Element
import RouteWire.Proofs.Params.Query

/-!
# Equal parameters are written alike

Equal numbers need not be the same word, but only the two zeros are equal and apart
(`Binary64.same_iff`). A zero is written without its sign, and it is within the same bounds with
either sign. So equal parameters are written as the same query, or they fail in the same way
(`toQuery_eq_of_same`).

Parameters are equal to themselves unless a number in them is not one. `Param.numbers` says which
numbers there are in an element.
-/

set_option autoImplicit false

namespace RouteWire

/-! ### Numbers -/

open Binary64

namespace Binary64

variable {x y : Binary64}

/-- A number is the same as itself unless it is a NaN. -/
theorem same_self_iff : x.same x = true ↔ ¬ x.IsNaN := by
  simp [same]

/-- A zero has no units, whatever its sign. -/
theorem units_of_code_eq_zero (h : x.code = 0) : x.units = 0 := by
  have hmagnitude : x.magnitude = 0 := by
    rw [magnitude, h]
    rfl
  simp [units, hmagnitude]

/-- Equal numbers are the same word, the two zeros apart. -/
theorem same_iff :
    x.same y = true ↔ ¬ x.IsNaN ∧ ¬ y.IsNaN ∧ (x = y ∨ x.code = 0 ∧ y.code = 0) := by
  rw [same, decide_eq_true_eq]
  refine and_congr_right fun _ => and_congr_right fun _ => ?_
  constructor
  · intro hunits
    have hmagnitude : x.magnitude = y.magnitude := by
      unfold units at hunits
      split at hunits <;> split at hunits <;> omega
    have hcode : x.code = y.code := strictMono_unitsOfCode.injective hmagnitude
    by_cases hzero : x.code = 0
    · exact .inr ⟨hzero, hcode ▸ hzero⟩
    · -- A number other than zero has one sign only.
      have hpos : 0 < x.magnitude := strictMono_unitsOfCode (Nat.pos_of_ne_zero hzero)
      have hsign : x.negative = y.negative := by
        revert hunits
        unfold units
        rw [← hmagnitude]
        cases x.negative <;> cases y.negative <;> simp <;> omega
      left
      rw [← ofCode_negative_code x, ← ofCode_negative_code y, hsign, hcode]
  · intro h
    rcases h with rfl | ⟨hx, hy⟩
    · rfl
    · rw [units_of_code_eq_zero hx, units_of_code_eq_zero hy]

/-- What does not tell the two zeros apart does not tell equal numbers apart. -/
theorem congr_of_same {β : Type} {f : Binary64 → β} (hf : f (ofCode true 0) = f (ofCode false 0))
    (h : x.same y = true) : f x = f y := by
  obtain ⟨-, -, rfl | ⟨hx, hy⟩⟩ := same_iff.mp h
  · rfl
  · -- Both are zeros, and each of them may be replaced by the positive one.
    have hzero : ∀ z : Binary64, z.code = 0 → f z = f (ofCode false 0) := by
      intro z hz
      rw [← ofCode_negative_code z, hz]
      cases z.negative with
      | false => rfl
      | true => exact hf
    rw [hzero x hx, hzero y hy]

end Binary64

/-- Numbers that are the same have the same text. -/
theorem writeNumber_eq_of_same {x y : Binary64} (h : x.same y = true) :
    writeNumber x = writeNumber y :=
  congr_of_same (by decide +kernel) h

/-- Numbers that are the same are in the same ranges. -/
theorem between_eq_of_same {x y : Binary64} (h : x.same y = true) (top : ℕ) :
    x.between top = y.between top := by
  have hzero : ∀ negative, (ofCode negative 0).between top = true := by
    intro negative
    have hcode : (ofCode negative 0).code = 0 := code_ofCode (by decide)
    have hunits := units_of_code_eq_zero hcode
    have hnumber : ¬ (ofCode negative 0).IsNaN := by
      rw [IsNaN, hcode]
      exact Nat.not_lt_zero _
    refine decide_eq_true ⟨hnumber, hunits.ge, ?_⟩
    rw [hunits]
    exact Int.mul_nonneg (Int.natCast_nonneg top) (Int.natCast_nonneg unitsPerOne)
  exact congr_of_same (f := fun x => x.between top) (by rw [hzero, hzero]) h

/-- Inside a field, too, equal numbers have the same text, and equal numbers fail alike. -/
theorem Rule.numberText_eq_of_same {x y : Binary64} (h : x.same y = true) :
    Rule.numberText x = Rule.numberText y :=
  congr_of_same (by decide +kernel) h

/-! ### Sequences -/

namespace Sequence

variable {α : Type} {same : α → α → Bool} {xs ys : Sequence α}

/-- Optional values are the same if both are absent, or both are present and the same. -/
theorem sameOption_iff {x y : Option α} :
    sameOption same x y = true ↔ Option.Rel (fun a b => same a b = true) x y := by
  cases x <;> cases y <;> simp [sameOption]

/-- Sequences are the same position by position. -/
theorem same_iff :
    Sequence.same same xs ys = true ↔
      List.Forall₂ (Option.Rel fun a b => same a b = true) xs ys := by
  unfold Sequence.same
  induction xs generalizing ys with
  | nil => cases ys <;> simp [List.isEqv]
  | cons x xs ih =>
      cases ys with
      | nil => simp [List.isEqv]
      | cons y ys => simp [List.isEqv, ih, sameOption_iff]

/-- A sequence is the same as itself if its elements are. -/
theorem same_self_iff : Sequence.same same xs xs = true ↔ ∀ a, some a ∈ xs → same a a = true := by
  rw [same_iff, List.forall₂_same]
  constructor
  · intro h a ha
    simpa using h _ ha
  · intro h x hx
    cases x with
    | none => exact .none
    | some a => exact .some (h a hx)

/-- Lists, as sequences without absent positions, are the same if they are element by element. -/
theorem same_map_some (as bs : List α) :
    Sequence.same same (as.map some) (bs.map some) = as.isEqv bs same := by
  unfold Sequence.same
  induction as generalizing bs with
  | nil => cases bs <;> rfl
  | cons a as ih =>
      cases bs with
      | nil => rfl
      | cons b bs => simp [List.isEqv, ih, sameOption]

end Sequence

/-! ### Fields -/

namespace Field

variable {α : Type} {same : α → α → Bool} {rule : Rule α} {field : Field} {xs ys : Sequence α}

/-- A field is checked alike for sequences that are the same, if its rule does not tell elements
apart that are. -/
theorem check_eq_of_same (hrule : ∀ a b, same a b = true → rule a = rule b) (i : ℕ)
    (h : Sequence.same same xs ys = true) : field.check rule i xs = field.check rule i ys := by
  have hpoint := Sequence.same_iff.mp h
  clear h
  induction hpoint generalizing i with
  | nil => rfl
  | @cons x y _ _ hfirst _ ih =>
      have helement : x.elim (.ok none) rule = y.elim (.ok none) rule := by
        cases hfirst with
        | none => rfl
        | some hsame => exact hrule _ _ hsame
      rw [check, check, helement, ih]

/-- If a rule does not tell equal elements apart, its field does not tell equal sequences apart. -/
theorem write_eq_of_same (hrule : ∀ a b, same a b = true → rule a = rule b) {d : Char}
    (h : Sequence.same same xs ys = true) :
    field.write rule d (some xs) = field.write rule d (some ys) := by
  rw [write, write, check_eq_of_same hrule 0 h]

end Field

/-- The rule of points does not tell points apart that are the same. -/
theorem Rule.point_eq_of_same (p q : Point) (h : p.same q = true) :
    Rule.point p = Rule.point q := by
  obtain ⟨hlongitude, hlatitude⟩ := Bool.and_eq_true_iff.mp h
  rw [Rule.point, Rule.point, Rule.pointText, Rule.pointText, numberText_eq_of_same hlongitude,
    numberText_eq_of_same hlatitude]

/-- The rule of bearings does not tell bearings apart that are the same. -/
theorem Rule.bearing_eq_of_same (b c : Bearing) (h : Sequence.same Binary64.same b c = true) :
    Rule.bearing b = Rule.bearing c := by
  have hpoint := Sequence.same_iff.mp h
  clear h
  -- The numbers matter only if there are two components and both are present.
  cases hpoint with
  | nil => rfl
  | cons hx hrest =>
      cases hrest with
      | nil => cases hx <;> rfl
      | cons hy hrest =>
          cases hrest with
          | nil =>
              cases hx with
              | none => cases hy <;> rfl
              | some hangle =>
                  cases hy with
                  | none => rfl
                  | some htolerance =>
                      rw [Rule.bearing, Rule.bearing, between_eq_of_same hangle,
                        between_eq_of_same htolerance, writeNumber_eq_of_same hangle,
                        writeNumber_eq_of_same htolerance]
          | cons => cases hx <;> cases hy <;> rfl

/-! ### Parameters -/

namespace Param

variable {k : Param}

/-- The numbers in an element. -/
def numbers : (k : Param) → k.Element → List Binary64
  | coordinates, p => [Point.longitude p, Point.latitude p]
  | bearings, b => List.reduceOption b
  | waypointTargets, p => [Point.longitude p, Point.latitude p]
  | _, _ => []

/-- Equal values are written alike, and they fail alike. -/
theorem write_eq_of_same {v w : k.Value} (h : k.same v w = true) : k.write v = k.write w := by
  cases k with
  | coordinates =>
      have hsame : Sequence.same Point.same (v.map some) (w.map some) = true := by
        rw [Sequence.same_map_some]
        exact h
      show some <$> writeCoordinates v = some <$> writeCoordinates w
      rw [writeCoordinates_eq, writeCoordinates_eq,
        Field.write_eq_of_same Rule.point_eq_of_same hsame]
  | bearings => exact Field.write_eq_of_same Rule.bearing_eq_of_same h
  | waypointTargets => exact Field.write_eq_of_same Rule.point_eq_of_same h
  -- Values without numbers are equal only if they are the same.
  | _ => rw [of_decide_eq_true h]

/-- A value is equal to itself if every number in it is one. -/
theorem same_self_iff {v : k.Value} :
    k.same v v = true ↔ ∀ e, some e ∈ k.positions v → ∀ x ∈ k.numbers e, ¬ x.IsNaN := by
  have hpoint : ∀ p : Point, p.same p = true ↔ ∀ x ∈ [p.longitude, p.latitude], ¬ x.IsNaN := by
    intro p
    simp [Point.same, Binary64.same_self_iff]
  cases k with
  | coordinates =>
      show v.isEqv v Point.same = true ↔ _
      rw [← Sequence.same_map_some, Sequence.same_self_iff]
      simp only [hpoint]
      rfl
  | bearings =>
      show Sequence.same (Sequence.same Binary64.same) v v = true ↔ _
      simp only [Sequence.same_self_iff, Binary64.same_self_iff]
      simp only [numbers, positions, List.reduceOption_mem_iff]
  | waypointTargets =>
      show Sequence.same Point.same v v = true ↔ _
      rw [Sequence.same_self_iff]
      simp only [hpoint]
      rfl
  | _ => simp [same, numbers]

end Param

namespace Params

variable {p q : Params}

/-- Parameters are the same if the value of each is. -/
theorem same_iff :
    p.same q = true ↔ ∀ k : Param, sameOption k.same (p.get k) (q.get k) = true := by
  rw [same, List.all_eq_true]
  exact Param.forall_mem_all_iff

/-- Parameters that are the same have the same texts. -/
theorem text_eq_of_same (h : p.same q = true) (k : Param) : p.text k = q.text k := by
  have hsame := same_iff.mp h k
  unfold text
  generalize p.get k = v at hsame
  generalize q.get k = w at hsame
  cases v with
  | none =>
      cases w with
      | none => rfl
      | some w => cases hsame
  | some v =>
      cases w with
      | none => cases hsame
      | some w => exact Param.write_eq_of_same hsame

/-- A number stands in the parameters. -/
def HasNumber (p : Params) (x : Binary64) : Prop :=
  ∃ k e, p.Holds k e ∧ x ∈ k.numbers e

/-- Equal parameters are written as the same query, or fail in the same way. Parameters are equal
to themselves if and only if no number in them is not a number. -/
theorem toQuery_eq_of_same (p : Params) :
    (∀ q, p.same q = true → p.toQuery = q.toQuery) ∧
      (p.same p = true ↔ ∀ x, p.HasNumber x → ¬ x.IsNaN) := by
  refine ⟨fun q h => ?_, ?_⟩
  · have hentry : p.entry = q.entry := by
      funext k
      rw [entry_eq, entry_eq, text_eq_of_same h]
    rw [toQuery, hentry]
    rfl
  · rw [same_iff]
    constructor
    · intro h x hx
      obtain ⟨k, e, ⟨v, hget, he⟩, hx⟩ := hx
      have hself := h k
      rw [hget] at hself
      exact Param.same_self_iff.mp hself e he x hx
    · intro h k
      cases hget : p.get k with
      | none => rfl
      | some v =>
          refine Param.same_self_iff.mpr ?_
          intro e he x hx
          exact h x ⟨k, e, ⟨v, hget, he⟩, hx⟩

/-- Each zero has the other sign in the other parameters, and is written as `0` in both. -/
theorem toQuery_eq_of_same_zeros :
    let p : Params :=
      { coordinates := some [⟨⟨0⟩, ⟨0x8000000000000000⟩⟩]
        bearings := some [none, some [some ⟨0⟩, some ⟨0x4024000000000000⟩]] }
    let q : Params :=
      { coordinates := some [⟨⟨0x8000000000000000⟩, ⟨0⟩⟩]
        bearings := some [none, some [some ⟨0x8000000000000000⟩, some ⟨0x4024000000000000⟩]] }
    p ≠ q ∧ p.same q = true ∧ p.toQuery = q.toQuery := by
  intro p q
  have hsame : p.same q = true := by
    decide +kernel
  exact ⟨by decide, hsame, (toQuery_eq_of_same p).1 q hsame⟩

end Params

end RouteWire
