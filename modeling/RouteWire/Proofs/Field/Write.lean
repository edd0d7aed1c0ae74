import RouteWire.Field.Write
import RouteWire.Proofs.Criterion
import RouteWire.Proofs.Sequence.RoundTrip

/-!
# When a field is written

The writers of the fields say position by position what is written there. These lemmas put that
into one form, `Sequence.Written`, for every kind of writer: those that check a rule
(`check_eq_ok_iff`), those that cannot fail (`write_render_eq_some_iff`), and those that look up
wire names (`criterionNames_eq_ok_iff`).

Coordinates have a loop of their own, which puts the delimiters between them as it goes. It gives
what the check of a field gives whose positions are all present, once the texts of these are joined
(`writeCoordinates_eq`).

The log is left aside here: writing is an `Except Refusal` throughout.
-/

set_option autoImplicit false

namespace RouteWire

open Sequence (Written)

variable {α : Type}

/-- What a fault of an element does to its field. -/
def Fault.refusal (field : Field) (i : Nat) : Fault → Refusal
  | violation v => .announced ⟨field, i, v⟩
  | failure f => .silent f

/-- With the log left aside, a silent failure is a refusal like any other. -/
theorem silently_eq (x : Except Failure α) :
    (silently x : Except Refusal α) = x.mapError .silent := by
  cases x <;> rfl

/-- Only a value passes silently as that value. -/
@[simp] theorem silently_eq_ok_iff {x : Except Failure α} {a : α} :
    silently x = .ok a ↔ x = .ok a := by
  rw [silently_eq, mapError_eq_ok_iff]

/-! ### Fields with a rule -/

namespace Field

/-- With the log left aside, a fault is a refusal at its position. -/
theorem settle_eq (field : Field) (i : Nat) (x : Except Fault α) :
    field.settle i x = x.mapError (Fault.refusal field i) := by
  cases x with
  | ok t => rfl
  | error e => cases e <;> rfl

/-- Only a text that the rule gives is settled as that text. -/
@[simp] theorem settle_eq_ok_iff {field : Field} {i : Nat} {x : Except Fault α} {a : α} :
    field.settle i x = .ok a ↔ x = .ok a := by
  rw [settle_eq, mapError_eq_ok_iff]

/-- A field passes if every present element passes the rule; the texts are those of the rule. -/
theorem check_eq_ok_iff {field : Field} {rule : Rule α} {i : Nat} {xs : Sequence α}
    {ts : Sequence String} :
    field.check rule i xs = .ok ts ↔ List.Forall₂ (Written fun x t => rule x = .ok t) xs ts := by
  induction xs generalizing i ts with
  | nil => rw [check, pure_eq_ok_iff, List.forall₂_nil_left_iff, eq_comm]
  | cons x xs ih =>
      have helement : ∀ t, x.elim (.ok none) rule = .ok t ↔
          Written (fun x t => rule x = .ok t) x t := by
        intro t
        cases x with
        | none => simp [eq_comm]
        | some a => simp
      rw [check, bind_eq_ok_iff, List.forall₂_cons_left_iff]
      simp only [bind_eq_ok_iff, pure_eq_ok_iff, settle_eq_ok_iff, ih, helement]
      constructor
      · rintro ⟨t, ht, ts, hts, rfl⟩
        exact ⟨t, ts, ht, hts, rfl⟩
      · rintro ⟨t, ts, ht, hts, rfl⟩
        exact ⟨t, ht, ts, hts, rfl⟩

/-- A field is written if every position of it is, and joined. -/
theorem write_eq_ok_iff {field : Field} {rule : Rule α} {d : Char} {xs : Sequence α}
    {t : Option String} :
    field.write rule d (some xs) = .ok t ↔
      ∃ ts, List.Forall₂ (Written fun x t => rule x = .ok t) xs ts ∧
        some (Sequence.write d id .keep ts) = t := by
  rw [write, bind_eq_ok_iff]
  simp only [check_eq_ok_iff, pure_eq_ok_iff]

/-- A field has a text if and only if each present element passes the rule. -/
theorem exists_write_eq_ok_iff {field : Field} {rule : Rule α} {d : Char} {xs : Sequence α} :
    (∃ t, field.write rule d (some xs) = .ok t) ↔ ∀ x, some x ∈ xs → ∃ t, rule x = .ok t := by
  simp only [write_eq_ok_iff]
  rw [← Sequence.exists_written_iff]
  constructor
  · rintro ⟨_, ts, hts, -⟩
    exact ⟨ts, hts⟩
  · rintro ⟨ts, hts⟩
    exact ⟨_, ts, hts, rfl⟩

end Field

/-- Behind the first coordinate the loop appends what the check of a field gives whose positions are
all present, as if the text so far were the first of them. -/
theorem appendCoordinates_eq {i : Nat} (hi : 0 < i) (out : String) (ps : List Point) :
    appendCoordinates i out ps =
      (fun ts => Sequence.write defaultDelimiter id .keep (some out :: ts)) <$>
        Field.coordinates.check Rule.point i (ps.map some) := by
  induction ps generalizing i out with
  | nil =>
      show Except.ok out = Except.ok (joinTokens defaultDelimiter [out])
      simp [joinTokens]
  | cons p ps ih =>
      rw [appendCoordinates, if_pos hi, List.map_cons, Field.check]
      show _ = _ <$> (Field.coordinates.settle i (some <$> Rule.pointText p) >>= _)
      cases Rule.pointText p with
      | error e => cases e <;> rfl
      | ok t =>
          show appendCoordinates (i + 1) (out.push defaultDelimiter ++ t) ps = _
          rw [ih (Nat.succ_pos i)]
          cases Field.coordinates.check (m := Except Refusal) Rule.point (i + 1) (ps.map some) with
          | error r => rfl
          | ok ts =>
              refine congrArg Except.ok ?_
              exact joinTokens_push_append defaultDelimiter out t _

/-- Writing coordinates is writing a field without absent positions. -/
theorem writeCoordinates_eq (ps : List Point) :
    some <$> writeCoordinates ps =
      Field.coordinates.write Rule.point defaultDelimiter (some (ps.map some)) := by
  cases ps with
  | nil => rfl
  | cons p ps =>
      rw [writeCoordinates, appendCoordinates, if_neg (Nat.lt_irrefl 0), Field.write,
        List.map_cons, Field.check]
      show _ = Field.coordinates.settle 0 (some <$> Rule.pointText p) >>= _ >>= _
      cases Rule.pointText p with
      | error e => cases e <;> rfl
      | ok t =>
          show some <$> appendCoordinates 1 ("" ++ t) ps = _
          rw [appendCoordinates_eq Nat.one_pos, String.empty_append]
          cases Field.coordinates.check (m := Except Refusal) Rule.point 1 (ps.map some) <;> rfl

/-! ### Fields that cannot fail -/

/-- What a field without a rule is written as, position by position. -/
theorem write_render_eq_some_iff {d : Char} {render : α → String} {xs : Sequence α}
    {t : Option String} :
    some (Sequence.write d render .keep xs) = t ↔
      ∃ ts, List.Forall₂ (Written fun x t => some (render x) = t) xs ts ∧
        some (Sequence.write d id .keep ts) = t := by
  rw [Sequence.write_render]
  simp [Sequence.written_render_iff]

/-! ### Wire names -/

variable {c : Category} {xs : Sequence (Criterion c)} {ts : Sequence String}

/-- Names are looked up position by position. -/
theorem criterionNames_eq_ok_iff :
    criterionNames xs = .ok ts ↔
      List.Forall₂ (Written fun v t => some <$> v.name = .ok t) xs ts := by
  rw [criterionNames, mapM_eq_ok_iff]
  have helement : ∀ (x : Option (Criterion c)) t, x.mapM Criterion.name = .ok t ↔
      Written (fun v t => some <$> v.name = .ok t) x t := by
    intro x t
    cases x with
    | none =>
        show Except.ok none = Except.ok t ↔ _
        simp [eq_comm]
    | some v => simp
  simp only [helement]

/-- Criteria are written by their names, position by position. -/
theorem writeCriteria_eq_ok_iff {d : Char} {t : Option String} :
    writeCriteria d (some xs) = .ok t ↔
      ∃ ts, List.Forall₂ (Written fun v t => some <$> v.name = .ok t) xs ts ∧
        some (Sequence.write d id .keep ts) = t := by
  show some <$> (Sequence.write d id .keep <$> criterionNames xs) = .ok t ↔ _
  simp [map_eq_ok_iff, criterionNames_eq_ok_iff]

/-- The names of approaches pass the rule for approaches as they are. -/
theorem check_approaches {xs : Sequence (Criterion .approach)} (i : Nat)
    (h : criterionNames xs = .ok ts) : Field.approaches.check Rule.approach i ts = .ok ts := by
  rw [criterionNames_eq_ok_iff] at h
  rw [Field.check_eq_ok_iff]
  induction h with
  | nil => exact .nil
  | cons hfirst hrest ih =>
      refine .cons ?_ ih
      cases hfirst with
      | absent => exact .absent
      | present hname =>
          -- The text comes from an approach, so it is one of their names.
          obtain ⟨s, hs, rfl⟩ := map_eq_ok_iff.mp hname
          have haccepts : Category.approach.accepts s = true :=
            Criterion.accepts_iff_mem_names.mpr (Criterion.mem_names_of_name hs)
          refine .present ?_
          rw [Rule.approach, if_pos haccepts]

end RouteWire
