import RouteWire.Proofs.Field.Write
import RouteWire.Proofs.Point

/-!
# Bearings stay valid on the wire

The rule for bearings looks at the numbers before they are rounded to six decimals and written. So
it has to be shown that rounding, there and back, leaves an angle between 0 and 360
(`Binary64.StaysInTurn`).

- `Bearing.exists_readAgain`: the text of one bearing is read as an angle and a tolerance that the
  rule accepts again, with the same text.
- `readNumberLists_writeBearings`: bearings that are written can be read and written again, and the
  text does not change. Only bearings without a text become absent positions.
-/

set_option autoImplicit false

namespace RouteWire

open Sequence (Written Carried)

/-! ### One number -/

/-- A number from 0 to 360 that comes back as such a number, less than a millionth away. -/
structure Binary64.StaysInTurn (x x' : Binary64) : Prop where
  before : x.InTurn
  after : x'.InTurn
  near : |x'.value - x.value| < 1 / 10 ^ 6

/-- A number in turn stays in turn when it is settled. -/
theorem Binary64.staysInTurn_settled {x : Binary64} (h : x.between 360) :
    x.StaysInTurn x.settled := by
  have hturn : x.InTurn := between_iff_inTurn.mp h
  have hsettled : x.settled.between 360 := between_settled hturn.1 h
  exact ⟨hturn, between_iff_inTurn.mp hsettled, abs_value_settled_sub_value_lt hturn.1⟩

/-! ### One position -/

namespace Bearing

/-- Nothing is written at the position: the bearing is absent, or one of its components is. The
other component may be any number. -/
def Missing (x : Option Bearing) : Prop :=
  ∀ b, x = some b → none ∈ b

/-- What is read at the position of a bearing: nothing if the bearing is missing, and otherwise its
angle and its tolerance. -/
inductive ReadAgain : Option Bearing → Option (List Binary64) → Prop where
  | missing {x : Option Bearing} (hx : Missing x) : ReadAgain x none
  | present {angle tolerance angle' tolerance' : Binary64} (hangle : angle.StaysInTurn angle')
      (htolerance : tolerance.StaysInTurn tolerance') :
      ReadAgain (some [some angle, some tolerance]) (some [angle', tolerance'])

/-- Numbers that were read, as a bearing. -/
def ofNumbers (ns : List Binary64) : Bearing :=
  ns.map some

/-- The text of a bearing is read as two numbers, and these have the same text. -/
theorem exists_readAgain {b : Bearing} {t : String} (h : Rule.bearing b = .ok (some t)) :
    ∃ ns, readNumberList defaultInnerDelimiter t = .ok ns ∧ ReadAgain (some b) (some ns) ∧
      Rule.bearing (ofNumbers ns) = .ok (some t) := by
  obtain ⟨b', hsettled, hread, hagain⟩ := readBearing_settled h
  obtain ⟨ns, hns, rfl⟩ := map_eq_ok_iff.mp hread
  refine ⟨ns, hns, ?_, hagain⟩
  rcases Rule.bearing_eq_ok_iff.mp h with ⟨x, y, -, -, rfl, ⟨hx, hy⟩, -⟩ | ⟨-, hnone⟩
  · have hboth : [x.settled, y.settled].map some = ns.map some := Option.some.inj hsettled
    rw [← List.map_injective_iff.mpr (Option.some_injective _) hboth]
    exact .present (Binary64.staysInTurn_settled hx) (Binary64.staysInTurn_settled hy)
  · cases hnone

/-- What is written at a position is read there, and what is read has the same text. -/
theorem exists_readAgain_of_written {x : Option Bearing} {t : Option String}
    (h : Written (fun b t => Rule.bearing b = .ok t) x t) :
    ∃ y, ReadAgain x y ∧
      Option.Rel (Carried defaultDelimiter (readNumberList defaultInnerDelimiter)) t y ∧
      Written (fun b t => Rule.bearing b = .ok t) (y.map ofNumbers) t := by
  cases h with
  | absent => exact ⟨none, .missing (by simp [Missing]), .none, .absent⟩
  | @present b t hrule =>
      cases t with
      | none =>
          -- A bearing passes without a text only if a component is absent.
          have hmissing : none ∈ b := by
            rcases Rule.bearing_eq_ok_iff.mp hrule with ⟨_, _, _, _, _, _, _, _, hsome⟩ | hnone
            · cases hsome
            · exact hnone.1.2
          exact ⟨none, .missing (by simpa [Missing] using hmissing), .none, .absent⟩
      | some s =>
          obtain ⟨ns, hread, hns, hagain⟩ := exists_readAgain hrule
          obtain ⟨hne, hfree⟩ := plain_of_bearing hrule
          exact ⟨some ns, hns, .some ⟨hne, hfree, hread⟩, .present hagain⟩

end Bearing

/-! ### All positions -/

section

variable {bs : Sequence Bearing} {ts : Sequence String}

open Bearing (ReadAgain Missing ofNumbers)

/-- Bearings that are written can be read, position by position, and written the same. -/
theorem exists_readAgain_of_written_texts
    (h : List.Forall₂ (Written fun b t => Rule.bearing b = .ok t) bs ts) :
    ∃ ys, List.Forall₂ ReadAgain bs ys ∧
      List.Forall₂
        (Option.Rel (Carried defaultDelimiter (readNumberList defaultInnerDelimiter))) ts ys ∧
      List.Forall₂ (Written fun b t => Rule.bearing b = .ok t)
        (ys.map (Option.map ofNumbers)) ts := by
  induction h with
  | nil => exact ⟨[], .nil, .nil, .nil⟩
  | cons hfirst hrest ih =>
      obtain ⟨y, hy, hread, hagain⟩ := Bearing.exists_readAgain_of_written hfirst
      obtain ⟨ys, hys, hreads, hagains⟩ := ih
      exact ⟨y :: ys, .cons hy hys, .cons hread hreads, .cons hagain hagains⟩

/-- Only a single missing bearing is read as one absent position on its own. -/
theorem eq_single_none_iff_of_readAgain {ys : Sequence (List Binary64)}
    (h : List.Forall₂ ReadAgain bs ys) : ys = [none] ↔ ∃ x, bs = [x] ∧ Missing x := by
  constructor
  · intro hys
    rw [hys] at h
    obtain ⟨x, rest, hx, hrest, rfl⟩ := List.forall₂_cons_right_iff.mp h
    rw [List.forall₂_nil_right_iff.mp hrest]
    cases hx with
    | missing hmissing => exact ⟨x, rfl, hmissing⟩
  · intro ⟨x, hbs, hmissing⟩
    rw [hbs] at h
    obtain ⟨y, rest, hy, hrest, rfl⟩ := List.forall₂_cons_left_iff.mp h
    rw [List.forall₂_nil_left_iff.mp hrest]
    cases hy with
    | missing => rfl
    | present => simpa using hmissing _ rfl

/-- Bearings that are written can be read: a position is absent if and only if its bearing is
missing, and otherwise the angle and the tolerance come back, from 0 to 360 and within a millionth.
Only a single missing bearing is read as no position. What is read is written as the same text. -/
theorem readNumberLists_writeBearings {t : Option String} (h : writeBearings (some bs) = .ok t) :
    ∃ ys, readNumberLists defaultDelimiter defaultInnerDelimiter t = .ok (some ys) ∧
      (∀ x, bs = [x] → Missing x → ys = []) ∧
      ((∀ x, bs = [x] → ¬ Missing x) → List.Forall₂ ReadAgain bs ys) ∧
      writeBearings (some (ys.map (Option.map ofNumbers))) = .ok t := by
  obtain ⟨ts, hts, rfl⟩ := Field.write_eq_ok_iff.mp h
  obtain ⟨ys, hys, hcarried, hagain⟩ := exists_readAgain_of_written_texts hts
  -- What is read may have collapsed, but the text that this is written as is the same.
  have hread := Sequence.read_write_texts hcarried
  obtain ⟨us, hus, hsame⟩ := Sequence.written_collapsed defaultDelimiter hagain
  rw [Sequence.collapsed_map] at hus
  have hsingle := eq_single_none_iff_of_readAgain hys
  refine ⟨Sequence.collapsed ys, ?_, ?_, ?_, ?_⟩
  · show some <$> Sequence.read _ _ _ = _
    rw [hread]
    rfl
  · intro x hbs hmissing
    rw [hsingle.mpr ⟨x, hbs, hmissing⟩]
    rfl
  · intro hnot
    have hne : ys ≠ [none] := by
      intro hnone
      obtain ⟨x, hbs, hmissing⟩ := hsingle.mp hnone
      exact hnot x hbs hmissing
    rw [Sequence.collapsed_of_ne hne]
    exact hys
  · exact Field.write_eq_ok_iff.mpr ⟨us, hus, congrArg some hsame⟩

/-- A negative zero, the last number below 360, a bearing that is absent, and one that only lacks
its angle, so that nobody looks at its tolerance. -/
theorem readNumberLists_writeBearings_at_the_bounds :
    let bs : Sequence Bearing :=
      [some [some ⟨0x8000000000000000⟩, some ⟨0x40767FFFFFFFFFFF⟩], none,
        some [none, some ⟨0x4079000000000000⟩]]
    writeBearings (some bs) = .ok (some "0,360;;") ∧
      ∃ ys, readNumberLists ';' ',' (some "0,360;;") = .ok (some ys) ∧
        List.Forall₂ ReadAgain bs ys ∧
        writeBearings (some (ys.map (Option.map ofNumbers))) = .ok (some "0,360;;") := by
  intro bs
  have hwrite : writeBearings (some bs) = .ok (some "0,360;;") := by decide +kernel
  obtain ⟨ys, hread, -, hys, hagain⟩ := readNumberLists_writeBearings hwrite
  have hlong : ∀ x, bs = [x] → ¬ Missing x := by
    intro x hx
    simp [bs] at hx
  exact ⟨hwrite, ys, hread, hys hlong, hagain⟩

end

end RouteWire
