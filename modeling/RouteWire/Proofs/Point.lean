import RouteWire.Field.Rule
import RouteWire.Proofs.Number.Settled

/-!
# Points and bearings survive their text

Inside a field numbers and points have the text that they have on their own
(`Rule.numberText_eq_ok_iff`, `Rule.pointText_eq_ok_iff`).

A point is two numbers in one text, and so is a bearing that has both components. Either comes
back with its numbers settled (`readPoint_settled`, `readBearing_settled`), and what comes back is
written as the same text again. A bearing with an absent component is written as nothing.
-/

set_option autoImplicit false

namespace RouteWire

open Numeral (NumeralChar)

variable {t : String}

/-- The inner delimiter is not in a number. -/
theorem not_numeralChar_defaultInnerDelimiter : ¬ NumeralChar defaultInnerDelimiter := by
  unfold NumeralChar
  decide

/-- The delimiter is not in a number. -/
theorem not_numeralChar_defaultDelimiter : ¬ NumeralChar defaultDelimiter := by
  unfold NumeralChar
  decide

/-! ### Numbers and points inside a field -/

namespace Rule

variable {x : Binary64} {p : Point}

/-- Inside a field a number has the text that it has on its own. -/
theorem numberText_eq_ok_iff : numberText x = .ok t ↔ writeNumber x = .ok t := by
  unfold numberText
  by_cases hx : x.IsFinite
  · rw [if_neg (not_not.mpr hx), mapError_eq_ok_iff]
  · rw [if_pos hx, writeNumber, if_pos hx]
    simp

/-- Inside a field only a number that is not finite has no text, so that no failure to write one is
silent. -/
theorem numberText_eq_error_iff {e : Fault} :
    numberText x = .error e ↔ ¬ x.IsFinite ∧ .violation (.invalid .notFinite) = e := by
  unfold numberText
  by_cases hx : x.IsFinite
  · rw [if_neg (not_not.mpr hx), writeNumber_eq_ok_iff.mpr ⟨hx, rfl⟩]
    simp [hx, Except.mapError]
  · rw [if_pos hx]
    simp [hx]

/-- Inside a field a point has the text that it has on its own. -/
theorem pointText_eq_ok_iff :
    pointText p = .ok t ↔ writePoint defaultInnerDelimiter p = .ok t := by
  rw [pointText, writePoint]
  simp only [bind_eq_ok_iff, pure_eq_ok_iff, numberText_eq_ok_iff]

/-- A point inside a field has the text that it has alone. -/
theorem point_eq_ok_iff {t : Option String} :
    point p = .ok t ↔ ∃ s, writePoint defaultInnerDelimiter p = .ok s ∧ some s = t := by
  simp [point, map_eq_ok_iff, pointText_eq_ok_iff]

end Rule

/-! ### Points -/

/-- The point that the text of a point reads as. -/
def Point.settled (p : Point) : Point :=
  ⟨p.longitude.settled, p.latitude.settled⟩

/-- The text of a point is made of those of its numbers. -/
theorem writePoint_eq_ok_iff {inner : Char} {p : Point} :
    writePoint inner p = .ok t ↔ ∃ a b, writeNumber p.longitude = .ok a ∧
      writeNumber p.latitude = .ok b ∧ a.push inner ++ b = t := by
  simp [writePoint, bind_eq_ok_iff, map_eq_ok_iff]

/-- A point is read from two tokens, each of which is a number. -/
theorem readPoint_eq_ok_iff {inner : Char} {p : Point} :
    readPoint inner t = .ok p ↔ ∃ a b, tokens inner t = [a, b] ∧
      readNumber a = .ok p.longitude ∧ readNumber b = .ok p.latitude := by
  unfold readPoint
  split
  · rename_i a b hfields
    simp only [bind_eq_ok_iff, pure_eq_ok_iff, hfields]
    constructor
    · rintro ⟨longitude, ha, latitude, hb, rfl⟩
      exact ⟨a, b, rfl, ha, hb⟩
    · rintro ⟨_, _, ⟨⟩, ha, hb⟩
      exact ⟨_, ha, _, hb, rfl⟩
  · rename_i hsize
    refine iff_of_false (by simp) ?_
    rintro ⟨a, b, hfields, -⟩
    exact hsize a b hfields

/-- The text of a point reads as the settled point. -/
theorem readPoint_settled {inner : Char} {p : Point} (hinner : ¬ NumeralChar inner)
    (h : writePoint inner p = .ok t) : readPoint inner t = .ok p.settled := by
  obtain ⟨a, b, ha, hb, rfl⟩ := writePoint_eq_ok_iff.mp h
  rw [readPoint, tokens_pair ha hb hinner]
  simp [bind_eq_ok_iff, readNumber_settled ha, readNumber_settled hb, Point.settled]

/-- The settled point has the same text. -/
theorem writePoint_settled {inner : Char} {p : Point} (h : writePoint inner p = .ok t) :
    writePoint inner p.settled = .ok t := by
  obtain ⟨a, b, ha, hb, rfl⟩ := writePoint_eq_ok_iff.mp h
  exact writePoint_eq_ok_iff.mpr ⟨a, b, writeNumber_settled ha, writeNumber_settled hb, rfl⟩

/-- The text of a point holds no outer delimiter. -/
theorem plain_of_writePoint {p : Point} (h : writePoint defaultInnerDelimiter p = .ok t) :
    t ≠ "" ∧ defaultDelimiter ∉ t.toList := by
  obtain ⟨a, b, ha, hb, rfl⟩ := writePoint_eq_ok_iff.mp h
  exact ⟨push_append_ne_empty _ _ _,
    not_mem_push_append ha hb (by decide) not_numeralChar_defaultDelimiter⟩

/-! ### Bearings -/

/-- The bearing that the text of a bearing reads as; none if a component is absent. -/
def Bearing.settled (b : Bearing) : Option Bearing :=
  if none ∈ b then none else some (b.map (Option.map Binary64.settled))

/-- Reads a bearing. No component that is read is absent. -/
def readBearing (token : String) : Except Failure Bearing :=
  List.map some <$> readNumberList defaultInnerDelimiter token

/-- What a bearing is written as: two numbers in turn, or nothing if a component is absent. -/
theorem Rule.bearing_eq_ok_iff {b : Bearing} {t : Option String} :
    Rule.bearing b = .ok t ↔
      (∃ x y s u, b = [some x, some y] ∧ (x.between 360 ∧ y.between 360) ∧
        writeNumber x = .ok s ∧ writeNumber y = .ok u ∧
          some (s.push defaultInnerDelimiter ++ u) = t) ∨
        (b.length = 2 ∧ none ∈ b) ∧ t = none := by
  unfold Rule.bearing
  split
  · rename_i x y
    split
    · rename_i hrange
      simp only [Bool.and_eq_true] at hrange
      simp [bind_eq_ok_iff, map_eq_ok_iff, hrange]
    · rename_i hrange
      simp only [Bool.and_eq_true] at hrange
      simp [hrange]
  · rename_i x y hboth
    -- Not both components are present, or else the arm before would have been taken.
    have habsent : none ∈ [x, y] := by
      cases x with
      | none => simp
      | some x =>
          cases y with
          | none => simp
          | some y => exact (hboth x y rfl rfl).elim
    constructor
    · rintro ⟨⟩
      exact .inr ⟨⟨rfl, habsent⟩, rfl⟩
    · rintro (⟨_, _, _, _, heq, _⟩ | ⟨-, rfl⟩)
      · exact absurd habsent (by simp [heq])
      · rfl
  · rename_i hsize hboth
    constructor
    · rintro ⟨⟩
    · rintro (⟨x, y, _, _, rfl, _⟩ | ⟨⟨hlength, -⟩, -⟩)
      · exact absurd rfl (hboth _ _)
      · obtain ⟨x, y, rfl⟩ := List.length_eq_two.mp hlength
        exact absurd rfl (hboth _ _)

/-- A bearing without a text settles to none. -/
theorem settled_of_bearing_none {b : Bearing} (h : Rule.bearing b = .ok none) :
    Bearing.settled b = none := by
  rcases Rule.bearing_eq_ok_iff.mp h with ⟨_, _, _, _, _, _, _, _, hsome⟩ | ⟨⟨-, habsent⟩, -⟩
  · cases hsome
  · exact if_pos habsent

/-- The text of a bearing reads as the settled bearing, which has the same text. -/
theorem readBearing_settled {b : Bearing} (h : Rule.bearing b = .ok (some t)) :
    ∃ b', Bearing.settled b = some b' ∧ readBearing t = .ok b' ∧
      Rule.bearing b' = .ok (some t) := by
  rcases Rule.bearing_eq_ok_iff.mp h with ⟨x, y, s, u, rfl, ⟨hx, hy⟩, hs, hu, htext⟩ | ⟨-, hnone⟩
  · cases htext
    refine ⟨[some x.settled, some y.settled], rfl, ?_, ?_⟩
    · rw [readBearing, readNumberList, tokens_pair hs hu not_numeralChar_defaultInnerDelimiter,
        map_eq_ok_iff]
      refine ⟨[x.settled, y.settled], mapM_eq_ok_iff.mpr ?_, rfl⟩
      exact .cons (readNumber_settled hs) (.cons (readNumber_settled hu) .nil)
    · have hfinite := (writeNumber_eq_ok_iff.mp hs).1
      have hfinite' := (writeNumber_eq_ok_iff.mp hu).1
      refine Rule.bearing_eq_ok_iff.mpr (.inl ⟨_, _, s, u, rfl, ⟨?_, ?_⟩, ?_, ?_, rfl⟩)
      · exact between_settled hfinite hx
      · exact between_settled hfinite' hy
      · exact writeNumber_settled hs
      · exact writeNumber_settled hu
  · cases hnone

/-- The text of a bearing holds no outer delimiter. -/
theorem plain_of_bearing {b : Bearing} (h : Rule.bearing b = .ok (some t)) :
    t ≠ "" ∧ defaultDelimiter ∉ t.toList := by
  rcases Rule.bearing_eq_ok_iff.mp h with ⟨x, y, s, u, -, -, hs, hu, htext⟩ | ⟨-, hnone⟩
  · cases htext
    exact ⟨push_append_ne_empty _ _ _,
      not_mem_push_append hs hu (by decide) not_numeralChar_defaultDelimiter⟩
  · cases hnone

end RouteWire
