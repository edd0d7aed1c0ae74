import RouteWire.Proofs.Params.Decoding
import RouteWire.Proofs.Params.Encoding

/-!
# Parameters that can be sent again

Writing is stricter than reading in two places. A bearing is read as any number of components, but
it is written only if there are two of them and both are from 0 to 360. A radius is read as it is
spelled, but it is written only if it has no limit or is a number that is not below zero. There is
no third place (`toQuery_ofQuery_eq_error_iff`): numbers that are read are finite and criteria that
are read are in their catalogues, so that everything else that can be read can be written.

What is asked of a token is `Param.Sendable`. `Param.writable_iff_of_readElement` says that this is
what is asked of the element that the token reads as.
-/

set_option autoImplicit false

namespace RouteWire

/-! ### Tokens that can be sent again -/

/-- The token holds two numbers, both from 0 to 360. -/
def IsTurnPair (t : String) : Prop :=
  ∃ x y, readNumberList ',' t = .ok [x, y] ∧ x.InTurn ∧ y.InTurn

/-- The token is the radius without a limit, or a number that is not below zero. -/
def IsRadius (t : String) : Prop :=
  t = "unlimited" ∨ ∃ x, readNumber t = .ok x ∧ 0 ≤ x.value

/-- What is read from the token can be written. Only bearings and radiuses ask for anything. -/
def Param.Sendable : Param → String → Prop
  | bearings, t => IsTurnPair t
  | radiuses, t => IsRadius t
  | _, _ => True

/-- A bearing that was read can be written if it is two numbers in turn. -/
theorem bearing_writable_iff {xs : List Binary64} :
    Param.bearings.Writable (xs.map some) ↔ ∃ x y, xs = [x, y] ∧ x.InTurn ∧ y.InTurn := by
  show (∀ v, ¬ BearingViolation (xs.map some) v) ↔ _
  unfold BearingViolation
  by_cases hlength : xs.length = 2
  · obtain ⟨x, y, rfl⟩ := List.length_eq_two.mp hlength
    simp
  · refine iff_of_false ?_ ?_
    · intro h
      exact h _ (.inl ⟨by rwa [List.length_map], rfl⟩)
    · intro ⟨x, y, hxs, _⟩
      exact hlength (congrArg List.length hxs)

/-- A radius can be written if it has no limit or is a number not below zero. -/
theorem radius_writable_iff {s : String} : Param.radiuses.Writable s ↔ IsRadius s := by
  show (∀ v, ¬ RadiusViolation s v) ↔ _
  unfold RadiusViolation IsRadius
  cases hread : readNumber s with
  | error f =>
      -- The token without a limit is no number either, so that the cases meet here.
      rw [readNumber_eq_error hread]
      simp
  | ok x =>
      by_cases hlimit : s = "unlimited"
      · simp [hlimit]
      · simp [hlimit]

/-- No number that is read is infinite. -/
theorem isFinite_of_readPoint {inner : Char} {t : String} {p : Point}
    (h : readPoint inner t = .ok p) : p.IsFinite := by
  obtain ⟨_, _, -, hlongitude, hlatitude⟩ := readPoint_eq_ok_iff.mp h
  exact ⟨Number.isFinite_of_read (readNumber_eq_ok_iff.mp hlongitude),
    Number.isFinite_of_read (readNumber_eq_ok_iff.mp hlatitude)⟩

namespace Param

variable {k : Param} {t : String} {x : k.Element}

/-- An element that is read can be written if and only if its token can be sent again. -/
theorem writable_iff_of_readElement (h : k.readElement t = .ok x) :
    k.Writable x ↔ k.Sendable t := by
  cases k with
  | coordinates | waypointTargets => exact iff_of_true (isFinite_of_readPoint h) trivial
  | bearings =>
      obtain ⟨xs, hxs, rfl⟩ := map_eq_ok_iff.mp h
      have hread : readNumberList ',' t = .ok xs := hxs
      rw [bearing_writable_iff, Sendable, IsTurnPair, hread]
      simp
  | radiuses =>
      cases h
      exact radius_writable_iff
  | approaches | annotations | exclusions | inclusions | paymentMethods =>
      -- The token is the name of the criterion, and only those in a catalogue have one.
      refine iff_of_true ?_ trivial
      exact Criterion.exists_name_iff_valid.mp ⟨t, Criterion.ofName_eq_ok_iff.mp h⟩
  | waypointIndices | waypointNames | closures | layers => exact Iff.rfl

/-- A text that is read can be written again if and only if each of its tokens can be. -/
theorem exists_write_iff_of_read {w : String} {v : k.Value} (h : k.read w = .ok v) :
    (∃ u, k.write v = .ok u) ↔ ∀ t ∈ tokens k.delimiter w, t ≠ "" → k.Sendable t := by
  have hread := read_eq_ok_iff.mp h
  simp only [exists_write_iff, exists_text_iff_writable, Sequence.mem_iff_of_read hread]
  constructor
  · intro hwritable t ht hne
    -- The token was read, so that an element stands for it that can be written.
    obtain ⟨x, hx⟩ := Sequence.exists_of_mem_tokens hread ht hne
    exact (writable_iff_of_readElement hx).mp (hwritable x ⟨t, ht, hne, hx⟩)
  · intro hsendable x ⟨t, ht, hne, hx⟩
    exact (writable_iff_of_readElement hx).mpr (hsendable t ht hne)

end Param

namespace Params

variable {p : Params} {q : Query}

/-- A query that is read can be written again if and only if each token of it can be. -/
theorem exists_toQuery_iff_of_ofQuery (h : ofQuery q = .ok p) :
    (∃ q', p.toQuery = .ok q') ↔
      ∀ (k : Param) w, q.get? k.wireName = some w →
        ∀ t ∈ tokens k.delimiter w, t ≠ "" → k.Sendable t := by
  rw [exists_toQuery_iff_text]
  refine forall_congr' fun k => ?_
  have hrel := ofQuery_get h k
  unfold text
  generalize q.get? k.wireName = w at hrel
  generalize p.get k = v at hrel
  cases hrel with
  | none => simp
  | some hread =>
      show (∃ u, k.write _ = .ok u) ↔ _
      rw [Param.exists_write_iff_of_read hread]
      simp

/-- A query is read, and what it was read as is written. This fails if and only if the text of the
bearings has a token, not the empty one, that is not two numbers from 0 to 360, or the text of the
radiuses has one that is neither without a limit nor a number that is not below zero. Every other
parameter can be written if it can be read. -/
theorem toQuery_ofQuery_eq_error_iff (h : ofQuery q = .ok p) :
    ((∃ refusal, p.toQuery = .error refusal) ↔
        (∃ w, q.get? "bearings" = some w ∧ ∃ t ∈ tokens ';' w, t ≠ "" ∧ ¬ IsTurnPair t) ∨
          ∃ w, q.get? "radiuses" = some w ∧ ∃ t ∈ tokens ';' w, t ≠ "" ∧ ¬ IsRadius t) ∧
      ∀ (k : Param) w v, k ≠ .bearings → k ≠ .radiuses → k.read w = .ok v →
        ∃ u, k.write v = .ok u := by
  refine ⟨?_, ?_⟩
  · rw [exists_eq_error_iff, exists_toQuery_iff_of_ofQuery h]
    push Not
    constructor
    · intro ⟨k, w, hw, t, ht, hne, hnot⟩
      cases k with
      | bearings => exact .inl ⟨w, hw, t, ht, hne, hnot⟩
      | radiuses => exact .inr ⟨w, hw, t, ht, hne, hnot⟩
      -- Nothing is asked of the tokens of any other parameter.
      | _ => exact absurd trivial hnot
    · intro hnot
      rcases hnot with ⟨w, hw, hnot⟩ | ⟨w, hw, hnot⟩
      · exact ⟨.bearings, w, hw, hnot⟩
      · exact ⟨.radiuses, w, hw, hnot⟩
  · intro k w v hbearings hradiuses hread
    rw [Param.exists_write_iff_of_read hread]
    intro t _ _
    cases k with
    | bearings => exact absurd rfl hbearings
    | radiuses => exact absurd rfl hradiuses
    | _ => trivial

/-- The last of three bearings is read, but its tolerance is more than a turn. -/
theorem toQuery_ofQuery_eq_error_iff_wide_tolerance :
    let p : Params :=
      { bearings := some [some [some ⟨0x4024000000000000⟩, some ⟨0x4034000000000000⟩], none,
          some [some ⟨0x4046800000000000⟩, some ⟨0x4079000000000000⟩]]
        radiuses := some [some "unlimited", some "+5"] }
    ofQuery ⟨[("bearings", "10,20;;45,400"), ("radiuses", "unlimited;+5")]⟩ = .ok p ∧
      ∃ refusal, p.toQuery = .error refusal := by
  intro p
  have hread : ofQuery ⟨[("bearings", "10,20;;45,400"), ("radiuses", "unlimited;+5")]⟩ = .ok p := by
    decide +kernel
  refine ⟨hread, (toQuery_ofQuery_eq_error_iff hread).1.mpr (.inl ⟨_, rfl, "45,400", ?_, ?_, ?_⟩)⟩
  · decide +kernel
  · decide
  · intro ⟨x, y, hpair, _, hturn⟩
    have hvalues : readNumberList ',' "45,400" =
        .ok [⟨0x4046800000000000⟩, ⟨0x4079000000000000⟩] := by
      decide +kernel
    rw [hvalues] at hpair
    cases hpair
    exact absurd (between_iff_inTurn.mpr hturn) (by decide +kernel)

end Params

end RouteWire
