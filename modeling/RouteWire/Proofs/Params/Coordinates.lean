import RouteWire.Proofs.Params.Decoding
import RouteWire.Proofs.Sequence.FirstFailure

/-!
# Coordinates and what is wrong with them

Coordinates are read in two passes. The first one reads the tokens that are not empty as points, and
it stops at the first of them that is none. The second one looks for empty tokens, but only if the
first has read all others. A token that is no point is therefore named before an empty token, even
if the empty one stands in front of it.

`Param.read_coordinates_cases` is this outcome for one text. `Params.ofQuery_coordinates` says it of
a query: the coordinates are read before all other parameters, so that nothing else in the query has
an influence on it.
-/

set_option autoImplicit false

namespace RouteWire

/-! ### Tokens of coordinates -/

/-- The token has two fields, and these are the coordinates of the point, the longitude first. -/
def HoldsPoint (token : String) (p : Point) : Prop :=
  ∃ longitude latitude, tokens ',' token = [longitude, latitude] ∧
    readNumber longitude = .ok p.longitude ∧ readNumber latitude = .ok p.latitude

/-- The token is not empty and holds no point. -/
def HoldsNoPoint (token : String) : Prop :=
  token ≠ "" ∧ ¬ ∃ p, HoldsPoint token p

/-- What is wrong with a token that holds no point: the number of its fields, or one of its two
fields. If neither of the two is a number, the reason is that of one of them. -/
inductive PointFault (token : String) : Reason → Prop where
  | size (hsize : (tokens ',' token).length ≠ 2) : PointFault token (.notPoint token)
  | field {t : String} {f : Failure} (hsize : (tokens ',' token).length = 2)
      (hfield : t ∈ tokens ',' token) (hread : readNumber t = .error f) :
      PointFault token f.reason

/-- `t` is the first of the tokens that have the property, and it stands at position `i`. -/
structure FirstToken (P : String → Prop) (ts : List String) (i : ℕ) (t : String) : Prop where
  get : ts[i]? = some t
  holds : P t
  before : ∀ s ∈ ts.take i, ¬ P s

variable {t w : String} {p : Point}

/-- A point is read from a token that holds it. -/
theorem readPoint_eq_ok_iff_holdsPoint : readPoint ',' t = .ok p ↔ HoldsPoint t p :=
  readPoint_eq_ok_iff

/-- A token that holds a point is not empty. -/
theorem HoldsPoint.ne_empty (h : HoldsPoint t p) : t ≠ "" := by
  rintro rfl
  obtain ⟨longitude, latitude, hfields, -⟩ := h
  rw [tokens_of_not_mem (by simp)] at hfields
  cases hfields

/-- What is said of a token that cannot be read is one of its faults. -/
theorem pointFault_of_readPoint {f : Failure} (h : readPoint ',' t = .error f) :
    PointFault t f.reason := by
  unfold readPoint at h
  split at h
  · rename_i longitude latitude hfields
    have hsize : (tokens ',' t).length = 2 := by rw [hfields]; rfl
    rcases bind_eq_error_iff.mp h with hlongitude | ⟨_, -, hrest⟩
    · exact .field hsize (by simp [hfields]) hlongitude
    · rcases bind_eq_error_iff.mp hrest with hlatitude | ⟨_, -, hpure⟩
      · exact .field hsize (by simp [hfields]) hlatitude
      · cases hpure
  · rename_i hfields
    cases h
    refine .size fun hsize => ?_
    obtain ⟨longitude, latitude, hpair⟩ := List.length_eq_two.mp hsize
    exact hfields longitude latitude hpair

/-! ### Texts of coordinates -/

namespace Param

open Sequence (ReadsAs FirstFailure)

/-- The first pass fails at the first token that holds no point. -/
theorem read_coordinates_of_firstFailure {i : ℕ} {e : Failure}
    (h : FirstFailure (readPoint ',') (tokens ';' w) i e) :
    ∃ t reason, FirstToken HoldsNoPoint (tokens ';' w) i t ∧ PointFault t reason ∧
      coordinates.read w = .error (.malformed i reason) := by
  obtain ⟨t, ht, hne, hfails⟩ := h.fails
  refine ⟨t, e.reason, ⟨ht, ⟨hne, ?_⟩, ?_⟩, pointFault_of_readPoint hfails, ?_⟩
  · rintro ⟨p, hp⟩
    rw [readPoint_eq_ok_iff_holdsPoint.mpr hp] at hfails
    cases hfails
  · rintro s hs ⟨hsne, hnone⟩
    obtain ⟨p, hp⟩ := h.before s hs hsne
    exact hnone ⟨p, readPoint_eq_ok_iff_holdsPoint.mp hp⟩
  · have hfirst : Sequence.read ';' (readPoint ',') w = .error (.malformed i e.reason) := by
      rw [Sequence.read_of_firstFailure h, readPoint_eq_error hfails]
      rfl
    exact bind_eq_error_iff.mpr (.inl hfirst)

/-- The second pass fails at the first empty token. -/
theorem firstToken_of_requirePresent {ts : List String} {xs : Sequence Point} {e : Failure}
    (hread : List.Forall₂ (ReadsAs (readPoint ',')) ts xs) (h : requirePresent 0 xs = .error e) :
    ∃ i, FirstToken (· = "") ts i "" ∧ e = .malformed i .emptyCoordinate := by
  obtain ⟨i, he, hi, hbefore⟩ := requirePresent_eq_error h
  rw [Nat.zero_add] at he
  obtain ⟨hlt, -⟩ := List.getElem?_eq_some_iff.mp hi
  rw [← hread.length_eq] at hlt
  have hempty : ts[i] = "" := by
    by_contra hne
    obtain ⟨p, -, hp⟩ := (Sequence.getElem?_of_read hread (List.getElem?_eq_getElem hlt)).2 hne
    rw [hi] at hp
    cases hp
  refine ⟨i, ⟨?_, rfl, ?_⟩, he⟩
  · rw [List.getElem?_eq_getElem hlt, hempty]
  · rintro s hs rfl
    exact hbefore ((Sequence.empty_mem_iff_of_reads (List.forall₂_take i hread)).mp hs)

/-- A text of coordinates is read as its points, or the first token that holds no point is named,
or, if there is none, the first empty token. -/
theorem read_coordinates_cases (hw : w ≠ "") :
    (∃ ps, List.Forall₂ HoldsPoint (tokens ';' w) ps ∧ coordinates.read w = .ok ps) ∨
      (∃ i t reason, FirstToken HoldsNoPoint (tokens ';' w) i t ∧ PointFault t reason ∧
        coordinates.read w = .error (.malformed i reason)) ∨
      (∀ t ∈ tokens ';' w, ¬ HoldsNoPoint t) ∧
        ∃ i, FirstToken (· = "") (tokens ';' w) i "" ∧
          coordinates.read w = .error (.malformed i .emptyCoordinate) := by
  rcases Sequence.readable_or_firstFailure (readPoint ',') (tokens ';' w) with
    hall | ⟨i, e, hfirst⟩
  · -- The first pass reads every token that is not empty, so that the second one decides.
    obtain ⟨xs, hxs⟩ : ∃ xs, Sequence.readFrom (readPoint ',') 0 (tokens ';' w) = .ok xs :=
      Sequence.exists_readFrom_iff.mpr hall
    have hreads := Sequence.readFrom_eq_ok_iff.mp hxs
    have hsecond : coordinates.read w = requirePresent 0 xs := by
      have hfirst : Sequence.read ';' (readPoint ',') w = .ok xs := (if_neg hw).trans hxs
      show Sequence.read ';' (readPoint ',') w >>= requirePresent 0 = _
      rw [hfirst]
      rfl
    cases hpresent : requirePresent 0 xs with
    | ok ps =>
        -- No position is absent, so that no token was empty.
        refine .inl ⟨ps, ?_, hsecond.trans hpresent⟩
        rw [requirePresent_eq_ok_iff.mp hpresent, List.forall₂_map_right_iff] at hreads
        refine hreads.imp fun t p hp => ?_
        cases hp with
        | present _ hread => exact readPoint_eq_ok_iff_holdsPoint.mp hread
    | error e =>
        obtain ⟨i, hi, rfl⟩ := firstToken_of_requirePresent hreads hpresent
        -- All tokens that are not empty were read, so that none of them is at fault.
        refine .inr (.inr ⟨?_, i, hi, hsecond.trans hpresent⟩)
        rintro t ht ⟨hne, hnone⟩
        obtain ⟨p, hp⟩ := hall t ht hne
        exact hnone ⟨p, readPoint_eq_ok_iff_holdsPoint.mp hp⟩
  · obtain ⟨t, reason, hfault⟩ := read_coordinates_of_firstFailure hfirst
    exact .inr (.inl ⟨i, t, reason, hfault⟩)

/-- Coordinates are read from a text that is empty, or whose tokens all hold a point. -/
theorem exists_read_coordinates_iff :
    (∃ ps, coordinates.read w = .ok ps) ↔
      w = "" ∨ ∀ t ∈ tokens ';' w, t ≠ "" ∧ ∃ p, HoldsPoint t p := by
  by_cases hw : w = ""
  · exact iff_of_true ⟨[], by rw [hw]; rfl⟩ (.inl hw)
  · rw [or_iff_right hw]
    rcases read_coordinates_cases hw with ⟨ps, hps, hread⟩ | ⟨i, t, _, hfirst, -, hread⟩ |
      ⟨-, i, hfirst, hread⟩
    · refine iff_of_true ⟨ps, hread⟩ fun t ht => ?_
      obtain ⟨i, hi, rfl⟩ := List.mem_iff_getElem.mp ht
      have hp := hps.get hi (hps.length_eq ▸ hi)
      exact ⟨hp.ne_empty, _, hp⟩
    · refine iff_of_false (by simp [hread]) fun hall => ?_
      exact hfirst.holds.2 (hall t (List.mem_of_getElem? hfirst.get)).2
    · refine iff_of_false (by simp [hread]) fun hall => ?_
      exact (hall "" (List.mem_of_getElem? hfirst.get)).1 rfl

end Param

/-! ### Queries with coordinates -/

namespace Params

variable {q : Query}

/-- No parameter is read before the coordinates. -/
theorem ofQuery_of_read_coordinates {e : Failure} (hw : q.get? "coordinates" = some w)
    (h : Param.coordinates.read w = .error e) : ofQuery q = .error e :=
  ofQuery_eq_error_iff.mpr
    ⟨[], .coordinates, Param.all.tail, w, rfl, ⟨hw, h⟩, fun _ hj => absurd hj List.not_mem_nil⟩

/-- The coordinates of a query are those of its text. -/
theorem readParam_coordinates {v : Option (List Point)} (hw : q.get? "coordinates" = some w) :
    readParam q .coordinates = .ok v ↔ ∃ ps, Param.coordinates.read w = .ok ps ∧ some ps = v := by
  rw [readParam, show q.get? Param.coordinates.wireName = some w from hw]
  exact map_eq_ok_iff

end Params

end RouteWire
