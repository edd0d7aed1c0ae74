import RouteWire.Proofs.Field.Write
import RouteWire.Proofs.Sequence.Failure
import RouteWire.Sequence.Read

/-!
# Lists of criteria

A criterion has one name and a name stands for one criterion, so that nothing is lost in either
direction when a list of criteria goes through its text:

- `writeCriteria_of_readCriteria`: criteria that were read are written as the text they come from,
  whatever the delimiter is.
- `exists_readCriteria_writeCriteria`: criteria of the catalogue come back from their text, if no
  name in it holds the delimiter.

`readCriteria_writeCriteria` puts them together with what they rest on, the names of the catalogue.
-/

set_option autoImplicit false

namespace RouteWire

open Sequence (Written Carried)

variable {c : Category} {d : Char} {vs : Sequence (Criterion c)} {ts : Sequence String}

/-- All criteria have a name if and only if each of them is in the catalogue. -/
theorem exists_written_names_iff :
    (∃ ts, List.Forall₂ (Written fun v t => some <$> v.name = .ok t) vs ts) ↔
      ∀ v, some v ∈ vs → v.Valid := by
  rw [Sequence.exists_written_iff]
  refine forall₂_congr fun v _ => ?_
  rw [← Criterion.exists_name_iff_valid]
  simp [map_eq_ok_iff]

/-! ### From a text -/

/-- Criteria that were read are written as the text that they were read from. -/
theorem writeCriteria_of_readCriteria {w : Option String}
    {vs : Option (Sequence (Criterion c))} (h : readCriteria c d w = .ok vs) :
    writeCriteria d vs = .ok w := by
  have hrel := optionMapM_eq_ok_iff.mp h
  cases hrel with
  | none => rfl
  | @some text vs hread =>
      have hvalid : ∀ v, some v ∈ vs → v.Valid := by
        intro v hv
        obtain ⟨s, -, -, hs⟩ := (Sequence.mem_iff_of_read hread).mp hv
        exact Criterion.exists_name_iff_valid.mp ⟨s, Criterion.ofName_eq_ok_iff.mp hs⟩
      obtain ⟨ts, hts⟩ := exists_written_names_iff.mpr hvalid
      -- Each criterion is written as the name that it was read from.
      have htext := Sequence.write_texts_of_read hread hts fun s v t hs ht => by
        rw [Criterion.ofName_eq_ok_iff.mp hs] at ht
        exact (Except.ok.inj ht).symm
      exact writeCriteria_eq_ok_iff.mpr ⟨ts, hts, congrArg some htext⟩

/-! ### To a text -/

/-- Names that do not hold the delimiter come back as their criteria. -/
theorem carried_of_written_names
    (h : List.Forall₂ (Written fun v t => some <$> v.name = .ok t) vs ts)
    (hfree : ∀ v s, some v ∈ vs → v.name = .ok s → d ∉ s.toList) :
    List.Forall₂ (Option.Rel (Carried d (Criterion.ofName c))) ts vs := by
  induction h with
  | nil => exact .nil
  | cons hfirst hrest ih =>
      refine .cons ?_ (ih fun v s hv => hfree v s (List.mem_cons_of_mem _ hv))
      cases hfirst with
      | absent => exact .none
      | present hname =>
          obtain ⟨s, hs, rfl⟩ := map_eq_ok_iff.mp hname
          have hplain := Category.plain_of_mem_names (Criterion.mem_names_of_name hs)
          have hback := Criterion.ofName_eq_ok_iff.mpr hs
          exact .some ⟨hplain.1, hfree _ s List.mem_cons_self hs, hback⟩

/-- Criteria in the catalogue are written, and come back if no name holds the delimiter. -/
theorem exists_readCriteria_writeCriteria (hvalid : ∀ v, some v ∈ vs → v.Valid)
    (hfree : ∀ v s, some v ∈ vs → v.name = .ok s → d ∉ s.toList) :
    ∃ text, writeCriteria d (some vs) = .ok (some text) ∧
      readCriteria c d (some text) = .ok (some vs.collapsed) := by
  obtain ⟨ts, hts⟩ := exists_written_names_iff.mpr hvalid
  refine ⟨_, writeCriteria_eq_ok_iff.mpr ⟨ts, hts, rfl⟩, ?_⟩
  show some <$> Sequence.read d (Criterion.ofName c) _ = _
  rw [Sequence.read_write_texts (carried_of_written_names hts hfree)]
  rfl

/-! ### Names and lists -/

/-- In every category a name is read as the one criterion of the catalogue that is written so, and
a name is accepted if there is one. Hence a text of names that is read is written again as it was,
and criteria of the catalogue come back from their text, except that one absent position on its own
comes back as no position. This asks of the delimiter that it is in none of the names, and neither
of the two delimiters of the wire is in any. -/
theorem readCriteria_writeCriteria (c : Category) :
    (∀ s v, Criterion.ofName c s = .ok v ↔ v.Valid ∧ v.name = .ok s) ∧
      (∀ s (v v' : Criterion c), v.name = .ok s → v'.name = .ok s → v = v') ∧
      (∀ s, c.accepts s = true ↔ ∃ v : Criterion c, v.Valid ∧ v.name = .ok s) ∧
      (∀ d w vs, readCriteria c d w = .ok vs → writeCriteria d vs = .ok w) ∧
      (∀ d (vs : Sequence (Criterion c)), (∀ v, some v ∈ vs → v.Valid) →
        (∀ v s, some v ∈ vs → v.name = .ok s → d ∉ s.toList) →
        ∃ text, writeCriteria d (some vs) = .ok (some text) ∧
          (vs ≠ [none] → readCriteria c d (some text) = .ok (some vs)) ∧
          (vs = [none] → readCriteria c d (some text) = .ok (some []))) ∧
      ∀ s (v : Criterion c), v.name = .ok s → ',' ∉ s.toList ∧ ';' ∉ s.toList := by
  -- What has a name is in the catalogue, so that this need not be said.
  have hvalid : ∀ s (v : Criterion c), v.Valid ∧ v.name = .ok s ↔ v.name = .ok s := by
    intro s v
    exact and_iff_right_of_imp fun h => Criterion.exists_name_iff_valid.mp ⟨s, h⟩
  simp only [hvalid]
  refine ⟨fun s v => Criterion.ofName_eq_ok_iff, fun s v v' => Criterion.name_injective,
    fun s => ?_, fun d w vs => writeCriteria_of_readCriteria, fun d vs hall hfree => ?_,
    fun s v h => ?_⟩
  · rw [Criterion.accepts_iff]
    simp only [Criterion.ofName_eq_ok_iff]
  · obtain ⟨text, hwrite, hread⟩ := exists_readCriteria_writeCriteria hall hfree
    refine ⟨text, hwrite, fun hne => ?_, fun hsingle => ?_⟩
    · rwa [Sequence.collapsed_of_ne hne] at hread
    · rwa [hsingle] at hread
  · have hplain := Category.plain_of_mem_names (Criterion.mem_names_of_name h)
    exact ⟨hplain.2.2, hplain.2.1⟩

/-- The last and the first amenity between absent positions, and a text in which the delimiter is a
character that other names of the category hold. -/
theorem readCriteria_writeCriteria_amenities :
    let vs : Sequence (Criterion .amenity) := [none, some ⟨17⟩, none, some ⟨0⟩, none]
    (∀ v, some v ∈ vs → v.Valid) ∧
      (∀ v s, some v ∈ vs → v.name = .ok s → ';' ∉ s.toList) ∧
      writeCriteria ';' (some vs) = .ok (some ";FAX;;gas_station;") ∧
      readCriteria .amenity ';' (some ";FAX;;gas_station;") = .ok (some vs) ∧
      readCriteria .amenity 'o' (some "oATMoo") =
        .ok (some [none, some ⟨6⟩, none, none]) ∧
      writeCriteria 'o' (some [none, some (⟨6⟩ : Criterion .amenity), none, none]) =
        .ok (some "oATMoo") := by
  intro vs
  obtain ⟨-, -, -, hagain, hback, hplain⟩ := readCriteria_writeCriteria .amenity
  have hvalid : ∀ v, some v ∈ vs → v.Valid := by
    intro v hv
    rcases (by simpa [vs] using hv : v = ⟨17⟩ ∨ v = ⟨0⟩) with rfl | rfl
    · decide
    · decide
  have hfree : ∀ v s, some v ∈ vs → v.name = .ok s → ';' ∉ s.toList := by
    intro v s _ hs
    exact (hplain s v hs).2
  have hwrite : writeCriteria ';' (some vs) = .ok (some ";FAX;;gas_station;") := by
    decide +kernel
  have hread : readCriteria .amenity 'o' (some "oATMoo") =
      .ok (some [none, some ⟨6⟩, none, none]) := by decide +kernel
  obtain ⟨text, htext, hkept, -⟩ := hback ';' vs hvalid hfree
  obtain rfl : text = ";FAX;;gas_station;" := by
    rw [hwrite] at htext
    cases htext
    rfl
  exact ⟨hvalid, hfree, hwrite, hkept (by decide), hread, hagain _ _ _ hread⟩

end RouteWire
