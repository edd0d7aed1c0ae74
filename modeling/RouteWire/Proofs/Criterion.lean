import RouteWire.Criterion.Basic
import RouteWire.Proofs.Outcome

/-!
# Criteria survive their names

Reading a name and writing a criterion are inverse to each other (`ofName_eq_ok_iff`), because no
category lists a name twice, and each of its values has a name (`exists_name_iff_valid`) and is in
its catalogue. No name is empty or holds a delimiter (`plain_of_mem_names`), so that a sequence of
criteria can be put on the wire.
-/

set_option autoImplicit false

namespace RouteWire

namespace Criterion

variable {c : Category} {v : Criterion c} {t : String}

/-- The name of a criterion is the one that its ordinal counts to. -/
theorem name_eq_ok_iff : v.name = .ok t ↔ 0 ≤ v.ordinal ∧ c.names[v.ordinal.toNat]? = some t := by
  unfold name name?
  by_cases h : 0 ≤ v.ordinal
  · rw [if_pos h]
    cases c.names[v.ordinal.toNat]? <;> simp [h]
  · rw [if_neg h]
    simp [h]

/-- The criteria that have a name are the values of the category. -/
theorem exists_name_iff_valid : (∃ t, v.name = .ok t) ↔ v.Valid := by
  have hlength := c.length_names
  constructor
  · intro ⟨t, h⟩
    obtain ⟨hnonneg, hname⟩ := name_eq_ok_iff.mp h
    obtain ⟨hlt, -⟩ := List.getElem?_eq_some_iff.mp hname
    exact ⟨hnonneg, by omega⟩
  · intro ⟨hnonneg, hlt⟩
    exact ⟨_, name_eq_ok_iff.mpr ⟨hnonneg, List.getElem?_eq_getElem (by omega)⟩⟩

/-- Only one criterion is written as the name. -/
theorem name_injective {v' : Criterion c} (h : v.name = .ok t) (h' : v'.name = .ok t) : v = v' := by
  obtain ⟨hnonneg, hname⟩ := name_eq_ok_iff.mp h
  obtain ⟨hnonneg', hname'⟩ := name_eq_ok_iff.mp h'
  obtain ⟨hi, hget⟩ := List.getElem?_eq_some_iff.mp hname
  obtain ⟨hi', hget'⟩ := List.getElem?_eq_some_iff.mp hname'
  have hsame := (List.getElem_inj c.nodup_names).mp (hget.trans hget'.symm)
  cases v
  cases v'
  exact congrArg Criterion.mk (by simp only at *; omega)

/-- The name of a criterion, found by search or by lookup. -/
theorem name?_eq_some_iff : v.name? = some t ↔ v.name = .ok t := by
  unfold name
  cases v.name? <;> simp

/-- The criterion of a name, found by search or by lookup. -/
theorem ofName?_eq_some_iff : ofName? c t = some v ↔ ofName c t = .ok v := by
  unfold ofName
  cases ofName? c t <;> simp

/-- The criterion that is found for a name has that name. -/
theorem name_of_ofName? (h : ofName? c t = some v) : v.name = .ok t := by
  have hname := List.find?_some h
  rw [decide_eq_true_eq] at hname
  exact name?_eq_some_iff.mp hname

/-- A criterion is read from its name, and from no other text: the first criterion of the catalogue
with the name is the only one. -/
theorem ofName_eq_ok_iff : ofName c t = .ok v ↔ v.name = .ok t := by
  rw [← ofName?_eq_some_iff]
  constructor
  · exact name_of_ofName?
  · intro h
    have hmem : v ∈ all c := mem_all_iff.mpr (exists_name_iff_valid.mp ⟨t, h⟩)
    cases hfound : ofName? c t with
    | none =>
        have hnot := List.find?_eq_none.mp hfound v hmem
        exact absurd (decide_eq_true (name?_eq_some_iff.mpr h)) hnot
    | some v' => rw [name_injective h (name_of_ofName? hfound)]

/-- The names that are accepted are those that can be read. -/
theorem accepts_iff : c.accepts t = true ↔ ∃ v, ofName c t = .ok v := by
  rw [Category.accepts, Option.isSome_iff_exists]
  simp only [ofName?_eq_some_iff]

/-- The name of a criterion is a name of its category. -/
theorem mem_names_of_name (h : v.name = .ok t) : t ∈ c.names :=
  List.mem_of_getElem? (name_eq_ok_iff.mp h).2

/-- What a category accepts are its names. -/
theorem accepts_iff_mem_names : c.accepts t = true ↔ t ∈ c.names := by
  rw [accepts_iff]
  simp only [ofName_eq_ok_iff]
  constructor
  · intro ⟨v, h⟩
    exact mem_names_of_name h
  · intro h
    obtain ⟨i, hi, hget⟩ := List.mem_iff_getElem.mp h
    refine ⟨⟨i⟩, name_eq_ok_iff.mpr ⟨Int.natCast_nonneg i, ?_⟩⟩
    exact List.getElem?_eq_some_iff.mpr ⟨hi, hget⟩

end Criterion

/-- A name is not empty and holds neither delimiter. -/
theorem Category.plain_of_mem_names {c : Category} {t : String} (h : t ∈ c.names) :
    t ≠ "" ∧ ';' ∉ t.toList ∧ ',' ∉ t.toList := by
  have hall : ∀ t ∈ c.names, t ≠ "" ∧ ';' ∉ t.toList ∧ ',' ∉ t.toList := by
    cases c <;> decide +kernel
  exact hall t h

end RouteWire
