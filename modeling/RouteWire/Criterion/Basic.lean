import RouteWire.Failure

/-!
# Criteria

A criterion is a value of a category, held by its ordinal. An ordinal need not be in the
catalogue: such a criterion can be built, but it has no wire name and cannot be written. Every
criterion that is read from a name is in the catalogue (`valid_of_ofName?`).
-/

set_option autoImplicit false

namespace RouteWire

/-- A value of category `c`, by its ordinal in the catalogue. -/
structure Criterion (c : Category) where
  ordinal : Int
  deriving DecidableEq

namespace Criterion

variable {c : Category}

/-- The wire name of a criterion in the catalogue. -/
def name? (v : Criterion c) : Option String :=
  if 0 ≤ v.ordinal then c.names[v.ordinal.toNat]? else none

/-- The criterion is one of the values of its category. -/
def Valid (v : Criterion c) : Prop :=
  0 ≤ v.ordinal ∧ v.ordinal < c.enumerators.length

instance (v : Criterion c) : Decidable v.Valid :=
  inferInstanceAs (Decidable (_ ∧ _))

/-- The criteria of the catalogue, in its order. -/
def all (c : Category) : List (Criterion c) :=
  c.catalogue.map fun i : Nat => ⟨(i : Int)⟩

/-- The criterion of a wire name: the first one in the catalogue that is written so. -/
def ofName? (c : Category) (name : String) : Option (Criterion c) :=
  (all c).find? fun v => v.name? = some name

/-- Writes a criterion; one outside its catalogue is a bad argument. -/
def name (v : Criterion c) : Except Failure String :=
  v.name?.elim (.error (.badArgument (.outsideCatalogue c))) .ok

/-- Reads a criterion; a name that is not in the catalogue is a bad argument. -/
def ofName (c : Category) (name : String) : Except Failure (Criterion c) :=
  (ofName? c name).elim (.error (.badArgument (.unknownCriterion c name))) .ok

/-- The catalogue has all values of the category, and no other criteria. -/
theorem mem_all_iff {v : Criterion c} : v ∈ all c ↔ v.Valid := by
  unfold all Valid
  rw [List.mem_map]
  constructor
  · rintro ⟨i, hi, rfl⟩
    exact ⟨Int.natCast_nonneg i, Int.ofNat_lt.mpr (Category.mem_catalogue_iff.mp hi)⟩
  · intro ⟨hnonneg, hlt⟩
    have hmem : v.ordinal.toNat ∈ c.catalogue := Category.mem_catalogue_iff.mpr (by omega)
    refine ⟨v.ordinal.toNat, hmem, ?_⟩
    cases v
    exact congrArg Criterion.mk (Int.toNat_of_nonneg hnonneg)

/-- A criterion that is read from a name is in the catalogue. -/
theorem valid_of_ofName? {name : String} {v : Criterion c} (h : ofName? c name = some v) :
    v.Valid :=
  mem_all_iff.mp (List.mem_of_find?_eq_some h)

end Criterion

/-- Whether the category has a value of this wire name. -/
def Category.accepts (c : Category) (name : String) : Bool :=
  (Criterion.ofName? c name).isSome

end RouteWire
