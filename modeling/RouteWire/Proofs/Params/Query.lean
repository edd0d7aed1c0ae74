import Mathlib.Data.List.Nodup
import RouteWire.Params.Query
import RouteWire.Proofs.Outcome

/-!
# A query, parameter by parameter

Reading and writing a query go through the parameters in order. A call that succeeds does not show
that order any more: `ofQuery_eq_ok_iff` and `toQuery_eq_ok_iff` say what it gives in terms of each
parameter alone.

`Query.ofTexts` is the query that has a given text for each parameter; every query that is written
is one. Its names are those of the parameters that have a text (`mem_names_ofTexts`).
-/

set_option autoImplicit false

namespace RouteWire

/-- What holds for the parameters in order holds for every parameter. -/
theorem Param.forall_mem_all_iff {P : Param → Prop} : (∀ k ∈ Param.all, P k) ↔ ∀ k, P k :=
  ⟨fun h k => h k (Param.mem_all k), fun h k _ => h k⟩

/-! ### Queries as texts of parameters -/

/-- If no key stands twice, the value of a key is the one that stands beside it. -/
theorem lookup_eq_some_iff_mem {β : Type} {entries : List (String × β)}
    (h : (entries.map Prod.fst).Nodup) {name : String} {v : β} :
    entries.lookup name = some v ↔ (name, v) ∈ entries := by
  rw [List.lookup_eq_some_iff]
  constructor
  · rintro ⟨before, after, rfl, -⟩
    exact List.mem_append_right before List.mem_cons_self
  · intro hmem
    obtain ⟨before, after, rfl⟩ := List.append_of_mem hmem
    refine ⟨before, after, rfl, fun e he => bne_iff_ne.mpr ?_⟩
    rw [List.map_append, List.nodup_append] at h
    exact (h.2.2 e.1 (List.mem_map_of_mem he) name (by simp)).symm

namespace Query

/-- The names of a query are those that have a text. -/
theorem mem_names_iff {q : Query} {name : String} :
    name ∈ q.names ↔ (q.get? name).isSome = true := by
  rw [names, get?, List.lookup_isSome_iff, List.mem_map]
  simp only [beq_iff_eq, @eq_comm _ name]

/-- The text of a name is the one that stands beside it, if no name stands twice. -/
theorem get?_eq_some_iff {q : Query} (h : q.names.Nodup) {name w : String} :
    q.get? name = some w ↔ (name, w) ∈ q.entries :=
  lookup_eq_some_iff_mem h

/-- The query that has, for each parameter in order, its text if there is one. -/
def ofTexts (text : Param → Option String) : Query :=
  ⟨Param.all.filterMap fun k => (text k).map (k.wireName, ·)⟩

/-- The entries that are written are the texts that there are. -/
theorem mk_reduceOption_entries (text : Param → Option String) :
    ⟨(Param.all.map fun k => (text k).map (k.wireName, ·)).reduceOption⟩ = ofTexts text :=
  congrArg Query.mk List.filterMap_map

/-- Names differ, so that no text hides that of a later parameter. -/
theorem lookup_texts (text : Param → Option String) (ks : List Param) (k : Param) :
    (ks.filterMap fun j => (text j).map (j.wireName, ·)).lookup k.wireName =
      if k ∈ ks then text k else none := by
  induction ks with
  | nil => rfl
  | cons j ks ih =>
      rw [List.filterMap_cons]
      by_cases hname : k = j
      · subst hname
        rw [if_pos List.mem_cons_self]
        cases htext : text k with
        | none => simp [ih, htext]
        | some w => simp
      · have hne : (k.wireName == j.wireName) = false :=
          beq_eq_false_iff_ne.mpr fun h => hname (Param.wireName_injective h)
        have hmem : k ∈ j :: ks ↔ k ∈ ks := by simp [hname]
        cases text j with
        | none => simp only [ih, hmem, Option.map_none]
        | some w => simp only [ih, hmem, Option.map_some, List.lookup_cons, hne]

/-- The query has the text of each parameter. -/
@[simp] theorem get?_ofTexts (text : Param → Option String) (k : Param) :
    (ofTexts text).get? k.wireName = text k := by
  rw [get?, ofTexts, lookup_texts, if_pos (Param.mem_all k)]

/-- The names of the query are the names of the parameters that have a text. -/
theorem mem_names_ofTexts {text : Param → Option String} {name : String} :
    name ∈ (ofTexts text).names ↔ ∃ k : Param, k.wireName = name ∧ (text k).isSome = true := by
  constructor
  · intro h
    obtain ⟨e, he, rfl⟩ := List.mem_map.mp h
    obtain ⟨k, -, hk⟩ := List.mem_filterMap.mp he
    obtain ⟨w, hw, rfl⟩ := Option.map_eq_some_iff.mp hk
    exact ⟨k, rfl, Option.isSome_of_eq_some hw⟩
  · rintro ⟨k, rfl, hk⟩
    rw [mem_names_iff, get?_ofTexts]
    exact hk

/-- No name stands twice. -/
theorem nodup_names_ofTexts (text : Param → Option String) : (ofTexts text).names.Nodup := by
  rw [names, ofTexts, List.map_filterMap]
  refine List.Nodup.filterMap (fun j k name hj hk => ?_) Param.nodup_all
  simp only [Option.map_map, Option.mem_def, Option.map_eq_some_iff] at hj hk
  obtain ⟨_, -, hj⟩ := hj
  obtain ⟨_, -, hk⟩ := hk
  exact Param.wireName_injective (hj.trans hk.symm)

end Query

namespace Params

variable {p : Params} {q : Query}

/-! ### Reading -/

/-- Reading some parameters in turn sets these and leaves all others as they were. -/
theorem foldlM_set_eq_ok_iff {ks : List Param} (hks : ks.Nodup) {p₀ : Params} :
    ks.foldlM (fun p k => p.set k <$> readParam q k) p₀ = .ok p ↔
      (∀ k ∈ ks, readParam q k = .ok (p.get k)) ∧ ∀ k ∉ ks, p.get k = p₀.get k := by
  induction ks generalizing p₀ with
  | nil =>
      rw [List.foldlM_nil, pure_eq_ok_iff]
      constructor
      · rintro rfl
        simp
      · rintro ⟨-, h⟩
        exact (ext_get fun k => h k List.not_mem_nil).symm
  | cons k ks ih =>
      obtain ⟨hk, hks⟩ := List.nodup_cons.mp hks
      rw [List.foldlM_cons, bind_eq_ok_iff]
      simp only [map_eq_ok_iff, ih hks]
      constructor
      · rintro ⟨_, ⟨v, hv, rfl⟩, hread, hrest⟩
        -- The later parameters leave this one as it was read.
        have hget : p.get k = v := by rw [hrest k hk, get_set]
        refine ⟨List.forall_mem_cons.mpr ⟨hget ▸ hv, hread⟩, fun j hj => ?_⟩
        obtain ⟨hjk, hj⟩ := not_or.mp (mt List.mem_cons.mpr hj)
        rw [hrest j hj, get_set_of_ne _ _ hjk]
      · rintro ⟨hread, hrest⟩
        obtain ⟨hfirst, hread⟩ := List.forall_mem_cons.mp hread
        refine ⟨_, ⟨_, hfirst, rfl⟩, hread, fun j hj => ?_⟩
        by_cases hjk : j = k
        · rw [hjk, get_set]
        · rw [get_set_of_ne _ _ hjk]
          exact hrest j (by simp [hjk, hj])

/-- A query reads as the parameters that its texts read as one by one. -/
theorem ofQuery_eq_ok_iff : ofQuery q = .ok p ↔ ∀ k, readParam q k = .ok (p.get k) := by
  rw [ofQuery, foldlM_set_eq_ok_iff Param.nodup_all]
  constructor
  · rintro ⟨h, -⟩ k
    exact h k (Param.mem_all k)
  · intro h
    exact ⟨fun k _ => h k, fun k hk => absurd (Param.mem_all k) hk⟩

/-! ### Writing -/

/-- The text of a parameter, if it is set and written as one. -/
def text (p : Params) (k : Param) : Except Refusal (Option String) :=
  match p.get k with
  | none => .ok none
  | some v => k.write v

/-- The text of a parameter that is set. -/
theorem text_of_get {k : Param} {v : k.Value} (h : p.get k = some v) : p.text k = k.write v := by
  rw [text, h]

/-- The entry of a parameter is its text under its name. -/
theorem entry_eq (p : Params) (k : Param) :
    p.entry k = Option.map (k.wireName, ·) <$> p.text k := by
  unfold entry text
  cases p.get k <;> rfl

/-- The entry of a parameter that has a text, or none. -/
theorem entry_eq_of_text {k : Param} {t : Option String} (h : p.text k = .ok t) :
    p.entry k = .ok (t.map (k.wireName, ·)) := by
  rw [entry_eq, h]
  rfl

/-- Parameters are written as the query of their texts. -/
theorem toQuery_eq_ok_iff :
    p.toQuery = .ok q ↔
      ∃ text : Param → Option String, (∀ k, p.text k = .ok (text k)) ∧ Query.ofTexts text = q := by
  rw [toQuery, bind_eq_ok_iff]
  simp only [pure_eq_ok_iff]
  constructor
  · rintro ⟨entries, hentries, rfl⟩
    have hsome : ∀ k, ∃ t, p.text k = .ok t := by
      intro k
      obtain ⟨e, he⟩ := exists_of_mapM hentries k (Param.mem_all k)
      rw [entry_eq] at he
      obtain ⟨t, ht, -⟩ := map_eq_ok_iff.mp he
      exact ⟨t, ht⟩
    choose text htext using hsome
    refine ⟨text, htext, ?_⟩
    have hmap : Param.all.mapM p.entry = .ok _ :=
      mapM_eq_ok_map fun k _ => entry_eq_of_text (htext k)
    rw [hentries] at hmap
    cases hmap
    exact (Query.mk_reduceOption_entries text).symm
  · rintro ⟨text, htext, rfl⟩
    exact ⟨_, mapM_eq_ok_map fun k _ => entry_eq_of_text (htext k),
      Query.mk_reduceOption_entries text⟩

/-- Parameters fail to be written as the first of them that does. -/
theorem failure?_toQuery (p : Params) :
    failure? p.toQuery = Param.all.findSome? fun k => failure? (p.text k) := by
  have hentries : failure? p.toQuery = failure? (Param.all.mapM p.entry) := by
    unfold toQuery
    cases Param.all.mapM p.entry <;> rfl
  rw [hentries, failure?_mapM]
  simp only [entry_eq, failure?_map]

/-- Parameters can be written if and only if each of them has a text, or has none to be written. -/
theorem exists_toQuery_iff_text : (∃ q, p.toQuery = .ok q) ↔ ∀ k, ∃ t, p.text k = .ok t := by
  rw [← failure?_eq_none_iff, failure?_toQuery, List.findSome?_eq_none_iff]
  simp only [failure?_eq_none_iff]
  exact Param.forall_mem_all_iff

/-- Parameters that cannot be written hold a value that cannot be. -/
theorem exists_of_toQuery_eq_error {refusal : Refusal} (h : p.toQuery = .error refusal) :
    ∃ k v, p.get k = some v ∧ k.write v = .error refusal := by
  rw [toQuery, bind_eq_error_iff] at h
  rcases h with hentries | ⟨entries, -, hpure⟩
  · obtain ⟨k, -, hentry⟩ := exists_of_mapM_eq_error hentries
    rw [entry_eq, map_eq_error_iff, text] at hentry
    cases hget : p.get k with
    | none =>
        rw [hget] at hentry
        cases hentry
    | some v =>
        rw [hget] at hentry
        exact ⟨k, v, hget, hentry⟩
  · cases hpure

end Params

end RouteWire
