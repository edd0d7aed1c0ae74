import RouteWire.Params.Load
import RouteWire.Proofs.Params.Document

/-!
# The parameters of a JSON text

The members of an object are put into a query one after the other. A null leaves the query as it is,
and a text takes the place of what its name had before (`Query.get?_put`), so that of the texts of a
name the last one counts (`Query.get?_ofJson`) and each name is counted once
(`Query.nodup_names_ofJson`).

A text without a query sends nothing (`Params.load_of_error`). A document and the JSON text of it
are read alike (`Params.load_of_document`).
-/

set_option autoImplicit false

namespace RouteWire

namespace JsonMember

/-- The text that a member gives to a name. -/
def textOf (name : String) : JsonMember → Option String
  | text name' w => if name' = name then some w else none
  | _ => none

/-- A null or a text, which are the members that parameters may have. -/
inductive Good : JsonMember → Prop where
  | null (name : String) : Good (null name)
  | text (name w : String) : Good (text name w)

/-- A member of a document, as a scanner comes upon it. -/
def ofEntry : String × Option String → JsonMember
  | (name, none) => null name
  | (name, some w) => text name w

/-- The members of a document are good. -/
theorem good_ofEntry (e : String × Option String) : (ofEntry e).Good := by
  obtain ⟨name, _ | w⟩ := e
  · exact .null name
  · exact .text name w

/-- The text of a name is that of a member of the document with this name. -/
theorem textOf_ofEntry_eq_some_iff {name w : String} {e : String × Option String} :
    (ofEntry e).textOf name = some w ↔ (name, some w) = e := by
  obtain ⟨name', _ | w'⟩ := e
  · simp [ofEntry, textOf]
  · simp [ofEntry, textOf, eq_comm]

end JsonMember

namespace Query

variable {q q' : Query} {members : List JsonMember} {name w : String}

/-! ### One member -/

/-- Without the entries of one name, that name has no text and all others have what they had. -/
theorem lookup_filter_ne (entries : List (String × String)) (name name' : String) :
    (entries.filter (·.1 ≠ name)).lookup name' =
      if name = name' then none else entries.lookup name' := by
  induction entries with
  | nil => simp
  | cons e entries ih =>
      -- The first entry is dropped, or it is kept and may hide those behind it.
      by_cases hname : e.1 = name
      · rw [List.filter_cons_of_neg (by simp [hname]), ih, List.lookup_cons, hname]
        by_cases hsame : name = name'
        · simp [hsame]
        · simp [hsame, beq_eq_false_iff_ne.mpr (Ne.symm hsame)]
      · rw [List.filter_cons_of_pos (by simp [hname]), List.lookup_cons, List.lookup_cons, ih]
        by_cases hsame : name = name'
        · simp [hsame, beq_eq_false_iff_ne.mpr (hsame ▸ Ne.symm hname)]
        · simp [hsame]

/-- A name has the text that it is given, and all other names have what they had. -/
theorem get?_put (q : Query) (name w name' : String) :
    (q.put name w).get? name' = if name = name' then some w else q.get? name' := by
  rw [get?, put, List.lookup_cons, lookup_filter_ne]
  by_cases hsame : name = name'
  · simp [hsame]
  · simp [hsame, beq_eq_false_iff_ne.mpr (Ne.symm hsame), get?]

/-- No name stands twice after a name is given a text. -/
theorem nodup_names_put (h : q.names.Nodup) (name w : String) : (q.put name w).names.Nodup := by
  refine List.nodup_cons.mpr ⟨fun hmem => ?_, h.sublist (List.filter_sublist.map Prod.fst)⟩
  obtain ⟨e, he, hname⟩ := List.mem_map.mp hmem
  exact of_decide_eq_true (List.mem_filter.mp he).2 hname

/-- A good member gives its text to its name, and any other is an error. -/
theorem putMember_eq_ok {m : JsonMember} (h : q.putMember m = .ok q') :
    m.Good ∧ (q.names.Nodup → q'.names.Nodup) ∧
      ∀ name, q'.get? name = (m.textOf name).or (q.get? name) := by
  cases m with
  | null name =>
      cases h
      exact ⟨.null name, id, fun _ => rfl⟩
  | text name w =>
      cases h
      refine ⟨.text name w, fun hq => nodup_names_put hq name w, fun name' => ?_⟩
      rw [get?_put, JsonMember.textOf]
      split <;> rfl
  | _ => cases h

/-! ### All members -/

/-- Of the texts of a name the last one counts. -/
theorem foldlM_putMember_eq_ok (h : members.foldlM putMember q = .ok q') :
    (∀ m ∈ members, m.Good) ∧ (q.names.Nodup → q'.names.Nodup) ∧
      ∀ name, q'.get? name = (members.reverse.findSome? (·.textOf name)).or (q.get? name) := by
  induction members generalizing q with
  | nil =>
      cases h
      exact ⟨by simp, id, fun _ => rfl⟩
  | cons m members ih =>
      rw [List.foldlM_cons, bind_eq_ok_iff] at h
      obtain ⟨q₁, hmember, hrest⟩ := h
      obtain ⟨hgood, hnodup, hget⟩ := putMember_eq_ok hmember
      obtain ⟨hgoods, hnodups, hgets⟩ := ih hrest
      refine ⟨List.forall_mem_cons.mpr ⟨hgood, hgoods⟩, hnodups ∘ hnodup, fun name => ?_⟩
      -- Later members come first in the reversed list, and so they hide this one.
      rw [hgets, hget, List.reverse_cons, List.findSome?_append, List.findSome?_singleton,
        Option.or_assoc]

/-- Good members can be put into a query. -/
theorem exists_foldlM_putMember (hgood : ∀ m ∈ members, m.Good) (q : Query) :
    ∃ q', members.foldlM putMember q = .ok q' := by
  induction members generalizing q with
  | nil => exact ⟨q, rfl⟩
  | cons m members ih =>
      obtain ⟨hm, hrest⟩ := List.forall_mem_cons.mp hgood
      cases hm with
      | null name => exact ih hrest q
      | text name w => exact ih hrest (q.put name w)

variable {scan : JsonScanner} {raw : String}

/-- What the query of a text is made of. -/
theorem ofJson_eq_ok_iff : ofJson scan raw = .ok q ↔
    raw ≠ "" ∧ ∃ members, scan raw = .object members ∧ members.foldlM putMember {} = .ok q := by
  unfold ofJson
  by_cases hraw : raw = ""
  · simp [hraw]
  · rw [if_neg hraw]
    cases scan raw <;> simp [hraw]

/-- An object has a query if and only if its members are nulls and texts. -/
theorem exists_ofJson_iff (hscan : scan raw = .object members) :
    (∃ q, ofJson scan raw = .ok q) ↔ raw ≠ "" ∧ ∀ m ∈ members, m.Good := by
  constructor
  · intro ⟨q, hq⟩
    obtain ⟨hraw, members', hscan', hmembers⟩ := ofJson_eq_ok_iff.mp hq
    rw [hscan] at hscan'
    cases hscan'
    exact ⟨hraw, (foldlM_putMember_eq_ok hmembers).1⟩
  · intro ⟨hraw, hgood⟩
    obtain ⟨q, hmembers⟩ := exists_foldlM_putMember hgood {}
    exact ⟨q, ofJson_eq_ok_iff.mpr ⟨hraw, members, hscan, hmembers⟩⟩

/-- No name stands twice in the query of a text, so that the message that it was loaded counts its
names. -/
theorem nodup_names_ofJson (h : ofJson scan raw = .ok q) : q.names.Nodup := by
  obtain ⟨-, members, -, hmembers⟩ := ofJson_eq_ok_iff.mp h
  exact (foldlM_putMember_eq_ok hmembers).2.1 List.nodup_nil

/-- The query of an object of nulls and texts has, under each name, the last text of that name. -/
theorem get?_ofJson (hscan : scan raw = .object members) (h : ofJson scan raw = .ok q)
    (name : String) : q.get? name = members.reverse.findSome? (·.textOf name) := by
  obtain ⟨-, members', hscan', hmembers⟩ := ofJson_eq_ok_iff.mp h
  rw [hscan] at hscan'
  cases hscan'
  rw [(foldlM_putMember_eq_ok hmembers).2.2 name]
  exact Option.or_none

end Query

namespace Params

open Query (ofJson)

variable {scan : JsonScanner} {raw : String}

/-- Nothing is sent about a text that cannot be taken apart. -/
theorem load_of_error {f : Failure} (h : ofJson scan raw = .error f) :
    load scan raw = .fail f := by
  rw [load, h]
  rfl

/-- The parameters of a text that can be taken apart are counted, and then read. -/
theorem load_of_ok {q : Query} (h : ofJson scan raw = .ok q) :
    load scan raw = .log q.loaded (silently (ofQuery q)) := by
  rw [load, h]
  rfl

/-- Since no name stands twice in a document, the last text of a name is the only one. -/
theorem findSome?_textOf_eq_some_iff {d : Document} (hd : d.names.Nodup) {name w : String} :
    (d.members.map JsonMember.ofEntry).reverse.findSome? (·.textOf name) = some w ↔
      (name, some w) ∈ d.members := by
  have hmem : ∀ w, (d.members.map JsonMember.ofEntry).reverse.findSome? (·.textOf name) = some w →
      (name, some w) ∈ d.members := by
    intro w hlast
    obtain ⟨m, hm, hw⟩ := List.exists_of_findSome?_eq_some hlast
    obtain ⟨e, he, rfl⟩ := List.mem_map.mp (List.mem_reverse.mp hm)
    rwa [JsonMember.textOf_ofEntry_eq_some_iff.mp hw]
  refine ⟨hmem w, fun hw => ?_⟩
  have hsome : ((d.members.map JsonMember.ofEntry).reverse.findSome? (·.textOf name)).isSome :=
    List.findSome?_isSome_iff.mpr ⟨JsonMember.ofEntry (name, some w),
      List.mem_reverse.mpr (List.mem_map_of_mem hw),
      Option.isSome_of_eq_some (JsonMember.textOf_ofEntry_eq_some_iff.mpr rfl)⟩
  obtain ⟨w', hw'⟩ := Option.isSome_iff_exists.mp hsome
  -- Some text of the name is the last one, and the name has no other.
  have hget := (Document.member?_eq_some_iff hd).mpr hw
  rw [(Document.member?_eq_some_iff hd).mpr (hmem w' hw')] at hget
  cases hget
  exact hw'

/-- The JSON text of a document is read as the document is, after as many parameters are counted as
the document has texts. -/
theorem load_of_document {d : Document} (hd : d.names.Nodup) (hraw : raw ≠ "")
    (hscan : scan raw = .object (d.members.map JsonMember.ofEntry)) :
    load scan raw = .log d.query.loaded (silently (ofDocument d)) := by
  have hgood : ∀ m ∈ d.members.map JsonMember.ofEntry, m.Good :=
    List.forall_mem_map.mpr fun e _ => JsonMember.good_ofEntry e
  obtain ⟨q, hread⟩ := (Query.exists_ofJson_iff hscan).mpr ⟨hraw, hgood⟩
  have hnodup := Query.nodup_names_ofJson hread
  have htext : ∀ name w, q.get? name = some w ↔ (name, some w) ∈ d.members := by
    intro name w
    rw [Query.get?_ofJson hscan hread, findSome?_textOf_eq_some_iff hd]
  -- The entries are the same up to their order, so that there are as many.
  have hentries : q.entries.Perm d.query.entries := by
    have hnodup' := Document.nodup_names_query hd
    refine (List.perm_ext_iff_of_nodup hnodup.of_map hnodup'.of_map).mpr fun ⟨name, w⟩ => ?_
    rw [← Query.get?_eq_some_iff hnodup, htext, Document.mem_entries_query]
  have hloaded : q.loaded = d.query.loaded := by
    rw [Query.loaded, Query.loaded, hentries.length_eq]
  rw [load_of_ok hread, hloaded, ofDocument_of_texts hd fun k w => ?_]
  rw [htext, Document.member?_eq_some_iff hd]

end Params

end RouteWire
