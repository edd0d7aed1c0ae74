import RouteWire.Params.Document
import RouteWire.Proofs.Params.Query

/-!
# The document form is the query form

A document is a finite map from names to texts or null, so that no name stands twice in it and the
order of its members does not matter. Reading it is reading the query of its texts, and that
query is known from what it has under the names of the parameters (`ofQuery_congr`). Null members
and members under other names can therefore be added to a document anywhere
(`ofDocument_of_extends`).
-/

set_option autoImplicit false

namespace RouteWire

namespace Document

variable {d : Document}

/-- The member of a name: none, null or a text. -/
def member? (d : Document) (name : String) : Option (Option String) :=
  d.members.lookup name

/-- The names that have a member. -/
def names (d : Document) : List String :=
  d.members.map Prod.fst

/-- All members of `d` are members of `d'`. The others are under new names, and each of them is null
or its name is not that of a parameter. -/
structure Extends (d' d : Document) : Prop where
  keeps : ∀ name v, d.member? name = some v → d'.member? name = some v
  adds : ∀ name v, d.member? name = none → d'.member? name = some v →
    v = none ∨ ∀ k : Param, k.wireName ≠ name

/-- The member of a name is the one that stands beside it, if no name stands twice. -/
theorem member?_eq_some_iff (h : d.names.Nodup) {name : String} {v : Option String} :
    d.member? name = some v ↔ (name, v) ∈ d.members :=
  lookup_eq_some_iff_mem h

/-- The entries are the members that are not null. -/
theorem mem_entries_query {name w : String} :
    (name, w) ∈ d.query.entries ↔ (name, some w) ∈ d.members := by
  simp [query, List.mem_filterMap, Option.map_eq_some_iff]

/-- No name stands twice among the texts if none does among the members. -/
theorem nodup_names_query (h : d.names.Nodup) : d.query.names.Nodup := by
  rw [Query.names, query, List.Nodup, List.pairwise_map, List.pairwise_filterMap]
  refine (List.pairwise_map.mp h).imp fun hne e he e' he' => ?_
  obtain ⟨_, -, rfl⟩ := Option.map_eq_some_iff.mp he
  obtain ⟨_, -, rfl⟩ := Option.map_eq_some_iff.mp he'
  exact hne

/-- The query of a document has its texts. A null member hides none of them, since no other member
has its name. -/
theorem get?_query (h : d.names.Nodup) {name w : String} :
    d.query.get? name = some w ↔ d.member? name = some (some w) := by
  rw [Query.get?_eq_some_iff (nodup_names_query h), mem_entries_query, member?_eq_some_iff h]

/-- The members of a query as a document are its texts. -/
theorem member?_ofQuery (q : Query) (name : String) :
    (ofQuery q).member? name = (q.get? name).map some := by
  obtain ⟨entries⟩ := q
  induction entries with
  | nil => rfl
  | cons e entries ih =>
      show List.lookup name ((e.1, some e.2) :: _) = (List.lookup name ((e.1, e.2) :: _)).map some
      rw [List.lookup_cons, List.lookup_cons]
      cases name == e.1 with
      | true => rfl
      | false => exact ih

/-- A query and its document have the same names. -/
theorem names_ofQuery (q : Query) : (ofQuery q).names = q.names := by
  simp [names, Query.names, ofQuery, Function.comp_def]

end Document

namespace Params

variable {p : Params} {q q' : Query} {d : Document}

/-- Queries with the same texts under the names of the parameters are read alike, whatever else they
have. -/
theorem ofQuery_congr (h : ∀ k : Param, q.get? k.wireName = q'.get? k.wireName) :
    ofQuery q = ofQuery q' := by
  have hread : ∀ k, readParam q k = readParam q' k := fun k => by
    rw [readParam, readParam, h k]
  unfold ofQuery
  simp only [hread]

/-- No name stands twice in a query that is written. -/
theorem nodup_names_of_toQuery (h : p.toQuery = .ok q) : q.names.Nodup := by
  obtain ⟨text, -, rfl⟩ := toQuery_eq_ok_iff.mp h
  exact Query.nodup_names_ofTexts text

/-- A document is read as any query that has its texts under the names of the parameters. -/
theorem ofDocument_of_texts (hd : d.names.Nodup)
    (h : ∀ (k : Param) w, q.get? k.wireName = some w ↔ d.member? k.wireName = some (some w)) :
    ofDocument d = ofQuery q :=
  ofQuery_congr fun k => Option.ext fun w => (Document.get?_query hd).trans (h k w).symm

/-- What is added to the document of a query does not change how it is read. -/
theorem ofDocument_of_extends (hd : d.names.Nodup) (h : d.Extends (Document.ofQuery q)) :
    ofDocument d = ofQuery q := by
  refine ofDocument_of_texts hd fun k w => ?_
  have hmember := Document.member?_ofQuery q k.wireName
  cases hget : q.get? k.wireName with
  | some u =>
      rw [hget] at hmember
      rw [h.keeps _ _ hmember]
      simp
  | none =>
      -- Under the name of a parameter only null can have been added.
      rw [hget] at hmember
      refine iff_of_false (by simp) fun hadded => ?_
      rcases h.adds _ _ hmember hadded with hnull | hother
      · cases hnull
      · exact hother k rfl

/-- A document and a query are two forms of the same parameters. Parameters can be written as the
one if and only if they can be as the other, with the same refusal if not, and then both have the
same texts under the same names. Null members and members under names of no parameter may be added
to the document, and it is read as the query is, or fails as it does. So is every document of texts
and nulls: it is read as a query that has its texts. -/
theorem ofDocument_eq_ofQuery :
    (∀ (p : Params) refusal, p.toDocument = .error refusal ↔ p.toQuery = .error refusal) ∧
      (∀ (p : Params) q, p.toQuery = .ok q → ∃ d, p.toDocument = .ok d ∧ d.names.Nodup ∧
        (∀ name v, d.member? name = some v ↔ ∃ w, q.get? name = some w ∧ some w = v) ∧
          ∀ d' : Document, d'.names.Nodup → d'.Extends d → ofDocument d' = ofQuery q) ∧
      ∀ d : Document, d.names.Nodup → ∀ q : Query,
        (∀ name w, q.get? name = some w ↔ d.member? name = some (some w)) →
          ofDocument d = ofQuery q := by
  refine ⟨fun p refusal => map_eq_error_iff, fun p q hq => ?_, fun d hd q hq => ?_⟩
  · refine ⟨Document.ofQuery q, ?_, ?_, fun name v => ?_, fun d' hd' h => ?_⟩
    · rw [toDocument, hq]
      rfl
    · rw [Document.names_ofQuery]
      exact nodup_names_of_toQuery hq
    · rw [Document.member?_ofQuery, Option.map_eq_some_iff]
    · exact ofDocument_of_extends hd' h
  · exact ofDocument_of_texts hd fun k w => hq k.wireName w

/-- Null and unknown members on both sides of the one that is written, parameters that cannot be
written, and a document that cannot be read. -/
theorem ofDocument_eq_ofQuery_null_and_unknown :
    (toDocument { layers := some [some 4, none] } = .ok ⟨[("layers", some "4;")]⟩ ∧
        ofDocument ⟨[("bearings", none), ("alternatives", some "true"), ("layers", some "4;"),
          ("zoom", none)]⟩ = .ok { layers := some [some 4, none] }) ∧
      toDocument { radiuses := some [some "-1"] } =
        .error (.announced ⟨.radiuses, 0, .invalid .radiusNegative⟩) ∧
      ofDocument ⟨[("layers", some "4;x"), ("radiuses", none), ("zoom", some "1")]⟩ =
        .error (.malformed 1 (.notInteger "x")) := by
  obtain ⟨hrefused, hwritten, hread⟩ := ofDocument_eq_ofQuery
  refine ⟨?_, ?_, ?_⟩
  · have hquery : toQuery { layers := some [some 4, none] } = .ok ⟨[("layers", "4;")]⟩ := by
      decide +kernel
    obtain ⟨d, hd, -, -, hextended⟩ := hwritten _ _ hquery
    obtain rfl : d = ⟨[("layers", some "4;")]⟩ := by
      rw [toDocument, hquery] at hd
      exact (Except.ok.inj hd).symm
    refine ⟨hd, (hextended _ (by decide) ⟨fun name v hv => ?_, fun name v hnew hv => ?_⟩).trans ?_⟩
    · rw [Document.member?_eq_some_iff (by decide)] at hv ⊢
      obtain ⟨rfl, rfl⟩ := Prod.mk.inj (List.mem_singleton.mp hv)
      simp
    · rw [Document.member?_eq_some_iff (by decide)] at hv
      simp only [List.mem_cons, List.not_mem_nil, or_false, Prod.mk.injEq] at hv
      rcases hv with ⟨-, rfl⟩ | ⟨rfl, -⟩ | ⟨rfl, -⟩ | ⟨-, rfl⟩
      · exact .inl rfl
      · exact .inr fun k => by cases k <;> decide
      · cases hnew
      · exact .inl rfl
    · decide +kernel
  · refine (hrefused _ _).mpr ?_
    decide +kernel
  · refine (hread _ (by decide) ⟨[("zoom", "1"), ("layers", "4;x")]⟩ fun name w => ?_).trans ?_
    · rw [Query.get?_eq_some_iff (by decide), Document.member?_eq_some_iff (by decide)]
      simp [or_comm]
    · decide +kernel

end Params

end RouteWire
