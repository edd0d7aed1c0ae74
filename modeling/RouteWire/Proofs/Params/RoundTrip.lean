import RouteWire.Proofs.Params.Element
import RouteWire.Proofs.Params.Query

/-!
# Parameters survive their query

`Params.settled` is what comes back when parameters are written and read: the same parameters up
to the rounding of numbers and the few states that the wire cannot tell apart.

- `ofQuery_toQuery`: that is indeed what comes back, if waypoint names are not empty and hold no
  delimiter.
- `toQuery_ofQuery_stable`: a query that was read and written is in canonical form, and reading and
  writing it once more changes nothing. Texts that have one spelling only, or that are kept as they
  are spelled, are those of the first query.

Both are put together from what happens to one parameter: `mapM_read_text` for reading back and
`text_settled` for writing again.
-/

set_option autoImplicit false

namespace RouteWire

/-- The parameters that come back. Numbers settle, a bearing with an absent component becomes an
absent position, one absent position on its own becomes the empty sequence, and an empty list of
waypoint names becomes unset. -/
def Params.settled (p : Params) : Params where
  coordinates := p.coordinates.map (List.map Point.settled)
  bearings := p.bearings.map fun xs => Sequence.collapsed (xs.map (·.bind Bearing.settled))
  radiuses := p.radiuses.map Sequence.collapsed
  approaches := p.approaches.map Sequence.collapsed
  waypointIndices := p.waypointIndices.map Sequence.collapsed
  waypointNames := (p.waypointNames.filter (· ≠ [])).map Sequence.collapsed
  waypointTargets :=
    p.waypointTargets.map fun xs => Sequence.collapsed (xs.map (Option.map Point.settled))
  closures := p.closures.map Sequence.collapsed
  annotations := p.annotations.map Sequence.collapsed
  exclusions := p.exclusions.map Sequence.collapsed
  inclusions := p.inclusions.map Sequence.collapsed
  paymentMethods := p.paymentMethods.map Sequence.collapsed
  layers := p.layers.map Sequence.collapsed

/-! ### All positions of one parameter -/

namespace Param

open Sequence (Written Carried)

variable {k : Param} {xs : Sequence k.Element} {ts : Sequence String}

/-- The texts of a parameter that come back: they are not empty and hold no delimiter. -/
def Plain (k : Param) (ts : Sequence String) : Prop :=
  ∀ s, some s ∈ ts → s ≠ "" ∧ k.delimiter ∉ s.toList

/-- All texts of a parameter come back, if it is not that of the waypoint names. -/
theorem plain_of_written (hk : k ≠ waypointNames) (h : List.Forall₂ (Written k.Text) xs ts) :
    k.Plain ts := by
  induction h with
  | nil => exact fun s hs => absurd hs List.not_mem_nil
  | cons hfirst hrest ih =>
      intro s hs
      rcases List.mem_cons.mp hs with rfl | hs
      · cases hfirst with
        | present htext => exact plain_of_text hk htext
      · exact ih s hs

/-- Settled elements have the same texts. -/
theorem written_settle (h : List.Forall₂ (Written k.Text) xs ts) :
    List.Forall₂ (Written k.Text) (xs.map (·.bind k.settle)) ts := by
  rw [List.forall₂_map_left_iff]
  refine h.imp fun x t hx => ?_
  cases hx with
  | absent => exact .absent
  | @present a t htext =>
      cases t with
      | none =>
          rw [Option.bind_some, settle_of_text_none htext]
          exact .absent
      | some s =>
          obtain ⟨y, hy, -, hagain⟩ := readElement_of_text htext
          rw [Option.bind_some, hy]
          exact .present hagain

/-- The text of a parameter reads as its settled elements. -/
theorem read_of_written (h : List.Forall₂ (Written k.Text) xs ts) (hplain : k.Plain ts) :
    Sequence.read k.delimiter k.readElement (Sequence.write k.delimiter id .keep ts) =
      .ok (Sequence.collapsed (xs.map (·.bind k.settle))) := by
  apply Sequence.read_write_texts
  rw [List.forall₂_map_right_iff]
  induction h with
  | nil => exact .nil
  | @cons x t xs ts hfirst hrest ih =>
      refine .cons ?_ (ih fun s hs => hplain s (List.mem_cons_of_mem _ hs))
      cases hfirst with
      | absent => exact .none
      | @present a t htext =>
          cases t with
          | none =>
              rw [Option.bind_some, settle_of_text_none htext]
              exact .none
          | some s =>
              obtain ⟨y, hy, hread, -⟩ := readElement_of_text htext
              obtain ⟨hne, hfree⟩ := hplain s List.mem_cons_self
              rw [Option.bind_some, hy]
              exact .some ⟨hne, hfree, hread⟩

end Param

/-- A sequence without absent positions does not collapse. -/
theorem Sequence.collapsed_map_some {α : Type} (xs : List α) :
    Sequence.collapsed (xs.map some) = xs.map some := by
  refine Sequence.collapsed_of_ne ?_
  cases xs <;> simp

/-- Present positions stay present. -/
theorem Sequence.map_bind_some {α : Type} (xs : Sequence α) : xs.map (·.bind some) = xs := by
  simp

namespace Params

variable {p : Params} {k : Param}

/-- The positions of a parameter that comes back are the settled positions, collapsed. -/
theorem exists_get_settled {v : k.Value} (h : p.get k = some v)
    (hset : ¬ (k = .waypointNames ∧ k.positions v = [])) :
    ∃ v', p.settled.get k = some v' ∧
      k.positions v' = Sequence.collapsed ((k.positions v).map (·.bind k.settle)) := by
  cases k with
  | coordinates =>
      refine ⟨v.map Point.settled, congrArg (Option.map _) h, ?_⟩
      show (v.map Point.settled).map some =
        Sequence.collapsed ((v.map some).map (·.bind fun p => some p.settled))
      rw [← Sequence.collapsed_map_some, List.map_map, List.map_map]
      rfl
  | bearings => exact ⟨_, congrArg (Option.map _) h, rfl⟩
  | waypointTargets =>
      refine ⟨_, congrArg (Option.map _) h, congrArg Sequence.collapsed ?_⟩
      refine List.map_congr_left fun x _ => ?_
      cases x <;> rfl
  | waypointNames =>
      have hne : v ≠ [] := fun hempty => hset ⟨rfl, hempty⟩
      have hfilter : (p.waypointNames.filter (· ≠ [])) = some v := by
        show (p.get .waypointNames).filter _ = _
        rw [h, Option.filter_some, if_pos (decide_eq_true hne)]
      refine ⟨_, congrArg (Option.map _) hfilter, ?_⟩
      exact congrArg Sequence.collapsed (Sequence.map_bind_some v).symm
  | _ =>
      exact ⟨_, congrArg (Option.map _) h,
        congrArg Sequence.collapsed (Sequence.map_bind_some _).symm⟩

/-- An unset parameter is unset when it is settled. -/
theorem get_settled_of_none (h : p.get k = none) : p.settled.get k = none := by
  cases k with
  | waypointNames =>
      show ((p.get .waypointNames).filter _).map _ = none
      rw [h]
      rfl
  | _ => exact congrArg (Option.map _) h

/-- An empty list of names settles to no names. -/
theorem get_settled_of_empty (h : p.get .waypointNames = some []) :
    p.settled.get .waypointNames = none := by
  show ((p.get .waypointNames).filter _).map _ = none
  rw [h]
  rfl

/-! ### One parameter, there and back -/

/-- Waypoint names that come back: none is empty, and none holds the delimiter. -/
def PlainNames (p : Params) : Prop :=
  ∀ xs, p.waypointNames = some xs →
    ∀ name, some name ∈ xs → name ≠ "" ∧ defaultDelimiter ∉ name.toList

/-- The texts of a parameter are plain, if the names that are texts themselves are. -/
theorem plain_texts {v : k.Value} {ts : Sequence String}
    (hnames : k = .waypointNames → p.PlainNames)
    (hget : p.get k = some v)
    (h : List.Forall₂ (Sequence.Written k.Text) (k.positions v) ts) : k.Plain ts := by
  by_cases hk : k = .waypointNames
  · subst hk
    -- Waypoint names are their own texts.
    have hsame := (@Sequence.written_render_iff _ id v ts).mp h
    rw [Option.map_id, List.map_id] at hsame
    exact hsame ▸ hnames rfl v hget
  · exact Param.plain_of_written hk h

/-- The text of a parameter that is set or not. -/
theorem text_eq_ok_iff {t : Option String} :
    p.text k = .ok t ↔
      match p.get k with
      | none => t = none
      | some v => k.write v = .ok t := by
  unfold text
  cases p.get k with
  | none => simp [eq_comm]
  | some v => rfl

/-- The text of a parameter reads as its settled value. Of all parameters, only waypoint names may
hold a delimiter. -/
theorem mapM_read_text {t : Option String} (hnames : k = .waypointNames → p.PlainNames)
    (h : p.text k = .ok t) : t.mapM k.read = .ok (p.settled.get k) := by
  rw [text_eq_ok_iff] at h
  rw [optionMapM_eq_ok_iff]
  split at h
  · rename_i hget
    rw [h, get_settled_of_none hget]
    exact .none
  · rename_i v hget
    rw [Param.write_eq_ok_iff] at h
    split at h
    · rename_i hempty
      obtain ⟨rfl, hempty⟩ := hempty
      rw [h, get_settled_of_empty (hempty ▸ hget)]
      exact .none
    · rename_i hset
      obtain ⟨ts, hwritten, rfl⟩ := h
      obtain ⟨v', hv', hpositions⟩ := exists_get_settled hget hset
      rw [hv']
      refine .some (Param.read_eq_ok_iff.mpr ?_)
      rw [hpositions]
      exact Param.read_of_written hwritten (plain_texts hnames hget hwritten)

/-- The settled value of a parameter has the same text again. Only waypoint names that are written
as the empty text are read as an empty list, which is written as nothing. -/
theorem text_settled {t : Option String} (hset : k = .waypointNames → t ≠ some "")
    (h : p.text k = .ok t) : p.settled.text k = .ok t := by
  rw [text_eq_ok_iff] at h ⊢
  split at h
  · rename_i hget
    rw [get_settled_of_none hget]
    exact h
  · rename_i v hget
    rw [Param.write_eq_ok_iff] at h
    split at h
    · rename_i hempty
      obtain ⟨rfl, hempty⟩ := hempty
      rw [get_settled_of_empty (hempty ▸ hget)]
      exact h
    · rename_i hne
      obtain ⟨ts, hwritten, rfl⟩ := h
      obtain ⟨v', hv', hpositions⟩ := exists_get_settled hget hne
      obtain ⟨us, hus, hsame⟩ :=
        Sequence.written_collapsed k.delimiter (Param.written_settle hwritten)
      rw [← hpositions] at hus
      rw [hv']
      show k.write v' = _
      rw [Param.write_eq_ok_iff, if_neg]
      · exact ⟨us, hus, congrArg some hsame⟩
      · rintro ⟨hk, hempty⟩
        -- An empty list would have the empty text.
        rw [hempty, List.forall₂_nil_left_iff] at hus
        refine hset hk (congrArg some ?_)
        rw [← hsame, hus]
        rfl

/-- The query of the texts reads as the settled parameters. -/
theorem ofQuery_ofTexts {text : Param → Option String} (hnames : p.PlainNames)
    (htext : ∀ k, p.text k = .ok (text k)) : ofQuery (Query.ofTexts text) = .ok p.settled := by
  rw [ofQuery_eq_ok_iff]
  intro k
  rw [readParam, Query.get?_ofTexts]
  exact mapM_read_text (fun _ => hnames) (htext k)

/-- Parameters that are written and read come back settled. -/
theorem ofQuery_toQuery {q : Query} (hnames : p.PlainNames) (h : p.toQuery = .ok q) :
    ofQuery q = .ok p.settled := by
  obtain ⟨text, htext, rfl⟩ := toQuery_eq_ok_iff.mp h
  exact ofQuery_ofTexts hnames htext

/-- A bearing with an absent component, a name, and one absent position on its own. -/
theorem ofQuery_toQuery_collapsing :
    PlainNames { waypointNames := some [some "Depot", none] } ∧
      ofQuery ⟨[("bearings", ";90,0.333333"), ("waypoint_names", "Depot;"), ("layers", "")]⟩ =
        .ok (settled {
          bearings := some [some [some ⟨0x4056800000000000⟩, none],
            some [some ⟨0x4056800000000000⟩, some ⟨0x3FD5555555555555⟩]]
          waypointNames := some [some "Depot", none]
          layers := some [none] }) := by
  have hnames : ∀ xs : Sequence String, some [some "Depot", none] = some xs →
      ∀ name, some name ∈ xs → name ≠ "" ∧ defaultDelimiter ∉ name.toList := by
    rintro xs ⟨⟩ name hname
    obtain rfl : name = "Depot" := by simpa using hname
    decide
  exact ⟨hnames, ofQuery_toQuery hnames (by decide +kernel)⟩

/-! ### A query, read and written -/

/-- What was read for each parameter, by its text. -/
theorem ofQuery_get {q : Query} (h : ofQuery q = .ok p) (k : Param) :
    Option.Rel (fun w v => k.read w = .ok v) (q.get? k.wireName) (p.get k) :=
  optionMapM_eq_ok_iff.mp (ofQuery_eq_ok_iff.mp h k)

/-- The names in a query were cut at the delimiter, so that they come back. -/
theorem plainNames_of_ofQuery {q : Query} (h : ofQuery q = .ok p) : p.PlainNames := by
  intro xs hxs name hname
  have hrel := ofQuery_get h .waypointNames
  rw [show p.get .waypointNames = some xs from hxs] at hrel
  cases hq : q.get? Param.waypointNames.wireName with
  | none =>
      rw [hq] at hrel
      cases hrel
  | some w =>
      rw [hq] at hrel
      cases hrel with
      | some hread => exact Sequence.plain_of_read (Param.read_eq_ok_iff.mp hread) hname

/-- A parameter has no text again if the query has none, or the empty one for the waypoint
names. -/
theorem get?_of_text_none {q : Query} (hread : ofQuery q = .ok p) (h : p.text k = .ok none) :
    q.get? k.wireName = none ∨ k = .waypointNames ∧ q.get? k.wireName = some "" := by
  have hrel := ofQuery_get hread k
  rw [text_eq_ok_iff] at h
  generalize q.get? k.wireName = w at hrel ⊢
  generalize p.get k = v at hrel h
  cases hrel with
  | none => exact .inl rfl
  | some hvalue =>
      have hwrite := Param.write_eq_ok_iff.mp h
      split at hwrite
      · rename_i hempty
        obtain ⟨rfl, hempty⟩ := hempty
        rw [Param.read_eq_ok_iff, hempty, Sequence.read_eq_nil_iff] at hvalue
        exact .inr ⟨rfl, congrArg some hvalue⟩
      · obtain ⟨ts, -, hnone⟩ := hwrite
        cases hnone

/-- A parameter that has a text again had one in the query, and not the empty one if it is that of
the waypoint names. -/
theorem get?_of_text_some {q : Query} {w' : String} (hread : ofQuery q = .ok p)
    (h : p.text k = .ok (some w')) :
    ∃ w v, q.get? k.wireName = some w ∧ ¬ (k = .waypointNames ∧ w = "") ∧ k.read w = .ok v ∧
      k.Texts v (some w') := by
  have hrel := ofQuery_get hread k
  rw [text_eq_ok_iff] at h
  generalize q.get? k.wireName = w at hrel ⊢
  generalize p.get k = v at hrel h
  cases hrel with
  | none => cases h
  | @some w v hvalue =>
      have hwrite := Param.write_eq_ok_iff.mp h
      split at hwrite
      · cases hwrite
      · rename_i hne
        refine ⟨w, v, rfl, ?_, hvalue, hwrite⟩
        rintro ⟨rfl, rfl⟩
        rw [Param.read_eq_ok_iff, Sequence.read_eq_ok_iff, if_pos rfl] at hvalue
        exact hne ⟨rfl, hvalue⟩

/-- A text that is kept as it is spelled is that of the query. -/
theorem get?_of_verbatim {q : Query} {w : String} (hk : k ∈ Param.verbatim)
    (hread : ofQuery q = .ok p) (h : p.text k = .ok (some w)) :
    q.get? k.wireName = some w := by
  obtain ⟨w', v, hq, -, hvalue, ts, hwritten, htext⟩ := get?_of_text_some hread h
  cases htext
  have hsame := Sequence.write_texts_of_read (Param.read_eq_ok_iff.mp hvalue) hwritten
    fun s a t => Param.text_of_readElement hk
  rw [hq, hsame]

/-- Settled parameters that come from a query have the texts they were written as. -/
theorem text_settled_of_ofQuery {q : Query} {t : Option String} (hread : ofQuery q = .ok p)
    (h : p.text k = .ok t) : p.settled.text k = .ok t := by
  refine text_settled ?_ h
  rintro rfl rfl
  -- Waypoint names have a text only if it was not empty, and then it is that text.
  obtain ⟨w, v, hq, hne, -⟩ := get?_of_text_some hread h
  rw [get?_of_verbatim (by decide) hread h] at hq
  cases hq
  exact hne ⟨rfl, rfl⟩

/-- A parameter has a text again if the query has one, other than the empty one for the waypoint
names. -/
theorem isSome_text_iff {q : Query} {t : Option String} (hread : ofQuery q = .ok p)
    (h : p.text k = .ok t) :
    t.isSome = true ↔
      k.wireName ∈ q.names ∧ ¬ (k = .waypointNames ∧ q.get? k.wireName = some "") := by
  rw [Query.mem_names_iff]
  cases t with
  | none =>
      rcases get?_of_text_none hread h with hq | ⟨rfl, hq⟩
      · simp [hq]
      · simp [hq]
  | some w' =>
      obtain ⟨w, v, hq, hne, -⟩ := get?_of_text_some hread h
      simpa [hq] using hne

/-- A query that was read and written reads and writes as itself. Its names are the known names of
the first query, waypoint names with the empty text apart, and the texts that are kept as they are
spelled are those of the first query. -/
theorem toQuery_ofQuery_stable {q q' : Query} (hread : ofQuery q = .ok p)
    (hwrite : p.toQuery = .ok q') :
    (∃ p', ofQuery q' = .ok p' ∧ p'.toQuery = .ok q') ∧
      (∀ name, name ∈ q'.names ↔ ∃ k : Param, k.wireName = name ∧ name ∈ q.names ∧
        ¬ (k = .waypointNames ∧ q.get? name = some "")) ∧
      ∀ k ∈ Param.verbatim, k.wireName ∈ q'.names →
        q'.get? k.wireName = q.get? k.wireName := by
  obtain ⟨text, htext, rfl⟩ := toQuery_eq_ok_iff.mp hwrite
  refine ⟨⟨p.settled, ?_, ?_⟩, fun name => ?_, fun k hk hmem => ?_⟩
  · exact ofQuery_ofTexts (plainNames_of_ofQuery hread) htext
  · rw [toQuery_eq_ok_iff]
    exact ⟨text, fun k => text_settled_of_ofQuery hread (htext k), rfl⟩
  · rw [Query.mem_names_ofTexts]
    refine exists_congr fun k => and_congr_right ?_
    rintro rfl
    exact isSome_text_iff hread (htext k)
  · rw [Query.mem_names_iff, Query.get?_ofTexts] at hmem
    rw [Query.get?_ofTexts]
    obtain ⟨w, hw⟩ := Option.isSome_iff_exists.mp hmem
    rw [hw]
    exact (get?_of_verbatim hk hread (hw ▸ htext k)).symm

/-- Odd spellings of numbers, a run of delimiters, an empty text and an unknown name. -/
theorem toQuery_ofQuery_stable_spellings :
    (∃ p', ofQuery ⟨[("coordinates", "10,0.5;0,7.25"), ("approaches", ";;curb")]⟩ = .ok p' ∧
        p'.toQuery = .ok ⟨[("coordinates", "10,0.5;0,7.25"), ("approaches", ";;curb")]⟩) ∧
      ∃ p, ofQuery ⟨[("approaches", ";;curb"), ("coordinates", "+1e1,.5;-0,007.25"),
          ("waypoint_names", ""), ("alternatives", "true")]⟩ = .ok p ∧
        p.toQuery = .ok ⟨[("coordinates", "10,0.5;0,7.25"), ("approaches", ";;curb")]⟩ := by
  have hread : ofQuery ⟨[("approaches", ";;curb"), ("coordinates", "+1e1,.5;-0,007.25"),
      ("waypoint_names", ""), ("alternatives", "true")]⟩ = .ok {
        coordinates := some [⟨⟨0x4024000000000000⟩, ⟨0x3FE0000000000000⟩⟩,
          ⟨⟨0x8000000000000000⟩, ⟨0x401D000000000000⟩⟩]
        approaches := some [none, none, some ⟨1⟩]
        waypointNames := some [] } := by decide +kernel
  have hwrite : toQuery {
      coordinates := some [⟨⟨0x4024000000000000⟩, ⟨0x3FE0000000000000⟩⟩,
        ⟨⟨0x8000000000000000⟩, ⟨0x401D000000000000⟩⟩]
      approaches := some [none, none, some ⟨1⟩]
      waypointNames := some [] } =
        .ok ⟨[("coordinates", "10,0.5;0,7.25"), ("approaches", ";;curb")]⟩ := by decide +kernel
  exact ⟨(toQuery_ofQuery_stable hread hwrite).1, _, hread, hwrite⟩

end Params

end RouteWire
