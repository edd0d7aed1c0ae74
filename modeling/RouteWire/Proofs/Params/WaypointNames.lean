import RouteWire.Proofs.Params.RoundTrip
import RouteWire.Proofs.Sequence.Texts

/-!
# Waypoint names are free text

All texts of the parameters come back one by one, except those of the waypoint names: names are
written as they are, and may be empty or hold the delimiter. Their text is still read without
fail, so that any parameters that are written can be read again. `Params.reread` is what comes
back then, and it differs from `Params.settled` in the names alone.

- `toQuery_ofQuery_toQuery`: written once more, it gives the same query, up to an entry of waypoint
  names that is empty (`Query.withoutEmptyNames`). An empty text reads as an empty list of names,
  and such a list is written as nothing.
- `waypointNames_reread`: two or more names come back cut at every delimiter. So the positions of
  the names are kept if and only if no name is empty or holds the delimiter.
-/

set_option autoImplicit false

namespace RouteWire

/-! ### The text of the names -/

/-- Waypoint names are read without fail. -/
theorem mapM_read_names (t : Option String) :
    t.mapM (Param.read .waypointNames) =
      .ok (t.map (Sequence.texts defaultDelimiter)) := by
  cases t with
  | none => rfl
  | some w =>
      show some <$> Sequence.read defaultDelimiter .ok w = _
      rw [Sequence.read_ok_eq]
      rfl

/-- Names that were read have the text that they were read from, unless it is empty. -/
theorem writeWaypointNames_texts (t : Option String) :
    writeWaypointNames (t.map (Sequence.texts defaultDelimiter)) = t.filter (· ≠ "") := by
  cases t with
  | none => rfl
  | some w =>
      have hwrite := Sequence.write_texts defaultDelimiter w
      rw [Option.map_some, writeWaypointNames, Option.filter_some, Option.filter_some]
      by_cases hempty : w = ""
      · subst hempty
        rfl
      · have hne : Sequence.texts defaultDelimiter w ≠ [] := by
          intro hnil
          rw [hnil] at hwrite
          exact hempty hwrite.symm
        rw [if_pos (by simpa using hne), if_pos (by simpa using hempty)]
        exact congrArg some hwrite

/-- The empty text stands for one name that is absent or empty. -/
theorem writeWaypointNames_eq_empty_iff {names : Option (Sequence String)} :
    writeWaypointNames names = some "" ↔ names = some [none] ∨ names = some [some ""] := by
  cases names with
  | none => simp [writeWaypointNames, Sequence.writeOptional]
  | some xs =>
      cases xs with
      | nil => simp [writeWaypointNames, Sequence.writeOptional]
      | cons x xs =>
          show some (Sequence.write defaultDelimiter id .keep (x :: xs)) = some "" ↔ _
          simp only [Option.some.injEq, Sequence.write_eq_empty_iff, List.cons_ne_nil, false_or]

/-! ### The query without an empty entry of names -/

namespace Query

/-- The query without the entry of waypoint names, if their text is empty. -/
def withoutEmptyNames (q : Query) : Query :=
  ⟨q.entries.filter (· ≠ (Param.waypointNames.wireName, ""))⟩

variable {text : Param → Option String} {k : Param} {w : String}

/-- The entry that is left out is that of the names with no text in it. -/
theorem entry_eq_iff :
    (k.wireName, w) = (Param.waypointNames.wireName, "") ↔ k = .waypointNames ∧ w = "" := by
  rw [Prod.mk.injEq]
  refine and_congr_left fun _ => ⟨Param.wireName_injective, ?_⟩
  rintro rfl
  rfl

/-- The entries of the query of some texts are the texts. -/
theorem mem_entries_ofTexts :
    (k.wireName, w) ∈ (ofTexts text).entries ↔ text k = some w := by
  rw [← get?_eq_some_iff (nodup_names_ofTexts text), get?_ofTexts]

/-- Leaving out the entry is leaving out the text. -/
theorem withoutEmptyNames_ofTexts (text : Param → Option String) :
    (ofTexts text).withoutEmptyNames =
      ofTexts fun k => (text k).filter fun w => ¬ (k = .waypointNames ∧ w = "") := by
  refine congrArg Query.mk ?_
  rw [ofTexts, List.filter_filterMap]
  refine List.filterMap_congr fun k _ => ?_
  rw [Option.filter_map]
  simp only [Function.comp_def, ne_eq, entry_eq_iff]

/-- Nothing is left out if and only if there is no such entry. -/
theorem withoutEmptyNames_eq_iff {q : Query} :
    q.withoutEmptyNames = q ↔ (Param.waypointNames.wireName, "") ∉ q.entries := by
  obtain ⟨entries⟩ := q
  rw [withoutEmptyNames, Query.mk.injEq, List.filter_eq_self]
  simp only [ne_eq, decide_eq_true_eq]
  constructor
  · intro h hentry
    exact h _ hentry rfl
  · rintro h e he rfl
    exact h he

end Query

/-! ### There and back with any names -/

namespace Params

variable {p : Params} {q : Query} {k : Param} {text : Param → Option String}

/-- The parameters that come back, whatever the waypoint names are. -/
def reread (p : Params) : Params :=
  p.settled.set .waypointNames
    ((writeWaypointNames (p.get .waypointNames)).map (Sequence.texts defaultDelimiter))

/-- The names that come back are those of the text. -/
theorem get_reread_names (p : Params) :
    p.reread.get .waypointNames =
      (writeWaypointNames (p.get .waypointNames)).map (Sequence.texts defaultDelimiter) :=
  get_set ..

/-- All other parameters come back settled. -/
theorem get_reread_of_ne (p : Params) (hk : k ≠ .waypointNames) :
    p.reread.get k = p.settled.get k :=
  get_set_of_ne _ _ hk

/-- Names are always written. -/
theorem text_names (p : Params) :
    p.text .waypointNames = .ok (writeWaypointNames (p.get .waypointNames)) := by
  unfold text
  cases p.get .waypointNames <;> rfl

/-- Any parameters that are written can be read again. -/
theorem ofQuery_ofTexts_reread (htext : ∀ k, p.text k = .ok (text k)) :
    ofQuery (Query.ofTexts text) = .ok p.reread := by
  rw [ofQuery_eq_ok_iff]
  intro k
  rw [readParam, Query.get?_ofTexts]
  by_cases hk : k = .waypointNames
  · subst hk
    have hnames := htext .waypointNames
    rw [text_names] at hnames
    rw [get_reread_names, ← Except.ok.inj hnames]
    exact mapM_read_names _
  · rw [get_reread_of_ne p hk]
    exact mapM_read_text (fun h => absurd h hk) (htext k)

/-- The parameters that come back have the same texts, up to an empty text of waypoint names. -/
theorem text_reread (htext : ∀ k, p.text k = .ok (text k)) (k : Param) :
    p.reread.text k = .ok ((text k).filter fun w => ¬ (k = .waypointNames ∧ w = "")) := by
  by_cases hk : k = .waypointNames
  · subst hk
    have hnames := htext .waypointNames
    rw [text_names] at hnames
    rw [text_names, get_reread_names, ← Except.ok.inj hnames]
    simpa using writeWaypointNames_texts (writeWaypointNames (p.get .waypointNames))
  · have hsame : p.reread.text k = p.settled.text k := by
      unfold Params.text
      rw [get_reread_of_ne p hk]
    rw [hsame, text_settled (fun h => absurd h hk) (htext k)]
    cases text k with
    | none => rfl
    | some w => simp [hk, Option.filter_some]

/-- Parameters that are written can be read, and what is read is written as the same query, except
that an empty text of waypoint names is left out. The text of the names is empty if they are one
position that is absent or holds the empty name. -/
theorem toQuery_ofQuery_toQuery (h : p.toQuery = .ok q) :
    (∃ p', ofQuery q = .ok p' ∧ p'.toQuery = .ok q.withoutEmptyNames) ∧
      (q.withoutEmptyNames = q ↔
        p.waypointNames ≠ some [none] ∧ p.waypointNames ≠ some [some ""]) := by
  obtain ⟨text, htext, rfl⟩ := toQuery_eq_ok_iff.mp h
  refine ⟨⟨p.reread, ofQuery_ofTexts_reread htext, ?_⟩, ?_⟩
  · rw [toQuery_eq_ok_iff]
    exact ⟨_, text_reread htext, (Query.withoutEmptyNames_ofTexts text).symm⟩
  · have hnames := htext .waypointNames
    rw [text_names] at hnames
    rw [Query.withoutEmptyNames_eq_iff, Query.mem_entries_ofTexts, ← Except.ok.inj hnames,
      writeWaypointNames_eq_empty_iff, not_or]
    rfl

/-- Names that hold the delimiter or are empty, a bearing with an absent component, and one absent
layer on its own. -/
theorem toQuery_ofQuery_toQuery_any_names :
    toQuery {
        bearings := some [some [some ⟨0x4056800000000000⟩, none],
          some [some ⟨0x4056800000000000⟩, some ⟨0x3FD5555555555555⟩]]
        waypointNames := some [some "Depot;Bay 2", some ""]
        layers := some [none] } =
      .ok ⟨[("bearings", ";90,0.333333"), ("waypoint_names", "Depot;Bay 2;"), ("layers", "")]⟩ ∧
    ∃ p', ofQuery ⟨[("bearings", ";90,0.333333"), ("waypoint_names", "Depot;Bay 2;"),
        ("layers", "")]⟩ = .ok p' ∧
      p'.toQuery =
        .ok ⟨[("bearings", ";90,0.333333"), ("waypoint_names", "Depot;Bay 2;"),
          ("layers", "")]⟩ := by
  have hwrite : toQuery {
      bearings := some [some [some ⟨0x4056800000000000⟩, none],
        some [some ⟨0x4056800000000000⟩, some ⟨0x3FD5555555555555⟩]]
      waypointNames := some [some "Depot;Bay 2", some ""]
      layers := some [none] } =
        .ok ⟨[("bearings", ";90,0.333333"), ("waypoint_names", "Depot;Bay 2;"),
          ("layers", "")]⟩ := by decide +kernel
  obtain ⟨hback, hsame⟩ := toQuery_ofQuery_toQuery hwrite
  rw [hsame.mpr ⟨by decide, by decide⟩] at hback
  exact ⟨hwrite, hback⟩

/-- One absent name on its own is sent as the empty text, which reads as an empty list of names.
That list is not sent at all, so that the query loses the name of the parameter. -/
theorem toQuery_lone_absent_name :
    toQuery { waypointNames := some [none] } = .ok ⟨[("waypoint_names", "")]⟩ ∧
      ofQuery ⟨[("waypoint_names", "")]⟩ = .ok { waypointNames := some [] } ∧
      toQuery { waypointNames := some [] } = .ok {} ∧
      ¬ ∀ (p : Params) (q : Query), p.toQuery = .ok q →
        ∃ p', ofQuery q = .ok p' ∧ p'.toQuery = .ok q := by
  have hwrite : toQuery { waypointNames := some [none] } = .ok ⟨[("waypoint_names", "")]⟩ := by
    decide +kernel
  have hread : ofQuery ⟨[("waypoint_names", "")]⟩ = .ok { waypointNames := some [] } := by
    decide +kernel
  have hagain : toQuery { waypointNames := some [] } = .ok {} := by decide +kernel
  refine ⟨hwrite, hread, hagain, fun h => ?_⟩
  obtain ⟨p', hp', hback⟩ := h _ _ hwrite
  rw [hread] at hp'
  cases hp'
  rw [hagain] at hback
  exact absurd hback (by decide)

/-! ### Where the names stand -/

/-- Two or more names come back as their pieces between delimiters, in order; an absent or empty
one is one absent position. So there is one position more for every delimiter in a name, and the
positions and the absent ones among them are kept if and only if no name is empty or holds the
delimiter. -/
theorem waypointNames_reread {xs : Sequence String} (h : p.toQuery = .ok q)
    (hnames : p.waypointNames = some xs) (hlength : 2 ≤ xs.length) :
    ∃ p' ys, ofQuery q = .ok p' ∧ p'.waypointNames = some ys ∧
      (ys = xs.flatMap fun x => Sequence.pieces defaultDelimiter (x.getD "")) ∧
      ys.length =
        xs.length + (xs.map fun x => (x.getD "").toList.count defaultDelimiter).sum ∧
      (ys.map Option.isNone = xs.map Option.isNone ↔
        ∀ name, some name ∈ xs → name ≠ "" ∧ defaultDelimiter ∉ name.toList) := by
  obtain ⟨text, htext, rfl⟩ := toQuery_eq_ok_iff.mp h
  have hback : p.reread.waypointNames =
      some (xs.flatMap fun x => Sequence.pieces defaultDelimiter (x.getD "")) := by
    -- The list has a name, so that it counts as set.
    have hne : (!xs.isEmpty) = true := by
      cases xs with
      | nil => simp at hlength
      | cons x xs => rfl
    have hwrite : writeWaypointNames (p.get .waypointNames) =
        some (Sequence.write defaultDelimiter id .keep xs) := by
      rw [show p.get .waypointNames = some xs from hnames, writeWaypointNames,
        Option.filter_some, if_pos hne]
      rfl
    show p.reread.get .waypointNames = _
    rw [get_reread_names, hwrite, Option.map_some, Sequence.texts_write_flatMap hlength]
  exact ⟨p.reread, _, ofQuery_ofTexts_reread htext, hback, rfl,
    Sequence.length_flatMap_pieces _ xs, Sequence.isNone_flatMap_pieces_iff⟩

/-- Two names, of which one holds the delimiter and one is empty. -/
theorem waypointNames_reread_cut :
    toQuery { waypointNames := some [some "Depot;Bay 2", some ""] } =
        .ok ⟨[("waypoint_names", "Depot;Bay 2;")]⟩ ∧
      ∃ p', ofQuery ⟨[("waypoint_names", "Depot;Bay 2;")]⟩ = .ok p' ∧
        p'.waypointNames = some [some "Depot", some "Bay 2", none] := by
  have hwrite : toQuery { waypointNames := some [some "Depot;Bay 2", some ""] } =
      .ok ⟨[("waypoint_names", "Depot;Bay 2;")]⟩ := by decide +kernel
  obtain ⟨p', ys, hread, hys, hpieces, -⟩ := waypointNames_reread hwrite rfl (by decide)
  refine ⟨hwrite, p', hread, ?_⟩
  rw [hys, hpieces]
  decide

/-- A present name moves the positions after it if it holds the delimiter, and it comes back
absent if it is empty. -/
theorem waypointNames_shifted :
    (toQuery { waypointNames := some [some "Depot;Bay 2", none] } =
        .ok ⟨[("waypoint_names", "Depot;Bay 2;")]⟩ ∧
      ofQuery ⟨[("waypoint_names", "Depot;Bay 2;")]⟩ =
        .ok { waypointNames := some [some "Depot", some "Bay 2", none] }) ∧
    (toQuery { waypointNames := some [some "", some "Depot"] } =
        .ok ⟨[("waypoint_names", ";Depot")]⟩ ∧
      ofQuery ⟨[("waypoint_names", ";Depot")]⟩ =
        .ok { waypointNames := some [none, some "Depot"] }) ∧
    ¬ ∀ (p p' : Params) (q : Query) (xs : Sequence String), p.toQuery = .ok q →
      p.waypointNames = some xs → 2 ≤ xs.length → ofQuery q = .ok p' →
        ∃ ys, p'.waypointNames = some ys ∧ ys.map Option.isNone = xs.map Option.isNone := by
  have hwrite : toQuery { waypointNames := some [some "Depot;Bay 2", none] } =
      .ok ⟨[("waypoint_names", "Depot;Bay 2;")]⟩ := by decide +kernel
  have hread : ofQuery ⟨[("waypoint_names", "Depot;Bay 2;")]⟩ =
      .ok { waypointNames := some [some "Depot", some "Bay 2", none] } := by decide +kernel
  refine ⟨⟨hwrite, hread⟩, ⟨by decide +kernel, by decide +kernel⟩, fun h => ?_⟩
  obtain ⟨ys, hys, hkept⟩ := h _ _ _ _ hwrite rfl (by decide) hread
  cases hys
  exact absurd hkept (by decide)

end Params

end RouteWire
