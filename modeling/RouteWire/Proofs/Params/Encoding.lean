import RouteWire.Proofs.Params.RoundTrip
import RouteWire.Proofs.Session.Perform

/-!
# Parameters are written one by one

The text of a parameter comes from its own value and from nothing else, and it is what the writer
of its field gives (`toQuery_param_by_param`). Of the thirteen fields only four can fail
(`checkedFields`). The other nine cannot, if every criterion is in its catalogue: approaches are
checked by their names, but a name that comes from the catalogue passes that check.

Parameters can be written if and only if each of their elements can be (`exists_toQuery_iff`).
`Param.Writable` says which elements can, in terms of the element and not of the rule of its field.
-/

set_option autoImplicit false

namespace RouteWire

/-! ### Elements that can be written -/

namespace Param

variable {k : Param} {x : k.Element}

/-- The element can be written: numbers in it are finite, it breaks no rule of its field, and if it
is a criterion, it is in its catalogue. -/
def Writable : (k : Param) → k.Element → Prop
  | coordinates, p => Point.IsFinite p
  | bearings, b => ∀ v, ¬ BearingViolation b v
  | radiuses, s => ∀ v, ¬ RadiusViolation s v
  | approaches, v => Criterion.Valid v
  | waypointIndices, _ => True
  | waypointNames, _ => True
  | waypointTargets, p => Point.IsFinite p
  | closures, _ => True
  | annotations, v => Criterion.Valid v
  | exclusions, v => Criterion.Valid v
  | inclusions, v => Criterion.Valid v
  | paymentMethods, v => Criterion.Valid v
  | layers, _ => True

/-- An element has a text if and only if it can be written. -/
theorem exists_text_iff_writable : (∃ t, k.Text x t) ↔ k.Writable x := by
  cases k with
  | coordinates | waypointTargets =>
      show (∃ t, Rule.point x = .ok t) ↔ Point.IsFinite x
      simp [exists_eq_ok_iff, Rule.point_eq_error_iff]
  | bearings =>
      show (∃ t, Rule.bearing x = .ok t) ↔ ∀ v, ¬ BearingViolation x v
      simp [exists_eq_ok_iff, Rule.bearing_eq_error_iff]
  | radiuses =>
      show (∃ t, Rule.radius x = .ok t) ↔ ∀ v, ¬ RadiusViolation x v
      simp [exists_eq_ok_iff, Rule.radius_eq_error_iff]
  | approaches | annotations | exclusions | inclusions | paymentMethods =>
      show (∃ t, some <$> Criterion.name x = .ok t) ↔ Criterion.Valid x
      rw [← Criterion.exists_name_iff_valid]
      simp [map_eq_ok_iff]
  | waypointIndices | waypointNames | closures | layers => exact iff_true_intro ⟨_, rfl⟩

end Param

namespace Params

variable {p : Params} {k : Param}

/-- A parameter can be written if and only if its elements can be. -/
theorem exists_text_iff : (∃ t, p.text k = .ok t) ↔ ∀ x, p.Holds k x → k.Writable x := by
  unfold text Holds
  cases p.get k with
  | none => simp
  | some v => simp [Param.exists_write_iff, Param.exists_text_iff_writable]

/-- Parameters can be written if and only if each of their elements can be. -/
theorem exists_toQuery_iff : (∃ q, p.toQuery = .ok q) ↔ ∀ k x, p.Holds k x → k.Writable x := by
  simp only [exists_toQuery_iff_text, exists_text_iff]

/-- A parameter is refused if and only if one of its elements cannot be written. -/
theorem exists_text_eq_error_iff :
    (∃ refusal, p.text k = .error refusal) ↔ ∃ x, p.Holds k x ∧ ¬ k.Writable x := by
  rw [exists_eq_error_iff, exists_text_iff]
  push Not
  rfl

/-- Parameters are refused if and only if an element of one of them cannot be written. -/
theorem exists_toQuery_eq_error_iff :
    (∃ refusal, p.toQuery = .error refusal) ↔ ∃ k x, p.Holds k x ∧ ¬ k.Writable x := by
  rw [exists_eq_error_iff, exists_toQuery_iff]
  push Not
  rfl

end Params

/-! ### The fields that are checked -/

/-- A criterion is in its catalogue; nothing is asked of other elements. -/
def Param.InCatalogue : (k : Param) → k.Element → Prop
  | approaches, v => Criterion.Valid v
  | annotations, v => Criterion.Valid v
  | exclusions, v => Criterion.Valid v
  | inclusions, v => Criterion.Valid v
  | paymentMethods, v => Criterion.Valid v
  | _, _ => True

namespace Params

variable {p : Params} {k : Param}

/-- Every criterion is in its catalogue. -/
def Catalogued (p : Params) : Prop :=
  ∀ k x, p.Holds k x → k.InCatalogue x

/-- The fields whose elements are checked, in the order in which they are written. Unset
coordinates are checked as no coordinates at all. -/
def checkedFields (p : Params) : List FieldValue :=
  [.coordinates (p.coordinates.getD []), .bearings p.bearings, .radiuses p.radiuses,
    .waypointTargets p.waypointTargets]

/-- The parameters that these fields are written from. -/
def checked : List Param :=
  [.coordinates, .bearings, .radiuses, .waypointTargets]

/-- The approaches are checked as well, but a name from the catalogue passes. -/
theorem exists_text_of_catalogued (h : p.Catalogued) (hk : k ∉ checked) :
    ∃ t, p.text k = .ok t := by
  rw [exists_text_iff]
  intro x hx
  have hvalid := h k x hx
  cases k with
  | coordinates | bearings | radiuses | waypointTargets => simp [checked] at hk
  | _ => exact hvalid

/-- Bearings are refused for a bearing that cannot be written. -/
theorem exists_writeBearings_eq_error_iff :
    (∃ rejection, writeBearings p.bearings = .error rejection) ↔
      ∃ b, p.Holds .bearings b ∧ ¬ Param.bearings.Writable b := by
  have htext : p.text .bearings = writeBearings p.bearings := by
    obtain ⟨_, bearings⟩ := p
    cases bearings <;> rfl
  rw [← exists_text_eq_error_iff, htext]

/-- Radiuses are refused for a radius that cannot be written. -/
theorem exists_writeRadiuses_eq_error_iff :
    (∃ rejection, writeRadiuses p.radiuses = .error rejection) ↔
      ∃ s, p.Holds .radiuses s ∧ ¬ Param.radiuses.Writable s := by
  have htext : p.text .radiuses = writeRadiuses p.radiuses := by
    obtain ⟨_, _, radiuses⟩ := p
    cases radiuses <;> rfl
  rw [← exists_text_eq_error_iff, htext]

/-- An unset parameter cannot fail, and neither can its field. -/
theorem findSome?_checked (p : Params) :
    (checked.findSome? fun k => failure? (p.text k)) =
      p.checkedFields.findSome? fun f => failure? f.write := by
  obtain ⟨coordinates, bearings, radiuses, _, _, _, targets⟩ := p
  cases coordinates <;> cases bearings <;> cases radiuses <;> cases targets <;> rfl

/-- Parameters fail as the first of the checked fields that does. -/
theorem failure?_toQuery_of_catalogued (h : p.Catalogued) :
    failure? p.toQuery = p.checkedFields.findSome? fun f => failure? f.write := by
  have hchecked : checked = Param.all.filter (· ∈ checked) := rfl
  rw [← findSome?_checked, failure?_toQuery, hchecked, findSome?_failure?_filter]
  intro k _ hk
  exact exists_text_of_catalogued h (of_decide_eq_false hk)

/-- Parameters whose criteria are in their catalogues fail as the first checked field that does. -/
theorem toQuery_eq_error_iff (h : p.Catalogued) {refusal : Refusal} :
    p.toQuery = .error refusal ↔
      ∃ before f after, p.checkedFields = before ++ f :: after ∧ f.write = .error refusal ∧
        ∀ g ∈ before, ∃ w, g.write = .ok w := by
  rw [← failure?_eq_some_iff, failure?_toQuery_of_catalogued h, findSome?_failure?_eq_some_iff]

/-! ### The query -/

/-- A parameter has a text if it is set, unless it is an empty list of waypoint names. -/
theorem isSome_iff_of_text {t : Option String} (h : p.text k = .ok t) :
    t.isSome = true ↔
      (p.get k).isSome = true ∧ ¬ (k = .waypointNames ∧ p.waypointNames = some []) := by
  cases hget : p.get k with
  | none =>
      rw [text, hget] at h
      cases h
      simp
  | some v =>
      -- The value is that of the waypoint names if the parameter is.
      have hempty : k = .waypointNames ∧ p.waypointNames = some [] ↔
          k = .waypointNames ∧ k.positions v = [] := by
        refine and_congr_right fun hk => ?_
        subst hk
        rw [show p.waypointNames = some v from hget, Option.some_inj]
        rfl
      rw [text_of_get hget, Param.write_eq_ok_iff] at h
      rw [hempty]
      split at h
      · rename_i hnames
        simp [h, hnames]
      · rename_i hnames
        obtain ⟨ts, -, rfl⟩ := h
        simp [hnames]

/-- The text of a parameter is that of the field that it is written as. -/
theorem exists_field_of_text {t : Option String} {v : k.Value} (h : p.text k = .ok t)
    (hget : p.get k = some v) : ∃ f, k.field v = .ok f ∧ f.write = .ok t := by
  rw [text_of_get hget, Param.write_eq_field, bind_eq_ok_iff] at h
  obtain ⟨f, hf, ht⟩ := h
  exact ⟨f, silently_eq_ok_iff.mp hf, ht⟩

/-- Parameters are written field by field. If every criterion is in its catalogue, they cannot be
written if and only if a coordinate or a waypoint target is not finite, or the bearings or the
radiuses are rejected. The failure is that of the first of these fields that fails, and no other
parameter has a part in it. Otherwise the names of the query are those of the parameters that are
set, each of them once; an empty list of waypoint names counts as unset. The text of a name is that
of the field of its parameter. -/
theorem toQuery_param_by_param (h : p.Catalogued) :
    ((∃ refusal, p.toQuery = .error refusal) ↔
        (∃ c, p.Holds .coordinates c ∧ ¬ Point.IsFinite c) ∨
          (∃ rejection, writeBearings p.bearings = .error rejection) ∨
          (∃ rejection, writeRadiuses p.radiuses = .error rejection) ∨
          ∃ t, p.Holds .waypointTargets t ∧ ¬ Point.IsFinite t) ∧
      (∀ refusal, p.toQuery = .error refusal ↔
        ∃ before f after, p.checkedFields = before ++ f :: after ∧ f.write = .error refusal ∧
          ∀ g ∈ before, ∃ w, g.write = .ok w) ∧
      ∀ q, p.toQuery = .ok q →
        q.names.Nodup ∧
          (∀ name, name ∈ q.names ↔
            ∃ k : Param, k.wireName = name ∧ (p.get k).isSome = true ∧
              ¬ (k = .waypointNames ∧ p.waypointNames = some [])) ∧
          ∀ (k : Param) v, p.get k = some v →
            ∃ f, k.field v = .ok f ∧ f.write = .ok (q.get? k.wireName) := by
  refine ⟨?_, fun refusal => toQuery_eq_error_iff h, ?_⟩
  · rw [exists_toQuery_eq_error_iff, exists_writeBearings_eq_error_iff,
      exists_writeRadiuses_eq_error_iff]
    constructor
    · intro ⟨k, x, hx, hwrong⟩
      cases k with
      | coordinates => exact .inl ⟨x, hx, hwrong⟩
      | bearings => exact .inr (.inl ⟨x, hx, hwrong⟩)
      | radiuses => exact .inr (.inr (.inl ⟨x, hx, hwrong⟩))
      | waypointTargets => exact .inr (.inr (.inr ⟨x, hx, hwrong⟩))
      -- Other elements are criteria in their catalogues, or can always be written.
      | _ => exact absurd (h _ x hx) hwrong
    · rintro (⟨x, hwrong⟩ | ⟨x, hwrong⟩ | ⟨x, hwrong⟩ | ⟨x, hwrong⟩)
      · exact ⟨.coordinates, x, hwrong⟩
      · exact ⟨.bearings, x, hwrong⟩
      · exact ⟨.radiuses, x, hwrong⟩
      · exact ⟨.waypointTargets, x, hwrong⟩
  · intro q hq
    obtain ⟨text, htext, rfl⟩ := toQuery_eq_ok_iff.mp hq
    refine ⟨Query.nodup_names_ofTexts text, ?_, ?_⟩
    · intro name
      simp only [Query.mem_names_ofTexts, isSome_iff_of_text (htext _)]
    · intro k v hget
      rw [Query.get?_ofTexts]
      exact exists_field_of_text (htext k) hget

/-- A waypoint target at infinity would fail as well, but the bearings come before it. -/
theorem toQuery_param_by_param_bearings_first :
    let p : Params :=
      { bearings := some [none, some []]
        approaches := some [some ⟨1⟩]
        waypointTargets := some [some ⟨⟨0x7ff0000000000000⟩, ⟨0⟩⟩] }
    p.Catalogued ∧ p.toQuery = .error (.announced ⟨.bearings, 1, .malformed .bearingSize⟩) := by
  intro p
  have hcatalogued : p.Catalogued := by
    intro k x ⟨v, hv, hx⟩
    cases k with
    | approaches =>
        cases hv
        have hcurb : x = ⟨1⟩ := by simpa [Param.positions] using hx
        rw [hcurb]
        show Criterion.Valid (c := .approach) ⟨1⟩
        decide
    | annotations | exclusions | inclusions | paymentMethods => cases hv
    | _ => trivial
  refine ⟨hcatalogued, ((toQuery_param_by_param hcatalogued).2.1 _).mpr ?_⟩
  refine ⟨[.coordinates []], .bearings p.bearings, _, rfl, rfl, ?_⟩
  intro g hg
  obtain rfl := List.mem_singleton.mp hg
  exact ⟨_, rfl⟩

end Params

end RouteWire
