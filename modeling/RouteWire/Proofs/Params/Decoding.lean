import RouteWire.Proofs.Params.RoundTrip
import RouteWire.Proofs.Sequence.Failure

/-!
# Parameters are read one by one

The value of a parameter comes from its own entry of the query and from nothing else
(`ofQuery_param_by_param`). A query can be read if the text of each parameter that it has can be
read alone. If not, the failure is that of the first such text that cannot be, in the order of
`Param.all`.

Whatever is wrong with a text, the failure is a malformed element at one of its positions
(`Param.malformed_of_read`). Element readers also fail in other ways, since a criterion with an
unknown name is a bad argument, but all of these are moved to a position (`Failure.relocate`).
-/

set_option autoImplicit false

namespace RouteWire

/-! ### Elements that cannot be read -/

/-- A number that cannot be read is malformed. -/
theorem readNumber_eq_error {t : String} {f : Failure} (h : readNumber t = .error f) :
    f = .malformed 0 f.reason := by
  obtain ⟨reason, -, rfl⟩ := mapError_eq_error_iff.mp h
  rfl

/-- An integer that cannot be read is malformed. -/
theorem readInteger_eq_error {t : String} {f : Failure} (h : readInteger t = .error f) :
    f = .malformed 0 f.reason := by
  obtain ⟨reason, -, rfl⟩ := mapError_eq_error_iff.mp h
  rfl

/-- A truth value that cannot be read is malformed. -/
theorem readBoolean_eq_error {t : String} {f : Failure} (h : readBoolean t = .error f) :
    f = .malformed 0 f.reason := by
  unfold readBoolean at h
  split at h
  · cases h
  · split at h
    · cases h
    · cases h
      rfl

/-- A point fails as one of its numbers, or because there are not two of them. -/
theorem readPoint_eq_error {inner : Char} {t : String} {f : Failure}
    (h : readPoint inner t = .error f) : f = .malformed 0 f.reason := by
  unfold readPoint at h
  split at h
  · rcases bind_eq_error_iff.mp h with hlongitude | ⟨longitude, -, hrest⟩
    · exact readNumber_eq_error hlongitude
    · rcases bind_eq_error_iff.mp hrest with hlatitude | ⟨latitude, -, hpure⟩
      · exact readNumber_eq_error hlatitude
      · cases hpure
  · cases h
    rfl

/-- A bearing that cannot be read is malformed. -/
theorem readBearing_eq_error {t : String} {f : Failure} (h : readBearing t = .error f) :
    f = .malformed 0 f.reason := by
  obtain ⟨field, -, hfield⟩ := exists_of_mapM_eq_error (map_eq_error_iff.mp h)
  exact readNumber_eq_error hfield

/-- A criterion that cannot be read is unknown. -/
theorem Criterion.ofName_eq_error {c : Category} {t : String} {f : Failure}
    (h : Criterion.ofName c t = .error f) : f = .badArgument (.unknownCriterion c t) := by
  unfold Criterion.ofName at h
  cases hname : Criterion.ofName? c t with
  | none =>
      rw [hname] at h
      cases h
      rfl
  | some v =>
      rw [hname] at h
      cases h

namespace Param

variable {k : Param} {t w : String} {e f : Failure}

/-- Moved to its position, every failure of an element says that the element is malformed. -/
theorem relocate_of_readElement (h : k.readElement t = .error f) (i : ℕ) :
    f.relocate i = .malformed i f.reason := by
  cases k with
  | coordinates | waypointTargets =>
      rw [readPoint_eq_error h]
      rfl
  | bearings =>
      rw [readBearing_eq_error h]
      rfl
  | radiuses | waypointNames => cases h
  | waypointIndices | layers =>
      rw [readInteger_eq_error h]
      rfl
  | closures =>
      rw [readBoolean_eq_error h]
      rfl
  | approaches | annotations | exclusions | inclusions | paymentMethods =>
      rw [Criterion.ofName_eq_error h]
      rfl

/-! ### Texts that cannot be read -/

/-- If an element cannot be read, its token is malformed where it stands. -/
theorem malformed_of_sequence
    (h : Sequence.read k.delimiter k.readElement w = .error e) :
    ∃ i reason, e = .malformed i reason ∧ i < (tokens k.delimiter w).length := by
  obtain ⟨t, i, f, ht, hread, rfl⟩ := Sequence.exists_of_read_eq_error h
  obtain ⟨hi, -⟩ := List.getElem?_eq_some_iff.mp ht
  exact ⟨i, f.reason, relocate_of_readElement hread i, hi⟩

/-- The first absent position is the one that is named. -/
theorem requirePresent_eq_error {xs : Sequence Point} {i : ℕ}
    (h : requirePresent i xs = .error e) :
    ∃ j, e = .malformed (i + j) .emptyCoordinate ∧ xs[j]? = some none ∧ none ∉ xs.take j := by
  induction xs generalizing i with
  | nil => cases h
  | cons x xs ih =>
      cases x with
      | none =>
          cases h
          exact ⟨0, rfl, rfl, List.not_mem_nil⟩
      | some p =>
          obtain ⟨j, he, hj, hbefore⟩ := ih (map_eq_error_iff.mp h)
          refine ⟨j + 1, ?_, hj, by simpa using hbefore⟩
          rw [he, Nat.add_assoc, Nat.add_comm 1 j]

/-- A text that cannot be read is malformed at one of its tokens. Coordinates may also miss a
point, and then there is a token at that position as well. -/
theorem malformed_of_read (h : k.read w = .error e) :
    ∃ i reason, e = .malformed i reason ∧ i < (tokens k.delimiter w).length := by
  cases k with
  | coordinates =>
      rw [Param.read] at h
      rcases bind_eq_error_iff.mp h with hread | ⟨xs, hread, hmissing⟩
      · exact malformed_of_sequence (k := coordinates) hread
      · obtain ⟨j, he, hj, -⟩ := requirePresent_eq_error hmissing
        obtain ⟨hj, -⟩ := List.getElem?_eq_some_iff.mp hj
        have hlength := Sequence.length_le_of_read hread
        exact ⟨0 + j, _, he, show 0 + j < (tokens defaultDelimiter w).length by omega⟩
  | _ => exact malformed_of_sequence h

end Param

/-! ### Queries -/

namespace Query

/-- The query with the entry of one parameter. -/
def single (k : Param) (w : String) : Query :=
  ⟨[(k.wireName, w)]⟩

/-- The query of one parameter has its text. -/
theorem get?_single_self (k : Param) (w : String) : (single k w).get? k.wireName = some w := by
  simp [single, get?]

/-- The query of one parameter has no other text. -/
theorem get?_single_of_ne {j k : Param} {w : String} (h : j ≠ k) :
    (single k w).get? j.wireName = none := by
  have hne : (j.wireName == k.wireName) = false :=
    beq_eq_false_iff_ne.mpr fun hname => h (Param.wireName_injective hname)
  simp [single, get?, List.lookup_cons, hne]

end Query

namespace Params

variable {q : Query} {k : Param} {e : Failure}

/-- A parameter fails if its text does. -/
theorem readParam_eq_error_iff :
    readParam q k = .error e ↔ ∃ w, q.get? k.wireName = some w ∧ k.read w = .error e := by
  unfold readParam
  cases q.get? k.wireName with
  | none => simp [pure, Except.pure]
  | some w => simp [map_eq_error_iff]

/-- A parameter is read if its text is, or if it has none. -/
theorem exists_readParam_iff :
    (∃ v, readParam q k = .ok v) ↔
      ∀ w, q.get? k.wireName = some w → ∃ v, k.read w = .ok v := by
  unfold readParam
  cases q.get? k.wireName with
  | none => simp [pure, Except.pure]
  | some w => simp [map_eq_ok_iff]

/-- The failure of a query is that of the first parameter that fails. -/
theorem failure?_ofQuery (q : Query) :
    failure? (ofQuery q) = Param.all.findSome? fun k => failure? (readParam q k) :=
  failure?_foldlM (fun p k => failure?_map (Params.set p k) (readParam q k)) Param.all {}

/-- Parameters are read if each text is. -/
theorem exists_ofQuery_iff :
    (∃ p, ofQuery q = .ok p) ↔
      ∀ (k : Param) w, q.get? k.wireName = some w → ∃ v, k.read w = .ok v := by
  rw [← failure?_eq_none_iff, failure?_ofQuery, List.findSome?_eq_none_iff]
  simp only [failure?_eq_none_iff, exists_readParam_iff]
  exact Param.forall_mem_all_iff

/-- Parameters fail as the first text that does, in their order. -/
theorem ofQuery_eq_error_iff :
    ofQuery q = .error e ↔
      ∃ before k after w, Param.all = before ++ k :: after ∧
        (q.get? k.wireName = some w ∧ k.read w = .error e) ∧
          ∀ j ∈ before, ∀ u, q.get? j.wireName = some u → ∃ v, j.read u = .ok v := by
  rw [← failure?_eq_some_iff, failure?_ofQuery, findSome?_failure?_eq_some_iff]
  simp only [readParam_eq_error_iff, exists_readParam_iff]
  constructor
  · intro ⟨before, k, after, hall, ⟨w, hw⟩, hbefore⟩
    exact ⟨before, k, after, w, hall, hw, hbefore⟩
  · intro ⟨before, k, after, w, hall, hw, hbefore⟩
    exact ⟨before, k, after, hall, ⟨w, hw⟩, hbefore⟩

/-! ### One entry alone -/

/-- An entry alone reads as its own parameter, and it fails with the failure of its text. -/
theorem ofQuery_single (k : Param) (w : String) :
    ofQuery (.single k w) = (fun v => set {} k (some v)) <$> k.read w := by
  cases hread : k.read w with
  | ok v =>
      show _ = Except.ok (set {} k (some v))
      rw [ofQuery_eq_ok_iff]
      intro j
      unfold readParam
      by_cases hjk : j = k
      · subst hjk
        rw [Query.get?_single_self, get_set]
        show some <$> j.read w = _
        rw [hread]
        rfl
      · rw [Query.get?_single_of_ne hjk, get_set_of_ne _ _ hjk]
        cases j <;> rfl
  | error e =>
      show _ = Except.error e
      cases hquery : ofQuery (.single k w) with
      | ok p =>
          have hself := exists_ofQuery_iff.mp ⟨p, hquery⟩ k w (Query.get?_single_self k w)
          rw [hread] at hself
          simp at hself
      | error e' =>
          -- The only text that can fail is that of the entry.
          obtain ⟨_, j, _, u, -, ⟨hu, hfail⟩, -⟩ := ofQuery_eq_error_iff.mp hquery
          by_cases hjk : j = k
          · subst hjk
            rw [Query.get?_single_self] at hu
            cases hu
            rw [hread] at hfail
            exact congrArg Except.error (Except.error.inj hfail).symm
          · rw [Query.get?_single_of_ne hjk] at hu
            cases hu

/-- A query is read parameter by parameter, in the order of the names. The text of a parameter is
cut at the delimiter of the parameter and read as a sequence of its elements, as it would be if no
other entry were there. All texts can be read if and only if the query can be. Then each parameter
is what its own text reads as, and it is unset if the query does not have it, so that the parameter
is the same for any other query with the same text under its name. Otherwise the failure is that
of the first text that cannot be read, which is malformed at one of its tokens. -/
theorem ofQuery_param_by_param (q : Query) :
    Param.all.map Param.wireName =
        ["coordinates", "bearings", "radiuses", "approaches", "waypoints", "waypoint_names",
          "waypoint_targets", "snapping_include_closures", "annotations", "exclude", "include",
          "payment_methods", "layers"] ∧
      (∀ (k : Param) w v,
        k.read w = .ok v ↔ Sequence.read k.delimiter k.readElement w = .ok (k.positions v)) ∧
      (∀ (k : Param) w, ofQuery (.single k w) = (fun v => set {} k (some v)) <$> k.read w) ∧
      ((∃ p, ofQuery q = .ok p) ↔
        ∀ (k : Param) w, q.get? k.wireName = some w → ∃ v, k.read w = .ok v) ∧
      (∀ p, ofQuery q = .ok p → ∀ k : Param,
        Option.Rel (fun w v => k.read w = .ok v) (q.get? k.wireName) (p.get k)) ∧
      (∀ q' p p' (k : Param), ofQuery q = .ok p → ofQuery q' = .ok p' →
        q'.get? k.wireName = q.get? k.wireName → p'.get k = p.get k) ∧
      (∀ e, ofQuery q = .error e ↔
        ∃ before k after w, Param.all = before ++ k :: after ∧
          (q.get? k.wireName = some w ∧ k.read w = .error e) ∧
            ∀ j ∈ before, ∀ u, q.get? j.wireName = some u → ∃ v, j.read u = .ok v) ∧
      ∀ (k : Param) w e, k.read w = .error e →
        ∃ i reason, e = .malformed i reason ∧ i < (tokens k.delimiter w).length := by
  refine ⟨rfl, fun k w v => Param.read_eq_ok_iff, ofQuery_single, exists_ofQuery_iff,
    fun p hp k => ofQuery_get hp k, ?_, fun e => ofQuery_eq_error_iff,
    fun k w e => Param.malformed_of_read⟩
  intro q' p p' k hp hp' hsame
  -- Each parameter is what is read under its name, and this is the same in both queries.
  have hread := ofQuery_eq_ok_iff.mp hp k
  have hread' := ofQuery_eq_ok_iff.mp hp' k
  unfold readParam at hread hread'
  rw [hsame, hread] at hread'
  exact (Except.ok.inj hread').symm

/-- Two texts that cannot be read. The bearings come first, whatever the order of the entries, and
their third token is the one that is named. -/
theorem ofQuery_param_by_param_two_unreadable :
    ofQuery ⟨[("annotations", "speed,altitude"), ("alternatives", "true"),
        ("bearings", "10,20;;x,5"), ("radiuses", "unlimited;-1")]⟩ =
      .error (.malformed 2 (.notNumber "x")) := by
  obtain ⟨-, -, -, -, -, -, hfail, -⟩ := ofQuery_param_by_param
    ⟨[("annotations", "speed,altitude"), ("alternatives", "true"),
      ("bearings", "10,20;;x,5"), ("radiuses", "unlimited;-1")]⟩
  have hread : Param.bearings.read "10,20;;x,5" = .error (.malformed 2 (.notNumber "x")) := by
    decide +kernel
  refine (hfail _).mpr ⟨[.coordinates], .bearings, _, "10,20;;x,5", rfl, ⟨rfl, hread⟩, ?_⟩
  intro j hj u hu
  obtain rfl := List.mem_singleton.mp hj
  cases hu

end Params

end RouteWire
