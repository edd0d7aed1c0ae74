import Mathlib.Data.List.Forall2

/-!
# When a call succeeds and when it fails

The calls of the codec are `Except` computations. These lemmas say, for each way to put such
computations together, when the whole gives a value: if and only if its parts give the values that
it is made of. The others say when it fails: with the failure of the first part that does. Proofs
about calls take them apart with these and never unfold a bind.
-/

set_option autoImplicit false

namespace RouteWire

variable {ε δ α β : Type}

/-- A value at the end comes from a value before it. -/
theorem bind_eq_ok_iff {x : Except ε α} {f : α → Except ε β} {b : β} :
    x >>= f = .ok b ↔ ∃ a, x = .ok a ∧ f a = .ok b := by
  cases x <;> simp [bind, Except.bind]

/-- A value at the end is made of a value. -/
theorem map_eq_ok_iff {x : Except ε α} {f : α → β} {b : β} :
    f <$> x = .ok b ↔ ∃ a, x = .ok a ∧ f a = b := by
  cases x <;> simp [Functor.map, Except.map]

/-- Naming the failure differently leaves values as they are. -/
@[simp] theorem mapError_eq_ok_iff {x : Except ε α} {f : ε → δ} {a : α} :
    x.mapError f = .ok a ↔ x = .ok a := by
  cases x <;> simp [Except.mapError]

/-- What succeeds at once has its value. -/
@[simp] theorem pure_eq_ok_iff {a b : α} : (pure a : Except ε α) = .ok b ↔ a = b := by
  simp [pure, Except.pure]

/-- Each element of the list gives the element of the result in its place. -/
theorem mapM_eq_ok_iff {f : α → Except ε β} {xs : List α} {ys : List β} :
    xs.mapM f = .ok ys ↔ List.Forall₂ (fun x y => f x = .ok y) xs ys := by
  induction xs generalizing ys with
  | nil =>
      show Except.ok [] = Except.ok ys ↔ _
      rw [List.forall₂_nil_left_iff, Except.ok.injEq, eq_comm]
  | cons x xs ih =>
      rw [List.mapM_cons, bind_eq_ok_iff, List.forall₂_cons_left_iff]
      simp only [bind_eq_ok_iff, pure_eq_ok_iff, ih]
      constructor
      · rintro ⟨y, hy, ys, hys, rfl⟩
        exact ⟨y, ys, hy, hys, rfl⟩
      · rintro ⟨y, ys, hy, hys, rfl⟩
        exact ⟨y, hy, ys, hys, rfl⟩

/-- If all succeed, each does. -/
theorem exists_of_mapM {f : α → Except ε β} {xs : List α} {ys : List β}
    (h : xs.mapM f = .ok ys) : ∀ x ∈ xs, ∃ y, f x = .ok y := by
  intro x hx
  obtain ⟨i, hi, rfl⟩ := List.mem_iff_getElem.mp hx
  have hpoint := mapM_eq_ok_iff.mp h
  exact ⟨_, hpoint.get hi (hpoint.length_eq ▸ hi)⟩

/-- If each succeeds with its value, all succeed with the values. -/
theorem mapM_eq_ok_map {f : α → Except ε β} {g : α → β} {xs : List α}
    (h : ∀ x ∈ xs, f x = .ok (g x)) : xs.mapM f = .ok (xs.map g) := by
  rw [mapM_eq_ok_iff, List.forall₂_map_right_iff, List.forall₂_same]
  exact h

/-- An absent value gives an absent result, and a present one a present result. -/
theorem optionMapM_eq_ok_iff {f : α → Except ε β} {x : Option α} {y : Option β} :
    x.mapM f = .ok y ↔ Option.Rel (fun a b => f a = .ok b) x y := by
  cases x with
  | none => cases y <;> simp
  | some a => cases y <;> simp [map_eq_ok_iff]

/-! ### Failures -/

variable {e : ε}

/-- A failure at the end is that of the first part, or else that of the second. -/
theorem bind_eq_error_iff {x : Except ε α} {f : α → Except ε β} :
    x >>= f = .error e ↔ x = .error e ∨ ∃ a, x = .ok a ∧ f a = .error e := by
  cases x <;> simp [bind, Except.bind]

/-- What is made of the value does not change the failure. -/
theorem map_eq_error_iff {x : Except ε α} {f : α → β} : f <$> x = .error e ↔ x = .error e := by
  cases x <;> simp [Functor.map, Except.map]

/-- Another name for the failure. -/
theorem mapError_eq_error_iff {x : Except δ α} {f : δ → ε} :
    x.mapError f = .error e ↔ ∃ e', x = .error e' ∧ f e' = e := by
  cases x <;> simp [Except.mapError]

/-- What succeeds is what does not fail. -/
theorem exists_eq_ok_iff {x : Except ε α} : (∃ a, x = .ok a) ↔ ∀ e, x ≠ .error e := by
  cases x <;> simp

/-- What fails is what does not succeed. -/
theorem exists_eq_error_iff {x : Except ε α} : (∃ e, x = .error e) ↔ ¬ ∃ a, x = .ok a := by
  cases x <;> simp

/-- The failure of a call, if it fails. -/
def failure? : Except ε α → Option ε
  | .error e => some e
  | .ok _ => none

/-- The failure of a computation that fails. -/
theorem failure?_eq_some_iff {x : Except ε α} : failure? x = some e ↔ x = .error e := by
  cases x <;> simp [failure?]

/-- Without a failure there is a value. -/
theorem failure?_eq_none_iff {x : Except ε α} : failure? x = none ↔ ∃ a, x = .ok a := by
  cases x <;> simp [failure?]

/-- What is made of the value does not change whether there is a failure. -/
@[simp] theorem failure?_map (f : α → β) (x : Except ε α) : failure? (f <$> x) = failure? x := by
  cases x <;> rfl

/-- The failure of a list is that of the first of its elements that fails. -/
theorem failure?_mapM (f : α → Except ε β) (xs : List α) :
    failure? (xs.mapM f) = xs.findSome? fun x => failure? (f x) := by
  induction xs with
  | nil => rfl
  | cons x xs ih =>
      rw [List.mapM_cons, List.findSome?_cons, ← ih]
      cases f x with
      | error e => rfl
      | ok y => cases xs.mapM f <;> rfl

/-- The steps of a run may build on each other. If they do not in whether and how they fail, the
failure of the run is again that of the first step that fails. -/
theorem failure?_foldlM {f : β → α → Except ε β} {g : α → Option ε}
    (h : ∀ b x, failure? (f b x) = g x) (xs : List α) (b : β) :
    failure? (xs.foldlM f b) = xs.findSome? g := by
  induction xs generalizing b with
  | nil => rfl
  | cons x xs ih =>
      rw [List.foldlM_cons, List.findSome?_cons, ← h b x]
      cases f b x with
      | error e => rfl
      | ok b => exact ih b

/-- The first failure is that of an element before which all succeed. -/
theorem findSome?_failure?_eq_some_iff {β : α → Type} {f : ∀ a, Except ε (β a)} {xs : List α} :
    xs.findSome? (fun x => failure? (f x)) = some e ↔
      ∃ before x after, xs = before ++ x :: after ∧ f x = .error e ∧
        ∀ y ∈ before, ∃ b, f y = .ok b := by
  simp only [List.findSome?_eq_some_iff, failure?_eq_some_iff, failure?_eq_none_iff]

/-- What cannot fail may be left out of the search for a failure. -/
theorem findSome?_failure?_filter {β : α → Type} {f : ∀ a, Except ε (β a)} {keep : α → Bool}
    {xs : List α} (h : ∀ x ∈ xs, keep x = false → ∃ b, f x = .ok b) :
    ((xs.filter keep).findSome? fun x => failure? (f x)) =
      xs.findSome? fun x => failure? (f x) := by
  induction xs with
  | nil => rfl
  | cons x xs ih =>
      obtain ⟨hx, hxs⟩ := List.forall_mem_cons.mp h
      rw [List.findSome?_cons, ← ih hxs]
      cases hkeep : keep x with
      | false => rw [List.filter_cons_of_neg (by simp [hkeep]), failure?_eq_none_iff.mpr (hx hkeep)]
      | true => rw [List.filter_cons_of_pos hkeep, List.findSome?_cons]

/-- If one of all fails, it is one of them that does. -/
theorem exists_of_mapM_eq_error {f : α → Except ε β} {xs : List α} (h : xs.mapM f = .error e) :
    ∃ x ∈ xs, f x = .error e := by
  rw [← failure?_eq_some_iff, failure?_mapM] at h
  obtain ⟨x, hx, hfail⟩ := List.exists_of_findSome?_eq_some h
  exact ⟨x, hx, failure?_eq_some_iff.mp hfail⟩

end RouteWire
