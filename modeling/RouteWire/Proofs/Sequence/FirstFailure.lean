import RouteWire.Call.Basic
import RouteWire.Proofs.Sequence.Failure

/-!
# The first token that cannot be read

A list is read as far as its first token that cannot be. `FirstFailure` names this token by its
position, and with it the whole outcome of a text is known (`read_by_tokens`): the failure is
that of the token, as a malformed element at the position if the element reader failed to read
(`Failure.Unreadable`), and as it is if the reader failed in another way. What stands after the
token, and how it would be read, makes no difference.
-/

set_option autoImplicit false

namespace RouteWire

/-- The failures of an element reader that say that an element cannot be read. -/
inductive Failure.Unreadable : Failure → Prop where
  | malformed (i : ℕ) (r : Reason) : Unreadable (.malformed i r)
  | badArgument (r : Reason) : Unreadable (.badArgument r)
  | outOfRange (r : Reason) : Unreadable (.outOfRange r)

/-- Such a failure loses its own position and keeps its reason, and with it its wording. -/
theorem Failure.relocate_of_unreadable {e : Failure} (h : e.Unreadable) (i : ℕ) :
    e.relocate i = .malformed i e.reason := by
  cases h with
  | malformed j r => rfl
  | badArgument r => rfl
  | outOfRange r => rfl

/-- Only a failure to read a token is moved to a position. -/
theorem Failure.relocate_of_not_unreadable {e : Failure} (h : ¬ e.Unreadable) (i : ℕ) :
    e.relocate i = e := by
  cases e with
  | malformed j r => exact absurd (.malformed j r) h
  | badArgument r => exact absurd (.badArgument r) h
  | outOfRange r => exact absurd (.outOfRange r) h
  | invalid j r => rfl
  | badDocument r => rfl
  | general r => rfl

namespace Sequence

variable {α : Type} {d : Char} {read : String → Except Failure α} {w : String}
  {t : String} {ts : List String} {e : Failure}

/-- The token at position `i` cannot be read, for the reason `e`, and all tokens before it can be.
Empty tokens are not read. -/
structure FirstFailure (read : String → Except Failure α) (ts : List String) (i : ℕ)
    (e : Failure) : Prop where
  fails : ∃ t, ts[i]? = some t ∧ t ≠ "" ∧ read t = .error e
  before : ∀ t ∈ ts.take i, t ≠ "" → ∃ a, read t = .ok a

/-! ### Where the first failure is -/

/-- The first token fails if it cannot be read. -/
theorem firstFailure_zero (hne : t ≠ "") (hread : read t = .error e) :
    FirstFailure read (t :: ts) 0 e :=
  ⟨⟨t, rfl, hne, hread⟩, fun _ h => absurd h List.not_mem_nil⟩

/-- Behind a token that is read, or that is empty, the first failure is one position further on. -/
theorem firstFailure_succ {i : ℕ} (hfirst : t ≠ "" → ∃ a, read t = .ok a)
    (h : FirstFailure read ts i e) : FirstFailure read (t :: ts) (i + 1) e := by
  refine ⟨h.fails, fun s hs hne => ?_⟩
  rcases List.mem_cons.mp hs with rfl | hs
  · exact hfirst hne
  · exact h.before s hs hne

/-- Either all tokens can be read or there is a first one that cannot be. -/
theorem readable_or_firstFailure (read : String → Except Failure α) (ts : List String) :
    (∀ t ∈ ts, t ≠ "" → ∃ a, read t = .ok a) ∨ ∃ i e, FirstFailure read ts i e := by
  induction ts with
  | nil => exact .inl fun t ht => absurd ht List.not_mem_nil
  | cons t ts ih =>
      by_cases hfirst : t ≠ "" → ∃ a, read t = .ok a
      · rcases ih with hrest | ⟨i, e, hrest⟩
        · exact .inl (List.forall_mem_cons.mpr ⟨hfirst, hrest⟩)
        · exact .inr ⟨i + 1, e, firstFailure_succ hfirst hrest⟩
      · -- A token that is not read is not empty, and its reader fails.
        obtain ⟨hne, hfails⟩ := Classical.not_imp.mp hfirst
        obtain ⟨e, he⟩ := exists_eq_error_iff.mpr hfails
        exact .inr ⟨0, e, firstFailure_zero hne he⟩

/-- The tokens from the failure on do not matter, nor does how they would be read. -/
theorem FirstFailure.congr {read' : String → Except Failure α} {ts' : List String} {i : ℕ}
    (h : FirstFailure read ts i e) (htake : ts'.take (i + 1) = ts.take (i + 1))
    (hread : ∀ t ∈ ts.take (i + 1), read' t = read t) : FirstFailure read' ts' i e := by
  obtain ⟨⟨t, ht, hne, hfails⟩, hbefore⟩ := h
  have hget : ∀ us : List String, (us.take (i + 1))[i]? = us[i]? := fun us =>
    List.getElem?_take_of_lt (Nat.lt_succ_self i)
  -- The tokens agree up to the failure, and so they do before it.
  have htake' : ts'.take i = ts.take i := by
    have h := congrArg (List.take i) htake
    rwa [List.take_take, List.take_take, Nat.min_eq_left (Nat.le_succ i)] at h
  have hmem : t ∈ ts.take (i + 1) := by
    rw [← hget] at ht
    exact List.mem_of_getElem? ht
  constructor
  · refine ⟨t, ?_, hne, (hread t hmem).trans hfails⟩
    rw [← hget, htake, hget, ht]
  · intro s hs hsne
    rw [htake'] at hs
    rw [hread s (List.take_subset_take_left ts (Nat.le_succ i) hs)]
    exact hbefore s hs hsne

/-! ### What the outcome is -/

/-- Tokens are read if each of them is empty or can be read. -/
theorem exists_readFrom_iff {i : ℕ} :
    (∃ xs, readFrom read i ts = .ok xs) ↔ ∀ t ∈ ts, t ≠ "" → ∃ a, read t = .ok a := by
  simp only [readFrom_eq_ok_iff]
  induction ts with
  | nil => simp
  | cons t ts ih =>
      -- Tokens and positions are related one by one, so the first ones can be set apart.
      rw [List.forall_mem_cons, ← ih]
      constructor
      · intro ⟨xs, hxs⟩
        obtain ⟨x, ys, hx, hys, -⟩ := List.forall₂_cons_left_iff.mp hxs
        refine ⟨fun hne => ?_, ys, hys⟩
        cases hx with
        | absent => exact absurd rfl hne
        | present _ hread => exact ⟨_, hread⟩
      · intro ⟨hfirst, xs, hxs⟩
        by_cases hempty : t = ""
        · subst hempty
          exact ⟨none :: xs, .cons .absent hxs⟩
        · obtain ⟨a, ha⟩ := hfirst hempty
          exact ⟨some a :: xs, .cons (.present hempty ha) hxs⟩

/-- Reading stops at the first failure and moves it to its position. -/
theorem readFrom_of_firstFailure {i k : ℕ} (h : FirstFailure read ts k e) :
    readFrom read i ts = .error (e.relocate (i + k)) := by
  induction ts generalizing i k with
  | nil =>
      obtain ⟨t, ht, -⟩ := h.fails
      cases ht
  | cons t ts ih =>
      obtain ⟨⟨s, hs, hne, hfails⟩, hbefore⟩ := h
      cases k with
      | zero =>
          obtain rfl : t = s := Option.some.inj hs
          rw [readFrom_cons, if_neg hne, hfails]
          rfl
      | succ k =>
          -- The first token is before the failure, so that it gives a position.
          obtain ⟨hfirst, hbefore⟩ := List.forall_mem_cons.mp hbefore
          have hrest : readFrom read (i + 1) ts = .error (e.relocate (i + (k + 1))) := by
            rw [ih ⟨⟨s, hs, hne, hfails⟩, hbefore⟩, Nat.add_right_comm, Nat.add_assoc]
          rw [readFrom_cons, hrest]
          by_cases hempty : t = ""
          · rw [if_pos hempty]
            rfl
          · obtain ⟨a, ha⟩ := hfirst hempty
            rw [if_neg hempty, ha]
            rfl

/-- A text fails as its first token that does, at the position of that token. -/
theorem read_of_firstFailure {i : ℕ} (h : FirstFailure read (tokens d w) i e) :
    Sequence.read d read w = .error (e.relocate i) := by
  have hw : w ≠ "" := by
    -- The only token of the empty text is empty.
    rintro rfl
    obtain ⟨t, ht, hne, -⟩ := h.fails
    have hmem := List.mem_of_getElem? ht
    exact hne (by simpa [tokens, splitAtEach] using hmem)
  rw [Sequence.read, if_neg hw, readFrom_of_firstFailure h, Nat.zero_add]

/-- The position of a token is absent if the token is empty, and holds what the token reads as if
it is not. -/
theorem getElem?_of_read {xs : Sequence α} (h : List.Forall₂ (ReadsAs read) ts xs) {i : ℕ}
    (ht : ts[i]? = some t) :
    (t = "" → xs[i]? = some none) ∧ (t ≠ "" → ∃ a, read t = .ok a ∧ xs[i]? = some (some a)) := by
  induction h generalizing i with
  | nil => cases ht
  | @cons s x ts xs hfirst _ ih =>
      cases i with
      | succ i => exact ih ht
      | zero =>
          obtain rfl : s = t := Option.some.inj ht
          cases hfirst with
          | absent => exact ⟨fun _ => rfl, fun hne => absurd rfl hne⟩
          | present hne hread => exact ⟨fun hempty => absurd hempty hne, fun _ => ⟨_, hread, rfl⟩⟩

/-- A position is absent where a token is empty. -/
theorem empty_mem_iff_of_reads {xs : Sequence α} (h : List.Forall₂ (ReadsAs read) ts xs) :
    "" ∈ ts ↔ none ∈ xs := by
  induction h with
  | nil => simp
  | cons hfirst _ ih =>
      cases hfirst with
      | absent => simp
      | present hne _ => simp [hne.symm, ih]

/-- A text is read token by token. It can be read if every token can be, the empty ones apart, and
then each position comes from its own token. If not, the first token that cannot be read decides:
the failure of its reader becomes a malformed element at its position, with the same reason, or
stays as it is if it is of another kind. Nothing after that token has an influence. -/
theorem read_by_tokens (hw : w ≠ "") :
    ((∃ xs, Sequence.read d read w = .ok xs) ↔
        ∀ t ∈ tokens d w, t ≠ "" → ∃ a, read t = .ok a) ∧
      (∀ xs : Sequence α, Sequence.read d read w = .ok xs → xs.length = (tokens d w).length ∧
        ∀ (i : ℕ) (t : String), (tokens d w)[i]? = some t → (t = "" → xs[i]? = some none) ∧
          (t ≠ "" → ∃ a, read t = .ok a ∧ xs[i]? = some (some a))) ∧
      ((¬ ∃ xs, Sequence.read d read w = .ok xs) →
        ∃ i e, FirstFailure read (tokens d w) i e) ∧
      ∀ i e, FirstFailure read (tokens d w) i e →
        (e.Unreadable → Sequence.read d read w = .error (.malformed i e.reason)) ∧
        (¬ e.Unreadable → Sequence.read d read w = .error e) ∧
        ∀ read' w', (tokens d w').take (i + 1) = (tokens d w).take (i + 1) →
          (∀ t ∈ (tokens d w).take (i + 1), read' t = read t) →
          Sequence.read d read' w' = Sequence.read d read w := by
  -- Only the empty text is not read token by token.
  have hfrom : Sequence.read d read w = readFrom read 0 (tokens d w) := if_neg hw
  refine ⟨?_, fun xs hxs => ?_, fun hfails => ?_, fun i e hfirst => ⟨fun he => ?_, fun he => ?_,
    fun read' w' htake hread => ?_⟩⟩
  · rw [hfrom, exists_readFrom_iff]
  · rw [hfrom, readFrom_eq_ok_iff] at hxs
    exact ⟨hxs.length_eq.symm, fun i t ht => getElem?_of_read hxs ht⟩
  · rw [hfrom, exists_readFrom_iff] at hfails
    exact (readable_or_firstFailure read (tokens d w)).resolve_left hfails
  · rw [read_of_firstFailure hfirst, Failure.relocate_of_unreadable he]
  · rw [read_of_firstFailure hfirst, Failure.relocate_of_not_unreadable he]
  · rw [read_of_firstFailure hfirst, read_of_firstFailure (hfirst.congr htake hread)]

/-- A reader of sizes that fails for two tokens, in different ways. -/
def readSomeSizes : String → Except Failure Int :=
  SequenceKind.readSize
    [("far", .outOfRange (.custom "too far")), ("bad", .invalid 88 (.custom "not allowed"))]

/-- Either of the two tokens first, behind an absent position. -/
theorem read_by_tokens_two_failures :
    FirstFailure readSomeSizes (tokens ',' ",12,far,bad") 2 (.outOfRange (.custom "too far")) ∧
      Sequence.read ',' readSomeSizes ",12,far,bad" =
        .error (.malformed 2 (.custom "too far")) ∧
      FirstFailure readSomeSizes (tokens ',' ",12,bad,far") 2
        (.invalid 88 (.custom "not allowed")) ∧
      Sequence.read ',' readSomeSizes ",12,bad,far" =
        .error (.invalid 88 (.custom "not allowed")) := by
  have hthird : ∀ {t : String} {ts : List String} {e : Failure}, t ≠ "" →
      readSomeSizes t = .error e → FirstFailure readSomeSizes ("" :: "12" :: t :: ts) 2 e :=
    fun hne hread => firstFailure_succ (fun hempty => absurd rfl hempty)
      (firstFailure_succ (fun _ => ⟨2, rfl⟩) (firstFailure_zero hne hread))
  have hfar : FirstFailure readSomeSizes (tokens ',' ",12,far,bad") 2
      (.outOfRange (.custom "too far")) := by
    rw [show tokens ',' ",12,far,bad" = ["", "12", "far", "bad"] by decide +kernel]
    exact hthird (by decide) rfl
  have hbad : FirstFailure readSomeSizes (tokens ',' ",12,bad,far") 2
      (.invalid 88 (.custom "not allowed")) := by
    rw [show tokens ',' ",12,bad,far" = ["", "12", "bad", "far"] by decide +kernel]
    exact hthird (by decide) rfl
  have hmoved := ((read_by_tokens (by decide)).2.2.2 2 _ hfar).1 (.outOfRange _)
  have hkept := ((read_by_tokens (by decide)).2.2.2 2 _ hbad).2.1 (fun h => by cases h)
  exact ⟨hfar, hmoved, hbad, hkept⟩

end Sequence

end RouteWire
