import RouteWire.Proofs.Sequence.RoundTrip

/-!
# Sequences that cannot be read

A text is read token by token, each at its position. So the text fails as its first token that
fails, with the failure moved to the position of this token (`readFrom_eq_mapM`). A position that
a failure names is that of a token (`exists_of_read_eq_error`).

Of a text that is read, the present positions are the tokens that are not empty (`mem_iff_of_read`).
-/

set_option autoImplicit false

namespace RouteWire.Sequence

variable {α : Type} {d : Char} {read : String → Except Failure α} {w : String}

/-- Reads the token at a position. An empty token is an absent position, and a failure is moved to
the position. -/
def readAt (read : String → Except Failure α) (token : String × ℕ) : Except Failure (Option α) :=
  if token.1 = "" then .ok none
  else some <$> (read token.1).mapError (Failure.relocate token.2)

/-- Reading tokens one after the other is reading each at its position. -/
theorem readFrom_eq_mapM (read : String → Except Failure α) (i : ℕ) (ts : List String) :
    readFrom read i ts = (ts.zipIdx i).mapM (readAt read) := by
  induction ts generalizing i with
  | nil => rfl
  | cons t ts ih =>
      rw [readFrom_cons, List.zipIdx_cons, List.mapM_cons, ih]
      rfl

/-- A text that cannot be read has a token that cannot be. -/
theorem exists_of_read_eq_error {e : Failure} (h : Sequence.read d read w = .error e) :
    ∃ t i f, (tokens d w)[i]? = some t ∧ read t = .error f ∧ f.relocate i = e := by
  unfold Sequence.read at h
  split at h
  · cases h
  · rw [readFrom_eq_mapM] at h
    obtain ⟨⟨t, i⟩, hmem, hread⟩ := exists_of_mapM_eq_error h
    unfold readAt at hread
    split at hread
    · cases hread
    · obtain ⟨f, hf, hmoved⟩ := mapError_eq_error_iff.mp (map_eq_error_iff.mp hread)
      exact ⟨t, i, f, List.mem_zipIdx_iff_getElem?.mp hmem, hf, hmoved⟩

/-- No text reads as more positions than it has tokens. -/
theorem length_le_of_read {xs : Sequence α} (h : Sequence.read d read w = .ok xs) :
    xs.length ≤ (tokens d w).length := by
  rw [read_eq_ok_iff] at h
  split at h
  · rw [h]
    exact Nat.zero_le _
  · exact Nat.le_of_eq h.length_eq.symm

/-- The elements that are read are those of the tokens that are not empty. -/
theorem mem_iff_of_read {xs : Sequence α} {a : α} (h : Sequence.read d read w = .ok xs) :
    some a ∈ xs ↔ ∃ t ∈ tokens d w, t ≠ "" ∧ read t = .ok a := by
  rw [read_eq_ok_iff] at h
  split at h
  · -- The only token of the empty text is empty.
    rename_i hempty
    subst hempty
    simp [h, tokens, splitAtEach]
  · generalize tokens d w = ts at h ⊢
    induction h with
    | nil => simp
    | @cons t x ts xs hfirst _ ih =>
        have hhead : some a = x ↔ t ≠ "" ∧ read t = .ok a := by
          cases hfirst with
          | absent => simp
          | present hne hread => simp [hne, hread, eq_comm]
        rw [List.mem_cons, hhead, ih]
        simp

/-- Every token of a text that is read is read, the empty ones apart. -/
theorem exists_of_mem_tokens {xs : Sequence α} {t : String} (h : Sequence.read d read w = .ok xs)
    (ht : t ∈ tokens d w) (hne : t ≠ "") : ∃ a, read t = .ok a := by
  rw [read_eq_ok_iff] at h
  split at h
  · rename_i hempty
    subst hempty
    simp [tokens, splitAtEach] at ht
    exact absurd ht hne
  · generalize tokens d w = ts at h ht
    induction h with
    | nil => exact absurd ht List.not_mem_nil
    | cons hfirst _ ih =>
        rcases List.mem_cons.mp ht with rfl | ht
        · cases hfirst with
          | absent => exact absurd rfl hne
          | present _ hread => exact ⟨_, hread⟩
        · exact ih ht

end RouteWire.Sequence
