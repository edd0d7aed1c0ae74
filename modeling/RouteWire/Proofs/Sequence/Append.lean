import RouteWire.Proofs.Sequence.FirstFailure

/-!
# Reading two texts as one

A text that is put together from two others, with a delimiter between them, is read as the two
texts one after the other: no token spans the delimiter (`tokens_push_append`), and reading a token
depends on nothing before it but its position (`readFrom_add`). So the positions of the second text
come behind those of the first one, and a failure in it is that many positions further on
(`Failure.later`). `read_push_append_eq` says so in one equation, and `read_push_append` says what
this means for each outcome of the two texts.
-/

set_option autoImplicit false

namespace RouteWire

/-- The failure of a list behind `count` other positions. Only a malformed element is named by its
position in the list; what else an element reader fails with stays as it is. -/
def Failure.later (count : ℕ) : Failure → Failure
  | malformed i r => .malformed (i + count) r
  | f => f

/-- A failure at a position is later by as many positions as come before. -/
@[simp] theorem Failure.later_relocate (e : Failure) (i count : ℕ) :
    (e.relocate i).later count = e.relocate (i + count) := by
  cases e <;> rfl

/-- Only a malformed token gets later. -/
theorem Failure.later_of_ne_malformed {e : Failure} (h : ∀ i r, e ≠ .malformed i r) (count : ℕ) :
    e.later count = e := by
  cases e with
  | malformed i r => exact absurd rfl (h i r)
  | _ => rfl

namespace Sequence

variable {α : Type} {d : Char} {read : String → Except Failure α} {w w₁ w₂ : String}

/-! ### Reading tokens behind others -/

/-- The tokens of one list are read, and then those of the other at the positions behind them. -/
theorem readFrom_append (read : String → Except Failure α) (i : ℕ) (ts us : List String) :
    readFrom read i (ts ++ us) =
      readFrom read i ts >>= fun xs =>
        readFrom read (i + ts.length) us >>= fun ys => pure (xs ++ ys) := by
  simp only [readFrom_eq_mapM, List.zipIdx_append, List.mapM_append]

/-- Tokens that stand further on are read alike, and their failure is as much further on. -/
theorem readFrom_add (read : String → Except Failure α) (i count : ℕ) (ts : List String) :
    readFrom read (i + count) ts = (readFrom read i ts).mapError (Failure.later count) := by
  induction ts generalizing i with
  | nil => rfl
  | cons t ts ih =>
      have hrest := ih (i + 1)
      rw [Nat.add_right_comm] at hrest
      rw [readFrom_cons, readFrom_cons, hrest]
      by_cases hempty : t = ""
      · rw [if_pos hempty, if_pos hempty]
        cases readFrom read (i + 1) ts <;> rfl
      · rw [if_neg hempty, if_neg hempty]
        cases read t with
        | ok a => cases readFrom read (i + 1) ts <;> rfl
        | error e =>
            -- The first token fails, and the others are not looked at.
            show Except.error (e.relocate (i + count)) = .error ((e.relocate i).later count)
            rw [Failure.later_relocate]

/-! ### Texts behind others -/

/-- The second text is read as it would be alone, except that its failure is as many positions
further on as the first text has tokens. -/
theorem read_push_append_eq (h₁ : w₁ ≠ "") (h₂ : w₂ ≠ "") :
    Sequence.read d read (w₁.push d ++ w₂) =
      Sequence.read d read w₁ >>= fun ys =>
        (Sequence.read d read w₂).mapError (Failure.later (tokens d w₁).length) >>= fun zs =>
          pure (ys ++ zs) := by
  have hne : w₁.push d ++ w₂ ≠ "" := by
    intro hempty
    have hlist := congrArg String.toList hempty
    simp at hlist
  rw [Sequence.read, if_neg hne, tokens_push_append, readFrom_append, readFrom_add]
  simp only [Sequence.read, if_neg h₁, if_neg h₂]

/-- Of two texts with a delimiter between them, the whole can be read if and only if both can be,
and then the positions of the second stand behind those of the first. A failure of the first text
is that of the whole. If only the second text fails, the whole fails with it: a malformed element
is named by its position in the whole, which is as much further on as the first text has tokens,
and any other failure stays as it is. -/
theorem read_push_append (h₁ : w₁ ≠ "") (h₂ : w₂ ≠ "") :
    ((∃ xs, Sequence.read d read (w₁.push d ++ w₂) = .ok xs) ↔
        (∃ ys, Sequence.read d read w₁ = .ok ys) ∧ ∃ zs, Sequence.read d read w₂ = .ok zs) ∧
      (∀ ys zs, Sequence.read d read w₁ = .ok ys → Sequence.read d read w₂ = .ok zs →
        Sequence.read d read (w₁.push d ++ w₂) = .ok (ys ++ zs)) ∧
      (∀ e, Sequence.read d read w₁ = .error e →
        Sequence.read d read (w₁.push d ++ w₂) = .error e) ∧
      ∀ ys, Sequence.read d read w₁ = .ok ys →
        (∀ i r, Sequence.read d read w₂ = .error (.malformed i r) →
          Sequence.read d read (w₁.push d ++ w₂) =
            .error (.malformed (i + (tokens d w₁).length) r)) ∧
        ∀ e, (∀ i r, e ≠ .malformed i r) → Sequence.read d read w₂ = .error e →
          Sequence.read d read (w₁.push d ++ w₂) = .error e := by
  -- All parts follow from one equation: first the one text, then the other further on.
  have hwhole : Sequence.read d read (w₁.push d ++ w₂) = _ := read_push_append_eq h₁ h₂
  refine ⟨?_, fun ys zs hys hzs => ?_, fun e he => ?_, fun ys hys => ⟨fun i r hr => ?_,
    fun e hkept he => ?_⟩⟩
  · rw [hwhole]
    simp only [bind_eq_ok_iff, mapError_eq_ok_iff, pure_eq_ok_iff]
    constructor
    · rintro ⟨_, ys, hys, zs, hzs, rfl⟩
      exact ⟨⟨ys, hys⟩, zs, hzs⟩
    · rintro ⟨⟨ys, hys⟩, zs, hzs⟩
      exact ⟨_, ys, hys, zs, hzs, rfl⟩
  · rw [hwhole, hys, hzs]
    rfl
  · rw [hwhole, he]
    rfl
  · rw [hwhole, hys, hr]
    rfl
  · rw [hwhole, hys, he]
    show Except.error (e.later _) = _
    rw [Failure.later_of_ne_malformed hkept]

/-- Two texts with absent positions where they meet; and either failure in the second one. -/
theorem read_push_append_absent_seam :
    Sequence.read ',' readSomeSizes ",12," = .ok [none, some 2, none] ∧
      Sequence.read ',' readSomeSizes ",7" = .ok [none, some 1] ∧
      Sequence.read ',' readSomeSizes ",12,,,7" = .ok [none, some 2, none, none, some 1] ∧
      Sequence.read ',' readSomeSizes ",far" = .error (.malformed 1 (.custom "too far")) ∧
      Sequence.read ',' readSomeSizes ",12,,,far" = .error (.malformed 4 (.custom "too far")) ∧
      Sequence.read ',' readSomeSizes ",bad" = .error (.invalid 88 (.custom "not allowed")) ∧
      Sequence.read ',' readSomeSizes ",12,,,bad" =
        .error (.invalid 88 (.custom "not allowed")) ∧
      Sequence.read ',' readSomeSizes ",far,,bad" = .error (.malformed 1 (.custom "too far")) := by
  have hfirst : Sequence.read ',' readSomeSizes ",12," = .ok [none, some 2, none] := by
    decide +kernel
  have hsecond : Sequence.read ',' readSomeSizes ",7" = .ok [none, some 1] := by decide +kernel
  have hfar : Sequence.read ',' readSomeSizes ",far" =
      .error (.malformed 1 (.custom "too far")) := by decide +kernel
  have hbad : Sequence.read ',' readSomeSizes ",bad" =
      .error (.invalid 88 (.custom "not allowed")) := by decide +kernel
  have hwhole := (read_push_append (by decide) (by decide)).2.1 _ _ hfirst hsecond
  have hmoved := ((read_push_append (by decide) (by decide)).2.2.2 _ hfirst).1 _ _ hfar
  have hkept := ((read_push_append (by decide) (by decide)).2.2.2 _ hfirst).2 _ (by simp) hbad
  have hbefore := (read_push_append (by decide) (show ",bad" ≠ "" by decide)).2.2.1 _ hfar
  exact ⟨hfirst, hsecond, hwhole, hfar, hmoved, hbad, hkept, hbefore⟩

end Sequence

end RouteWire
