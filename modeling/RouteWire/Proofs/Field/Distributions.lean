import RouteWire.Proofs.Field.Violation
import RouteWire.Proofs.Number.Whole
import RouteWire.Proofs.Point

/-!
# Distributions carry two indices

A distribution is written as its first two indices, which are integers, and is read as a list of
numbers. The text of an integer is also the text of the number that is this integer
(`exists_number_of_readInteger`), so that all that is known of two numbers in one text holds of two
indices.

- `Distribution.ReadAgain` says what is read at the position of a distribution.
- `readNumberLists_writeDistributions`: when distributions have no text, when they fail, and what is
  read from their text otherwise.
-/

set_option autoImplicit false

namespace RouteWire

open Sequence (Written Carried)

/-! ### One position -/

namespace Distribution

/-- Nothing is written at the position: the distribution is absent or has no index. -/
def Missing (x : Option Distribution) : Prop :=
  x = none ∨ x = some []

/-- What is read at the position of a distribution: nothing if it is missing, and otherwise two
numbers, which are its first two indices. -/
inductive ReadAgain : Option Distribution → Option (List Binary64) → Prop where
  | missing {x : Option Distribution} (hx : Missing x) : ReadAgain x none
  | pair {pickup dropOff : Int32} {more : List Int32} {x y : Binary64}
      (hpickup : x.value = pickup.toInt) (hdropOff : y.value = dropOff.toInt) :
      ReadAgain (some (pickup :: dropOff :: more)) (some [x, y])

/-- The text of two indices comes back as the numbers that are these indices. -/
theorem exists_carried (pickup dropOff : Int32) :
    ∃ x y : Binary64, x.value = pickup.toInt ∧ y.value = dropOff.toInt ∧
      Carried defaultDelimiter (readNumberList defaultInnerDelimiter)
        ((writeInteger pickup).push defaultInnerDelimiter ++ writeInteger dropOff) [x, y] := by
  obtain ⟨x, hreadx, hx, hwritex⟩ := exists_number_of_readInteger (readInteger_writeInteger pickup)
  obtain ⟨y, hready, hy, hwritey⟩ := exists_number_of_readInteger (readInteger_writeInteger dropOff)
  refine ⟨x, y, hx, hy, push_append_ne_empty _ _ _, ?_, ?_⟩
  · exact not_mem_push_append hwritex hwritey (by decide) not_numeralChar_defaultDelimiter
  · rw [readNumberList, tokens_pair hwritex hwritey not_numeralChar_defaultInnerDelimiter,
      mapM_eq_ok_iff]
    exact .cons hreadx (.cons hready .nil)

/-- What is written at a position is read there. -/
theorem exists_readAgain_of_written {x : Option Distribution} {t : Option String}
    (h : Written (fun d t => Rule.distribution d = .ok t) x t) :
    ∃ y, ReadAgain x y ∧
      Option.Rel (Carried defaultDelimiter (readNumberList defaultInnerDelimiter)) t y := by
  cases h with
  | absent => exact ⟨none, .missing (.inl rfl), .none⟩
  | @present d t hrule =>
      match d with
      | [] =>
          cases hrule
          exact ⟨none, .missing (.inr rfl), .none⟩
      | [_] => cases hrule
      | pickup :: dropOff :: more =>
          cases hrule
          obtain ⟨x, y, hx, hy, hcarried⟩ := exists_carried pickup dropOff
          exact ⟨some [x, y], .pair hx hy, .some hcarried⟩

/-- A distribution can be written unless it has one index only. -/
theorem exists_rule_eq_ok_iff {d : Distribution} :
    (∃ t, Rule.distribution d = .ok t) ↔ ¬ ∃ n, d = [n] := by
  rw [← List.length_eq_one_iff, ← not_iff_not, not_not, ← exists_eq_error_iff]
  simp [Rule.distribution_eq_error_iff]

end Distribution

/-! ### All positions -/

section

variable {ds : Sequence Distribution} {ts : Sequence String}

open RouteWire.Distribution (ReadAgain Missing)

/-- Distributions that are written can be read, position by position. -/
theorem exists_readAgain_of_written_distributions
    (h : List.Forall₂ (Written fun d t => Rule.distribution d = .ok t) ds ts) :
    ∃ ys, List.Forall₂ ReadAgain ds ys ∧
      List.Forall₂
        (Option.Rel (Carried defaultDelimiter (readNumberList defaultInnerDelimiter))) ts ys := by
  induction h with
  | nil => exact ⟨[], .nil, .nil⟩
  | cons hfirst hrest ih =>
      obtain ⟨y, hy, hread⟩ := Distribution.exists_readAgain_of_written hfirst
      obtain ⟨ys, hys, hreads⟩ := ih
      exact ⟨y :: ys, .cons hy hys, .cons hread hreads⟩

/-- A missing distribution on its own is written as the empty text. -/
theorem writeDistributions_missing {x : Option Distribution} (h : Missing x) :
    writeDistributions (some [x]) = .ok (some "") := by
  rcases h with rfl | rfl <;> rfl

/-- Only the empty list counts as unset. -/
theorem writeDistributions_of_ne_nil (h : ds ≠ []) : writeDistributions (some ds) =
    Field.distributions.write Rule.distribution defaultDelimiter (some ds) := by
  obtain ⟨x, xs, rfl⟩ := List.exists_cons_of_ne_nil h
  rfl

/-- Only distributions that are unset, or an empty list, have no text. -/
theorem writeDistributions_eq_ok_none_iff {xs : Option (Sequence Distribution)} :
    writeDistributions xs = .ok none ↔ xs = none ∨ xs = some [] := by
  match xs with
  | none => exact iff_of_true rfl (.inl rfl)
  | some [] => exact iff_of_true rfl (.inr rfl)
  | some (d :: ds) =>
      rw [writeDistributions_of_ne_nil (by simp), Field.write_eq_ok_iff]
      simp

/-- Distributions, if there are any, can be written unless one of them has a single index. -/
theorem exists_writeDistributions_eq_ok_iff (hne : ds ≠ []) :
    (∃ t, writeDistributions (some ds) = .ok t) ↔ ∀ n, some [n] ∉ ds := by
  rw [writeDistributions_of_ne_nil hne, Field.exists_write_eq_ok_iff]
  simp only [Distribution.exists_rule_eq_ok_iff]
  constructor
  · intro h n hmem
    exact h _ hmem ⟨n, rfl⟩
  · rintro h _ hmem ⟨n, rfl⟩
    exact h n hmem

/-- Only a single missing distribution can be read as one absent position on its own. -/
theorem ne_single_none_of_readAgain {ys : Sequence (List Binary64)}
    (h : List.Forall₂ ReadAgain ds ys) (hds : ∀ x, ds = [x] → ¬ Missing x) : ys ≠ [none] := by
  rintro rfl
  obtain ⟨x, rest, hx, hrest, rfl⟩ := List.forall₂_cons_right_iff.mp h
  obtain rfl := List.forall₂_nil_right_iff.mp hrest
  cases hx with
  | missing hmissing => exact hds x rfl hmissing

/-- No distributions at all have no text, and otherwise they fail if and only if one of them has a
single index. If they do not fail, they have a text, which is the empty one for a single missing
distribution. From any other text each position is read again: absent where the distribution is
missing, and two numbers that are its first two indices elsewhere. -/
theorem readNumberLists_writeDistributions :
    (∀ xs, writeDistributions xs = .ok none ↔ xs = none ∨ xs = some []) ∧
      ∀ ds, ds ≠ [] →
        ((∃ r, writeDistributions (some ds) = .error r) ↔ ∃ n, some [n] ∈ ds) ∧
          ((∀ n, some [n] ∉ ds) → ∃ w, writeDistributions (some ds) = .ok (some w) ∧
            (∀ x, ds = [x] → Missing x → w = "") ∧
            ((∀ x, ds = [x] → ¬ Missing x) →
              ∃ ys, readNumberLists defaultDelimiter defaultInnerDelimiter (some w) =
                  .ok (some ys) ∧ List.Forall₂ ReadAgain ds ys)) := by
  refine ⟨fun xs => writeDistributions_eq_ok_none_iff, fun ds hne => ?_⟩
  have hok := exists_writeDistributions_eq_ok_iff hne
  refine ⟨by rw [exists_eq_error_iff, hok, not_forall_not], fun hpairs => ?_⟩
  obtain ⟨t, hwrite⟩ := hok.mpr hpairs
  -- A list that is not empty counts as set, and is checked like any other field.
  have hwritten := writeDistributions_of_ne_nil hne ▸ hwrite
  obtain ⟨ts, hts, rfl⟩ := Field.write_eq_ok_iff.mp hwritten
  refine ⟨_, hwrite, ?_, fun hds => ?_⟩
  · rintro x rfl hmissing
    rw [writeDistributions_missing hmissing] at hwrite
    exact (Option.some.inj (Except.ok.inj hwrite)).symm
  · obtain ⟨ys, hys, hcarried⟩ := exists_readAgain_of_written_distributions hts
    have hread := Sequence.read_write_texts hcarried
    rw [Sequence.collapsed_of_ne (ne_single_none_of_readAgain hys hds)] at hread
    refine ⟨ys, ?_, hys⟩
    show some <$> Sequence.read _ _ _ = _
    rw [hread]
    rfl

/-- A missing distribution of either kind, one with an index too many, and the bounds of an index;
and a missing distribution on its own. -/
theorem readNumberLists_writeDistributions_at_the_bounds :
    let ds : Sequence Distribution :=
      [none, some [-2147483648, 2147483647], some [], some [0, 1, 2]]
    (ds ≠ [] ∧ (∀ n, some [n] ∉ ds) ∧ (∀ x, ds = [x] → ¬ Missing x) ∧
      writeDistributions (some ds) = .ok (some ";-2147483648,2147483647;;0,1") ∧
      ∃ ys, readNumberLists ';' ',' (some ";-2147483648,2147483647;;0,1") = .ok (some ys) ∧
        List.Forall₂ ReadAgain ds ys) ∧
      Missing (some []) ∧ writeDistributions (some [some []]) = .ok (some "") := by
  intro ds
  have hne : ds ≠ [] := by simp [ds]
  have hpairs : ∀ n, some [n] ∉ ds := by simp [ds]
  have hlong : ∀ x, ds = [x] → ¬ Missing x := by simp [ds]
  have hwrite : writeDistributions (some ds) = .ok (some ";-2147483648,2147483647;;0,1") := by
    decide +kernel
  obtain ⟨w, hw, -, hread⟩ := (readNumberLists_writeDistributions.2 ds hne).2 hpairs
  rw [hwrite] at hw
  obtain rfl : _ = w := Option.some.inj (Except.ok.inj hw)
  have hmissing : Missing (some []) := .inr rfl
  obtain ⟨v, hv, hempty, -⟩ :=
    (readNumberLists_writeDistributions.2 [some []] (by simp)).2 (by simp)
  rw [hempty _ rfl hmissing] at hv
  exact ⟨⟨hne, hpairs, hlong, hwrite, hread hlong⟩, hmissing, hv⟩

end

end RouteWire
