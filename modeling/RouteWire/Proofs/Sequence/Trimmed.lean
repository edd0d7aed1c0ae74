import Mathlib.Data.List.DropRight
import RouteWire.Proofs.Integer
import RouteWire.Proofs.Sequence.Texts

/-!
# Trimmed sequences

A sequence can be written without the absent positions at its end. What is written then is its
longest front that has no position or ends in a present one (`LongestFront`). A present position
stays, also where its text is empty.

- `longestFront_trimmed`: trimming finds this front, and there is only one
  (`LongestFront.unique`).
- `toList_write_keep`: what trimming leaves out of the text is a run of delimiters at the end of it.
- `write_trim_eq_write_keep`: hence a trimmed sequence survives its text without the exception that
  one absent position on its own makes for other sequences, and of a text that is read as it stands
  only the delimiters at its end are lost.
-/

set_option autoImplicit false

namespace RouteWire.Sequence

variable {α : Type} {d : Char} {render : α → String} {xs ys zs : Sequence α}

/-! ### The front that is written -/

/-- The sequence has no position, or the last one is present. -/
def EndsPresent (xs : Sequence α) : Prop :=
  xs = [] ∨ ∃ ys a, xs = ys ++ [some a]

/-- `ys` is the longest front of `xs` that has no position or ends in a present one. -/
structure LongestFront (xs ys : Sequence α) : Prop where
  isPrefix : ys <+: xs
  endsPresent : ys.EndsPresent
  longest : ∀ zs : Sequence α, zs <+: xs → zs.EndsPresent → zs.length ≤ ys.length

/-- There is one longest front. -/
theorem LongestFront.unique (h : LongestFront xs ys) (h' : LongestFront xs zs) : ys = zs := by
  have hle := h'.longest ys h.isPrefix h.endsPresent
  have hge := h.longest zs h'.isPrefix h'.endsPresent
  have hfront := List.prefix_of_prefix_length_le h.isPrefix h'.isPrefix hle
  exact hfront.eq_of_length (Nat.le_antisymm hle hge)

/-- A sequence with an absent position at its end does not end with a present one. -/
theorem not_endsPresent_concat_none (xs : Sequence α) : ¬ EndsPresent (xs ++ [none]) := by
  intro h
  rcases h with hnil | ⟨ys, a, hconcat⟩
  · simp at hnil
  · simpa using (List.append_inj' hconcat rfl).2

/-- Absent positions at the end are trimmed. -/
@[simp] theorem trimmed_concat_none (xs : Sequence α) : trimmed (xs ++ [none]) = xs.trimmed :=
  List.rdropWhile_concat_pos _ _ _ rfl

/-- A present position at the end is kept, and all before it. -/
@[simp] theorem trimmed_concat_some (xs : Sequence α) (a : α) :
    trimmed (xs ++ [some a]) = xs ++ [some a] :=
  List.rdropWhile_concat_neg _ _ _ (by simp)

/-- Trimming finds the longest front. The scan goes backwards, and so does the induction. -/
theorem longestFront_trimmed (xs : Sequence α) : LongestFront xs xs.trimmed := by
  induction xs using List.reverseRecOn with
  | nil => exact ⟨List.nil_prefix, .inl rfl, fun zs hzs _ => hzs.length_le⟩
  | append_singleton xs x ih =>
      cases x with
      | some a =>
          rw [trimmed_concat_some]
          exact ⟨List.prefix_rfl, .inr ⟨xs, a, rfl⟩, fun zs hzs _ => hzs.length_le⟩
      | none =>
          rw [trimmed_concat_none]
          refine ⟨ih.isPrefix.trans (List.prefix_append ..), ih.endsPresent, ?_⟩
          intro zs hzs hends
          -- A front that ends in a present position does not reach the absent one.
          rcases List.prefix_concat_iff.mp hzs with rfl | hzs
          · exact absurd hends (not_endsPresent_concat_none xs)
          · exact ih.longest zs hzs hends

/-! ### The text of a trimmed sequence -/

/-- Trimming before writing is writing the trimmed sequence. -/
theorem write_trim (d : Char) (render : α → String) (xs : Sequence α) :
    write d render .trim xs = write d render .keep xs.trimmed :=
  rfl

/-- One more position puts its text behind a delimiter, if there is a position before it. -/
theorem toList_write_keep_concat (hne : xs ≠ []) (x : Option α) :
    (write d render .keep (xs ++ [x])).toList =
      (write d render .keep xs).toList ++ d :: (x.elim "" render).toList := by
  rw [write_keep, write_keep, List.map_append, List.map_singleton]
  exact toList_joinTokens_concat d (by simpa using hne) _

/-- Trimming leaves delimiters out at the end of the text and nothing else. -/
theorem toList_write_keep (d : Char) (render : α → String) (xs : Sequence α) :
    ∃ k, (write d render .keep xs).toList =
      (write d render .trim xs).toList ++ List.replicate k d := by
  induction xs using List.reverseRecOn with
  | nil => exact ⟨0, rfl⟩
  | append_singleton xs x ih =>
      cases x with
      | some a =>
          rw [write_trim, trimmed_concat_some]
          exact ⟨0, by simp⟩
      | none =>
          rw [write_trim, trimmed_concat_none, ← write_trim]
          by_cases hnil : xs = []
          · -- The only position is absent, so that there is no delimiter to leave out.
            subst hnil
            exact ⟨0, rfl⟩
          · obtain ⟨k, hk⟩ := ih
            refine ⟨k + 1, ?_⟩
            rw [toList_write_keep_concat hnil, hk, List.replicate_succ']
            simp

/-- The text does not end in a delimiter, if the texts of the elements are not empty and do not
hold it. -/
theorem getLast?_write_trim_ne (h : ∀ a, some a ∈ xs → render a ≠ "" ∧ d ∉ (render a).toList) :
    (write d render .trim xs).toList.getLast? ≠ some d := by
  obtain ⟨hfront, hends, -⟩ := longestFront_trimmed xs
  rw [write_trim]
  rcases hends with hnil | ⟨ys, a, hconcat⟩
  · rw [hnil]
    simp [write_keep, joinTokens]
  · have hmem : some a ∈ xs.trimmed := by simp [hconcat]
    obtain ⟨hne, hfree⟩ := h a (hfront.subset hmem)
    have hchars : (render a).toList ≠ [] := by simpa using hne
    -- The text of the last element is the end of the whole text.
    have hend : ∃ front, (write d render .keep (ys ++ [some a])).toList =
        front ++ (render a).toList := by
      by_cases hnil : ys = []
      · subst hnil
        exact ⟨[], by simp [write_keep, joinTokens]⟩
      · refine ⟨(write d render .keep ys).toList ++ [d], ?_⟩
        rw [toList_write_keep_concat hnil]
        simp
    obtain ⟨front, htext⟩ := hend
    rw [hconcat, htext, List.getLast?_append_of_ne_nil _ hchars]
    intro hlast
    exact hfree (List.mem_of_getLast? hlast)

/-! ### Reading a trimmed sequence -/

/-- No exception is made here: trimming leaves no absent position that would stand on its own. -/
theorem read_write_trim {read : String → Except Failure α}
    (h : ∀ a, some a ∈ xs → Carried d read (render a) a) :
    Sequence.read d read (write d render .trim xs) = .ok xs.trimmed := by
  obtain ⟨hfront, hends, -⟩ := longestFront_trimmed xs
  have hne : xs.trimmed ≠ [none] := by
    intro hsingle
    rw [hsingle] at hends
    exact not_endsPresent_concat_none [] hends
  have hcarried : ∀ a, some a ∈ xs.trimmed → Carried d read (render a) a := by
    intro a ha
    exact h a (hfront.subset ha)
  rw [write_trim, read_write hcarried, collapsed_of_ne hne]

/-- Of a text that is read as it stands, trimming loses the delimiters at its end. -/
theorem toList_write_trim_texts (d : Char) (w : String) :
    (write d id .trim (texts d w)).toList = w.toList.rdropWhile (· = d) := by
  have hlast : (write d id .trim (texts d w)).toList.getLast? ≠ some d :=
    getLast?_write_trim_ne (texts_mem_plainTexts d w).2
  obtain ⟨k, hk⟩ := toList_write_keep d id (texts d w)
  rw [write_texts] at hk
  rw [hk]
  clear hk
  generalize (write d id .trim (texts d w)).toList = cs at hlast
  -- Dropping goes through the run of delimiters and stops at the text.
  induction k with
  | zero =>
      rw [List.replicate_zero, List.append_nil, eq_comm, List.rdropWhile_eq_self_iff]
      intro hne
      rw [List.getLast?_eq_getLast_of_ne_nil hne] at hlast
      simpa using hlast
  | succ k ih =>
      rw [List.replicate_succ', ← List.append_assoc, List.rdropWhile_concat_pos _ _ _ (by simp)]
      exact ih

/-- Exactly one front of a sequence is the longest that has no position or ends in a present one.
Writing the sequence trimmed is writing this front, and if each present element comes back from its
text, then what is read is this front, whatever the sequence is. Of a text that is read as it
stands only the delimiters at its end are lost. -/
theorem write_trim_eq_write_keep (d : Char) (render : α → String) (xs : Sequence α) :
    (∃ ys, (∀ zs, LongestFront xs zs ↔ zs = ys) ∧
        write d render .trim xs = write d render .keep ys ∧
        ∀ read, (∀ a, some a ∈ xs → Carried d read (render a) a) →
          Sequence.read d read (write d render .trim xs) = .ok ys) ∧
      ∀ w, ∃ ts, readTexts d (some w) = .ok (some ts) ∧
        (write d id .trim ts).toList = w.toList.rdropWhile (· = d) := by
  refine ⟨⟨xs.trimmed, fun zs => ⟨fun h => ?_, fun h => ?_⟩, write_trim d render xs,
    fun read h => read_write_trim h⟩, fun w => ⟨texts d w, ?_, toList_write_trim_texts d w⟩⟩
  · exact h.unique (longestFront_trimmed xs)
  · rw [h]
    exact longestFront_trimmed xs
  · show some <$> Sequence.read d .ok w = _
    rw [read_ok_eq]
    rfl

/-- Integers with absent positions at the front, inside and at the end, one absent position on its
own, and a text with delimiters in all three places. -/
theorem write_trim_eq_write_keep_absent_ends :
    write ';' writeInteger .trim [none, some 7, none, some (-1), none, none] = ";7;;-1" ∧
      Sequence.read ';' readInteger ";7;;-1" = .ok [none, some 7, none, some (-1)] ∧
      Sequence.read ';' readInteger (write ';' writeInteger .trim [none]) = .ok [] ∧
      ∃ ts, readTexts ';' (some ";;a;;b;;;") = .ok (some ts) ∧
        (write ';' id .trim ts).toList = ";;a;;b".toList := by
  have hcarried : ∀ n, Carried ';' readInteger (writeInteger n) n := by
    intro n
    exact ⟨writeInteger_ne_empty n, not_mem_writeInteger rfl (by decide) n,
      readInteger_writeInteger n⟩
  have hback : ∀ xs : Sequence Int32,
      Sequence.read ';' readInteger (write ';' writeInteger .trim xs) = .ok xs.trimmed := by
    intro xs
    obtain ⟨⟨ys, hunique, -, hread⟩, -⟩ := write_trim_eq_write_keep ';' writeInteger xs
    rw [hread readInteger fun n _ => hcarried n,
      (hunique xs.trimmed).mp (longestFront_trimmed xs)]
  have htext : write ';' writeInteger .trim [none, some 7, none, some (-1), none, none] =
      ";7;;-1" := by decide +kernel
  refine ⟨htext, ?_, hback [none], ?_⟩
  · rw [← htext]
    exact hback [none, some 7, none, some (-1), none, none]
  · have htexts := (write_trim_eq_write_keep ';' writeInteger []).2 ";;a;;b;;;"
    have hdropped : ";;a;;b;;;".toList.rdropWhile (· = ';') = ";;a;;b".toList := by decide +kernel
    rw [hdropped] at htexts
    exact htexts

end RouteWire.Sequence
