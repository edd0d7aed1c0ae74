import Mathlib.Algebra.Order.BigOperators.Group.List
import Mathlib.Algebra.Order.Ring.Nat
import Mathlib.Data.Set.Function
import RouteWire.Proofs.Sequence.RoundTrip
import RouteWire.Sequence.Read

/-!
# Sequences of texts

A text that is read as it stands cannot be refused, so what it reads as is a function of the text:
`texts`. Each token gives a position, and `pieces` are the positions of all tokens.

- `bijOn_texts`: every text stands for one sequence and each sequence of `PlainTexts` for one
  text; writing is the inverse of reading. No character of a text is lost.
- `texts_write_flatMap`: a sequence whose texts do hold the delimiter, or are empty, comes back
  as the pieces of its positions, one position after the other. `isNone_flatMap_pieces_iff` says
  when this leaves the absent positions where they were.
-/

set_option autoImplicit false

namespace RouteWire.Sequence

variable {d : Char} {w : String} {xs : Sequence String}

/-! ### What a text reads as -/

/-- The positions of the tokens of a text: absent at an empty token, and the token at any other
one. -/
def pieces (d : Char) (w : String) : Sequence String :=
  (tokens d w).map fun t => if t = "" then none else some t

/-- The sequence that a text reads as. The empty text has one token, but no position. -/
def texts (d : Char) (w : String) : Sequence String :=
  if w = "" then [] else pieces d w

/-- The sequences that a text can stand for: not one absent position on its own, and no present
position that is empty or holds the delimiter. -/
def PlainTexts (d : Char) : Set (Sequence String) :=
  {xs | xs ≠ [none] ∧ ∀ s, some s ∈ xs → s ≠ "" ∧ d ∉ s.toList}

/-- A text that is read as it stands is never refused. -/
theorem read_ok_eq (d : Char) (w : String) : Sequence.read d .ok w = .ok (texts d w) := by
  rw [read_eq_ok_iff, texts]
  split
  · rfl
  · rw [pieces, List.forall₂_map_right_iff, List.forall₂_same]
    intro t _
    by_cases hempty : t = ""
    · rw [if_pos hempty, hempty]
      exact .absent
    · rw [if_neg hempty]
      exact .present hempty rfl

/-- The texts of any text are plain. -/
theorem texts_mem_plainTexts (d : Char) (w : String) : texts d w ∈ PlainTexts d := by
  have hread := read_ok_eq d w
  exact ⟨ne_single_none_of_read hread, fun s => plain_of_read hread⟩

/-! ### Reading and writing are inverse -/

/-- No character of a text is lost. -/
theorem write_texts (d : Char) (w : String) : write d id .keep (texts d w) = w := by
  have hwritten : List.Forall₂ (Written fun s t => some (id s) = t) (texts d w) (texts d w) :=
    written_render_iff.mpr (by simp)
  refine write_texts_of_read (read_ok_eq d w) hwritten ?_
  rintro s a t ⟨⟩ ht
  exact ht.symm

/-- Plain texts come back from the text that they are written as. -/
theorem texts_write (h : xs ∈ PlainTexts d) : texts d (write d id .keep xs) = xs := by
  have hread : Sequence.read d .ok (write d id .keep xs) = .ok xs.collapsed := by
    refine read_write fun s hs => ?_
    obtain ⟨hne, hfree⟩ := h.2 s hs
    exact ⟨hne, hfree, rfl⟩
  rw [read_ok_eq, collapsed_of_ne h.1] at hread
  exact Except.ok.inj hread

/-- Reading as it stands is a bijection from all texts onto the plain sequences of texts, and
writing is its inverse. -/
theorem bijOn_texts (d : Char) :
    (∀ w, readTexts d (some w) = .ok (some (texts d w))) ∧
      Set.BijOn (texts d) Set.univ (PlainTexts d) ∧
      Set.InvOn (write d id .keep) (texts d) Set.univ (PlainTexts d) := by
  have hinv : Set.InvOn (write d id .keep) (texts d) Set.univ (PlainTexts d) :=
    ⟨fun w _ => write_texts d w, fun xs hxs => texts_write hxs⟩
  refine ⟨fun w => ?_, hinv.bijOn ?_ ?_, hinv⟩
  · show some <$> Sequence.read d .ok w = _
    rw [read_ok_eq]
    rfl
  · intro w _
    exact texts_mem_plainTexts d w
  · intro xs _
    exact Set.mem_univ _

/-! ### Texts that hold the delimiter -/

/-- One position more than there are delimiters. -/
theorem length_pieces (d : Char) (w : String) : (pieces d w).length = w.toList.count d + 1 := by
  rw [pieces, List.length_map, length_tokens]

/-- Each delimiter in a text makes one position more. -/
theorem length_flatMap_pieces (d : Char) (xs : Sequence String) :
    (xs.flatMap fun x => pieces d (x.getD "")).length =
      xs.length + (xs.map fun x => (x.getD "").toList.count d).sum := by
  induction xs with
  | nil => rfl
  | cons x xs ih =>
      rw [List.flatMap_cons, List.length_append, ih, length_pieces, List.length_cons,
        List.map_cons, List.sum_cons]
      omega

/-- Of at least two positions, each comes back as its pieces. With one position only, the whole
text may be empty, and then nothing comes back. -/
theorem texts_write_flatMap (h : 2 ≤ xs.length) :
    texts d (write d id .keep xs) = xs.flatMap fun x => pieces d (x.getD "") := by
  have hne : xs.map (fun x => x.elim "" id) ≠ [] := by
    intro hnil
    have hlength := congrArg List.length hnil
    rw [List.length_map, List.length_nil] at hlength
    omega
  have hpieces : pieces d (write d id .keep xs) = xs.flatMap fun x => pieces d (x.getD "") := by
    rw [pieces, write_keep, tokens_joinTokens_flatMap d hne, List.flatMap_map, List.map_flatMap]
    refine List.flatMap_congr fun x _ => ?_
    cases x <;> rfl
  rw [texts, if_neg, hpieces]
  intro hempty
  -- The empty text has one piece only, but each position has at least one.
  have hlength := congrArg List.length hpieces
  rw [hempty, length_pieces, length_flatMap_pieces] at hlength
  have hcount : "".toList.count d = 0 := rfl
  omega

/-- Besides no position at all, only one absent or empty position has the empty text. -/
theorem write_eq_empty_iff :
    write d id .keep xs = "" ↔ xs = [] ∨ xs = [none] ∨ xs = [some ""] := by
  constructor
  · intro h
    match xs with
    | [] => exact .inl rfl
    | [none] => exact .inr (.inl rfl)
    | [some s] =>
        rw [write_keep, List.map_singleton, joinTokens, List.map_singleton,
          List.intercalate_singleton, String.ofList_toList] at h
        exact .inr (.inr (congrArg (fun s => [some s]) h))
    | x :: y :: xs =>
        have hlength : 2 ≤ (x :: y :: xs).length := by simp
        have htexts := congrArg List.length (texts_write_flatMap (d := d) hlength)
        rw [h, length_flatMap_pieces] at htexts
        have hnone : (texts d "").length = 0 := rfl
        omega
  · rintro (rfl | rfl | rfl) <;> rfl

/-- A text without the delimiter has one position, which is absent if the text is empty. -/
theorem pieces_of_not_mem {x : Option String} (hd : d ∉ (x.getD "").toList) :
    pieces d (x.getD "") = [x.filter (· ≠ "")] := by
  rw [pieces, tokens_of_not_mem hd]
  cases x with
  | none => rfl
  | some s => by_cases hempty : s = "" <;> simp [hempty, Option.filter_some]

/-- Texts that do not hold the delimiter stay in one piece. -/
theorem flatMap_pieces_of_not_mem (h : ∀ x ∈ xs, d ∉ (x.getD "").toList) :
    (xs.flatMap fun x => pieces d (x.getD "")) = xs.map (·.filter (· ≠ "")) := by
  rw [List.flatMap_congr fun x hx => pieces_of_not_mem (h x hx), ← List.map_eq_flatMap]

/-- As many positions come back as were written, and the same ones are absent, if and only if no
text is empty or holds the delimiter. -/
theorem isNone_flatMap_pieces_iff :
    (xs.flatMap fun x => pieces d (x.getD "")).map Option.isNone = xs.map Option.isNone ↔
      ∀ s, some s ∈ xs → s ≠ "" ∧ d ∉ s.toList := by
  constructor
  · intro h
    have hlength := congrArg List.length h
    rw [List.length_map, List.length_map, length_flatMap_pieces] at hlength
    have hcount : (xs.map fun x => (x.getD "").toList.count d).sum = 0 := by omega
    have hfree : ∀ x ∈ xs, d ∉ (x.getD "").toList := by
      intro x hx
      exact List.count_eq_zero.mp (List.sum_eq_zero_iff.mp hcount _ (List.mem_map_of_mem hx))
    rw [flatMap_pieces_of_not_mem hfree, List.map_map, List.map_inj_left] at h
    intro s hs
    refine ⟨?_, hfree _ hs⟩
    rintro rfl
    -- An empty text would come back as an absent position.
    exact absurd (h _ hs) (by decide)
  · intro h
    have hfree : ∀ x ∈ xs, d ∉ (x.getD "").toList := by
      intro x hx
      cases x with
      | none => simp
      | some s => exact (h s hx).2
    rw [flatMap_pieces_of_not_mem hfree, List.map_map]
    refine List.map_congr_left fun x hx => ?_
    cases x with
    | none => rfl
    | some s => simp [Option.filter_some, (h s hx).1]

end RouteWire.Sequence
