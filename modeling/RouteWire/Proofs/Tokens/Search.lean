import Mathlib.Logic.Function.Iterate
import RouteWire.Proofs.Tokens

/-!
# Finding the tokens by search

`Splits d w ts` says what it means for a text to be cut at every `d`, without saying how: with a
`d` between neighbours the tokens make the text, and none of them holds a `d`. The tokens are the
only list of this kind (`splits_iff`).

They are found by searching the text for one delimiter after the other. A `Search` keeps the
tokens that it has cut off and the place where the next one begins. A text that ends with a
delimiter brings that place to the very end of the text, from where there is nothing left to
search, but one more token to cut off, which is empty.

`Search.Reaches` is what holds of a search after `n` rounds: the tokens that are cut off, and those
of the text from the place on, are the tokens of the whole text.

- `Search.Reaches.round`: one round cuts off one token, the next one in the text.
- `Search.reaches_after`: so every number of rounds is reached, by induction on this number.
- `tokens_unique_split`: the search ends after as many rounds as there are tokens, and has found
  the only list of its kind.
-/

set_option autoImplicit false

namespace RouteWire

variable {d : Char} {w : String} {ts : List String}

/-! ### What the tokens are -/

/-- At least one text, none of which holds `d`, and with a `d` between neighbours they make `w`. -/
structure Splits (d : Char) (w : String) (ts : List String) : Prop where
  ne_nil : ts ≠ []
  not_mem : ∀ t ∈ ts, d ∉ t.toList
  intercalate_eq : (String.singleton d).intercalate ts = w

/-- The tokens of a text are a way to split it. -/
theorem splits_tokens (d : Char) (w : String) : Splits d w (tokens d w) where
  ne_nil := tokens_ne_nil d w
  not_mem _ ht := not_mem_of_mem_tokens ht
  intercalate_eq := by rw [← joinTokens_eq_intercalate, joinTokens_tokens]

/-- Tokens without the delimiter come back from their joined text. -/
theorem tokens_intercalate (hne : ts ≠ []) (hd : ∀ t ∈ ts, d ∉ t.toList) :
    tokens d ((String.singleton d).intercalate ts) = ts := by
  rw [← joinTokens_eq_intercalate]
  exact tokens_joinTokens hne hd

/-- The tokens are the only way to split a text. -/
theorem splits_iff : Splits d w ts ↔ ts = tokens d w := by
  constructor
  · intro h
    rw [← h.intercalate_eq, tokens_intercalate h.ne_nil h.not_mem]
  · intro h
    rw [h]
    exact splits_tokens d w

/-! ### The search -/

/-- A search under way: the tokens that are cut off, and where the next one begins. Behind the
last token nothing begins. -/
structure Search where
  found : List String
  start : Option ℕ
  deriving DecidableEq

namespace Search

/-- Nothing is cut off yet, and the first token begins at the front. -/
def initial : Search where
  found := []
  start := some 0

/-- One round of a search. The next `d` ends the token that begins at `start`, and one more token
begins behind it. If there is no such `d` then the whole rest is the last token. -/
def round (d : Char) (w : String) (s : Search) : Search :=
  match s.start with
  | none => s
  | some start =>
      let rest := w.toList.drop start
      match rest.idxOf? d with
      | none => ⟨s.found ++ [String.ofList rest], none⟩
      | some size => ⟨s.found ++ [String.ofList (rest.take size)], some (start + size + 1)⟩

/-- A search after a number of rounds. -/
def after (d : Char) (w : String) (rounds : ℕ) : Search :=
  (round d w)^[rounds] initial

/-- The tokens that are still to be cut off. -/
def left (d : Char) (w : String) (s : Search) : List String :=
  match s.start with
  | none => []
  | some start => tokens d (String.ofList (w.toList.drop start))

/-- Where a search stands after `n` rounds. No token is lost, and while the search is under way
there is one token for each round. The next token begins within the text, or at its end. -/
structure Reaches (d : Char) (w : String) (n : ℕ) (s : Search) : Prop where
  found_append_left : s.found ++ s.left d w = tokens d w
  start_le : ∀ start, s.start = some start → start ≤ w.toList.length
  length_found : ∀ start, s.start = some start → s.found.length = n
  length_le : s.start = none → (tokens d w).length ≤ n

/-- The search starts with nothing found. -/
theorem reaches_initial (d : Char) (w : String) : Reaches d w 0 initial where
  found_append_left := by simp [initial, left]
  start_le := by simp [initial]
  length_found := by simp [initial]
  length_le := by simp [initial]

/-- The first `d` in a text ends its first token, and the other tokens are those of what stands
behind it. -/
theorem tokens_of_idxOf? {cs : List Char} {size : ℕ} (h : cs.idxOf? d = some size) :
    size < cs.length ∧ tokens d (String.ofList cs) =
      String.ofList (cs.take size) :: tokens d (String.ofList (cs.drop (size + 1))) := by
  obtain ⟨hsize, hd, hbefore⟩ := List.idxOf?_eq_some_iff.mp h
  have hnot : d ∉ (String.ofList (cs.take size)).toList := by
    simp only [String.toList_ofList, List.mem_take_iff_getElem, not_exists]
    intro i hi
    exact hbefore i (by omega)
  have hcut : String.ofList cs =
      (String.ofList (cs.take size)).push d ++ String.ofList (cs.drop (size + 1)) := by
    apply String.toList_inj.mp
    simp only [String.toList_ofList, String.toList_append, String.toList_push]
    rw [← hd, List.append_assoc, List.singleton_append, ← List.drop_eq_getElem_cons hsize,
      List.take_append_drop]
  refine ⟨hsize, ?_⟩
  rw [hcut, tokens_push_append, tokens_of_not_mem hnot, List.singleton_append]

/-- One round cuts off the next token. -/
theorem Reaches.round {n : ℕ} {s : Search} (h : Reaches d w n s) :
    Reaches d w (n + 1) (s.round d w) := by
  have happend := h.found_append_left
  cases hstart : s.start with
  | none =>
      -- Behind the last token a round leaves everything as it is.
      have hround : s.round d w = s := by simp [Search.round, hstart]
      have hlength := h.length_le hstart
      rw [hround]
      exact ⟨happend, by simp [hstart], by simp [hstart], fun _ => by omega⟩
  | some start =>
      have hfound := h.length_found start hstart
      rw [left, hstart] at happend
      dsimp only at happend
      cases hsize : (w.toList.drop start).idxOf? d with
      | none =>
          -- The rest holds no delimiter, so that it is the only token that is left.
          have hround : s.round d w =
              ⟨s.found ++ [String.ofList (w.toList.drop start)], none⟩ := by
            simp [Search.round, hstart, hsize]
          have hnot := List.idxOf?_eq_none_iff.mp hsize
          rw [tokens_of_not_mem (by rwa [String.toList_ofList])] at happend
          have hlength := congrArg List.length happend
          rw [List.length_append, List.length_singleton, hfound] at hlength
          rw [hround]
          exact ⟨by simpa [left] using happend, by simp, by simp, fun _ => by omega⟩
      | some size =>
          -- The delimiter is a cut, and behind it begins the next token.
          have hround : s.round d w =
              ⟨s.found ++ [String.ofList ((w.toList.drop start).take size)],
                some (start + size + 1)⟩ := by
            simp [Search.round, hstart, hsize]
          obtain ⟨hlt, htokens⟩ := tokens_of_idxOf? hsize
          rw [htokens, List.drop_drop, ← Nat.add_assoc] at happend
          rw [List.length_drop] at hlt
          rw [hround]
          refine ⟨by simpa [left] using happend, ?_, by simp [hfound], by simp⟩
          intro next hnext
          cases hnext
          omega

/-- The search reaches one more token with each round. -/
theorem reaches_after (d : Char) (w : String) (n : ℕ) : Reaches d w n (after d w n) := by
  induction n with
  | zero => exact reaches_initial d w
  | succ n ih =>
      rw [after, Function.iterate_succ_apply']
      exact ih.round

/-- After some steps the search has found as many tokens. -/
theorem Reaches.found_eq {n : ℕ} {s : Search} (h : Reaches d w n s) :
    s.found = (tokens d w).take n := by
  have happend := h.found_append_left
  cases hstart : s.start with
  | none =>
      simp only [left, hstart, List.append_nil] at happend
      rw [happend, List.take_of_length_le (h.length_le hstart)]
  | some start => rw [← happend, List.take_left' (h.length_found start hstart)]

/-- A search is over after as many rounds as there are tokens, and not before. -/
theorem Reaches.start_eq_none_iff {n : ℕ} {s : Search} (h : Reaches d w n s) :
    s.start = none ↔ (tokens d w).length ≤ n := by
  refine ⟨h.length_le, fun hle => ?_⟩
  cases hstart : s.start with
  | none => rfl
  | some start =>
      -- A rest that is still to be searched has a token of its own.
      have hlength := congrArg List.length h.found_append_left
      have hrest := List.length_pos_iff.mpr
        (tokens_ne_nil d (String.ofList (w.toList.drop start)))
      rw [List.length_append, h.length_found start hstart, left, hstart] at hlength
      dsimp only at hlength
      omega

end Search

/-- The tokens of a text are the only list of at least one text that makes it, with the delimiter
between neighbours, and in which no text holds the delimiter. There is one token more than there
are delimiters, and each such list consists of the tokens of what it makes. The search finds one
of them with each round and is over after the last one, and the place where it goes on is never
behind the end of the text. -/
theorem tokens_unique_split (d : Char) (w : String) :
    (∀ n, (Search.after d w n).found = (tokens d w).take n ∧
        ((Search.after d w n).start = none ↔ (tokens d w).length ≤ n) ∧
        ∀ start, (Search.after d w n).start = some start → start ≤ w.toList.length) ∧
      (∀ ts, Splits d w ts ↔ ts = tokens d w) ∧
      (tokens d w).length = w.toList.count d + 1 ∧
      ∀ ts : List String, ts ≠ [] → (∀ t ∈ ts, d ∉ t.toList) →
        tokens d ((String.singleton d).intercalate ts) = ts := by
  refine ⟨fun n => ?_, fun ts => splits_iff, length_tokens d w, fun ts => tokens_intercalate⟩
  have hreaches := Search.reaches_after d w n
  exact ⟨hreaches.found_eq, hreaches.start_eq_none_iff, hreaches.start_le⟩

/-- A text with delimiters at both ends and two in the middle. The last token begins at the end
of the text. -/
theorem tokens_unique_split_empty_ends :
    (["", "a", "", "b", ""] ≠ ([] : List String) ∧
        ∀ t ∈ ["", "a", "", "b", ""], ';' ∉ t.toList) ∧
      tokens ';' ";a;;b;" = ["", "a", "", "b", ""] ∧
      Search.after ';' ";a;;b;" 4 = ⟨["", "a", "", "b"], some 6⟩ ∧
      Search.after ';' ";a;;b;" 5 = ⟨["", "a", "", "b", ""], none⟩ := by
  have hnot : ∀ t ∈ ["", "a", "", "b", ""], ';' ∉ t.toList := by decide
  have htokens : tokens ';' ";a;;b;" = ["", "a", "", "b", ""] :=
    (tokens_unique_split ';' ";a;;b;").2.2.2 ["", "a", "", "b", ""] (by decide) hnot
  exact ⟨⟨by decide, hnot⟩, htokens, by decide, by decide⟩

end RouteWire
