import RouteWire.Tokens

/-!
# The tokens of a join

`tokens_joinTokens` needs tokens that do not hold the delimiter. Here they may hold it:
`tokens_joinTokens_flatMap` says that a join is cut into the tokens of what was joined, one text
after the other. With `length_tokens`, which counts the cuts, it tells how many tokens come back.

A join can also be looked at from its end: `toList_joinTokens_concat` says what one more token
adds to it. As a text it is what the standard library makes of the tokens and the delimiter
(`joinTokens_eq_intercalate`).
-/

set_option autoImplicit false

namespace RouteWire

/-- One piece more than there are cuts. -/
theorem length_splitAtEach (d : Char) (cs : List Char) :
    (splitAtEach d cs).length = cs.count d + 1 := by
  induction cs with
  | nil => rfl
  | cons c cs ih =>
      by_cases h : c = d
      · subst h
        simp [splitAtEach, ih]
      · simp [splitAtEach, h, ih]

/-- A text has one token more than it has delimiters. -/
theorem length_tokens (d : Char) (w : String) : (tokens d w).length = w.toList.count d + 1 := by
  rw [tokens, List.length_map, length_splitAtEach]

/-- A token does not hold the delimiter. -/
theorem not_mem_of_mem_tokens {d : Char} {w t : String} (ht : t ∈ tokens d w) :
    d ∉ t.toList := by
  obtain ⟨cs, hcs, rfl⟩ := List.mem_map.mp ht
  rw [String.toList_ofList]
  exact not_mem_of_mem_splitAtEach hcs

/-- A text without the delimiter is its own only token. -/
theorem tokens_of_not_mem {d : Char} {w : String} (hd : d ∉ w.toList) : tokens d w = [w] := by
  rw [tokens, splitAtEach_of_not_mem hd]
  simp

/-- A delimiter between two texts is a cut, so that no token spans both of them. -/
theorem tokens_push_append (d : Char) (w₁ w₂ : String) :
    tokens d (w₁.push d ++ w₂) = tokens d w₁ ++ tokens d w₂ := by
  simp [tokens, splitAtEach_append_cons]

/-- Taking a joined text apart takes each of its parts apart. -/
theorem splitAtEach_intercalate_flatMap (d : Char) {ts : List (List Char)} (hne : ts ≠ []) :
    splitAtEach d ([d].intercalate ts) = ts.flatMap (splitAtEach d) := by
  induction ts with
  | nil => exact absurd rfl hne
  | cons t ts ih =>
      cases ts with
      | nil => simp
      | cons u us =>
          -- The delimiter between two texts is a cut, so that no piece spans both of them.
          rw [List.intercalate_cons_cons, List.append_assoc, List.singleton_append,
            splitAtEach_append_cons, ih (by simp)]
          rfl

/-- A join of at least one text is cut into the tokens of the texts. -/
theorem tokens_joinTokens_flatMap (d : Char) {ts : List String} (hne : ts ≠ []) :
    tokens d (joinTokens d ts) = ts.flatMap (tokens d) := by
  have h := splitAtEach_intercalate_flatMap d (mt List.map_eq_nil_iff.mp hne :
    ts.map String.toList ≠ [])
  rw [tokens, joinTokens, String.toList_ofList, h, List.flatMap_map, List.map_flatMap]
  rfl

/-- Two tokens with a delimiter between them are joined as one. -/
theorem joinTokens_push_append (d : Char) (s t : String) (ts : List String) :
    joinTokens d ((s.push d ++ t) :: ts) = joinTokens d (s :: t :: ts) := by
  apply String.toList_inj.mp
  cases ts with
  | nil => simp [joinTokens]
  | cons u us => simp [joinTokens, List.intercalate_cons_cons]

/-- Joining is putting the delimiter between the tokens. -/
theorem joinTokens_eq_intercalate (d : Char) (ts : List String) :
    joinTokens d ts = (String.singleton d).intercalate ts := by
  apply String.toList_inj.mp
  rw [joinTokens, String.toList_ofList, String.toList_intercalate, String.toList_singleton]

/-- One more token is put behind a delimiter, if there is a token before it. -/
theorem toList_joinTokens_concat (d : Char) {ts : List String} (hne : ts ≠ []) (t : String) :
    (joinTokens d (ts ++ [t])).toList = (joinTokens d ts).toList ++ d :: t.toList := by
  simp only [joinTokens, String.toList_ofList, List.map_append, List.map_singleton]
  induction ts with
  | nil => exact absurd rfl hne
  | cons u us ih =>
      cases us with
      | nil => simp
      | cons v vs =>
          have hrest := ih (by simp)
          simp only [List.map_cons, List.cons_append] at hrest ⊢
          rw [List.intercalate_cons_cons, hrest, List.intercalate_cons_cons]
          simp

end RouteWire
