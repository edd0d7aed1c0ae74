/-!
# Tokens

A list value is one text: its tokens with a delimiter between neighbours. `tokens` cuts a text
at every delimiter and `joinTokens` puts tokens together again.

- `joinTokens_tokens`: nothing is lost, the tokens of a text join to that text.
- `tokens_joinTokens`: a list of at least one token is found again if no token holds the
  delimiter. So the tokens of a text are the only such list that joins to it.

The work is done on lists of characters (`splitAtEach`), where the induction lives.
-/

set_option autoImplicit false

namespace RouteWire

/-- The delimiter between the positions of a list. -/
def defaultDelimiter : Char :=
  ';'

/-- The delimiter inside one position. -/
def defaultInnerDelimiter : Char :=
  ','

/-- Cuts a list of characters at every `d`. Neighbouring cuts, and cuts at either end, give
empty pieces, so there is always one piece more than there are cuts. -/
def splitAtEach (d : Char) : List Char → List (List Char)
  | [] => [[]]
  | c :: cs => if c = d then [] :: splitAtEach d cs else (splitAtEach d cs).modifyHead (c :: ·)

/-- A text has at least one part. -/
theorem splitAtEach_ne_nil (d : Char) (cs : List Char) : splitAtEach d cs ≠ [] := by
  cases cs with
  | nil => simp [splitAtEach]
  | cons c cs =>
    have ih := splitAtEach_ne_nil d cs
    by_cases h : c = d
    · simp [splitAtEach, h]
    · cases hs : splitAtEach d cs with
      | nil => exact absurd hs ih
      | cons t ts => simp [splitAtEach, h, hs]

/-- The parts make up the text, with the delimiter between them. -/
theorem intercalate_splitAtEach (d : Char) (cs : List Char) :
    [d].intercalate (splitAtEach d cs) = cs := by
  induction cs with
  | nil => simp [splitAtEach]
  | cons c cs ih =>
    -- The rest has a first piece, so each arm shows its shape.
    cases hs : splitAtEach d cs with
    | nil => exact absurd hs (splitAtEach_ne_nil d cs)
    | cons t ts =>
      rw [hs] at ih
      by_cases h : c = d
      · simp [splitAtEach, h, hs, ih]
      · cases ts with
        | nil => simp_all [splitAtEach]
        | cons u us => simp_all [splitAtEach]

/-- A part does not hold the delimiter. -/
theorem not_mem_of_mem_splitAtEach {d : Char} {cs t : List Char} (ht : t ∈ splitAtEach d cs) :
    d ∉ t := by
  induction cs generalizing t with
  | nil => simp_all [splitAtEach]
  | cons c cs ih =>
    cases hs : splitAtEach d cs with
    | nil => exact absurd hs (splitAtEach_ne_nil d cs)
    | cons u us =>
      rw [hs] at ih
      by_cases h : c = d
      · simp only [splitAtEach, h, if_true, hs, List.mem_cons] at ht
        rcases ht with rfl | ht
        · exact List.not_mem_nil
        · exact ih (List.mem_cons.mpr ht)
      · simp only [splitAtEach, h, if_false, hs, List.modifyHead_cons, List.mem_cons] at ht
        rcases ht with rfl | ht
        · intro hd
          rcases List.mem_cons.mp hd with rfl | hd
          · exact h rfl
          · exact ih List.mem_cons_self hd
        · exact ih (List.mem_cons_of_mem _ ht)

/-- A piece without the delimiter stays in one piece. -/
theorem splitAtEach_of_not_mem {d : Char} {t : List Char} (ht : d ∉ t) :
    splitAtEach d t = [t] := by
  induction t with
  | nil => rfl
  | cons c t ih =>
    obtain ⟨hc, ht⟩ := not_or.mp (mt List.mem_cons.mpr ht)
    simp [splitAtEach, ih ht, Ne.symm hc]

/-- A cut at `d` separates the pieces before it from the pieces after it. -/
theorem splitAtEach_append_cons (d : Char) (xs ys : List Char) :
    splitAtEach d (xs ++ d :: ys) = splitAtEach d xs ++ splitAtEach d ys := by
  induction xs with
  | nil => simp [splitAtEach]
  | cons c xs ih =>
    by_cases h : c = d
    · simp [splitAtEach, h, ih]
    · cases hs : splitAtEach d xs with
      | nil => exact absurd hs (splitAtEach_ne_nil d xs)
      | cons t ts => simp [splitAtEach, h, ih, hs]

/-- Parts without the delimiter come back from the text that they make up. -/
theorem splitAtEach_intercalate {d : Char} {ts : List (List Char)} (hne : ts ≠ [])
    (hd : ∀ t ∈ ts, d ∉ t) : splitAtEach d ([d].intercalate ts) = ts := by
  induction ts with
  | nil => exact absurd rfl hne
  | cons t ts ih =>
    have ht := splitAtEach_of_not_mem (hd t List.mem_cons_self)
    cases ts with
    | nil => simpa using ht
    | cons u us =>
      rw [List.intercalate_cons_cons, List.append_assoc, List.singleton_append,
        splitAtEach_append_cons, ht, ih (by simp) (fun v hv => hd v (List.mem_cons_of_mem _ hv))]
      rfl

/-- The tokens of a text, in order: the text cut at every delimiter `d`. The empty text has one
token, which is empty. -/
def tokens (d : Char) (w : String) : List String :=
  (splitAtEach d w.toList).map String.ofList

/-- The tokens with `d` between neighbours. -/
def joinTokens (d : Char) (ts : List String) : String :=
  String.ofList ([d].intercalate (ts.map String.toList))

/-- A text has at least one token. -/
theorem tokens_ne_nil (d : Char) (w : String) : tokens d w ≠ [] := by
  simp [tokens, splitAtEach_ne_nil]

/-- A text comes back when its tokens are joined. -/
theorem joinTokens_tokens (d : Char) (w : String) : joinTokens d (tokens d w) = w := by
  simp [joinTokens, tokens, Function.comp_def, intercalate_splitAtEach]

/-- Tokens without the delimiter come back when they are joined. -/
theorem tokens_joinTokens {d : Char} {ts : List String} (hne : ts ≠ [])
    (hd : ∀ t ∈ ts, d ∉ t.toList) : tokens d (joinTokens d ts) = ts := by
  have h : splitAtEach d ([d].intercalate (ts.map String.toList)) = ts.map String.toList :=
    splitAtEach_intercalate (by simpa using hne) (by simpa using hd)
  simp [joinTokens, tokens, h, Function.comp_def]

end RouteWire
