import RouteWire.Boolean
import RouteWire.Proofs.Outcome
import RouteWire.Proofs.Tokens
import RouteWire.Sequence

/-!
# Sequences survive their text

What a text reads as is said token by token (`read_eq_ok_iff`), with no mention of positions or of
how failures are moved. From this come the two directions:

- `read_write_texts`: if the text of each present position is not empty, does not hold the
  delimiter and reads as a value, then the whole text reads as those values. Only one absent
  position on its own is lost (`collapsed`). `readOptional_writeOptional` is the same law for a
  reader and a renderer of elements, with sequences that may be unset.
- `write_texts_of_read`: if the elements are written as the tokens that they were read from, then
  the whole text is written again.
-/

set_option autoImplicit false

namespace RouteWire.Sequence

variable {α β : Type} {d : Char}

/-! ### Reading token by token -/

/-- What a token stands for: an empty one for an absent position, any other one for the value that
it reads as. -/
inductive ReadsAs (read : String → Except Failure α) : String → Option α → Prop where
  | absent : ReadsAs read "" none
  | present {t : String} {a : α} (hne : t ≠ "") (hread : read t = .ok a) : ReadsAs read t (some a)

/-- Reading the first token and then the others. -/
theorem readFrom_cons (read : String → Except Failure α) (i : Nat) (t : String)
    (ts : List String) : readFrom read i (t :: ts) =
      (if t = "" then .ok none else some <$> (read t).mapError (Failure.relocate i)) >>= fun x =>
        readFrom read (i + 1) ts >>= fun xs => pure (x :: xs) := by
  rw [readFrom]
  split <;> rfl

/-- Tokens are read position by position. -/
theorem readFrom_eq_ok_iff {read : String → Except Failure α} {i : Nat} {ts : List String}
    {xs : Sequence α} :
    readFrom read i ts = .ok xs ↔ List.Forall₂ (ReadsAs read) ts xs := by
  induction ts generalizing i xs with
  | nil =>
      rw [readFrom, List.forall₂_nil_left_iff, Except.ok.injEq, eq_comm]
  | cons t ts ih =>
      -- What the first token gives, whatever position it is at.
      have htoken : ∀ x, (if t = "" then .ok none
          else some <$> (read t).mapError (Failure.relocate i)) = .ok x ↔ ReadsAs read t x := by
        intro x
        by_cases hempty : t = ""
        · rw [if_pos hempty, hempty]
          constructor
          · rintro ⟨⟩
            exact .absent
          · intro h
            cases h with
            | absent => rfl
            | present hne => exact absurd rfl hne
        · rw [if_neg hempty, map_eq_ok_iff]
          constructor
          · rintro ⟨a, hread, rfl⟩
            exact .present hempty (mapError_eq_ok_iff.mp hread)
          · intro h
            cases h with
            | absent => exact absurd rfl hempty
            | present _ hread => exact ⟨_, mapError_eq_ok_iff.mpr hread, rfl⟩
      rw [readFrom_cons, bind_eq_ok_iff, List.forall₂_cons_left_iff]
      simp only [bind_eq_ok_iff, pure_eq_ok_iff, ih, htoken]
      constructor
      · rintro ⟨x, hx, xs, hxs, rfl⟩
        exact ⟨x, xs, hx, hxs, rfl⟩
      · rintro ⟨x, xs, hx, hxs, rfl⟩
        exact ⟨x, hx, xs, hxs, rfl⟩

/-- A text is read token by token, and the empty text has none. -/
theorem read_eq_ok_iff {read : String → Except Failure α} {w : String} {xs : Sequence α} :
    Sequence.read d read w = .ok xs ↔
      if w = "" then xs = [] else List.Forall₂ (ReadsAs read) (tokens d w) xs := by
  unfold Sequence.read
  split
  · rw [Except.ok.injEq, eq_comm]
  · exact readFrom_eq_ok_iff

/-- Only the empty text reads as no position at all. -/
theorem read_eq_nil_iff {read : String → Except Failure α} {w : String} :
    Sequence.read d read w = .ok [] ↔ w = "" := by
  rw [read_eq_ok_iff]
  constructor
  · intro h
    split at h
    · assumption
    · exact absurd (List.forall₂_nil_right_iff.mp h) (tokens_ne_nil d w)
  · intro h
    rw [if_pos h]

/-- No text reads as one absent position on its own: its only token would be empty, and so would
be the text. -/
theorem ne_single_none_of_read {read : String → Except Failure α} {w : String} {xs : Sequence α}
    (h : Sequence.read d read w = .ok xs) : xs ≠ [none] := by
  rintro rfl
  rw [read_eq_ok_iff] at h
  split at h
  · cases h
  · rename_i hnonempty
    obtain ⟨t, ts, ht, hts, htokens⟩ := List.forall₂_cons_right_iff.mp h
    cases ht
    rw [List.forall₂_nil_right_iff.mp hts] at htokens
    refine hnonempty ?_
    rw [← joinTokens_tokens d w, htokens]
    rfl

/-- A text that is read as it stands is not empty and does not hold the delimiter. -/
theorem plain_of_read {w s : String} {xs : Sequence String}
    (h : Sequence.read d .ok w = .ok xs) (hs : some s ∈ xs) : s ≠ "" ∧ d ∉ s.toList := by
  rw [read_eq_ok_iff] at h
  split at h
  · rw [h] at hs
    exact absurd hs List.not_mem_nil
  · have hfree : ∀ t ∈ tokens d w, d ∉ t.toList := fun t => not_mem_of_mem_tokens
    -- By induction on the positions and their tokens, whatever text these come from.
    generalize tokens d w = ts at h hfree
    induction h with
    | nil => exact absurd hs List.not_mem_nil
    | cons hfirst hrest ih =>
        obtain ⟨hhead, htail⟩ := List.forall_mem_cons.mp hfree
        rcases List.mem_cons.mp hs with rfl | hs
        · cases hfirst with
          | present hne hread =>
              cases hread
              exact ⟨hne, hhead⟩
        · exact ih hs htail

/-! ### Writing and reading -/

/-- The sequence that the text of a sequence stands for. One absent position on its own has the
same text as no position at all. -/
def collapsed : Sequence α → Sequence α
  | [none] => []
  | xs => xs

/-- Only a single absent position collapses. -/
theorem collapsed_of_ne {xs : Sequence α} (h : xs ≠ [none]) : xs.collapsed = xs := by
  unfold collapsed
  split
  · exact absurd rfl h
  · rfl

/-- Collapsing looks at positions only, not at what is there. -/
theorem collapsed_map (f : α → β) (xs : Sequence α) :
    collapsed (xs.map (Option.map f)) = xs.collapsed.map (Option.map f) := by
  by_cases hsingle : xs = [none]
  · subst hsingle
    rfl
  · rw [collapsed_of_ne hsingle]
    refine collapsed_of_ne fun hmap => hsingle ?_
    simpa [List.map_eq_singleton_iff] using hmap

/-- The text of each position, with a delimiter between neighbours. -/
theorem write_keep (render : α → String) (xs : Sequence α) :
    write d render .keep xs = joinTokens d (xs.map fun x => x.elim "" render) :=
  rfl

/-- Without absent positions the texts are joined. -/
theorem write_map_some (d : Char) (ts : List String) :
    write d id .keep (ts.map some) = joinTokens d ts := by
  rw [write_keep, List.map_map]
  simp [Function.comp_def]

/-- A text that comes back as a value when it stands between two delimiters `d`. -/
structure Carried (d : Char) (read : String → Except Failure α) (t : String) (a : α) : Prop where
  ne_empty : t ≠ ""
  not_mem : d ∉ t.toList
  read_eq : read t = .ok a

/-- Texts that come back one by one come back as a sequence. -/
theorem read_write_texts {read : String → Except Failure α} {ts : Sequence String}
    {xs : Sequence α} (h : List.Forall₂ (Option.Rel (Carried d read)) ts xs) :
    Sequence.read d read (write d id .keep ts) = .ok xs.collapsed := by
  rw [read_eq_ok_iff, write_keep]
  -- No position at all has no token, so that cutting the text does not give the positions back.
  rcases eq_or_ne ts [] with rfl | hne
  · obtain rfl := List.forall₂_nil_left_iff.mp h
    rfl
  have hreads : List.Forall₂ (ReadsAs read) (ts.map fun t => t.elim "" id) xs := by
    rw [List.forall₂_map_left_iff]
    refine h.imp fun t x htx => ?_
    cases htx with
    | none => exact .absent
    | some hcarried => exact .present hcarried.ne_empty hcarried.read_eq
  have hfree : ∀ t ∈ ts.map fun t => t.elim "" id, d ∉ t.toList := by
    have hboth : List.Forall₂ (fun t x => d ∉ (t.elim "" id).toList ∧
        Option.Rel (Carried d read) t x) ts xs := by
      refine h.imp fun t x htx => ⟨?_, htx⟩
      cases htx with
      | none => simp
      | some hcarried => exact hcarried.not_mem
    intro t ht
    obtain ⟨t, hmem, rfl⟩ := List.mem_map.mp ht
    exact ((List.forall₂_and_left ..).mp hboth).1 t hmem
  have htokens := tokens_joinTokens (mt List.map_eq_nil_iff.mp hne) hfree
  split
  · -- The only text without characters is that of one absent position.
    rename_i hempty
    rw [hempty] at htokens
    rw [← htokens] at hreads
    show xs.collapsed = []
    cases hreads with
    | cons hfirst hrest =>
        cases hrest
        cases hfirst with
        | absent => rfl
        | present hne => exact absurd rfl hne
  · rename_i hnonempty
    have hcollapsed : xs.collapsed = xs := by
      refine collapsed_of_ne ?_
      rintro rfl
      cases h with
      | cons hfirst hrest =>
          cases hfirst
          cases hrest
          exact hnonempty rfl
    rw [htokens, hcollapsed]
    exact hreads

/-- Writing with a renderer is writing the texts that it gives. -/
theorem write_render (d : Char) (render : α → String) (xs : Sequence α) :
    write d render .keep xs = write d id .keep (xs.map (Option.map render)) := by
  rw [write_keep, write_keep, List.map_map]
  congr 1
  refine List.map_congr_left fun x _ => ?_
  cases x <;> rfl

/-- Elements that come back one by one come back as a sequence. -/
theorem read_write {read : String → Except Failure α} {render : α → String} {xs : Sequence α}
    (h : ∀ a, some a ∈ xs → Carried d read (render a) a) :
    Sequence.read d read (write d render .keep xs) = .ok xs.collapsed := by
  rw [write_render]
  apply read_write_texts
  rw [List.forall₂_map_left_iff, List.forall₂_same]
  intro x hx
  cases x with
  | none => exact .none
  | some a => exact .some (h a hx)

/-- Absent positions alone come back, unless there is exactly one. -/
theorem read_write_replicate (read : String → Except Failure α) (render : α → String) {n : Nat}
    (hn : n ≠ 1) : Sequence.read d read (write d render .keep (List.replicate n none)) =
      .ok (List.replicate n none) := by
  have hcarried : ∀ a, some a ∈ List.replicate n none → Carried d read (render a) a := by
    intro a ha
    cases (List.mem_replicate.mp ha).2
  have hne : List.replicate n (none : Option α) ≠ [none] := by
    intro h
    exact hn (by simpa using congrArg List.length h)
  rw [read_write hcarried, collapsed_of_ne hne]

/-- A codec of sequences out of any codec of elements. If each present element has a text that is
not empty, does not hold the delimiter and reads as the element, then the sequence comes back,
except that one absent position on its own comes back as no position. A sequence that is set comes
back set and an unset one unset, so that unset, empty, and any number of absent positions other
than one are told apart. -/
theorem readOptional_writeOptional {read : String → Except Failure α} {render : α → String}
    {xs : Sequence α} (h : ∀ a, some a ∈ xs → Carried d read (render a) a) :
    (xs ≠ [none] → Sequence.read d read (write d render .keep xs) = .ok xs) ∧
      (xs = [none] → Sequence.read d read (write d render .keep xs) = .ok []) ∧
      readOptional d read (writeOptional d render .keep (some xs)) =
        some <$> Sequence.read d read (write d render .keep xs) ∧
      writeOptional d render .keep none = none ∧ readOptional d read none = .ok none ∧
      ∀ n, n ≠ 1 →
        readOptional d read (writeOptional d render .keep (some (List.replicate n none))) =
          .ok (some (List.replicate n none)) := by
  refine ⟨fun hne => ?_, fun hsingle => ?_, rfl, rfl, rfl, fun n hn => ?_⟩
  · rw [read_write h, collapsed_of_ne hne]
  · rw [read_write h, hsingle]
    rfl
  · show some <$> Sequence.read d read (write d render .keep (List.replicate n none)) = _
    rw [read_write_replicate read render hn]
    rfl

/-- Booleans with a run of absent positions, and absent ones at either end. -/
theorem readOptional_writeOptional_booleans :
    (∀ b, some b ∈ [none, some true, none, none, some false, none] →
        Carried ',' readBoolean (writeBoolean b) b) ∧
      write ',' writeBoolean .keep [none, some true, none, none, some false, none] =
        ",true,,,false," ∧
      Sequence.read ',' readBoolean ",true,,,false," =
        .ok [none, some true, none, none, some false, none] := by
  have hcarried : ∀ b, some b ∈ [none, some true, none, none, some false, none] →
      Carried ',' readBoolean (writeBoolean b) b := by
    intro b _
    cases b with
    | true => exact ⟨by decide, by decide, readBoolean_writeBoolean true⟩
    | false => exact ⟨by decide, by decide, readBoolean_writeBoolean false⟩
  have htext : write ',' writeBoolean .keep [none, some true, none, none, some false, none] =
      ",true,,,false," := by decide +kernel
  refine ⟨hcarried, htext, ?_⟩
  rw [← htext]
  exact (readOptional_writeOptional hcarried).1 (by decide)

/-! ### Reading and writing -/

/-- What is written at a position: nothing at an absent one, and at a present one what its element
is written as, which may be nothing as well. -/
inductive Written (text : α → Option String → Prop) : Option α → Option String → Prop where
  | absent : Written text none none
  | present {a : α} {t : Option String} (htext : text a t) : Written text (some a) t

/-- An absent position is written as nothing. -/
@[simp] theorem written_none_iff {text : α → Option String → Prop} {t : Option String} :
    Written text none t ↔ t = none := by
  constructor
  · intro h
    cases h
    rfl
  · intro h
    rw [h]
    exact .absent

/-- A present position is written as its element is. -/
@[simp] theorem written_some_iff {text : α → Option String → Prop} {a : α} {t : Option String} :
    Written text (some a) t ↔ text a t := by
  constructor
  · intro h
    cases h
    assumption
  · intro h
    exact .present h

/-- Where elements have a renderer, what is written is what it gives. -/
theorem written_render_iff {render : α → String} {xs : Sequence α} {ts : Sequence String} :
    List.Forall₂ (Written fun x t => some (render x) = t) xs ts ↔
      xs.map (Option.map render) = ts := by
  induction xs generalizing ts with
  | nil => rw [List.forall₂_nil_left_iff, List.map_nil, eq_comm]
  | cons x xs ih =>
      rw [List.forall₂_cons_left_iff, List.map_cons]
      constructor
      · rintro ⟨t, us, ht, hus, rfl⟩
        rw [ih.mp hus]
        cases x with
        | none => rw [written_none_iff.mp ht, Option.map_none]
        | some a => rw [← written_some_iff.mp ht, Option.map_some]
      · rintro rfl
        refine ⟨_, _, ?_, ih.mpr rfl, rfl⟩
        cases x with
        | none => exact .absent
        | some a => exact .present rfl

/-- All positions are written if and only if each present one can be. -/
theorem exists_written_iff {text : α → Option String → Prop} {xs : Sequence α} :
    (∃ ts, List.Forall₂ (Written text) xs ts) ↔ ∀ a, some a ∈ xs → ∃ t, text a t := by
  induction xs with
  | nil => simp
  | cons x xs ih =>
      have hfirst : (∃ t, Written text x t) ↔ ∀ a, some a = x → ∃ t, text a t := by
        cases x with
        | none => simp
        | some a => simp
      simp only [List.forall₂_cons_left_iff, List.mem_cons, or_imp, forall_and, ← hfirst, ← ih]
      constructor
      · intro ⟨_, t, ts, ht, hts, _⟩
        exact ⟨⟨t, ht⟩, ⟨ts, hts⟩⟩
      · intro ⟨⟨t, ht⟩, ⟨ts, hts⟩⟩
        exact ⟨_, t, ts, ht, hts, rfl⟩

/-- Where a sequence collapses, its texts collapse with it, and the whole text stays the same. -/
theorem written_collapsed {text : α → Option String → Prop} {xs : Sequence α}
    {ts : Sequence String} (d : Char) (h : List.Forall₂ (Written text) xs ts) :
    ∃ us, List.Forall₂ (Written text) xs.collapsed us ∧
      write d id .keep us = write d id .keep ts := by
  by_cases hsingle : xs = [none]
  · subst hsingle
    obtain ⟨t, us, ht, hus, rfl⟩ := List.forall₂_cons_left_iff.mp h
    rw [written_none_iff.mp ht, List.forall₂_nil_left_iff.mp hus]
    exact ⟨[], .nil, rfl⟩
  · rw [collapsed_of_ne hsingle]
    exact ⟨ts, h, rfl⟩

/-- Elements that are written as the tokens that they were read from give the whole text again. -/
theorem write_texts_of_read {read : String → Except Failure α} {text : α → Option String → Prop}
    {w : String} {xs : Sequence α} {ts : Sequence String} (h : Sequence.read d read w = .ok xs)
    (hwritten : List.Forall₂ (Written text) xs ts)
    (htext : ∀ s a t, read s = .ok a → text a t → t = some s) : write d id .keep ts = w := by
  rw [read_eq_ok_iff] at h
  rw [write_keep]
  split at h
  -- The empty text has no position, and no position is written as the empty text.
  · rename_i hempty
    rw [h, List.forall₂_nil_left_iff] at hwritten
    rw [hwritten, hempty]
    rfl
  · have htokens : ts.map (fun t => t.elim "" id) = tokens d w := by
      -- Position by position, an absent one stands for an empty token.
      generalize tokens d w = us at h
      induction h generalizing ts with
      | nil =>
          rw [List.forall₂_nil_left_iff] at hwritten
          rw [hwritten]
          rfl
      | cons hfirst hrest ih =>
          obtain ⟨t, ts, ht, hts, rfl⟩ := List.forall₂_cons_left_iff.mp hwritten
          rw [List.map_cons, ih hts]
          cases ht with
          | absent =>
              cases hfirst with
              | absent => rfl
          | present hpresent =>
              cases hfirst with
              | present hne hread =>
                  rw [htext _ _ _ hread hpresent]
                  rfl
    rw [htokens, joinTokens_tokens]

end RouteWire.Sequence
