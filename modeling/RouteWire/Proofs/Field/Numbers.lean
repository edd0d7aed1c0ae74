import RouteWire.Proofs.Field.Write
import RouteWire.Proofs.Point
import RouteWire.Proofs.Sequence.Failure
import RouteWire.Sequence.Read

/-!
# Lists of numbers settle after one trip

A list of numbers may have almost any delimiter, even one that is part of numerals, such as a sign
or an exponent mark. What is read with such a delimiter is spelled without it, and that leaves
little to be said about what is written: it has digits and a point, and a minus sign only if there
was one to be read (`not_mem_writeNumber_of_readNumber`).

So a list that was read is written without fail, each number comes back settled, and the text is in
canonical form (`writeNumbers_readNumbers_stable`). A digit or a point does not do as a delimiter,
because rounding brings them in: with `5` between the numbers, `0.0000048` is written as
`0.000005`.
-/

set_option autoImplicit false

namespace RouteWire

open Sequence (Written Carried)

variable {d : Char} {s t w : String} {x : Binary64} {xs : Sequence Binary64}
  {ts : Sequence String}

/-! ### One number -/

/-- Rounding a number brings in no delimiter, if this is neither a digit nor a point: it could only
be the minus sign, and the number has none if there was none in its spelling. -/
theorem not_mem_writeNumber_of_readNumber (hdigit : d.isDigit = false) (hpoint : d ≠ '.')
    (hread : readNumber t = .ok x) (hfree : d ∉ t.toList) (hwrite : writeNumber x = .ok s) :
    d ∉ s.toList := by
  obtain ⟨-, rfl⟩ := writeNumber_eq_ok_iff.mp hwrite
  rw [String.toList_ofList]
  intro hmem
  rcases Fixed.mem_canonical _ hmem with hd | hd | ⟨rfl, hnegative⟩
  · simp [hdigit] at hd
  · exact hpoint hd
  · exact hfree (Number.minus_mem_of_read (readNumber_eq_ok_iff.mp hread) hnegative)

/-- A number is written as its text. -/
theorem Rule.number_eq_ok_iff {t : Option String} :
    Rule.number x = .ok t ↔ ∃ s, writeNumber x = .ok s ∧ some s = t := by
  simp [Rule.number, map_eq_ok_iff, Rule.numberText_eq_ok_iff]

/-- The number was read from a token that does not hold the delimiter. -/
def Binary64.ReadWithout (d : Char) (x : Binary64) : Prop :=
  ∃ t, readNumber t = .ok x ∧ d ∉ t.toList

namespace Binary64.ReadWithout

/-- A number that was read can be written. -/
theorem exists_rule (h : x.ReadWithout d) : ∃ t, Rule.number x = .ok t := by
  obtain ⟨t, hread, -⟩ := h
  have hfinite := Number.isFinite_of_read (readNumber_eq_ok_iff.mp hread)
  exact ⟨_, Rule.number_eq_ok_iff.mpr ⟨_, writeNumber_eq_ok_iff.mpr ⟨hfinite, rfl⟩, rfl⟩⟩

/-- Between two delimiters, the text of the number comes back as the settled number. -/
theorem carried (h : x.ReadWithout d) (hdigit : d.isDigit = false) (hpoint : d ≠ '.')
    (hwrite : writeNumber x = .ok s) : Carried d readNumber s x.settled := by
  obtain ⟨t, hread, hfree⟩ := h
  have hsettled := readNumber_settled hwrite
  exact ⟨ne_empty_of_readNumber hsettled,
    not_mem_writeNumber_of_readNumber hdigit hpoint hread hfree hwrite, hsettled⟩

end Binary64.ReadWithout

/-! ### All positions -/

/-- Numbers that were read come from tokens, which do not hold the delimiter. -/
theorem readWithout_of_readNumbers (h : Sequence.read d readNumber w = .ok xs) :
    ∀ x, some x ∈ xs → x.ReadWithout d := by
  intro x hx
  obtain ⟨t, ht, -, hread⟩ := (Sequence.mem_iff_of_read h).mp hx
  exact ⟨t, hread, not_mem_of_mem_tokens ht⟩

/-- What is written at each position comes back there, settled. -/
theorem carried_of_written_numbers (hdigit : d.isDigit = false) (hpoint : d ≠ '.')
    (hxs : ∀ x, some x ∈ xs → x.ReadWithout d)
    (h : List.Forall₂ (Written fun x t => Rule.number x = .ok t) xs ts) :
    List.Forall₂ (Option.Rel (Carried d readNumber)) ts (xs.map (Option.map Binary64.settled)) := by
  induction h with
  | nil => exact .nil
  | cons hfirst hrest ih =>
      simp only [List.mem_cons, or_imp, forall_and] at hxs
      refine .cons ?_ (ih hxs.2)
      cases hfirst with
      | absent => exact .none
      | present hrule =>
          obtain ⟨s, hs, rfl⟩ := Rule.number_eq_ok_iff.mp hrule
          exact .some ((hxs.1 _ rfl).carried hdigit hpoint hs)

/-- Settled numbers are written alike. -/
theorem written_settled_numbers
    (h : List.Forall₂ (Written fun x t => Rule.number x = .ok t) xs ts) :
    List.Forall₂ (Written fun x t => Rule.number x = .ok t)
      (xs.map (Option.map Binary64.settled)) ts := by
  rw [List.forall₂_map_left_iff]
  refine h.imp fun x t hxt => ?_
  cases hxt with
  | absent => exact .absent
  | present hrule =>
      obtain ⟨s, hs, rfl⟩ := Rule.number_eq_ok_iff.mp hrule
      exact .present (Rule.number_eq_ok_iff.mpr ⟨s, writeNumber_settled hs, rfl⟩)

/-- Numbers that were read with a delimiter that is neither a digit nor a point are written with
it. What is written is read again, with the same positions and the same ones among them absent, and
is written as the same text once more. -/
theorem writeNumbers_readNumbers_stable (hdigit : d.isDigit = false) (hpoint : d ≠ '.')
    (h : readNumbers d (some w) = .ok (some xs)) :
    ∃ w' ys, writeNumbers d (some xs) = .ok (some w') ∧
      readNumbers d (some w') = .ok (some ys) ∧
      ys.map Option.isNone = xs.map Option.isNone ∧
      writeNumbers d (some ys) = .ok (some w') := by
  have hread : Sequence.read d readNumber w = .ok xs := by
    obtain ⟨_, hread, ⟨⟩⟩ := map_eq_ok_iff.mp h
    exact hread
  have hxs := readWithout_of_readNumbers hread
  have hok : ∃ t, Field.numbers.write Rule.number d (some xs) = .ok t :=
    Field.exists_write_eq_ok_iff.mpr fun x hx => (hxs x hx).exists_rule
  obtain ⟨_, hwrite⟩ := hok
  obtain ⟨ts, hts, rfl⟩ := Field.write_eq_ok_iff.mp hwrite
  have hagain := Sequence.read_write_texts (carried_of_written_numbers hdigit hpoint hxs hts)
  rw [Sequence.collapsed_map, Sequence.collapsed_of_ne (Sequence.ne_single_none_of_read hread)]
    at hagain
  refine ⟨_, _, hwrite, ?_, ?_, Field.write_eq_ok_iff.mpr ⟨ts, written_settled_numbers hts, rfl⟩⟩
  · show some <$> Sequence.read _ _ _ = _
    rw [hagain]
    rfl
  · simp [Function.comp_def]

/-- A minus sign between numbers in odd spellings. -/
theorem writeNumbers_readNumbers_stable_minus_sign :
    '-'.isDigit = false ∧ '-' ≠ '.' ∧
      readNumbers '-' (some "-1e2-+.5--0.0000048") =
        .ok (some [none, some ⟨0x4059000000000000⟩, some ⟨0x3FE0000000000000⟩, none,
          some ⟨0x3ED421F5F40D8376⟩]) ∧
      ∃ ys, readNumbers '-' (some "-100-0.5--0.000005") = .ok (some ys) ∧
        ys.map Option.isNone = [true, false, false, true, false] ∧
        writeNumbers '-' (some ys) = .ok (some "-100-0.5--0.000005") := by
  have hread : readNumbers '-' (some "-1e2-+.5--0.0000048") =
      .ok (some [none, some ⟨0x4059000000000000⟩, some ⟨0x3FE0000000000000⟩, none,
        some ⟨0x3ED421F5F40D8376⟩]) := by decide +kernel
  obtain ⟨w', ys, hwrite, hagain, habsent, hsame⟩ :=
    writeNumbers_readNumbers_stable (by decide) (by decide) hread
  have htext : writeNumbers '-' (some [none, some ⟨0x4059000000000000⟩,
      some ⟨0x3FE0000000000000⟩, none, some ⟨0x3ED421F5F40D8376⟩]) =
        .ok (some "-100-0.5--0.000005") := by decide +kernel
  rw [htext] at hwrite
  obtain rfl : _ = w' := Option.some.inj (Except.ok.inj hwrite)
  exact ⟨by decide, by decide, hread, ys, hagain, habsent, hsame⟩

end RouteWire
