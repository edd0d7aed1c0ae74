import RouteWire.Number.Read
import RouteWire.Proofs.Binary64.Word
import RouteWire.Proofs.Decimal
import RouteWire.Proofs.Numeral.Spelling

/-!
# Reading numbers

- `read_of_spells`: a token that spells a numeral, a plus sign in front apart, reads as the nearest
  word. Out of range it is a zero or refused.
- `exists_spells_of_read`: what can be read spells a numeral, so that a delimiter that no numeral
  holds is not in it (`not_mem_of_read`).
- `isFinite_of_read`: what is read is finite.
-/

set_option autoImplicit false

namespace RouteWire

/-- The nearest word is finite. -/
theorem Decimal.isFinite_of_nearest? {d : Decimal} {x : Binary64} (h : d.nearest? = some x) :
    x.IsFinite := by
  unfold Decimal.nearest? at h
  split at h
  · cases h
    exact Binary64.isFinite_ofCode (by decide)
  · split at h
    · exact absurd h (by simp)
    · split at h
      · exact absurd h (by simp)
      · rename_i hcode
        cases h
        exact Binary64.isFinite_ofCode (not_le.mp (not_or.mp hcode).2)

namespace Number

/-- Reading a token that spells a numeral. -/
theorem read_of_spells {token : String} {cs : List Char} {n : Numeral}
    (hplus : withoutPlus token.toList = some cs) (hn : Numeral.Spells cs n) :
    read token = match n.toDecimal.nearest? with
      | some x => .ok x
      | none =>
        if n.vanishes then .ok (Binary64.ofCode n.negative 0)
        else .error (.numberOutOfRange token) := by
  unfold read
  rw [hplus, Option.bind_some, Numeral.scan_of_spells hn]
  cases hx : n.toDecimal.nearest? with
  | some x => simp [hx]
  | none => simp [hx]

/-- What can be read is a numeral throughout. -/
theorem exists_spells_of_read {token : String} {x : Binary64} (h : read token = .ok x) :
    ∃ cs n, withoutPlus token.toList = some cs ∧ Numeral.Spells cs n ∧
      (n.toDecimal.nearest? = some x ∨ x = Binary64.ofCode n.negative 0) := by
  unfold read at h
  split at h
  · exact absurd h (by simp)
  · -- Both ways to succeed ask that nothing is left after the numeral.
    rename_i n rest hscan
    obtain ⟨cs, hcs, hrest⟩ := Option.bind_eq_some_iff.mp hscan
    obtain ⟨text, rfl, htext⟩ := Numeral.spells_of_scan hrest
    split at h
    · rename_i y hy
      split at h
      · rename_i hnil
        cases h
        exact ⟨text, n, by rw [hcs, hnil, List.append_nil], htext, .inl hy⟩
      · exact absurd h (by simp)
    · split at h
      · rename_i hnil
        cases h
        exact ⟨text, n, by rw [hcs, hnil.1, List.append_nil], htext, .inr rfl⟩
      · exact absurd h (by simp)

/-- What is read is finite. -/
theorem isFinite_of_read {token : String} {x : Binary64} (h : read token = .ok x) : x.IsFinite := by
  obtain ⟨cs, n, -, -, hx | rfl⟩ := exists_spells_of_read h
  · exact Decimal.isFinite_of_nearest? hx
  · exact Binary64.isFinite_ofCode (by decide)

/-- What reads as a negative number, or as a negative zero, has a minus sign. -/
theorem minus_mem_of_read {token : String} {x : Binary64} (h : read token = .ok x)
    (hx : x.negative = true) : '-' ∈ token.toList := by
  obtain ⟨cs, n, hplus, hn, hword⟩ := exists_spells_of_read h
  have hsign : x.negative = n.negative := by
    rcases hword with hnearest | rfl
    · exact Decimal.negative_of_nearest? hnearest
    · exact Binary64.negative_ofCode (by decide)
  have hmem := hn.minus_mem (hsign ▸ hx)
  rcases withoutPlus_eq hplus with heq | heq
  · rw [heq]
    exact hmem
  · rw [heq]
    exact List.mem_cons_of_mem _ hmem

/-- A token that is read holds no other characters than those of numerals. -/
theorem not_mem_of_read {token : String} {x : Binary64} {d : Char} (h : read token = .ok x)
    (hd : ¬ Numeral.NumeralChar d) : d ∉ token.toList := by
  obtain ⟨cs, n, hplus, hn, -⟩ := exists_spells_of_read h
  intro hmem
  -- A plus sign in front is such a character as well.
  rcases withoutPlus_eq hplus with heq | heq
  · exact hd (hn.numeralChar d (heq ▸ hmem))
  · rcases List.mem_cons.mp (heq ▸ hmem) with rfl | htail
    · exact hd (.inr (by simp))
    · exact hd (hn.numeralChar d htail)

end Number

/-- Reading a number succeeds as the scan of its token does. -/
theorem readNumber_eq_ok_iff {token : String} {x : Binary64} :
    readNumber token = .ok x ↔ Number.read token = .ok x := by
  unfold readNumber
  cases Number.read token <;> simp [Except.mapError]

end RouteWire
