import RouteWire.Proofs.Number.Canonical
import RouteWire.Proofs.Number.RoundTrip

/-!
# Canonical texts survive reading and writing

Hardly any canonical text is the number of a word. But up to `2 ^ 33` the nearest word is so near
that it is rounded to the same millionths again, and since each canonical text other than `-0` is
written for some count of millionths, the same characters come back
(`exists_readNumber_writeNumber`). Beyond `2 ^ 33` neighbouring words are more than a millionth
apart, so that different texts are read as one word.
-/

set_option autoImplicit false

namespace RouteWire

open Binary64

/-- The size of a rounded number is that of the number its text stands for. -/
theorem Fixed.units_le_of_abs_value_le {f : Fixed} (h : |f.numeral.toDecimal.value| ≤ 2 ^ 33) :
    f.units ≤ unitsOfCode coarseCode := by
  rw [f.abs_value_numeral] at h
  have hscaled := mul_le_mul_of_nonneg_right h cast_unitsPerOne_pos.le
  have hcoarse : (unitsOfCode coarseCode : ℚ) = 2 ^ 33 * unitsPerOne := by
    rw [unitsOfCode_coarseCode, Nat.cast_mul, Nat.cast_pow, Nat.cast_ofNat]
  rw [hcoarse]
  exact hscaled

/-- A canonical text of a number up to `2 ^ 33` can be read, and what is read is written as the
same text. -/
theorem exists_readNumber_writeNumber {text : String} {n : Numeral}
    (htext : CanonicalText text.toList n) (hne : text ≠ "-0")
    (hsize : |n.toDecimal.value| ≤ 2 ^ 33) :
    ∃ w, readNumber text = .ok w ∧ w.IsFinite ∧ writeNumber w = .ok text := by
  have hneList : text.toList ≠ ['-', '0'] := fun heq =>
    hne (String.toList_inj.mp heq)
  obtain ⟨f, hf⟩ := exists_fixed_of_canonicalText htext hneList
  obtain rfl : text = String.ofList f.canonical := by rw [← hf, String.ofList_toList]
  -- The text spells only one numeral, so its size is that of the rounded number.
  have hnumeral : n = f.numeral := by
    rw [String.toList_ofList] at htext
    exact htext.spells.unique f.spells_canonical
  rw [hnumeral] at hsize
  have hle := Fixed.units_le_of_abs_value_le hsize
  have hcode := Fixed.code_lt_of_units_le hle
  have hfinite : f.word.IsFinite := isFinite_ofCode hcode
  refine ⟨f.word, Fixed.readNumber_canonical hcode, hfinite, ?_⟩
  rw [writeNumber_eq_ok_iff, Fixed.canonical_ofBinary64_word hle]
  exact ⟨hfinite, rfl⟩

/-- The last text before `-2 ^ 33`. The words around it are almost a millionth apart. -/
theorem exists_readNumber_writeNumber_last :
    ∃ n, CanonicalText "-8589934591.999999".toList n ∧ "-8589934591.999999" ≠ "-0" ∧
      |n.toDecimal.value| ≤ 2 ^ 33 ∧
      ∃ w, readNumber "-8589934591.999999" = .ok w ∧ w.IsFinite ∧
        writeNumber w = .ok "-8589934591.999999" := by
  have hlist : "-8589934591.999999".toList = (Fixed.mk true 8589934591999999).canonical := by
    decide +kernel
  have htext : CanonicalText "-8589934591.999999".toList
      (Fixed.mk true 8589934591999999).numeral := by
    rw [hlist]
    exact Fixed.canonicalText _
  have hsize : |(Fixed.mk true 8589934591999999).numeral.toDecimal.value| ≤ 2 ^ 33 := by
    rw [Fixed.abs_value_numeral]
    norm_num
  exact ⟨_, htext, by decide, hsize, exists_readNumber_writeNumber htext (by decide) hsize⟩

/-- Beyond `2 ^ 33` two canonical texts may be read as one word. -/
example : readNumber "8589934592.000001" = readNumber "8589934592.000002" := by
  decide +kernel

end RouteWire
