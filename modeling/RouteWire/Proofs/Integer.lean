import RouteWire.Integer
import RouteWire.Proofs.Outcome
import RouteWire.Proofs.Sign

/-!
# Integers survive their text

Every 32-bit integer is written as a text that reads as that integer (`readInteger_writeInteger`).
The text is not empty and holds no other characters than a minus sign and digits.
-/

set_option autoImplicit false

namespace RouteWire

/-- The characters of an integer: a minus sign if it is below zero, and the digits of its size. -/
theorem toList_writeInteger (n : Int32) : (writeInteger n).toList =
    (if decide (n.toInt < 0) then ['-'] else []) ++ Digits.ofNat n.toInt.natAbs := by
  rw [writeInteger, integerText, String.toList_ofList]
  by_cases h : n.toInt < 0
  · rw [if_pos h, if_pos (decide_eq_true h)]
    rfl
  · rw [if_neg h, if_neg (by simpa using h)]
    rfl

namespace Integer

/-- Sign and digits together stand for the integer. -/
theorem signed_ofNat (n : Int) : signed (decide (n < 0)) (Digits.ofNat n.natAbs) = n := by
  rw [signed, Digits.value_ofNat]
  by_cases h : n < 0
  · rw [if_pos (decide_eq_true h)]
    omega
  · rw [if_neg (by simpa using h)]
    omega

/-- An integer is in range. -/
theorem inRange_toInt (n : Int32) : InRange n.toInt :=
  ⟨n.minValue_le_toInt, n.toInt_le⟩

end Integer

/-- An integer comes back from its text. -/
theorem readInteger_writeInteger (n : Int32) : readInteger (writeInteger n) = .ok n := by
  have hdigits : ∀ c ∈ Digits.ofNat n.toInt.natAbs, c.isDigit :=
    fun _ h => Digits.isDigit_of_mem_ofNat h
  have hne := Digits.ofNat_ne_nil n.toInt.natAbs
  have hplus := withoutPlus_digits hdigits hne (decide (n.toInt < 0)) []
  have htake := takeWhile_isDigit hdigits noDigitAhead_nil
  have hdrop := dropWhile_isDigit hdigits noDigitAhead_nil
  rw [List.append_nil] at hplus htake hdrop
  rw [readInteger, mapError_eq_ok_iff, Integer.read, toList_writeInteger, hplus]
  simp only [takeMinus_digits hdigits, htake, hdrop, Integer.signed_ofNat]
  -- All digits belong to the run, and the run is in range.
  rw [if_neg hne, if_neg (not_not.mpr (Integer.inRange_toInt n)), if_neg (by simp),
    Int32.ofInt_toInt]

/-- The text of an integer is not empty. -/
theorem writeInteger_ne_empty (n : Int32) : writeInteger n ≠ "" := by
  intro hempty
  have hlist := toList_writeInteger n
  rw [hempty] at hlist
  exact Digits.ofNat_ne_nil _ (List.append_eq_nil_iff.mp hlist.symm).2

/-- A delimiter is neither a digit nor a minus sign, so the text of an integer does not hold it. -/
theorem not_mem_writeInteger {d : Char} (hdigit : d.isDigit = false) (hminus : d ≠ '-')
    (n : Int32) : d ∉ (writeInteger n).toList := by
  intro hmem
  rw [toList_writeInteger] at hmem
  rcases List.mem_append.mp hmem with hsign | hdigits
  · split at hsign
    · exact hminus (List.mem_singleton.mp hsign)
    · exact List.not_mem_nil hsign
  · exact ne_of_isDigit (Digits.isDigit_of_mem_ofNat hdigits) hdigit rfl

end RouteWire
