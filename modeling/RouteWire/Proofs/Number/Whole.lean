import RouteWire.Proofs.Integer.Spelling
import RouteWire.Proofs.Number.Accepted
import RouteWire.Proofs.Number.Text

/-!
# Whole numbers

Integers have a reader and a writer, and numbers have another reader and another writer. On
integers they agree (`readNumber_agrees_on_integers`): a token that is an integer is the same number
to both readers, and the number is written as the integer is.

This needs that the nearest word is the integer itself, which holds up to 53 bits
(`exists_value_eq_intCast`), and that the zeros which are dropped from the text of a number all
stand behind the point (`writeNumber_of_value_eq`).
-/

set_option autoImplicit false

namespace RouteWire

open Binary64
open Integer (SignText signed)

/-! ### Words for integers -/

/-- A natural number of at most 53 bits is the magnitude of a word. -/
theorem exists_unitsOfCode_eq {m : ℕ} (h : m < 2 ^ 53) :
    ∃ c < infinityCode, unitsOfCode c = m * unitsPerOne := by
  rcases Nat.eq_zero_or_pos m with rfl | hpos
  · exact ⟨0, by decide, by rw [unitsOfCode_zero, Nat.zero_mul]⟩
  have hlog : m.log2 < 53 := (Nat.log2_lt hpos.ne').mpr h
  have hlow := Nat.log2_self_le hpos.ne'
  have hhigh := Nat.lt_log2_self (n := m)
  generalize m.log2 = k at *
  -- Shifted up to 53 bits the number is a place on a grid, whose step makes up for the shift.
  have hshift : 2 ^ k * 2 ^ (52 - k) = 2 ^ 52 := by
    rw [← pow_add]
    congr 1
    omega
  have hstart : 2 ^ 52 ≤ m * 2 ^ (52 - k) := hshift ▸ Nat.mul_le_mul_right _ hlow
  have hend : m * 2 ^ (52 - k) ≤ 2 ^ 53 := by
    have hle := Nat.mul_le_mul_right (2 ^ (52 - k)) hhigh.le
    rw [pow_succ, Nat.mul_right_comm, hshift] at hle
    exact hle
  have hcode : infinityCode = 2047 * 2 ^ 52 := by decide
  refine ⟨(k + 1022) * 2 ^ 52 + m * 2 ^ (52 - k), by omega, ?_⟩
  have hunit : unitsPerOne = 2 ^ (52 - k + (k + 1022)) := by
    unfold unitsPerOne
    rw [show 1074 = 52 - k + (k + 1022) by omega]
    exact Nat.pow_eq
  rw [unitsOfCode_grid hend (.inr hstart), Nat.mul_assoc, ← pow_add, ← hunit]

/-- An integer of at most 53 bits is the number of a word. -/
theorem exists_value_eq_intCast {v : ℤ} (h : v.natAbs < 2 ^ 53) :
    ∃ x : Binary64, x.IsFinite ∧ x.value = v := by
  obtain ⟨c, hc, hunits⟩ := exists_unitsOfCode_eq h
  have hlt : c < signWeight := Nat.lt_trans hc (by decide)
  refine ⟨ofCode (decide (v < 0)) c, isFinite_ofCode hc, ?_⟩
  have hvalue : (ofCode (decide (v < 0)) c).units = v * unitsPerOne := by
    rw [units, magnitude, negative_ofCode hlt, code_ofCode hlt, hunits]
    push_cast
    split
    · rename_i hneg
      rw [abs_of_neg (of_decide_eq_true hneg), neg_mul, neg_neg]
    · rename_i hneg
      rw [abs_of_nonneg (not_lt.mp (mt decide_eq_true hneg))]
  rw [value, hvalue, Int.cast_mul, Int.cast_natCast,
    mul_div_cancel_right₀ _ cast_unitsPerOne_pos.ne']

/-! ### Reading -/

variable {token : String} {v : ℤ} {n : Int32} {x : Binary64}

/-- Without a plus sign, the spelling of an integer spells it as a numeral, too. -/
theorem exists_numeral_of_spells {cs : List Char} (h : Integer.Spells cs v)
    (hplus : cs.head? ≠ some '+') : ∃ m, Numeral.Spells cs m ∧ m.toDecimal.value = v := by
  cases h with
  | @mk sign ds negative hsign hds hne =>
      have hspells := Numeral.Spells.mk negative (.whole hds hne) .none
      have hvalue : (Numeral.mk negative ds [] 0).toDecimal.value = signed negative ds := by
        simp [Decimal.value, Numeral.toDecimal, signed]
      rw [List.append_nil] at hspells
      cases hsign with
      | none => exact ⟨_, hspells, hvalue⟩
      | plus => exact absurd rfl hplus
      | minus => exact ⟨_, hspells, hvalue⟩

/-- A token that spells an integer of at most 53 bits is read as the number that is this integer. -/
theorem exists_readNumber_of_spells (h : Integer.Spells token.toList v)
    (hv : v.natAbs < 2 ^ 53) :
    ∃ x, readNumber token = .ok x ∧ x.IsFinite ∧ x.value = v := by
  obtain ⟨cs, hplus⟩ := h.exists_plusDropped
  rw [Integer.spells_iff_of_plusDropped hplus] at h
  obtain ⟨m, hm, hvalue⟩ :=
    exists_numeral_of_spells h (Integer.head?_ne_plus_of_plusDropped hplus)
  obtain ⟨y, hy, hyvalue⟩ := exists_value_eq_intCast hv
  rw [← hyvalue] at hvalue ⊢
  obtain ⟨x, hread, hnearest, -⟩ :=
    readNumber_of_spells hplus hm (hvalue ▸ not_outOfRange_value hy)
  rw [hvalue] at hnearest
  exact ⟨x, hread, hnearest.finite, hnearest.value_eq hy⟩

/-- A 32-bit integer has at most the bits of a significand. -/
theorem natAbs_toInt_lt (n : Int32) : n.toInt.natAbs < 2 ^ 53 := by
  have hrange := Integer.inRange_iff.mp (Integer.inRange_toInt n)
  omega

/-- A token with a sign, which may be left out, and digits, of which there may be none, is read as
a number only if there are digits. -/
theorem spells_of_readNumber {sign ds : List Char} {negative : Bool}
    (hsign : SignText sign negative) (hds : ∀ c ∈ ds, c.isDigit)
    (htoken : token.toList = sign ++ ds)
    (hread : readNumber token = .ok x) : Integer.Spells token.toList (signed negative ds) := by
  rw [htoken]
  refine .mk hsign hds ?_
  rintro rfl
  -- A sign alone is refused, and so is the empty token.
  obtain rfl : token = String.ofList sign := by
    rw [← String.toList_inj, htoken, String.toList_ofList, List.append_nil]
  cases hsign <;> cases hread

/-! ### Writing -/

/-- A word with a whole value has that many times the units of one. -/
theorem magnitude_of_value_eq (h : x.value = v) : x.magnitude = v.natAbs * unitsPerOne := by
  have hunits : x.units = v * unitsPerOne := by
    rw [value, div_eq_iff cast_unitsPerOne_pos.ne'] at h
    exact_mod_cast h
  have habs : x.magnitude = x.units.natAbs := by
    rw [units]
    split <;> omega
  rw [habs, hunits, Int.natAbs_mul, Int.natAbs_natCast]

/-- The decimals of an integer are all zeros, and are dropped. -/
theorem shortDecimals_of_dvd {f : Fixed} (h : f.millionths % decimalsPerOne = 0) :
    f.shortDecimals = [] := by
  rw [Fixed.shortDecimals, Fixed.decimals, h]
  rfl

/-- A number that is an integer is written as the integer is. -/
theorem writeNumber_of_value_eq (hx : x.IsFinite) (h : x.value = n.toInt) :
    writeNumber x = .ok (writeInteger n) := by
  have hmagnitude := magnitude_of_value_eq h
  have hcount : (Fixed.ofBinary64 x).millionths = n.toInt.natAbs * decimalsPerOne := by
    rw [Fixed.millionths_ofBinary64, hmagnitude, Nat.mul_right_comm,
      roundHalfEven_mul_right _ unitsPerOne_pos]
  have hwhole : (Fixed.ofBinary64 x).wholeDigits = Digits.ofNat n.toInt.natAbs := by
    rw [Fixed.wholeDigits, hcount, Nat.mul_div_cancel _ (by decide)]
  have hshort : (Fixed.ofBinary64 x).shortDecimals = [] :=
    shortDecimals_of_dvd (by rw [hcount, Nat.mul_mod_left])
  -- A zero has no sign in its text, whatever the sign of the word is.
  have hsign : (Fixed.ofBinary64 x).numeral.negative = decide (n.toInt < 0) := by
    have hneg : x.negative = true ∧ 0 < x.magnitude ↔ n.toInt < 0 := by
      rw [magnitude_pos_iff, ← units_neg_iff, ← value_neg_iff, h, Int.cast_lt_zero]
    have hzero : (Fixed.ofBinary64 x).millionths ≠ 0 ↔ 0 < x.magnitude := by
      rw [hcount, hmagnitude, ← Nat.pos_iff_ne_zero, Nat.mul_pos_iff_of_pos_right (by decide),
        Nat.mul_pos_iff_of_pos_right unitsPerOne_pos]
    rw [Fixed.numeral, Bool.eq_iff_iff, Bool.and_eq_true, decide_eq_true_eq, decide_eq_true_eq,
      hzero, ← hneg]
    rfl
  rw [writeNumber_eq_ok_iff, ← String.toList_inj, String.toList_ofList, toList_writeInteger,
    Fixed.canonical_eq, hwhole, if_pos hshort, List.append_nil, hsign]
  exact ⟨hx, rfl⟩

/-- A token that is read as an integer is read as the number that is this integer, and the number
has the text of the integer. -/
theorem exists_number_of_readInteger (h : readInteger token = .ok n) :
    ∃ x, readNumber token = .ok x ∧ x.value = n.toInt ∧ writeNumber x = .ok (writeInteger n) := by
  rw [readInteger_eq_ok_iff] at h
  obtain ⟨x, hread, hfinite, hvalue⟩ := exists_readNumber_of_spells h (natAbs_toInt_lt n)
  exact ⟨x, hread, hvalue, writeNumber_of_value_eq hfinite hvalue⟩

/-- The two readers agree on integers, and so do the two writers. A token that is read as an integer
is read as the number that is this integer, which has the text of the integer. Conversely, a token
with nothing but a sign and digits, if it is read as a number and spells an integer of 32 bits, is
read as this integer. -/
theorem readNumber_agrees_on_integers (token : String) :
    (∀ n, readInteger token = .ok n →
        ∃ x, readNumber token = .ok x ∧ x.value = n.toInt ∧
          writeNumber x = .ok (writeInteger n)) ∧
      ∀ sign negative ds x, SignText sign negative → (∀ c ∈ ds, c.isDigit) →
        token.toList = sign ++ ds → readNumber token = .ok x →
        -2 ^ 31 ≤ signed negative ds → signed negative ds ≤ 2 ^ 31 - 1 →
        ∃ n, readInteger token = .ok n ∧ n.toInt = signed negative ds := by
  refine ⟨fun n => exists_number_of_readInteger, ?_⟩
  intro sign negative ds x hsign hds htoken hread hlow hhigh
  have hspells := spells_of_readNumber hsign hds htoken hread
  have hv := Integer.toInt_ofInt (Integer.inRange_iff.mpr ⟨hlow, hhigh⟩)
  refine ⟨Int32.ofInt (signed negative ds), ?_, hv⟩
  rw [readInteger_eq_ok_iff, hv]
  exact hspells

/-- A zero with a minus sign and a zero too many, and the largest multiple of ten. -/
theorem readNumber_agrees_on_integers_zeros :
    (readInteger "-00" = .ok 0 ∧
      ∃ x, readNumber "-00" = .ok x ∧ x.value = (0 : Int32).toInt ∧
        writeNumber x = .ok (writeInteger 0)) ∧
      SignText ['+'] false ∧ (∀ c ∈ "2147483640".toList, c.isDigit) ∧
      "+2147483640".toList = ['+'] ++ "2147483640".toList ∧
      readNumber "+2147483640" = .ok (Binary64.mk 0x41DFFFFFFE000000) ∧
      ∃ n, readInteger "+2147483640" = .ok n ∧ n.toInt = 2147483640 := by
  have hzero : readInteger "-00" = .ok 0 := by decide
  have hdigits : ∀ c ∈ "2147483640".toList, c.isDigit := List.all_eq_true.mp (by decide)
  have hread : readNumber "+2147483640" = .ok (Binary64.mk 0x41DFFFFFFE000000) := by
    decide +kernel
  have hvalue : signed false "2147483640".toList = 2147483640 := by decide +kernel
  have hback := (readNumber_agrees_on_integers "+2147483640").2 ['+'] false "2147483640".toList _
    .plus hdigits rfl hread (by omega) (by omega)
  rw [hvalue] at hback
  exact ⟨⟨hzero, (readNumber_agrees_on_integers "-00").1 0 hzero⟩, .plus, hdigits, rfl, hread,
    hback⟩

end RouteWire
