/-!
# Binary64 words

A number of the codec is an IEEE 754 binary64 word. The word is kept as it is, so that the two
zeros and the payloads of the not-a-number words stay apart. What a word stands for is read off
its fields in exact arithmetic: every finite word is an integer count of *units*, the least
positive value `2 ^ -1074`.

A word without its sign bit is its *code*. Codes are ordered as the magnitudes they stand for,
and neighbouring codes are neighbouring numbers. A word is determined by its sign and its code
(`ofCode_negative_code`, `code_ofCode`, `negative_ofCode`).
-/

set_option autoImplicit false

namespace RouteWire

/-- An IEEE 754 binary64 word. -/
structure Binary64 where
  bits : UInt64
  deriving DecidableEq

namespace Binary64

/-- How many units make one. -/
def unitsPerOne : Nat :=
  Nat.pow 2 1074

/-- How many fractions there are for each exponent field: fractions are 52 bits wide. -/
def fractionCount : Nat :=
  Nat.pow 2 52

/-- What the sign bit adds to a word. -/
def signWeight : Nat :=
  Nat.pow 2 63

/-- The code of infinity; finite codes are below it, the codes of no number are above it. -/
def infinityCode : Nat :=
  2047 * fractionCount

/-- The word without its sign bit. -/
def code (x : Binary64) : Nat :=
  x.bits.toNat % signWeight

/-- Whether the sign bit is set. -/
def negative (x : Binary64) : Bool :=
  decide (signWeight ≤ x.bits.toNat)

/-- The word of a sign and a code. -/
def ofCode (negative : Bool) (code : Nat) : Binary64 :=
  ⟨UInt64.ofNat (if negative then signWeight + code else code)⟩

/-- The magnitude, in units, that a code stands for. The low bits are the fraction and the rest
is the exponent field; a zero exponent field has no leading one. -/
def unitsOfCode (code : Nat) : Nat :=
  if code / fractionCount = 0 then code % fractionCount
  else (fractionCount + code % fractionCount) * Nat.pow 2 (code / fractionCount - 1)

/-- Neither infinite nor not-a-number. -/
def IsFinite (x : Binary64) : Prop :=
  x.code < infinityCode

instance (x : Binary64) : Decidable x.IsFinite :=
  inferInstanceAs (Decidable (_ < _))

/-- Not a number. -/
def IsNaN (x : Binary64) : Prop :=
  infinityCode < x.code

instance (x : Binary64) : Decidable x.IsNaN :=
  inferInstanceAs (Decidable (_ < _))

/-- The distance from zero, in units. -/
def magnitude (x : Binary64) : Nat :=
  unitsOfCode x.code

/-- The number a finite word stands for, in units. An infinite word counts as more than every
finite one, with its sign. -/
def units (x : Binary64) : Int :=
  if x.negative then -(x.magnitude : Int) else x.magnitude

/-- The number a finite word stands for. -/
def value (x : Binary64) : Rat :=
  x.units / unitsPerOne

/-- Equality of numbers as IEEE 754 has it: the two zeros are equal, and a word that is not a
number equals nothing. -/
def same (x y : Binary64) : Bool :=
  decide (¬ x.IsNaN ∧ ¬ y.IsNaN ∧ x.units = y.units)

/-- Whether the number lies between zero and `top`; a word that is not a number does not. -/
def between (x : Binary64) (top : Nat) : Bool :=
  decide (¬ x.IsNaN ∧ 0 ≤ x.units ∧ x.units ≤ top * unitsPerOne)

/-- The weight of the sign, as a numeral. -/
private theorem signWeight_eq : signWeight = 9223372036854775808 := by
  decide

/-- A code leaves out the sign. -/
theorem code_lt (x : Binary64) : x.code < signWeight :=
  Nat.mod_lt _ (by decide)

/-- A word is made of its sign and its code. -/
@[simp] theorem ofCode_negative_code (x : Binary64) : ofCode x.negative x.code = x := by
  have hx := x.bits.toNat_lt
  refine congrArg Binary64.mk (UInt64.toNat_inj.mp ?_)
  simp only [negative, code, decide_eq_true_eq, UInt64.toNat_ofNat', signWeight_eq]
  split <;> omega

/-- The word of a sign and a code, before it is taken apart again. -/
private theorem toNat_bits_ofCode {n : Bool} {c : Nat} (h : c < signWeight) :
    (ofCode n c).bits.toNat = if n then signWeight + c else c := by
  simp only [ofCode, UInt64.toNat_ofNat', signWeight_eq] at *
  split <;> omega

/-- The code of a word comes back, if it leaves room for the sign. -/
@[simp] theorem code_ofCode {n : Bool} {c : Nat} (h : c < signWeight) :
    (ofCode n c).code = c := by
  rw [code, toNat_bits_ofCode h]
  simp only [signWeight_eq] at *
  split <;> omega

/-- The sign of a word comes back, if the code leaves room for it. -/
@[simp] theorem negative_ofCode {n : Bool} {c : Nat} (h : c < signWeight) :
    (ofCode n c).negative = n := by
  rw [negative, toNat_bits_ofCode h]
  cases n
  · exact decide_eq_false (Nat.not_le.mpr h)
  · exact decide_eq_true (Nat.le_add_right _ _)

end Binary64

end RouteWire
