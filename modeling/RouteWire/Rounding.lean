/-!
# Rounding a quotient to the nearest integer

`roundHalfEven num den` is the integer nearest to `num / den`; of two that are equally near it
is the even one. Both directions between binary and decimal numbers round with it.

- `roundHalfEven_bounds`: the result is within half a unit of the quotient.
- `roundHalfEven_even_of_tie`: halfway between two integers the result is even.
-/

set_option autoImplicit false

namespace RouteWire

/-- The integer nearest to `num / den`, a tie going to the even one. -/
def roundHalfEven (num den : Nat) : Nat :=
  if 2 * (num % den) < den ∨ 2 * (num % den) = den ∧ num / den % 2 = 0 then num / den
  else num / den + 1

/-- The rounded number is at most a half away. -/
theorem roundHalfEven_bounds (num : Nat) {den : Nat} (hden : 0 < den) :
    2 * num ≤ 2 * (roundHalfEven num den * den) + den ∧
      2 * (roundHalfEven num den * den) ≤ 2 * num + den := by
  have hdiv := Nat.div_add_mod' num den
  have hmod := Nat.mod_lt num hden
  unfold roundHalfEven
  split
  · omega
  · rw [Nat.add_mul]
    omega

/-- At a tie the rounded number is even. -/
theorem roundHalfEven_even_of_tie {num den : Nat} (htie : 2 * (num % den) = den) :
    roundHalfEven num den % 2 = 0 := by
  unfold roundHalfEven
  split <;> omega

end RouteWire
