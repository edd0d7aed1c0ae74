import Mathlib.Order.Monotone.Basic
import Mathlib.Order.Lattice.Nat
import Mathlib.Tactic.Ring
import RouteWire.Binary64.Basic

/-!
# The grid of magnitudes

The magnitudes of the codes, in units, form an increasing sequence. From one code to the next it
goes up by one *step*, a power of two that doubles with each exponent field.

- `unitsOfCode_grid`: the magnitude of the code `g * 2 ^ 52 + r` is `r * 2 ^ g`, also where `r` is
  the end of its exponent field.
- `unitsOfCode_succ`: the next magnitude is one step away.
- `strictMono_unitsOfCode`: hence codes are ordered as their magnitudes.
- `two_pow_le_step` and `step_le_two_pow`: the size of a step, read off the magnitude it starts
  from.
-/

set_option autoImplicit false

namespace RouteWire.Binary64

/-- How far the next magnitude is from the magnitude of a code, in units. -/
def step (c : ℕ) : ℕ :=
  2 ^ (c / 2 ^ 52 - 1)

/-- From each code to the next there is a step. -/
theorem step_pos (c : ℕ) : 0 < step c :=
  Nat.two_pow_pos _

/-- The magnitude of a code that is given by its grid and its place on it. The end of the grid,
`2 ^ 53`, is the first place on the next one. -/
theorem unitsOfCode_grid {g r : ℕ} (hr : r ≤ 2 ^ 53) (hg : g = 0 ∨ 2 ^ 52 ≤ r) :
    unitsOfCode (g * 2 ^ 52 + r) = r * 2 ^ g := by
  have hcount : fractionCount = 2 ^ 52 := rfl
  rw [unitsOfCode, hcount, Nat.pow_eq]
  rcases Nat.lt_or_ge r (2 ^ 52) with hlt | hge
  · -- Only the first grid has places without a leading one.
    obtain rfl : g = 0 := by omega
    rw [if_pos (by omega), pow_zero]
    omega
  · rw [if_neg (by omega)]
    rcases Nat.eq_or_lt_of_le hr with rfl | hr'
    · -- The end has the next exponent field and no fraction.
      rw [show (g * 2 ^ 52 + 2 ^ 53) % 2 ^ 52 = 0 by omega,
        show (g * 2 ^ 52 + 2 ^ 53) / 2 ^ 52 - 1 = g + 1 by omega]
      ring
    · rw [show (g * 2 ^ 52 + r) % 2 ^ 52 = r - 2 ^ 52 by omega,
        show (g * 2 ^ 52 + r) / 2 ^ 52 - 1 = g by omega,
        show 2 ^ 52 + (r - 2 ^ 52) = r by omega]

/-- Every code has a grid and a place before the end of it. -/
theorem exists_grid (c : ℕ) :
    ∃ g r, c = g * 2 ^ 52 + r ∧ r < 2 ^ 53 ∧ (g = 0 ∨ 2 ^ 52 ≤ r) ∧ step c = 2 ^ g :=
  ⟨c / 2 ^ 52 - 1, c - (c / 2 ^ 52 - 1) * 2 ^ 52, by omega, by omega, by omega, rfl⟩

/-- The next code is one step further. -/
theorem unitsOfCode_succ (c : ℕ) : unitsOfCode (c + 1) = unitsOfCode c + step c := by
  obtain ⟨g, r, hc, hr, hg, hstep⟩ := exists_grid c
  -- Both codes are places of one grid, the second one perhaps its end.
  have hnext : unitsOfCode (g * 2 ^ 52 + (r + 1)) = (r + 1) * 2 ^ g :=
    unitsOfCode_grid (by omega) (by omega)
  rw [hstep, hc, Nat.add_assoc, hnext, unitsOfCode_grid (by omega) hg]
  ring

/-- The code of zero has no units. -/
@[simp] theorem unitsOfCode_zero : unitsOfCode 0 = 0 := by
  simpa using unitsOfCode_grid (g := 0) (r := 0) (by omega) (.inl rfl)

/-- A larger code has more units. -/
theorem strictMono_unitsOfCode : StrictMono unitsOfCode := by
  refine strictMono_nat_of_lt_succ fun c => ?_
  have := step_pos c
  rw [unitsOfCode_succ]
  omega

/-- Below the magnitude `2 ^ (g + 53)` a step is at most `2 ^ g`. -/
theorem step_le_two_pow {g c : ℕ} (h : unitsOfCode c < 2 ^ (g + 53)) : step c ≤ 2 ^ g := by
  have hend : unitsOfCode (g * 2 ^ 52 + 2 ^ 53) = 2 ^ (g + 53) := by
    rw [unitsOfCode_grid le_rfl (by omega)]
    ring
  rw [← hend, strictMono_unitsOfCode.lt_iff_lt] at h
  exact Nat.pow_le_pow_right (by decide) (by omega)

/-- From the magnitude `2 ^ (g + 52)` on a step is at least `2 ^ g`. -/
theorem two_pow_le_step {g c : ℕ} (h : 2 ^ (g + 52) ≤ unitsOfCode c) : 2 ^ g ≤ step c := by
  have hstart : unitsOfCode (g * 2 ^ 52 + 2 ^ 52) = 2 ^ (g + 52) := by
    rw [unitsOfCode_grid (by omega) (by omega)]
    ring
  rw [← hstart, strictMono_unitsOfCode.le_iff_le] at h
  exact Nat.pow_le_pow_right (by decide) (by omega)

end RouteWire.Binary64
