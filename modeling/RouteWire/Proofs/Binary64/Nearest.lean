import Mathlib.Data.Nat.Cast.Order.Field
import RouteWire.Binary64.Nearest
import RouteWire.Proofs.Binary64.Grid
import RouteWire.Proofs.Rounding

/-!
# The nearest code

`NearestTo q c` says what it means for a code to be the one nearest to `q` units, without saying
how it is found. Since magnitudes increase with the codes, it is enough to look at the two
neighbours of `c`: `q` has to lie between the midpoints to them (`nearestTo_iff`).

- `nearestTo_nearestCode`: `nearestCode` finds the nearest code.
- `NearestTo.mono` and `NearestTo.unique`: the nearest code grows with the number, so there is
  only one.
- `nearestTo_zero_iff` and `exists_nearestTo_infinity_iff`: where numbers begin to be too small or
  too large.
-/

set_option autoImplicit false

namespace RouteWire.Binary64

/-- `c` is the code nearest to `q` units; of two that are equally near it is the even one. Codes
count on past the code of infinity, so that a nearest code up there says that `q` is too large. -/
structure NearestTo (q : ℚ) (c : ℕ) : Prop where
  le : ∀ b, |(unitsOfCode c : ℚ) - q| ≤ |(unitsOfCode b : ℚ) - q|
  even : ∀ b, b ≠ c → |(unitsOfCode b : ℚ) - q| = |(unitsOfCode c : ℚ) - q| → Even c

/-! ### Midpoints -/

/-- The units on a grid of powers of two, as a rational number. -/
theorem cast_unitsOfCode_grid {g r : ℕ} (hr : r ≤ 2 ^ 53) (hg : g = 0 ∨ 2 ^ 52 ≤ r) :
    (unitsOfCode (g * 2 ^ 52 + r) : ℚ) = r * 2 ^ g := by
  rw [unitsOfCode_grid hr hg, Nat.cast_mul, Nat.cast_pow, Nat.cast_ofNat]

/-- A larger code has more units, as a rational number. -/
private theorem cast_lt_cast {b c : ℕ} (h : b < c) : (unitsOfCode b : ℚ) < unitsOfCode c :=
  Nat.cast_lt.mpr (strictMono_unitsOfCode h)

/-- A code that is not smaller does not have fewer units. -/
private theorem cast_le_cast {b c : ℕ} (h : b ≤ c) : (unitsOfCode b : ℚ) ≤ unitsOfCode c :=
  Nat.cast_le.mpr (strictMono_unitsOfCode.monotone h)

/-- The nearest code in terms of its neighbours: the number lies between the midpoints to them,
and on a midpoint only if the code is even. -/
theorem nearestTo_iff {q : ℚ} {c : ℕ} :
    NearestTo q c ↔
      (2 * q ≤ unitsOfCode c + unitsOfCode (c + 1) ∧
        (2 * q = unitsOfCode c + unitsOfCode (c + 1) → Even c)) ∧
      ∀ b, b + 1 = c → (unitsOfCode b + unitsOfCode c : ℚ) ≤ 2 * q ∧
        ((unitsOfCode b + unitsOfCode c : ℚ) = 2 * q → Even c) := by
  constructor
  · -- A nearest code is at least as near as either neighbour, and even if one is as near.
    rintro ⟨hle, heven⟩
    have hup := cast_lt_cast (Nat.lt_succ_self c)
    refine ⟨⟨(abs_sub_le_abs_sub_right hup).mp (hle _), fun htie => ?_⟩, ?_⟩
    · exact heven (c + 1) (by omega)
        (le_antisymm ((abs_sub_le_abs_sub_left hup).mpr htie.ge) (hle _))
    · rintro b rfl
      have hdown := cast_lt_cast (Nat.lt_succ_self b)
      refine ⟨(abs_sub_le_abs_sub_left hdown).mp (hle _), fun htie => ?_⟩
      exact heven b (by omega)
        (le_antisymm ((abs_sub_le_abs_sub_right hdown).mpr htie.ge) (hle _))
  · rintro ⟨⟨hup, hupEven⟩, hdown⟩
    -- A code further away has the midpoint to it further away as well.
    have habove : ∀ b, c < b →
        (unitsOfCode c + unitsOfCode (c + 1) : ℚ) ≤ unitsOfCode c + unitsOfCode b :=
      fun b hb => by linarith [cast_le_cast (Nat.succ_le_of_lt hb)]
    refine ⟨fun b => ?_, fun b hne htie => ?_⟩
    · rcases Nat.lt_trichotomy b c with hlt | rfl | hgt
      · obtain ⟨k, rfl⟩ := Nat.exists_eq_succ_of_ne_zero (Nat.ne_of_gt (Nat.zero_lt_of_lt hlt))
        rw [abs_sub_le_abs_sub_left (cast_lt_cast hlt)]
        linarith [(hdown k rfl).1, cast_le_cast (Nat.le_of_lt_succ hlt)]
      · exact le_rfl
      · rw [abs_sub_le_abs_sub_right (cast_lt_cast hgt)]
        linarith [habove b hgt]
    · rcases Nat.lt_or_gt_of_ne hne with hlt | hgt
      · obtain ⟨k, rfl⟩ := Nat.exists_eq_succ_of_ne_zero (Nat.ne_of_gt (Nat.zero_lt_of_lt hlt))
        have hmid := (abs_sub_le_abs_sub_right (cast_lt_cast hlt)).mp htie.le
        have hk := cast_le_cast (Nat.le_of_lt_succ hlt)
        exact (hdown k rfl).2 (le_antisymm (hdown k rfl).1 (by linarith))
      · have hmid := (abs_sub_le_abs_sub_left (cast_lt_cast hgt)).mp htie.le
        exact hupEven (le_antisymm hup (by linarith [habove b hgt]))

/-! ### The nearest code as a function of the number -/

/-- If the codes came in the wrong order they would be neighbours with the number on the midpoint
between them, and neighbours are not both even. -/
theorem NearestTo.mono {q q' : ℚ} {c c' : ℕ} (h : NearestTo q c) (h' : NearestTo q' c')
    (hq : q ≤ q') : c ≤ c' := by
  by_contra hlt
  obtain ⟨k, rfl⟩ : ∃ k, c = k + 1 := ⟨c - 1, by omega⟩
  obtain ⟨hdown, hdownEven⟩ := (nearestTo_iff.mp h).2 k rfl
  obtain ⟨⟨hup, hupEven⟩, -⟩ := nearestTo_iff.mp h'
  -- The midpoint below `c` is not below the one above `c'`, so the two are the same.
  have hk : c' ≤ k := Nat.le_of_lt_succ (not_le.mp hlt)
  have hlow := cast_le_cast hk
  have hhigh := cast_le_cast (Nat.succ_le_succ hk)
  have heq : c' = k := by
    by_contra hne
    linarith [cast_lt_cast (Nat.lt_of_le_of_ne hk hne)]
  subst heq
  have heven := hdownEven (by linarith)
  have heven' := hupEven (by linarith)
  rw [Nat.even_iff] at heven heven'
  omega

/-- No number has two nearest codes. -/
theorem NearestTo.unique {q : ℚ} {c c' : ℕ} (h : NearestTo q c) (h' : NearestTo q c') : c = c' :=
  le_antisymm (h.mono h' le_rfl) (h'.mono h le_rfl)

/-- A magnitude is nearest to itself. -/
theorem nearestTo_unitsOfCode (c : ℕ) : NearestTo (unitsOfCode c) c := by
  refine ⟨fun b => ?_, fun b hne htie => ?_⟩
  · rw [sub_self, abs_zero]
    exact abs_nonneg _
  · rw [sub_self, abs_zero, abs_eq_zero, sub_eq_zero, Nat.cast_inj] at htie
    exact absurd (strictMono_unitsOfCode.injective htie) hne

/-! ### Finding the nearest code -/

/-- The place on its grid that a quotient is rounded to is a place of that grid or its end. -/
private theorem place_bounds (num den : ℕ) :
    roundHalfEven num (den * 2 ^ gridExponent (num / den)) ≤ 2 ^ 53 ∧
      (gridExponent (num / den) = 0 ∨
        2 ^ 52 ≤ roundHalfEven num (den * 2 ^ gridExponent (num / den)) ∧
          2 ^ 52 * 2 ^ gridExponent (num / den) ≤ num / den) := by
  have hquot : num / (den * 2 ^ gridExponent (num / den))
      = num / den / 2 ^ gridExponent (num / den) := (Nat.div_div_eq_div_mul _ _ _).symm
  have hround : num / (den * 2 ^ gridExponent (num / den)) ≤
      roundHalfEven num (den * 2 ^ gridExponent (num / den)) ∧
      roundHalfEven num (den * 2 ^ gridExponent (num / den)) ≤
        num / (den * 2 ^ gridExponent (num / den)) + 1 := by
    unfold roundHalfEven
    split <;> omega
  rw [hquot] at hround
  -- The grid is chosen so that the whole quotient has at most 53 bits on it.
  have hlt : num / den / 2 ^ gridExponent (num / den) < 2 ^ 53 := by
    rw [Nat.div_lt_iff_lt_mul (Nat.two_pow_pos _), ← Nat.pow_add]
    refine Nat.lt_of_lt_of_le Nat.lt_log2_self (Nat.pow_le_pow_right (by decide) ?_)
    unfold gridExponent
    omega
  refine ⟨by omega, ?_⟩
  rcases Nat.eq_zero_or_pos (gridExponent (num / den)) with hzero | hpos
  · exact .inl hzero
  · -- On a later grid the quotient has exactly 53 bits.
    have hlog : 52 + gridExponent (num / den) = (num / den).log2 := by
      unfold gridExponent at hpos ⊢
      omega
    have hne : num / den ≠ 0 := by
      intro h
      simp [h] at hlog
    have hge : 2 ^ 52 * 2 ^ gridExponent (num / den) ≤ num / den := by
      rw [← Nat.pow_add, hlog]
      exact Nat.log2_self_le hne
    have := (Nat.le_div_iff_mul_le (Nat.two_pow_pos (gridExponent (num / den)))).mpr hge
    exact .inr ⟨by omega, hge⟩

/-- The place that is nearest on a grid, in units: it is at most half a step away, and an even place
if it is exactly that. -/
theorem abs_roundHalfEven_mul_sub_le (num : ℕ) {den : ℕ} (hden : 0 < den) (g : ℕ) :
    |(roundHalfEven num (den * 2 ^ g) : ℚ) * 2 ^ g - num / den| ≤ 2 ^ g / 2 ∧
      (|(roundHalfEven num (den * 2 ^ g) : ℚ) * 2 ^ g - num / den| = 2 ^ g / 2 →
        Even (roundHalfEven num (den * 2 ^ g))) := by
  have hunit : 0 < den * 2 ^ g := Nat.mul_pos hden (Nat.two_pow_pos _)
  have hg : (0 : ℚ) < 2 ^ g := by positivity
  have herr := abs_roundHalfEven_sub_le num hunit
  have htie := @even_roundHalfEven num _ hunit
  generalize roundHalfEven num (den * 2 ^ g) = r at *
  -- One step of the grid is `2 ^ g` units, and the distance is counted in steps.
  have hscale : |(r : ℚ) * 2 ^ g - num / den| = |(r : ℚ) - num / (den * 2 ^ g : ℕ)| * 2 ^ g := by
    rw [← abs_of_pos hg, ← abs_mul, abs_of_pos hg, sub_mul, Nat.cast_mul, Nat.cast_pow,
      Nat.cast_ofNat, ← div_div, div_mul_cancel₀ _ hg.ne']
  have hhalf : (2 : ℚ) ^ g / 2 = 1 / 2 * 2 ^ g := by ring
  rw [hscale, hhalf]
  refine ⟨mul_le_mul_of_nonneg_right herr hg.le, fun h => htie ?_⟩
  exact mul_right_cancel₀ hg.ne' h

/-- `nearestCode` finds the nearest code. On the grid of the quotient, rounding is to the nearest
place; only at the start of a grid is the neighbour below nearer than one step, and there the
quotient is not below the start. -/
theorem nearestTo_nearestCode (num : ℕ) {den : ℕ} (hden : 0 < den) :
    NearestTo ((num : ℚ) / den) (nearestCode num den) := by
  obtain ⟨hend, hstart⟩ := place_bounds num den
  obtain ⟨herr, htie⟩ := abs_roundHalfEven_mul_sub_le num hden (gridExponent (num / den))
  have hwhole : ((num / den : ℕ) : ℚ) ≤ (num : ℚ) / den := Nat.cast_div_le
  rw [nearestCode, show fractionCount = 2 ^ 52 from rfl, Nat.pow_eq]
  generalize roundHalfEven num (den * 2 ^ gridExponent (num / den)) = r at *
  generalize gridExponent (num / den) = g at *
  generalize (num : ℚ) / den = q at *
  have hg : (0 : ℚ) < 2 ^ g := by positivity
  obtain ⟨hlo, hhi⟩ := abs_le.mp herr
  have hplace : r ≤ 2 ^ 53 ∧ (g = 0 ∨ 2 ^ 52 ≤ r) := ⟨hend, hstart.imp_right And.left⟩
  have hcode : (unitsOfCode (g * 2 ^ 52 + r) : ℚ) = r * 2 ^ g :=
    cast_unitsOfCode_grid hplace.1 hplace.2
  -- On this grid the code is even where its place is.
  have heven : Even r → Even (g * 2 ^ 52 + r) := fun h => by
    rw [Nat.even_iff] at h ⊢
    omega
  rw [nearestTo_iff]
  refine ⟨?_, ?_⟩
  · -- The neighbour above is at least one place of this grid away.
    have hnext : (unitsOfCode (g * 2 ^ 52 + r) : ℚ) + 2 ^ g ≤ unitsOfCode (g * 2 ^ 52 + r + 1) := by
      have : 2 ^ g ≤ step (g * 2 ^ 52 + r) := Nat.pow_le_pow_right (by decide) (by omega)
      rw [unitsOfCode_succ]
      exact_mod_cast Nat.add_le_add_left this _
    refine ⟨by linarith, fun h => heven (htie ?_)⟩
    rw [abs_of_nonpos (by linarith)]
    linarith
  · intro b hb
    by_cases hfirst : g = 0 ∨ 2 ^ 52 < r
    · -- The neighbour below is on this grid too.
      obtain ⟨s, rfl⟩ : ∃ s, r = s + 1 := Nat.exists_eq_succ_of_ne_zero (by omega)
      obtain rfl : b = g * 2 ^ 52 + s := by omega
      have hprev : (unitsOfCode (g * 2 ^ 52 + s) : ℚ) = s * 2 ^ g :=
        cast_unitsOfCode_grid (by omega) (by omega)
      rw [hcode, hprev]
      push_cast at hlo hhi htie ⊢
      refine ⟨by linarith, fun h => heven (htie ?_)⟩
      rw [abs_of_nonneg (by linarith)]
      linarith
    · -- At the start of a grid the neighbour below is nearer, but the quotient is not below it.
      obtain ⟨hne, hr⟩ := not_or.mp hfirst
      obtain rfl : r = 2 ^ 52 := by omega
      have hbelow := cast_lt_cast (show b < g * 2 ^ 52 + 2 ^ 52 by omega)
      have hfloor : ((2 ^ 52 : ℕ) : ℚ) * 2 ^ g ≤ q :=
        le_trans (by exact_mod_cast (hstart.resolve_left hne).2) hwhole
      rw [hcode] at hbelow ⊢
      exact ⟨by linarith, fun h => by linarith⟩

end RouteWire.Binary64
