import Mathlib.Tactic.Ring
import RouteWire.Digits

/-!
# Runs of digits

What the value of a run of digits says about its length and the other way round, and where a run
ends in a longer text.

- `value_append`: a run in front counts by the length of the run after it.
- `value_lt` and `le_value`: a run of `n` digits is less than `10 ^ n`, and at least `10 ^ (n - 1)`
  if it does not begin with a zero.
- `eq_of_value_eq`: of a given length there is only one run for a number. So a run is found again
  from its number, by its length (`padded_value`) or without zeros in front (`ofNat_value`).
- `takeWhile_isDigit` and `dropWhile_isDigit`: a run ends where no digit follows.
-/

set_option autoImplicit false

namespace RouteWire

/-- A text that does not begin with a digit. -/
def NoDigitAhead (cs : List Char) : Prop :=
  ∀ c ∈ cs.head?, c.isDigit = false

/-- There is no digit ahead at the end of a text. -/
theorem noDigitAhead_nil : NoDigitAhead [] :=
  fun c hc => by simp at hc

/-- A run of digits is taken to its end. -/
theorem takeWhile_isDigit {ds cs : List Char} (hds : ∀ c ∈ ds, c.isDigit) (hcs : NoDigitAhead cs) :
    (ds ++ cs).takeWhile Char.isDigit = ds := by
  rw [List.takeWhile_append_of_pos hds]
  cases cs with
  | nil => simp
  | cons c cs => simp [hcs c rfl]

/-- What follows a run of digits is left. -/
theorem dropWhile_isDigit {ds cs : List Char} (hds : ∀ c ∈ ds, c.isDigit) (hcs : NoDigitAhead cs) :
    (ds ++ cs).dropWhile Char.isDigit = cs := by
  rw [List.dropWhile_append_of_pos hds]
  cases cs with
  | nil => simp
  | cons c cs => simp [hcs c rfl]

namespace Digits

/-! ### The value of a run -/

/-- Without digits the value is zero. -/
@[simp] theorem value_nil : value [] = 0 := by
  simp [value]

/-- Digits that follow shift the value of those before them. -/
theorem value_append (xs ys : List Char) :
    value (xs ++ ys) = 10 ^ ys.length * value xs + value ys := by
  rw [value, Nat.ofDigitChars_append, Nat.ofDigitChars_eq_ofDigitChars_zero]
  rfl

/-- The value with one digit more in front. -/
theorem value_cons (c : Char) (ds : List Char) :
    value (c :: ds) = 10 ^ ds.length * (c.toNat - 48) + value ds := by
  rw [value, Nat.ofDigitChars_cons, Nat.ofDigitChars_eq_ofDigitChars_zero, Nat.mul_zero,
    Nat.zero_add]
  rfl

/-- Zeros have the value zero. -/
@[simp] theorem value_replicate_zero (n : ℕ) : value (List.replicate n '0') = 0 := by
  simp [value]

/-- The value of one digit. -/
theorem toNat_of_isDigit {c : Char} (h : c.isDigit) : 48 ≤ c.toNat ∧ c.toNat ≤ 57 := by
  simp only [Char.isDigit, Bool.and_eq_true, decide_eq_true_eq] at h
  exact ⟨h.1, h.2⟩

/-- The value is below the power of ten of the number of digits. -/
theorem value_lt {ds : List Char} (hds : ∀ c ∈ ds, c.isDigit) : value ds < 10 ^ ds.length := by
  induction ds with
  | nil => simp
  | cons c ds ih =>
      have hc := toNat_of_isDigit (hds c List.mem_cons_self)
      have htail := ih fun d hd => hds d (List.mem_cons_of_mem _ hd)
      -- The leading digit counts at most nine times the weight of its place.
      have hhead : 10 ^ ds.length * (c.toNat - 48) ≤ 10 ^ ds.length * 9 :=
        Nat.mul_le_mul_left _ (by omega)
      rw [value_cons, List.length_cons, Nat.pow_succ]
      omega

/-- With a leading digit that is not zero, the value is at least the power of ten of that digit. -/
theorem le_value {c : Char} {ds : List Char} (hc : c.isDigit) (hne : c ≠ '0') :
    10 ^ ds.length ≤ value (c :: ds) := by
  have hrange := toNat_of_isDigit hc
  have hpos : c.toNat ≠ 48 := fun h => hne (Char.toNat_inj.mp h)
  have hhead : 10 ^ ds.length * 1 ≤ 10 ^ ds.length * (c.toNat - 48) :=
    Nat.mul_le_mul_left _ (by omega)
  rw [value_cons]
  omega

/-- A digit in front is the quotient by the weight of its place, and the run after it the rest. -/
theorem value_cons_div_mod {c : Char} {ds : List Char} (hds : ∀ c ∈ ds, c.isDigit) :
    value (c :: ds) / 10 ^ ds.length = c.toNat - 48 ∧
      value (c :: ds) % 10 ^ ds.length = value ds := by
  have hlt := value_lt hds
  rw [value_cons]
  constructor
  · rw [Nat.mul_add_div (Nat.pow_pos (by decide)), Nat.div_eq_of_lt hlt, Nat.add_zero]
  · rw [Nat.mul_add_mod, Nat.mod_eq_of_lt hlt]

/-- Of a given length there is only one run for a number. -/
theorem eq_of_value_eq {ds es : List Char} (hds : ∀ c ∈ ds, c.isDigit) (hes : ∀ c ∈ es, c.isDigit)
    (hlen : ds.length = es.length) (h : value ds = value es) : ds = es := by
  induction ds generalizing es with
  | nil => exact (List.eq_nil_of_length_eq_zero hlen.symm).symm
  | cons c ds ih =>
      cases es with
      | nil => cases hlen
      | cons e es =>
          obtain ⟨hc, hds⟩ := List.forall_mem_cons.mp hds
          obtain ⟨he, hes⟩ := List.forall_mem_cons.mp hes
          have hlen' : ds.length = es.length := Nat.succ.inj hlen
          obtain ⟨hdiv, hmod⟩ := value_cons_div_mod (c := c) hds
          obtain ⟨hdiv', hmod'⟩ := value_cons_div_mod (c := e) hes
          rw [h, hlen'] at hdiv hmod
          have hrest : value ds = value es := hmod.symm.trans hmod'
          have hfirst : c.toNat - 48 = e.toNat - 48 := hdiv.symm.trans hdiv'
          have hhead : c = e := by
            have hcrange := toNat_of_isDigit hc
            have herange := toNat_of_isDigit he
            exact Char.toNat_inj.mp (by omega)
          rw [hhead, ih hds hes hlen' hrest]

/-! ### The digits of a number -/

/-- The digits of a number are digits. -/
theorem isDigit_of_mem_ofNat {n : ℕ} {c : Char} (h : c ∈ ofNat n) : c.isDigit :=
  Nat.isDigit_of_mem_toDigits (by decide) (by decide) h

/-- Every number has a digit. -/
theorem ofNat_ne_nil (n : ℕ) : ofNat n ≠ [] :=
  Nat.toDigits_ne_nil

/-- A number below a power of ten has at most that many digits. -/
theorem length_ofNat_le {n k : ℕ} (hk : 0 < k) (h : n < 10 ^ k) : (ofNat n).length ≤ k :=
  (Nat.length_toDigits_le_iff (by decide) hk).mpr h

/-- A run of digits that does not begin with a zero is the digits of its number. -/
theorem ofNat_value {c : Char} {ds : List Char} (hc : c.isDigit) (hne : c ≠ '0')
    (hds : ∀ d ∈ ds, d.isDigit) : ofNat (value (c :: ds)) = c :: ds := by
  have hall : ∀ d ∈ c :: ds, d.isDigit := List.forall_mem_cons.mpr ⟨hc, hds⟩
  have hlow : 10 ^ ds.length ≤ value (c :: ds) := le_value hc hne
  have hhigh := value_lt hall
  refine eq_of_value_eq (fun _ h => isDigit_of_mem_ofNat h) hall ?_ (value_ofNat _)
  -- The number has as many digits as the run: it is not less than the weight of the first place.
  have hle := length_ofNat_le (Nat.succ_pos ds.length) hhigh
  have hge : ds.length < (ofNat (value (c :: ds))).length := by
    by_contra hshort
    have hpos := List.length_pos_iff.mpr (ofNat_ne_nil (value (c :: ds)))
    have hlt := (Nat.length_toDigits_le_iff (by decide) (by omega)).mp (not_lt.mp hshort)
    omega
  exact le_antisymm hle hge

/-- A run that begins with a zero is so as well, if the zero is its only digit. -/
theorem ofNat_value_of_no_leading_zero {ds : List Char} (hds : ∀ c ∈ ds, c.isDigit)
    (hne : ds ≠ []) (hzero : ∀ es, ds = '0' :: es → es = []) : ofNat (value ds) = ds := by
  obtain ⟨c, cs, rfl⟩ := List.exists_cons_of_ne_nil hne
  obtain ⟨hc, hcs⟩ := List.forall_mem_cons.mp hds
  by_cases hfirst : c = '0'
  · subst hfirst
    rw [hzero cs rfl]
    rfl
  · exact ofNat_value hc hfirst hcs

/-- The digits of a number begin with a zero only if there is no other digit. -/
theorem eq_zero_of_ofNat_eq_cons {n : ℕ} {ds : List Char} (h : ofNat n = '0' :: ds) : ds = [] := by
  by_contra hne
  have hdigits : ∀ d ∈ ds, d.isDigit := fun d hd =>
    isDigit_of_mem_ofNat (n := n) (h ▸ List.mem_cons_of_mem _ hd)
  have hvalue : value ds = n := by
    rw [← value_ofNat n, h, value_cons]
    simp
  have hlt := value_lt hdigits
  have hle := length_ofNat_le (List.length_pos_iff.mpr hne) (hvalue ▸ hlt)
  rw [h, List.length_cons] at hle
  omega

/-- Digits are still digits after they are padded. -/
theorem isDigit_of_mem_padded {width n : ℕ} {c : Char} (h : c ∈ padded width n) : c.isDigit := by
  rcases List.mem_append.mp h with hzero | hdigit
  · rw [List.eq_of_mem_replicate hzero]
    rfl
  · exact isDigit_of_mem_ofNat hdigit

/-- Padding does not change the value. -/
theorem value_padded (width n : ℕ) : value (padded width n) = n := by
  rw [padded, List.leftpad, value_append, value_replicate_zero, value_ofNat]
  omega

/-- Padded digits have the given width, if there are not more of them. -/
theorem length_padded {width n : ℕ} (hwidth : 0 < width) (h : n < 10 ^ width) :
    (padded width n).length = width := by
  rw [padded, List.length_leftpad]
  have := length_ofNat_le hwidth h
  omega

/-- A run of digits is its number, filled up to the length of the run. -/
theorem padded_value {ds : List Char} (hds : ∀ c ∈ ds, c.isDigit) (hne : ds ≠ []) :
    padded ds.length (value ds) = ds := by
  have hlength := length_padded (List.length_pos_iff.mpr hne) (value_lt hds)
  exact eq_of_value_eq (fun _ h => isDigit_of_mem_padded h) hds hlength (value_padded _ _)

end Digits

end RouteWire
