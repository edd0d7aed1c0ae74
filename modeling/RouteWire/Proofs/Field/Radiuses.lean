import RouteWire.Proofs.Field.Write
import RouteWire.Proofs.Number.Accepted
import RouteWire.Proofs.Numeral.Place
import RouteWire.Proofs.Point

/-!
# Radiuses as they are written

The rule for radiuses looks at the number that a token reads as, but what is sent is the token
itself. The two numbers differ, so that the rule has to be said for the number that is written
(`SpellsValue`). Rounding keeps the sign, and there is one exception: a negative number that is so
small that it reads as a zero passes the rule (`value_nonneg_iff_of_spellsValue`).

- `writeRadiuses_by_written_value`: radiuses can be written if and only if each has no limit or is a
  number of at least `-2 ^ -1075`, half of the least positive word. They are sent as they are and
  come back as they are.
- `writeRadiuses_negative_underflow`: a radius below zero that is sent.
-/

set_option autoImplicit false

namespace RouteWire

open Binary64 Numeral
open Sequence (Written)

variable {token : String} {v w : ℚ} {x : Binary64}

/-! ### The number that is written -/

/-- The token is a numeral, behind a plus sign or not, and this is the number that it spells. -/
def SpellsValue (token : String) (v : ℚ) : Prop :=
  ∃ cs n, PlusDropped token.toList cs ∧ Spells cs n ∧ n.toDecimal.value = v

/-- The place of the leading digit and its sum with the exponent are 64-bit words, if the number is
below zero and too far from it for a finite word. Only there a sum that wraps around lets a number
pass that should not: it reads as a negative zero. -/
def Numeral.WordsFit (n : Numeral) : Prop :=
  n.toDecimal.value < 0 → Overflows n.toDecimal.value → WordExponent n.place ∧ n.SumFits

/-- If the token is a numeral, then its place fits. -/
def PlaceFits (token : String) : Prop :=
  ∀ cs n, PlusDropped token.toList cs → Spells cs n → n.WordsFit

/-- A token spells at most one number. -/
theorem SpellsValue.unique (hv : SpellsValue token v) (hw : SpellsValue token w) : v = w := by
  obtain ⟨cs, n, hplus, hn, rfl⟩ := hv
  obtain ⟨cs', n', hplus', hn', rfl⟩ := hw
  obtain rfl := hplus.unique hplus'
  rw [hn.unique hn']

/-- What can be read as a number spells one. -/
theorem exists_spellsValue_of_readNumber (h : readNumber token = .ok x) :
    ∃ v, SpellsValue token v := by
  obtain ⟨cs, n, hplus, hn, -⟩ := Number.exists_spells_of_read (readNumber_eq_ok_iff.mp h)
  exact ⟨_, cs, n, withoutPlus_eq_some_iff.mp hplus, hn, rfl⟩

/-- A number that rounds to zero is below zero by no more than half of the least positive word. -/
theorem Binary64.neg_two_zpow_le_iff : -2 ^ (-1075 : ℤ) ≤ v ↔ (v < 0 → Underflows v) := by
  have hpos : (0 : ℚ) < 2 ^ (-1075 : ℤ) := zpow_pos two_pos _
  rw [underflows_iff]
  generalize (2 : ℚ) ^ (-1075 : ℤ) = u at *
  constructor
  · intro hle hneg
    rw [abs_of_neg hneg]
    exact ⟨hneg.ne, neg_le.mp hle⟩
  · intro h
    by_cases hneg : v < 0
    · have hle := (h hneg).2
      rw [abs_of_neg hneg] at hle
      exact neg_le.mp hle
    · linarith

/-- What is read is below zero if and only if what is written is, unless this rounds to zero. -/
theorem value_neg_iff_of_spells {cs : List Char} {n : Numeral}
    (hplus : PlusDropped token.toList cs) (hn : Spells cs n) (hfits : n.WordsFit)
    (h : readNumber token = .ok x) :
    x.value < 0 ↔ n.toDecimal.value < 0 ∧ ¬ Underflows n.toDecimal.value := by
  rw [readNumber_eq_ok_iff, Number.read_of_spells (withoutPlus_eq_some_iff.mpr hplus) hn] at h
  cases hnearest : n.toDecimal.nearest? with
  | some y =>
      rw [hnearest] at h
      cases h
      have hrange : ¬ OutOfRange n.toDecimal.value := by
        rw [← Decimal.nearest?_eq_none_iff, hnearest]
        simp
      rw [Decimal.value_neg_iff_of_nearest? hnearest]
      exact (and_iff_left (not_or.mp hrange).1).symm
  | none =>
      rw [hnearest] at h
      simp only at h
      split at h
      · rename_i hvanishes
        cases h
        have hcode : (ofCode n.negative 0).code = 0 := code_ofCode (by decide)
        rw [value_neg_iff, units_neg_iff]
        refine iff_of_false (fun hneg => hneg.2 hcode) fun ⟨hneg, hunder⟩ => ?_
        -- What is read is a zero. So the number is below one, and thus not too large.
        have hover := (Decimal.nearest?_eq_none_iff.mp hnearest).resolve_left hunder
        obtain ⟨hplace, hsum⟩ := hfits hneg hover
        have hle := place_add_exponent_le_zero hplace hsum hvanishes
        have hmantissa := mantissaText_digitPart hn
        have hlt := (abs_value_lt_one_iff hmantissa.isDigit_whole hmantissa.isDigit_fraction
          (Decimal.significand_ne_zero hover.ne_zero)).mpr hle
        exact absurd hover.one_le_abs (not_le.mpr hlt)
      · cases h

/-- The number that is read is not below zero if and only if the one that is written is not, or
rounds to zero. -/
theorem value_nonneg_iff_of_spellsValue (hfits : PlaceFits token) (h : readNumber token = .ok x)
    (hv : SpellsValue token v) : 0 ≤ x.value ↔ -2 ^ (-1075 : ℤ) ≤ v := by
  obtain ⟨cs, n, hplus, hn, rfl⟩ := hv
  rw [neg_two_zpow_le_iff, ← not_lt, value_neg_iff_of_spells hplus hn (hfits cs n hplus hn) h,
    not_and_not_right]

/-- Reading a number that is not below zero, by what is written. -/
theorem exists_nonneg_iff_of_placeFits (hfits : PlaceFits token) :
    (∃ x, readNumber token = .ok x ∧ 0 ≤ x.value) ↔
      (∃ x, readNumber token = .ok x) ∧ ∃ v, SpellsValue token v ∧ -2 ^ (-1075 : ℤ) ≤ v := by
  constructor
  · intro ⟨x, hx, hnonneg⟩
    obtain ⟨v, hv⟩ := exists_spellsValue_of_readNumber hx
    exact ⟨⟨x, hx⟩, v, hv, (value_nonneg_iff_of_spellsValue hfits hx hv).mp hnonneg⟩
  · intro ⟨⟨x, hx⟩, v, hv, hle⟩
    exact ⟨x, hx, (value_nonneg_iff_of_spellsValue hfits hx hv).mpr hle⟩

/-! ### The rule -/

namespace Rule

variable {t : Option String}

/-- A radius that passes is written as it is spelled: either without a limit or as a number. -/
theorem radius_eq_ok_iff :
    radius token = .ok t ↔ some token = t ∧
      (token = unlimitedRadius ∨ ∃ x, readNumber token = .ok x ∧ 0 ≤ x.value) := by
  unfold radius
  by_cases hunlimited : token = unlimitedRadius
  · simp [hunlimited]
  · rw [if_neg hunlimited]
    simp only [bind_eq_ok_iff, mapError_eq_ok_iff, ← readNumber_eq_ok_iff, ← not_lt, value_neg_iff]
    constructor
    · rintro ⟨x, hx, h⟩
      split at h
      · cases h
      · rename_i hnonneg
        cases h
        exact ⟨rfl, .inr ⟨x, hx, hnonneg⟩⟩
    · rintro ⟨ht, hnumber⟩
      obtain ⟨x, hx, hnonneg⟩ := hnumber.resolve_left hunlimited
      exact ⟨x, hx, by rw [if_neg hnonneg, ht]⟩

/-- The text of a radius is not empty and does not hold the delimiter. -/
theorem plain_of_radius (h : radius token = .ok t) :
    token ≠ "" ∧ defaultDelimiter ∉ token.toList := by
  rcases (radius_eq_ok_iff.mp h).2 with rfl | ⟨x, hx, -⟩
  · decide
  · exact ⟨ne_empty_of_readNumber hx,
      Number.not_mem_of_read (readNumber_eq_ok_iff.mp hx) not_numeralChar_defaultDelimiter⟩

end Rule

/-! ### All positions -/

variable {rs ts : Sequence String}

/-- Radiuses are written as they are. -/
theorem eq_of_written_radiuses
    (h : List.Forall₂ (Written fun s t => Rule.radius s = .ok t) rs ts) : ts = rs := by
  have hsame : List.Forall₂ (Written fun s t => some (id s) = t) rs ts := by
    refine h.imp fun x t hx => ?_
    cases hx with
    | absent => exact .absent
    | present hrule => exact .present (Rule.radius_eq_ok_iff.mp hrule).1
  rw [← Sequence.written_render_iff.mp hsame]
  simp

/-- All radiuses are written if and only if each of them passes the rule. -/
theorem exists_written_radiuses_iff :
    (∃ ts, List.Forall₂ (Written fun s t => Rule.radius s = .ok t) rs ts) ↔
      ∀ s, some s ∈ rs →
        s = Rule.unlimitedRadius ∨ ∃ x, readNumber s = .ok x ∧ 0 ≤ x.value := by
  rw [Sequence.exists_written_iff]
  refine forall₂_congr fun s _ => ?_
  simp only [Rule.radius_eq_ok_iff, exists_and_right, exists_eq', true_and]

/-- What is written for radiuses, and when. -/
theorem writeRadiuses_eq_ok_iff {text : String} :
    writeRadiuses (some rs) = .ok (some text) ↔
      (∀ s, some s ∈ rs →
        s = Rule.unlimitedRadius ∨ ∃ x, readNumber s = .ok x ∧ 0 ≤ x.value) ∧
        Sequence.write defaultDelimiter id .keep rs = text := by
  rw [writeRadiuses, Field.write_eq_ok_iff, ← exists_written_radiuses_iff]
  constructor
  · intro ⟨ts, hts, htext⟩
    rw [eq_of_written_radiuses hts] at htext
    exact ⟨⟨ts, hts⟩, Option.some.inj htext⟩
  · intro ⟨⟨ts, hts⟩, htext⟩
    refine ⟨ts, hts, ?_⟩
    rw [eq_of_written_radiuses hts, htext]

/-- The texts of radiuses are not empty and do not hold the delimiter. -/
theorem plain_of_writeRadiuses {text : String} (h : writeRadiuses (some rs) = .ok (some text)) :
    ∀ s, some s ∈ rs → s ≠ "" ∧ defaultDelimiter ∉ s.toList := by
  intro s hs
  have hpasses := (writeRadiuses_eq_ok_iff.mp h).1 s hs
  exact Rule.plain_of_radius (Rule.radius_eq_ok_iff.mpr ⟨rfl, hpasses⟩)

/-- Radiuses come back as they are, except for one absent position on its own. -/
theorem readTexts_writeRadiuses {text : String} (h : writeRadiuses (some rs) = .ok (some text)) :
    readTexts defaultDelimiter (some text) = .ok (some rs.collapsed) := by
  obtain ⟨-, rfl⟩ := writeRadiuses_eq_ok_iff.mp h
  show some <$> Sequence.read defaultDelimiter .ok _ = _
  rw [Sequence.read_write]
  · rfl
  · intro s hs
    obtain ⟨hne, hfree⟩ := plain_of_writeRadiuses h s hs
    exact ⟨hne, hfree, rfl⟩

/-- Radiuses can be written if and only if each has no limit, or is a number that can be read and
that as it is written is at least `-2 ^ -1075`. They are sent as they are: no text is empty or holds
the delimiter, and the radiuses come back, except that one absent position on its own comes back as
no position. -/
theorem writeRadiuses_by_written_value (rs : Sequence String) :
    ((∀ s, some s ∈ rs → PlaceFits s) →
        ((∃ text, writeRadiuses (some rs) = .ok (some text)) ↔
          ∀ s, some s ∈ rs → s = "unlimited" ∨
            (∃ x, readNumber s = .ok x) ∧ ∃ v, SpellsValue s v ∧ -2 ^ (-1075 : ℤ) ≤ v)) ∧
      ∀ text, writeRadiuses (some rs) = .ok (some text) →
        (∀ s, some s ∈ rs → s ≠ "" ∧ ';' ∉ s.toList) ∧
        (rs ≠ [none] → readTexts ';' (some text) = .ok (some rs)) ∧
        (rs = [none] → readTexts ';' (some text) = .ok (some [])) := by
  refine ⟨fun hfits => ?_, fun text h => ⟨plain_of_writeRadiuses h, ?_, ?_⟩⟩
  · simp only [writeRadiuses_eq_ok_iff, exists_and_left, exists_eq', and_true]
    refine forall₂_congr fun s hs => or_congr_right ?_
    exact exists_nonneg_iff_of_placeFits (hfits s hs)
  · intro hne
    have hread := readTexts_writeRadiuses h
    rwa [Sequence.collapsed_of_ne hne] at hread
  · intro hsingle
    have hread := readTexts_writeRadiuses h
    rwa [hsingle] at hread

/-! ### Radiuses below zero -/

/-- A text is taken apart in one way only, so that one way to do it is enough to look at. -/
theorem placeFits_iff {token : String} : PlaceFits token ↔
    ∀ n, (withoutPlus token.toList).bind scan = some (n, []) → n.WordsFit := by
  constructor
  · intro h n hn
    obtain ⟨cs, hplus, hscan⟩ := Option.bind_eq_some_iff.mp hn
    exact h cs n (withoutPlus_eq_some_iff.mp hplus) (spells_iff_scan.mpr hscan)
  · intro h cs n hplus hn
    refine h n ?_
    rw [withoutPlus_eq_some_iff.mpr hplus, Option.bind_some, spells_iff_scan.mp hn]

/-- A negative zero, and a number below zero that reads as one. -/
theorem writeRadiuses_by_written_value_signed_zeros :
    let rs : Sequence String := [some "unlimited", none, some "-0", some "-1e-400"]
    (∀ s, some s ∈ rs → PlaceFits s) ∧
      writeRadiuses (some rs) = .ok (some "unlimited;;-0;-1e-400") ∧
      readTexts ';' (some "unlimited;;-0;-1e-400") = .ok (some rs) ∧
      ∃ v, SpellsValue "-1e-400" v ∧ -2 ^ (-1075 : ℤ) ≤ v := by
  intro rs
  have hfits : ∀ s, some s ∈ rs → PlaceFits s := by
    intro s hs
    rw [placeFits_iff]
    intro n hn
    simp only [rs, List.mem_cons, List.not_mem_nil, Option.some.injEq, reduceCtorEq] at hs
    rcases hs with rfl | hs | rfl | rfl | hs
    · cases hn
    · cases hs
    · cases hn
      exact fun _ _ => by decide
    · cases hn
      exact fun _ _ => by decide
    · cases hs
  have hwrite : writeRadiuses (some rs) = .ok (some "unlimited;;-0;-1e-400") := by decide +kernel
  obtain ⟨hiff, hback⟩ := writeRadiuses_by_written_value rs
  obtain ⟨-, hread, -⟩ := hback _ hwrite
  have hvalue := ((hiff hfits).mp ⟨_, hwrite⟩ "-1e-400" (by simp [rs])).resolve_left (by decide)
  exact ⟨hfits, hwrite, hread (by decide), hvalue.2⟩

/-- A number below zero that is sent: it reads as a negative zero, which is not below zero. So it is
not the sign of the number that is written that decides. -/
theorem writeRadiuses_negative_underflow :
    let rs : Sequence String := [some "-1e-400"]
    writeRadiuses (some rs) = .ok (some "-1e-400") ∧ "-1e-400" ≠ "unlimited" ∧
      (∀ v, SpellsValue "-1e-400" v → v < 0) ∧
      ¬ ((∃ text, writeRadiuses (some rs) = .ok (some text)) ↔
        ∀ s, some s ∈ rs → s = "unlimited" ∨
          (∃ x, readNumber s = .ok x) ∧ ∃ v, SpellsValue s v ∧ 0 ≤ v) := by
  intro rs
  have hwrite : writeRadiuses (some rs) = .ok (some "-1e-400") := by decide +kernel
  have hlimit : "-1e-400" ≠ "unlimited" := by decide
  have hspells : SpellsValue "-1e-400" (Numeral.mk true ['1'] [] (-400)).toDecimal.value :=
    ⟨"-1e-400".toList, _, .bare (by decide), spells_iff_scan.mpr rfl, rfl⟩
  have hneg : ∀ v, SpellsValue "-1e-400" v → v < 0 := by
    intro v hv
    rw [hv.unique hspells]
    exact (Decimal.value_neg_iff (by decide)).mpr rfl
  refine ⟨hwrite, hlimit, hneg, fun hiff => ?_⟩
  obtain ⟨-, v, hv, hnonneg⟩ := (hiff.mp ⟨_, hwrite⟩ "-1e-400" (by simp [rs])).resolve_left hlimit
  exact absurd (hneg v hv) (not_lt.mpr hnonneg)

end RouteWire
