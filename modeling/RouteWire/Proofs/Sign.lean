import RouteWire.Proofs.Digits
import RouteWire.Sign

/-!
# Signs in front of a number

Taking a sign off a text that begins with a digit, or with another character that is no sign,
takes nothing off it. `PlusDropped` says in the form of rules what is left of a text without its
leading plus sign, and when there is nothing left to read (`withoutPlus_eq_some_iff`).
-/

set_option autoImplicit false

namespace RouteWire

/-- All that is dropped is a plus sign. -/
theorem withoutPlus_eq {cs ds : List Char} (h : withoutPlus cs = some ds) :
    cs = ds ∨ cs = '+' :: ds := by
  unfold withoutPlus at h
  split at h <;> cases h
  · exact .inr rfl
  · exact .inl rfl

/-- Nothing is dropped if there is no plus sign. -/
theorem withoutPlus_of_ne {c : Char} {cs : List Char} (h : c ≠ '+') :
    withoutPlus (c :: cs) = some (c :: cs) := by
  unfold withoutPlus
  split <;> simp_all

/-- A text and what is read of it: the whole text if it does not begin with a plus sign, and else
what follows the plus sign, if that is not empty and does not begin with another sign. -/
inductive PlusDropped : List Char → List Char → Prop where
  | bare {cs : List Char} (h : cs.head? ≠ some '+') : PlusDropped cs cs
  | plus {c : Char} {cs : List Char} (hplus : c ≠ '+') (hminus : c ≠ '-') :
      PlusDropped ('+' :: c :: cs) (c :: cs)

/-- Dropping a plus sign, as a predicate. -/
theorem withoutPlus_eq_some_iff {cs ds : List Char} :
    withoutPlus cs = some ds ↔ PlusDropped cs ds := by
  constructor
  · intro h
    unfold withoutPlus at h
    split at h
    · cases h
    · cases h
    · cases h
    · -- The three texts without anything to read were dealt with before.
      rename_i tail hempty hplus hminus
      obtain rfl := Option.some.inj h
      cases tail with
      | nil => exact absurd rfl hempty
      | cons c tail =>
          refine .plus ?_ ?_
          · rintro rfl
            exact hplus tail rfl
          · rintro rfl
            exact hminus tail rfl
    · rename_i hnone
      obtain rfl := Option.some.inj h
      refine .bare fun hhead => ?_
      obtain ⟨tail, rfl⟩ := List.head?_eq_some_iff.mp hhead
      exact hnone tail rfl
  · intro h
    cases h with
    | bare h =>
        cases cs with
        | nil => rfl
        | cons c cs => exact withoutPlus_of_ne fun hc => h (congrArg some hc)
    | @plus c cs hplus hminus =>
        unfold withoutPlus
        split <;> simp_all

/-- There is one way to drop a plus sign. -/
theorem PlusDropped.unique {cs ds ds' : List Char} (h : PlusDropped cs ds)
    (h' : PlusDropped cs ds') : ds = ds' := by
  rw [← withoutPlus_eq_some_iff] at h h'
  rw [h] at h'
  exact Option.some.inj h'

/-- Nothing is taken if there is no minus sign. -/
theorem takeMinus_of_ne {c : Char} {cs : List Char} (h : c ≠ '-') :
    takeMinus (c :: cs) = (false, c :: cs) := by
  unfold takeMinus
  split
  · rename_i heq
    cases heq
    exact absurd rfl h
  · rfl

/-- A digit is not one of the other characters that numbers are made of. -/
theorem ne_of_isDigit {c d : Char} (hc : c.isDigit) (hd : d.isDigit = false) : c ≠ d := by
  rintro rfl
  exact Bool.noConfusion (hc.symm.trans hd)

/-- A text that begins with digits, or with a minus sign and digits, has no plus sign in front. -/
theorem withoutPlus_digits {ds : List Char} (hds : ∀ c ∈ ds, c.isDigit) (hne : ds ≠ [])
    (negative : Bool) (rest : List Char) :
    withoutPlus ((if negative then ['-'] else []) ++ (ds ++ rest)) =
      some ((if negative then ['-'] else []) ++ (ds ++ rest)) := by
  cases negative with
  | true => exact withoutPlus_of_ne (by decide)
  | false =>
      obtain ⟨c, cs, rfl⟩ := List.exists_cons_of_ne_nil hne
      exact withoutPlus_of_ne (ne_of_isDigit (hds c List.mem_cons_self) rfl)

/-- A minus sign in front of digits is found, whatever follows the digits. -/
theorem takeMinus_digits_append {ds : List Char} (hds : ∀ c ∈ ds, c.isDigit) (hne : ds ≠ [])
    (negative : Bool) (rest : List Char) :
    takeMinus ((if negative then ['-'] else []) ++ (ds ++ rest)) = (negative, ds ++ rest) := by
  cases negative with
  | true => rfl
  | false =>
      obtain ⟨c, cs, rfl⟩ := List.exists_cons_of_ne_nil hne
      exact takeMinus_of_ne (ne_of_isDigit (hds c List.mem_cons_self) rfl)

/-- A minus sign in front of digits is found, whether there is one or not. -/
theorem takeMinus_digits {ds : List Char} (hds : ∀ c ∈ ds, c.isDigit) (negative : Bool) :
    takeMinus ((if negative then ['-'] else []) ++ ds) = (negative, ds) := by
  cases negative with
  | true => rfl
  | false =>
      cases ds with
      | nil => rfl
      | cons c ds => exact takeMinus_of_ne (ne_of_isDigit (hds c List.mem_cons_self) rfl)

end RouteWire
