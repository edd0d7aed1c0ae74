import RouteWire.Proofs.Integer

/-!
# Which tokens are integers

`Integer.Spells cs v` is the grammar of integers, `(\+?|-)D+`, in the form of a rule, with the
integer that a text spells. A token is read if it spells an integer of 32 bits. Of the tokens that
are refused, `Integer.FrontOutOfRange` tells those that are out of range from those that are no
integer: it looks at the longest part at the front that spells an integer, and not at what stands
behind it.

- `spells_iff` and `longestSpelling_front`: what reading takes off the front of a text without a
  plus sign, its sign and all digits behind it, is the longest spelling there.
- `writeInteger_eq_iff_plain`: a token that is read is written again if and only if nothing in it is
  superfluous (`Integer.Plain`).
- `readInteger_by_spelling` puts this together for every token.
-/

set_option autoImplicit false

namespace RouteWire

namespace Integer

/-- A sign, which may be left out, and whether it is a minus sign: `\+?|-`. -/
inductive SignText : List Char → Bool → Prop where
  | none : SignText [] false
  | plus : SignText ['+'] false
  | minus : SignText ['-'] true

/-- The texts that spell an integer, `(\+?|-)D+`, and the integer. -/
inductive Spells : List Char → ℤ → Prop where
  | mk {sign ds : List Char} {negative : Bool} (hsign : SignText sign negative)
      (hds : ∀ c ∈ ds, c.isDigit) (hne : ds ≠ []) : Spells (sign ++ ds) (signed negative ds)

/-- The longest part at the front of `cs` that spells an integer, and the integer. -/
structure LongestSpelling (cs text : List Char) (v : ℤ) : Prop where
  spells : Spells text v
  front : text <+: cs
  longest : ∀ text' v', Spells text' v' → text' <+: cs → text'.length ≤ text.length

/-- The integer at the front of a token, its leading plus sign apart, does not fit into 32 bits.
No plus sign is left to read, so that the integer is spelled `-?D+`. -/
def FrontOutOfRange (token : String) : Prop :=
  ∃ cs text v, PlusDropped token.toList cs ∧ LongestSpelling cs text v ∧
    ¬ (-2 ^ 31 ≤ v ∧ v ≤ 2 ^ 31 - 1)

/-- Nothing in the spelling of `n` is superfluous: there is no plus sign, no zero in front of other
digits, and no minus sign in front of a zero. -/
structure Plain (token : String) (n : Int32) : Prop where
  no_plus : '+' ∉ token.toList
  no_leading_zero : ∀ sign negative ds, SignText sign negative →
    token.toList = sign ++ '0' :: ds → ds = []
  no_negative_zero : n = 0 → '-' ∉ token.toList

/-- The range by powers of two. -/
theorem inRange_iff {v : ℤ} : InRange v ↔ -2 ^ 31 ≤ v ∧ v ≤ 2 ^ 31 - 1 :=
  Iff.rfl

/-! ### The front of a text -/

variable {cs text : List Char} {v : ℤ}

/-- The digits at the front of a text, behind a minus sign if there is one. -/
def run (cs : List Char) : List Char :=
  (takeMinus cs).2.takeWhile Char.isDigit

/-- What follows these digits. -/
def unread (cs : List Char) : List Char :=
  (takeMinus cs).2.dropWhile Char.isDigit

/-- The minus sign, if there is one, and the digits. -/
def frontText (cs : List Char) : List Char :=
  (if (takeMinus cs).1 then ['-'] else []) ++ run cs

/-- The integer that sign and digits stand for. -/
def frontValue (cs : List Char) : ℤ :=
  signed (takeMinus cs).1 (run cs)

/-- The front and what is left unread make up the text. -/
theorem frontText_append_unread (cs : List Char) : frontText cs ++ unread cs = cs := by
  rw [frontText, run, unread, List.append_assoc, List.takeWhile_append_dropWhile,
    takeMinus_append]

/-- The front spells its value, if there is a digit in it. -/
theorem spells_frontText (h : run cs ≠ []) : Spells (frontText cs) (frontValue cs) := by
  have hdigits : ∀ c ∈ run cs, c.isDigit := fun c hc =>
    List.all_eq_true.mp List.all_takeWhile c hc
  rw [frontText, frontValue]
  cases (takeMinus cs).1 with
  | true => exact .mk .minus hdigits h
  | false => exact .mk .none hdigits h

/-- A spelling at the front of a text without a plus sign ends within the digits there. -/
theorem Spells.exists_prefix_run (h : Spells text v) (hfront : text <+: cs)
    (hplus : cs.head? ≠ some '+') :
    ∃ ds, ds ≠ [] ∧ ds <+: run cs ∧ text = (if (takeMinus cs).1 then ['-'] else []) ++ ds ∧
      v = signed (takeMinus cs).1 ds := by
  obtain ⟨rest, rfl⟩ := hfront
  cases h with
  | @mk sign ds negative hsign hds hne =>
      have htext : sign = if negative then ['-'] else [] := by
        cases hsign with
        | none => rfl
        | plus => exact absurd rfl hplus
        | minus => rfl
      subst htext
      have hsplit := takeMinus_digits_append hds hne negative rest
      rw [run, List.append_assoc, hsplit, List.takeWhile_append_of_pos hds]
      exact ⟨ds, hne, List.prefix_append _ _, rfl, rfl⟩

/-- The front is the longest spelling, if there is a digit in it. -/
theorem longestSpelling_front (hplus : cs.head? ≠ some '+') (h : run cs ≠ []) :
    LongestSpelling cs (frontText cs) (frontValue cs) := by
  refine ⟨spells_frontText h, ⟨_, frontText_append_unread cs⟩, fun text' v' htext' hfront => ?_⟩
  obtain ⟨ds, -, hds, rfl, -⟩ := htext'.exists_prefix_run hfront hplus
  have hle := hds.length_le
  rw [frontText, List.length_append, List.length_append]
  omega

/-- A text without a plus sign spells the integer at its front, if nothing follows that. -/
theorem spells_iff (hplus : cs.head? ≠ some '+') :
    Spells cs v ↔ run cs ≠ [] ∧ unread cs = [] ∧ v = frontValue cs := by
  have hsplit := frontText_append_unread cs
  constructor
  · intro h
    obtain ⟨ds, hne, ⟨more, hrun⟩, htext, hv⟩ := h.exists_prefix_run List.prefix_rfl hplus
    -- The spelling is the whole text, so that it is neither shorter than the front nor longer.
    have hall : ds = ds ++ more ++ unread cs := by
      rw [hrun, ← List.append_cancel_left_eq (if (takeMinus cs).1 then ['-'] else []),
        ← List.append_assoc, ← htext]
      exact hsplit.symm
    have hlength := congrArg List.length hall
    rw [List.length_append, List.length_append] at hlength
    have hmore : more = [] := List.eq_nil_of_length_eq_zero (by omega)
    have hunread : unread cs = [] := List.eq_nil_of_length_eq_zero (by omega)
    rw [hmore, List.append_nil] at hrun
    rw [frontValue, ← hrun]
    exact ⟨hne, hunread, hv⟩
  · rintro ⟨hrun, hunread, rfl⟩
    have hspells := spells_frontText hrun
    rw [hunread, List.append_nil] at hsplit
    rwa [hsplit] at hspells

/-- The longest spelling is the front. -/
theorem LongestSpelling.eq_front (h : LongestSpelling cs text v) (hplus : cs.head? ≠ some '+') :
    run cs ≠ [] ∧ v = frontValue cs := by
  obtain ⟨ds, hne, hds, htext, hv⟩ := h.spells.exists_prefix_run h.front hplus
  have hrun : run cs ≠ [] := hds.ne_nil hne
  -- The front is a spelling as well, and so no longer than this one.
  have hle := h.longest _ _ (spells_frontText hrun) ⟨_, frontText_append_unread cs⟩
  rw [htext, frontText, List.length_append, List.length_append] at hle
  refine ⟨hrun, ?_⟩
  rw [frontValue, ← hds.eq_of_length_le (by omega)]
  exact hv

/-! ### The plus sign -/

variable {token : String}

/-- No plus sign is left where one was dropped. -/
theorem head?_ne_plus_of_plusDropped {ds : List Char} (h : PlusDropped cs ds) :
    ds.head? ≠ some '+' := by
  cases h with
  | bare h => exact h
  | plus hplus hminus => exact fun hhead => hplus (Option.some.inj hhead)

/-- A plus sign does not change what a text spells. -/
theorem spells_iff_of_plusDropped {ds : List Char} (h : PlusDropped cs ds) :
    Spells cs v ↔ Spells ds v := by
  cases h with
  | bare => rfl
  | @plus c cs hplus hminus =>
      constructor
      · intro hspells
        generalize htext : '+' :: c :: cs = text at hspells
        cases hspells with
        | @mk sign ds negative hsign hds hne =>
            cases hsign with
            | plus =>
                obtain rfl : c :: cs = ds := (List.cons.inj htext).2
                exact .mk .none hds hne
            | minus => cases htext
            | none =>
                subst htext
                cases hds '+' List.mem_cons_self
      · intro hspells
        generalize htext : c :: cs = text at hspells ⊢
        cases hspells with
        | mk hsign hds hne =>
            cases hsign with
            | none => exact .mk .plus hds hne
            | plus => exact absurd (List.cons.inj htext).1 hplus
            | minus => exact absurd (List.cons.inj htext).1 hminus

/-- What stands behind a plus sign in a spelling is a digit. -/
theorem Spells.exists_plusDropped (h : Spells cs v) : ∃ ds, PlusDropped cs ds := by
  cases h with
  | mk hsign hds hne =>
      obtain ⟨c, ds, rfl⟩ := List.exists_cons_of_ne_nil hne
      have hc := hds c List.mem_cons_self
      cases hsign with
      | none => exact ⟨_, .bare fun hhead => ne_of_isDigit hc rfl (Option.some.inj hhead)⟩
      | plus => exact ⟨_, .plus (ne_of_isDigit hc rfl) (ne_of_isDigit hc rfl)⟩
      | minus => exact ⟨_, .bare fun hhead => by cases hhead⟩

/-- The front is out of range if its value is. -/
theorem frontOutOfRange_iff (hplus : PlusDropped token.toList cs) :
    FrontOutOfRange token ↔ run cs ≠ [] ∧ ¬ InRange (frontValue cs) := by
  have hhead := head?_ne_plus_of_plusDropped hplus
  constructor
  · rintro ⟨cs', text, v, hplus', hlongest, hrange⟩
    obtain rfl := hplus.unique hplus'
    obtain ⟨hrun, rfl⟩ := hlongest.eq_front hhead
    exact ⟨hrun, hrange⟩
  · intro ⟨hrun, hrange⟩
    exact ⟨cs, _, _, hplus, longestSpelling_front hhead hrun, hrange⟩

/-! ### What is read -/

/-- What is read, by the front of the token and what is left of it. -/
theorem read_eq (hplus : PlusDropped token.toList cs) : read token =
    if run cs = [] then .error (.notInteger token)
    else if ¬ InRange (frontValue cs) then .error (.integerOutOfRange token)
    else if unread cs ≠ [] then .error (.notInteger token)
    else .ok (Int32.ofInt (frontValue cs)) := by
  rw [read, withoutPlus_eq_some_iff.mpr hplus]
  rfl

/-- A value in range is that of its word. -/
theorem toInt_ofInt (h : InRange v) : (Int32.ofInt v).toInt = v := by
  rw [inRange_iff] at h
  exact Int32.toInt_ofInt_of_le h.1 (by omega)

/-- The word of a value in range is known by its value. -/
theorem ofInt_eq_iff (h : InRange v) {n : Int32} : Int32.ofInt v = n ↔ n.toInt = v := by
  rw [← Int32.toInt_inj, toInt_ofInt h, eq_comm]

end Integer

open Integer

variable {token : String}

/-- An integer is read from its spellings. -/
theorem readInteger_eq_ok_iff {n : Int32} :
    readInteger token = .ok n ↔ Spells token.toList n.toInt := by
  rw [readInteger, mapError_eq_ok_iff]
  cases hdropped : withoutPlus token.toList with
  | none =>
      refine iff_of_false (fun hread => ?_) fun hspells => ?_
      · rw [Integer.read, hdropped] at hread
        cases hread
      · obtain ⟨ds, hplus⟩ := hspells.exists_plusDropped
        rw [withoutPlus_eq_some_iff.mpr hplus] at hdropped
        cases hdropped
  | some cs =>
      have hplus := withoutPlus_eq_some_iff.mp hdropped
      rw [read_eq hplus, spells_iff_of_plusDropped hplus,
        spells_iff (head?_ne_plus_of_plusDropped hplus)]
      by_cases hrun : run cs = []
      · simp [hrun]
      by_cases hrange : InRange (frontValue cs)
      · by_cases hunread : unread cs = []
        · simp [hrun, hrange, hunread, ofInt_eq_iff hrange]
        · simp [hrun, hrange, hunread]
      · have hne : n.toInt ≠ frontValue cs := by
          intro heq
          exact hrange (heq ▸ inRange_toInt n)
        simp [hrun, hrange, hne]

/-- What is wrong with a front out of range is said first. -/
theorem readInteger_of_frontOutOfRange (h : FrontOutOfRange token) :
    readInteger token = .error (.malformed 0 (.integerOutOfRange token)) := by
  obtain ⟨cs, text, v, hplus, -⟩ := id h
  obtain ⟨hrun, hrange⟩ := (frontOutOfRange_iff hplus).mp h
  rw [readInteger, read_eq hplus, if_neg hrun, if_pos hrange]
  rfl

/-- A token that spells no integer of 32 bits, and whose front is not out of range. -/
theorem readInteger_of_not_spells (h : ¬ ∃ v, Spells token.toList v ∧ InRange v)
    (hfront : ¬ FrontOutOfRange token) :
    readInteger token = .error (.malformed 0 (.notInteger token)) := by
  cases hdropped : withoutPlus token.toList with
  | none =>
      rw [readInteger, Integer.read, hdropped]
      rfl
  | some cs =>
      have hplus := withoutPlus_eq_some_iff.mp hdropped
      rw [frontOutOfRange_iff hplus] at hfront
      rw [readInteger, read_eq hplus]
      by_cases hrun : run cs = []
      · rw [if_pos hrun]
        rfl
      have hrange : InRange (frontValue cs) := not_not.mp fun hout => hfront ⟨hrun, hout⟩
      -- Without anything left to read the token would spell the integer at its front.
      have hunread : unread cs ≠ [] := by
        intro hnil
        refine h ⟨_, ?_, hrange⟩
        rw [spells_iff_of_plusDropped hplus, spells_iff (head?_ne_plus_of_plusDropped hplus)]
        exact ⟨hrun, hnil, rfl⟩
      rw [if_neg hrun, if_neg (not_not.mpr hrange), if_pos hunread]
      rfl

/-! ### Reading and writing again -/

/-- The text of an integer has nothing superfluous in it. -/
theorem plain_writeInteger (n : Int32) : Plain (writeInteger n) n := by
  have hplus : '+' ∉ (writeInteger n).toList := not_mem_writeInteger rfl (by decide) n
  have hdigits : ∀ c ∈ Digits.ofNat n.toInt.natAbs, c.isDigit :=
    fun _ h => Digits.isDigit_of_mem_ofNat h
  refine ⟨hplus, fun sign negative ds hsign htext => ?_, ?_⟩
  · -- Without their sign, the two texts are digits.
    have htail : (takeMinus (sign ++ '0' :: ds)).2 = Digits.ofNat n.toInt.natAbs := by
      rw [← htext, toList_writeInteger, takeMinus_digits hdigits]
    cases hsign with
    | none => exact Digits.eq_zero_of_ofNat_eq_cons htail.symm
    | plus => exact absurd (htext ▸ List.mem_cons_self) hplus
    | minus => exact Digits.eq_zero_of_ofNat_eq_cons htail.symm
  · rintro rfl
    decide

/-- A text with nothing superfluous in it is that of the integer. -/
theorem writeInteger_eq_of_plain {n : Int32} (h : Spells token.toList n.toInt)
    (hplain : Plain token n) : writeInteger n = token := by
  rw [← String.toList_inj, toList_writeInteger]
  obtain ⟨hplus, hzero, hminus⟩ := hplain
  generalize token.toList = cs at *
  generalize hv : n.toInt = v at h
  cases h with
  | @mk sign ds negative hsign hds hne =>
      have htext : sign = if negative then ['-'] else [] := by
        cases hsign with
        | none => rfl
        | plus => exact absurd List.mem_cons_self hplus
        | minus => rfl
      have hdigits : Digits.ofNat (Digits.value ds) = ds :=
        Digits.ofNat_value_of_no_leading_zero hds hne fun es hes =>
          hzero sign negative es hsign (congrArg (sign ++ ·) hes)
      have habs : n.toInt.natAbs = Digits.value ds := by
        rw [hv, signed]
        split <;> omega
      have hsigned : decide (n.toInt < 0) = negative := by
        cases negative with
        | false =>
            rw [hv]
            exact decide_eq_false (Int.not_lt.mpr (Int.natCast_nonneg _))
        | true =>
            -- Behind a minus sign the digits do not stand for zero.
            have hne : n.toInt ≠ 0 := by
              intro hzero
              have hn : n = 0 := Int32.toInt_inj.mp hzero
              refine hminus hn ?_
              rw [htext]
              exact List.mem_cons_self
            have hle : n.toInt ≤ 0 := by
              rw [hv]
              exact Int.neg_nonpos_of_nonneg (Int.natCast_nonneg _)
            exact decide_eq_true (by omega)
      rw [← hv, hsigned, habs, hdigits, htext]

/-- The text that is written is the one that was read if and only if this is plain. -/
theorem writeInteger_eq_iff_plain {n : Int32} (h : readInteger token = .ok n) :
    writeInteger n = token ↔ Plain token n := by
  refine ⟨?_, writeInteger_eq_of_plain (readInteger_eq_ok_iff.mp h)⟩
  rintro rfl
  exact plain_writeInteger n

end RouteWire
