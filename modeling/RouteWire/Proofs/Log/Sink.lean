import RouteWire.Log.Sink

/-!
# What a message leads to

A message is dropped, or the handler that is installed gets it and does what it does.
`Sink.log_cases` says so once, and what follows never looks into `Sink.log` again.

- `Sink.minimum_le_of_mem_receipts`: no record gets to a handler below the minimum that its message
  found. This covers the messages that handlers send, at any depth.
- `Sink.isCascade_log`: a handler that logs every message again one level below stops at the
  minimum.

The kinds of handlers are said by what they do (`Handling.OnlyRecords` and those after it), so that
all of this holds beside handlers of any other kind.
-/

set_option autoImplicit false

namespace RouteWire

namespace Level

/-- Any two levels can be compared. -/
theorem lt_or_le (a b : Level) : a < b ∨ b ≤ a :=
  Nat.lt_or_ge a.severity b.severity

/-- A level is not below one that it is at or above. -/
theorem not_lt_of_le {a b : Level} (h : b ≤ a) : ¬ a < b :=
  Nat.not_lt_of_le h

/-- Only an emergency has no level above it. -/
theorem eq_emergency_of_above? {l : Level} (h : l.above? = none) : l = .emergency := by
  cases l <;> first | rfl | cases h

/-- Only debug has no level below it. -/
theorem eq_debug_of_below? {l : Level} (h : l.below? = none) : l = .debug := by
  cases l <;> first | rfl | cases h

end Level

variable {η : Type} [Handling η]

namespace Sink

variable {s : Sink η} {r : Record} {h : η}

/-! ### Dropped or delivered -/

/-- The handler that is installed gets a message at or above the minimum. -/
theorem log_of_handler (hlevel : s.minimum ≤ r.level) (hhandler : s.handler = some h) :
    s.log r = { Handling.act h r s with
      receipts := ⟨s.minimum, r⟩ :: (Handling.act h r s).receipts } := by
  rw [log, deliver, if_neg (Level.not_lt_of_le hlevel), hhandler]

/-- A message is dropped and changes nothing, or the installed handler gets it. -/
theorem log_cases (s : Sink η) (r : Record) :
    (r.level < s.minimum ∨ s.handler = none) ∧ s.log r = { sink := s } ∨
      ∃ h, s.minimum ≤ r.level ∧ s.handler = some h ∧
        s.log r = { Handling.act h r s with
          receipts := ⟨s.minimum, r⟩ :: (Handling.act h r s).receipts } := by
  cases hhandler : s.handler with
  | none => exact .inl ⟨.inr rfl, log_of_handler_none r hhandler⟩
  | some h =>
      rcases Level.lt_or_le r.level s.minimum with hlevel | hlevel
      · exact .inl ⟨.inl hlevel, log_of_lt hlevel⟩
      · exact .inr ⟨h, hlevel, rfl, log_of_handler hlevel hhandler⟩

/-! ### The minimum that a message found -/

/-- What holds of the receipts of all messages with few receipts holds of the receipts of a handler
with few: it gets them from the messages that it sends. -/
private theorem forall_receipts_of_leads {P : Receipt → Prop} {n : Nat}
    (hlog : ∀ (s : Sink η) (r : Record), (s.log r).receipts.length ≤ n →
      ∀ x ∈ (s.log r).receipts, P x)
    {d : Delivery η} (hd : Leads Handling.act s d) (hn : d.receipts.length ≤ n) :
    ∀ x ∈ d.receipts, P x := by
  induction hd with
  | done s => simp
  | fail s f => simp
  | setMinimum l _ ih => exact ih hn
  | install handler _ ih => exact ih hn
  | @log s d r _ ih =>
      have hlength : (s.log r).receipts.length + d.receipts.length ≤ n := by
        rw [← List.length_append]
        exact hn
      intro x hx
      -- The receipts of the message come first, then those of what the handler does after it.
      rcases List.mem_append.mp hx with hx | hx
      · exact hlog s r (by omega) x hx
      · exact ih (by omega) x hx

/-- No record gets to a handler below the minimum that its message found. -/
theorem minimum_le_of_mem_receipts (s : Sink η) (r : Record) :
    ∀ x ∈ (s.log r).receipts, x.minimum ≤ x.record.level := by
  -- A handler may log again through itself, so the induction is on the number of receipts: the
  -- messages that a handler sends have fewer than the message that it got.
  suffices h : ∀ (n : Nat) (s : Sink η) (r : Record), (s.log r).receipts.length ≤ n →
      ∀ x ∈ (s.log r).receipts, x.minimum ≤ x.record.level from h _ s r (Nat.le_refl _)
  intro n
  induction n with
  | zero =>
      intro s r hn
      rw [List.eq_nil_of_length_eq_zero (Nat.le_zero.mp hn)]
      simp
  | succ n ih =>
      intro s r hn x hx
      rcases log_cases s r with ⟨-, hdropped⟩ | ⟨h, hlevel, -, hdelivered⟩
      · rw [hdropped] at hx
        cases hx
      · rw [hdelivered] at hn hx
        rcases List.mem_cons.mp hx with rfl | hx
        · exact hlevel
        · exact forall_receipts_of_leads ih (Handling.leads h r s) (Nat.le_of_succ_le_succ hn) x hx

end Sink

/-! ### Kinds of handlers -/

namespace Handling

variable (h : η)

/-- The handler takes down the record and does nothing more. -/
def OnlyRecords : Prop :=
  ∀ (r : Record) (s : Sink η), act h r s = { sink := s }

/-- The handler does not fail as long as it is the one that is installed. -/
def NeverFails : Prop :=
  ∀ (r : Record) (s : Sink η), s.handler = some h → (act h r s).raised = none

/-- The handler takes down the record and then uninstalls itself. -/
def UninstallsItself : Prop :=
  ∀ (r : Record) (s : Sink η), act h r s = { sink := { s with handler := none } }

/-- The handler takes down the record and then sets the minimum to the level above it, if there is
one. -/
def Tightens : Prop :=
  ∀ (r : Record) (s : Sink η),
    act h r s = { sink := { s with minimum := r.level.above?.getD s.minimum } }

/-- The handler takes down the record and then, if there is a level below, logs the same message
at that level, with a `+` after the logger. -/
def Cascades : Prop :=
  ∀ (r : Record) (s : Sink η),
    act h r s = match r.level.below? with
      | none => { sink := s }
      | some below => s.log { r with level := below, logger := r.logger ++ "+" }

end Handling

/-- The records of a message that is logged again and again, one level below each time, until it
is at the minimum. -/
structure IsCascade (minimum : Level) (r : Record) (records : List Record) : Prop where
  length : records.length = r.level.severity - minimum.severity + 1
  record : ∀ k x, records[k]? = some x →
    x.level.severity = r.level.severity - k ∧
      x.logger = r.logger ++ String.ofList (List.replicate k '+') ∧ x.message = r.message

namespace IsCascade

variable {minimum below : Level} {r : Record}

/-- A message at the minimum is the last one. -/
theorem single (h : r.level.severity = minimum.severity) : IsCascade minimum r [r] where
  length := by simp [h]
  record k x hx := by
    cases k with
    | zero =>
        cases hx
        simp
    | succ k => cases hx

/-- A message above the minimum is logged again. -/
theorem cons {records : List Record} (hbelow : below.severity + 1 = r.level.severity)
    (hminimum : minimum ≤ below)
    (h : IsCascade minimum { r with level := below, logger := r.logger ++ "+" } records) :
    IsCascade minimum r (r :: records) where
  length := by
    have hle : minimum.severity ≤ below.severity := hminimum
    rw [List.length_cons, h.length]
    show below.severity - minimum.severity + 1 + 1 = _
    omega
  record k x hx := by
    cases k with
    | zero =>
        cases hx
        simp
    | succ k =>
        obtain ⟨hlevel, hlogger, hmessage⟩ := h.record k x hx
        refine ⟨?_, ?_, hmessage⟩
        · rw [hlevel, ← hbelow]
          show below.severity - k = _
          omega
        · -- The plus after the logger comes before those of the records further down.
          rw [hlogger, String.append_assoc, List.replicate_succ, ← List.singleton_append,
            String.ofList_append]

end IsCascade

namespace Sink

variable {s : Sink η} {r : Record} {h : η}

/-- A handler that only records gets the message, and the sink stays as it is. -/
theorem log_of_onlyRecords (hh : Handling.OnlyRecords h) (hlevel : s.minimum ≤ r.level)
    (hhandler : s.handler = some h) :
    s.log r = { sink := s, receipts := [⟨s.minimum, r⟩] } := by
  rw [log_of_handler hlevel hhandler, hh]

/-- A message that goes down the levels leaves the sink as it was, and ends with the record at the
minimum. -/
theorem isCascade_log (hh : Handling.Cascades h) (hhandler : s.handler = some h)
    (hlevel : s.minimum ≤ r.level) :
    (s.log r).sink = s ∧ (s.log r).raised = none ∧ IsCascade s.minimum r (s.log r).records := by
  induction hn : r.level.severity using Nat.strongRecOn generalizing r with
  | ind n ih =>
      have hle : s.minimum.severity ≤ r.level.severity := hlevel
      have hact := hh r s
      rw [log_of_handler hlevel hhandler]
      cases hbelow : r.level.below? with
      | none =>
          rw [hbelow] at hact
          rw [hact]
          -- Below debug there is no level, so that the minimum is debug as well.
          have hdebug : r.level.severity = 0 := by rw [Level.eq_debug_of_below? hbelow]; rfl
          exact ⟨rfl, rfl, .single (by omega)⟩
      | some below =>
          have hseverity := Level.severity_below hbelow
          simp only [hbelow] at hact
          rw [hact]
          rcases Level.lt_or_le below s.minimum with hdropped | hagain
          · -- The level below is under the minimum, so the message was at it.
            have hlt : below.severity < s.minimum.severity := hdropped
            rw [log_of_lt hdropped]
            exact ⟨rfl, rfl, .single (by omega)⟩
          · obtain ⟨hsink, hraised, hcascade⟩ := ih below.severity (by omega)
              (r := { r with level := below, logger := r.logger ++ "+" }) hagain rfl
            exact ⟨hsink, hraised, hcascade.cons hseverity hagain⟩

end Sink

end RouteWire
