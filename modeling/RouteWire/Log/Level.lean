import RouteWire.Failure

/-!
# Log levels

How serious a log message is, from `debug` to `emergency`. Levels are ordered by their severity,
which is also their code.
-/

set_option autoImplicit false

namespace RouteWire

/-- How serious a log message is. -/
inductive Level where
  | debug
  | info
  | notice
  | warning
  | error
  | critical
  | alert
  | emergency
  deriving DecidableEq

namespace Level

/-- All levels, the least serious first. -/
def all : List Level :=
  [debug, info, notice, warning, error, critical, alert, emergency]

/-- The place of a level in the order. -/
def severity : Level → Nat
  | debug => 0
  | info => 1
  | notice => 2
  | warning => 3
  | error => 4
  | critical => 5
  | alert => 6
  | emergency => 7

instance : LE Level :=
  ⟨fun a b => a.severity ≤ b.severity⟩

instance : LT Level :=
  ⟨fun a b => a.severity < b.severity⟩

instance (a b : Level) : Decidable (a ≤ b) :=
  inferInstanceAs (Decidable (a.severity ≤ b.severity))

instance (a b : Level) : Decidable (a < b) :=
  inferInstanceAs (Decidable (a.severity < b.severity))

/-- The next more serious level. -/
def above? (l : Level) : Option Level :=
  all[l.severity + 1]?

/-- The next less serious level. -/
def below? : Level → Option Level
  | debug => none
  | l => all[l.severity - 1]?

/-- The name of a level. -/
def name : Level → String
  | debug => "debug"
  | info => "info"
  | notice => "notice"
  | warning => "warning"
  | error => "error"
  | critical => "critical"
  | alert => "alert"
  | emergency => "emergency"

/-- The level of a code, if there is one. -/
def ofCode? (code : Int) : Option Level :=
  all.find? fun l => l.severity = code

/-- The name for a code. A code that is no level goes by the name of the default level. -/
def nameOfCode (code : Int) : String :=
  ((ofCode? code).getD info).name

/-- The level of a name; any other name is a bad argument. -/
def ofName (name : String) : Except Failure Level :=
  (all.find? (·.name = name)).elim (.error (.badArgument (.unknownLevel name))) .ok

/-- A level comes back from its name. -/
theorem ofName_name (l : Level) : ofName l.name = .ok l := by
  cases l <;> rfl

/-- The next level below is one step less severe. -/
theorem severity_below {l k : Level} (h : l.below? = some k) : k.severity + 1 = l.severity := by
  cases l <;> cases h <;> rfl

/-- The next level above is one step more severe. -/
theorem severity_above {l k : Level} (h : l.above? = some k) : k.severity = l.severity + 1 := by
  cases l <;> cases h <;> rfl

end Level

end RouteWire
