import RouteWire.Params.Query

/-!
# Route parameters from a JSON text

The text is taken apart by a JSON scanner, which is an argument (`JsonScanner`): it says what it
comes upon, and its failures bring their own wording. Members that are null are skipped, and of
members with one name the last one counts. How many names there are is logged before the parameters
are read (`Params.load`).
-/

set_option autoImplicit false

namespace RouteWire

/-- What a scanner comes upon where a member of an object is due. -/
inductive JsonMember where
  /-- The text goes wrong before the member. -/
  | broken (detail : String)
  /-- The name cannot be decoded. -/
  | badName (detail : String)
  /-- There is no value, or not the beginning of one. -/
  | badValue (name detail : String)
  | null (name : String)
  /-- A value that is neither null nor a text. -/
  | other (name : String)
  /-- The text of the value cannot be decoded. -/
  | badText (name detail : String)
  | text (name value : String)

/-- What a scanner makes of a JSON text. -/
inductive JsonScan where
  | failed (detail : String)
  /-- A value that is no object. -/
  | other
  /-- An object. The scanner goes on to the next member only after a good one. -/
  | object (members : List JsonMember)

/-- A JSON scanner. It never gets the empty text. -/
abbrev JsonScanner := String → JsonScan

namespace Query

/-- The query after a name is given a text, in place of the one that it has. -/
def put (q : Query) (name text : String) : Query :=
  ⟨(name, text) :: q.entries.filter (·.1 ≠ name)⟩

/-- The query after a member of an object. -/
def putMember (q : Query) : JsonMember → Except Failure Query
  | .broken detail => .error (.badDocument (.notJson detail))
  | .badName detail => .error (.badDocument (.memberName detail))
  | .badValue name detail => .error (.badDocument (.memberValue name detail))
  | .null _ => .ok q
  | .other name => .error (.badDocument (.memberNotText name))
  | .badText name detail => .error (.badDocument (.memberText name detail))
  | .text name value => .ok (q.put name value)

/-- The query of a JSON text. -/
def ofJson (scan : JsonScanner) (raw : String) : Except Failure Query :=
  if raw = "" then .error (.badDocument .emptyInput)
  else
    match scan raw with
    | .failed detail => .error (.badDocument (.notJson detail))
    | .other => .error (.badDocument .notObject)
    | .object members => members.foldlM putMember {}

/-- The message that a query was loaded. -/
def loaded (q : Query) : Record where
  level := .debug
  logger := "waycodec.route_parameters"
  message := "Loaded " ++ integerText q.entries.length ++ " parameters from JSON"

end Query

namespace Params

/-- The parameters of a JSON text. -/
def load (scan : JsonScanner) (raw : String) : Logging Params := do
  let q ← silently (Query.ofJson scan raw)
  Logging.send q.loaded
  silently (ofQuery q)

end Params

end RouteWire
