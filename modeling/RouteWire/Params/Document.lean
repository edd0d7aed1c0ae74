import RouteWire.Params.Query

/-!
# Route parameters as a document

A document has the names of a query, and its members are texts or null. A null member is as
good as none.
-/

set_option autoImplicit false

namespace RouteWire

/-- Texts or null under names. -/
structure Document where
  members : List (String × Option String) := []
  deriving DecidableEq

namespace Document

/-- The members that are not null. -/
def query (d : Document) : Query :=
  ⟨d.members.filterMap fun (name, text) => text.map (name, ·)⟩

/-- A query as a document, without null members. -/
def ofQuery (q : Query) : Document :=
  ⟨q.entries.map fun (name, text) => (name, some text)⟩

/-- A query comes back from its document. -/
theorem query_ofQuery (q : Query) : (ofQuery q).query = q :=
  congrArg Query.mk (List.filterMap_map.trans List.filterMap_some)

end Document

namespace Params

/-- The parameters of a document. -/
def ofDocument (d : Document) : Except Failure Params :=
  ofQuery d.query

/-- The document of the parameters that are set. -/
def toDocument {m : Type → Type} [Monad m] [Rejecting m] (p : Params) : m Document :=
  Document.ofQuery <$> p.toQuery

end Params

end RouteWire
