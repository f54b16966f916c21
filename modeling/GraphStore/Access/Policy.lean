/-
Policies: who may do what on which graph.  A policy alone decides who is privileged.
-/
import GraphStore.Access.Kind
import GraphStore.Term.Text

namespace GraphStore

/-- A user, by name. -/
abbrev User := String

/-- Whether a user may do a kind of access on a graph. -/
abbrev Policy := AccessKind → GraphName → User → Bool

namespace Policy

/-- Everything is allowed. -/
def permitAll : Policy := fun _ _ _ => true

end Policy

/-- A refused access. -/
structure AccessDenied where
  user : User
  graph : GraphName
  kind : AccessKind
deriving DecidableEq, Inhabited, Repr

/-- The text of a refusal. -/
def AccessDenied.message (e : AccessDenied) : String :=
  "User '" ++ e.user ++ "' is not allowed to " ++ e.kind.name ++ " on graph " ++ e.graph.render

/-- Asks the policy; a refusal carries the whole question. -/
def Policy.check (p : Policy) (kind : AccessKind) (graph : GraphName) (user : User) :
    Except AccessDenied Unit :=
  if p kind graph user then .ok () else .error ⟨user, graph, kind⟩

end GraphStore
