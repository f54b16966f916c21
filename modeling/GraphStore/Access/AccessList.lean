/-
Access lists: administrators, who may do everything, and rules that grant a user some kinds of
access on the graphs of a selector.  What no rule grants is denied.
-/
import GraphStore.Access.Policy

namespace GraphStore

/-- The graphs a rule is about. -/
inductive GraphSelector where
  | defaultGraph
  | allGraphs
  | named (iri : Iri)
deriving DecidableEq, Inhabited, Repr

namespace GraphSelector

/-- Whether the selector covers a graph; graphs named by a blank node are covered by `ALL` only. -/
def covers : GraphSelector → GraphName → Bool
  | .allGraphs, _ => true
  | .defaultGraph, g => g == .default
  | .named i, g => g == i.graph

/-- The selector as text. -/
def render : GraphSelector → String
  | .defaultGraph => "DEFAULT"
  | .allGraphs => "ALL"
  | .named i => i.render

end GraphSelector

/-- Grants one user some kinds of access on some graphs. -/
structure AccessRule where
  user : User
  graph : GraphSelector
  kinds : List AccessKind
deriving DecidableEq, Inhabited, Repr

/-- Whether the rule grants an access. -/
def AccessRule.grants (r : AccessRule) (kind : AccessKind) (graph : GraphName) (user : User) :
    Bool :=
  r.user == user && r.graph.covers graph && r.kinds.contains kind

/-- The rule as text: user, selector and kinds. -/
def AccessRule.render (r : AccessRule) : String :=
  r.user ++ " " ++ r.graph.render ++ " " ++ ",".intercalate (r.kinds.map AccessKind.name)

/-- Administrators and rules. -/
structure AccessList where
  admins : List User := []
  rules : List AccessRule := []
deriving DecidableEq, Inhabited, Repr

namespace AccessList

/-- The user that administers a list if nobody is named. -/
def defaultAdmin : User := "admin"

/-- The list whose only administrator is `defaultAdmin`. -/
def default : AccessList := { admins := [defaultAdmin] }

/-- The list without administrators. -/
def withoutAdmins : AccessList := {}

/-- One more administrator. -/
def withAdmin (l : AccessList) (user : User) : AccessList :=
  { l with admins := l.admins ++ [user] }

/-- One more rule. -/
def allow (l : AccessList) (user : User) (graph : GraphSelector) (kinds : List AccessKind) :
    AccessList :=
  { l with rules := l.rules ++ [⟨user, graph, kinds⟩] }

/-- One more rule, for every kind of access. -/
def allowAll (l : AccessList) (user : User) (graph : GraphSelector) : AccessList :=
  l.allow user graph AccessKind.all

/-- Whether `user` is an administrator. -/
def isAdmin (l : AccessList) (user : User) : Bool := l.admins.contains user

/-- The policy of a list. -/
def policy (l : AccessList) : Policy := fun kind graph user =>
  l.isAdmin user || l.rules.any (·.grants kind graph user)

end AccessList

end GraphStore
