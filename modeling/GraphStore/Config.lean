/-
Configuration values, and how access lists are written to them and read from them.

A record is read by its field names, unknown fields are ignored, and missing fields have their
defaults; a list stands for the fields in order.  A value of the wrong kind refuses the whole, and
so does a field that is there twice.
-/
import GraphStore.Access.AccessList
import GraphStore.Iri.Grammar

namespace GraphStore

/-- A configuration value. -/
inductive Config where
  | null
  | flag (value : Bool)
  | number (mantissa : Int) (exponent : Nat)
  | text (value : String)
  | list (items : List Config)
  | record (fields : List (String × Config))
deriving Inhabited

namespace Config

/-- The field of a record, if it is there at all; twice it may not be there. -/
def field? (name : String) (fields : List (String × Config)) : Option (Option Config) :=
  match fields.filter (·.1 == name) with
  | [] => some none
  | [(_, value)] => some (some value)
  | _ => none

/-- Reads a text. -/
def toText? : Config → Option String
  | .text value => some value
  | _ => none

/-- Reads a truth value. -/
def toFlag? : Config → Option Bool
  | .flag value => some value
  | _ => none

/-- Reads a list of items that `item` can read. -/
def toList? {α : Type} (item : Config → Option α) : Config → Option (List α)
  | .list items => items.mapM item
  | _ => none

/-- The fields of a structure with the given names: by name in a record, by position in a list
that is not too long. -/
def fields? (names : List String) : Config → Option (List (Option Config))
  | .record fields => names.mapM (field? · fields)
  | .list items =>
    if items.length ≤ names.length then
      some (items.map some ++ List.replicate (names.length - items.length) none)
    else none
  | _ => none

/-- Reads a field, or takes its default where it is missing. -/
def orDefault {α : Type} (read : Config → Option α) (default : α) : Option Config → Option α
  | some value => read value
  | none => some default

/-- Reads a field that must be there. -/
def required {α : Type} (read : Config → Option α) : Option Config → Option α
  | some value => read value
  | none => none

end Config

/-- A kind is written as its name. -/
def AccessKind.toConfig (k : AccessKind) : Config := .text k.name

/-- A kind is read from its name, or from a record whose only field is its name, without value. -/
def AccessKind.ofConfig? : Config → Option AccessKind
  | .text name => ofName? name
  | .record [(name, .null)] => ofName? name
  | _ => none

/-- A selector is written as `DEFAULT`, `ALL` or an IRI. -/
def GraphSelector.toConfig : GraphSelector → Config
  | .defaultGraph => .text "DEFAULT"
  | .allGraphs => .text "ALL"
  | .named i => .text i.text

/-- A rule is written with all its fields. -/
def AccessRule.toConfig (r : AccessRule) : Config :=
  .record [("user", .text r.user), ("graph", r.graph.toConfig),
    ("kinds", .list (r.kinds.map AccessKind.toConfig))]

/-- A list is written with both fields. -/
def AccessList.toConfig (l : AccessList) : Config :=
  .record [("admins", .list (l.admins.map Config.text)),
    ("rules", .list (l.rules.map AccessRule.toConfig))]

section Reading

variable (parse : String → Option Iri)

/-- The selector with the given text, where `parse` reads IRIs. -/
def GraphSelector.ofTextWith? (text : String) : Option GraphSelector :=
  if text = "DEFAULT" then some .defaultGraph
  else if text = "ALL" then some .allGraphs
  else (parse text).map .named

/-- A selector is read from its text. -/
def GraphSelector.ofConfigWith? (c : Config) : Option GraphSelector :=
  c.toText?.bind (ofTextWith? parse)

/-- A rule needs a user and a graph; without kinds it grants all. -/
def AccessRule.ofConfigWith? (c : Config) : Option AccessRule :=
  match c.fields? ["user", "graph", "kinds"] with
  | some [user, graph, kinds] => do
    let user ← Config.required Config.toText? user
    let graph ← Config.required (GraphSelector.ofConfigWith? parse) graph
    let kinds ← Config.orDefault (Config.toList? AccessKind.ofConfig?) AccessKind.all kinds
    return ⟨user, graph, kinds⟩
  | _ => none

/-- Without administrators the default one is named, without rules there are none. -/
def AccessList.ofConfigWith? (c : Config) : Option AccessList :=
  match c.fields? ["admins", "rules"] with
  | some [admins, rules] => do
    let admins ← Config.orDefault (Config.toList? Config.toText?) AccessList.default.admins admins
    let rules ← Config.orDefault (Config.toList? (AccessRule.ofConfigWith? parse)) [] rules
    return ⟨admins, rules⟩
  | _ => none

end Reading

/-- Reads a selector. -/
def GraphSelector.ofConfig? (c : Config) : Option GraphSelector := ofConfigWith? Iri.ofText? c

/-- Reads an access list. -/
def AccessList.ofConfig? (c : Config) : Option AccessList := ofConfigWith? Iri.ofText? c

end GraphStore
