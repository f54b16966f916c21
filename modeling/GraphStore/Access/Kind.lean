/-
The kinds of access an operation needs on a graph, in their order of declaration.
-/

namespace GraphStore

/-- What an operation does to a graph. -/
inductive AccessKind where
  /-- Creating a named graph. -/
  | create
  /-- Dropping a graph. -/
  | drop
  /-- Removing all quads of a graph. -/
  | clear
  /-- Inserting ground data. -/
  | insertData
  /-- Deleting ground data. -/
  | deleteData
  /-- Inserting the quads of a pattern-driven update. -/
  | update
  /-- Deleting the quads of a pattern-driven update. -/
  | delete
  /-- Reading from a graph. -/
  | query
deriving DecidableEq, Hashable, Inhabited, Repr

namespace AccessKind

/-- Every kind, in order. -/
def all : List AccessKind :=
  [.create, .drop, .clear, .insertData, .deleteData, .update, .delete, .query]

/-- The name of a kind in messages and in configuration. -/
def name : AccessKind → String
  | .create => "create"
  | .drop => "drop"
  | .clear => "clear"
  | .insertData => "insert_data"
  | .deleteData => "delete_data"
  | .update => "update"
  | .delete => "delete"
  | .query => "query"

/-- The kind with the given name. -/
def ofName? (name : String) : Option AccessKind := all.find? (·.name == name)

@[simp] theorem ofName?_name (k : AccessKind) : ofName? k.name = some k := by
  cases k <;> decide

/-- The position in `all`. -/
def index (k : AccessKind) : Nat := all.idxOf k

/-- The order of the kinds. -/
def before (a b : AccessKind) : Bool := a.index < b.index

/-- Every kind but reading changes the graph. -/
def isWrite (k : AccessKind) : Bool := k != .query

end AccessKind

end GraphStore
