/-
The operations of an update batch.
-/
import GraphStore.Access.Policy
import GraphStore.Algebra
import GraphStore.Binding

namespace GraphStore

/-- The graphs that DROP and CLEAR apply to, and the source of a transfer. -/
inductive GraphTarget where
  | named (graph : Resource)
  | defaultGraph
  | namedGraphs
  | allGraphs
deriving DecidableEq, Inhabited, Repr

namespace GraphTarget

/-- The target that is one graph. -/
def ofGraph : GraphName → GraphTarget
  | .default => .defaultGraph
  | .named g => .named g

/-- The graph of a target that is one graph. -/
def single? : GraphTarget → Option GraphName
  | .named g => some (.named g)
  | .defaultGraph => some .default
  | .namedGraphs | .allGraphs => none

@[simp] theorem single?_ofGraph (g : GraphName) : (ofGraph g).single? = some g := by
  cases g <;> rfl

/-- The target as text. -/
def render : GraphTarget → String
  | .named g => "GRAPH " ++ g.render
  | .defaultGraph => "DEFAULT"
  | .namedGraphs => "NAMED"
  | .allGraphs => "ALL"

end GraphTarget

/-- What an operation on whole graphs does. -/
inductive GraphAction where
  | drop | clear | add | copy | move
deriving DecidableEq, Inhabited, Repr

namespace GraphAction

/-- The name in messages. -/
def name : GraphAction → String
  | .drop => "drop"
  | .clear => "clear"
  | .add => "add"
  | .copy => "copy"
  | .move => "move"

/-- Whether quads go from a source to a destination. -/
def isTransfer : GraphAction → Bool
  | .add | .copy | .move => true
  | .drop | .clear => false

end GraphAction

/-- An operation on whole graphs.  DROP and CLEAR have a target and no destination; ADD, COPY and
MOVE have a single source and a destination. -/
structure GraphOperation where
  action : GraphAction
  source : GraphTarget
  destination : Option GraphName
  silent : Bool
deriving DecidableEq, Inhabited, Repr

/-- A transfer of the quads of one graph to another. -/
def GraphOperation.transfer (action : GraphAction) (source destination : GraphName)
    (silent : Bool) : GraphOperation :=
  ⟨action, .ofGraph source, some destination, silent⟩

/-- A way in which an operation on graphs does not fit its action. -/
inductive Malformed where
  | missingDestination (action : GraphAction)
  | noSingleSource (action : GraphAction) (source : GraphTarget)
  | unexpectedDestination (action : GraphAction)
deriving DecidableEq, Inhabited, Repr

/-- The text of a misfit. -/
def Malformed.message : Malformed → String
  | .missingDestination a => a.name ++ " requires a destination graph"
  | .noSingleSource a s => a.name ++ " requires a single source graph, found " ++ s.render
  | .unexpectedDestination a => a.name ++ " does not take a destination graph"

/-- The misfit of an operation, if there is one. -/
def GraphOperation.malformed? (op : GraphOperation) : Option Malformed :=
  if op.action.isTransfer then
    if op.destination.isNone then some (.missingDestination op.action)
    else if op.source.single?.isNone then some (.noSingleSource op.action op.source)
    else none
  else if op.destination.isSome then some (.unexpectedDestination op.action)
  else none

/-- The graphs that a pattern is evaluated against: the default graph is the merge of some graphs,
and only the listed named graphs can be asked for. -/
structure Using where
  default : List Iri := []
  named : List Iri := []
deriving DecidableEq, Inhabited, Repr

/-- A pattern-driven update: every solution of the pattern instantiates the templates. -/
structure Modify where
  delete : List QuadPattern
  insert : List QuadPattern
  pattern : Pattern
  /-- The dataset of the pattern, if the operation names one. -/
  scope : Option Using := none
  /-- A binding that every solution extends; it wins over the one of the batch. -/
  input : Option Binding := none
deriving Inhabited

/-- What an operation does. -/
inductive Action where
  | create (graph : Resource) (silent : Bool)
  | graph (op : GraphOperation)
  | insertData (quads : List Quad)
  | deleteData (quads : List Quad)
  | modify (m : Modify)
deriving Inhabited

/-- An operation of a batch, with a user of its own if it names one. -/
structure Operation where
  action : Action
  user : Option User := none
deriving Inhabited

/-- The short name of an operation. -/
def Operation.name (op : Operation) : String :=
  match op.action with
  | .create .. => "create"
  | .graph g => g.action.name
  | .insertData _ => "insert_data"
  | .deleteData _ => "delete_data"
  | .modify _ => "modify"

end GraphStore
