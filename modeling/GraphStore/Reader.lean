/-
Readers: the lookups that a dataset answers.  The lookups run in a monad `m`, so that one reader
can answer from a value and another from a store whose calls may fail.
-/
import GraphStore.Access.Policy
import GraphStore.Content

namespace GraphStore

/-- The lookups of a dataset with a default graph and named graphs. -/
structure Reader (m : Type → Type) where
  /-- The triples of the default graph that a filter accepts. -/
  findDefault : TripleFilter → m (List Quad)
  /-- The quads of a named graph that a filter accepts. -/
  findNamed : Resource → TripleFilter → m (List Quad)
  /-- The quads of all named graphs that a filter accepts. -/
  findAnyNamed : TripleFilter → m (List Quad)
  /-- The named graphs. -/
  namedGraphs : m (List Resource)
  /-- Whether a named graph exists. -/
  containsGraph : Resource → m Bool

namespace Reader

variable {m : Type → Type} [Monad m]

/-- The quads of a graph that a filter accepts, or those of all graphs. -/
def find (r : Reader m) (g : Option GraphName) (f : TripleFilter) : m (List Quad) :=
  match g with
  | none => do
    let defaults ← r.findDefault f
    let named ← r.findAnyNamed f
    return defaults ++ named
  | some .default => r.findDefault f
  | some (.named g) => r.findNamed g f

/-- Whether a quad is in the dataset. -/
def contains (r : Reader m) (q : Quad) : m Bool := do
  let found ← r.find (some q.graph) (.exactly q.triple)
  return !found.isEmpty

/-- The number of quads. -/
def size (r : Reader m) : m Nat := do
  let found ← r.find none .any
  return found.length

/-- Hides every graph that the user may not query: a hidden graph is empty and absent, and
looking at it is no error. -/
def restrict (r : Reader m) (policy : Policy) (user : User) : Reader m where
  findDefault f := if policy .query .default user then r.findDefault f else pure []
  findNamed g f := if policy .query (.named g) user then r.findNamed g f else pure []
  findAnyNamed f := do
    let quads ← r.findAnyNamed f
    return quads.filter fun q => policy .query q.graph user
  namedGraphs := do
    let graphs ← r.namedGraphs
    return graphs.filter fun g => policy .query (.named g) user
  containsGraph g := if policy .query (.named g) user then r.containsGraph g else pure false

end Reader

/-- The reader of a content; its lookups never fail. -/
def Content.reader {m : Type → Type} [Monad m] (c : Content) : Reader m where
  findDefault f := pure (c.findDefault f)
  findNamed g f := pure (c.findNamed g f)
  findAnyNamed f := pure (c.findAnyNamed f)
  namedGraphs := pure c.namedGraphs
  containsGraph g := pure (c.containsGraph g)

/-- The part of a content that a user may query, in the same order. -/
def Content.restrict (c : Content) (policy : Policy) (user : User) : Content where
  triples := if policy .query .default user then c.triples else []
  quads := c.quads.filter fun q => policy .query q.graph user
  graphs := c.graphs.filter fun g => policy .query (.named g) user

end GraphStore
