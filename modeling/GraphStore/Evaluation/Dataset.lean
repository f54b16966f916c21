/-
The dataset that a pattern is evaluated against: a reader seen through a USING list.

Without a list the default graph and all named graphs of the reader are seen.  With one, the
default graph holds the distinct triples of the listed graphs, and only the listed named graphs
are there; graphs outside are empty.
-/
import GraphStore.Operation
import GraphStore.Reader

namespace GraphStore

/-- A reader and the graphs of it that are seen. -/
structure Dataset (m : Type → Type) where
  reader : Reader m
  scope : Option Using := none

namespace Dataset

variable {m : Type → Type} [Monad m]

/-- The triples of the default graph, as quads of the default graph. -/
def findDefault (d : Dataset m) (f : TripleFilter) : m (List Quad) :=
  match d.scope with
  | none => d.reader.findDefault f
  | some u => do
    let parts ← u.default.mapM fun i => d.reader.find (some i.graph) f
    return (parts.flatten.map fun q => q.triple.inGraph .default).eraseDups

/-- Whether a named graph is seen. -/
def sees (d : Dataset m) (g : Resource) : Bool :=
  d.scope.all fun u => u.named.any (Resource.iri · == g)

/-- The quads of a named graph. -/
def findNamed (d : Dataset m) (g : Resource) (f : TripleFilter) : m (List Quad) :=
  if d.sees g then d.reader.findNamed g f else pure []

/-- The quads of a graph. -/
def find (d : Dataset m) (g : GraphName) (f : TripleFilter) : m (List Quad) :=
  match g with
  | .default => d.findDefault f
  | .named g => d.findNamed g f

/-- The named graphs. -/
def namedGraphs (d : Dataset m) : m (List Resource) :=
  match d.scope with
  | none => d.reader.namedGraphs
  | some u => pure (u.named.map Resource.iri).eraseDups

end Dataset

/-- A content whose graphs are those that a USING list makes visible in `c`. -/
def Content.select (c : Content) (u : Using) : Content where
  triples := (u.default.flatMap fun i => (c.findNamed (.iri i) .any).map Quad.triple).eraseDups
  quads := c.quads.filter fun q => u.named.any (·.graph == q.graph)
  graphs := (u.named.map Resource.iri).eraseDups

end GraphStore
