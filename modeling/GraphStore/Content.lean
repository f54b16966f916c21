/-
The content of a store, in insertion order.

The triples of the default graph and the quads of named graphs are kept in two lists that hold
nothing twice; a third list holds the graphs that were created explicitly.  A named graph exists
when it was created or holds a quad.  An operation that changes nothing answers `none`.
-/
import GraphStore.Filter

namespace GraphStore

/-- The content of a store. -/
structure Content where
  triples : List Triple := []
  quads : List Quad := []
  graphs : List Resource := []
deriving DecidableEq, Inhabited, Repr

namespace Content

/-- The content without anything. -/
def empty : Content := {}

/-- The triples of the default graph that a filter accepts. -/
def findDefault (c : Content) (f : TripleFilter) : List Quad :=
  (c.triples.filter f.accepts).map (·.inGraph .default)

/-- The quads of a named graph that a filter accepts. -/
def findNamed (c : Content) (g : Resource) (f : TripleFilter) : List Quad :=
  c.quads.filter fun q => q.graph == .named g && f.accepts q.triple

/-- The quads of all named graphs that a filter accepts. -/
def findAnyNamed (c : Content) (f : TripleFilter) : List Quad :=
  c.quads.filter fun q => f.accepts q.triple

/-- Appends what is not in the list yet. -/
def addMissing {α : Type} [BEq α] (seen : List α) (xs : List α) : List α :=
  xs.foldl (fun seen x => if seen.contains x then seen else seen ++ [x]) seen

/-- The named graphs: the created ones first, then those that only hold quads. -/
def namedGraphs (c : Content) : List Resource :=
  addMissing c.graphs (c.quads.filterMap (·.graph.resource?))

/-- Whether a named graph exists. -/
def containsGraph (c : Content) (g : Resource) : Bool :=
  c.graphs.contains g || c.quads.any (·.graph == .named g)

/-- Adds a triple to the default graph. -/
def addTriple (c : Content) (t : Triple) : Option Content :=
  if t ∈ c.triples then none else some { c with triples := c.triples ++ [t] }

/-- Removes a triple from the default graph. -/
def removeTriple (c : Content) (t : Triple) : Option Content :=
  if t ∈ c.triples then some { c with triples := c.triples.erase t } else none

/-- Adds a quad, which is in a named graph. -/
def addQuad (c : Content) (q : Quad) : Option Content :=
  if q ∈ c.quads then none else some { c with quads := c.quads ++ [q] }

/-- Removes a quad, which is in a named graph. -/
def removeQuad (c : Content) (q : Quad) : Option Content :=
  if q ∈ c.quads then some { c with quads := c.quads.erase q } else none

/-- Creates a named graph that does not exist. -/
def register (c : Content) (g : Resource) : Option Content :=
  if c.containsGraph g then none else some { c with graphs := c.graphs ++ [g] }

/-- Forgets that a named graph was created; its quads stay. -/
def unregister (c : Content) (g : Resource) : Option Content :=
  if g ∈ c.graphs then some { c with graphs := c.graphs.erase g } else none

/-- The number of quads. -/
def size (c : Content) : Nat := c.triples.length + c.quads.length

/-- All quads, those of the default graph first. -/
def allQuads (c : Content) : List Quad := c.triples.map (·.inGraph .default) ++ c.quads

/-- Nothing is held twice, and the quads are in named graphs. -/
structure Valid (c : Content) : Prop where
  nodup_triples : c.triples.Nodup
  nodup_quads : c.quads.Nodup
  quads_named : ∀ q ∈ c.quads, q.graph ≠ .default
  nodup_graphs : c.graphs.Nodup

theorem valid_empty : empty.Valid := ⟨.nil, .nil, by simp [empty], .nil⟩

/-- A way in which a content can be invalid. -/
inductive Defect where
  | repeatedTriple (t : Triple)
  | quadInDefaultGraph (q : Quad)
  | repeatedQuad (q : Quad)
  | repeatedGraph (g : Resource)
deriving DecidableEq, Repr

/-- The text of a defect. -/
def Defect.message : Defect → String
  | .repeatedTriple t => "Triple " ++ t.render ++ " is stored twice in the default graph"
  | .quadInDefaultGraph q => "Quad " ++ q.render ++ " is stored with the named graph quads"
  | .repeatedQuad q => "Quad " ++ q.render ++ " is stored twice"
  | .repeatedGraph g => "Graph " ++ g.render ++ " is registered twice"

/-- The first element that stands in the list before. -/
def firstRepeated {α : Type} [BEq α] : List α → List α → Option α
  | _, [] => none
  | seen, x :: xs => if seen.contains x then some x else firstRepeated (x :: seen) xs

/-- The first defect of the quads: one in the default graph, or a repeated one. -/
def quadDefect : List Quad → List Quad → Option Defect
  | _, [] => none
  | seen, q :: qs =>
    if q.graph == .default then some (.quadInDefaultGraph q)
    else if seen.contains q then some (.repeatedQuad q)
    else quadDefect (q :: seen) qs

/-- The first defect of a content. -/
def defect? (c : Content) : Option Defect :=
  ((firstRepeated [] c.triples).map .repeatedTriple).or
    ((quadDefect [] c.quads).or ((firstRepeated [] c.graphs).map .repeatedGraph))

end Content

end GraphStore
