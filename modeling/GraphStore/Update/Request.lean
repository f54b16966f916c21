/-
Requests: the operations of an update text as its grammar gives them.

The grammar knows no transfers: ADD, COPY and MOVE stand for DROP and for a pattern-driven update
that copies every quad.
-/
import GraphStore.Operation

namespace GraphStore

/-- The USING clauses of a pattern-driven update. -/
structure DatasetClause where
  default : List Iri := []
  /-- The named graphs, if any clause was written for this update. -/
  named : Option (List Iri) := none
deriving DecidableEq, Inhabited, Repr

/-- An operation of an update text. -/
inductive Request where
  | insertData (quads : List Quad)
  | deleteData (quads : List Quad)
  | deleteInsert (delete insert : List QuadPattern) (dataset : Option DatasetClause)
      (pattern : Pattern)
  | load (silent : Bool) (source : Iri) (destination : GraphName)
  | clear (silent : Bool) (target : GraphTarget)
  | create (silent : Bool) (graph : Iri)
  | drop (silent : Bool) (target : GraphTarget)
deriving Inhabited

namespace Request

/-- The variables of the pattern that copies a graph. -/
def anyTriple : TriplePattern := ⟨.var ⟨"s"⟩, .var ⟨"p"⟩, .var ⟨"o"⟩⟩

/-- The pattern of all triples of a graph, where the graph is named by an IRI or the default
graph. -/
def allOf : GraphPattern → Pattern
  | .iri i => .graph (.iri i) (.bgp [anyTriple])
  | .var v => .graph (.var v) (.bgp [anyTriple])
  | .default => .bgp [anyTriple]

/-- The update that copies every quad of one graph to another. -/
def copyAll (source destination : GraphPattern) : Request :=
  .deleteInsert [] [⟨anyTriple.subject, anyTriple.predicate, anyTriple.object, destination⟩] none
    (allOf source)

/-- The target that is one graph. -/
def targetOf : GraphPattern → GraphTarget
  | .iri i => .named (.iri i)
  | _ => .defaultGraph

/-- What a transfer between two different graphs stands for. -/
def ofTransfer (action : GraphAction) (silent : Bool) (source destination : GraphPattern) :
    List Request :=
  match action with
  | .copy => [.drop true (targetOf destination), copyAll source destination]
  | .move =>
    [.drop true (targetOf destination), copyAll source destination,
      .drop silent (targetOf source)]
  | _ => [copyAll source destination]

end Request

end GraphStore
