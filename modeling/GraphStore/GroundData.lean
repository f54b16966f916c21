/-
Ground data: the quads of INSERT DATA and DELETE DATA, gathered unit by unit.

A unit with a variable, or with a literal as its subject, is refused as a whole and changes
nothing; the first such position in the order subject, predicate, object, graph is reported.
-/
import GraphStore.Error

namespace GraphStore

/-- The subject of a ground triple. -/
def TermPattern.groundSubject : TermPattern → Except DataError Resource
  | .iri i => .ok (.iri i)
  | .blank n => .ok (.blank n)
  | .literal l => .error ⟨.literal l, .subject, .literalSubject⟩
  | .var v => .error ⟨.var v, .subject, .nonGroundTerm⟩

/-- The predicate of a ground triple. -/
def NamePattern.groundPredicate : NamePattern → Except DataError Iri
  | .iri i => .ok i
  | .var v => .error ⟨.var v, .predicate, .nonGroundTerm⟩

/-- The object of a ground triple. -/
def TermPattern.groundObject : TermPattern → Except DataError Term
  | .iri i => .ok (.iri i)
  | .blank n => .ok (.blank n)
  | .literal l => .ok (.literal l)
  | .var v => .error ⟨.var v, .object, .nonGroundTerm⟩

/-- The graph of a ground quad. -/
def GraphPattern.ground : GraphPattern → Except DataError GraphName
  | .default => .ok .default
  | .iri i => .ok i.graph
  | .var v => .error ⟨.var v, .graphName, .nonGroundTerm⟩

/-- The triple that a pattern without variables is. -/
def TriplePattern.ground (t : TriplePattern) : Except DataError Triple := do
  let s ← t.subject.groundSubject
  let p ← t.predicate.groundPredicate
  let o ← t.object.groundObject
  return ⟨s, p, o⟩

/-- The quad that a pattern without variables is. -/
def QuadPattern.ground (q : QuadPattern) : Except DataError Quad := do
  let t ← TriplePattern.ground ⟨q.subject, q.predicate, q.object⟩
  let g ← q.graph.ground
  return t.inGraph g

/-- The object of a quad that was read as ground: no blank node stands in it. -/
inductive GroundObject where
  | iri (iri : Iri)
  | literal (literal : Literal)
deriving DecidableEq, Inhabited, Repr

/-- A quad that was read as ground; without a graph it is one of the default graph. -/
structure GroundQuad where
  subject : Iri
  predicate : Iri
  object : GroundObject
  graph : Option Iri
deriving DecidableEq, Inhabited, Repr

/-- A ground object is a term. -/
def GroundObject.toTerm : GroundObject → Term
  | .iri i => .iri i
  | .literal l => .literal l

/-- A ground quad is a quad. -/
def GroundQuad.toQuad (q : GroundQuad) : Quad :=
  ⟨.iri q.subject, q.predicate, q.object.toTerm, q.graph.elim .default Iri.graph⟩

/-- Gathered data, and the graph that triples are placed in. -/
structure GroundData where
  graph : GraphName := .default
  quads : List Quad := []
deriving DecidableEq, Inhabited, Repr

namespace GroundData

/-- No data, in the default graph. -/
def empty : GroundData := {}

/-- Triples are placed in `g` from now on. -/
def setGraph (d : GroundData) (g : GraphName) : GroundData := { d with graph := g }

/-- Takes a quad; answers whether it is new. -/
def accept (d : GroundData) (q : Quad) : Bool × GroundData :=
  if q ∈ d.quads then (false, d) else (true, { d with quads := d.quads ++ [q] })

/-- Takes a triple into the current graph. -/
def acceptTriple (d : GroundData) (t : TriplePattern) : Except DataError (Bool × GroundData) := do
  let t ← t.ground
  return d.accept (t.inGraph d.graph)

/-- Takes a quad into the graph it names. -/
def acceptQuad (d : GroundData) (q : QuadPattern) : Except DataError (Bool × GroundData) := do
  let q ← q.ground
  return d.accept q

/-- Takes a quad that was read as ground. -/
def acceptGround (d : GroundData) (q : GroundQuad) : Bool × GroundData := d.accept q.toQuad

/-- The distinct quads of a list, each at its first position. -/
def ofQuads (qs : List Quad) : GroundData := qs.foldl (fun d q => (d.accept q).2) empty

/-- The data of a list of patterns, or the first reason to refuse it. -/
def ofPatterns (qs : List QuadPattern) : Except DataError GroundData :=
  qs.foldlM (fun d q => do
    let r ← d.acceptQuad q
    return r.2) empty

end GroundData

end GraphStore
