/-
Templates: quads with variables that a solution instantiates.

A template has no instance for a solution that leaves one of its positions unbound or binds it to
a term that may not stand there.  Blank nodes of templates stand for new nodes: solution `i` of a
template list with labels `bs` gets its own node for every label.
-/
import GraphStore.Binding

namespace GraphStore

/-- The term at a subject or object position, blank nodes taken through `node`. -/
def TermPattern.instance? (node : BlankNode → Option BlankNode) (b : Binding) :
    TermPattern → Option Term
  | .iri i => some (.iri i)
  | .blank n => (node n).map .blank
  | .literal l => some (.literal l)
  | .var v => b.get? v

/-- The IRI at a predicate position. -/
def NamePattern.instance? (b : Binding) : NamePattern → Option Iri
  | .iri i => some i
  | .var v => (b.get? v).bind Term.toIri?

/-- The graph at a graph position. -/
def GraphPattern.instance? (b : Binding) : GraphPattern → Option GraphName
  | .default => some .default
  | .iri i => some i.graph
  | .var v => ((b.get? v).bind Term.toResource?).map .named

/-- The quad that a template is for a solution. -/
def QuadPattern.instance? (node : BlankNode → Option BlankNode) (b : Binding) (q : QuadPattern) :
    Option Quad := do
  let s ← (q.subject.instance? node b).bind Term.toResource?
  let p ← q.predicate.instance? b
  let o ← q.object.instance? node b
  let g ← q.graph.instance? b
  return ⟨s, p, o, g⟩

/-- A template for deletion; one with a blank node has no instance. -/
def QuadPattern.deletion? (b : Binding) (q : QuadPattern) : Option Quad :=
  q.instance? (fun _ => none) b

/-- The blank node at a subject or object position. -/
def TermPattern.blanks : TermPattern → List BlankNode
  | .blank n => [n]
  | _ => []

/-- The distinct blank nodes of a list of templates. -/
def templateBlanks (qs : List QuadPattern) : List BlankNode :=
  (qs.flatMap fun q => q.subject.blanks ++ q.object.blanks).eraseDups

/-- The new node for a blank node of the templates: the nodes from `start` on, in the order of
`blanks`. -/
def freshNode (start : Nat) (blanks : List BlankNode) (n : BlankNode) : BlankNode :=
  .fresh (start + blanks.idxOf n)

/-- A template for insertion, its blank nodes replaced by the new ones from `start` on. -/
def QuadPattern.insertion? (start : Nat) (blanks : List BlankNode) (b : Binding)
    (q : QuadPattern) : Option Quad :=
  q.instance? (fun n => some (freshNode start blanks n)) b

end GraphStore
