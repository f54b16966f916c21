/-
RDF terms, triples and quads, and the patterns made of them.

Terms are compared by structure: two literals are equal exactly when their lexical value and
their datatype or language tag are, so `1` and `01` differ.  A literal whose datatype is
`xsd:string` is the simple literal.
-/

namespace GraphStore

/-- An IRI, kept as it was written. -/
structure Iri where
  text : String
deriving DecidableEq, Hashable, Inhabited, Repr

/-- A blank node: one that carries a label, or the `n`-th node made by a supply of new nodes.
The two never coincide, so a new node differs from every labelled one. -/
inductive BlankNode where
  | label (text : String)
  | fresh (index : Nat)
deriving DecidableEq, Hashable, Inhabited, Repr

/-- The XML Schema namespace. -/
def xsd (name : String) : Iri := ⟨"http://www.w3.org/2001/XMLSchema#" ++ name⟩

/-- The RDF namespace. -/
def rdf (name : String) : Iri := ⟨"http://www.w3.org/1999/02/22-rdf-syntax-ns#" ++ name⟩

/-- The datatype of simple literals. -/
def xsdString : Iri := xsd "string"

/-- The datatype of truth values. -/
def xsdBoolean : Iri := xsd "boolean"

/-- A literal with a datatype or with a language tag. -/
inductive Literal where
  | typed (value : String) (datatype : Iri)
  | tagged (value language : String)
deriving DecidableEq, Hashable, Inhabited, Repr

namespace Literal

/-- A literal without datatype and language tag is a string. -/
def simple (value : String) : Literal := .typed value xsdString

/-- The literal of a truth value. -/
def boolean (b : Bool) : Literal := .typed (if b then "true" else "false") xsdBoolean

/-- The lexical value. -/
def value : Literal → String
  | .typed value _ => value
  | .tagged value _ => value

/-- The datatype; language-tagged literals have `rdf:langString`. -/
def datatype : Literal → Iri
  | .typed _ datatype => datatype
  | .tagged _ _ => rdf "langString"

end Literal

/-- An IRI or a blank node: what may be a subject and what may name a graph. -/
inductive Resource where
  | iri (iri : Iri)
  | blank (node : BlankNode)
deriving DecidableEq, Hashable, Inhabited, Repr

/-- Any ground term. -/
inductive Term where
  | iri (iri : Iri)
  | blank (node : BlankNode)
  | literal (literal : Literal)
deriving DecidableEq, Hashable, Inhabited, Repr

/-- A resource is a term. -/
def Resource.toTerm : Resource → Term
  | .iri i => .iri i
  | .blank n => .blank n

/-- A term that is not a literal is a resource. -/
def Term.toResource? : Term → Option Resource
  | .iri i => some (.iri i)
  | .blank n => some (.blank n)
  | .literal _ => none

/-- A term that may stand as a predicate. -/
def Term.toIri? : Term → Option Iri
  | .iri i => some i
  | _ => none

@[simp] theorem Resource.toResource?_toTerm (r : Resource) : r.toTerm.toResource? = some r := by
  cases r <;> rfl

theorem Resource.toTerm_injective {a b : Resource} (h : a.toTerm = b.toTerm) : a = b := by
  simpa using congrArg Term.toResource? h

/-- The name of a graph of a dataset: the default graph or a named one. -/
inductive GraphName where
  | default
  | named (graph : Resource)
deriving DecidableEq, Hashable, Inhabited, Repr

/-- The resource that names the graph, absent for the default graph. -/
def GraphName.resource? : GraphName → Option Resource
  | .default => none
  | .named g => some g

/-- The graph named by an IRI. -/
def Iri.graph (i : Iri) : GraphName := .named (.iri i)

/-- A statement. -/
structure Triple where
  subject : Resource
  predicate : Iri
  object : Term
deriving DecidableEq, Hashable, Inhabited, Repr

/-- A statement in a graph. -/
structure Quad where
  subject : Resource
  predicate : Iri
  object : Term
  graph : GraphName
deriving DecidableEq, Hashable, Inhabited, Repr

/-- The triple placed in `graph`. -/
def Triple.inGraph (t : Triple) (graph : GraphName) : Quad :=
  ⟨t.subject, t.predicate, t.object, graph⟩

/-- The quad without its graph. -/
def Quad.triple (q : Quad) : Triple := ⟨q.subject, q.predicate, q.object⟩

@[simp] theorem Triple.triple_inGraph (t : Triple) (g : GraphName) : (t.inGraph g).triple = t := rfl

@[simp] theorem Triple.graph_inGraph (t : Triple) (g : GraphName) : (t.inGraph g).graph = g := rfl

theorem Triple.inGraph_injective {g : GraphName} {t u : Triple} (h : t.inGraph g = u.inGraph g) :
    t = u := by
  simpa using congrArg Quad.triple h

@[simp] theorem Quad.triple_inGraph_graph (q : Quad) : q.triple.inGraph q.graph = q := rfl

/-- A query variable. -/
structure Variable where
  name : String
deriving DecidableEq, Hashable, Inhabited, Repr

/-- A subject or object position of a pattern. -/
inductive TermPattern where
  | iri (iri : Iri)
  | blank (node : BlankNode)
  | literal (literal : Literal)
  | var (v : Variable)
deriving DecidableEq, Hashable, Inhabited, Repr

/-- A predicate position, and the name in a `GRAPH` or `SERVICE` pattern. -/
inductive NamePattern where
  | iri (iri : Iri)
  | var (v : Variable)
deriving DecidableEq, Hashable, Inhabited, Repr

/-- The graph position of a quad pattern. -/
inductive GraphPattern where
  | default
  | iri (iri : Iri)
  | var (v : Variable)
deriving DecidableEq, Hashable, Inhabited, Repr

/-- A triple with variables and blank nodes. -/
structure TriplePattern where
  subject : TermPattern
  predicate : NamePattern
  object : TermPattern
deriving DecidableEq, Hashable, Inhabited, Repr

/-- A quad with variables and blank nodes: a template, or data that may not be ground. -/
structure QuadPattern where
  subject : TermPattern
  predicate : NamePattern
  object : TermPattern
  graph : GraphPattern
deriving DecidableEq, Hashable, Inhabited, Repr

/-- A ground term is a pattern that only it matches. -/
def Term.toPattern : Term → TermPattern
  | .iri i => .iri i
  | .blank n => .blank n
  | .literal l => .literal l

/-- The graph of the pattern if no variable stands there. -/
def GraphPattern.constant? : GraphPattern → Option GraphName
  | .default => some .default
  | .iri i => some i.graph
  | .var _ => none

end GraphStore
