/-
Statements as they are abbreviated: lists of objects and predicates, nodes in brackets, lists.

The rules are the same for templates and for patterns; they differ in what may stand as a verb.
The statements about a nested node come before the statement that contains it.
-/
import GraphStore.Sparql.Path

namespace GraphStore.Sparql

open Rule

/-- A subject, a verb and an object. -/
structure Statement (V : Type) where
  subject : TermPattern
  verb : V
  object : TermPattern

/-- A node, and what is stated inside its own text. -/
structure Node (V : Type) where
  focus : TermPattern
  statements : List (Statement V) := []

/-- Verbs and objects of one subject, and what is stated inside the objects. -/
structure Facts (V : Type) where
  pairs : List (V × TermPattern) := []
  statements : List (Statement V) := []

/-- What may stand as a verb. -/
structure Verbs (V : Type) where
  rule : Rule V
  ofIri : Iri → V

variable {V : Type}

/-- The statements that the facts are about a subject. -/
def Facts.about (f : Facts V) (subject : TermPattern) : List (Statement V) :=
  f.statements ++ f.pairs.map fun p => ⟨subject, p.1, p.2⟩

/-- The facts of two lists, in their order. -/
def Facts.append (f g : Facts V) : Facts V := ⟨f.pairs ++ g.pairs, f.statements ++ g.statements⟩

/-- A verb with its objects. -/
def verbObjects (v : Verbs V) (node : Rule (Node V)) : Rule (Facts V) := do
  let verb ← lexeme v.rule
  let objects ← separated (lexeme node) (mark ",")
  return ⟨objects.map fun n => (verb, n.focus), objects.flatMap Node.statements⟩

/-- The verbs of a subject with their objects; semicolons may stand in a row. -/
def facts (v : Verbs V) (node : Rule (Node V)) : Rule (Facts V) := do
  let first ← verbObjects v node
  let more ← many do
    mark ";"
    return (← optional (verbObjects v node)).getD {}
  return more.foldl Facts.append first

/-- A node in brackets with facts about it. -/
def bracketed (v : Verbs V) (node : Rule (Node V)) : Rule (Node V) := do
  mark "["
  let f ← lexeme (facts v node)
  symbol "]"
  let focus := TermPattern.blank (← freshBlank)
  return ⟨focus, f.about focus⟩

/-- The list whose first item is `item` and whose rest is `rest`. -/
def listCell (v : Verbs V) (rest item : Node V) : Rule (Node V) := do
  let cell := TermPattern.blank (← freshBlank)
  let own : List (Statement V) :=
    [⟨cell, v.ofIri (rdf "first"), item.focus⟩, ⟨cell, v.ofIri (rdf "rest"), rest.focus⟩]
  return ⟨cell, rest.statements ++ own ++ item.statements⟩

/-- A list of nodes; its cells are stated from the last to the first. -/
def collection (v : Verbs V) (node : Rule (Node V)) : Rule (Node V) := do
  mark "("
  let items ← many1 (lexeme node)
  symbol ")"
  items.reverse.foldlM (listCell v) ⟨.iri (rdf "nil"), []⟩

/-- A node with statements of its own. -/
def compound (v : Verbs V) (node : Rule (Node V)) : Rule (Node V) :=
  collection v node <|> bracketed v node

/-- A node of a given nesting at most. -/
def nodeWithin (v : Verbs V) : Nat → Rule (Node V)
  | 0 => fail
  | n + 1 => fun s =>
    ((do return ⟨← term, []⟩) <|> compound v (nodeWithin v n)) s

/-- A node. -/
def node (v : Verbs V) : Rule (Node V) := nested (nodeWithin v)

/-- The statements about one subject; a compound node may stand alone. -/
def sameSubject (v : Verbs V) : Rule (List (Statement V)) :=
  (do
    let s ← lexeme term
    return (← facts v (node v)).about s) <|>
  (do
    let n ← lexeme (compound v (node v))
    let f := (← optional (facts v (node v))).getD {}
    return n.statements ++ f.about n.focus)

/-- Statements with full stops between them; the last one may have none. -/
def statements (v : Verbs V) : Rule (List (Statement V)) := do
  let groups ← separated (lexeme (sameSubject v)) (mark ".")
  let _ ← optional (mark ".")
  return groups.flatten

/-- The verbs of templates. -/
def templateVerbs : Verbs NamePattern :=
  ⟨name <|> (do return .iri (← typeMark)), .iri⟩

/-- The triples of a template. -/
def templates : Rule (List TriplePattern) := do
  return (← statements templateVerbs).map fun s => ⟨s.subject, s.verb, s.object⟩

/-- The verbs of patterns: paths, and variables. -/
def patternVerbs : Verbs (Path ⊕ Variable) :=
  ⟨(Sum.inl <$> path) <|> (Sum.inr <$> variableName), fun i => .inl (.link i)⟩

/-- The elements of a statement of a pattern. -/
def Statement.elements (s : Statement (Path ⊕ Variable)) : Rule (List Element) :=
  match s.verb with
  | .inl p => fun r =>
    let (es, next) := Sparql.elements r.next s.subject p s.object
    (some es, { r with next })
  | .inr v => give [.triple ⟨s.subject, .var v, s.object⟩]

/-- The basic patterns that stand between other patterns. -/
def basicPatterns : Rule (List Pattern) := do
  let ss ← statements patternVerbs
  return blocks (← ss.mapM Statement.elements).flatten

end GraphStore.Sparql
