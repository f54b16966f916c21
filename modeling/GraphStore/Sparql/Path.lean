/-
Property paths: their rules, and the statements that a path between two terms stands for.
-/
import GraphStore.Sparql.Term

namespace GraphStore.Sparql

open Rule

/-- The predicate `a`. -/
def typeMark : Rule Iri := do
  symbol "a"
  return rdf "type"

/-- An IRI or the predicate `a`. -/
def predicateIri : Rule Iri := iri <|> typeMark

/-- A member of a negated set, and whether it is followed backwards. -/
def negatedMember : Rule (Bool × Iri) :=
  (do
    mark "^"
    return (true, ← predicateIri)) <|>
  (do return (false, ← predicateIri))

/-- The path of all predicates but some forwards, or all but some backwards. -/
def negatedPath (members : List (Bool × Iri)) : Path :=
  let forwards := (members.filter (!·.1)).map (·.2)
  let backwards := (members.filter (·.1)).map (·.2)
  if backwards.isEmpty then .negated forwards
  else if forwards.isEmpty then .inverse (.negated backwards)
  else .alternative (.negated forwards) (.inverse (.negated backwards))

/-- What follows the mark of a negated set. -/
def negatedSet : Rule Path :=
  (do
    mark "("
    let members ← separated (lexeme negatedMember) (mark "|")
    symbol ")"
    return negatedPath members) <|>
  (do return negatedPath [← negatedMember])

/-- The repetition written after a path; a question mark that begins a variable is none. -/
def repetition : Rule (Path → Path) :=
  (do
    symbol "*"
    return .zeroOrMore) <|>
  (do
    symbol "+"
    return .oneOrMore) <|>
  (do
    symbol "?"
    require (!(← state).rest.head?.any Lexeme.isNameStart)
    return .zeroOrOne)

/-- A path without operators between paths; `inner` reads what stands in brackets. -/
def pathPrimary (inner : Rule Path) : Rule Path :=
  (Path.link <$> predicateIri) <|>
  (do
    mark "!"
    negatedSet) <|>
  (do
    mark "("
    let p ← lexeme inner
    symbol ")"
    return p)

/-- A path with its repetition. -/
def pathElement (inner : Rule Path) : Rule Path := do
  let p ← lexeme (pathPrimary inner)
  match ← optional repetition with
  | some f => return f p
  | none => return p

/-- A path element, followed forwards or backwards. -/
def pathStep (inner : Rule Path) : Rule Path :=
  pathElement inner <|> (do
    mark "^"
    return .inverse (← pathElement inner))

/-- The values of a list put together from the left; `start` if there are none. -/
def joinLeft {α : Type} (f : α → α → α) (start : α) : List α → α
  | [] => start
  | a :: as => as.foldl f a

/-- A path; `inner` reads the paths in brackets. -/
def pathRule (inner : Rule Path) : Rule Path := do
  let sequence : Rule Path := do
    let ps ← separated (lexeme (pathStep inner)) (mark "/")
    return joinLeft .sequence (.negated []) ps
  let ps ← separated (lexeme sequence) (mark "|")
  return joinLeft .alternative (.negated []) ps

/-- A path of a given nesting at most. -/
def pathWithin : Nat → Rule Path
  | 0 => fail
  | n + 1 => fun s => pathRule (pathWithin n) s

/-- A path. -/
def path : Rule Path := nested pathWithin

/-- A part of a basic pattern: a triple, or a path that is not a single predicate. -/
inductive Element where
  | triple (t : TriplePattern)
  | path (subject : TermPattern) (path : Path) (object : TermPattern)
deriving DecidableEq, Inhabited, Repr

/-- The elements that a path between two terms stands for, and the number of the next new node:
an inverse path swaps its ends, and a new node stands between the parts of a sequence. -/
def elements (next : Nat) (s : TermPattern) : Path → TermPattern → List Element × Nat
  | .link i, o => ([.triple ⟨s, .iri i, o⟩], next)
  | .inverse p, o => elements next o p s
  | .sequence p q, o =>
    let middle := TermPattern.blank (.fresh next)
    let (first, next) := elements (next + 1) s p middle
    let (second, next) := elements next middle q o
    (first ++ second, next)
  | p, o => ([.path s p o], next)

/-- The patterns of a list of elements: triples next to each other are one. -/
def blocks : List Element → List Pattern
  | [] => []
  | .path s p o :: es => .path s p o :: blocks es
  | .triple t :: es =>
    match blocks es with
    | .bgp ts :: ps => .bgp (t :: ts) :: ps
    | ps => .bgp [t] :: ps

end GraphStore.Sparql
