/-
The algebra of query patterns: property paths, expressions and graph patterns.

All forms of the query language are present, also those that the evaluator refuses, because a
refused construct is reported with its text.
-/
import GraphStore.Term

namespace GraphStore

/-- A property path. -/
inductive Path where
  | link (iri : Iri)
  | inverse (path : Path)
  | sequence (first second : Path)
  | alternative (left right : Path)
  | zeroOrMore (path : Path)
  | oneOrMore (path : Path)
  | zeroOrOne (path : Path)
  | negated (iris : List Iri)
deriving DecidableEq, Inhabited, Repr

/-- The order comparisons of values. -/
inductive Comparison where
  | greater | greaterOrEqual | less | lessOrEqual
deriving DecidableEq, Inhabited, Repr

/-- The arithmetic operators. -/
inductive Arithmetic where
  | add | subtract | multiply | divide
deriving DecidableEq, Inhabited, Repr

/-- The sign written before an expression. -/
inductive Sign where
  | plus | minus
deriving DecidableEq, Inhabited, Repr

/-- A function that is called by a built-in name or by its IRI. -/
inductive FunctionName where
  | builtIn (name : String)
  | custom (iri : Iri)
deriving DecidableEq, Inhabited, Repr

/-- The functions that fold a group of solutions. -/
inductive AggregateFunction where
  | count | sum | min | max | avg | sample
  | groupConcat (separator : Option String)
  /-- The function that an IRI names. -/
  | custom (iri : Iri)
deriving DecidableEq, Inhabited, Repr

mutual

/-- A graph pattern. -/
inductive Pattern where
  | bgp (triples : List TriplePattern)
  | path (subject : TermPattern) (path : Path) (object : TermPattern)
  | join (left right : Pattern)
  | leftJoin (left right : Pattern) (condition : Option Expr)
  | filter (condition : Expr) (inner : Pattern)
  | union (left right : Pattern)
  | graph (name : NamePattern) (inner : Pattern)
  | extend (inner : Pattern) (v : Variable) (value : Expr)
  | minus (left right : Pattern)
  | values (vars : List Variable) (rows : List (List (Option Term)))
  | orderBy (inner : Pattern) (keys : List OrderKey)
  | project (inner : Pattern) (vars : List Variable)
  | distinct (inner : Pattern)
  | reduced (inner : Pattern)
  | slice (inner : Pattern) (start : Nat) (length : Option Nat)
  | group (inner : Pattern) (vars : List Variable) (aggregates : List Aggregate)
  | service (name : NamePattern) (inner : Pattern) (silent : Bool)

/-- A key that solutions are sorted by. -/
inductive OrderKey where
  | ascending (key : Expr)
  | descending (key : Expr)

/-- A variable bound to the fold of a group; without argument the group itself is folded. -/
inductive Aggregate where
  | of (result : Variable) (function : AggregateFunction) (distinct : Bool) (argument : Option Expr)

/-- An expression. -/
inductive Expr where
  | iri (iri : Iri)
  | literal (literal : Literal)
  | var (v : Variable)
  | or (left right : Expr)
  | and (left right : Expr)
  | equal (left right : Expr)
  | sameTerm (left right : Expr)
  | compare (op : Comparison) (left right : Expr)
  | arith (op : Arithmetic) (left right : Expr)
  | signed (sign : Sign) (inner : Expr)
  | not (inner : Expr)
  | member (inner : Expr) (candidates : List Expr)
  | holds (pattern : Pattern)
  | bound (v : Variable)
  | ite (condition yes no : Expr)
  | coalesce (candidates : List Expr)
  | call (function : FunctionName) (arguments : List Expr)

end

deriving instance BEq, Repr for Pattern, OrderKey, Aggregate, Expr

instance : Inhabited Pattern := ⟨.bgp []⟩

instance : Inhabited Expr := ⟨.literal (.boolean true)⟩

/-- The variable at a subject or object position. -/
def TermPattern.variables : TermPattern → List Variable
  | .var v => [v]
  | _ => []

/-- The variable at a predicate position. -/
def NamePattern.variables : NamePattern → List Variable
  | .var v => [v]
  | .iri _ => []

/-- The variables of a triple pattern, in the order they are written. -/
def TriplePattern.variables (t : TriplePattern) : List Variable :=
  t.subject.variables ++ t.predicate.variables ++ t.object.variables

/-- The variable an aggregate is bound to. -/
def Aggregate.result : Aggregate → Variable
  | .of v _ _ _ => v

/-- The variables that a solution of the pattern may bind for the group around it. -/
def Pattern.inScope : Pattern → List Variable
  | .bgp triples => triples.flatMap TriplePattern.variables
  | .path s _ o => s.variables ++ o.variables
  | .join l r => l.inScope ++ r.inScope
  | .leftJoin l r _ => l.inScope ++ r.inScope
  | .filter _ p => p.inScope
  | .union l r => l.inScope ++ r.inScope
  | .graph n p => n.variables ++ p.inScope
  | .extend p v _ => v :: p.inScope
  | .minus l _ => l.inScope
  | .values vs _ => vs
  | .orderBy p _ => p.inScope
  | .project _ vs => vs
  | .distinct p => p.inScope
  | .reduced p => p.inScope
  | .slice p _ _ => p.inScope
  | .group _ vs as => vs ++ as.map Aggregate.result
  | .service _ p _ => p.inScope

end GraphStore
