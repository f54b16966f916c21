/-
Evaluation of graph patterns.

A pattern is evaluated once for a list of input bindings and answers all bindings that extend
them; the order of the inputs is kept.  Blank nodes of a pattern are matched like variables.
Paths, MINUS, ORDER BY, grouping and SERVICE are refused.
-/
import GraphStore.Evaluation.Dataset
import GraphStore.Evaluation.Expression

namespace GraphStore

/-- Binds `v` to `t`, unless it is bound to another term. -/
def Binding.unify (b : Binding) (v : Variable) (t : Term) : Option Binding :=
  match b.get? v with
  | some u => if u = t then some b else none
  | none => some (b.insert v t)

/-- The term that a position is fixed to under a binding. -/
def TermPattern.value? (b : Binding) : TermPattern → Option Term
  | .iri i => some (.iri i)
  | .blank n => b.get? n.asVariable
  | .literal l => some (.literal l)
  | .var v => b.get? v

/-- The term that a predicate position is fixed to under a binding. -/
def NamePattern.value? (b : Binding) : NamePattern → Option Term
  | .iri i => some (.iri i)
  | .var v => b.get? v

/-- Matches a position with a term. -/
def TermPattern.unify (p : TermPattern) (t : Term) (b : Binding) : Option Binding :=
  match p with
  | .iri i => if t = .iri i then some b else none
  | .blank n => b.unify n.asVariable t
  | .literal l => if t = .literal l then some b else none
  | .var v => b.unify v t

/-- Matches a predicate position with an IRI. -/
def NamePattern.unify (p : NamePattern) (i : Iri) (b : Binding) : Option Binding :=
  match p with
  | .iri j => if j = i then some b else none
  | .var v => b.unify v (.iri i)

namespace TriplePattern

/-- The lookup key under a binding; there is none if a position is bound to a term that may not
stand there. -/
def key? (t : TriplePattern) (b : Binding) : Option TripleFilter := do
  let s ← (t.subject.value? b).mapM Term.toResource?
  let p ← (t.predicate.value? b).mapM Term.toIri?
  return ⟨s, p, t.object.value? b⟩

/-- Matches all positions with those of a triple. -/
def unify (t : TriplePattern) (u : Triple) (b : Binding) : Option Binding := do
  let b ← t.subject.unify u.subject.toTerm b
  let b ← t.predicate.unify u.predicate b
  t.object.unify u.object b

end TriplePattern

/-- Extends a binding by a row of a table of values. -/
def Binding.unifyRow (b : Binding) (vars : List Variable) (row : List (Option Term)) :
    Option Binding :=
  (vars.zip row).foldlM (fun b cell => match cell.2 with
    | some t => b.unify cell.1 t
    | none => some b) b

/-- Extends a binding by the value of an expression; without a value nothing is bound. -/
def Binding.extend (b : Binding) (v : Variable) (e : Expr) :
    Except EvaluationError (Option Binding) := do
  match ← e.eval b with
  | some t => return b.unify v t
  | none => return some b

namespace Dataset

variable {m : Type → Type} [Monad m] [MonadExcept EvaluationError m]

/-- An outcome as a step of the evaluation. -/
def lift {α : Type} : Except EvaluationError α → m α
  | .ok a => pure a
  | .error e => throw e

/-- The construct that cannot be evaluated. -/
def refuse {α : Type} (p : Pattern) : m α := throw (.unsupported (.pattern p))

/-- The extensions of one binding that match a triple pattern. -/
def matchOne (d : Dataset m) (g : GraphName) (t : TriplePattern) (b : Binding) :
    m (List Binding) :=
  match t.key? b with
  | none => pure []
  | some f => do
    let found ← d.find g f
    return found.filterMap fun q => t.unify q.triple b

/-- The extensions of bindings that match a triple pattern. -/
def matchTriple (d : Dataset m) (g : GraphName) (bs : List Binding) (t : TriplePattern) :
    m (List Binding) := do
  let parts ← bs.mapM (d.matchOne g t)
  return parts.flatten

/-- The bindings that a condition keeps, if there is a condition. -/
def keep (condition : Option Expr) (bs : List Binding) : m (List Binding) :=
  match condition with
  | none => pure bs
  | some e => lift (e.keep bs)

/-- The extensions of the input bindings that match a pattern in a graph. -/
@[simp] def eval (d : Dataset m) : Pattern → GraphName → List Binding → m (List Binding)
  | .bgp triples, g, input => triples.foldlM (d.matchTriple g) input
  | .join l r, g, input => do
    let left ← d.eval l g input
    d.eval r g left
  | .leftJoin l r condition, g, input => do
    let left ← d.eval l g input
    let parts ← left.mapM fun b => do
      let right ← d.eval r g [b]
      let kept ← keep condition right
      return if kept.isEmpty then [b] else kept
    return parts.flatten
  | .filter e p, g, input => do
    let inner ← d.eval p g input
    lift (e.keep inner)
  | .union l r, g, input => do
    let left ← d.eval l g input
    let right ← d.eval r g input
    return left ++ right
  | .graph (.iri i) p, _, input => d.eval p i.graph input
  | .graph (.var v) p, _, input => do
    let names ← d.namedGraphs
    let parts ← names.mapM fun n =>
      let seeds := input.filterMap (·.unify v n.toTerm)
      if seeds.isEmpty then pure [] else d.eval p (.named n) seeds
    return parts.flatten
  | .extend p v e, g, input => do
    let inner ← d.eval p g input
    let extended ← lift (inner.mapM (·.extend v e))
    return extended.filterMap id
  | .values vars rows, _, input =>
    pure (input.flatMap fun b => rows.filterMap (b.unifyRow vars))
  | .project p vars, g, input => do
    let inner ← d.eval p g [Binding.empty]
    let projected := inner.map (·.project vars)
    return input.flatMap fun b => projected.filterMap b.merge?
  | .distinct p, g, input => do
    let inner ← d.eval p g input
    return inner.eraseDups
  | .reduced p, g, input => do
    let inner ← d.eval p g input
    return inner.eraseDups
  | .slice p start length, g, input => do
    let inner ← d.eval p g input
    let rest := inner.drop start
    return length.elim rest rest.take
  | .path s p o, _, _ => refuse (.path s p o)
  | .minus l r, _, _ => refuse (.minus l r)
  | .orderBy p keys, _, _ => refuse (.orderBy p keys)
  | .group p vars aggregates, _, _ => refuse (.group p vars aggregates)
  | .service n p silent, _, _ => refuse (.service n p silent)

end Dataset

/-- The solutions of a pattern that extend the input binding. -/
def Pattern.solutions {m : Type → Type} [Monad m] [MonadExcept EvaluationError m]
    (reader : Reader m) (p : Pattern) (scope : Option Using) (input : Option Binding) :
    m (List Binding) :=
  Dataset.eval ⟨reader, scope⟩ p .default [input.getD .empty]

end GraphStore
