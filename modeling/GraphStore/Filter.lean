/-
Triple filters: each position is fixed to a term or left open.  An open position matches any
term; filters exist only for lookup and are never stored.
-/
import GraphStore.Term.Text

namespace GraphStore

/-- A lookup key for triples. -/
structure TripleFilter where
  subject : Option Resource := none
  predicate : Option Iri := none
  object : Option Term := none
deriving DecidableEq, Inhabited, Repr

namespace TripleFilter

/-- The filter that matches every triple. -/
def any : TripleFilter := {}

/-- The filter that matches one triple only. -/
def exactly (t : Triple) : TripleFilter := ⟨some t.subject, some t.predicate, some t.object⟩

/-- No position is fixed. -/
def isAny (f : TripleFilter) : Bool := f.subject.isNone && f.predicate.isNone && f.object.isNone

/-- Every fixed position equals the term of the triple. -/
def accepts (f : TripleFilter) (t : Triple) : Bool :=
  f.subject.all (· == t.subject) && f.predicate.all (· == t.predicate) &&
    f.object.all (· == t.object)

@[simp] theorem accepts_any (t : Triple) : any.accepts t = true := rfl

theorem accepts_exactly (t u : Triple) : (exactly t).accepts u = true ↔ t = u := by
  cases t; cases u
  simp [exactly, accepts, and_assoc]

/-- The filter as text, an open position as a star. -/
def render (f : TripleFilter) : String :=
  f.subject.elim "*" Resource.render ++ " " ++ f.predicate.elim "*" Iri.render ++ " " ++
    f.object.elim "*" Term.render

end TripleFilter

end GraphStore
