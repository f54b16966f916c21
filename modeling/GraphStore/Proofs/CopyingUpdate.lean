/-
# `GraphStore.Proofs.CopyingUpdate` — copying a graph by a pattern

    INSERT { GRAPH <d> { ?s ?p ?o } } WHERE { GRAPH <c> { ?s ?p ?o } }

Evaluating the pattern on an input that leaves the three variables open finds every triple
of the source, in the order in which the store holds them (`solutions_allOf`).  Each
solution instantiates the template to the triple it came from, whatever stands in it: data
cannot be mistaken for variables, and the template has no blank nodes to renew
(`instance_withTriple`).  A valid content holds nothing twice, so removing repetitions
removes nothing, and the update attempts exactly the insertions that ADD attempts
(`exists_modify_copying`).
-/
import GraphStore.Proofs.Effects
import GraphStore.Proofs.Rewriting
import GraphStore.Proofs.Solving

namespace GraphStore

/-! ## Solutions -/

namespace Binding

/-- No variable of the copying pattern is bound. -/
def LeavesTripleOpen (b : Binding) : Prop :=
  b.get? ⟨"s"⟩ = none ∧ b.get? ⟨"p"⟩ = none ∧ b.get? ⟨"o"⟩ = none

/-- Binds the variables of the copying pattern to the terms of a triple. -/
def withTriple (b : Binding) (t : Triple) : Binding :=
  ((b.insert ⟨"s"⟩ t.subject.toTerm).insert ⟨"p"⟩ (.iri t.predicate)).insert ⟨"o"⟩ t.object

variable {b : Binding} {t : Triple}

theorem get?_withTriple_subject : (b.withTriple t).get? ⟨"s"⟩ = some t.subject.toTerm := by
  simp [withTriple, get?_insert]

theorem get?_withTriple_predicate : (b.withTriple t).get? ⟨"p"⟩ = some (.iri t.predicate) := by
  simp [withTriple, get?_insert]

theorem get?_withTriple_object : (b.withTriple t).get? ⟨"o"⟩ = some t.object := by
  simp [withTriple, get?_insert]

theorem key?_anyTriple (hb : b.LeavesTripleOpen) : Request.anyTriple.key? b = some .any := by
  obtain ⟨hs, hp, ho⟩ := hb
  simp [Request.anyTriple, TriplePattern.key?, TermPattern.value?, NamePattern.value?, hs, hp, ho,
    TripleFilter.any]

theorem unify_anyTriple (hb : b.LeavesTripleOpen) (t : Triple) :
    Request.anyTriple.unify t b = some (b.withTriple t) := by
  obtain ⟨hs, hp, ho⟩ := hb
  simp [Request.anyTriple, TriplePattern.unify, TermPattern.unify, NamePattern.unify, unify,
    get?_insert, hs, hp, ho, withTriple]

end Binding

/-- The solutions of the copying pattern are the triples of the source, in order. -/
theorem solutions_allOf {m : Type → Type} [Monad m] [LawfulMonad m]
    [MonadExcept EvaluationError m] (r : Reader m) (source : GraphRef) {input : Option Binding}
    (hinput : (input.getD .empty).LeavesTripleOpen) :
    (Request.allOf source.pattern).solutions r none input = (do
      let found ← r.find (some source.name) .any
      return found.map fun q => (input.getD .empty).withTriple q.triple) := by
  have hmatch : ∀ g : GraphName,
      Dataset.eval ⟨r, none⟩ (.bgp [Request.anyTriple]) g [input.getD .empty] = (do
        let found ← r.find (some g) .any
        return found.map fun q => (input.getD .empty).withTriple q.triple) := by
    intro g
    have hfind : Dataset.find (⟨r, none⟩ : Dataset m) g .any = r.find (some g) .any := by
      cases g <;> rfl
    simp [Dataset.matchTriple, Dataset.matchOne, Binding.key?_anyTriple hinput, hfind,
      Binding.unify_anyTriple hinput]
  cases source with
  | default => exact hmatch .default
  | iri i => exact hmatch i.graph

/-! ## Instances -/

theorem instance_withTriple (node : BlankNode → Option BlankNode) (b : Binding) (t : Triple)
    (g : GraphRef) : g.template.instance? node (b.withTriple t) = some (t.inGraph g.name) := by
  have hgraph : g.pattern.instance? (b.withTriple t) = some g.name := by cases g <;> rfl
  simp [GraphRef.template, QuadPattern.instance?, TermPattern.instance?, NamePattern.instance?,
    Binding.get?_withTriple_subject, Binding.get?_withTriple_predicate,
    Binding.get?_withTriple_object, hgraph, Term.toIri?, Triple.inGraph]

/-- The solutions ask for the copies of the triples that they come from. -/
theorem insertions_copying {c : Content} (hc : c.Valid) (source : GraphName)
    (destination : GraphRef) (start : Nat) (b : Binding) :
    Step.insertions start [destination.template]
        ((c.within source).map fun q => b.withTriple q.triple) =
      c.copies source destination.name := by
  have hall : ∀ (qs : List Quad) (k : Nat),
      (((qs.map fun q => b.withTriple q.triple).zipIdx k).flatMap fun p =>
        [destination.template].filterMap (QuadPattern.insertion?
          (start + p.2 * (templateBlanks [destination.template]).length)
          (templateBlanks [destination.template]) p.1)) =
      qs.map fun q => q.triple.inGraph destination.name := by
    intro qs
    induction qs with
    | nil => exact fun _ => rfl
    | cons q qs ih =>
        intro k
        rw [List.map_cons, List.zipIdx_cons, List.flatMap_cons, ih, List.map_cons]
        simp [QuadPattern.insertion?, instance_withTriple]
  unfold Step.insertions
  refine (congrArg List.eraseDups (hall (c.within source) 0)).trans ?_
  exact eraseDups_eq_self (Content.nodup_copies hc source destination.name)

namespace Step

open BatchM

variable {env : Environment} {user : User} {b b' : Batch}

theorem deletions_nil (solutions : List Binding) : deletions [] solutions = [] := by
  induction solutions with
  | nil => rfl
  | cons b solutions ih => exact ih

theorem solves_copying (henv : env.Unhindered) (hscan : env.evaluator = .scanning) {m : Modify}
    {source : GraphRef} (hpattern : m.pattern = Request.allOf source.pattern)
    (hscope : m.scope = none) {input : Option Binding} (hm : m.input = none)
    (hinput : (input.getD .empty).LeavesTripleOpen) (c : Content) :
    env.Solves user m input c
      ((c.within source.name).map fun q => (input.getD .empty).withTriple q.triple) := by
  refine solves_scanning henv.faultless hscan ?_
  rw [c.restrict_of_permits fun g => henv.permits .query g user, hpattern, hscope, hm]
  refine (solutions_allOf c.reader source hinput).trans ?_
  cases source <;> rfl

/-- The copying update attempts to put the triples of the source into the destination, in their
order, and nothing else. -/
theorem exists_modify_copying (henv : env.Unhindered) (hscan : env.evaluator = .scanning)
    (t : Transfer) {input : Option Binding} (hinput : (input.getD .empty).LeavesTripleOpen)
    {b : Batch} (hb : b.tx.content.Valid) :
    ∃ b', Ends (action env user input t.copying.action) b () b' ∧
      b'.ledger = b.ledger.attemptAll
        ((b.tx.content.copies t.source.name t.destination.name).map .insert) := by
  let m : Modify := {
    delete := [], insert := [t.destination.template], pattern := Request.allOf t.source.pattern }
  have hsolve : env.Solves user m input b.tx.content _ :=
    solves_copying henv hscan rfl rfl rfl hinput b.tx.content
  have hvetted := henv.vetted b user
  obtain ⟨b', hmodify⟩ := exists_ends_modifyQuads hsolve hvetted henv.faultless
    (henv.allowed m user _ _)
  refine ⟨b', hmodify, ?_⟩
  obtain ⟨-, hledger⟩ := ends_modifyQuads_solved hsolve hvetted hmodify
  rw [hledger, deletions_nil, insertions_copying hb]
  rfl

end Step

end GraphStore
