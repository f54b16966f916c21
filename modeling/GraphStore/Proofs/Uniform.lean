/-
# `GraphStore.Proofs.Uniform` — an evaluation knows its monad by three operations

The evaluator runs in any monad that can answer, go on and fail.  It cannot look into
the steps that the lookups are made of, so whatever relates the lookups of two datasets
relates the two evaluations, in one monad or in two:

    lookups  d.find g f      R   d'.find g f
             d.namedGraphs   R   d'.namedGraphs
    ─────────────────────────────────────────────
             d.eval p g bs   R   d'.eval p g bs

`Uniform R` lists the three operations that `R` has to be kept by.  The induction on
the pattern is made here once (`Uniform.eval`), with one case for each form; with `R` an
equation it says that an evaluation depends on the lookups alone, and with `R` a property of
one side that the evaluator has the property if its reader does.
-/
import GraphStore.Evaluation.Solutions

namespace GraphStore

variable {m n : Type → Type} [Monad m] [Monad n] [MonadExcept EvaluationError m]
  [MonadExcept EvaluationError n]

/-- A relation between steps that is kept by answering, failing and going on. -/
structure Uniform (R : (α : Type) → m α → n α → Prop) : Prop where
  pure : ∀ {α : Type} (a : α), R α (pure a) (pure a)
  throw : ∀ {α : Type} (e : EvaluationError), R α (throw e) (throw e)
  bind : ∀ {α β : Type} {x : m α} {y : n α} {f : α → m β} {g : α → n β},
    R α x y → (∀ a, R β (f a) (g a)) → R β (x >>= f) (y >>= g)

/-- The lookups of two readers are related. -/
structure Reader.Related (R : (α : Type) → m α → n α → Prop) (r : Reader m) (r' : Reader n) :
    Prop where
  findDefault : ∀ f, R _ (r.findDefault f) (r'.findDefault f)
  findNamed : ∀ g f, R _ (r.findNamed g f) (r'.findNamed g f)
  findAnyNamed : ∀ f, R _ (r.findAnyNamed f) (r'.findAnyNamed f)
  namedGraphs : R _ r.namedGraphs r'.namedGraphs
  containsGraph : ∀ g, R _ (r.containsGraph g) (r'.containsGraph g)

/-- The lookups that a pattern is evaluated by are related. -/
structure Dataset.Related (R : (α : Type) → m α → n α → Prop) (d : Dataset m) (d' : Dataset n) :
    Prop where
  find : ∀ g f, R _ (d.find g f) (d'.find g f)
  namedGraphs : R _ d.namedGraphs d'.namedGraphs

namespace Uniform

variable {R : (α : Type) → m α → n α → Prop} (hR : Uniform R)

include hR

/-! ## Steps over lists -/

theorem mapM {α β : Type} {f : α → m β} {g : α → n β} (h : ∀ a, R β (f a) (g a))
    (xs : List α) : R _ (xs.mapM f) (xs.mapM g) := by
  have hloop : ∀ (xs : List α) (done : List β),
      R _ (List.mapM.loop f xs done) (List.mapM.loop g xs done) := by
    intro xs
    induction xs with
    | nil =>
        intro done
        exact hR.pure done.reverse
    | cons x xs ih =>
        intro done
        exact hR.bind (h x) fun b => ih (b :: done)
  exact hloop xs []

theorem foldlM {α β : Type} {f : β → α → m β} {g : β → α → n β}
    (h : ∀ s a, R β (f s a) (g s a)) (xs : List α) (s : β) :
    R β (xs.foldlM f s) (xs.foldlM g s) := by
  induction xs generalizing s with
  | nil => exact hR.pure s
  | cons x xs ih => exact hR.bind (h s x) fun s' => ih s'

/-! ## Readers and datasets -/

theorem find {r : Reader m} {r' : Reader n} (hr : Reader.Related R r r') (g : Option GraphName)
    (f : TripleFilter) : R _ (r.find g f) (r'.find g f) := by
  match g with
  | none =>
      refine hR.bind (hr.findDefault f) fun _ => ?_
      exact hR.bind (hr.findAnyNamed f) fun _ => hR.pure _
  | some .default => exact hr.findDefault f
  | some (.named g) => exact hr.findNamed g f

theorem restrict {r : Reader m} {r' : Reader n} (hr : Reader.Related R r r') (policy : Policy)
    (user : User) : Reader.Related R (r.restrict policy user) (r'.restrict policy user) where
  findDefault f := by
    show R _ (if _ then _ else _) (if _ then _ else _)
    split
    · exact hr.findDefault f
    · exact hR.pure []
  findNamed g f := by
    show R _ (if _ then _ else _) (if _ then _ else _)
    split
    · exact hr.findNamed g f
    · exact hR.pure []
  findAnyNamed f := hR.bind (hr.findAnyNamed f) fun _ => hR.pure _
  namedGraphs := hR.bind hr.namedGraphs fun _ => hR.pure _
  containsGraph g := by
    show R _ (if _ then _ else _) (if _ then _ else _)
    split
    · exact hr.containsGraph g
    · exact hR.pure false

theorem dataset {r : Reader m} {r' : Reader n} (hr : Reader.Related R r r')
    (scope : Option Using) : Dataset.Related R ⟨r, scope⟩ ⟨r', scope⟩ where
  find g f := by
    cases g with
    | default =>
        cases scope with
        | none => exact hr.findDefault f
        | some u =>
            refine hR.bind (hR.mapM (fun i => ?_) u.default) fun _ => hR.pure _
            exact hR.find hr (some i.graph) f
    | named g =>
        -- what is seen depends on the list, not on the reader
        show R _ (if (⟨r, scope⟩ : Dataset m).sees g then _ else _)
          (if (⟨r, scope⟩ : Dataset m).sees g then _ else _)
        split
        · exact hr.findNamed g f
        · exact hR.pure []
  namedGraphs := by
    cases scope with
    | none => exact hr.namedGraphs
    | some u => exact hR.pure _

/-! ## The evaluation -/

theorem lift {α : Type} (r : Except EvaluationError α) :
    R α (Dataset.lift r) (Dataset.lift r) := by
  cases r with
  | ok a => exact hR.pure a
  | error e => exact hR.throw e

theorem keep (condition : Option Expr) (bs : List Binding) :
    R _ (Dataset.keep condition bs) (Dataset.keep condition bs) := by
  cases condition with
  | none => exact hR.pure bs
  | some e => exact hR.lift _

variable {d : Dataset m} {d' : Dataset n} (hd : Dataset.Related R d d')

include hd

theorem matchTriple (g : GraphName) (bs : List Binding) (t : TriplePattern) :
    R _ (d.matchTriple g bs t) (d'.matchTriple g bs t) := by
  refine hR.bind (hR.mapM (fun b => ?_) bs) fun _ => hR.pure _
  unfold Dataset.matchOne
  cases t.key? b with
  | none => exact hR.pure []
  | some f => exact hR.bind (hd.find g f) fun _ => hR.pure _

/-- Related lookups make related evaluations. -/
theorem eval : ∀ (p : Pattern) (g : GraphName) (input : List Binding),
    R _ (d.eval p g input) (d'.eval p g input)
  | .bgp triples, g, input => by
      simp only [Dataset.eval]
      exact hR.foldlM (fun bs t => hR.matchTriple hd g bs t) triples input
  | .join l r, g, input => by
      simp only [Dataset.eval]
      exact hR.bind (eval l g input) fun left => eval r g left
  | .leftJoin l r condition, g, input => by
      simp only [Dataset.eval]
      refine hR.bind (eval l g input) fun left => ?_
      refine hR.bind (hR.mapM (fun b => ?_) left) fun _ => hR.pure _
      refine hR.bind (eval r g [b]) fun right => ?_
      exact hR.bind (hR.keep condition right) fun _ => hR.pure _
  | .filter e p, g, input => by
      simp only [Dataset.eval]
      exact hR.bind (eval p g input) fun inner => hR.lift _
  | .union l r, g, input => by
      simp only [Dataset.eval]
      refine hR.bind (eval l g input) fun _ => ?_
      exact hR.bind (eval r g input) fun _ => hR.pure _
  | .graph (.iri i) p, _, input => by
      simp only [Dataset.eval]
      exact eval p i.graph input
  | .graph (.var v) p, _, input => by
      simp only [Dataset.eval]
      refine hR.bind hd.namedGraphs fun names => ?_
      refine hR.bind (hR.mapM (fun n => ?_) names) fun _ => hR.pure _
      split
      · exact hR.pure []
      · exact eval p (.named n) _
  | .extend p v e, g, input => by
      simp only [Dataset.eval]
      refine hR.bind (eval p g input) fun _ => ?_
      exact hR.bind (hR.lift _) fun _ => hR.pure _
  | .values vars rows, _, input => by
      simp only [Dataset.eval]
      exact hR.pure _
  | .project p vars, g, input => by
      simp only [Dataset.eval]
      exact hR.bind (eval p g [Binding.empty]) fun _ => hR.pure _
  | .distinct p, g, input => by
      simp only [Dataset.eval]
      exact hR.bind (eval p g input) fun _ => hR.pure _
  | .reduced p, g, input => by
      simp only [Dataset.eval]
      exact hR.bind (eval p g input) fun _ => hR.pure _
  | .slice p start length, g, input => by
      simp only [Dataset.eval]
      exact hR.bind (eval p g input) fun _ => hR.pure _
  | .path .., _, _ | .minus .., _, _ | .orderBy .., _, _ | .group .., _, _
  | .service .., _, _ => by
      simp only [Dataset.eval]
      exact hR.throw _

end Uniform

end GraphStore
