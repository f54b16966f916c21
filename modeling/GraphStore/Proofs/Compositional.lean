/-
# `GraphStore.Proofs.Compositional` — what operations have because their steps have it

An operation puts questions to the policy, looks at the store, changes it and notes what
it has changed.  All else is sequencing:

    transfer   check ─ check ─ check ─▶ containsGraph ─▶ copyQuads ─▶ clearGraph ─▶ …
    copyQuads                              quadsOf ─ quadsOf ─ remove ─ … ─ insert ─ …
    insert                                                        write ─ note

`Compositional env P` says that `P` is kept by sequencing and holds of these few steps.
It then holds of everything that is composed of them, by one lemma for each composed step.  A
property that fails of questions, because the policy may refuse one, can still hold of the
others (`Handling env P`), and of what an operation does behind its questions.

The properties it is made for speak of every run, also of those that fail: that steps
cannot fail, that they do nothing to the store but what a transaction offers, that they
do not depend on the log.
-/
import GraphStore.Proofs.Entitlement
import GraphStore.SingleWriter

namespace GraphStore

theorem TransactionStep.run_insert (tx : Transaction) (q : Quad) :
    (insert q).run tx = tx.insert q := by
  unfold insert Transaction.insert
  cases q.graph <;> rfl

theorem TransactionStep.run_remove (tx : Transaction) (q : Quad) :
    (remove q).run tx = tx.remove q := by
  unfold remove Transaction.remove
  cases q.graph <;> rfl

namespace Step

open BatchM

variable {env : Environment} {user : User} {kind : AccessKind} {g : GraphName}

/-- A property that sequencing keeps, and that holds of looking at the store, changing it and
noting what has changed. -/
structure Handling (env : Environment) (P : (α : Type) → Step α → Prop) : Prop where
  pure : ∀ {α : Type} (a : α), P α (pure a)
  bind : ∀ {α β : Type} {x : Step α} {f : α → Step β}, P α x → (∀ a, P β (f a)) → P β (x >>= f)
  quadsOf : ∀ g, P _ (quadsOf env g)
  containsGraph : ∀ g, P _ ((reader env).containsGraph g)
  namedGraphs : P _ (reader env).namedGraphs
  change : ∀ step : TransactionStep, P _ (write env fun tx => step.run tx)
  noteInserted : ∀ q, P _ (modify fun b => { b with inserted := b.inserted ++ [q] })
  noteDeleted : ∀ q, P _ (modify fun b => { b with deleted := b.deleted ++ [q] })

/-- It holds of questions to the policy too, and so of all steps that operations are made of. -/
structure Compositional (env : Environment) (P : (α : Type) → Step α → Prop) : Prop
    extends Handling env P where
  check : ∀ user kind g, P _ (check env user kind g)

namespace Handling

variable {env : Environment} {P : (α : Type) → Step α → Prop} (hP : Handling env P)

include hP

theorem forM {α : Type} {f : α → Step PUnit} (hf : ∀ a, P _ (f a)) (xs : List α) :
    P _ (xs.forM f) := by
  induction xs with
  | nil => exact hP.pure ()
  | cons x xs ih => exact hP.bind (hf x) fun _ => ih

theorem insert (q : Quad) : P _ (Step.insert env q) := by
  have hwrite := hP.change (.insert q)
  simp only [TransactionStep.run_insert] at hwrite
  refine hP.bind hwrite fun changed => ?_
  cases changed with
  | true => exact hP.noteInserted q
  | false => exact hP.pure ()

theorem remove (q : Quad) : P _ (Step.remove env q) := by
  have hwrite := hP.change (.remove q)
  simp only [TransactionStep.run_remove] at hwrite
  refine hP.bind hwrite fun changed => ?_
  cases changed with
  | true => exact hP.noteDeleted q
  | false => exact hP.pure ()

theorem clearGraph (g : GraphName) : P _ (Step.clearGraph env g) :=
  hP.bind (hP.quadsOf g) fun quads => hP.forM hP.remove quads

theorem insertGraph (g : Resource) : P _ (Step.insertGraph env g) :=
  hP.bind (hP.change (.insertGraph g)) fun _ => hP.pure ()

theorem removeGraph (g : GraphName) : P _ (Step.removeGraph env g) := by
  cases g with
  | default => exact hP.pure ()
  | named g => exact hP.bind (hP.change (.removeGraph g)) fun _ => hP.pure ()

/-- What DROP and CLEAR do once they may. -/
theorem removeEach (action : GraphAction) (graphs : List GraphName) :
    P _ (graphs.forM fun g => do
      Step.clearGraph env g
      if action = .drop then Step.removeGraph env g) := by
  refine hP.forM (fun g => hP.bind (hP.clearGraph g) fun _ => ?_) graphs
  split
  · exact hP.removeGraph g
  · exact hP.pure ()

theorem fill (quads : List Quad) (destination : GraphName) :
    P _ (Step.fill env quads destination) := by
  have hinserts : P _ (quads.forM fun q => Step.insert env (q.triple.inGraph destination)) :=
    hP.forM (fun q => hP.insert _) quads
  unfold Step.fill
  cases quads.isEmpty with
  | false => exact hinserts
  | true =>
      cases destination with
      | default => exact hinserts
      | named g => exact hP.bind (hP.insertGraph g) fun _ => hinserts

theorem copyQuads (action : GraphAction) (source destination : GraphName) :
    P _ (Step.copyQuads env action source destination) := by
  refine hP.bind (hP.quadsOf source) fun quads => ?_
  by_cases hadd : action = .add
  · rw [if_neg (not_not_intro hadd)]
    exact hP.fill quads destination
  · rw [if_pos hadd]
    refine hP.bind (hP.quadsOf destination) fun old => ?_
    exact hP.bind (hP.forM hP.remove _) fun _ => hP.fill quads destination

theorem absent? (g : GraphName) : P _ (Step.absent? env g) := by
  cases g with
  | default => exact hP.pure none
  | named g => exact hP.bind (hP.containsGraph g) fun _ => hP.pure _

/-- What a transfer does once its source is known to exist. -/
theorem transferQuads (action : GraphAction) (source destination : GraphName) :
    P _ (do
      Step.copyQuads env action source destination
      if action = .move then
        Step.clearGraph env source
        Step.removeGraph env source) := by
  refine hP.bind (hP.copyQuads action source destination) fun _ => ?_
  split
  · exact hP.bind (hP.clearGraph source) fun _ => hP.removeGraph source
  · exact hP.pure ()

end Handling

/-! ## Questions -/

namespace Compositional

variable {env : Environment} {P : (α : Type) → Step α → Prop} (hP : Compositional env P)

include hP

theorem checks {α : Type} (user : User) (kind : α → AccessKind) (g : α → GraphName)
    (xs : List α) : P _ (xs.forM fun x => Step.check env user (kind x) (g x)) :=
  hP.forM (fun x => hP.check user (kind x) (g x)) xs

theorem removeAll (user : User) (action : GraphAction) (graphs : List GraphName) :
    P _ (Step.removeAll env user action graphs) :=
  hP.bind (hP.checks user (fun _ => removalKind action) id graphs) fun _ =>
    hP.removeEach action graphs

end Compositional

end Step

end GraphStore
