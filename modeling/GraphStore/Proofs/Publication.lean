/-
# `GraphStore.Proofs.Publication` — what a commit publishes

A transaction makes its changes twice: in its own content, and as entries of its log,
which a commit replays on the committed content.

    committed ──start──▶ working₀ ──step──▶ working₁ ──step──▶ working₂
        │                   []                 log₁               log₂
        └──────────────────── replay log₂ ────────────────────────▶ ?

The two cannot drift apart, whatever is changed in whatever order.  Each step changes the content
by a function of the content and records an entry of its own; that the entry stands for this
function is said once, for all steps (`TransactionStep.run_eq_edits`).  An entry is recorded
exactly when the change has an effect, and it has the same effect again where it was
recorded (`Transaction.publish_edit`).  So the replay meets no entry without effect and
ends at `working₂`, lists in the same order (`TransactionStep.publish_runAll`).  Nothing is asked
of the content; it need not even be valid.

`SingleWriter.Event` is what can happen to a store with one writer, and `promised` what
outside readers are promised, told without logs and without working contents of an
open transaction: the committed content, until a commit brings the content to which the
steps of its transaction lead.
-/
import GraphStore.SingleWriter

namespace GraphStore

/-! ## Steps and their entries -/

namespace Transaction

/-- Makes the change that an entry stands for and records it. -/
def edit (tx : Transaction) (e : Edit) : Bool × Transaction := tx.record (e.apply tx.content) e

/-- Makes the changes that entries stand for, in order. -/
def edits (tx : Transaction) (es : List Edit) : Transaction :=
  es.foldl (fun tx e => (tx.edit e).2) tx

end Transaction

namespace TransactionStep

/-- The entries for what a step changes, in the order of the changes. -/
def entries (c : Content) : TransactionStep → List Edit
  | .addToDefault t => [.addedTriple t]
  | .removeFromDefault t => [.removedTriple t]
  | .addToNamed g t => [.addedQuad (t.inGraph (.named g))]
  | .removeFromNamed g t => [.removedQuad (t.inGraph (.named g))]
  | .insertGraph g => [.registered g]
  | .removeGraph g => (c.findNamed g .any).map .removedQuad ++ [.unregistered g]

/-- Every step changes the content as its entries do when they are replayed, and records those of
them that have an effect. -/
theorem run_eq_edits (tx : Transaction) (step : TransactionStep) :
    (step.run tx).2 = tx.edits (step.entries tx.content) := by
  cases step with
  | removeGraph g =>
      rw [entries, Transaction.edits, List.foldl_append, List.foldl_map]
      rfl
  | _ => rfl

end TransactionStep

/-! ## Replaying the log -/

theorem Edit.replay_cons (c : Content) (e : Edit) (log : List Edit) :
    replay c (e :: log) = (e.apply c).bind (replay · log) :=
  List.foldlM_cons

/-- What has been replayed in part goes on from there. -/
theorem Edit.replay_append (c : Content) (log log' : List Edit) :
    replay c (log ++ log') = (replay c log).bind (replay · log') := by
  unfold replay
  rw [List.foldlM_append]
  rfl

/-- A log that has been replayed so far goes on with one more entry. -/
theorem Edit.replay_concat {c c' : Content} {log : List Edit} (h : replay c log = some c')
    (e : Edit) : replay c (log ++ [e]) = e.apply c' := by
  rw [replay_append, h]
  exact bind_pure _

namespace Transaction

variable {committed : Content} {tx : Transaction}

/-- A change and its entry in the log lead to the same content. -/
theorem publish_edit (h : tx.publish committed = some tx.content) (e : Edit) :
    (tx.edit e).2.publish committed = some (tx.edit e).2.content := by
  unfold edit
  cases he : e.apply tx.content with
  | none => exact h
  | some c => exact (Edit.replay_concat h e).trans he

theorem publish_edits (h : tx.publish committed = some tx.content) (es : List Edit) :
    (tx.edits es).publish committed = some (tx.edits es).content := by
  induction es generalizing tx with
  | nil => exact h
  | cons e es ih => exact ih (publish_edit h e)

end Transaction

namespace TransactionStep

open Transaction

variable {committed : Content} {tx : Transaction}

theorem publish_run (h : tx.publish committed = some tx.content) (step : TransactionStep) :
    (step.run tx).2.publish committed = some (step.run tx).2.content := by
  rw [run_eq_edits]
  exact publish_edits h _

theorem publish_runAll (h : tx.publish committed = some tx.content)
    (steps : List TransactionStep) :
    (runAll tx steps).publish committed = some (runAll tx steps).content := by
  induction steps generalizing tx with
  | nil => exact h
  | cons step steps ih => exact ih (publish_run h step)

end TransactionStep

namespace SingleWriter

/-- What happens to a store with one writer. -/
inductive Event where
  /-- A transaction is opened. -/
  | begin
  /-- A change is made in the open transaction. -/
  | step (t : TransactionStep)
  /-- A reader outside of the transaction looks at the store. -/
  | read
  | commit
  | abort
  /-- The open transaction goes out of use without a word. -/
  | drop
deriving DecidableEq, Repr

/-- The store after an event; none if a commit is refused. -/
def handle (s : SingleWriter) : Event → Option SingleWriter
  | .begin => some s.begin
  | .step t => some (s.step t).2
  | .read => some s
  | .commit => s.commit
  | .abort | .drop => some s.abort

/-- The contents that the outside readers see; none if a commit is refused. -/
def seen (s : SingleWriter) : List Event → Option (List Content)
  | [] => some []
  | .read :: events => (s.seen events).map (s.committed :: ·)
  | event :: events => (s.handle event).bind (·.seen events)

/-- Events that can follow each other, with a transaction open at first or without: none is
opened in another one, and changes and the end of a transaction come in an open one. -/
inductive Orderly : Bool → List Event → Prop
  | nil {isOpen : Bool} : Orderly isOpen []
  | read {isOpen : Bool} {events : List Event} :
      Orderly isOpen events → Orderly isOpen (.read :: events)
  | begin {events : List Event} : Orderly true events → Orderly false (.begin :: events)
  | step {t : TransactionStep} {events : List Event} :
      Orderly true events → Orderly true (.step t :: events)
  | commit {events : List Event} : Orderly false events → Orderly true (.commit :: events)
  | abort {events : List Event} : Orderly false events → Orderly true (.abort :: events)
  | drop {events : List Event} : Orderly false events → Orderly true (.drop :: events)

/-- What outside readers are promised if `c` is committed and the steps made so far in the open
transaction are `steps`. -/
def promised (c : Content) (steps : List TransactionStep) : List Event → List Content
  | [] => []
  | .read :: events => c :: promised c steps events
  | .begin :: events | .abort :: events | .drop :: events => promised c [] events
  | .step t :: events => promised c (steps ++ [t]) events
  | .commit :: events => promised (TransactionStep.runAll (.start c) steps).content [] events

/-- The store between two events: `c` is committed, and the transaction has made `steps`. -/
def after (c : Content) (steps : List TransactionStep) (isOpen : Bool) : SingleWriter :=
  ⟨c, if isOpen then some (TransactionStep.runAll (.start c) steps) else none⟩

/-- Outside readers see what they are promised, and no commit is refused. -/
theorem seen_after {isOpen : Bool} {events : List Event} (h : Orderly isOpen events)
    (c : Content) (steps : List TransactionStep) :
    (after c steps isOpen).seen events = some (promised c steps events) := by
  induction h generalizing c steps with
  | nil => rfl
  | read _ ih =>
      rw [seen, ih]
      rfl
  | begin _ ih => exact ih c []
  | @step t events _ ih =>
      have hstep := ih c (steps ++ [t])
      unfold after TransactionStep.runAll at hstep
      rw [List.foldl_append] at hstep
      exact hstep
  | @commit events _ ih =>
      have hpublish : (TransactionStep.runAll (.start c) steps).publish c =
          some (TransactionStep.runAll (.start c) steps).content :=
        TransactionStep.publish_runAll rfl steps
      have hcommit : (after c steps true).commit =
          some (after (TransactionStep.runAll (.start c) steps).content [] false) :=
        congrArg (Option.map fun c' => (⟨c', none⟩ : SingleWriter)) hpublish
      show (after c steps true).commit.bind (·.seen events) = _
      rw [hcommit]
      exact ih _ []
  | abort _ ih => exact ih c []
  | drop _ ih => exact ih c []

/-- A transaction publishes the content it has worked on, whatever it has changed: every entry of
its log has an effect when it is replayed.  So no commit of a store with one writer is refused, and
readers outside see what was committed last, to the order of its lists. -/
theorem commit_publishes_working (c : Content) :
    (∀ steps : List TransactionStep,
      (TransactionStep.runAll (.start c) steps).publish c =
        some (TransactionStep.runAll (.start c) steps).content) ∧
      ∀ events : List Event, Orderly false events →
        (SingleWriter.mk c none).seen events = some (promised c [] events) :=
  ⟨fun steps => TransactionStep.publish_runAll rfl steps, fun _ h => seen_after h c []⟩

/-- A graph that exists through its quad alone is removed and registered anew: readers see the
quad before the commit and after an abort, and the registration after the commit. -/
theorem commit_publishes_working_recreated :
    let g : Resource := .iri ⟨"g"⟩
    let c : Content := { quads := [⟨.iri ⟨"s"⟩, ⟨"p"⟩, .iri ⟨"o"⟩, .named g⟩] }
    let remove : Event := .step (.removeGraph g)
    let register : Event := .step (.insertGraph g)
    let events : List Event := [.begin, register, remove, .read, .abort, .read,
      .begin, remove, register, .read, .commit, .begin, .drop, .read]
    Orderly false events ∧
      (SingleWriter.mk c none).seen events = some [c, c, c, { graphs := [g] }] := by
  intro g c remove register events
  have horderly : Orderly false events := .begin <| .step <| .step <| .read <| .abort <| .read <|
    .begin <| .step <| .step <| .read <| .commit <| .begin <| .drop <| .read .nil
  exact ⟨horderly, (commit_publishes_working c).2 events horderly⟩

end SingleWriter

end GraphStore
