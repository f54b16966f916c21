/-
# `GraphStore.Proofs.Looks` — steps that change nothing but the journal

An evaluator is handed the lookups of the open transaction and nothing else.  So
it can note what it was asked, and its store calls are counted, but it changes
neither the transaction nor what the running operation has noted.

`x.Looks` says so of any steps, whether they succeed or fail.  The lookups of the
transaction look, a restricted reader looks if the reader below it does, and the
evaluator that scans the dataset looks over every reader that does: looking is kept
by answering, failing and going on (`uniform_looks`).
-/
import GraphStore.Proofs.Batch
import GraphStore.Proofs.Uniform

namespace GraphStore

namespace BatchM

variable {ε δ α β : Type}

/-- The steps change nothing but the journal, however they come out. -/
def Looks (x : BatchM ε α) : Prop :=
  ∀ b, ∃ j, (x.run b).2 = { b with journal := j }

theorem Looks.ends {x : BatchM ε α} (hx : x.Looks) {b b' : Batch} {a : α} (h : Ends x b a b') :
    ∃ j, b' = { b with journal := j } := by
  obtain ⟨j, hj⟩ := hx b
  rw [show x.run b = (.ok a, b') from h] at hj
  exact ⟨j, hj⟩

theorem looks_pure (a : α) : Looks (pure a : BatchM ε α) := fun b => ⟨b.journal, rfl⟩

theorem looks_throw (e : ε) : Looks (throw e : BatchM ε α) := fun b => ⟨b.journal, rfl⟩

theorem Looks.bind {x : BatchM ε α} {f : α → BatchM ε β} (hx : x.Looks)
    (hf : ∀ a, (f a).Looks) : (x >>= f).Looks := by
  refine Leads.bind (Q := fun b b' => ∃ j, b' = { b with journal := j }) ?_ hx hf
  rintro b b₁ b₂ ⟨j, rfl⟩ h
  exact h

theorem Looks.mapError {x : BatchM ε α} (hx : x.Looks) (f : ε → δ) : (mapError f x).Looks :=
  hx

/-- A store call that leaves the transaction as it is. -/
theorem looks_call (faults : Faults) (kind : CallKind) (read : Transaction → α) :
    Looks (call faults kind fun tx => (read tx, tx)) := by
  intro b
  rw [run_call]
  cases b.journal.call faults kind with
  | mk outcome j => cases outcome <;> exact ⟨j, rfl⟩

end BatchM

/-! ## Readers and evaluators that only look -/

/-- Every lookup only looks. -/
structure Reader.Looks {ε : Type} (r : Reader (BatchM ε)) : Prop where
  findDefault : ∀ f, (r.findDefault f).Looks
  findNamed : ∀ g f, (r.findNamed g f).Looks
  findAnyNamed : ∀ f, (r.findAnyNamed f).Looks
  namedGraphs : r.namedGraphs.Looks
  containsGraph : ∀ g, (r.containsGraph g).Looks

/-- Over a reader that only looks, the evaluator only looks: it can reach the open transaction in
no other way. -/
def Evaluator.Looks (e : Evaluator) : Prop :=
  ∀ r : Reader (BatchM EvaluationError), r.Looks →
    ∀ p scope input, (e.run r p scope input).Looks

/-- Looking, as a relation of steps with themselves. -/
theorem uniform_looks : Uniform (m := BatchM EvaluationError) (n := BatchM EvaluationError)
    fun _ x _ => x.Looks where
  pure a := BatchM.looks_pure a
  throw e := BatchM.looks_throw e
  bind hx hf := hx.bind hf

namespace Reader

/-- The lookups of the open transaction only look. -/
theorem looks_reader {ε : Type} (faults : Faults) (f : StorageError → ε) :
    (BatchM.reader faults f).Looks where
  findDefault _ := (BatchM.looks_call faults .read _).mapError f
  findNamed _ _ := (BatchM.looks_call faults .read _).mapError f
  findAnyNamed _ := (BatchM.looks_call faults .read _).mapError f
  namedGraphs := (BatchM.looks_call faults .graphs _).mapError f
  containsGraph _ := (BatchM.looks_call faults .graphs _).mapError f

theorem Looks.find {ε : Type} {r : Reader (BatchM ε)} (hr : r.Looks) (g : Option GraphName)
    (f : TripleFilter) : (r.find g f).Looks := by
  match g with
  | none =>
      exact (hr.findDefault f).bind fun _ => (hr.findAnyNamed f).bind fun _ => BatchM.looks_pure _
  | some .default => exact hr.findDefault f
  | some (.named g) => exact hr.findNamed g f

variable {r : Reader (BatchM EvaluationError)}

theorem looks_iff : r.Looks ↔ Related (fun _ x _ => x.Looks) r r := by
  constructor
  · intro h
    exact ⟨h.findDefault, h.findNamed, h.findAnyNamed, h.namedGraphs, h.containsGraph⟩
  · intro h
    exact ⟨h.findDefault, h.findNamed, h.findAnyNamed, h.namedGraphs, h.containsGraph⟩

theorem Looks.restrict (hr : r.Looks) (policy : Policy) (user : User) :
    (r.restrict policy user).Looks :=
  looks_iff.mpr (uniform_looks.restrict (looks_iff.mp hr) policy user)

end Reader

namespace Evaluator

theorem looks_scanning : scanning.Looks := by
  intro r hr p scope input
  exact uniform_looks.eval (uniform_looks.dataset (Reader.looks_iff.mp hr) scope) p .default _

theorem looks_scripted (bindings : List Binding) (error : Option EvaluationError) :
    (scripted bindings error).Looks := by
  intro r hr p scope input
  refine (hr.find none .any).bind fun visible => ?_
  refine BatchM.Looks.bind (fun b => ⟨_, rfl⟩) fun _ => ?_
  cases error with
  | some e => exact BatchM.looks_throw e
  | none => exact BatchM.looks_pure bindings

end Evaluator

end GraphStore
