/-
# `GraphStore.Proofs.Alone` — an operation that is executed alone

A batch of one operation opens a transaction, runs the action of the operation in a batch that
has passed and noted nothing (`Step.next`), and publishes what the action leaves.

    s ──begin──▶ opened ──▶ next ──acting──▶ b ──commit──▶ content of b, answer of its ledger

So what is known of the action on the batch `next` is known of the execution: if it succeeds
there the operation is executed (`execute_one_of_ends`), and it is executed only then
(`ends_of_execute_one`).  The evaluator has to be one that only looks, since it could reach the
open transaction.  An operation without a pattern hands nothing to the evaluator.  What it
answers and publishes is what its writes come to (`execute_patternless_eq_ok`).
-/
import GraphStore.Proofs.Atomicity
import GraphStore.Proofs.Attempts

namespace GraphStore

/-- The ledger of a transaction that has been opened on a content. -/
def Ledger.start (c : Content) : Ledger := ⟨c, [], [], []⟩

/-- The ledger that an action without a pattern leaves when it is executed alone. -/
def Action.outcome (c : Content) (a : Action) : Ledger := (Ledger.start c).attemptAll (a.writes c)

theorem Action.withScope_of_patternless {a : Action} (ha : a.Patternless) (scope : Option Using) :
    a.withScope scope = a := by
  cases a with
  | modify m => exact ha.elim
  | create _ _ | graph _ | insertData _ | deleteData _ => rfl

namespace Step

open BatchM

variable {env : Environment}

/-- A batch of one operation answers once. -/
theorem run_operations_singleton (call : BatchCall) (op : Operation) (b : Batch) :
    (operations env call [.ok op]).run b =
      (((item env call (.ok op)).run b).1.map ([·]), ((item env call (.ok op)).run b).2) := by
  rw [operations_cons, run_bind]
  cases (item env call (.ok op)).run b with
  | mk r b' => cases r <;> rfl

/-- What a batch runs for an operation. -/
def acting (env : Environment) (call : BatchCall) (op : Operation) : Step Unit :=
  action env (op.user.getD (call.user.getD env.options.defaultUser)) call.input
    (op.action.withScope call.scope)

/-- The batch in which the action of the next operation begins. -/
def next (b : Batch) : Batch :=
  begun { b with journal := { b.journal with pulled := b.journal.pulled + 1 } }

/-- A batch of one operation does what the operation does, and answers its changes. -/
theorem run_operations_one (call : BatchCall) (op : Operation) (b : Batch) :
    (operations env call [.ok op]).run b =
      (((acting env call op).run (next b)).1.map fun _ =>
          [answer env ((acting env call op).run (next b)).2.ledger],
        ((acting env call op).run (next b)).2) := by
  have hitem : (item env call (.ok op)).run b = answered env ((acting env call op).run (next b)) :=
    run_operation call.input (inScope call op) _
  rw [run_operations_singleton, hitem]
  unfold answered
  cases (acting env call op).run (next b) with
  | mk r b' => cases r <;> rfl

theorem vetted_next (policy : Policy) (user : User) (b : Batch) : (next b).Vetted policy user :=
  fun _ hmem => absurd hmem List.not_mem_nil

theorem acting_of_patternless {op : Operation} (hop : op.action.Patternless) (call : BatchCall) :
    acting env call op = action env (op.user.getD (call.user.getD env.options.defaultUser))
      call.input op.action := by
  rw [acting, Action.withScope_of_patternless hop]

/-- An action without a pattern hands nothing to the evaluator. -/
theorem acting_with_evaluator {op : Operation} (hop : op.action.Patternless) (call : BatchCall)
    (e : Evaluator) : acting { env with evaluator := e } call op = acting env call op := by
  rw [acting_of_patternless hop, acting_of_patternless hop]
  cases haction : op.action with
  | modify m =>
      rw [haction] at hop
      exact hop.elim
  | create _ _ | graph _ | insertData _ | deleteData _ => rfl

end Step

namespace Session

open BatchM

variable {env : Environment} {s s' : Session} {call : BatchCall} {op : Operation}

/-- An operation whose action succeeds is executed, and its content is published. -/
theorem execute_one_of_ends (hlooks : env.evaluator.Looks)
    (hfaults : ∀ kind n, env.faults kind n = none) {b : Batch}
    (h : Ends (Step.acting env call op) (Step.next (s.opened env.faults)) () b) :
    ∃ s', s.execute env call [op] = (.ok [Step.answer env b.ledger], s') ∧
      s'.content = b.tx.content := by
  refine executeStream_of_ends hlooks (hfaults .begin) (hfaults .commit) ?_
  show (Step.operations env call [.ok op]).run (s.opened env.faults) = _
  rw [Step.run_operations_one,
    show (Step.acting env call op).run (Step.next (s.opened env.faults)) = (.ok (), b) from h]
  rfl

/-- An operation is executed only if its action succeeds; then it answers what the action has
noted, and publishes the content that it has left. -/
theorem ends_of_execute_one (hlooks : env.evaluator.Looks) {changes : List Change}
    (h : s.execute env call [op] = (.ok changes, s')) :
    ∃ b, Ends (Step.acting env call op) (Step.next (s.opened env.faults)) () b ∧
      changes = [Step.answer env b.ledger] ∧ s'.content = b.tx.content := by
  obtain ⟨b, hprogress, hcontent⟩ := execute_eq_ok hlooks h
  have hrun : (Step.operations env call [.ok op]).run (s.opened env.faults) = (.ok changes, b) :=
    hprogress
  rw [Step.run_operations_one] at hrun
  obtain ⟨houtcome, rfl⟩ := Prod.mk.inj hrun
  refine ⟨_, ?_, ?_, hcontent⟩
  · cases hacting : (Step.acting env call op).run (Step.next (s.opened env.faults)) with
    | mk r b' =>
        rw [hacting] at houtcome
        cases r with
        | ok _ => exact hacting
        | error e => cases houtcome
  · cases hacting : ((Step.acting env call op).run (Step.next (s.opened env.faults))).1 with
    | ok _ =>
        rw [hacting] at houtcome
        exact (Except.ok.inj houtcome).symm
    | error e =>
        rw [hacting] at houtcome
        cases houtcome

/-- It makes no difference to an operation without a pattern how patterns are evaluated. -/
theorem execute_with_evaluator (hop : op.action.Patternless) (e : Evaluator) :
    s.execute { env with evaluator := e } call [op] = s.execute env call [op] := by
  refine congrArg (s.transact env.faults) (funext fun b => ?_)
  show (Step.operations { env with evaluator := e } call [.ok op]).run b =
    (Step.operations env call [.ok op]).run b
  rw [Step.run_operations_one, Step.run_operations_one, Step.acting_with_evaluator hop]
  rfl

/-- An operation without a pattern that is executed answers and publishes what its writes come
to. -/
theorem execute_patternless_eq_ok (hop : op.action.Patternless) (hs : s.content.Valid)
    {changes : List Change} (h : s.execute env call [op] = (.ok changes, s')) :
    changes = [Step.answer env (op.action.outcome s.content)] ∧
      s'.content = (op.action.outcome s.content).content := by
  rw [← execute_with_evaluator hop .scanning] at h
  obtain ⟨b, hends, hchanges, hcontent⟩ := ends_of_execute_one Evaluator.looks_scanning h
  rw [Step.acting_of_patternless hop] at hends
  have hledger : b.ledger = op.action.outcome s.content := Step.ends_action_attempts hop hs hends
  rw [← hledger]
  exact ⟨hchanges, hcontent⟩

/-- An operation without a pattern is executed if its action succeeds. -/
theorem exists_execute_patternless (hop : op.action.Patternless) (hs : s.content.Valid)
    (hfaults : ∀ kind n, env.faults kind n = none)
    (h : ∃ b, Ends (Step.action env (op.user.getD (call.user.getD env.options.defaultUser))
      call.input op.action) (Step.next (s.opened env.faults)) () b) :
    ∃ s', s.execute env call [op] = (.ok [Step.answer env (op.action.outcome s.content)], s') ∧
      s'.content = (op.action.outcome s.content).content := by
  obtain ⟨b, hends⟩ := h
  have hscanning : Ends (Step.acting { env with evaluator := .scanning } call op)
      (Step.next (s.opened env.faults)) () b := by
    rw [Step.acting_with_evaluator hop, Step.acting_of_patternless hop]
    exact hends
  obtain ⟨s', hexecute, -⟩ := @execute_one_of_ends { env with evaluator := .scanning }
    s call op Evaluator.looks_scanning hfaults b hscanning
  rw [execute_with_evaluator hop] at hexecute
  obtain ⟨hchanges, hcontent⟩ := execute_patternless_eq_ok hop hs hexecute
  exact ⟨s', hchanges ▸ hexecute, hcontent⟩

end Session

end GraphStore
