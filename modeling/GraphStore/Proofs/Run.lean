/-
# `GraphStore.Proofs.Run` — a batch, operation by operation

`ends_operation` is the step lemma: an operation that succeeds has made a list of
writes, each with an effect and each one the operation may make, and answers the
quads of these writes.  It joins the ledgers of `GraphStore.Proofs.Ledger` and the
entitlements of `GraphStore.Proofs.Entitlement`, and is all that the modules about
runs that succeed know about operations.

A stream is taken apart by two equations: it is its first item and then the others
(`operations_cons`), and it can be run in two parts (`operations_append`).

`s.progress env call ops` is where the batch stands when it has run `ops`: the
transaction is still open and nothing is published.  A batch that succeeds has
stood at every prefix of its operations, and answered a prefix of its answers
there (`progress_take`).  What a batch publishes is the content it has worked on
(`execute_eq_ok`), since the log of its transaction replays to that content.
-/
import GraphStore.Proofs.Entitlement
import GraphStore.Proofs.Publication

namespace GraphStore

/-- The ledger of an operation that has not begun. -/
def Ledger.fresh (l : Ledger) : Ledger := { l with deleted := [], inserted := [] }

namespace Step

open BatchM

variable {env : Environment} {user : User} {call : BatchCall} {input : Option Binding}
  {b b' : Batch}

/-- What a tracked operation answers, read off its ledger. -/
def answer (env : Environment) (l : Ledger) : Change :=
  if env.options.trackChanges then ⟨some l.deleted, some l.inserted⟩ else Change.untracked

/-- The batch in which an operation begins. -/
def begun (b : Batch) : Batch := { b with passed := [], deleted := [], inserted := [] }

/-- What an operation answers once its action has been run. -/
def answered (env : Environment) (outcome : Except UpdateError Unit × Batch) :
    Except UpdateError Change × Batch :=
  (outcome.1.map fun _ => answer env outcome.2.ledger, outcome.2)

theorem run_operation (input : Option Binding) (op : Operation) (b : Batch) :
    (operation env user input op).run b =
      answered env ((action env (op.user.getD user) input op.action).run (begun b)) := by
  show ((action env (op.user.getD user) input op.action >>= fun _ => (do
    let b ← get
    return if env.options.trackChanges then ⟨some b.deleted, some b.inserted⟩
      else Change.untracked)).run (begun b)) = _
  rw [run_bind]
  cases (action env (op.user.getD user) input op.action).run (begun b) with
  | mk r b' => cases r <;> rfl

/-- An operation succeeds if its action does, and answers what the action has noted. -/
theorem ends_operation_iff {op : Operation} {change : Change} :
    Ends (operation env user input op) b change b' ↔ change = answer env b'.ledger ∧
      Ends (action env (op.user.getD user) input op.action) (begun b) () b' := by
  unfold Ends
  rw [run_operation, answered]
  cases (action env (op.user.getD user) input op.action).run (begun b) with
  | mk r b₁ =>
      cases r with
      | error e =>
          constructor
          · rintro ⟨⟩
          · rintro ⟨-, ⟨⟩⟩
      | ok _ =>
          constructor
          · rintro ⟨⟩
            exact ⟨rfl, rfl⟩
          · rintro ⟨rfl, h⟩
            cases h
            rfl

/-- An operation that succeeds has made writes that it may make, and answers what they changed. -/
theorem ends_operation (hlooks : env.evaluator.Looks) {op : Operation} {change : Change}
    (h : Ends (operation env user input op) b change b') :
    change = answer env b'.ledger ∧
      b.ledger.fresh.Reaches (op.action.Entitles (env.May (op.user.getD user))) b'.ledger := by
  unfold operation at h
  obtain ⟨_, b₁, hreset, h⟩ := ends_bind.mp h
  obtain rfl := ends_modify.mp hreset
  obtain ⟨_, b₂, haction, h⟩ := ends_bind.mp h
  rw [ends_get_bind] at h
  obtain ⟨rfl, rfl⟩ := ends_pure.mp h
  refine ⟨rfl, ?_⟩
  have hvetted : Batch.Vetted { b with passed := [], deleted := [], inserted := [] }
      env.policy (op.user.getD user) := fun access hmem => absurd hmem List.not_mem_nil
  exact ends_action hlooks haction hvetted rfl

/-! ## Taking a batch apart -/

/-- The operation that is run for an operation of the call. -/
def inScope (call : BatchCall) (op : Operation) : Operation :=
  { op with action := op.action.withScope call.scope }

/-- Takes an item from the stream and runs it, if it is an operation. -/
def item (env : Environment) (call : BatchCall) (i : Except UpdateError Operation) :
    Step Change := do
  modify fun b => { b with journal := { b.journal with pulled := b.journal.pulled + 1 } }
  match i with
  | .error e => throw e
  | .ok op => operation env (call.user.getD env.options.defaultUser) call.input (inScope call op)

/-- A stream is its first item and then the others. -/
theorem operations_cons (i : Except UpdateError Operation)
    (items : List (Except UpdateError Operation)) :
    operations env call (i :: items) = (do
      let change ← item env call i
      let changes ← operations env call items
      return change :: changes) := by
  unfold item
  rw [operations.eq_def, bind_assoc]
  funext _
  cases i <;> rfl

/-- A stream is run in two parts. -/
theorem operations_append (items items' : List (Except UpdateError Operation)) :
    operations env call (items ++ items') = (do
      let before ← operations env call items
      let after ← operations env call items'
      return before ++ after) := by
  induction items with
  | nil =>
      have hnil : operations env call [] = pure [] := by rw [operations.eq_def]
      simp only [hnil, pure_bind, List.nil_append, bind_pure]
  | cons i items ih =>
      rw [List.cons_append, operations_cons, operations_cons, ih]
      simp only [bind_assoc, pure_bind, List.cons_append]

theorem ends_operations_nil {changes : List Change} :
    Ends (operations env call []) b changes b' ↔ changes = [] ∧ b' = b := by
  unfold operations
  exact ends_pure

/-- A stream that succeeds begins with an operation that does. -/
theorem ends_operations_cons {item : Except UpdateError Operation}
    {items : List (Except UpdateError Operation)} {changes : List Change} :
    Ends (operations env call (item :: items)) b changes b' ↔
      ∃ op change rest b₁, item = .ok op ∧ changes = change :: rest ∧
        Ends (operation env (call.user.getD env.options.defaultUser) call.input (inScope call op))
          { b with journal := { b.journal with pulled := b.journal.pulled + 1 } } change b₁ ∧
        Ends (operations env call items) b₁ rest b' := by
  constructor
  · intro h
    unfold operations at h
    obtain ⟨_, b₁, hpull, h⟩ := ends_bind.mp h
    obtain rfl := ends_modify.mp hpull
    cases item with
    | error e => exact absurd h not_ends_throw
    | ok op =>
        obtain ⟨change, b₂, hop, h⟩ := ends_bind.mp h
        obtain ⟨rest, b₃, hrest, h⟩ := ends_bind.mp h
        obtain ⟨rfl, rfl⟩ := ends_pure.mp h
        exact ⟨op, change, rest, b₂, rfl, rfl, hop, hrest⟩
  · rintro ⟨op, change, rest, b₁, rfl, rfl, hop, hrest⟩
    unfold operations
    refine ends_bind.mpr ⟨(), _, ends_modify.mpr rfl, ?_⟩
    refine ends_bind.mpr ⟨change, b₁, hop, ?_⟩
    exact ends_bind.mpr ⟨rest, b', hrest, ends_pure.mpr ⟨rfl, rfl⟩⟩

/-- Only a stream of operations can succeed. -/
theorem ends_operations_ok {items : List (Except UpdateError Operation)} {changes : List Change}
    (h : Ends (operations env call items) b changes b') :
    ∃ ops : List Operation, items = ops.map .ok := by
  induction items generalizing b changes with
  | nil => exact ⟨[], rfl⟩
  | cons item items ih =>
      obtain ⟨op, change, rest, b₁, rfl, -, -, hrest⟩ := ends_operations_cons.mp h
      obtain ⟨ops, rfl⟩ := ih hrest
      exact ⟨op :: ops, rfl⟩

theorem ends_operations_append {items items' : List (Except UpdateError Operation)}
    {changes : List Change} :
    Ends (operations env call (items ++ items')) b changes b' ↔
      ∃ before after b₁, changes = before ++ after ∧
        Ends (operations env call items) b before b₁ ∧
        Ends (operations env call items') b₁ after b' := by
  rw [operations_append, ends_bind]
  constructor
  · rintro ⟨before, b₁, hbefore, h⟩
    obtain ⟨after, b₂, hafter, h⟩ := ends_bind.mp h
    obtain ⟨rfl, rfl⟩ := ends_pure.mp h
    exact ⟨before, after, b₁, rfl, hbefore, hafter⟩
  · rintro ⟨before, after, b₁, rfl, hbefore, hafter⟩
    refine ⟨before, b₁, hbefore, ?_⟩
    exact ends_bind.mpr ⟨after, b', hafter, ends_pure.mpr ⟨rfl, rfl⟩⟩

/-- A batch answers once for each operation. -/
theorem length_of_ends_operations {items : List (Except UpdateError Operation)}
    {changes : List Change} (h : Ends (operations env call items) b changes b') :
    changes.length = items.length := by
  induction items generalizing b changes with
  | nil => rw [(ends_operations_nil.mp h).1]; rfl
  | cons item items ih =>
      obtain ⟨op, change, rest, b₁, rfl, rfl, -, hrest⟩ := ends_operations_cons.mp h
      rw [List.length_cons, List.length_cons, ih hrest]

/-! ## What is kept from operation to operation -/

/-- A property of the content and the log that the writes of operations keep is kept by a batch. -/
theorem operations_invariant (hlooks : env.evaluator.Looks) {I : Content → List Edit → Prop}
    (hwrote : ∀ {l l' : Ledger} {ws : List Write}, l.Wrote ws l' → I l.content l.log →
      I l'.content l'.log)
    {items : List (Except UpdateError Operation)} {changes : List Change}
    (h : Ends (operations env call items) b changes b') (hI : I b.tx.content b.tx.log) :
    I b'.tx.content b'.tx.log := by
  induction items generalizing b changes with
  | nil =>
      obtain ⟨-, rfl⟩ := ends_operations_nil.mp h
      exact hI
  | cons item items ih =>
      obtain ⟨op, change, rest, b₁, rfl, rfl, hop, hrest⟩ := ends_operations_cons.mp h
      obtain ⟨-, ws, hws, -⟩ := ends_operation hlooks hop
      exact ih hrest (hwrote hws hI)

/-- Contents stay valid while a batch runs. -/
theorem operations_valid (hlooks : env.evaluator.Looks)
    {items : List (Except UpdateError Operation)} {changes : List Change}
    (h : Ends (operations env call items) b changes b') (hb : b.tx.content.Valid) :
    b'.tx.content.Valid :=
  operations_invariant (I := fun c _ => c.Valid) hlooks (fun hwrote hc => hwrote.valid hc) h hb

/-- The log of the transaction replays to the content that the batch works on. -/
theorem operations_replay (hlooks : env.evaluator.Looks) {committed : Content}
    {items : List (Except UpdateError Operation)} {changes : List Change}
    (h : Ends (operations env call items) b changes b')
    (hb : b.tx.publish committed = some b.tx.content) :
    b'.tx.publish committed = some b'.tx.content := by
  refine operations_invariant (I := fun c log => Edit.replay committed log = some c) hlooks ?_ h hb
  intro l l' ws hwrote hlog
  obtain ⟨es, hes, hreplay⟩ := hwrote.replay
  rw [hes, Edit.replay_append, hlog]
  exact hreplay

end Step

namespace Session

open BatchM

variable {s s' : Session} {env : Environment} {call : BatchCall} {ops : List Operation}
  {changes : List Change} {b : Batch}

/-- The batch that opening a transaction gives. -/
def opened (s : Session) (faults : Faults) : Batch :=
  { tx := .start s.content, journal := (s.call faults .begin).2.journal }

/-- Where the batch stands when it has run the operations. -/
def progress (s : Session) (env : Environment) (call : BatchCall) (ops : List Operation) :
    Except UpdateError (List Change) × Batch :=
  (Step.operations env call (ops.map .ok)).run (s.opened env.faults)

/-- An outcome is known when its answer is. -/
theorem eq_ok_of_toOption {ε α σ : Type} {r : Except ε α × σ} {a : α}
    (h : r.1.toOption = some a) : r = (.ok a, r.2) := by
  cases r with
  | mk outcome s =>
      cases outcome with
      | error e => cases h
      | ok a' => rw [Option.some.inj h]

theorem call_content (s : Session) (faults : Faults) (kind : CallKind) :
    (s.call faults kind).2.content = s.content := rfl

/-- A commit that succeeds has replayed the log of the transaction on the committed content. -/
theorem commit_eq_ok {faults : Faults} {tx : Transaction} {u : Unit}
    (h : s.commit faults tx = (.ok u, s')) : tx.publish s.content = some s'.content := by
  unfold commit at h
  have hcontent := s.call_content faults .commit
  cases hcall : s.call faults .commit with
  | mk outcome s₁ =>
      rw [hcall] at h hcontent
      cases outcome with
      | error e => cases h
      | ok _ =>
          dsimp only at h hcontent
          rw [hcontent] at h
          cases hpublish : tx.publish s.content with
          | none => rw [hpublish] at h; cases h
          | some c => rw [hpublish] at h; cases h; rfl

/-- A transaction that is opened ends with its steps: they are committed or aborted. -/
theorem transact_eq {α : Type} (s : Session) (faults : Faults) (steps : Step α) :
    s.transact faults steps = match (s.call faults .begin).1 with
      | .error e => (.error (.storage e), (s.call faults .begin).2)
      | .ok () => match steps.run (s.opened faults) with
        | (.ok a, b) => match commit ⟨s.content, b.journal⟩ faults b.tx with
          | (.ok (), s') => (.ok a, s')
          | (.error e, s') => (.error (.storage e), s')
        | (.error e, b) => (.error e, (Session.call ⟨s.content, b.journal⟩ faults .abort).2) := by
  unfold transact opened call Journal.call
  cases faults .begin (s.journal.calls.count .begin) with
  | none => rfl
  | some e => rfl

/-- Steps that are committed have succeeded, and their log could be replayed. -/
theorem transact_eq_ok {α : Type} {faults : Faults} {steps : Step α} {a : α}
    (h : s.transact faults steps = (.ok a, s')) :
    ∃ b, Ends steps (s.opened faults) a b ∧ b.tx.publish s.content = some s'.content := by
  rw [transact_eq] at h
  cases hbegin : (s.call faults .begin).1 with
  | error e =>
      rw [hbegin] at h
      cases h
  | ok _ =>
      rw [hbegin] at h
      cases hsteps : steps.run (s.opened faults) with
      | mk r b =>
          rw [hsteps] at h
          cases r with
          | error e => cases h
          | ok a' =>
              dsimp only at h
              split at h
              · rename_i s₂ hcommit
                cases h
                exact ⟨b, hsteps, commit_eq_ok (s := ⟨s.content, b.journal⟩) hcommit⟩
              · cases h

/-- A failure that is not the store's is one of the steps. -/
theorem transact_eq_error {α : Type} {faults : Faults} {steps : Step α} {e : UpdateError}
    (he : ∀ f, e ≠ .storage f) : (s.transact faults steps).1 = .error e ↔
      (s.call faults .begin).1 = .ok () ∧ (steps.run (s.opened faults)).1 = .error e := by
  rw [transact_eq]
  cases (s.call faults .begin).1 with
  | error f =>
      refine iff_of_false (fun h => he f (Except.error.inj h).symm) fun h => ?_
      cases h.1
  | ok _ =>
      rw [and_iff_right rfl]
      dsimp only
      cases steps.run (s.opened faults) with
      | mk r b =>
          cases r with
          | error e' => exact Iff.rfl
          | ok a =>
              refine iff_of_false (fun h => ?_) fun h => by cases h
              dsimp only at h
              split at h
              · cases h
              · exact he _ (Except.error.inj h).symm

/-- A stream that is executed is one of operations, and what the batch has worked on is
published. -/
theorem executeStream_eq_ok (hlooks : env.evaluator.Looks)
    {items : List (Except UpdateError Operation)}
    (h : s.executeStream env call items = (.ok changes, s')) :
    ∃ ops b, items = ops.map .ok ∧ s.progress env call ops = (.ok changes, b) ∧
      s'.content = b.tx.content := by
  obtain ⟨b, hends, hpublish⟩ := transact_eq_ok h
  obtain ⟨ops, rfl⟩ := Step.ends_operations_ok hends
  refine ⟨ops, b, rfl, hends, ?_⟩
  have hreplay : b.tx.publish s.content = some b.tx.content :=
    Step.operations_replay hlooks hends rfl
  rw [hreplay] at hpublish
  exact (Option.some.inj hpublish).symm

theorem execute_eq_ok (hlooks : env.evaluator.Looks)
    (h : s.execute env call ops = (.ok changes, s')) :
    ∃ b, s.progress env call ops = (.ok changes, b) ∧ s'.content = b.tx.content := by
  obtain ⟨ops', b, hops, hends, hcontent⟩ := executeStream_eq_ok hlooks h
  rw [List.map_inj_right fun _ _ => Except.ok.inj] at hops
  subst hops
  exact ⟨b, hends, hcontent⟩

theorem progress_append {ops' : List Operation}
    (h : s.progress env call (ops ++ ops') = (.ok changes, b)) :
    ∃ before after b₁, changes = before ++ after ∧ s.progress env call ops = (.ok before, b₁) ∧
      before.length = ops.length ∧ Ends (Step.operations env call (ops'.map .ok)) b₁ after b := by
  have hends : Ends (Step.operations env call ((ops ++ ops').map .ok)) (s.opened env.faults)
    changes b := h
  rw [List.map_append, Step.ends_operations_append] at hends
  obtain ⟨before, after, b₁, hchanges, hbefore, hafter⟩ := hends
  refine ⟨before, after, b₁, hchanges, hbefore, ?_, hafter⟩
  rw [Step.length_of_ends_operations hbefore, List.length_map]

/-- A batch has stood at every prefix of its operations. -/
theorem progress_take (h : s.progress env call ops = (.ok changes, b)) {k : Nat}
    (hk : k ≤ ops.length) :
    ∃ b₁, s.progress env call (ops.take k) = (.ok (changes.take k), b₁) := by
  rw [← ops.take_append_drop k] at h
  obtain ⟨before, after, b₁, rfl, hbefore, hlength, -⟩ := progress_append h
  rw [List.length_take_of_le hk] at hlength
  rw [← hlength, List.take_left, hlength]
  exact ⟨b₁, hbefore⟩

theorem progress_valid (hlooks : env.evaluator.Looks) (hs : s.content.Valid)
    (h : s.progress env call ops = (.ok changes, b)) : b.tx.content.Valid :=
  Step.operations_valid hlooks h hs

theorem length_of_progress (h : s.progress env call ops = (.ok changes, b)) :
    changes.length = ops.length := by
  rw [Step.length_of_ends_operations h, List.length_map]

/-- The last operation of a batch begins where the others have led, and answers for itself. -/
theorem progress_concat (hlooks : env.evaluator.Looks) {op : Operation}
    (h : s.progress env call (ops ++ [op]) = (.ok changes, b)) :
    ∃ before b₁ change, changes = before ++ [change] ∧
      s.progress env call ops = (.ok before, b₁) ∧ change = Step.answer env b.ledger ∧
      b₁.ledger.fresh.Reaches ((op.action.withScope call.scope).Entitles
        (env.May (op.user.getD (call.user.getD env.options.defaultUser)))) b.ledger := by
  obtain ⟨before, after, b₁, hchanges, hbefore, -, hafter⟩ := progress_append h
  obtain ⟨_, change, rest, b₂, hop, rfl, hrun, hnil⟩ := Step.ends_operations_cons.mp hafter
  obtain ⟨rfl, rfl⟩ := Step.ends_operations_nil.mp hnil
  obtain rfl := Except.ok.inj hop
  obtain ⟨hanswer, hreach⟩ := Step.ends_operation hlooks hrun
  exact ⟨before, b₁, change, hchanges, hbefore, hanswer, hreach⟩

end Session

end GraphStore
