/-
# `GraphStore.Proofs.Protocol` — one transaction for a batch, closed once

A schedule may let any call of the store fail: while a transaction is opened, in the middle
of an operation or in the evaluation of a pattern, and when the transaction is closed.

    begin ─✗                                          storage error
    begin ─ write ─ read ─ … ─ write ─ commit         all items have succeeded
    begin ─ write ─ read ─ … ─ write ─ commit ─✗      storage error
    begin ─ write ─ read ─✗ ─ abort (─✗)              the error of the item

What happens between the opening and the closing is the same for all steps of a batch.  They
call nothing but reads and writes, and take nothing from the stream; if one of their calls fails,
it is their last, and its failure is what they fail with.  This is `x.Serves`.  It is kept by
sequencing, so operations have it if the evaluator does, and the scanning evaluator has it
because it has no other calls than those of its reader.

`Session.Conducts` lists the four ways in which a batch can go, and
`executeStream_conducts` says that there is no other.
-/
import GraphStore.Proofs.Atomicity
import GraphStore.Proofs.Plans

namespace GraphStore

/-- The calls that are made in an open transaction and leave it open. -/
def CallKind.isInner : CallKind → Bool
  | .write | .read | .graphs => true
  | .begin | .commit | .abort => false

/-! ## Calls and failures -/

/-- Behind `calls`, the schedule lets every one of the further calls succeed. -/
inductive Faults.Grants (faults : Faults) : List CallKind → List CallKind → Prop
  | nil (calls : List CallKind) : Grants faults calls []
  | cons {calls ks : List CallKind} {k : CallKind} : faults k (calls.count k) = Option.none →
      Grants faults (calls ++ [k]) ks → Grants faults calls (k :: ks)

theorem Faults.Grants.append {faults : Faults} {calls ks ks' : List CallKind}
    (h : faults.Grants calls ks) (h' : faults.Grants (calls ++ ks) ks') :
    faults.Grants calls (ks ++ ks') := by
  induction h with
  | nil calls =>
      rw [List.append_nil] at h'
      exact h'
  | @cons calls ks k hk _ ih =>
      refine .cons hk (ih ?_)
      rw [List.append_assoc]
      exact h'

namespace BatchM

variable {ε δ α β : Type} {faults : Faults} {reports : StorageError → ε → Prop}

/-- What steps with this outcome have called behind `calls`: if a call has failed, it is the last
one, and the outcome reports its failure. -/
inductive Heeds (faults : Faults) (reports : StorageError → ε → Prop) (calls : List CallKind) :
    Except ε α → List CallKind → Prop
  /-- No call has failed. -/
  | granted {outcome : Except ε α} {ks : List CallKind} : faults.Grants calls ks →
      Heeds faults reports calls outcome ks
  /-- The last call has failed. -/
  | failed {ks : List CallKind} {k : CallKind} {f : StorageError} {e : ε} :
      faults.Grants calls ks → faults k ((calls ++ ks).count k) = some f → reports f e →
      Heeds faults reports calls (.error e) (ks ++ [k])

variable {calls ks ks' : List CallKind}

/-- Steps that succeed have had all their calls granted. -/
theorem Heeds.grants {a : α} (h : Heeds faults reports calls (.ok a) ks) :
    faults.Grants calls ks := by
  cases h with
  | granted hgrants => exact hgrants

theorem Heeds.prepend {outcome : Except ε α} (hgrants : faults.Grants calls ks)
    (h : Heeds faults reports (calls ++ ks) outcome ks') :
    Heeds faults reports calls outcome (ks ++ ks') := by
  cases h with
  | granted hgrants' => exact .granted (hgrants.append hgrants')
  | failed hgrants' hfault hreports =>
      rw [List.append_assoc] at hfault
      rw [← List.append_assoc]
      exact .failed (hgrants.append hgrants') hfault hreports

/-- Failures are heeded alike, whatever success would have answered, and passed on as they are
reported. -/
theorem Heeds.error {reports' : StorageError → δ → Prop} {g : ε → δ}
    (hg : ∀ f e, reports f e → reports' f (g e)) {e : ε}
    (h : Heeds faults reports calls (.error e : Except ε α) ks) :
    Heeds faults reports' calls (.error (g e) : Except δ β) ks := by
  cases h with
  | granted hgrants => exact .granted hgrants
  | failed hgrants hfault hreports => exact .failed hgrants hfault (hg _ _ hreports)

/-- The steps take nothing from the stream, call nothing but reads and writes, and heed failures. -/
def Serves (faults : Faults) (reports : StorageError → ε → Prop) (x : BatchM ε α) : Prop :=
  ∀ b, (x.run b).2.journal.pulled = b.journal.pulled ∧
    ∃ ks, (x.run b).2.journal.calls = b.journal.calls ++ ks ∧ (∀ k ∈ ks, k.isInner = true) ∧
      Heeds faults reports b.journal.calls (x.run b).1 ks

/-- Steps without calls. -/
theorem serves_of_keeps {x : BatchM ε α}
    (h : ∀ b, (x.run b).2.journal.pulled = b.journal.pulled ∧
      (x.run b).2.journal.calls = b.journal.calls) : x.Serves faults reports := by
  intro b
  refine ⟨(h b).1, [], ?_, fun _ hk => absurd hk List.not_mem_nil, .granted (.nil _)⟩
  rw [(h b).2, List.append_nil]

theorem serves_pure (a : α) : (pure a : BatchM ε α).Serves faults reports :=
  serves_of_keeps fun _ => ⟨rfl, rfl⟩

theorem serves_throw (e : ε) : (throw e : BatchM ε α).Serves faults reports :=
  serves_of_keeps fun _ => ⟨rfl, rfl⟩

theorem Serves.bind {x : BatchM ε α} {f : α → BatchM ε β} (hx : x.Serves faults reports)
    (hf : ∀ a, (f a).Serves faults reports) : (x >>= f).Serves faults reports := by
  intro b
  obtain ⟨hpulled, ks, hcalls, hinner, hheeds⟩ := hx b
  rw [run_bind]
  cases hrun : x.run b with
  | mk r b₁ =>
      rw [hrun] at hpulled hcalls hheeds
      cases r with
      | error e => exact ⟨hpulled, ks, hcalls, hinner, hheeds.error (g := id) fun _ _ h => h⟩
      | ok a =>
          obtain ⟨hpulled', ks', hcalls', hinner', hheeds'⟩ := hf a b₁
          have hfirst : b₁.journal.calls = b.journal.calls ++ ks := hcalls
          rw [hfirst] at hcalls' hheeds'
          refine ⟨hpulled'.trans hpulled, ks ++ ks', ?_, ?_, hheeds'.prepend hheeds.grants⟩
          · rw [← List.append_assoc]
            exact hcalls'
          · exact List.forall_mem_append.mpr ⟨hinner, hinner'⟩

theorem Serves.mapError {reports' : StorageError → δ → Prop} {g : ε → δ} {x : BatchM ε α}
    (hx : x.Serves faults reports) (hg : ∀ f e, reports f e → reports' f (g e)) :
    (mapError g x).Serves faults reports' := by
  intro b
  obtain ⟨hpulled, ks, hcalls, hinner, hheeds⟩ := hx b
  refine ⟨hpulled, ks, hcalls, hinner, ?_⟩
  show Heeds faults reports' b.journal.calls ((x.run b).1.mapError g) ks
  cases hrun : (x.run b).1 with
  | ok a =>
      rw [hrun] at hheeds
      exact .granted hheeds.grants
  | error e =>
      rw [hrun] at hheeds
      exact hheeds.error hg

/-- A store call fails as the schedule has it. -/
theorem serves_call {kind : CallKind} (hkind : kind.isInner = true)
    (act : Transaction → α × Transaction) : (call faults kind act).Serves faults fun f e => e = f := by
  intro b
  have hinner : ∀ k ∈ [kind], k.isInner = true := List.forall_mem_singleton.mpr hkind
  rw [run_call]
  unfold Journal.call
  cases hfault : faults kind (b.journal.calls.count kind) with
  | none => exact ⟨rfl, [kind], rfl, hinner, .granted (.cons hfault (.nil _))⟩
  | some f =>
      refine ⟨rfl, [kind], rfl, hinner, ?_⟩
      rw [← List.append_nil b.journal.calls] at hfault
      exact Heeds.failed (.nil _) hfault rfl

end BatchM

/-! ## Evaluators -/

/-- The failure of an evaluation that passes on one of the store. -/
def EvaluationError.PassesOn (f : StorageError) (e : EvaluationError) : Prop := e = .storage f

/-- The failures of an operation that pass on one of the store. -/
def UpdateError.PassesOn (f : StorageError) (e : UpdateError) : Prop :=
  e = .storage f ∨ e = .evaluation (.storage f)

/-- The lookups heed failures. -/
def Reader.Serves {ε : Type} (faults : Faults) (reports : StorageError → ε → Prop)
    (r : Reader (BatchM ε)) : Prop :=
  Related (fun _ x _ => x.Serves faults reports) r r

/-- Over a reader that heeds failures, the evaluator does: it passes on what goes wrong. -/
def Evaluator.Serves (e : Evaluator) : Prop :=
  ∀ (faults : Faults) (r : Reader (BatchM EvaluationError)),
    r.Serves faults EvaluationError.PassesOn →
      ∀ p scope input, (e.run r p scope input).Serves faults EvaluationError.PassesOn

theorem uniform_serves (faults : Faults) : Uniform (m := BatchM EvaluationError)
    (n := BatchM EvaluationError) fun _ x _ => x.Serves faults EvaluationError.PassesOn where
  pure a := BatchM.serves_pure a
  throw e := BatchM.serves_throw e
  bind hx hf := hx.bind hf

theorem Evaluator.serves_scanning : scanning.Serves := by
  intro faults r hr p scope input
  have huniform := uniform_serves faults
  exact huniform.eval (huniform.dataset hr scope) p .default _

theorem Reader.serves_reader {ε : Type} (faults : Faults) {reports : StorageError → ε → Prop}
    {f : StorageError → ε} (hf : ∀ e, reports e (f e)) :
    (BatchM.reader faults f).Serves faults reports := by
  have hcall : ∀ {α : Type} {kind : CallKind}, kind.isInner = true →
      ∀ act : Transaction → α × Transaction,
        (BatchM.mapError f (BatchM.call faults kind act)).Serves faults reports := by
    intro α kind hkind act
    refine (BatchM.serves_call hkind act).mapError fun e e' he => ?_
    rw [he]
    exact hf e
  exact ⟨fun _ => hcall rfl _, fun _ _ => hcall rfl _, fun _ => hcall rfl _, hcall rfl _,
    fun _ => hcall rfl _⟩

/-! ## Operations -/

namespace Step

open BatchM

variable {env : Environment} {call : BatchCall} {b b' : Batch}
  {items : List (Except UpdateError Operation)} {changes : List Change} {e : UpdateError}

theorem compositional_serves (env : Environment) :
    Compositional env fun _ x => x.Serves env.faults UpdateError.PassesOn := by
  have hreader : (reader env).Serves env.faults UpdateError.PassesOn :=
    Reader.serves_reader env.faults fun _ => .inl rfl
  exact {
    pure := serves_pure
    bind := Serves.bind
    check user kind g := serves_of_keeps fun b => by
      rw [run_check]
      split <;> exact ⟨rfl, rfl⟩
    quadsOf g := by
      cases g with
      | default => exact hreader.findDefault .any
      | named g => exact hreader.findNamed g .any
    containsGraph := hreader.containsGraph
    namedGraphs := hreader.namedGraphs
    change step := (serves_call rfl _).mapError fun _ _ he => .inl (congrArg _ he)
    noteInserted _ := serves_of_keeps fun _ => ⟨rfl, rfl⟩
    noteDeleted _ := serves_of_keeps fun _ => ⟨rfl, rfl⟩ }

variable (hserves : env.evaluator.Serves)

include hserves

theorem serves_action (user : User) (input : Option Binding) (a : Action) :
    (action env user input a).Serves env.faults UpdateError.PassesOn := by
  refine (compositional_serves env).action (fun _ _ => serves_throw _) (fun _ _ => serves_throw _)
    fun m _ => ⟨?_, fun count => ?_⟩
  · have hreader := (uniform_serves env.faults).restrict
      (Reader.serves_reader env.faults fun _ => rfl) env.policy user
    refine (hserves env.faults _ hreader m.pattern m.scope (m.input.or input)).mapError ?_
    exact fun f e he => .inr (congrArg _ he)
  · exact serves_of_keeps fun _ => ⟨rfl, rfl⟩

theorem serves_operation (user : User) (input : Option Binding) (op : Operation) :
    (operation env user input op).Serves env.faults UpdateError.PassesOn := by
  refine Serves.bind (serves_of_keeps fun _ => ⟨rfl, rfl⟩) fun _ => ?_
  refine (serves_action hserves (op.user.getD user) input op.action).bind fun _ => ?_
  exact Serves.bind (serves_of_keeps fun _ => ⟨rfl, rfl⟩) fun _ => serves_pure _

/-- An item is taken from the stream, and then it is served. -/
theorem serves_item (call : BatchCall) (i : Except UpdateError Operation) (b : Batch) :
    ((item env call i).run b).2.journal.pulled = b.journal.pulled + 1 ∧
      ∃ ks, ((item env call i).run b).2.journal.calls = b.journal.calls ++ ks ∧
        (∀ k ∈ ks, k.isInner = true) ∧
        Heeds env.faults UpdateError.PassesOn b.journal.calls ((item env call i).run b).1 ks := by
  have hitem : ∀ x : Step Change, x.Serves env.faults UpdateError.PassesOn →
      ∀ b₁ : Batch, b₁ = { b with journal := { b.journal with pulled := b.journal.pulled + 1 } } →
        (x.run b₁).2.journal.pulled = b.journal.pulled + 1 ∧
          ∃ ks, (x.run b₁).2.journal.calls = b.journal.calls ++ ks ∧
            (∀ k ∈ ks, k.isInner = true) ∧
            Heeds env.faults UpdateError.PassesOn b.journal.calls (x.run b₁).1 ks := by
    rintro x hx b₁ rfl
    exact hx _
  cases i with
  | error e => exact hitem (throw e) (serves_throw e) _ rfl
  | ok op => exact hitem _ (serves_operation hserves _ _ (inScope call op)) _ rfl

/-- Items that all succeed are taken from the stream, and all their calls are granted. -/
theorem Runs.serves (h : Runs env call b items changes b') :
    b'.journal.pulled = b.journal.pulled + items.length ∧
      ∃ ks, b'.journal.calls = b.journal.calls ++ ks ∧ (∀ k ∈ ks, k.isInner = true) ∧
        env.faults.Grants b.journal.calls ks := by
  induction h with
  | nil b =>
      exact ⟨rfl, [], (List.append_nil _).symm, fun _ hk => absurd hk List.not_mem_nil, .nil _⟩
  | @cons b b₁ b' i change items changes hitem _ ih =>
      obtain ⟨hpulled, ks, hcalls, hinner, hheeds⟩ := serves_item hserves call i b
      rw [show (item env call i).run b = (.ok change, b₁) from hitem] at hpulled hcalls hheeds
      dsimp only at hpulled hcalls hheeds
      obtain ⟨hpulled', ks', hcalls', hinner', hgrants'⟩ := ih
      rw [hcalls] at hcalls' hgrants'
      refine ⟨?_, ks ++ ks', ?_, ?_, hheeds.grants.append hgrants'⟩
      · rw [hpulled', hpulled, List.length_cons]
        omega
      · rw [hcalls', List.append_assoc]
      · exact List.forall_mem_append.mpr ⟨hinner, hinner'⟩

omit hserves in
/-- A stream ends with the first item that fails. -/
theorem Runs.run_operations {before : List (Except UpdateError Operation)} {b₁ : Batch}
    (h : Runs env call b before changes b₁) {i : Except UpdateError Operation}
    (hitem : (item env call i).run b₁ = (.error e, b')) (rest : List (Except UpdateError Operation)) :
    (operations env call (before ++ i :: rest)).run b = (.error e, b') := by
  have hbefore : (operations env call before).run b = (.ok changes, b₁) := ends_operations_iff.mpr h
  have hi : (operations env call (i :: rest)).run b₁ = (.error e, b') := by
    rw [operations_cons, run_bind, hitem]
  rw [operations_append, run_bind, hbefore]
  dsimp only
  rw [run_bind, hi]

end Step

/-! ## Transactions -/

namespace Session

open BatchM

/-- Behind its opening, the transaction has made these calls and was closed by the last one;
`taken` items have been taken from the stream. -/
structure Closed (s s' : Session) (ks : List CallKind) (closing : CallKind) (taken : Nat) :
    Prop where
  isInner : ∀ k ∈ ks, k.isInner = true
  calls : s'.journal.calls = s.journal.calls ++ [.begin] ++ ks ++ [closing]
  pulled : s'.journal.pulled = s.journal.pulled + taken

/-- How the executor deals with the store in a batch, with the outcome and the session it leaves. -/
inductive Conducts (env : Environment) (call : BatchCall) (s : Session)
    (items : List (Except UpdateError Operation)) :
    Except UpdateError (List Change) × Session → Prop
  /-- The transaction cannot be opened; nothing else is called, and nothing taken. -/
  | unopened {f : StorageError} {s' : Session} :
      env.faults .begin (s.journal.calls.count .begin) = some f →
      s'.journal.calls = s.journal.calls ++ [.begin] →
      s'.journal.pulled = s.journal.pulled → s'.content = s.content →
      Conducts env call s items (.error (.storage f), s')
  /-- Behind a run of items one fails; whether the abort does is of no account. -/
  | aborted {before rest : List (Except UpdateError Operation)} {i : Except UpdateError Operation}
      {changes : List Change} {b : Batch} {e : UpdateError} {ks : List CallKind} {s' : Session} :
      env.faults .begin (s.journal.calls.count .begin) = none →
      items = before ++ i :: rest →
      Step.Runs env call (s.opened env.faults) before changes b →
      Fails (Step.item env call i) b e →
      Heeds env.faults UpdateError.PassesOn (s.journal.calls ++ [.begin])
        (.error e : Except UpdateError (List Change)) ks →
      s.Closed s' ks .abort (before.length + 1) → s'.content = s.content →
      Conducts env call s items (.error e, s')
  /-- All items succeed, and their transaction is committed. -/
  | committed {changes : List Change} {b : Batch} {ks : List CallKind} {s' : Session} :
      env.faults .begin (s.journal.calls.count .begin) = none →
      Step.Runs env call (s.opened env.faults) items changes b →
      env.faults.Grants (s.journal.calls ++ [.begin]) (ks ++ [.commit]) →
      s.Closed s' ks .commit items.length → s'.content = b.tx.content →
      Conducts env call s items (.ok changes, s')
  /-- All items succeed, and the commit fails. -/
  | uncommitted {changes : List Change} {b : Batch} {f : StorageError} {ks : List CallKind}
      {s' : Session} :
      env.faults .begin (s.journal.calls.count .begin) = none →
      Step.Runs env call (s.opened env.faults) items changes b →
      env.faults.Grants (s.journal.calls ++ [.begin]) ks →
      env.faults .commit ((s.journal.calls ++ [CallKind.begin] ++ ks).count CallKind.commit) = some f →
      s.Closed s' ks .commit items.length → s'.content = s.content →
      Conducts env call s items (.error (.storage f), s')

section

variable {s : Session} {faults : Faults} {kind : CallKind}

/-- The session once a call of the store has been recorded. -/
def recorded (s : Session) (kind : CallKind) : Session :=
  { s with journal := { s.journal with calls := s.journal.calls ++ [kind] } }

theorem call_eq (s : Session) (faults : Faults) (kind : CallKind) :
    s.call faults kind = ((faults kind (s.journal.calls.count kind)).elim (.ok ()) .error,
      s.recorded kind) := by
  unfold call Journal.call recorded
  cases faults kind (s.journal.calls.count kind) <;> rfl

theorem commit_of_fault {f : StorageError} (tx : Transaction)
    (h : faults .commit (s.journal.calls.count .commit) = some f) :
    s.commit faults tx = (.error f, s.recorded .commit) := by
  unfold commit
  rw [call_eq, h]
  rfl

theorem commit_of_granted {tx : Transaction} {c : Content}
    (h : faults .commit (s.journal.calls.count .commit) = none)
    (hpublish : tx.publish s.content = some c) :
    s.commit faults tx = (.ok (), { s.recorded .commit with content := c }) := by
  unfold commit
  rw [call_eq, h]
  dsimp only [Option.elim]
  rw [show (s.recorded .commit).content = s.content from rfl, hpublish]

end

variable {env : Environment}

section

variable {s : Session} {call : BatchCall} {items : List (Except UpdateError Operation)}
  (hbegin : env.faults .begin (s.journal.calls.count .begin) = none)

include hbegin

variable (hserves : env.evaluator.Serves)

include hserves

/-- Behind a run of items, one fails. -/
theorem conducts_of_fails {before rest : List (Except UpdateError Operation)}
    {i : Except UpdateError Operation} {changes : List Change} {b b' : Batch} {e : UpdateError}
    (hitems : items = before ++ i :: rest)
    (hruns : Step.Runs env call (s.opened env.faults) before changes b)
    (hitem : (Step.item env call i).run b = (.error e, b')) :
    Conducts env call s items (s.executeStream env call items) := by
  obtain ⟨hpulled, ks, hcalls, hinner, hgrants⟩ := hruns.serves hserves
  obtain ⟨hpulled', ks', hcalls', hinner', hheeds⟩ := Step.serves_item hserves call i b
  rw [hitem] at hpulled' hcalls' hheeds
  dsimp only at hpulled' hcalls' hheeds
  rw [hcalls] at hcalls' hheeds
  have hrun : (Step.operations env call items).run (s.opened env.faults) = (.error e, b') := by
    rw [hitems]
    exact hruns.run_operations hitem rest
  have hclosed : s.Closed (recorded ⟨s.content, b'.journal⟩ .abort) (ks ++ ks') .abort
      (before.length + 1) := by
    refine ⟨List.forall_mem_append.mpr ⟨hinner, hinner'⟩, ?_, ?_⟩
    · show b'.journal.calls ++ [.abort] = _
      rw [hcalls', List.append_assoc _ ks]
      rfl
    · show b'.journal.pulled = _
      rw [hpulled', hpulled]
      rfl
  unfold executeStream
  rw [transact_opened hbegin, hrun]
  refine .aborted hbegin hitems hruns ⟨b', hitem⟩ ?_ hclosed rfl
  exact (hheeds.error (g := id) fun _ _ h => h).prepend hgrants

/-- All items succeed, and the commit may fail. -/
theorem conducts_of_runs (hlooks : env.evaluator.Looks) {changes : List Change} {b : Batch}
    (hruns : Step.Runs env call (s.opened env.faults) items changes b) :
    Conducts env call s items (s.executeStream env call items) := by
  obtain ⟨hpulled, ks, hcalls, hinner, hgrants⟩ := hruns.serves hserves
  have hends := Step.ends_operations_iff.mpr hruns
  have hrun : (Step.operations env call items).run (s.opened env.faults) = (.ok changes, b) := hends
  have hpublish : b.tx.publish s.content = some b.tx.content :=
    Step.operations_replay hlooks hends rfl
  have hclosed (c : Content) :
      s.Closed { recorded ⟨s.content, b.journal⟩ .commit with content := c } ks .commit
        items.length := by
    refine ⟨hinner, ?_, hpulled⟩
    show b.journal.calls ++ [.commit] = _
    rw [hcalls]
    rfl
  unfold executeStream
  rw [transact_opened hbegin, hrun]
  dsimp only
  cases hcommit : env.faults .commit (b.journal.calls.count .commit) with
  | none =>
      rw [commit_of_granted (s := ⟨s.content, b.journal⟩) hcommit hpublish]
      rw [hcalls] at hcommit
      exact .committed hbegin hruns (hgrants.append (.cons hcommit (.nil _))) (hclosed _) rfl
  | some f =>
      rw [commit_of_fault (s := ⟨s.content, b.journal⟩) b.tx hcommit]
      rw [hcalls] at hcommit
      exact .uncommitted hbegin hruns hgrants hcommit (hclosed _) rfl

end

/-- Whatever calls of the store fail, a batch goes in one of four ways.  If its transaction cannot
be opened, nothing else is called.  Otherwise the transaction is closed exactly once, by a commit if
all items of the stream have succeeded, and by an abort behind the first that has not; nothing is
called or taken from the stream after that.  The outcome is the error of this item, even if the
abort fails, or that of the commit, or what the items answer.  With an error, the committed
content stays as it is. -/
theorem executeStream_conducts (hlooks : env.evaluator.Looks) (hserves : env.evaluator.Serves)
    (s : Session) (call : BatchCall) (items : List (Except UpdateError Operation)) :
    Conducts env call s items (s.executeStream env call items) ∧
      ∀ e, (s.executeStream env call items).1 = .error e →
        (s.executeStream env call items).2.content = s.content := by
  have hconducts : Conducts env call s items (s.executeStream env call items) := by
    cases hbegin : env.faults .begin (s.journal.calls.count .begin) with
    | some f =>
        have hexecute : s.executeStream env call items =
            (.error (.storage f), s.recorded .begin) := by
          refine (transact_eq s env.faults (Step.operations env call items)).trans ?_
          rw [call_eq, hbegin]
          rfl
        rw [hexecute]
        exact .unopened hbegin rfl rfl rfl
    | none =>
        obtain ⟨changes, b, hends⟩ | ⟨e, hfails⟩ :=
          ends_or_fails (Step.operations env call items) (s.opened env.faults)
        · exact conducts_of_runs hbegin hserves hlooks (Step.ends_operations_iff.mp hends)
        · obtain ⟨before, i, rest, changes, b, hitems, hruns, b', hitem⟩ :=
            Step.fails_operations_iff.mp hfails
          exact conducts_of_fails hbegin hserves hitems hruns hitem
  refine ⟨hconducts, fun e he => ?_⟩
  generalize s.executeStream env call items = result at hconducts he
  cases hconducts with
  | unopened _ _ _ hcontent => exact hcontent
  | aborted _ _ _ _ _ _ hcontent => exact hcontent
  | uncommitted _ _ _ _ _ hcontent => exact hcontent
  | committed => cases he

/-- The second write fails, in the middle of the second operation, and then the abort does. -/
theorem executeStream_conducts_twice_failing :
    let q : Quad := ⟨.iri ⟨"s"⟩, ⟨"p"⟩, .iri ⟨"o"⟩, .default⟩
    let full : StorageError := .other "full"
    let env : Environment := { faults := fun kind n =>
      if kind = .write ∧ n = 1 then some full
      else if kind = .abort then some (.other "closed") else none }
    let ops : List Operation := [{ action := .insertData [q] },
      { action := .graph ⟨.clear, .defaultGraph, none, false⟩ }, { action := .insertData [q] }]
    ∃ s', Session.executeStream {} env {} (ops.map .ok) = (.error (.storage full), s') ∧
      s'.journal.calls = [.begin, .write, .read, .write, .abort] ∧ s'.journal.pulled = 2 ∧
      s'.content = {} := by
  intro q full env ops
  have hlooks : env.evaluator.Looks := Evaluator.looks_scanning
  have hserves : env.evaluator.Serves := Evaluator.serves_scanning
  have hfailed : (match (Session.executeStream {} env {} (ops.map .ok)).1 with
      | .error (.storage f) => some f
      | _ => none) = some full := by decide +kernel
  have hcalls : (Session.executeStream {} env {} (ops.map .ok)).2.journal.calls =
      [.begin, .write, .read, .write, .abort] := by decide +kernel
  have hpulled : (Session.executeStream {} env {} (ops.map .ok)).2.journal.pulled = 2 := by
    decide +kernel
  obtain ⟨-, hcontent⟩ := executeStream_conducts hlooks hserves {} {} (ops.map .ok)
  generalize Session.executeStream {} env {} (ops.map .ok) = result
    at hfailed hcalls hpulled hcontent ⊢
  obtain ⟨outcome, s'⟩ := result
  cases outcome with
  | ok changes => cases hfailed
  | error e =>
      cases e with
      | storage f =>
          obtain rfl : f = full := Option.some.inj hfailed
          exact ⟨s', rfl, hcalls, hpulled, hcontent _ rfl⟩
      | _ => cases hfailed

end Session

end GraphStore
