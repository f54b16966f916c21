/-
# `GraphStore.Proofs.Concatenation` — one batch or two

Operations can be executed in one batch, or the first of them in one batch and the others in
the next.

    one     b₀ ──A──▶ b₁ ─────────────────────────B──▶ b₂ ──commit──▶ c₂
                      ≈                                ≈
    two     b₀ ──A──▶ b₁ ──commit──▶ c₁ ──begin──▶ b₀′ ──B──▶ b₂′ ──commit──▶ c₂

In front of `B` the two batches differ in their logs and in all that is recorded about the
session, and the first may still hold what the last operation of `A` has passed and noted.  They
are `Akin`: they stand at the same content, and the same new blank nodes are to come.  An operation
cannot tell more than that, since it begins by forgetting what the one before has left
(`respects_operation`); while it runs, it goes by what it has itself passed and noted
(`Batch.Alike`).

`x.Respects R` says that the steps have the same outcome on batches that `R` relates, and
lead to batches that `R` relates.  What they call must not fail by schedule, because a schedule
counts the calls.
-/
import GraphStore.Proofs.Atomicity
import GraphStore.Proofs.Plans

namespace GraphStore

namespace Batch

/-- The batches stand at the same content, and the same new blank nodes are to come. -/
structure Akin (b b' : Batch) : Prop where
  content : b.tx.content = b'.tx.content
  nextNode : b.journal.nextNode = b'.journal.nextNode

/-- The running operation has moreover passed and noted the same. -/
structure Alike (b b' : Batch) : Prop extends Akin b b' where
  passed : b.passed = b'.passed
  deleted : b.deleted = b'.deleted
  inserted : b.inserted = b'.inserted

end Batch

namespace TransactionStep

/-- What a change does to the content does not depend on the log. -/
theorem edit_congr {tx tx' : Transaction} (h : tx.content = tx'.content) (e : Edit) :
    (tx.edit e).1 = (tx'.edit e).1 ∧ (tx.edit e).2.content = (tx'.edit e).2.content := by
  unfold Transaction.edit Transaction.record
  rw [← h]
  cases e.apply tx.content with
  | none => exact ⟨rfl, h⟩
  | some c => exact ⟨rfl, rfl⟩

theorem edits_congr {tx tx' : Transaction} (h : tx.content = tx'.content) (es : List Edit) :
    (tx.edits es).content = (tx'.edits es).content := by
  induction es generalizing tx tx' with
  | nil => exact h
  | cons e es ih => exact ih (edit_congr h e).2

theorem run_congr {tx tx' : Transaction} (h : tx.content = tx'.content)
    (step : TransactionStep) :
    (step.run tx).1 = (step.run tx').1 ∧ (step.run tx).2.content = (step.run tx').2.content := by
  cases step with
  | removeGraph g =>
      refine ⟨congrArg (·.containsGraph g) h, ?_⟩
      rw [run_eq_edits, run_eq_edits, ← h]
      exact edits_congr h _
  | addToDefault t => exact edit_congr h (.addedTriple t)
  | removeFromDefault t => exact edit_congr h (.removedTriple t)
  | addToNamed g t => exact edit_congr h (.addedQuad (t.inGraph (.named g)))
  | removeFromNamed g t => exact edit_congr h (.removedQuad (t.inGraph (.named g)))
  | insertGraph g => exact edit_congr h (.registered g)

end TransactionStep

/-! ## Steps that cannot tell batches apart -/

namespace BatchM

variable {ε δ α β : Type} {R : Batch → Batch → Prop}

/-- On related batches the two have the same outcome, and lead to related batches. -/
def Mirrors (R : Batch → Batch → Prop) (x y : BatchM ε α) : Prop :=
  ∀ b b', R b b' → (x.run b).1 = (y.run b').1 ∧ R (x.run b).2 (y.run b').2

theorem Mirrors.bind {x y : BatchM ε α} {f g : α → BatchM ε β} (hx : x.Mirrors R y)
    (hf : ∀ a, (f a).Mirrors R (g a)) : (x >>= f).Mirrors R (y >>= g) := by
  intro b b' h
  obtain ⟨houtcome, hrelated⟩ := hx b b' h
  rw [run_bind, run_bind]
  cases hrun : x.run b with
  | mk r b₁ =>
      cases hrun' : y.run b' with
      | mk r' b₁' =>
          rw [hrun, hrun'] at houtcome hrelated
          obtain rfl : r = r' := houtcome
          cases r with
          | ok a => exact hf a b₁ b₁' hrelated
          | error e => exact ⟨rfl, hrelated⟩

/-- On related batches the steps have the same outcome, and lead to related batches. -/
def Respects (R : Batch → Batch → Prop) (x : BatchM ε α) : Prop :=
  ∀ b b', R b b' → (x.run b).1 = (x.run b').1 ∧ R (x.run b).2 (x.run b').2

theorem respects_pure (a : α) : Respects R (pure a : BatchM ε α) := fun _ _ h => ⟨rfl, h⟩

theorem respects_throw (e : ε) : Respects R (throw e : BatchM ε α) := fun _ _ h => ⟨rfl, h⟩

theorem respects_modify {f : Batch → Batch} (hf : ∀ b b', R b b' → R (f b) (f b')) :
    Respects R (modify f : BatchM ε PUnit) := fun b b' h => ⟨rfl, hf b b' h⟩

theorem Respects.bind {x : BatchM ε α} {f : α → BatchM ε β} (hx : x.Respects R)
    (hf : ∀ a, (f a).Respects R) : (x >>= f).Respects R :=
  Mirrors.bind (R := R) hx hf

theorem Respects.mapError {x : BatchM ε α} (hx : x.Respects R) (f : ε → δ) :
    (mapError f x).Respects R := by
  intro b b' h
  obtain ⟨houtcome, hrelated⟩ := hx b b' h
  exact ⟨congrArg (Except.mapError f) houtcome, hrelated⟩

/-- A store call that goes by the content alone. -/
theorem respects_call {faults : Faults} {kind : CallKind} (hkind : ∀ n, faults kind n = none)
    {act : Transaction → α × Transaction}
    (hact : ∀ tx tx' : Transaction, tx.content = tx'.content →
      (act tx).1 = (act tx').1 ∧ (act tx).2.content = (act tx').2.content) :
    (call faults kind act).Respects Batch.Alike := by
  intro b b' h
  obtain ⟨hanswer, hcontent⟩ := hact b.tx b'.tx h.content
  rw [run_call_of_faultless hkind, run_call_of_faultless hkind, hanswer]
  exact ⟨rfl, ⟨hcontent, h.nextNode⟩, h.passed, h.deleted, h.inserted⟩

end BatchM

/-- The lookups cannot tell related batches apart. -/
def Reader.Respects {ε : Type} (R : Batch → Batch → Prop) (r : Reader (BatchM ε)) : Prop :=
  Related (fun _ x _ => x.Respects R) r r

/-- Over a reader that cannot tell related batches apart, the evaluator cannot either. -/
def Evaluator.Respects (R : Batch → Batch → Prop) (e : Evaluator) : Prop :=
  ∀ r : Reader (BatchM EvaluationError), r.Respects R →
    ∀ p scope input, (e.run r p scope input).Respects R

/-- Over a reader that cannot tell batches apart, the evaluator cannot either: its answers depend
on what it reads, and not on when or in which batch it is asked. -/
def Evaluator.Repeatable (e : Evaluator) : Prop :=
  ∀ r : Reader (BatchM EvaluationError), r.Respects Batch.Alike →
    ∀ p scope input, (e.run r p scope input).Respects Batch.Alike

theorem uniform_respects (R : Batch → Batch → Prop) :
    Uniform (m := BatchM EvaluationError) (n := BatchM EvaluationError)
      fun _ x _ => x.Respects R where
  pure a := BatchM.respects_pure a
  throw e := BatchM.respects_throw e
  bind hx hf := hx.bind hf

theorem Evaluator.respects_scanning (R : Batch → Batch → Prop) : scanning.Respects R := by
  intro r hr p scope input
  have huniform := uniform_respects R
  exact huniform.eval (huniform.dataset hr scope) p .default _

theorem Evaluator.repeatable_scanning : scanning.Repeatable := respects_scanning Batch.Alike

theorem Reader.respects_reader {ε : Type} {faults : Faults}
    (hfaults : ∀ kind n, faults kind n = none) (f : StorageError → ε) :
    (BatchM.reader faults f).Respects Batch.Alike := by
  have hlook : ∀ {α : Type} (kind : CallKind) (read : Content → α),
      (BatchM.mapError f (BatchM.call faults kind fun tx => (read tx.content, tx))).Respects
        Batch.Alike := by
    intro α kind read
    refine BatchM.Respects.mapError (BatchM.respects_call (hfaults kind) fun tx tx' h => ?_) f
    exact ⟨congrArg read h, h⟩
  exact ⟨fun k => hlook .read (·.findDefault k), fun g k => hlook .read (·.findNamed g k),
    fun k => hlook .read (·.findAnyNamed k), hlook .graphs (·.namedGraphs),
    fun g => hlook .graphs (·.containsGraph g)⟩

namespace Step

open BatchM

variable {env : Environment} (hfaults : ∀ kind n, env.faults kind n = none)

include hfaults

theorem compositional_respects : Compositional env fun _ x => x.Respects Batch.Alike where
  pure := respects_pure
  bind := Respects.bind
  check user kind g := by
    intro b b' h
    rw [run_check, run_check, ← h.passed]
    split
    · exact ⟨rfl, h⟩
    · refine ⟨rfl, ⟨h.content, h.nextNode⟩, ?_, h.deleted, h.inserted⟩
      exact congrArg (· ++ [(kind, g)]) h.passed
  quadsOf g := by
    have hreader := Reader.respects_reader hfaults UpdateError.storage
    cases g with
    | default => exact hreader.findDefault .any
    | named g => exact hreader.findNamed g .any
  containsGraph := (Reader.respects_reader hfaults UpdateError.storage).containsGraph
  namedGraphs := (Reader.respects_reader hfaults UpdateError.storage).namedGraphs
  change step := (respects_call (hfaults .write) fun _ _ h => step.run_congr h).mapError _
  noteInserted q := respects_modify fun b b' h => by
    refine ⟨⟨h.content, h.nextNode⟩, h.passed, h.deleted, ?_⟩
    exact congrArg (· ++ [q]) h.inserted
  noteDeleted q := respects_modify fun b b' h => by
    refine ⟨⟨h.content, h.nextNode⟩, h.passed, ?_, h.inserted⟩
    exact congrArg (· ++ [q]) h.deleted

omit hfaults in
theorem respects_takeNodes (count : Nat) : (takeNodes count).Respects Batch.Alike := by
  intro b b' h
  refine ⟨congrArg Except.ok h.nextNode, ⟨h.content, ?_⟩, h.passed, h.deleted, h.inserted⟩
  exact congrArg (· + count) h.nextNode

variable (hevaluator : env.evaluator.Repeatable)

include hevaluator

theorem respects_action (user : User) (input : Option Binding) (a : Action) :
    (action env user input a).Respects Batch.Alike := by
  refine (compositional_respects hfaults).action (fun _ _ => respects_throw _)
    (fun _ _ => respects_throw _) fun m _ => ⟨?_, respects_takeNodes⟩
  have hreader := (uniform_respects Batch.Alike).restrict
    (Reader.respects_reader hfaults EvaluationError.storage) env.policy user
  exact (hevaluator _ hreader m.pattern m.scope (m.input.or input)).mapError _

/-- An operation goes by nothing that the one before it has left but the content. -/
theorem respects_operation (user : User) (input : Option Binding) (op : Operation) :
    (operation env user input op).Respects Batch.Akin := by
  intro b b' h
  have hbegun : (begun b).Alike (begun b') := ⟨⟨h.content, h.nextNode⟩, rfl, rfl, rfl⟩
  obtain ⟨houtcome, halike⟩ :=
    respects_action hfaults hevaluator (op.user.getD user) input op.action _ _ hbegun
  rw [run_operation, run_operation]
  refine ⟨?_, halike.toAkin⟩
  unfold answered answer Batch.ledger
  rw [houtcome, halike.deleted, halike.inserted]

theorem respects_item (call : BatchCall) (i : Except UpdateError Operation) :
    (item env call i).Respects Batch.Akin := by
  refine (respects_modify fun b b' h => ⟨h.content, h.nextNode⟩).bind fun _ => ?_
  cases i with
  | error e => exact respects_throw e
  | ok op => exact respects_operation hfaults hevaluator _ _ _

theorem respects_operations (call : BatchCall) (items : List (Except UpdateError Operation)) :
    (operations env call items).Respects Batch.Akin := by
  induction items with
  | nil => exact respects_pure []
  | cons i items ih =>
      rw [operations_cons]
      refine (respects_item hfaults hevaluator call i).bind fun change => ?_
      exact ih.bind fun changes => respects_pure (change :: changes)

/-! ## One stream or two -/

/-- The second part may be run in a batch of its own, at the content that the first has left. -/
theorem run_operations_append {call : BatchCall} {items : List (Except UpdateError Operation)}
    (items' : List (Except UpdateError Operation)) {b b₁ b' : Batch} {before : List Change}
    (hbefore : (operations env call items).run b = (.ok before, b₁)) (hakin : b₁.Akin b') :
    ((operations env call (items ++ items')).run b).1 =
        ((operations env call items').run b').1.map (before ++ ·) ∧
      ((operations env call (items ++ items')).run b).2.Akin
        ((operations env call items').run b').2 := by
  obtain ⟨houtcome, hakin'⟩ := respects_operations hfaults hevaluator call items' b₁ b' hakin
  rw [operations_append, run_bind, hbefore]
  dsimp only
  rw [run_bind]
  cases hafter : (operations env call items').run b₁ with
  | mk r b₂ =>
      rw [hafter] at houtcome hakin'
      rw [← houtcome]
      cases r with
      | ok after => exact ⟨rfl, hakin'⟩
      | error e => exact ⟨rfl, hakin'⟩

end Step

namespace Session

open BatchM

variable {env : Environment}

theorem nextNode_commit (s : Session) (faults : Faults) (tx : Transaction) :
    (s.commit faults tx).2.journal.nextNode = s.journal.nextNode := by
  unfold commit
  have hcall : (s.call faults .commit).2.journal.nextNode = s.journal.nextNode := rfl
  cases hcommit : s.call faults .commit with
  | mk outcome s₁ =>
      rw [hcommit] at hcall
      cases outcome with
      | error e => exact hcall
      | ok _ =>
          dsimp only
          cases tx.publish s₁.content <;> exact hcall

/-- The new blank nodes that a batch has taken are not given back, committed or not. -/
theorem nextNode_transact {α : Type} {faults : Faults} (hbegin : ∀ n, faults .begin n = none)
    (s : Session) (steps : Step α) : (s.transact faults steps).2.journal.nextNode =
      (steps.run (s.opened faults)).2.journal.nextNode := by
  rw [transact_opened (hbegin _)]
  cases steps.run (s.opened faults) with
  | mk r b =>
      cases r with
      | error e => rfl
      | ok a =>
          have hnext := nextNode_commit ⟨s.content, b.journal⟩ faults b.tx
          dsimp only
          cases hcommit : commit ⟨s.content, b.journal⟩ faults b.tx with
          | mk outcome s' =>
              rw [hcommit] at hnext
              cases outcome <;> exact hnext

section

variable (hlooks : env.evaluator.Looks) (hfaults : ∀ kind n, env.faults kind n = none)

include hlooks hfaults

/-- Where no store call fails, a batch is executed exactly if its operations run. -/
theorem execute_outcome (s : Session) (call : BatchCall) (ops : List Operation) :
    (s.execute env call ops).1 = (s.progress env call ops).1 := by
  obtain ⟨changes, b, hends⟩ | ⟨e, hfails⟩ :=
    ends_or_fails (Step.operations env call (ops.map .ok)) (s.opened env.faults)
  · have hprogress : s.progress env call ops = (.ok changes, b) := hends
    obtain ⟨s', hexecute, -⟩ :=
      executeStream_of_ends hlooks (hfaults .begin) (hfaults .commit) hends
    rw [hprogress]
    exact congrArg Prod.fst hexecute
  · obtain ⟨s', hexecute, -⟩ := transact_of_fails (hfaults .begin) hfails
    obtain ⟨b, hrun⟩ := hfails
    have hprogress : s.progress env call ops = (.error e, b) := hrun
    rw [hprogress]
    exact congrArg Prod.fst hexecute

/-- Another session that has the committed content goes on where the batch has stood. -/
theorem akin_opened {s t : Session} {call : BatchCall} {ops : List Operation}
    {changes : List Change} {b : Batch} (hprogress : s.progress env call ops = (.ok changes, b))
    (hcontent : t.content = (s.execute env call ops).2.content)
    (hnode : t.journal.nextNode = (s.execute env call ops).2.journal.nextNode) :
    b.Akin (t.opened env.faults) := by
  obtain ⟨s', hexecute, hs'⟩ :=
    executeStream_of_ends hlooks (hfaults .begin) (hfaults .commit) hprogress
  have hnext := nextNode_transact (hfaults .begin) s (Step.operations env call (ops.map .ok))
  rw [show (Step.operations env call (ops.map .ok)).run (s.opened env.faults) = _ from hprogress]
    at hnext
  constructor
  · show b.tx.content = t.content
    rw [hcontent, ← hs']
    exact congrArg (·.2.content) hexecute.symm
  · show b.journal.nextNode = t.journal.nextNode
    rw [hnode]
    exact hnext.symm

omit hfaults in
theorem content_of_execute {s : Session} {call : BatchCall} {ops : List Operation}
    {changes : List Change} (h : (s.execute env call ops).1 = .ok changes) :
    (s.execute env call ops).2.content = (s.progress env call ops).2.tx.content := by
  have hexecute : s.execute env call ops = (.ok changes, (s.execute env call ops).2) :=
    Prod.ext h rfl
  obtain ⟨b, hprogress, hcontent⟩ := execute_eq_ok hlooks hexecute
  rw [hcontent, hprogress]

/-- A batch fails if its first operations do. -/
theorem execute_append_of_error {s : Session} {call : BatchCall} {ops : List Operation}
    (ops' : List Operation) {e : UpdateError} (h : (s.execute env call ops).1 = .error e) :
    (s.execute env call (ops ++ ops')).1 = .error e := by
  rw [execute_outcome hlooks hfaults] at h ⊢
  unfold progress at h ⊢
  rw [List.map_append, Step.operations_append, run_bind]
  cases hrun : (Step.operations env call (ops.map .ok)).run (s.opened env.faults) with
  | mk r b =>
      rw [hrun] at h
      obtain rfl : r = .error e := h
      rfl

variable (hevaluator : env.evaluator.Repeatable)

include hevaluator

/-- The other operations of a batch come out as in a batch of their own. -/
theorem execute_append_of_ok {s t : Session} {call : BatchCall} {ops : List Operation}
    (ops' : List Operation) {before : List Change}
    (hfirst : (s.execute env call ops).1 = .ok before)
    (hcontent : t.content = (s.execute env call ops).2.content)
    (hnode : t.journal.nextNode = (s.execute env call ops).2.journal.nextNode) :
    (s.execute env call (ops ++ ops')).1 = (t.execute env call ops').1.map (before ++ ·) ∧
      (s.progress env call (ops ++ ops')).2.Akin (t.progress env call ops').2 := by
  have hprogress : s.progress env call ops = (.ok before, (s.progress env call ops).2) := by
    rw [execute_outcome hlooks hfaults] at hfirst
    exact Prod.ext hfirst rfl
  have hakin := akin_opened hlooks hfaults hprogress hcontent hnode
  obtain ⟨houtcome, hakin'⟩ := Step.run_operations_append hfaults hevaluator
    (ops'.map .ok) hprogress hakin
  rw [execute_outcome hlooks hfaults, execute_outcome hlooks hfaults]
  unfold progress
  rw [List.map_append]
  exact ⟨houtcome, hakin'⟩

/-- Executing operations in one batch is executing the first of them, and then the others on the
content that was committed, with the new blank nodes that are then to come: the one batch succeeds
exactly if the two do, and then it answers what they answer and commits the same content. -/
theorem execute_append (s t : Session) (call : BatchCall) (ops ops' : List Operation)
    (hcontent : t.content = (s.execute env call ops).2.content)
    (hnode : t.journal.nextNode = (s.execute env call ops).2.journal.nextNode) :
    let whole := s.execute env call (ops ++ ops')
    let first := s.execute env call ops
    let second := t.execute env call ops'
    ((∃ changes, whole.1 = .ok changes) ↔
        (∃ before, first.1 = .ok before) ∧ ∃ after, second.1 = .ok after) ∧
      ∀ before after, first.1 = .ok before → second.1 = .ok after →
        whole.1 = .ok (before ++ after) ∧ whole.2.content = second.2.content ∧
        whole.2.journal.nextNode = second.2.journal.nextNode := by
  intro whole first second
  constructor
  · cases hfirst : first.1 with
    | error e =>
        have hwhole : whole.1 = .error e := execute_append_of_error hlooks hfaults ops' hfirst
        rw [hwhole]
        constructor
        · rintro ⟨_, h⟩
          cases h
        · rintro ⟨⟨_, h⟩, -⟩
          cases h
    | ok before =>
        have hwhole : whole.1 = second.1.map (before ++ ·) :=
          (execute_append_of_ok hlooks hfaults hevaluator ops' hfirst hcontent hnode).1
        rw [hwhole]
        cases second.1 with
        | error e =>
            constructor
            · rintro ⟨_, h⟩
              cases h
            · rintro ⟨-, _, h⟩
              cases h
        | ok after => exact ⟨fun _ => ⟨⟨before, rfl⟩, after, rfl⟩, fun _ => ⟨before ++ after, rfl⟩⟩
  · intro before after hfirst hsecond
    obtain ⟨houtcome, hakin⟩ :=
      execute_append_of_ok hlooks hfaults hevaluator ops' hfirst hcontent hnode
    have hwhole : whole.1 = .ok (before ++ after) := by
      rw [show whole.1 = second.1.map (before ++ ·) from houtcome, hsecond]
      rfl
    refine ⟨hwhole, ?_, ?_⟩
    · show (s.execute env call (ops ++ ops')).2.content = (t.execute env call ops').2.content
      rw [content_of_execute hlooks hwhole, content_of_execute hlooks hsecond]
      exact hakin.content
    · show (s.execute env call (ops ++ ops')).2.journal.nextNode = _
      exact (nextNode_transact (hfaults .begin) s _).trans
        (hakin.nextNode.trans (nextNode_transact (hfaults .begin) t _).symm)

end

/-- Every value of `p` gets a new subject. -/
def doubling (p : Iri) : Operation :=
  { action := .modify {
      delete := []
      insert := [⟨.blank (.label "b"), .iri p, .var ⟨"o"⟩, .default⟩]
      pattern := .bgp [⟨.var ⟨"s"⟩, .iri p, .var ⟨"o"⟩⟩] } }

/-- Three new subjects, in one batch or in two: the second operation finds what the first has
added, and its new blank nodes are the next ones. -/
theorem execute_append_doubling :
    let fresh (n : Nat) : Quad := ⟨.blank (.fresh n), ⟨"p"⟩, .iri ⟨"o"⟩, .default⟩
    let s : Session := { content := { triples := [⟨.iri ⟨"s"⟩, ⟨"p"⟩, .iri ⟨"o"⟩⟩] } }
    let ops : List Operation := [doubling ⟨"p"⟩]
    ∃ s₁ s₂ s', s.execute {} {} ops = (.ok [⟨some [], some [fresh 0]⟩], s₁) ∧
      s₁.execute {} {} ops = (.ok [⟨some [], some [fresh 1, fresh 2]⟩], s₂) ∧
      s.execute {} {} (ops ++ ops) =
        (.ok ([⟨some [], some [fresh 0]⟩] ++ [⟨some [], some [fresh 1, fresh 2]⟩]), s') ∧
      s'.content = s₂.content := by
  intro fresh s ops
  have hlooks : ({} : Environment).evaluator.Looks := Evaluator.looks_scanning
  have hrepeatable : ({} : Environment).evaluator.Repeatable := Evaluator.repeatable_scanning
  obtain ⟨s₂, hsecond⟩ : ∃ s₂, (s.execute {} {} ops).2.execute {} {} ops =
      (.ok [⟨some [], some [fresh 1, fresh 2]⟩], s₂) :=
    ⟨_, eq_ok_of_toOption (by decide +kernel)⟩
  obtain ⟨s₁, hfirst⟩ : ∃ s₁, s.execute {} {} ops = (.ok [⟨some [], some [fresh 0]⟩], s₁) :=
    ⟨_, eq_ok_of_toOption (by decide +kernel)⟩
  rw [hfirst] at hsecond
  have happend := execute_append hlooks (fun _ _ => rfl) hrepeatable s s₁ {} ops ops
    (by rw [hfirst]) (by rw [hfirst])
  obtain ⟨hwhole, hcontent, -⟩ := happend.2 _ _ (by rw [hfirst]) (by rw [hsecond])
  rw [hsecond] at hcontent
  refine ⟨s₁, s₂, (s.execute {} {} (ops ++ ops)).2, hfirst, hsecond, ?_, hcontent⟩
  exact eq_ok_of_toOption (by rw [hwhole]; rfl)

end Session

end GraphStore
