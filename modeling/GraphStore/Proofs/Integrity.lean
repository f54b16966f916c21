/-
# `GraphStore.Proofs.Integrity` — what every content of a store satisfies

A store that begins empty can be changed in several ways: by the changes of a transaction,
by quads that are added or taken out past the policy, by batches of operations.

    changes, extend, insert, remove ──────────────┐
    operations ── steps ── (Acts) ────────────────┼──▶ TransactionStep ──▶ Write ──▶ Valid
                                                  │
    replay of the log ────────────────────────────┘

None of them reaches a content but through the changes that a transaction offers, and these
are elementary writes (`TransactionStep.exists_writes`), each of which keeps a content
valid.  For batches this is `BatchM.Acts`: however an operation comes out, also if it breaks
off in its middle, its transaction is where some list of changes leads.

`Content.Consistent` spells out what the validity of the three lists gives to a reader:
the check of the lists finds no defect, and the named graphs, listed or asked for one by one,
are the registered ones and those of the quads.
-/
import Mathlib.Logic.Relation
import GraphStore.Proofs.Plans
import GraphStore.Proofs.Reachable
import GraphStore.Proofs.Frame
import GraphStore.Store

namespace GraphStore

/-! ## Consistent contents -/

namespace Content

variable {c c' : Content}

theorem firstRepeated_eq_none {α : Type} [BEq α] [LawfulBEq α] {seen xs : List α} :
    firstRepeated seen xs = none ↔ xs.Nodup ∧ ∀ x ∈ xs, x ∉ seen := by
  induction xs generalizing seen with
  | nil => simp [firstRepeated]
  | cons x xs ih =>
      unfold firstRepeated
      by_cases hx : x ∈ seen
      · simp [hx]
      · simp only [List.contains_iff_mem, hx, if_false, ih, List.nodup_cons, List.mem_cons,
          forall_eq_or_imp, not_or]
        constructor
        · rintro ⟨hnodup, hseen⟩
          exact ⟨⟨fun h => (hseen x h).1 rfl, hnodup⟩, not_false, fun y hy => (hseen y hy).2⟩
        · rintro ⟨⟨hxs, hnodup⟩, -, hseen⟩
          exact ⟨hnodup, fun y hy => ⟨fun h => hxs (h ▸ hy), hseen y hy⟩⟩

theorem quadDefect_eq_none {seen qs : List Quad} :
    quadDefect seen qs = none ↔
      (∀ q ∈ qs, q.graph ≠ .default) ∧ firstRepeated seen qs = none := by
  induction qs generalizing seen with
  | nil => simp [quadDefect, firstRepeated]
  | cons q qs ih =>
      unfold quadDefect firstRepeated
      by_cases hq : q.graph = .default
      · simp [hq]
      · by_cases hseen : q ∈ seen
        · simp [hq, hseen]
        · simp [hq, hseen, ih]

/-- The check of a content finds a defect exactly if the content is not valid. -/
theorem defect?_eq_none : c.defect? = none ↔ c.Valid := by
  unfold defect?
  rw [Option.or_eq_none_iff, Option.or_eq_none_iff, Option.map_eq_none_iff,
    Option.map_eq_none_iff, quadDefect_eq_none]
  simp only [firstRepeated_eq_none, List.not_mem_nil, not_false_eq_true, implies_true, and_true]
  constructor
  · rintro ⟨htriples, ⟨hnamed, hquads⟩, hgraphs⟩
    exact ⟨htriples, hquads, hnamed, hgraphs⟩
  · rintro ⟨htriples, hquads, hnamed, hgraphs⟩
    exact ⟨htriples, ⟨hnamed, hquads⟩, hgraphs⟩

/-- The lists of a content hold nothing twice and no quad of another list, and the named graphs are
those that are registered or hold a quad, each of them once. -/
structure Consistent (c : Content) : Prop where
  valid : c.Valid
  no_defect : c.defect? = none
  nodup_namedGraphs : c.namedGraphs.Nodup
  containsGraph_iff : ∀ g, c.containsGraph g = true ↔ g ∈ c.namedGraphs
  mem_namedGraphs_iff : ∀ g,
    g ∈ c.namedGraphs ↔ g ∈ c.graphs ∨ ∃ q ∈ c.quads, q.graph = .named g

theorem Valid.consistent (h : c.Valid) : c.Consistent where
  valid := h
  no_defect := defect?_eq_none.mpr h
  nodup_namedGraphs := nodup_addMissing h.nodup_graphs _
  containsGraph_iff _ := containsGraph_iff_mem
  mem_namedGraphs_iff _ := mem_namedGraphs

end Content

/-! ## Logs -/

namespace Edit

variable {c c' : Content} {log : List Edit}

theorem exists_replay_take (h : replay c log = some c') (k : Nat) :
    ∃ c₁, replay c (log.take k) = some c₁ := by
  rw [← log.take_append_drop k, replay_append] at h
  obtain ⟨c₁, hbefore, -⟩ := Option.bind_eq_some_iff.mp h
  exact ⟨c₁, hbefore⟩

/-- Writes that are replayed on a valid content lead to a valid one. -/
theorem valid_replay {ws : List Write} (hc : c.Valid)
    (h : replay c (ws.map Write.edit) = some c') : c'.Valid := by
  induction ws generalizing c with
  | nil =>
      obtain rfl := Option.some.inj h
      exact hc
  | cons w ws ih =>
      rw [List.map_cons, replay_cons] at h
      obtain ⟨c₁, hw, hws⟩ := Option.bind_eq_some_iff.mp h
      rw [w.apply_edit] at hw
      split at hw
      · rename_i heffective
        obtain rfl := Option.some.inj hw
        exact ih (Write.valid_apply hc heffective) hws
      · cases hw

end Edit

/-- All that is recorded while writes are made are writes. -/
theorem Transaction.exists_log_edits {tx : Transaction} (hlog : ∃ ws : List Write,
    tx.log = ws.map Write.edit) (ws : List Write) :
    ∃ ws' : List Write, (tx.edits (ws.map Write.edit)).log = ws'.map Write.edit := by
  induction ws generalizing tx with
  | nil => exact hlog
  | cons w ws ih =>
      obtain ⟨before, hbefore⟩ := hlog
      have hone : ∃ ws' : List Write, (tx.edit w.edit).2.log = ws'.map Write.edit := by
        by_cases he : w.Effective tx.content
        · refine ⟨before ++ [w], ?_⟩
          rw [edit_of_effective he, List.map_append, ← hbefore]
          rfl
        · rw [edit_of_not_effective he]
          exact ⟨before, hbefore⟩
      exact ih hone

/-! ## Batches -/

namespace BatchM

variable {ε δ α β : Type}

/-- However the steps come out, the transaction is where changes that it offers have led. -/
def Acts (x : BatchM ε α) : Prop :=
  x.Leads fun b b' => ∃ steps, b'.tx = TransactionStep.runAll b.tx steps

theorem acts_of_keeps {x : BatchM ε α} (h : ∀ b, (x.run b).2.tx = b.tx) : x.Acts :=
  fun b => ⟨[], h b⟩

theorem acts_pure (a : α) : Acts (pure a : BatchM ε α) := acts_of_keeps fun _ => rfl

theorem acts_throw (e : ε) : Acts (throw e : BatchM ε α) := acts_of_keeps fun _ => rfl

theorem Looks.acts {x : BatchM ε α} (hx : x.Looks) : x.Acts := by
  refine acts_of_keeps fun b => ?_
  obtain ⟨j, hj⟩ := hx b
  rw [hj]

theorem Acts.bind {x : BatchM ε α} {f : α → BatchM ε β} (hx : x.Acts) (hf : ∀ a, (f a).Acts) :
    (x >>= f).Acts := by
  refine Leads.bind (fun b b₁ b₂ h h' => ?_) hx hf
  obtain ⟨steps, hsteps⟩ := h
  obtain ⟨steps', hsteps'⟩ := h'
  refine ⟨steps ++ steps', ?_⟩
  rw [hsteps', hsteps]
  exact List.foldl_append.symm

theorem Acts.mapError {x : BatchM ε α} (hx : x.Acts) (f : ε → δ) : (mapError f x).Acts := hx

/-- A store call that makes a change makes it or fails. -/
theorem acts_call (faults : Faults) (kind : CallKind) (step : TransactionStep) :
    (call faults kind fun tx => step.run tx).Acts := by
  intro b
  rw [run_call]
  cases b.journal.call faults kind with
  | mk outcome j =>
      cases outcome with
      | error e => exact ⟨[], rfl⟩
      | ok _ => exact ⟨[step], rfl⟩

end BatchM

namespace Step

open BatchM

variable {env : Environment}

theorem compositional_acts (env : Environment) : Compositional env fun _ x => x.Acts where
  pure := acts_pure
  bind := Acts.bind
  check user kind g := acts_of_keeps fun b => by
    rw [run_check]
    split <;> rfl
  quadsOf g := ((Reader.looks_reader env.faults UpdateError.storage).find (some g) .any).acts
  containsGraph g := ((Reader.looks_reader env.faults UpdateError.storage).containsGraph g).acts
  namedGraphs := (Reader.looks_reader env.faults UpdateError.storage).namedGraphs.acts
  change step := (acts_call env.faults .write step).mapError _
  noteInserted _ := acts_of_keeps fun _ => rfl
  noteDeleted _ := acts_of_keeps fun _ => rfl

variable (hlooks : env.evaluator.Looks)

include hlooks

theorem acts_action (user : User) (input : Option Binding) (a : Action) :
    (action env user input a).Acts := by
  refine (compositional_acts env).action (fun _ _ => acts_throw _) (fun _ _ => acts_throw _)
    fun m _ => ⟨?_, fun count => ?_⟩
  · have hreader := (Reader.looks_reader env.faults EvaluationError.storage).restrict
      env.policy user
    exact ((hlooks _ hreader m.pattern m.scope (m.input.or input)).mapError _).acts
  · exact acts_of_keeps fun _ => rfl

theorem acts_operation (user : User) (input : Option Binding) (op : Operation) :
    (operation env user input op).Acts := by
  refine (acts_of_keeps fun _ => rfl).bind fun _ => ?_
  refine (acts_action hlooks (op.user.getD user) input op.action).bind fun _ => ?_
  exact (acts_of_keeps fun _ => rfl).bind fun _ => acts_pure _

theorem acts_operations (call : BatchCall) (items : List (Except UpdateError Operation)) :
    (operations env call items).Acts := by
  induction items with
  | nil => exact acts_pure []
  | cons item items ih =>
      unfold operations
      refine (acts_of_keeps fun _ => rfl).bind fun _ => ?_
      cases item with
      | error e => exact acts_throw e
      | ok op =>
          refine (acts_operation hlooks _ _ _).bind fun change => ?_
          exact ih.bind fun changes => acts_pure (change :: changes)

end Step

/-! ## Commits -/

/-- A commit that finds the first content and publishes the second. -/
inductive Content.Commits : Content → Content → Prop
  /-- Changes of a transaction. -/
  | changes {c c' : Content} {steps : List TransactionStep} :
      (TransactionStep.runAll (.start c) steps).publish c = some c' → Commits c c'
  /-- Quads are added in bulk. -/
  | extend {s s' : Session} {faults : Faults} {quads : List Quad} {count : Nat} :
      s.extend faults quads = (.ok count, s') → Commits s.content s'.content
  | insert {s s' : Store} {q : Quad} {changed : Bool} :
      s.insert q = (.ok changed, s') → Commits s.content s'.content
  | remove {s s' : Store} {q : Quad} {changed : Bool} :
      s.remove q = (.ok changed, s') → Commits s.content s'.content
  /-- The operations of a stream have succeeded. -/
  | batch {s s' : Session} {env : Environment} {call : BatchCall}
      {items : List (Except UpdateError Operation)} {changes : List Change} :
      env.evaluator.Looks → s.executeStream env call items = (.ok changes, s') →
      Commits s.content s'.content

/-- A transaction that was opened on the content and has not been closed. -/
inductive Transaction.OpenOn : Content → Transaction → Prop
  /-- Changes have been made in it. -/
  | changes (c : Content) (steps : List TransactionStep) :
      OpenOn c (TransactionStep.runAll (.start c) steps)
  /-- A batch has run in it, to its end or until it failed. -/
  | batch {env : Environment} (s : Session) (call : BatchCall)
      (items : List (Except UpdateError Operation)) : env.evaluator.Looks →
      OpenOn s.content ((Step.operations env call items).run (s.opened env.faults)).2.tx

namespace Store

variable {s s' : Store}

/-- A single change past the policy; answers whether it had an effect. -/
def change (s : Store) (step : TransactionStep) : Except StorageError Bool × Store :=
  let (r, s) := s.write ([step].map fun step tx => step.run tx)
  (r.map (· != 0), s)

theorem insert_eq_change (s : Store) (q : Quad) : s.insert q = s.change (.insert q) := by
  unfold change
  simp only [List.map_cons, List.map_nil, TransactionStep.run_insert]
  rfl

theorem remove_eq_change (s : Store) (q : Quad) : s.remove q = s.change (.remove q) := by
  unfold change
  simp only [List.map_cons, List.map_nil, TransactionStep.run_remove]
  rfl

theorem reachable_of_change {step : TransactionStep} {changed : Bool}
    (hs : s.content.Reachable) (h : s.change step = (.ok changed, s')) : s'.content.Reachable := by
  unfold change write at h
  cases hwrite : s.session.write Faults.none ([step].map fun step tx => step.run tx) with
  | mk r session =>
      rw [hwrite] at h
      cases r with
      | error e => cases h
      | ok n =>
          cases h
          exact hs.write hwrite

end Store

open TransactionStep in
/-- Adding quads one after the other is a list of changes of a transaction. -/
theorem map_insert_eq (quads : List Quad) : (quads.map fun q tx => Transaction.insert tx q) =
    (quads.map insert).map fun step tx => step.run tx := by
  rw [List.map_map]
  refine List.map_congr_left fun q _ => ?_
  funext tx
  exact (run_insert tx q).symm

/-- Whatever is committed, it leads on from where a store can have come. -/
theorem Content.Commits.reachable {c c' : Content} (h : c.Commits c') (hc : c.Reachable) :
    c'.Reachable := by
  cases h with
  | changes hpublish => exact hc.transaction hpublish
  | extend h =>
      unfold Session.extend at h
      rw [map_insert_eq] at h
      exact hc.write h
  | insert h =>
      rw [Store.insert_eq_change] at h
      exact Store.reachable_of_change hc h
  | remove h =>
      rw [Store.remove_eq_change] at h
      exact Store.reachable_of_change hc h
  | batch hlooks hexecute => exact hc.batch hlooks hexecute

/-- Whatever a store that began empty has committed is reachable. -/
theorem Content.reachable_of_commits {c : Content}
    (h : Relation.ReflTransGen Content.Commits .empty c) : c.Reachable := by
  induction h with
  | refl => exact .empty
  | tail _ hcommit ih => exact hcommit.reachable ih

/-- The transaction of a batch is where changes have led too. -/
theorem Transaction.OpenOn.exists_steps {c : Content} {tx : Transaction}
    (h : Transaction.OpenOn c tx) : ∃ steps, tx = TransactionStep.runAll (.start c) steps := by
  cases h with
  | changes c steps => exact ⟨steps, rfl⟩
  | batch s call items hlooks => exact Step.acts_operations hlooks call items _

/-- Everything a store that began empty has committed is consistent, and so is everything that the
transactions opened on it work on: what a transaction holds is what its log replays to, and every
part of the log leads to a consistent content. -/
theorem contents_consistent {c : Content} (h : Relation.ReflTransGen Content.Commits .empty c) :
    c.Consistent ∧ ∀ tx : Transaction, Transaction.OpenOn c tx →
      tx.content.Consistent ∧ tx.publish c = some tx.content ∧
        ∀ k, ∃ c', Edit.replay c (tx.log.take k) = some c' ∧ c'.Consistent := by
  have hreachable : c.Reachable := by
    induction h with
    | refl => exact .empty
    | tail _ hcommit ih => exact hcommit.reachable ih
  refine ⟨hreachable.valid.consistent, fun tx hopen => ?_⟩
  obtain ⟨steps, rfl⟩ := hopen.exists_steps
  have hsound := TransactionStep.sound_runAll (Transaction.sound_start hreachable.valid) steps
  refine ⟨hsound.valid.consistent, hsound.publish, fun k => ?_⟩
  obtain ⟨ws, hws⟩ := TransactionStep.exists_writes_runAll (.start c) steps
  have hstart : ∃ ws : List Write, (Transaction.start c).log = ws.map Write.edit := ⟨[], rfl⟩
  obtain ⟨ws', hlog⟩ := Transaction.exists_log_edits hstart ws
  rw [← hws] at hlog
  obtain ⟨c', hc'⟩ := Edit.exists_replay_take hsound.publish k
  refine ⟨c', hc', Content.Valid.consistent ?_⟩
  rw [hlog, ← List.map_take] at hc'
  exact Edit.valid_replay hreachable.valid hc'

/-- Two quads are added, one of them twice, and copied to a graph of their own; then their graph is
being removed. -/
theorem contents_consistent_removing :
    let quad (o : String) (g : Resource) : Quad := ⟨.iri ⟨"s"⟩, ⟨"p"⟩, .iri ⟨o⟩, .named g⟩
    let g : Resource := .iri ⟨"g"⟩
    let d : Resource := .iri ⟨"d"⟩
    let c : Content := { quads := [quad "o" g, quad "n" g, quad "o" d, quad "n" d] }
    let log := (TransactionStep.runAll (.start c) [.removeGraph g]).log
    Relation.ReflTransGen Content.Commits .empty c ∧ c.Consistent ∧
      (∃ c', Edit.replay c (log.take 1) = some c' ∧ c'.Consistent) ∧
      Edit.replay c (log.take 1) = some { quads := [quad "n" g, quad "o" d, quad "n" d] } := by
  intro quad g d c log
  let added := Session.extend {} Faults.none [quad "o" g, quad "n" g, quad "o" g]
  have hextend : added = (.ok 2, added.2) := Session.eq_ok_of_toOption (by decide +kernel)
  let copied := added.2.execute {} {}
    [{ action := .graph (.transfer .copy (.named g) (.named d) false) }]
  have hcopy : copied = (.ok [⟨some [], some [quad "o" d, quad "n" d]⟩], copied.2) :=
    Session.eq_ok_of_toOption (by decide +kernel)
  have hcontent : copied.2.content = c := by decide +kernel
  have hcommits : Relation.ReflTransGen Content.Commits .empty c := by
    rw [← hcontent]
    exact .tail (.tail .refl (.extend hextend)) (.batch Evaluator.looks_scanning hcopy)
  obtain ⟨hc, hopen⟩ := contents_consistent hcommits
  exact ⟨hcommits, hc, (hopen _ (.changes c [.removeGraph g])).2.2 1, by decide +kernel⟩

end GraphStore
