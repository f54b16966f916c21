/-
# `GraphStore.Proofs.Reachable` — the contents that a store can come to hold

A store begins empty and its committed content changes only when a transaction is
committed: one of single changes, or one that a batch has run in.  `Reachable` is
the closure under these two, and `Reachable.valid` the invariant it satisfies.
Every change a transaction offers is a list of elementary writes, so that the
invariant and the replay of the log come down to those of one write.
-/
import GraphStore.Proofs.Run

namespace GraphStore

/-- A content that a store which began empty can have committed. -/
inductive Content.Reachable : Content → Prop
  | empty : Reachable .empty
  | transaction {c c' : Content} {steps : List TransactionStep} :
      Reachable c → (TransactionStep.runAll (.start c) steps).publish c = some c' → Reachable c'
  | batch {s s' : Session} {env : Environment} {call : BatchCall}
      {items : List (Except UpdateError Operation)} {changes : List Change} :
      Reachable s.content → env.evaluator.Looks →
      s.executeStream env call items = (.ok changes, s') → Reachable s'.content

namespace Transaction

/-- The transaction works on a valid content, and its log leads there from the committed one. -/
structure Sound (committed : Content) (tx : Transaction) : Prop where
  valid : tx.content.Valid
  publish : tx.publish committed = some tx.content

variable {committed : Content} {tx : Transaction}

theorem sound_start (hc : committed.Valid) : (start committed).Sound committed := ⟨hc, rfl⟩

theorem Sound.edit (h : tx.Sound committed) (w : Write) : (tx.edit w.edit).2.Sound committed := by
  refine ⟨?_, publish_edit h.publish w.edit⟩
  by_cases he : w.Effective tx.content
  · rw [edit_of_effective he]
    exact Write.valid_apply h.valid he
  · rw [edit_of_not_effective he]
    exact h.valid

theorem Sound.edits (h : tx.Sound committed) (ws : List Write) :
    (tx.edits (ws.map Write.edit)).Sound committed := by
  induction ws generalizing tx with
  | nil => exact h
  | cons w ws ih => exact ih (h.edit w)

end Transaction

namespace TransactionStep

variable {committed : Content} {tx : Transaction}

/-- Removing a graph is a list of elementary writes. -/
theorem removeGraph_eq_edits (tx : Transaction) (g : Resource) :
    (tx.removeGraph g).2 =
      tx.edits (((tx.content.findNamed g .any).map Write.remove ++
        [Write.unregister g]).map Write.edit) := by
  have hedits : ((tx.content.findNamed g .any).map Write.remove).map Write.edit =
      (tx.content.findNamed g .any).map .removedQuad := by
    rw [List.map_map]
    refine List.map_congr_left fun q hq => ?_
    have hg : q.graph = .named g := (Content.mem_within (g := .named g).mp hq).1
    simp only [Function.comp_apply, Write.edit, hg]
  rw [List.map_append, hedits]
  exact run_eq_edits tx (.removeGraph g)

/-- Whatever a transaction offers is a list of elementary writes. -/
theorem exists_writes (tx : Transaction) (step : TransactionStep) :
    ∃ ws : List Write, (step.run tx).2 = tx.edits (ws.map Write.edit) := by
  cases step with
  | addToDefault t => exact ⟨[.insert (t.inGraph .default)], rfl⟩
  | removeFromDefault t => exact ⟨[.remove (t.inGraph .default)], rfl⟩
  | addToNamed g t => exact ⟨[.insert (t.inGraph (.named g))], rfl⟩
  | removeFromNamed g t => exact ⟨[.remove (t.inGraph (.named g))], rfl⟩
  | insertGraph g => exact ⟨[.register g], rfl⟩
  | removeGraph g => exact ⟨_, removeGraph_eq_edits tx g⟩

theorem exists_writes_runAll (tx : Transaction) (steps : List TransactionStep) :
    ∃ ws : List Write, runAll tx steps = tx.edits (ws.map Write.edit) := by
  induction steps generalizing tx with
  | nil => exact ⟨[], rfl⟩
  | cons step steps ih =>
      obtain ⟨ws, hstep⟩ := exists_writes tx step
      obtain ⟨ws', hsteps⟩ := ih (step.run tx).2
      refine ⟨ws ++ ws', ?_⟩
      show runAll (step.run tx).2 steps = _
      rw [hsteps, hstep, List.map_append]
      exact List.foldl_append.symm

theorem sound_runAll (h : tx.Sound committed) (steps : List TransactionStep) :
    (runAll tx steps).Sound committed := by
  obtain ⟨ws, hws⟩ := exists_writes_runAll tx steps
  rw [hws]
  exact h.edits ws

end TransactionStep

/-! ## Changes outside of batches

Extending the store and adding or removing a single quad go through `Session.write`,
which makes its changes in a transaction of their own. -/

namespace Session

open BatchM

/-- Calls that change the transaction one after the other. -/
theorem tx_of_ends_mapM {faults : Faults} {acts : List (Transaction → Bool × Transaction)}
    {b b' : Batch} {effects : List Bool}
    (h : Ends (acts.mapM (BatchM.call faults .write)) b effects b') :
    b'.tx = acts.foldl (fun tx act => (act tx).2) b.tx := by
  induction acts generalizing b effects with
  | nil =>
      obtain ⟨-, rfl⟩ := ends_pure.mp h
      rfl
  | cons act acts ih =>
      rw [List.mapM_cons] at h
      obtain ⟨effect, b₁, hact, h⟩ := ends_bind.mp h
      obtain ⟨rest, b₂, hacts, h⟩ := ends_bind.mp h
      obtain ⟨-, rfl⟩ := ends_pure.mp h
      obtain ⟨-, j, rfl⟩ := Ends.of_call hact
      exact ih hacts

theorem write_eq_ok {s s' : Session} {faults : Faults} {n : Nat}
    {acts : List (Transaction → Bool × Transaction)} (h : s.write faults acts = (.ok n, s')) :
    Transaction.publish (acts.foldl (fun tx act => (act tx).2) (.start s.content)) s.content =
      some s'.content := by
  unfold write at h
  have hcontent := s.call_content faults .begin
  cases hbegin : s.call faults .begin with
  | mk outcome s₁ =>
      rw [hbegin] at h hcontent
      cases outcome with
      | error e => cases h
      | ok _ =>
          dsimp only at h hcontent
          rw [hcontent] at h
          split at h
          · rename_i effects b hsteps
            rw [← tx_of_ends_mapM (b := { tx := .start s.content, journal := s₁.journal }) hsteps]
            split at h
            · rename_i s₂ hcommit
              cases h
              exact commit_eq_ok (s := ⟨s.content, b.journal⟩) hcommit
            · cases h
          · split at h <;> cases h

end Session

/-- Changes that are made outside of a batch lead to reachable contents too. -/
theorem Content.Reachable.write {s s' : Session} {faults : Faults}
    {steps : List TransactionStep} {n : Nat} (hs : s.content.Reachable)
    (h : s.write faults (steps.map fun step tx => step.run tx) = (.ok n, s')) :
    s'.content.Reachable := by
  have hpublish := Session.write_eq_ok h
  rw [List.foldl_map] at hpublish
  exact hs.transaction hpublish

/-- Whatever a store has committed is valid. -/
theorem Content.Reachable.valid {c : Content} (h : c.Reachable) : c.Valid := by
  induction h with
  | empty => exact valid_empty
  | @transaction c c' steps _ hpublish ih =>
      have hsound := TransactionStep.sound_runAll (Transaction.sound_start ih) steps
      rw [hsound.publish] at hpublish
      obtain rfl := Option.some.inj hpublish
      exact hsound.valid
  | batch _ hlooks hexecute ih =>
      obtain ⟨ops, b, -, hprogress, hcontent⟩ := Session.executeStream_eq_ok hlooks hexecute
      rw [hcontent]
      exact Session.progress_valid hlooks ih hprogress

end GraphStore
