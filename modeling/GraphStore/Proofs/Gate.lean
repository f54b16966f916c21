/-
# `GraphStore.Proofs.Gate` — every question comes before the first change

An operation asks once for each access that it needs, and for all of them before it changes
anything; if one is refused it goes no further (`operation_gated`).

The reason is its plan: it changes nothing before it has passed the gate, and asks nothing behind it
(`Gated.gate_first`).  In the journal, which keeps questions and calls of the store apart, this
is not to be seen.  It is seen if every change fails: the gate is the same then, so the operation
comes to an end where it would have changed something for the first time, and has asked the same
(`Gated.before_changes`).
-/
import GraphStore.Proofs.Needs
import GraphStore.Proofs.Permission

namespace GraphStore

/-- The same environment, but that every change of the store fails. -/
def Environment.failingWrites (env : Environment) (f : StorageError) : Environment :=
  { env with faults := fun kind n => if kind = .write then some f else env.faults kind n }

namespace Step

open BatchM

variable {env : Environment} {user : User} {b b' : Batch}

/-- The gate is the same where changes fail. -/
theorem gate_failingWrites (f : StorageError) (input : Option Binding) (a : Action) :
    ∃ rest, plan (env.failingWrites f) user input a =
      { plan env user input a with rest := rest } := by
  cases a with
  | create r silent => exact ⟨_, rfl⟩
  | graph op =>
      unfold plan
      dsimp only
      cases op.malformed? with
      | some e => exact ⟨_, rfl⟩
      | none =>
          have hremoval : ∃ rest, removalPlan (env.failingWrites f) op =
              { removalPlan env op with rest := rest } := by
            unfold removalPlan
            cases op.source <;> exact ⟨_, rfl⟩
          cases op.source.single? with
          | none => exact hremoval
          | some source =>
              cases op.destination with
              | none => exact hremoval
              | some destination => exact ⟨_, rfl⟩
  | insertData quads => exact ⟨_, rfl⟩
  | deleteData quads => exact ⟨_, rfl⟩
  | modify m => exact ⟨_, rfl⟩

theorem looks_keeps_tx {x : Step α} (hx : x.Looks) : x.Leads fun b b' => b'.tx = b.tx := by
  intro b
  obtain ⟨j, hj⟩ := hx b
  rw [hj]

theorem compositional_failingWrites (env : Environment) (f : StorageError) :
    Compositional (env.failingWrites f) fun _ x => x.Leads fun b b' => b'.tx = b.tx := by
  have hreader := Reader.looks_reader (env.failingWrites f).faults UpdateError.storage
  exact {
    pure _ _ := rfl
    bind := Leads.bind fun _ _ _ h h' => h'.trans h
    check user kind g b := by
      rw [run_check]
      split <;> rfl
    quadsOf g := looks_keeps_tx (hreader.find (some g) .any)
    containsGraph g := looks_keeps_tx (hreader.containsGraph g)
    namedGraphs := looks_keeps_tx hreader.namedGraphs
    change _ _ := rfl
    noteInserted _ _ := rfl
    noteDeleted _ _ := rfl }

/-- Nothing is changed then. -/
theorem tx_of_failingWrites (hdiscreet : env.evaluator.Discreet) (f : StorageError)
    (input : Option Binding) (a : Action) :
    (action (env.failingWrites f) user input a).Leads fun b b' => b'.tx = b.tx := by
  have hcompositional := compositional_failingWrites env f
  refine hcompositional.action (fun _ _ _ => rfl) (fun _ _ _ => rfl)
    fun m _ => ⟨fun b => ?_, fun _ _ => rfl⟩
  have hsolve : (solve (env.failingWrites f) user m input).Discreet :=
    discreet_solve hdiscreet m input
  exact Batch.tx_eq_of_ledger_eq (hsolve b).1.ledger_eq

/-- All the same questions are put. -/
theorem checks_of_failingWrites (hdiscreet : env.evaluator.Discreet) (f : StorageError)
    (input : Option Binding) (a : Action) (b : Batch) :
    ((action (env.failingWrites f) user input a).run b).2.journal.checks =
      ((action env user input a).run b).2.journal.checks := by
  obtain ⟨rest, hplan⟩ := @gate_failingWrites env user f input a
  have hsound : (plan env user input a).Sound := sound_plan hdiscreet input a
  have hfailing : (plan (env.failingWrites f) user input a).Sound :=
    @sound_plan (env.failingWrites f) user hdiscreet input a
  rw [← steps_plan, ← steps_plan, hfailing.checks_eq, hsound.checks_eq, hplan]
  rfl

/-! ## Operations -/

/-- How an operation that begins in the batch `b` puts its questions to the policy: it asks for the
accesses `asked`, in this order. -/
structure Gated (env : Environment) (user : User) (input : Option Binding) (op : Operation)
    (b : Batch) (asked : List (AccessKind × GraphName)) : Prop where
  checks_eq : ((operation env user input op).run b).2.journal.checks =
    b.journal.checks ++ asked.map fun c => ⟨c.1, c.2, op.user.getD user⟩
  /-- No access is asked for twice. -/
  nodup : asked.Nodup
  /-- The operation is its gate, where nothing is changed, and then the rest, where nothing is
  asked. -/
  gate_first :
    let stages := plan env (op.user.getD user) input op.action
    action env (op.user.getD user) input op.action = (do
        let found ← stages.gate env (op.user.getD user)
        stages.rest found) ∧
      (stages.gate env (op.user.getD user)).Leads Batch.Idle ∧
      ∀ found, Mute (stages.rest found)
  /-- So every question comes before the first change: if all changes fail, nothing has been changed
  when the operation breaks off, and the same questions have been put. -/
  before_changes : ∀ f,
    ((operation (env.failingWrites f) user input op).run b).2.tx = b.tx ∧
      ((operation (env.failingWrites f) user input op).run b).2.journal.checks =
        ((operation env user input op).run b).2.journal.checks
  /-- An access that is refused is the last one; the operation fails, and has changed nothing. -/
  refused : ∀ kind g, (kind, g) ∈ asked → env.policy kind g (op.user.getD user) = false →
    asked.getLast? = some (kind, g) ∧
      ((operation env user input op).run b).1 =
        .error (.accessDenied ⟨op.user.getD user, g, kind⟩) ∧
      ((operation env user input op).run b).2.tx = b.tx ∧
      ∃ ks, ((operation env user input op).run b).2.journal.calls = b.journal.calls ++ ks ∧
        CallKind.write ∉ ks
  /-- An operation that succeeds has asked for all that it needs, and for nothing else. -/
  complete : ∀ change, ((operation env user input op).run b).1 = .ok change →
    ∃ S, op.action.Solved env (op.user.getD user) input b.tx S ∧
      ∀ kind g, (kind, g) ∈ asked ↔ op.action.Needs b.tx.content S kind g

/-- Every operation asks once for each access that it needs, and for all of them before it changes
anything. -/
theorem operation_gated (hdiscreet : env.evaluator.Discreet) (user : User)
    (input : Option Binding) (op : Operation) (b : Batch) :
    ∃ asked, Gated env user input op b asked := by
  have hsound : (plan env (op.user.getD user) input op.action).Sound :=
    sound_plan hdiscreet input op.action
  have hsteps : (plan env (op.user.getD user) input op.action).steps env (op.user.getD user) =
      action env (op.user.getD user) input op.action := steps_plan input op.action
  have hasking : Asking env (op.user.getD user)
      (action env (op.user.getD user) input op.action) := hsteps ▸ hsound.asking
  obtain ⟨asked, ⟨hpassed, hchecks, hnodup⟩, hanswered⟩ := hasking (begun b) List.nodup_nil
  rw [show (begun b).passed ++ asked = asked from rfl] at hpassed
  refine ⟨asked, ?_, ?_, ⟨hsteps.symm, hsound.idle_gate, hsound.made.rest⟩, fun f => ?_,
    fun kind g hmem hpolicy => ?_, fun change hok => ?_⟩
  · rw [run_operation]
    exact hchecks
  · rw [← hpassed]
    exact hnodup
  · rw [run_operation, run_operation]
    exact ⟨tx_of_failingWrites hdiscreet f input op.action (begun b),
      checks_of_failingWrites hdiscreet f input op.action (begun b)⟩
  · obtain ⟨hlast, hrefused⟩ := hanswered.getLast?_of_refused hmem hpolicy
    have hidle : (begun b).Idle
        ((action env (op.user.getD user) input op.action).run (begun b)).2 := by
      rw [← hsteps] at hrefused ⊢
      exact hsound.idle_of_refused hrefused
    have htx := Batch.tx_eq_of_ledger_eq hidle.ledger_eq
    rw [run_operation]
    exact ⟨hlast, congrArg (Except.map _) hrefused, htx, hidle.calls_eq⟩
  · rw [run_operation] at hok
    cases hrun : (action env (op.user.getD user) input op.action).run (begun b) with
    | mk r b' =>
        rw [hrun] at hok hpassed
        cases r with
        | error e => cases hok
        | ok _ =>
            obtain ⟨S, hsolved, hneeds⟩ := ends_action_needs hdiscreet hrun
            refine ⟨S, hsolved, fun kind g => ?_⟩
            rw [← hpassed]
            exact (hneeds kind g).trans (or_iff_right List.not_mem_nil)

/-- Two triples of one subject are moved to its graph: the default graph is asked for once although
the template and both deletions name it, and the graph of the subject once for both insertions. -/
theorem operation_gated_relocate :
    let t (o : String) : Triple := ⟨.iri ⟨"s"⟩, ⟨"p"⟩, .iri ⟨o⟩⟩
    let b : Batch := { tx := .start { triples := [t "a", t "b"] }, journal := {} }
    Gated {} "editor" none (Session.relocate ⟨"p"⟩) b
      [(.delete, .default), (.update, .named (.iri ⟨"s"⟩))] := by
  intro t b
  obtain ⟨asked, hgated⟩ :=
    @operation_gated {} Evaluator.discreet_scanning "editor" none (Session.relocate ⟨"p"⟩) b
  have hchecks : ((operation {} "editor" none (Session.relocate ⟨"p"⟩)).run b).2.journal.checks =
      [⟨.delete, .default, "editor"⟩, ⟨.update, .named (.iri ⟨"s"⟩), "editor"⟩] := by
    decide +kernel
  have hasked := hgated.checks_eq.symm.trans hchecks
  have hinjective : Function.Injective fun c : AccessKind × GraphName =>
      (⟨c.1, c.2, "editor"⟩ : Check) := by
    rintro ⟨_, _⟩ ⟨_, _⟩ ⟨⟩
    rfl
  obtain rfl : asked = [(.delete, .default), (.update, .named (.iri ⟨"s"⟩))] :=
    List.map_injective_iff.mpr hinjective hasked
  exact hgated

end Step

end GraphStore
