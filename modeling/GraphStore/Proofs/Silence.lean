/-
# `GraphStore.Proofs.Silence` — what SILENT hides

An operation on graphs can find a graph in the wrong state: the one to be created exists, or
the one to be removed or read does not.  SILENT turns this one kind of failure into success.

    loud     check ─ … ─ check ─▶ as needed? ──no──▶ ✗ structural
    silent   check ─ … ─ check ─▶ as needed? ──no──▶ ok, nothing done
                     │                       └─yes─▶ writes …         in both
                     └──✗ denied                                      in both

The two runs do the same up to the test, and the test stands behind every question to the
policy and before every write.  `Hushed loud quiet` says what this comes to for the steps of
an operation: the same outcome and the same batch, except where the first break off for a graph in
the wrong state; there the second succeed with the batch that the first leave, whose ledger is
the one they began with.  Steps without such a failure are hushed by themselves, and steps that
only ask and look can be put in front.
-/
import GraphStore.Proofs.Alone
import GraphStore.Proofs.Plans

namespace GraphStore

/-- The same action, silent or not; it matters for operations on graphs only. -/
def Action.withSilent (silent : Bool) : Action → Action
  | .create g _ => .create g silent
  | .graph op => .graph { op with silent := silent }
  | a => a

/-- The same operation, silent or not. -/
def Operation.withSilent (silent : Bool) (op : Operation) : Operation :=
  { op with action := op.action.withSilent silent }

/-- The failure for a graph in the wrong state. -/
def IsStructural {α : Type} (outcome : Except UpdateError α) : Prop :=
  ∃ e, outcome = .error (.structural e)

theorem not_isStructural_ok {α : Type} (a : α) : ¬ IsStructural (.ok a) := by
  rintro ⟨e, h⟩
  cases h

theorem isStructural_error {α : Type} {e : UpdateError} :
    IsStructural (.error e : Except UpdateError α) ↔ ∃ s, e = .structural s := by
  constructor
  · rintro ⟨s, h⟩
    exact ⟨s, Except.error.inj h⟩
  · rintro ⟨s, rfl⟩
    exact ⟨s, rfl⟩

theorem isStructural_map {α β : Type} {f : α → β} {outcome : Except UpdateError α} :
    IsStructural (outcome.map f) ↔ IsStructural outcome := by
  cases outcome with
  | ok a => exact iff_of_false (not_isStructural_ok (f a)) (not_isStructural_ok a)
  | error e => exact Iff.trans isStructural_error isStructural_error.symm

theorem Batch.tx_eq_of_ledger {b b' : Batch} (hcontent : b'.ledger.content = b.ledger.content)
    (hlog : b'.ledger.log = b.ledger.log) : b'.tx = b.tx := by
  obtain ⟨⟨content, log⟩, _⟩ := b
  obtain ⟨⟨content', log'⟩, _⟩ := b'
  cases hcontent
  cases hlog
  rfl

namespace Step

open BatchM

variable {env : Environment} {user : User} {α β : Type}

/-! ## Steps that no graph can stop -/

/-- The steps do not break off for a graph in the wrong state. -/
def Undaunted (x : Step α) : Prop := ∀ b, ¬ IsStructural (x.run b).1

theorem undaunted_pure (a : α) : Undaunted (pure a) := fun _ => not_isStructural_ok a

theorem undaunted_throw {e : UpdateError} (he : ∀ s, e ≠ .structural s) :
    Undaunted (throw e : Step α) := by
  rintro b ⟨s, h⟩
  exact he s (Except.error.inj h)

theorem Undaunted.bind {x : Step α} {f : α → Step β} (hx : Undaunted x)
    (hf : ∀ a, Undaunted (f a)) : Undaunted (x >>= f) := by
  intro b
  have hx' := hx b
  rw [run_bind]
  cases hrun : x.run b with
  | mk r b₁ =>
      rw [hrun] at hx'
      cases r with
      | ok a => exact hf a b₁
      | error e =>
          rw [isStructural_error] at hx' ⊢
          exact hx'

/-- Failures of the store, and of the evaluation of a pattern, are of other kinds. -/
theorem undaunted_mapError {ε : Type} {f : ε → UpdateError} (hf : ∀ e s, f e ≠ .structural s)
    (x : BatchM ε α) : Undaunted (mapError f x) := by
  intro b
  show ¬ IsStructural ((x.run b).1.mapError f)
  cases (x.run b).1 with
  | ok a => exact not_isStructural_ok a
  | error e => exact fun ⟨s, h⟩ => hf e s (Except.error.inj h)

theorem undaunted_check (user : User) (kind : AccessKind) (g : GraphName) :
    Undaunted (check env user kind g) := by
  intro b
  rw [run_check]
  split
  · exact not_isStructural_ok ()
  · cases env.policy.check kind g user with
    | ok _ => exact not_isStructural_ok ()
    | error e => exact fun ⟨s, h⟩ => UpdateError.noConfusion (Except.error.inj h)

theorem undaunted_storage (x : BatchM StorageError α) :
    Undaunted (mapError UpdateError.storage x) :=
  undaunted_mapError (fun _ _ => UpdateError.noConfusion) x

theorem compositional_undaunted (env : Environment) : Compositional env fun _ x => Undaunted x where
  pure := undaunted_pure
  bind := Undaunted.bind
  check := undaunted_check
  quadsOf g := by
    cases g with
    | default => exact undaunted_storage _
    | named g => exact undaunted_storage _
  containsGraph _ := undaunted_storage _
  namedGraphs := undaunted_storage _
  change _ := undaunted_storage _
  noteInserted _ := fun _ => not_isStructural_ok _
  noteDeleted _ := fun _ => not_isStructural_ok _

theorem undaunted_action (input : Option Binding) {a : Action} (ha : a.Silent) :
    Undaunted (action env user input a) := by
  refine (compositional_undaunted env).action (fun hloud => absurd ha hloud) ?_ fun m _ => ⟨?_, ?_⟩
  · exact fun _ _ => undaunted_throw fun _ => UpdateError.noConfusion
  · exact undaunted_mapError (fun _ _ => UpdateError.noConfusion) _
  · exact fun _ _ => not_isStructural_ok _

/-! ## Hushed steps -/

/-- The second steps do what the first do, but where the first break off for a graph in the
wrong state the second succeed, and neither has changed or noted anything. -/
structure Hushed (loud quiet : Step Unit) : Prop where
  structural : ∀ b, IsStructural (loud.run b).1 →
    quiet.run b = (.ok (), (loud.run b).2) ∧ (loud.run b).2.ledger = b.ledger
  other : ∀ b, ¬ IsStructural (loud.run b).1 → quiet.run b = loud.run b

theorem Undaunted.hushed {x : Step Unit} (hx : Undaunted x) : Hushed x x where
  structural b h := absurd h (hx b)
  other _ _ := rfl

/-- The steps ask and look, and change and note nothing. -/
structure Harmless (x : Step α) : Prop where
  undaunted : Undaunted x
  ledger_eq : x.Leads fun b b' => b'.ledger = b.ledger

theorem Hushed.after {x : Step α} (hx : Harmless x) {loud quiet : α → Step Unit}
    (h : ∀ a, Hushed (loud a) (quiet a)) : Hushed (x >>= loud) (x >>= quiet) := by
  constructor
  · intro b
    have hundaunted := hx.undaunted b
    have hledger := hx.ledger_eq b
    rw [run_bind, run_bind]
    cases hrun : x.run b with
    | mk r b₁ =>
        rw [hrun] at hundaunted hledger
        cases r with
        | ok a =>
            intro hloud
            obtain ⟨hquiet, hl⟩ := (h a).structural b₁ hloud
            exact ⟨hquiet, hl.trans hledger⟩
        | error e =>
            rw [isStructural_error] at hundaunted ⊢
            exact fun hloud => absurd hloud hundaunted
  · intro b
    rw [run_bind, run_bind]
    cases x.run b with
    | mk r b₁ =>
        cases r with
        | ok a => exact (h a).other b₁
        | error e => exact fun _ => rfl

theorem hushed_unlessSilent (e : StructuralError) :
    Hushed (unlessSilent false e) (unlessSilent true e) where
  structural _ _ := ⟨rfl, rfl⟩
  other _ h := absurd ⟨e, rfl⟩ h

theorem harmless_pure (a : α) : Harmless (pure a) := ⟨undaunted_pure a, fun _ => rfl⟩

theorem Harmless.bind {x : Step α} {f : α → Step β} (hx : Harmless x)
    (hf : ∀ a, Harmless (f a)) : Harmless (x >>= f) where
  undaunted := hx.undaunted.bind fun a => (hf a).undaunted
  ledger_eq := Leads.bind (fun _ _ _ h h' => h'.trans h) hx.ledger_eq fun a => (hf a).ledger_eq

theorem harmless_check (user : User) (kind : AccessKind) (g : GraphName) :
    Harmless (check env user kind g) := by
  refine ⟨undaunted_check user kind g, fun b => ?_⟩
  rw [run_check]
  split <;> rfl

theorem harmless_checks {δ : Type} (user : User) (kind : δ → AccessKind) (g : δ → GraphName)
    (xs : List δ) : Harmless (xs.forM fun x => check env user (kind x) (g x)) := by
  induction xs with
  | nil => exact harmless_pure ()
  | cons x xs ih => exact (harmless_check user (kind x) (g x)).bind fun _ => ih

theorem harmless_containsGraph (g : Resource) : Harmless ((reader env).containsGraph g) := by
  refine ⟨(compositional_undaunted env).containsGraph g, fun b => ?_⟩
  obtain ⟨j, hj⟩ := (Reader.looks_reader env.faults UpdateError.storage).containsGraph g b
  exact (congrArg Batch.ledger hj).trans rfl

theorem harmless_absent? (g : GraphName) : Harmless (absent? env g) := by
  cases g with
  | default => exact harmless_pure none
  | named g => exact (harmless_containsGraph g).bind fun _ => harmless_pure _

/-! ## Operations on graphs -/

theorem hushed_create (user : User) (g : Resource) :
    Hushed (create env user g false) (create env user g true) := by
  refine .after (harmless_check user .create (.named g)) fun _ => ?_
  refine .after (harmless_containsGraph g) fun found => ?_
  cases found with
  | true => exact hushed_unlessSilent _
  | false => exact Undaunted.hushed ((compositional_undaunted env).insertGraph g)

theorem hushed_dropOrClear (user : User) (op : GraphOperation) :
    Hushed (dropOrClear env user { op with silent := false })
      (dropOrClear env user { op with silent := true }) := by
  have hundaunted := compositional_undaunted env
  unfold dropOrClear
  cases op.source with
  | named g =>
      refine .after (harmless_check user _ (.named g)) fun _ => ?_
      refine .after (harmless_containsGraph g) fun found => ?_
      cases found with
      | true => exact Undaunted.hushed (hundaunted.removeAll user op.action _)
      | false => exact hushed_unlessSilent _
  | defaultGraph => exact Undaunted.hushed (hundaunted.removeAll user op.action _)
  | namedGraphs =>
      exact Undaunted.hushed
        (hundaunted.bind hundaunted.namedGraphs fun _ => hundaunted.removeAll user op.action _)
  | allGraphs =>
      exact Undaunted.hushed
        (hundaunted.bind hundaunted.namedGraphs fun _ => hundaunted.removeAll user op.action _)

theorem hushed_transfer (user : User) (action : GraphAction) (source destination : GraphName) :
    Hushed (transfer env user action source destination false)
      (transfer env user action source destination true) := by
  unfold transfer
  refine .after (harmless_checks user Prod.fst Prod.snd _) fun _ => ?_
  split
  · exact Undaunted.hushed (undaunted_pure ())
  · refine .after (harmless_absent? source) fun missing => ?_
    cases missing with
    | some g => exact hushed_unlessSilent _
    | none =>
        exact Undaunted.hushed
          ((compositional_undaunted env).transferQuads action source destination)

theorem hushed_graphOperation (user : User) (op : GraphOperation) :
    Hushed (graphOperation env user { op with silent := false })
      (graphOperation env user { op with silent := true }) := by
  unfold graphOperation
  have hmalformed : ∀ silent, ({ op with silent := silent } : GraphOperation).malformed? =
      op.malformed? := fun _ => rfl
  rw [hmalformed false, hmalformed true]
  cases op.malformed? with
  | some e => exact Undaunted.hushed (undaunted_throw fun _ => UpdateError.noConfusion)
  | none =>
      dsimp only
      cases op.source.single? with
      | none => exact hushed_dropOrClear user op
      | some source =>
          cases op.destination with
          | none => exact hushed_dropOrClear user op
          | some destination => exact hushed_transfer user op.action source destination

theorem hushed_action (env : Environment) (user : User) (input : Option Binding) (a : Action) :
    Hushed (action env user input (a.withSilent false))
      (action env user input (a.withSilent true)) := by
  cases a with
  | create g silent => exact hushed_create user g
  | graph op => exact hushed_graphOperation user op
  | insertData quads => exact (undaunted_action (a := .insertData quads) input trivial).hushed
  | deleteData quads => exact (undaunted_action (a := .deleteData quads) input trivial).hushed
  | modify m => exact (undaunted_action (a := .modify m) input trivial).hushed

/-! ## An operation in an open batch -/

/-- What an operation answers that has changed nothing. -/
def nothing (env : Environment) : Change :=
  if env.options.trackChanges then ⟨some [], some []⟩ else Change.untracked

/-- The second steps do in the batch what the first do, but where the first break off for a
graph in the wrong state the second answer, and the transaction is as it was. -/
structure HushedIn (b : Batch) (a : α) (loud quiet : Step α) : Prop where
  structural : IsStructural (loud.run b).1 →
    quiet.run b = (.ok a, (loud.run b).2) ∧ (loud.run b).2.tx = b.tx
  other : ¬ IsStructural (loud.run b).1 → quiet.run b = loud.run b

theorem hushedIn_operation (env : Environment) (user : User) (input : Option Binding)
    (op : Operation) (b : Batch) :
    HushedIn b (nothing env) (operation env user input (op.withSilent false))
      (operation env user input (op.withSilent true)) := by
  have haction := hushed_action env (op.user.getD user) input op.action
  have hiff : IsStructural ((operation env user input (op.withSilent false)).run b).1 ↔
      IsStructural ((action env (op.user.getD user) input
        (op.action.withSilent false)).run (begun b)).1 := by
    rw [run_operation]
    exact isStructural_map
  constructor
  · intro hloud
    obtain ⟨hquiet, hledger⟩ := haction.structural (begun b) (hiff.mp hloud)
    rw [run_operation, run_operation]
    have htx := Batch.tx_eq_of_ledger (b := begun b) (congrArg Ledger.content hledger)
      (congrArg Ledger.log hledger)
    refine ⟨?_, htx⟩
    show answered env ((action env (op.user.getD user) input
      (op.action.withSilent true)).run (begun b)) = _
    rw [hquiet]
    show (Except.ok (answer env _), _) = _
    rw [hledger]
    rfl
  · intro hloud
    rw [run_operation, run_operation]
    exact congrArg (answered env) (haction.other (begun b) (mt hiff.mpr hloud))

theorem hushedIn_operations (env : Environment) (call : BatchCall) (op : Operation) (b : Batch) :
    HushedIn b [nothing env] (operations env call [.ok (op.withSilent false)])
      (operations env call [.ok (op.withSilent true)]) := by
  have hscope : ∀ silent, inScope call (op.withSilent silent) =
      (inScope call op).withSilent silent := by
    intro silent
    obtain ⟨action, user⟩ := op
    cases action <;> rfl
  have hitem : HushedIn b (nothing env) (item env call (.ok (op.withSilent false)))
      (item env call (.ok (op.withSilent true))) := by
    have hoperation := hushedIn_operation env
      (call.user.getD env.options.defaultUser) call.input (inScope call op)
      { b with journal := { b.journal with pulled := b.journal.pulled + 1 } }
    rw [← hscope, ← hscope] at hoperation
    exact ⟨hoperation.structural, hoperation.other⟩
  constructor
  · intro hloud
    rw [run_operations_singleton] at hloud
    obtain ⟨hquiet, htx⟩ := hitem.structural (isStructural_map.mp hloud)
    rw [run_operations_singleton, run_operations_singleton, hquiet]
    exact ⟨rfl, htx⟩
  · intro hloud
    rw [run_operations_singleton] at hloud
    rw [run_operations_singleton, run_operations_singleton,
      hitem.other (mt isStructural_map.mpr hloud)]

end Step

namespace Session

open Step

/-- A transaction that has changed nothing is committed without effect on the content. -/
theorem commit_start {faults : Faults} (hcommit : ∀ n, faults .commit n = none) (s : Session) :
    s.commit faults (.start s.content) = (.ok (), (s.call faults .commit).2) := by
  unfold commit
  rw [call_eq_ok hcommit]
  rfl

variable {α : Type} {faults : Faults} {s : Session}

/-- A transaction fails for a graph in the wrong state if it could be opened and its steps do. -/
theorem isStructural_transact {steps : Step α} : IsStructural (s.transact faults steps).1 ↔
    (s.call faults .begin).1 = .ok () ∧ IsStructural (steps.run (s.opened faults)).1 := by
  unfold IsStructural
  rw [← exists_and_left]
  exact exists_congr fun e => transact_eq_error fun _ => UpdateError.noConfusion

/-- Steps with the same run make the same transaction. -/
theorem transact_congr {steps steps' : Step α} (h : (s.call faults .begin).1 = .ok () →
    steps.run (s.opened faults) = steps'.run (s.opened faults)) :
    s.transact faults steps = s.transact faults steps' := by
  rw [transact_eq, transact_eq]
  cases hbegin : (s.call faults .begin).1 with
  | error e => rfl
  | ok _ => rw [h hbegin]

/-- A transaction that fails for a graph in the wrong state, and one that passes over it. -/
theorem transact_of_structural {loud quiet : Step α} {a : α}
    (hcommit : ∀ n, faults .commit n = none) (h : HushedIn (s.opened faults) a loud quiet)
    (hloud : IsStructural (s.transact faults loud).1) :
    (s.transact faults quiet).1 = .ok a ∧ (s.transact faults quiet).2.content = s.content ∧
      (s.transact faults loud).2.content = s.content ∧
      (s.transact faults quiet).2.journal.checks = (s.transact faults loud).2.journal.checks := by
  obtain ⟨hbegin, hstructural⟩ := isStructural_transact.mp hloud
  obtain ⟨hquiet, htx⟩ := h.structural hstructural
  obtain ⟨e, hrun⟩ := hstructural
  rw [transact_eq, transact_eq, hbegin, hquiet]
  cases hsteps : loud.run (s.opened faults) with
  | mk r b =>
      rw [hsteps] at htx hrun
      obtain rfl : r = .error (.structural e) := hrun
      have hstart : b.tx = .start s.content := htx
      dsimp only
      rw [hstart, commit_start (s := ⟨s.content, b.journal⟩) hcommit]
      exact ⟨rfl, rfl, rfl, rfl⟩

/-- SILENT suppresses the failure for a graph in the wrong state and nothing else.  Where the
operation fails in this way, the silent one succeeds, answers that nothing was changed, and leaves
the content as it is; in all other cases both have the same outcome, the same content and the
same record of store calls and of questions to the policy. -/
theorem silent_suppresses_structural {env : Environment}
    (hcommit : ∀ n, env.faults .commit n = none) (s : Session) (call : BatchCall)
    (op : Operation) :
    let loud := s.execute env call [op.withSilent false]
    let quiet := s.execute env call [op.withSilent true]
    (¬ IsStructural loud.1 → quiet = loud) ∧
      (IsStructural loud.1 →
        quiet.1 = .ok [if env.options.trackChanges then ⟨some [], some []⟩ else Change.untracked] ∧
        quiet.2.content = s.content ∧ loud.2.content = s.content ∧
        quiet.2.journal.checks = loud.2.journal.checks) := by
  intro loud quiet
  have hhushed := hushedIn_operations env call op (s.opened env.faults)
  refine ⟨fun hloud => transact_congr fun hbegin => hhushed.other fun hrun => ?_,
    transact_of_structural hcommit hhushed⟩
  exact hloud (isStructural_transact.mpr ⟨hbegin, hrun⟩)

/-- MOVE from a graph that does not exist to one that holds a quad: the silent one leaves the quad
where it is. -/
theorem silent_suppresses_structural_move :
    let g : Resource := .iri ⟨"g"⟩
    let s : Session := { content := { triples := [⟨.iri ⟨"s"⟩, ⟨"p"⟩, .iri ⟨"o"⟩⟩] } }
    let op : Operation := { action := .graph (.transfer .move (.named g) .default false) }
    (s.execute {} {} [op]).1 = .error (.structural (.graphDoesNotExist g)) ∧
      (s.execute {} {} [op.withSilent true]).1 = .ok [⟨some [], some []⟩] ∧
      (s.execute {} {} [op.withSilent true]).2.content = s.content := by
  intro g s op
  have hloud : (s.execute {} {} [op]).1 = .error (.structural (.graphDoesNotExist g)) := rfl
  obtain ⟨hanswer, hcontent, -⟩ :=
    (silent_suppresses_structural (fun _ => rfl) s {} op).2 ⟨_, hloud⟩
  exact ⟨hloud, hanswer, hcontent⟩

end Session

end GraphStore
