/-
# `GraphStore.Proofs.Denial` — a refusal says nothing about the store

Most operations are *definite*: the graphs they are about are written in them.  Such an
operation asks for all its accesses first, and only then looks at the store.

    action   ask ─ … ─ ask ─▶ look ─ change ─ …
              └──✗ refused    asks for nothing that it has not asked for

What it asks for is a list that the operation alone determines (`Action.questions`), so whether
it is refused, and with which error, does not depend on the store (`refused_iff`).  Behind
the questions there can be others, but only such as have been answered: the graph of a single
target is asked for again before it is cleared, and the graphs of the quads that a pattern-driven
update removes and adds are those of its templates.  `Covered accesses x` says that steps are not
refused once `accesses` have been passed, and `AsksFirst` that this is how steps go on behind
their questions.

The operations left out are DROP and CLEAR of several graphs, and updates whose templates take
the graph from a variable: what they ask for depends on what they find.
-/
import GraphStore.Proofs.Concatenation
import GraphStore.Proofs.Silence

namespace GraphStore

/-! ## The questions of a definite operation -/

/-- The graphs that the action is about are written in it. -/
def Action.Definite : Action → Prop
  | .create .. | .insertData _ | .deleteData _ => True
  | .graph op => op.action.isTransfer = true ∨ op.source.single?.isSome = true
  | .modify m => ∀ t ∈ m.delete ++ m.insert, t.graph.constant?.isSome = true

instance : DecidablePred Action.Definite
  | .create .. | .insertData _ | .deleteData _ => .isTrue trivial
  | .graph op =>
      inferInstanceAs (Decidable (op.action.isTransfer = true ∨ op.source.single?.isSome = true))
  | .modify m =>
      inferInstanceAs (Decidable (∀ t ∈ m.delete ++ m.insert, t.graph.constant?.isSome = true))

/-- The accesses that an operation on graphs asks for first.  A misfit is found before anything
is asked. -/
def GraphOperation.questions (op : GraphOperation) : List (AccessKind × GraphName) :=
  match op.malformed?, op.source.single?, op.destination with
  | none, some source, some destination => Step.transferChecks op.action source destination
  | none, some g, none => [(Step.removalKind op.action, g)]
  | _, _, _ => []

/-- The accesses that an action asks for before it looks at the store. -/
def Action.questions : Action → List (AccessKind × GraphName)
  | .create g _ => [(.create, .named g)]
  | .graph op => op.questions
  | .insertData qs => (qs.map Quad.graph).eraseDups.map (AccessKind.insertData, ·)
  | .deleteData qs => (qs.map Quad.graph).eraseDups.map (AccessKind.deleteData, ·)
  | .modify m => (m.delete.filterMap (·.graph.constant?)).map (AccessKind.delete, ·) ++
      (m.insert.filterMap (·.graph.constant?)).map (AccessKind.update, ·)

/-- The first of the accesses that the policy refuses, as it is reported. -/
def Policy.refusal? (policy : Policy) (user : User) (accesses : List (AccessKind × GraphName)) :
    Option AccessDenied :=
  accesses.findSome? fun c => if policy c.1 c.2 user then none else some ⟨user, c.2, c.1⟩

theorem Action.definite_withScope {a : Action} (scope : Option Using) :
    (a.withScope scope).Definite ↔ a.Definite := by
  cases a <;> exact Iff.rfl

theorem Action.questions_withScope (a : Action) (scope : Option Using) :
    (a.withScope scope).questions = a.questions := by
  cases a <;> rfl

/-- The batches differ in their transactions only. -/
def Batch.ApartFromTx (b b' : Batch) : Prop := b' = { b with tx := b'.tx }

namespace Step

open BatchM

variable {env : Environment} {user : User} {α β : Type} {b : Batch}
  {accesses : List (AccessKind × GraphName)}

/-- The questions take no notice of the transaction. -/
theorem respects_ask (env : Environment) (user : User) (accesses : List (AccessKind × GraphName)) :
    (ask env user accesses).Respects Batch.ApartFromTx := by
  induction accesses with
  | nil => exact respects_pure ()
  | cons c accesses ih =>
      refine Respects.bind (fun b b' h => ?_) fun _ => ih
      rw [h, run_check, run_check]
      split <;> exact ⟨rfl, rfl⟩

/-- The questions stop at the first that is refused.  Nothing but the questions has happened. -/
theorem ask_of_refused {e : AccessDenied} (hb : b.Vetted env.policy user)
    (h : env.policy.refusal? user accesses = some e) :
    ∃ b', (ask env user accesses).run b = (.error (.accessDenied e), b') ∧
      b'.journal.calls = b.journal.calls := by
  induction accesses generalizing b with
  | nil => cases h
  | cons c accesses ih =>
      rw [Policy.refusal?, List.findSome?_cons] at h
      show ∃ b', (check env user c.1 c.2 >>= fun _ => ask env user accesses).run b = _ ∧ _
      rw [run_bind, run_check]
      by_cases hallowed : env.policy c.1 c.2 user = true
      · rw [if_pos hallowed] at h
        by_cases hpassed : (c.1, c.2) ∈ b.passed
        · rw [if_pos hpassed]
          exact ih hb h
        · rw [if_neg hpassed, Policy.check, if_pos hallowed]
          exact ih (vetted_asked hb hallowed) h
      · have hnew : (c.1, c.2) ∉ b.passed := fun hmem => hallowed (hb _ hmem)
        rw [if_neg hallowed] at h
        rw [if_neg hnew, Policy.check, if_neg hallowed, ← Option.some.inj h]
        exact ⟨_, rfl, rfl⟩

/-- If none is refused, all are passed. -/
theorem ask_of_allowed (h : env.policy.refusal? user accesses = none) :
    ∃ b', (ask env user accesses).run b = (.ok (), b') ∧ b.passed ⊆ b'.passed ∧
      accesses ⊆ b'.passed := by
  induction accesses generalizing b with
  | nil => exact ⟨b, rfl, fun _ hmem => hmem, List.nil_subset _⟩
  | cons c accesses ih =>
      rw [Policy.refusal?, List.findSome?_cons] at h
      by_cases hallowed : env.policy c.1 c.2 user = true
      · rw [if_pos hallowed] at h
        show ∃ b', (check env user c.1 c.2 >>= fun _ => ask env user accesses).run b = _ ∧ _
        rw [run_bind, run_check]
        by_cases hpassed : (c.1, c.2) ∈ b.passed
        · rw [if_pos hpassed]
          obtain ⟨b', hrun, hkept, hall⟩ := ih (b := b) h
          exact ⟨b', hrun, hkept, List.cons_subset.mpr ⟨hkept hpassed, hall⟩⟩
        · rw [if_neg hpassed, Policy.check, if_pos hallowed]
          obtain ⟨b', hrun, hkept, hall⟩ := ih (b := asked user c.1 c.2 b) h
          have hsub := List.append_subset.mp hkept
          exact ⟨b', hrun, hsub.1, List.cons_subset.mpr ⟨hsub.2 List.mem_cons_self, hall⟩⟩
      · rw [if_neg hallowed] at h
        cases h

/-! ## Behind the questions -/

/-- Once the accesses have been passed, the steps are not refused, and the accesses stay passed. -/
def Covered (accesses : List (AccessKind × GraphName)) (x : Step α) : Prop :=
  ∀ b : Batch, accesses ⊆ b.passed →
    (∀ e, (x.run b).1 ≠ .error (.accessDenied e)) ∧ accesses ⊆ (x.run b).2.passed

theorem covered_pure (a : α) : Covered accesses (pure a) := by
  intro b hb
  exact ⟨fun e h => (by cases h), hb⟩

theorem covered_throw {e : UpdateError} (he : ∀ d, e ≠ .accessDenied d) :
    Covered accesses (throw e : Step α) := by
  intro b hb
  exact ⟨fun d h => he d (Except.error.inj h), hb⟩

theorem Covered.bind {x : Step α} {f : α → Step β} (hx : Covered accesses x)
    (hf : ∀ a, Covered accesses (f a)) : Covered accesses (x >>= f) := by
  intro b hb
  obtain ⟨hgranted, hpassed⟩ := hx b hb
  rw [run_bind]
  cases hrun : x.run b with
  | mk r b₁ =>
      rw [hrun] at hgranted hpassed
      cases r with
      | ok a => exact hf a b₁ hpassed
      | error e =>
          exact ⟨fun d h => hgranted d (congrArg Except.error (Except.error.inj h)), hpassed⟩

/-- What is asked for again has been answered. -/
theorem covered_check {kind : AccessKind} {g : GraphName} (h : (kind, g) ∈ accesses) :
    Covered accesses (check env user kind g) := by
  intro b hb
  rw [run_check, if_pos (hb h)]
  exact ⟨fun e he => (by cases he), hb⟩

/-- Failures of the store, and of the evaluation of a pattern, are of other kinds. -/
theorem covered_mapError {ε : Type} {f : ε → UpdateError} (hf : ∀ e d, f e ≠ .accessDenied d)
    {x : BatchM ε α} (hx : x.Leads fun b b' => b'.passed = b.passed) :
    Covered accesses (mapError f x) := by
  intro b hb
  refine ⟨fun d => ?_, ?_⟩
  · show (x.run b).1.mapError f ≠ _
    cases (x.run b).1 with
    | ok a => exact fun h => by cases h
    | error e => exact fun h => hf e d (Except.error.inj h)
  · show accesses ⊆ (x.run b).2.passed
    rw [hx b]
    exact hb

theorem covered_call (kind : CallKind) (act : Transaction → α × Transaction) :
    Covered accesses (mapError UpdateError.storage (call env.faults kind act)) := by
  refine covered_mapError (fun _ _ => UpdateError.noConfusion) fun b => ?_
  rw [run_call]
  cases b.journal.call env.faults kind with
  | mk outcome j => cases outcome <;> rfl

theorem handling_covered (env : Environment) (accesses : List (AccessKind × GraphName)) :
    Handling env fun _ x => Covered accesses x where
  pure := covered_pure
  bind := Covered.bind
  quadsOf g := by cases g <;> exact covered_call _ _
  containsGraph _ := covered_call _ _
  namedGraphs := covered_call _ _
  change _ := covered_call _ _
  noteInserted _ _ hb := ⟨fun _ h => (by cases h), hb⟩
  noteDeleted _ _ hb := ⟨fun _ h => (by cases h), hb⟩

theorem covered_ask {again : List (AccessKind × GraphName)} (h : again ⊆ accesses) :
    Covered accesses (ask env user again) := by
  induction again with
  | nil => exact covered_pure ()
  | cons c again ih =>
      obtain ⟨hc, hagain⟩ := List.cons_subset.mp h
      exact (covered_check hc).bind fun _ => ih hagain

/-! ## Questions first -/

/-- The steps ask for the accesses, and then do what is covered by them. -/
def AsksFirst (env : Environment) (user : User) (accesses : List (AccessKind × GraphName))
    (x : Step Unit) : Prop :=
  ∃ rest : Step Unit, x = (do ask env user accesses; rest) ∧ Covered accesses rest

theorem graph_of_instance? {node : BlankNode → Option BlankNode} {s : Binding} {t : QuadPattern}
    {q : Quad} {g : GraphName} (h : t.instance? node s = some q)
    (hg : t.graph.constant? = some g) : q.graph = g := by
  unfold QuadPattern.instance? at h
  simp only [Option.bind_eq_bind, Option.bind_eq_some_iff, Option.pure_def, Option.some.injEq] at h
  obtain ⟨_, -, _, -, _, -, g', hg', rfl⟩ := h
  cases hgraph : t.graph with
  | default =>
      rw [hgraph] at hg hg'
      exact Option.some.inj (hg'.symm.trans hg)
  | iri i =>
      rw [hgraph] at hg hg'
      exact Option.some.inj (hg'.symm.trans hg)
  | var v =>
      rw [hgraph] at hg
      cases hg

theorem mem_deletions {templates : List QuadPattern} {solutions : List Binding} {q : Quad} :
    q ∈ deletions templates solutions ↔
      ∃ s ∈ solutions, ∃ t ∈ templates, t.deletion? s = some q := by
  simp only [deletions, List.mem_eraseDups, List.mem_flatMap, List.mem_filterMap]

theorem mem_insertions {start : Nat} {templates : List QuadPattern} {solutions : List Binding}
    {q : Quad} : q ∈ insertions start templates solutions ↔
      ∃ i s, solutions[i]? = some s ∧ ∃ t ∈ templates,
        t.insertion? (start + i * (templateBlanks templates).length) (templateBlanks templates) s =
          some q := by
  simp only [insertions, List.mem_eraseDups, List.mem_flatMap, List.mem_filterMap, Prod.exists,
    List.mem_zipIdx_iff_getElem?]
  exact exists_comm

theorem exists_mem_constants {templates : List QuadPattern}
    (h : ∀ t ∈ templates, t.graph.constant?.isSome = true) {t : QuadPattern} (ht : t ∈ templates)
    {node : BlankNode → Option BlankNode} {s : Binding} {q : Quad}
    (hq : t.instance? node s = some q) :
    q.graph ∈ templates.filterMap (·.graph.constant?) := by
  obtain ⟨g, hg⟩ := Option.isSome_iff_exists.mp (h t ht)
  rw [graph_of_instance? hq hg]
  exact List.mem_filterMap.mpr ⟨t, ht, hg⟩

/-- The graph of a single target may be asked for twice. -/
theorem removalPlan_of_single {op : GraphOperation} {g : GraphName}
    (hsource : op.source.single? = some g) :
    (removalPlan env op).first = [(removalKind op.action, g)] ∧
      ∀ found, (removalPlan env op).second found ⊆ [(removalKind op.action, g)] := by
  unfold removalPlan
  cases hop : op.source with
  | named r =>
      rw [hop] at hsource
      obtain rfl := Option.some.inj hsource
      refine ⟨rfl, fun found => ?_⟩
      cases found with
      | true => exact List.Subset.refl _
      | false => exact List.nil_subset _
  | defaultGraph =>
      rw [hop] at hsource
      obtain rfl := Option.some.inj hsource
      exact ⟨rfl, fun _ => List.nil_subset _⟩
  | namedGraphs | allGraphs =>
      rw [hop] at hsource
      cases hsource

/-- What a definite operation asks for behind its look it has asked for before. -/
theorem plan_of_definite (input : Option Binding) {a : Action} (ha : a.Definite) :
    (plan env user input a).first = a.questions ∧
      ∀ found, (plan env user input a).second found ⊆ a.questions := by
  cases a with
  | create _ _ | insertData _ | deleteData _ => exact ⟨rfl, fun _ => List.nil_subset _⟩
  | graph op =>
      unfold plan Action.questions GraphOperation.questions
      dsimp only
      cases hmal : op.malformed? with
      | some e => exact ⟨rfl, fun _ => List.nil_subset _⟩
      | none =>
          cases hsource : op.source.single? with
          | some source =>
              cases op.destination with
              | none => exact removalPlan_of_single hsource
              | some destination => exact ⟨rfl, fun _ => List.nil_subset _⟩
          | none =>
              -- a transfer between single graphs would have been a misfit
              rcases wellFormed_cases hmal with ⟨haction, -⟩ | ⟨-, source, destination, hs, -⟩
              · rcases ha with hop | hop
                · rw [haction] at hop
                  cases hop
                · rw [hsource] at hop
                  cases hop
              · rw [hsource] at hs
                cases hs
  | modify m =>
      obtain ⟨hdelete, hinsert⟩ := List.forall_mem_append.mp ha
      refine ⟨rfl, fun found => List.append_subset.mpr ⟨fun c hc => ?_, fun c hc => ?_⟩⟩
      · obtain ⟨q, hq, rfl⟩ := List.mem_map.mp hc
        obtain ⟨s, -, t, ht, hts⟩ := mem_deletions.mp hq
        exact List.mem_append_left _ (List.mem_map_of_mem (exists_mem_constants hdelete ht hts))
      · obtain ⟨q, hq, rfl⟩ := List.mem_map.mp hc
        obtain ⟨i, s, -, t, ht, hts⟩ := mem_insertions.mp hq
        exact List.mem_append_right _ (List.mem_map_of_mem (exists_mem_constants hinsert ht hts))

/-- Neither the look nor the rest is refused. -/
theorem made_covered (hlooks : env.evaluator.Looks) (input : Option Binding) (a : Action) :
    (plan env user input a).Made fun _ x => Covered accesses x := by
  refine (handling_covered env accesses).made_plan ?_ ?_ fun m _ => ⟨?_, ?_⟩
  · exact fun _ _ => covered_throw fun _ => UpdateError.noConfusion
  · exact fun _ _ => covered_throw fun _ => UpdateError.noConfusion
  · refine covered_mapError (fun _ _ => UpdateError.noConfusion) fun b => ?_
    obtain ⟨j, hj⟩ := hlooks _ ((Reader.looks_reader env.faults EvaluationError.storage).restrict
      env.policy user) m.pattern m.scope (m.input.or input) b
    rw [hj]
  · exact fun _ b hb => ⟨fun _ h => (by cases h), hb⟩

theorem asksFirst_action (hlooks : env.evaluator.Looks) (input : Option Binding) {a : Action}
    (ha : a.Definite) : AsksFirst env user a.questions (action env user input a) := by
  obtain ⟨hfirst, hsecond⟩ : (plan env user input a).first = a.questions ∧
      ∀ found, (plan env user input a).second found ⊆ a.questions := plan_of_definite input ha
  have hmade : (plan env user input a).Made fun _ x => Covered a.questions x :=
    made_covered hlooks input a
  refine ⟨_, by rw [← steps_plan, Plan.steps_eq, hfirst], ?_⟩
  refine hmade.look.bind fun found => ?_
  exact (covered_ask (hsecond found)).bind fun _ => hmade.rest found

section

variable {x : Step Unit} (hx : AsksFirst env user accesses x) (hb : b.Vetted env.policy user)

include hx hb

/-- Steps that are refused have only asked. -/
theorem run_of_refused {e : AccessDenied} (h : env.policy.refusal? user accesses = some e) :
    x.run b = (.error (.accessDenied e), ((ask env user accesses).run b).2) := by
  obtain ⟨rest, rfl, -⟩ := hx
  obtain ⟨b', hrun, -⟩ := ask_of_refused hb h
  rw [run_bind, hrun]

/-- Whether steps are refused is decided by what they ask for first. -/
theorem refused_iff {e : AccessDenied} : (x.run b).1 = .error (.accessDenied e) ↔
    env.policy.refusal? user accesses = some e := by
  cases hrefusal : env.policy.refusal? user accesses with
  | some e' =>
      rw [run_of_refused hx hb hrefusal]
      constructor
      · rintro ⟨⟩
        rfl
      · rintro ⟨⟩
        rfl
  | none =>
      obtain ⟨rest, rfl, hcovered⟩ := hx
      obtain ⟨b', hrun, -, hall⟩ := ask_of_allowed (b := b) hrefusal
      rw [run_bind, hrun]
      refine iff_of_false ((hcovered b' hall).1 e) fun h => by cases h

end

/-! ## A batch of one operation -/

theorem asksFirst_acting (hlooks : env.evaluator.Looks) (call : BatchCall) {op : Operation}
    (hop : op.action.Definite) :
    AsksFirst env (op.user.getD (call.user.getD env.options.defaultUser)) op.action.questions
      (acting env call op) := by
  rw [← Action.questions_withScope op.action call.scope]
  exact asksFirst_action hlooks call.input ((Action.definite_withScope call.scope).mpr hop)

end Step

namespace Session

open BatchM

variable {env : Environment}

/-- A definite operation that is executed alone is denied if its transaction could be opened and
one of its questions is refused. -/
theorem denied_execute_iff (hlooks : env.evaluator.Looks) (s : Session) (call : BatchCall)
    {op : Operation} (hop : op.action.Definite) {e : AccessDenied} :
    (s.execute env call [op]).1 = .error (.accessDenied e) ↔
      (s.call env.faults .begin).1 = .ok () ∧
        env.policy.refusal? (op.user.getD (call.user.getD env.options.defaultUser))
          op.action.questions = some e := by
  have hfirst := Step.asksFirst_acting hlooks call hop
  rw [← Step.refused_iff hfirst (Step.vetted_next env.policy _ (s.opened env.faults))]
  refine (transact_eq_error fun _ => UpdateError.noConfusion).trans (and_congr_right fun _ => ?_)
  rw [show [op].map Except.ok = [.ok op] from rfl, Step.run_operations_one]
  cases ((Step.acting env call op).run (Step.next (s.opened env.faults))).1 with
  | ok _ => exact iff_of_false (fun h => by cases h) fun h => by cases h
  | error e' =>
      constructor
      · exact fun h => congrArg Except.error (Except.error.inj h)
      · exact fun h => congrArg Except.error (Except.error.inj h)

/-- What has been asked is all that a denied operation leaves behind. -/
theorem execute_of_refused (hlooks : env.evaluator.Looks) (s : Session) (call : BatchCall)
    {op : Operation} (hop : op.action.Definite) {e : AccessDenied}
    (hbegin : (s.call env.faults .begin).1 = .ok ())
    (hrefused : env.policy.refusal? (op.user.getD (call.user.getD env.options.defaultUser))
      op.action.questions = some e) :
    (s.execute env call [op]).2 = (Session.call ⟨s.content, ((Step.ask env
      (op.user.getD (call.user.getD env.options.defaultUser)) op.action.questions).run
        (Step.next (s.opened env.faults))).2.journal⟩ env.faults .abort).2 := by
  have hrun := Step.run_of_refused (Step.asksFirst_acting hlooks call hop)
    (Step.vetted_next env.policy _ (s.opened env.faults)) hrefused
  show (s.transact env.faults (Step.operations env call [.ok op])).2 = _
  rw [transact_eq, hbegin, Step.run_operations_one, hrun]
  rfl

/-- A refusal does not depend on the store: whether a definite operation, executed alone, is
refused, with which error, and all that is recorded of it, is the same on every two contents.
Nothing but the opening and the abort of the transaction has been called then. -/
theorem denial_reveals_nothing (hlooks : env.evaluator.Looks) (s : Session) (call : BatchCall)
    {op : Operation} (hop : op.action.Definite) (c₁ c₂ : Content) (e : AccessDenied) :
    let run (c : Content) := ({ s with content := c } : Session).execute env call [op]
    ((run c₁).1 = .error (.accessDenied e) ↔ (run c₂).1 = .error (.accessDenied e)) ∧
      ((run c₁).1 = .error (.accessDenied e) →
        (run c₁).2.content = c₁ ∧ (run c₁).2.journal = (run c₂).2.journal ∧
        (run c₁).2.journal.calls = s.journal.calls ++ [.begin, .abort]) := by
  intro run
  have hdenied (c : Content) := denied_execute_iff hlooks { s with content := c } call hop (e := e)
  refine ⟨(hdenied c₁).trans (hdenied c₂).symm, fun h => ?_⟩
  obtain ⟨hbegin, hrefused⟩ := (hdenied c₁).mp h
  have hsession (c : Content) :=
    execute_of_refused hlooks { s with content := c } call hop hbegin hrefused
  have happart := Step.respects_ask env (op.user.getD (call.user.getD env.options.defaultUser))
    op.action.questions (Step.next (Session.opened { s with content := c₁ } env.faults))
    (Step.next (Session.opened { s with content := c₂ } env.faults)) rfl
  obtain ⟨b', hrun, hcalls⟩ := Step.ask_of_refused
    (Step.vetted_next env.policy _ (Session.opened { s with content := c₁ } env.faults)) hrefused
  rw [hrun] at happart
  refine ⟨congrArg Session.content (hsession c₁), ?_, ?_⟩
  · rw [show (run c₁).2 = _ from hsession c₁, show (run c₂).2 = _ from hsession c₂, hrun]
    have hjournal := congrArg Batch.journal happart.2
    exact congrArg (fun j : Journal => (j.call env.faults .abort).2) hjournal.symm
  · rw [show (run c₁).2 = _ from hsession c₁, hrun]
    show b'.journal.calls ++ [.abort] = _
    rw [hcalls]
    exact List.append_assoc _ [CallKind.begin] [CallKind.abort]

/-- Copies what is found in the default graph to another one. -/
def publishing (g : Iri) : Operation :=
  { action := .modify {
      delete := []
      insert := [⟨.var ⟨"s"⟩, .var ⟨"p"⟩, .var ⟨"o"⟩, .iri g⟩]
      pattern := .bgp [⟨.var ⟨"s"⟩, .var ⟨"p"⟩, .var ⟨"o"⟩⟩] } }

/-- Who may not add to a graph learns nothing about what there is to be added. -/
theorem denial_reveals_nothing_publishing :
    let g : Iri := ⟨"g"⟩
    let env : Environment := { policy := fun kind _ _ => kind != .update }
    let user : User := env.options.defaultUser
    let c : Content := { triples := [⟨.iri ⟨"s"⟩, ⟨"p"⟩, .iri ⟨"o"⟩⟩] }
    let e : AccessDenied := ⟨user, g.graph, .update⟩
    (publishing g).action.Definite ∧
      (Session.execute {} env {} [publishing g]).1 = .error (.accessDenied e) ∧
      (Session.execute { content := c } env {} [publishing g]).1 = .error (.accessDenied e) ∧
      (Session.execute { content := c } env {} [publishing g]).2.journal.calls =
        [.begin, .abort] := by
  intro g env user c e
  have hlooks : env.evaluator.Looks := Evaluator.looks_scanning
  have hdefinite : (publishing g).action.Definite := by decide
  have hempty : (Session.execute {} env {} [publishing g]).1 = .error (.accessDenied e) := rfl
  obtain ⟨hdenied, hleft⟩ := denial_reveals_nothing hlooks {} {} hdefinite {} c e
  obtain ⟨-, hjournal, hcalls⟩ := hleft hempty
  exact ⟨hdefinite, hempty, hdenied.mp hempty, hjournal ▸ hcalls⟩

end Session

end GraphStore
