/-
# `GraphStore.Proofs.Questions` — steps that ask, and steps that do not

Steps of an operation ask the policy, look at the store or change it.  Three properties tell them
apart, all of them of every run, however it comes out:

* `x.Discreet` — the steps look, and neither change nor attempt a change nor ask.  An evaluator
  is discreet over every reader that is.
* `Mute x` — the steps ask nothing, and so are not refused.
* `Asking env user x` — the steps ask once for each access, and break off at the first that is
  refused.

Mute steps ask once for each of no accesses, and sequencing keeps asking: an access that has been
passed is not asked for again (`Asking.bind`).  So whatever is made of questions and of mute steps
asks once for each access.

The plan of an action is sound: the gate asks and looks and changes nothing, the rest may change
anything and asks nothing (`sound_plan`).
-/
import GraphStore.Proofs.Silence

namespace GraphStore

/-! ## Steps that only look, and steps that ask nothing -/

/-- No question has been put. -/
structure Batch.Unasked (b b' : Batch) : Prop where
  passed_eq : b'.passed = b.passed
  checks_eq : b'.journal.checks = b.journal.checks

/-- Nothing has been changed or noted, and no change was attempted. -/
structure Batch.Idle (b b' : Batch) : Prop where
  ledger_eq : b'.ledger = b.ledger
  calls_eq : ∃ ks, b'.journal.calls = b.journal.calls ++ ks ∧ CallKind.write ∉ ks

namespace Batch

variable {b b₁ b₂ : Batch}

theorem Unasked.trans (h : b.Unasked b₁) (h' : b₁.Unasked b₂) : b.Unasked b₂ :=
  ⟨h'.passed_eq.trans h.passed_eq, h'.checks_eq.trans h.checks_eq⟩

theorem tx_eq_of_ledger_eq (h : b₁.ledger = b.ledger) : b₁.tx = b.tx :=
  tx_eq_of_ledger (congrArg Ledger.content h) (congrArg Ledger.log h)

theorem Idle.of_calls_eq (hledger : b₁.ledger = b.ledger)
    (hcalls : b₁.journal.calls = b.journal.calls) : b.Idle b₁ :=
  ⟨hledger, [], by rw [hcalls, List.append_nil], List.not_mem_nil⟩

theorem Idle.trans (h : b.Idle b₁) (h' : b₁.Idle b₂) : b.Idle b₂ := by
  obtain ⟨ks, hcalls, hks⟩ := h.calls_eq
  obtain ⟨ks', hcalls', hks'⟩ := h'.calls_eq
  refine ⟨h'.ledger_eq.trans h.ledger_eq, ks ++ ks', ?_, ?_⟩
  · rw [hcalls', hcalls, List.append_assoc]
  · rw [List.mem_append]
    exact not_or.mpr ⟨hks, hks'⟩

end Batch

namespace BatchM

variable {ε δ α β : Type}

/-- The steps look at the store, and neither change anything nor ask the policy. -/
def Discreet (x : BatchM ε α) : Prop := x.Leads fun b b' => b.Idle b' ∧ b.Unasked b'

theorem discreet_of_keeps {x : BatchM ε α} (h : ∀ b, ∃ j, (x.run b).2 = { b with journal := j } ∧
    j.calls = b.journal.calls ∧ j.checks = b.journal.checks) : x.Discreet := by
  intro b
  obtain ⟨j, hb', hcalls, hchecks⟩ := h b
  rw [hb']
  exact ⟨.of_calls_eq rfl hcalls, rfl, hchecks⟩

theorem discreet_pure (a : α) : (pure a : BatchM ε α).Discreet :=
  discreet_of_keeps fun b => ⟨b.journal, rfl, rfl, rfl⟩

theorem discreet_throw (e : ε) : (throw e : BatchM ε α).Discreet :=
  discreet_of_keeps fun b => ⟨b.journal, rfl, rfl, rfl⟩

theorem Discreet.bind {x : BatchM ε α} {f : α → BatchM ε β} (hx : x.Discreet)
    (hf : ∀ a, (f a).Discreet) : (x >>= f).Discreet :=
  Leads.bind (fun _ _ _ h h' => ⟨h.1.trans h'.1, h.2.trans h'.2⟩) hx hf

theorem Discreet.mapError {x : BatchM ε α} (hx : x.Discreet) (f : ε → δ) :
    (mapError f x).Discreet := hx

/-- A store call that reads. -/
theorem discreet_call {kind : CallKind} (hkind : kind ≠ .write) (faults : Faults)
    (read : Transaction → α) : (call faults kind fun tx => (read tx, tx)).Discreet := by
  have hks : CallKind.write ∉ [kind] := by simpa using hkind.symm
  intro b
  rw [run_call]
  unfold Journal.call
  cases faults kind (b.journal.calls.count kind) <;>
    exact ⟨⟨rfl, [kind], rfl, hks⟩, rfl, rfl⟩

end BatchM

/-- Over a reader whose lookups are discreet, the evaluator is: it can reach neither the open
transaction nor the policy in another way. -/
def Evaluator.Discreet (e : Evaluator) : Prop :=
  ∀ r : Reader (BatchM EvaluationError), r.Related (fun _ x _ => x.Discreet) r →
    ∀ p scope input, (e.run r p scope input).Discreet

theorem uniform_discreet : Uniform (m := BatchM EvaluationError) (n := BatchM EvaluationError)
    fun _ x _ => x.Discreet where
  pure a := BatchM.discreet_pure a
  throw e := BatchM.discreet_throw e
  bind hx hf := hx.bind hf

theorem Reader.discreet_reader {ε : Type} (faults : Faults) (f : StorageError → ε) :
    Reader.Related (fun _ x _ => x.Discreet) (BatchM.reader faults f) (BatchM.reader faults f) := by
  have hcall : ∀ {α : Type} {kind : CallKind}, kind ≠ .write → ∀ read : Transaction → α,
      (BatchM.mapError f (BatchM.call faults kind fun tx => (read tx, tx))).Discreet :=
    fun hkind read => (BatchM.discreet_call hkind faults read).mapError f
  exact ⟨fun _ => hcall (by decide) _, fun _ _ => hcall (by decide) _,
    fun _ => hcall (by decide) _, hcall (by decide) _, fun _ => hcall (by decide) _⟩

namespace Evaluator

theorem discreet_scanning : scanning.Discreet := by
  intro r hr p scope input
  exact uniform_discreet.eval (uniform_discreet.dataset hr scope) p .default _

theorem discreet_scripted (bindings : List Binding) (error : Option EvaluationError) :
    (scripted bindings error).Discreet := by
  intro r hr p scope input
  refine (uniform_discreet.find hr none .any).bind fun visible => ?_
  refine .bind (BatchM.discreet_of_keeps fun b => ⟨_, rfl, rfl, rfl⟩) fun _ => ?_
  cases error with
  | some e => exact BatchM.discreet_throw e
  | none => exact BatchM.discreet_pure bindings

end Evaluator

namespace Step

open BatchM

variable {env : Environment} {user : User} {α β : Type} {b b' : Batch}
  {accesses : List (AccessKind × GraphName)}

/-- The steps ask nothing, and so are not refused. -/
def Mute (x : Step α) : Prop :=
  ∀ b, b.Unasked (x.run b).2 ∧ ∀ e, (x.run b).1 ≠ .error (.accessDenied e)

theorem mute_pure (a : α) : Mute (pure a) := fun _ => ⟨⟨rfl, rfl⟩, fun _ h => nomatch h⟩

theorem mute_throw {e : UpdateError} (he : ∀ d, e ≠ .accessDenied d) : Mute (throw e : Step α) :=
  fun _ => ⟨⟨rfl, rfl⟩, fun d h => he d (Except.error.inj h)⟩

theorem Mute.bind {x : Step α} {f : α → Step β} (hx : Mute x) (hf : ∀ a, Mute (f a)) :
    Mute (x >>= f) := by
  intro b
  obtain ⟨hunasked, hgranted⟩ := hx b
  rw [run_bind]
  cases hrun : x.run b with
  | mk r b₁ =>
      rw [hrun] at hunasked hgranted
      cases r with
      | ok a => exact ⟨hunasked.trans (hf a b₁).1, (hf a b₁).2⟩
      | error e =>
          exact ⟨hunasked, fun d h => hgranted d (congrArg Except.error (Except.error.inj h))⟩

/-- Failures of the store, and of the evaluation of a pattern, are of other kinds. -/
theorem mute_mapError {ε : Type} {f : ε → UpdateError} (hf : ∀ e d, f e ≠ .accessDenied d)
    {x : BatchM ε α} (hx : x.Leads Batch.Unasked) : Mute (mapError f x) := by
  intro b
  refine ⟨hx b, fun d => ?_⟩
  show (x.run b).1.mapError f ≠ _
  cases (x.run b).1 with
  | ok a => exact fun h => nomatch h
  | error e => exact fun h => hf e d (Except.error.inj h)

theorem mute_call (kind : CallKind) (act : Transaction → α × Transaction) :
    Mute (mapError UpdateError.storage (call env.faults kind act)) := by
  refine mute_mapError (fun _ _ => UpdateError.noConfusion) fun b => ?_
  rw [run_call]
  unfold Journal.call
  cases env.faults kind (b.journal.calls.count kind) <;> exact ⟨rfl, rfl⟩

theorem handling_mute (env : Environment) : Handling env fun _ x => Mute x where
  pure := mute_pure
  bind := Mute.bind
  quadsOf g := by cases g <;> exact mute_call _ _
  containsGraph _ := mute_call _ _
  namedGraphs := mute_call _ _
  change _ := mute_call _ _
  noteInserted _ _ := ⟨⟨rfl, rfl⟩, fun _ h => nomatch h⟩
  noteDeleted _ _ := ⟨⟨rfl, rfl⟩, fun _ h => nomatch h⟩

/-! ## What has been asked -/

/-- What steps with this outcome have been answered: every access was allowed, or the last one was
refused and the outcome is the refusal. -/
inductive Answered (policy : Policy) (user : User) :
    Except UpdateError α → List (AccessKind × GraphName) → Prop
  | granted {outcome : Except UpdateError α} {asked : List (AccessKind × GraphName)} :
      (∀ c ∈ asked, policy c.1 c.2 user = true) →
      (∀ e, outcome ≠ .error (.accessDenied e)) → Answered policy user outcome asked
  | refused {asked : List (AccessKind × GraphName)} {kind : AccessKind} {g : GraphName} :
      (∀ c ∈ asked, policy c.1 c.2 user = true) → policy kind g user = false →
      Answered policy user (.error (.accessDenied ⟨user, g, kind⟩)) (asked ++ [(kind, g)])

/-- From one batch to the other the accesses `asked` have been asked for, each of them once and none
that had been passed before. -/
structure Asks (user : User) (asked : List (AccessKind × GraphName)) (b b' : Batch) : Prop where
  passed_eq : b'.passed = b.passed ++ asked
  checks_eq : b'.journal.checks = b.journal.checks ++ asked.map fun c => ⟨c.1, c.2, user⟩
  passed_nodup : b'.passed.Nodup

/-- The steps ask once for each access, and break off where one is refused. -/
def Asking (env : Environment) (user : User) (x : Step α) : Prop :=
  ∀ b, b.passed.Nodup → ∃ asked, Asks user asked b (x.run b).2 ∧
    Answered env.policy user (x.run b).1 asked

theorem Answered.prepend {outcome : Except UpdateError α} {policy : Policy}
    {asked asked' : List (AccessKind × GraphName)}
    (hasked : ∀ c ∈ asked, policy c.1 c.2 user = true)
    (h : Answered policy user outcome asked') : Answered policy user outcome (asked ++ asked') := by
  cases h with
  | granted hall hgranted => exact .granted (List.forall_mem_append.mpr ⟨hasked, hall⟩) hgranted
  | refused hall hrefused =>
      rw [← List.append_assoc]
      exact .refused (List.forall_mem_append.mpr ⟨hasked, hall⟩) hrefused

theorem Answered.of_ok {policy : Policy} {a : α} (h : Answered policy user (.ok a) accesses) :
    ∀ c ∈ accesses, policy c.1 c.2 user = true := by
  cases h with
  | granted hall _ => exact hall

/-- A failure answers what it does, whatever success would have answered. -/
theorem Answered.error {policy : Policy} {e : UpdateError}
    (h : Answered policy user (.error e : Except UpdateError α) accesses) :
    Answered policy user (.error e : Except UpdateError β) accesses := by
  cases h with
  | granted hall hgranted =>
      exact .granted hall fun d hd => hgranted d (congrArg Except.error (Except.error.inj hd))
  | refused hall hrefused => exact .refused hall hrefused

/-- Only the last access can have been refused. -/
theorem Answered.getLast?_of_refused {policy : Policy} {outcome : Except UpdateError α}
    (h : Answered policy user outcome accesses) {kind : AccessKind} {g : GraphName}
    (hmem : (kind, g) ∈ accesses) (hrefused : policy kind g user = false) :
    accesses.getLast? = some (kind, g) ∧ outcome = .error (.accessDenied ⟨user, g, kind⟩) := by
  have hnot : ∀ asked : List (AccessKind × GraphName),
      (∀ c ∈ asked, policy c.1 c.2 user = true) → (kind, g) ∉ asked := by
    intro asked hall hmem
    exact Bool.false_ne_true (hrefused.symm.trans (hall _ hmem))
  cases h with
  | granted hall _ => exact absurd hmem (hnot _ hall)
  | refused hall _ =>
      rcases List.mem_append.mp hmem with hmem | hmem
      · exact absurd hmem (hnot _ hall)
      · cases List.mem_singleton.mp hmem
        exact ⟨List.getLast?_concat, rfl⟩

theorem Asks.trans {asked asked' : List (AccessKind × GraphName)} {b₁ b₂ : Batch}
    (h : Asks user asked b b₁) (h' : Asks user asked' b₁ b₂) :
    Asks user (asked ++ asked') b b₂ where
  passed_eq := by rw [h'.passed_eq, h.passed_eq, List.append_assoc]
  checks_eq := by rw [h'.checks_eq, h.checks_eq, List.map_append, List.append_assoc]
  passed_nodup := h'.passed_nodup

theorem Asking.bind {x : Step α} {f : α → Step β} (hx : Asking env user x)
    (hf : ∀ a, Asking env user (f a)) : Asking env user (x >>= f) := by
  intro b hb
  obtain ⟨asked, hasks, hanswered⟩ := hx b hb
  rw [run_bind]
  cases hrun : x.run b with
  | mk r b₁ =>
      rw [hrun] at hasks hanswered
      cases r with
      | ok a =>
          obtain ⟨asked', hasks', hanswered'⟩ := hf a b₁ hasks.passed_nodup
          exact ⟨asked ++ asked', hasks.trans hasks', hanswered'.prepend hanswered.of_ok⟩
      | error e => exact ⟨asked, hasks, hanswered.error⟩

theorem Mute.asking {x : Step α} (hx : Mute x) : Asking env user x := by
  intro b hb
  obtain ⟨⟨hpassed, hchecks⟩, hgranted⟩ := hx b
  refine ⟨[], ⟨?_, ?_, ?_⟩, .granted (fun _ h => absurd h List.not_mem_nil) hgranted⟩
  · rw [hpassed, List.append_nil]
  · rw [hchecks, List.map_nil, List.append_nil]
  · rw [hpassed]
    exact hb

theorem asking_check (kind : AccessKind) (g : GraphName) :
    Asking env user (check env user kind g) := by
  intro b hb
  rw [run_check]
  by_cases hpassed : (kind, g) ∈ b.passed
  · rw [if_pos hpassed]
    exact (mute_pure ()).asking b hb
  · rw [if_neg hpassed]
    refine ⟨[(kind, g)], ⟨rfl, rfl, QuadLists.nodup_concat hb hpassed⟩, ?_⟩
    unfold Policy.check
    by_cases hallowed : env.policy kind g user = true
    · rw [if_pos hallowed]
      exact .granted (List.forall_mem_singleton.mpr hallowed) fun _ h => nomatch h
    · rw [if_neg hallowed]
      show Answered env.policy user _ ([] ++ [(kind, g)])
      exact .refused (fun _ h => absurd h List.not_mem_nil) (Bool.eq_false_iff.mpr hallowed)

theorem asking_ask (accesses : List (AccessKind × GraphName)) :
    Asking env user (ask env user accesses) := by
  induction accesses with
  | nil => exact (mute_pure ()).asking
  | cons c accesses ih => exact (asking_check c.1 c.2).bind fun _ => ih

/-- Questions that are all answered have passed what they asked for. -/
theorem mem_passed_of_ends_ask {u : Unit} (h : Ends (ask env user accesses) b u b')
    {c : AccessKind × GraphName} : c ∈ b'.passed ↔ c ∈ b.passed ∨ c ∈ accesses := by
  induction accesses generalizing b with
  | nil =>
      rw [ends_forM_nil.mp h]
      simp
  | cons c' accesses ih =>
      obtain ⟨b₁, hcheck, h⟩ := ends_forM_cons.mp h
      rw [ih h, List.mem_cons]
      rcases ends_check_cases hcheck with ⟨hpassed, rfl⟩ | ⟨-, -, rfl⟩
      · constructor
        · rintro (hc | hc)
          · exact .inl hc
          · exact .inr (.inr hc)
        · rintro (hc | rfl | hc)
          · exact .inl hc
          · exact .inl hpassed
          · exact .inr hc
      · rw [← or_assoc]
        exact or_congr_left (List.mem_append.trans (or_congr_right List.mem_singleton))

theorem idle_ask (accesses : List (AccessKind × GraphName)) :
    (ask env user accesses).Leads Batch.Idle := by
  induction accesses with
  | nil => exact fun _ => .of_calls_eq rfl rfl
  | cons c accesses ih =>
      refine Leads.bind (fun _ _ _ h h' => h.trans h') (fun b => ?_) fun _ => ih
      rw [run_check]
      split <;> exact .of_calls_eq rfl rfl

/-! ## Plans -/

/-- The look changes and asks nothing, and the rest asks nothing. -/
structure Plan.Sound (p : Plan) : Prop where
  look_discreet : p.look.Discreet
  made : p.Made fun _ x => Mute x

theorem discreet_solve (hdiscreet : env.evaluator.Discreet) (m : Modify)
    (input : Option Binding) : (solve env user m input).Discreet := by
  have hreader := uniform_discreet.restrict
    (Reader.discreet_reader env.faults EvaluationError.storage) env.policy user
  exact (hdiscreet _ hreader m.pattern m.scope (m.input.or input)).mapError _

theorem discreet_look (hdiscreet : env.evaluator.Discreet) (input : Option Binding) (a : Action) :
    (plan env user input a).look.Discreet := by
  have hreader := Reader.discreet_reader env.faults UpdateError.storage
  cases a with
  | create _ _ | insertData _ | deleteData _ => exact discreet_pure ()
  | graph op =>
      have hremoval : (removalPlan env op).look.Discreet := by
        unfold removalPlan
        cases op.source with
        | named r => exact hreader.containsGraph r
        | defaultGraph => exact discreet_pure ()
        | namedGraphs | allGraphs => exact hreader.namedGraphs
      unfold plan
      dsimp only
      cases op.malformed? with
      | some e => exact discreet_pure ()
      | none =>
          cases op.source.single? with
          | none => exact hremoval
          | some source =>
              cases op.destination with
              | none => exact hremoval
              | some destination => exact discreet_pure ()
  | modify m =>
      refine (discreet_solve hdiscreet m input).bind fun _ => .bind ?_ fun _ => discreet_pure _
      exact discreet_of_keeps fun b => ⟨_, rfl, rfl, rfl⟩

theorem sound_plan (hdiscreet : env.evaluator.Discreet) (input : Option Binding) (a : Action) :
    (plan env user input a).Sound := by
  refine ⟨discreet_look hdiscreet input a, (handling_mute env).made_plan ?_ ?_ fun m _ => ⟨?_, ?_⟩⟩
  · exact fun _ _ => mute_throw fun _ => UpdateError.noConfusion
  · exact fun _ _ => mute_throw fun _ => UpdateError.noConfusion
  · exact mute_mapError (fun _ _ => UpdateError.noConfusion) fun b =>
      (discreet_solve hdiscreet m input b).2
  · exact fun _ _ => ⟨⟨rfl, rfl⟩, fun _ h => nomatch h⟩

section

variable {p : Plan} (hp : p.Sound)

include hp

theorem Plan.Sound.asking : Asking env user (p.steps env user) := by
  rw [steps_eq]
  refine (asking_ask p.first).bind fun _ => hp.made.look.asking.bind fun found => ?_
  exact (asking_ask (p.second found)).bind fun _ => (hp.made.rest found).asking

/-- The gate leaves everything as it was. -/
theorem Plan.Sound.idle_gate : (p.gate env user).Leads Batch.Idle := by
  have htrans : ∀ b b₁ b₂ : Batch, b.Idle b₁ → b₁.Idle b₂ → b.Idle b₂ :=
    fun _ _ _ h h' => h.trans h'
  refine Leads.bind htrans (idle_ask p.first) fun _ => ?_
  refine Leads.bind htrans (fun b => (hp.look_discreet b).1) fun found => ?_
  exact Leads.bind htrans (idle_ask _) fun _ _ => .of_calls_eq rfl rfl

/-- All questions have been put when the gate has been passed. -/
theorem Plan.Sound.checks_eq (b : Batch) : ((p.steps env user).run b).2.journal.checks =
    ((p.gate env user).run b).2.journal.checks := by
  unfold steps
  rw [run_bind]
  cases (p.gate env user).run b with
  | mk r b₁ =>
      cases r with
      | ok found => exact (hp.made.rest found b₁).1.checks_eq
      | error e => rfl

/-- Who is refused has not passed the gate. -/
theorem Plan.Sound.idle_of_refused {e : AccessDenied}
    (h : ((p.steps env user).run b).1 = .error (.accessDenied e)) :
    b.Idle ((p.steps env user).run b).2 := by
  have hgate : b.Idle ((p.gate env user).run b).2 := hp.idle_gate b
  unfold steps at h ⊢
  rw [run_bind] at h ⊢
  cases hrun : (p.gate env user).run b with
  | mk r b₁ =>
      rw [hrun] at h hgate
      cases r with
      | ok found => exact absurd h ((hp.made.rest found b₁).2 e)
      | error e' => exact hgate

/-- Steps that succeed have passed what they asked for, first and then about what they found. -/
theorem Plan.Sound.mem_passed {u : Unit} (h : Ends (p.steps env user) b u b') :
    ∃ b₁ found b₂, b₁.ledger = b.ledger ∧ Ends p.look b₁ found b₂ ∧
      ∀ c, c ∈ b'.passed ↔ c ∈ b.passed ∨ c ∈ p.first ++ p.second found := by
  rw [steps_eq] at h
  obtain ⟨_, b₁, hfirst, h⟩ := ends_bind.mp h
  obtain ⟨found, b₂, hlook, h⟩ := ends_bind.mp h
  obtain ⟨_, b₃, hsecond, hrest⟩ := ends_bind.mp h
  have hmute : ∀ {α : Type} {x : Step α} {a : α} {b b' : Batch}, Mute x → Ends x b a b' →
      b'.passed = b.passed := by
    intro α x a b b' hx h
    have hunasked := (hx b).1.passed_eq
    rw [show x.run b = (.ok a, b') from h] at hunasked
    exact hunasked
  refine ⟨b₁, found, b₂, ledger_of_ends_forM_check Prod.fst Prod.snd hfirst, hlook, fun c => ?_⟩
  rw [hmute (hp.made.rest found) hrest, mem_passed_of_ends_ask hsecond, hmute hp.made.look hlook,
    mem_passed_of_ends_ask hfirst, List.mem_append, or_assoc]

end

end Step

end GraphStore
