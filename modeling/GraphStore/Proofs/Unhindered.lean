/-
# `GraphStore.Proofs.Unhindered` — steps that cannot fail

An environment is unhindered if its policy permits everything and no store call
fails.  An operation can then only fail for a reason of its own: a graph in the wrong
state, a target that does not fit, or a pattern that cannot be evaluated.

`x.Total` says that the steps succeed on every batch.  Where no store call fails, all steps
that look at the store or make a change are total, and so is what is composed of them
(`handling_total`).  A question is passed if the policy allows the access.  *What* steps do is
said by the lemmas about `Ends` in `GraphStore.Proofs.Steps`.
-/
import GraphStore.Proofs.Compositional
import GraphStore.Proofs.Effects

namespace GraphStore

namespace BatchM

variable {ε δ α β : Type}

/-- The steps succeed on every batch. -/
def Total (x : BatchM ε α) : Prop := ∀ b, ∃ a b', Ends x b a b'

theorem total_pure (a : α) : Total (pure a : BatchM ε α) :=
  fun b => ⟨a, b, ends_pure.mpr ⟨rfl, rfl⟩⟩

theorem total_set (s : Batch) : Total (set s : BatchM ε PUnit) :=
  fun _ => ⟨⟨⟩, s, ends_set.mpr rfl⟩

theorem total_modify (f : Batch → Batch) : Total (modify f : BatchM ε PUnit) :=
  fun b => ⟨⟨⟩, f b, ends_modify.mpr rfl⟩

theorem Total.bind {x : BatchM ε α} {f : α → BatchM ε β} (hx : x.Total)
    (hf : ∀ a, (f a).Total) : (x >>= f).Total := by
  intro b
  obtain ⟨a, b₁, ha⟩ := hx b
  obtain ⟨c, b', hc⟩ := hf a b₁
  exact ⟨c, b', ends_bind.mpr ⟨a, b₁, ha, hc⟩⟩

/-- Steps that go on with the batch as they find it. -/
theorem total_get_bind {f : Batch → BatchM ε α} (hf : ∀ b, (f b).Total) : (get >>= f).Total := by
  intro b
  obtain ⟨a, b', h⟩ := hf b b
  exact ⟨a, b', ends_get_bind.mpr h⟩

theorem Total.mapError {x : BatchM ε α} (hx : x.Total) (f : ε → δ) : (mapError f x).Total := by
  intro b
  obtain ⟨a, b', h⟩ := hx b
  exact ⟨a, b', ends_mapError.mpr h⟩

theorem total_call {faults : Faults} {kind : CallKind} (hkind : ∀ n, faults kind n = none)
    (act : Transaction → α × Transaction) : (call faults kind act).Total :=
  fun b => ⟨_, _, run_call_of_faultless hkind act b⟩

/-- A lookup answers what the transaction holds. -/
theorem exists_ends_look {faults : Faults} {kind : CallKind} (hkind : ∀ n, faults kind n = none)
    (read : Transaction → α) (b : Batch) :
    ∃ j, Ends (call faults kind fun tx => (read tx, tx)) b (read b.tx) { b with journal := j } := by
  obtain ⟨a, b', h⟩ := total_call hkind (fun tx => (read tx, tx)) b
  obtain ⟨rfl, j, rfl⟩ := h.of_call
  exact ⟨j, h⟩

end BatchM

/-- The policy permits everything, and no store call fails. -/
structure Environment.Unhindered (env : Environment) : Prop where
  permits : ∀ kind g user, env.policy kind g user = true
  faultless : ∀ kind n, env.faults kind n = none

/-- Where everything is permitted, nothing has been passed without permission. -/
theorem Environment.Unhindered.vetted {env : Environment} (henv : env.Unhindered) (b : Batch)
    (user : User) : b.Vetted env.policy user := fun _ _ => henv.permits _ _ _

theorem Environment.Unhindered.allowed {env : Environment} (henv : env.Unhindered) (m : Modify)
    (user : User) (D I : Quad → Prop) : m.Allowed env.policy user D I :=
  ⟨fun _ _ _ _ => henv.permits _ _ _, fun _ _ _ _ => henv.permits _ _ _,
    fun _ _ => henv.permits _ _ _, fun _ _ => henv.permits _ _ _⟩

namespace Step

open BatchM

variable {env : Environment} {user : User}

/-- Where no store call fails, neither does what is made of lookups and changes. -/
theorem handling_total (hfaults : ∀ kind n, env.faults kind n = none) :
    Handling env fun _ x => x.Total where
  pure := total_pure
  bind := Total.bind
  quadsOf g := by cases g <;> exact (total_call (hfaults .read) _).mapError _
  containsGraph _ := (total_call (hfaults .graphs) _).mapError _
  namedGraphs := (total_call (hfaults .graphs) _).mapError _
  change _ := (total_call (hfaults .write) _).mapError _
  noteInserted _ := total_modify _
  noteDeleted _ := total_modify _

theorem exists_ends_containsGraph (hfaults : ∀ kind n, env.faults kind n = none) (g : Resource)
    (b : Batch) : ∃ j, Ends ((reader env).containsGraph g) b (b.tx.content.containsGraph g)
      { b with journal := j } := by
  obtain ⟨j, h⟩ := exists_ends_look (hfaults .graphs) (·.content.containsGraph g) b
  exact ⟨j, ends_mapError.mpr h⟩

theorem exists_ends_namedGraphs (hfaults : ∀ kind n, env.faults kind n = none) (b : Batch) :
    ∃ j, Ends (reader env).namedGraphs b b.tx.content.namedGraphs { b with journal := j } := by
  obtain ⟨j, h⟩ := exists_ends_look (hfaults .graphs) (·.content.namedGraphs) b
  exact ⟨j, ends_mapError.mpr h⟩

/-- A graph that exists is not missing. -/
theorem exists_ends_absent? (hfaults : ∀ kind n, env.faults kind n = none) {g : GraphName}
    {b : Batch} (hg : b.tx.content.Has g) :
    ∃ j, Ends (absent? env g) b none { b with journal := j } := by
  cases g with
  | default => exact ⟨b.journal, ends_pure.mpr ⟨rfl, rfl⟩⟩
  | named r =>
      obtain ⟨j, h⟩ := exists_ends_containsGraph hfaults r b
      rw [show b.tx.content.containsGraph r = true from hg] at h
      exact ⟨j, ends_bind.mpr ⟨true, _, h, ends_pure.mpr ⟨rfl, rfl⟩⟩⟩

/-- A question about what the policy allows is passed. -/
theorem exists_ends_check {kind : AccessKind} {g : GraphName}
    (h : env.policy kind g user = true) (b : Batch) :
    ∃ b', Ends (check env user kind g) b () b' := by
  have htotal : (check env user kind g).Total := by
    refine total_get_bind fun b => ?_
    by_cases hpassed : (kind, g) ∈ b.passed
    · rw [if_pos hpassed]
      exact total_pure ()
    · rw [if_neg hpassed, Policy.check, if_pos h]
      exact (total_set _).bind fun _ => total_pure ()
  obtain ⟨_, b', hends⟩ := htotal b
  exact ⟨b', hends⟩

theorem exists_ends_forM_check {α : Type} (kind : α → AccessKind) (g : α → GraphName)
    {xs : List α} (h : ∀ x ∈ xs, env.policy (kind x) (g x) user = true) (b : Batch) :
    ∃ b', Ends (xs.forM fun x => check env user (kind x) (g x)) b () b' := by
  induction xs generalizing b with
  | nil => exact ⟨b, ends_forM_nil.mpr rfl⟩
  | cons x xs ih =>
      obtain ⟨hx, hxs⟩ := List.forall_mem_cons.mp h
      obtain ⟨b₁, hcheck⟩ := exists_ends_check hx b
      obtain ⟨b', hchecks⟩ := ih hxs b₁
      exact ⟨b', ends_forM_cons.mpr ⟨b₁, hcheck, hchecks⟩⟩

/-- A transfer that is admitted, from a graph that exists. -/
theorem exists_ends_transfer (hfaults : ∀ kind n, env.faults kind n = none)
    {action : GraphAction} {source destination : GraphName}
    (hadmitted : action.Admitted (env.May user) source destination) (silent : Bool) {b : Batch}
    (hsource : b.tx.content.Has source) :
    ∃ b', Ends (transfer env user action source destination silent) b () b' := by
  obtain ⟨b₁, hchecks⟩ :=
    exists_ends_forM_check Prod.fst Prod.snd (admitted_iff_checks.mp hadmitted) b
  have hc₁ : b₁.tx.content = b.tx.content :=
    congrArg Ledger.content (ledger_of_ends_forM_check Prod.fst Prod.snd hchecks)
  rw [← hc₁] at hsource
  unfold transfer
  by_cases hne : source = destination
  · refine ⟨b₁, ends_bind.mpr ⟨(), b₁, hchecks, ?_⟩⟩
    rw [if_pos hne]
    exact ends_pure.mpr ⟨rfl, rfl⟩
  · obtain ⟨j, habsent⟩ := exists_ends_absent? hfaults hsource
    obtain ⟨_, b', hquads⟩ := (handling_total hfaults).transferQuads action source destination
      { b₁ with journal := j }
    refine ⟨b', ends_bind.mpr ⟨(), b₁, hchecks, ?_⟩⟩
    rw [if_neg hne]
    exact ends_bind.mpr ⟨none, _, habsent, hquads⟩

theorem exists_ends_removeAll (hfaults : ∀ kind n, env.faults kind n = none)
    {action : GraphAction} {graphs : List GraphName}
    (h : ∀ g ∈ graphs, env.May user (removalKind action) g) (b : Batch) :
    ∃ b', Ends (removeAll env user action graphs) b () b' := by
  obtain ⟨b₁, hchecks⟩ := exists_ends_forM_check (fun _ => removalKind action) id h b
  obtain ⟨_, b', hremove⟩ := (handling_total hfaults).removeEach action graphs b₁
  exact ⟨b', ends_bind.mpr ⟨(), b₁, hchecks, hremove⟩⟩

/-- DROP or CLEAR of graphs that the policy allows it for.  A single graph has to exist, or the
operation is silent. -/
theorem exists_ends_dropOrClear (hfaults : ∀ kind n, env.faults kind n = none)
    {op : GraphOperation} {b : Batch}
    (hsingle : ∀ g, op.source.single? = some g → env.May user (removalKind op.action) g ∧
      (op.silent = true ∨ b.tx.content.Has g))
    (h : ∀ g ∈ b.tx.content.targets op.source, env.May user (removalKind op.action) g) :
    ∃ b', Ends (dropOrClear env user op) b () b' := by
  unfold dropOrClear
  cases hsource : op.source with
  | named r =>
      rw [hsource] at hsingle
      obtain ⟨hmay, hhas⟩ := hsingle (.named r) rfl
      obtain ⟨b₁, hcheck⟩ := exists_ends_check hmay b
      have hc₁ : b₁.tx.content = b.tx.content :=
        congrArg Ledger.content (ledger_of_ends_check hcheck)
      obtain ⟨j, hfound⟩ := exists_ends_containsGraph hfaults r b₁
      have hstart : ∀ {b' : Batch}, Ends (if b₁.tx.content.containsGraph r then
          removeAll env user op.action [.named r]
        else unlessSilent op.silent (.graphDoesNotExist r)) { b₁ with journal := j } () b' →
          ∃ b', Ends (do
            check env user (removalKind op.action) (.named r)
            if ← (reader env).containsGraph r then
              removeAll env user op.action [.named r]
            else
              unlessSilent op.silent (.graphDoesNotExist r)) b () b' :=
        fun hlast => ⟨_, ends_bind.mpr ⟨_, b₁, hcheck, ends_bind.mpr ⟨_, _, hfound, hlast⟩⟩⟩
      by_cases hr : b₁.tx.content.containsGraph r = true
      · rw [if_pos hr] at hstart
        obtain ⟨b', hremove⟩ := exists_ends_removeAll hfaults
          (List.forall_mem_singleton.mpr hmay) { b₁ with journal := j }
        exact hstart hremove
      · rw [if_neg hr] at hstart
        rw [hc₁] at hr
        rw [hhas.resolve_right hr] at hstart ⊢
        exact hstart (ends_pure.mpr ⟨rfl, rfl⟩)
  | defaultGraph =>
      rw [hsource] at h
      exact exists_ends_removeAll hfaults h b
  | namedGraphs =>
      rw [hsource] at h
      obtain ⟨j, hnamed⟩ := exists_ends_namedGraphs hfaults b
      obtain ⟨b', hremove⟩ := exists_ends_removeAll hfaults h { b with journal := j }
      exact ⟨b', ends_bind.mpr ⟨_, _, hnamed, hremove⟩⟩
  | allGraphs =>
      rw [hsource] at h
      obtain ⟨j, hnamed⟩ := exists_ends_namedGraphs hfaults b
      obtain ⟨b', hremove⟩ := exists_ends_removeAll hfaults h { b with journal := j }
      exact ⟨b', ends_bind.mpr ⟨_, _, hnamed, hremove⟩⟩

theorem total_takeNodes (count : Nat) : (takeNodes count).Total :=
  total_get_bind fun _ => (total_set _).bind fun _ => total_pure _

end Step

end GraphStore
