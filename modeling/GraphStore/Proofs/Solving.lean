/-
# `GraphStore.Proofs.Solving` — an update whose solutions are known

Which solutions the pattern of an update has is the evaluator's affair.  `env.Solves user m input c S`
says that in a batch that stands at the content `c` they are `S`, and that finding them changes
nothing: the scanning evaluator finds the solutions over the part of the content that the user may
query (`solves_scanning`), the scripted one those it has been given (`solves_scripted`).

Everything else about the update is then settled.  It succeeds if the policy allows it
(`exists_ends_modifyQuads`) and only then, and it attempts the deletions and then the insertions
that the templates ask for (`ends_modifyQuads_solved`).
-/
import GraphStore.Proofs.HiddenGraphs
import GraphStore.Proofs.Lookup
import GraphStore.Proofs.Unhindered

namespace GraphStore

/-! ## The solutions -/

/-- In every batch that stands at the content, `S` are the solutions; to find them changes nothing
and takes no new blank nodes. -/
def Environment.Solves (env : Environment) (user : User) (m : Modify) (input : Option Binding)
    (c : Content) (S : List Binding) : Prop :=
  ∀ b : Batch, b.tx.content = c → ∃ j, j.nextNode = b.journal.nextNode ∧
    BatchM.Ends (Step.solve env user m input) b S { b with journal := j }

namespace BatchM

variable {ε α : Type}

/-- In every batch that stands at the content, the steps come out as `r`, and change and take
nothing. -/
def Finds (c : Content) (r : Except ε α) (x : BatchM ε α) : Prop :=
  ∀ b : Batch, b.tx.content = c →
    ∃ j, j.nextNode = b.journal.nextNode ∧ x.run b = (r, { b with journal := j })

theorem uniform_finds (c : Content) : Uniform (m := Except EvaluationError)
    (n := BatchM EvaluationError) fun _ r x => Finds c r x where
  pure a b _ := ⟨b.journal, rfl, rfl⟩
  throw e b _ := ⟨b.journal, rfl, rfl⟩
  bind {α β r x f g} hx hf b hb := by
    obtain ⟨j, hj, hrun⟩ := hx b hb
    rw [run_bind, hrun]
    cases r with
    | error e => exact ⟨j, hj, rfl⟩
    | ok a =>
        obtain ⟨j', hj', hrun'⟩ := hf a { b with journal := j } hb
        exact ⟨j', hj'.trans hj, hrun'⟩

/-- The lookups of a transaction find what its content has. -/
theorem finds_reader {faults : Faults} (hfaults : ∀ kind n, faults kind n = none) (c : Content) :
    Reader.Related (fun _ r x => Finds c r x) (c.reader : Reader (Except EvaluationError))
      (BatchM.reader faults EvaluationError.storage) := by
  have hlook : ∀ {α : Type} (kind : CallKind) (read : Content → α),
      Finds c (.ok (read c)) (mapError EvaluationError.storage
        (call faults kind fun tx => (read tx.content, tx))) := by
    rintro α kind read b rfl
    exact ⟨(b.journal.call faults kind).2, rfl,
      ends_mapError.mpr (run_call_of_faultless (hfaults kind) _ b)⟩
  exact ⟨fun k => hlook .read (·.findDefault k), fun g k => hlook .read (·.findNamed g k),
    fun k => hlook .read (·.findAnyNamed k), hlook .graphs (·.namedGraphs),
    fun g => hlook .graphs (·.containsGraph g)⟩

end BatchM

section

variable {env : Environment} (hfaults : ∀ kind n, env.faults kind n = none) {user : User}
  {m : Modify} {input : Option Binding} {c : Content} {S : List Binding}

include hfaults

/-- What the evaluator is handed finds what the user may query. -/
theorem finds_restrict (c : Content) (user : User) :
    Reader.Related (fun _ r x => BatchM.Finds c r x)
      ((c.restrict env.policy user).reader : Reader (Except EvaluationError))
      ((BatchM.reader env.faults EvaluationError.storage).restrict env.policy user) := by
  rw [← c.restrict_reader]
  exact (BatchM.uniform_finds c).restrict (BatchM.finds_reader hfaults c) env.policy user

/-- The scanning evaluator finds the solutions over what the user may query. -/
theorem solves_scanning (hscan : env.evaluator = .scanning)
    (h : ((c.restrict env.policy user).view m.scope).eval m.pattern .default
      [(m.input.or input).getD .empty] = .ok S) :
    env.Solves user m input c S := by
  intro b hb
  have huniform := BatchM.uniform_finds c
  obtain ⟨j, hj, hrun⟩ := huniform.eval (huniform.dataset (finds_restrict hfaults c user) m.scope)
    m.pattern .default [(m.input.or input).getD .empty] b hb
  refine ⟨j, hj, BatchM.ends_mapError.mpr ?_⟩
  rw [hscan]
  exact hrun.trans (Prod.ext h rfl)

/-- The scripted one answers what it has been told to. -/
theorem solves_scripted (hscript : env.evaluator = .scripted S none) :
    env.Solves user m input c S := by
  intro b hb
  obtain ⟨j, hj, hfound⟩ :=
    (BatchM.uniform_finds c).find (finds_restrict hfaults c user) none .any b hb
  refine ⟨{ j with evaluations := j.evaluations ++ [⟨m.pattern, m.scope, m.input.or input,
    (c.restrict env.policy user).findDefault .any ++
      (c.restrict env.policy user).findAnyNamed .any⟩] }, hj, BatchM.ends_mapError.mpr ?_⟩
  rw [hscript]
  refine BatchM.ends_bind.mpr ⟨_, { b with journal := j }, hfound, ?_⟩
  exact BatchM.ends_bind.mpr ⟨_, _, rfl, rfl⟩

end

/-! ## The update -/

namespace Step

open BatchM

variable {env : Environment} {user : User} {m : Modify} {input : Option Binding}
  {S : List Binding} {b b' : Batch} {u : Unit}
  (hsolve : env.Solves user m input b.tx.content S) (hb : b.Vetted env.policy user)

include hsolve hb

/-- An update that succeeds was allowed, and has attempted the deletions and then the insertions. -/
theorem ends_modifyQuads_solved (h : Ends (modifyQuads env user m input) b u b') :
    m.Allowed env.policy user (· ∈ deletions m.delete S)
        (· ∈ insertions b.journal.nextNode m.insert S) ∧
      b'.ledger = (b.ledger.attemptAll ((deletions m.delete S).map .remove)).attemptAll
        ((insertions b.journal.nextNode m.insert S).map .insert) := by
  have hsame : ∀ b₁ S' b₂, b₁.ledger = b.ledger → Ends (solve env user m input) b₁ S' b₂ →
      S' = S ∧ ∃ j, j.nextNode = b₁.journal.nextNode ∧ b₂ = { b₁ with journal := j } := by
    intro b₁ S' b₂ hl h
    obtain ⟨j, hj, hsolved⟩ := hsolve b₁ (congrArg Ledger.content hl)
    cases hsolved.symm.trans h
    exact ⟨rfl, j, hj, rfl⟩
  obtain ⟨b₁, S', j, ⟨hl, hn, hsolved⟩, hstages⟩ := ends_modifyQuads_stages
    (fun b₁ S' b₂ hl h => (hsame b₁ S' b₂ hl h).2.imp fun _ hj => hj.2) h hb
  obtain ⟨rfl, j', hj', hbatch⟩ := hsame b₁ S' _ hl hsolved
  rw [show j.nextNode = b.journal.nextNode from
    (congrArg (·.journal.nextNode) hbatch).trans (hj'.trans hn)] at hstages
  exact hstages

/-- Where no store call fails, an update that is allowed succeeds. -/
theorem exists_ends_modifyQuads (hfaults : ∀ kind n, env.faults kind n = none)
    (h : m.Allowed env.policy user (· ∈ deletions m.delete S)
      (· ∈ insertions b.journal.nextNode m.insert S)) :
    ∃ b', Ends (modifyQuads env user m input) b () b' := by
  have htotal := handling_total hfaults
  have hconstants (kind : AccessKind) (ts : List QuadPattern)
      (hts : ∀ t ∈ ts, ∀ g, t.graph.constant? = some g → env.policy kind g user = true) :
      ∀ g ∈ ts.filterMap (·.graph.constant?), env.policy kind g user = true := by
    intro g hg
    obtain ⟨t, ht, htg⟩ := List.mem_filterMap.mp hg
    exact hts t ht g htg
  obtain ⟨b₁, h₁⟩ := exists_ends_forM_check (fun _ => .delete) id
    (hconstants .delete m.delete h.delete_constant) b
  obtain ⟨hl₁, hb₁, -⟩ := ends_forM_check (fun _ => .delete) id h₁ hb
  obtain ⟨b₂, h₂⟩ := exists_ends_forM_check (fun _ => .update) id
    (hconstants .update m.insert h.insert_constant) b₁
  obtain ⟨hl₂, -, -⟩ := ends_forM_check (fun _ => .update) id h₂ hb₁
  obtain ⟨j, hj, hsolved⟩ := hsolve b₂ (congrArg Ledger.content (hl₂.trans hl₁))
  obtain ⟨start, b₃, h₃⟩ := total_takeNodes
    (S.length * (templateBlanks m.insert).length) { b₂ with journal := j }
  obtain rfl : b.journal.nextNode = start := by
    cases h₃
    exact ((hj.trans (nextNode_of_ends_forM_check h₂)).trans (nextNode_of_ends_forM_check h₁)).symm
  obtain ⟨b₄, h₄⟩ := exists_ends_forM_check (fun _ => .delete) Quad.graph h.delete b₃
  obtain ⟨b₅, h₅⟩ := exists_ends_forM_check (fun _ => .update) Quad.graph h.insert b₄
  obtain ⟨_, b₆, h₆⟩ := htotal.forM htotal.remove (deletions m.delete S) b₅
  obtain ⟨_, b₇, h₇⟩ :=
    htotal.forM htotal.insert (insertions b.journal.nextNode m.insert S) b₆
  unfold modifyQuads
  refine ⟨b₇, ends_bind.mpr ⟨_, b₁, h₁, ends_bind.mpr ⟨_, b₂, h₂, ?_⟩⟩⟩
  refine ends_bind.mpr ⟨S, _, hsolved, ends_bind.mpr ⟨_, b₃, h₃, ?_⟩⟩
  refine ends_bind.mpr ⟨_, b₄, h₄, ends_bind.mpr ⟨_, b₅, h₅, ?_⟩⟩
  exact ends_bind.mpr ⟨_, b₆, h₆, h₇⟩

end Step

end GraphStore
