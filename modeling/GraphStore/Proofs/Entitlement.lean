/-
# `GraphStore.Proofs.Entitlement` — every write of an operation is one it may make

`a.Entitles may w` says that the operation `a` may make the write `w`, when `may`
is what its user is allowed to do.  It is written down action by action, from what
each keyword of the update language is for, and does not mention how the operation
is carried out: a deletion by DROP needs a graph that the target covers and the
right to drop it, an insertion by COPY needs the right to read the source and to
update the destination, and a write that an action has no business making is not
entitled at all.

`ends_action` is the main statement of this module: an operation that succeeds has
made entitled writes, and no others.  Below it there is one lemma for each action.
The questions of an operation come before its writes, and `Batch.Vetted` carries
their answers to where the writes are made.  The case with an argument of its own
is MOVE, which takes the source's quads out after it has put quads in: they differ
because source and destination do.
-/
import GraphStore.Proofs.Frame

namespace GraphStore

/-- The target includes the graph. -/
def GraphTarget.Covers : GraphTarget → GraphName → Prop
  | .named g, h => h = .named g
  | .defaultGraph, h => h = .default
  | .namedGraphs, h => h ≠ .default
  | .allGraphs, _ => True

/-- What DROP may do: take out the quads of the covered graphs, and forget these graphs. -/
def GraphTarget.EntitlesDrop (may : AccessKind → GraphName → Prop) (target : GraphTarget) :
    Write → Prop
  | .remove q => target.Covers q.graph ∧ may .drop q.graph
  | .unregister g => target.Covers (.named g) ∧ may .drop (.named g)
  | .insert _ | .register _ => False

/-- What CLEAR may do: take out the quads of the covered graphs. -/
def GraphTarget.EntitlesClear (may : AccessKind → GraphName → Prop) (target : GraphTarget) :
    Write → Prop
  | .remove q => target.Covers q.graph ∧ may .clear q.graph
  | .insert _ | .register _ | .unregister _ => False

/-- The rights that a transfer needs before it does anything. -/
structure GraphAction.Admitted (may : AccessKind → GraphName → Prop) (action : GraphAction)
    (source destination : GraphName) : Prop where
  query : may .query source
  update : may .update destination
  clear : action ≠ .add → may .clear destination
  drop : action = .move → may .drop source

/-- What an admitted transfer may do: put quads into the destination and register it; unless it is
ADD, take quads of the destination out; if it is MOVE, take the quads of the source out and forget
the source. -/
def GraphAction.EntitlesTransfer (action : GraphAction) (source destination : GraphName) :
    Write → Prop
  | .insert q => q.graph = destination
  | .register g => .named g = destination
  | .remove q => (action ≠ .add ∧ q.graph = destination) ∨ (action = .move ∧ q.graph = source)
  | .unregister g => action = .move ∧ .named g = source

/-- What an operation on whole graphs may do. -/
def GraphOperation.Entitles (may : AccessKind → GraphName → Prop) (op : GraphOperation)
    (w : Write) : Prop :=
  match op.action with
  | .drop => op.source.EntitlesDrop may w
  | .clear => op.source.EntitlesClear may w
  | .add | .copy | .move => ∃ source destination,
      op.source.single? = some source ∧ op.destination = some destination ∧
        op.action.Admitted may source destination ∧
        op.action.EntitlesTransfer source destination w

/-- What an operation may do, given what its user may. -/
def Action.Entitles (may : AccessKind → GraphName → Prop) : Action → Write → Prop
  | .create g _, .register h => h = g ∧ may .create (.named g)
  | .insertData qs, .insert q => q ∈ qs ∧ may .insertData q.graph
  | .deleteData qs, .remove q => q ∈ qs ∧ may .deleteData q.graph
  | .modify _, .remove q => may .delete q.graph
  | .modify _, .insert q => may .update q.graph
  | .graph op, w => op.Entitles may w
  | _, _ => False

/-- What the policy of the environment allows the user. -/
def Environment.May (env : Environment) (user : User) (kind : AccessKind) (g : GraphName) : Prop :=
  env.policy kind g user = true

/-- The policy allows a pattern-driven update: on the graphs that are written in its templates, and
on those of the quads to be deleted and to be inserted. -/
structure Modify.Allowed (m : Modify) (policy : Policy) (user : User) (D I : Quad → Prop) :
    Prop where
  delete_constant : ∀ t ∈ m.delete, ∀ g, t.graph.constant? = some g → policy .delete g user = true
  insert_constant : ∀ t ∈ m.insert, ∀ g, t.graph.constant? = some g → policy .update g user = true
  delete : ∀ q, D q → policy .delete q.graph user = true
  insert : ∀ q, I q → policy .update q.graph user = true

namespace Step

open BatchM

variable {env : Environment} {user : User} {b b' : Batch} {u : Unit}

theorem may_of_mem_inserted {may : Write → Prop} {q : Quad} (h : b.ledger.Reaches may b'.ledger)
    (hi : b.inserted = []) (hq : q ∈ b'.inserted) : may (.insert q) := by
  rcases h.mem_inserted (q := q) hq with hq | hq
  · rw [show b.ledger.inserted = [] from hi] at hq
    exact absurd hq List.not_mem_nil
  · exact hq

theorem reaches_nil_inserted {may : Write → Prop} (h : b.ledger.Reaches may b'.ledger)
    (hi : b.inserted = []) (hmay : ∀ q, ¬ may (.insert q)) : b'.inserted = [] :=
  List.eq_nil_iff_forall_not_mem.mpr fun q hq => hmay q (may_of_mem_inserted h hi hq)

/-- Where a graph is there that should not be, or the other way round, nothing is done. -/
theorem ends_unlessSilent {silent : Bool} {e : StructuralError}
    (h : Ends (unlessSilent silent e) b u b') : b' = b := by
  unfold unlessSilent at h
  split at h
  · exact (ends_pure.mp h).2
  · exact absurd h not_ends_throw

/-! ## Data and single graphs -/

theorem ends_create {g : Resource} {silent : Bool} (h : Ends (create env user g silent) b u b')
    (hb : b.Vetted env.policy user) :
    b.ledger.Reaches ((Action.create g silent).Entitles (env.May user)) b'.ledger := by
  unfold create at h
  obtain ⟨_, b₁, hcheck, h⟩ := ends_bind.mp h
  obtain ⟨hl₁, -, hmay⟩ := ends_check hcheck hb
  obtain ⟨r, b₂, hcontains, h⟩ := ends_bind.mp h
  obtain ⟨-, j, rfl⟩ := ends_containsGraph hcontains
  rw [← hl₁]
  split at h
  · rw [ends_unlessSilent h]
    exact .refl _ _
  · rw [ends_insertGraph h]
    refine (Ledger.reaches_attempt b₁.ledger ?_).mono fun w hw => ?_
    · exact fun q hq => absurd hq List.not_mem_nil
    · subst hw
      exact ⟨rfl, hmay⟩

theorem ends_insertData {qs : List Quad} (h : Ends (insertData env user qs) b u b')
    (hb : b.Vetted env.policy user) :
    b.ledger.Reaches ((Action.insertData qs).Entitles (env.May user)) b'.ledger := by
  unfold insertData at h
  obtain ⟨_, b₁, hcheck, h⟩ := ends_bind.mp h
  obtain ⟨hl₁, -, hmay⟩ := ends_forM_check (fun _ => .insertData) id hcheck hb
  rw [← hl₁, ends_forM_insert h]
  refine (Ledger.reaches_inserts b₁.ledger qs).mono ?_
  rintro w ⟨q, hq, rfl⟩
  exact ⟨hq, hmay q.graph (List.mem_eraseDups.mpr (List.mem_map_of_mem hq))⟩

theorem ends_deleteData {qs : List Quad} (h : Ends (deleteData env user qs) b u b')
    (hb : b.Vetted env.policy user) (hi : b.inserted = []) :
    b.ledger.Reaches ((Action.deleteData qs).Entitles (env.May user)) b'.ledger := by
  unfold deleteData at h
  obtain ⟨_, b₁, hcheck, h⟩ := ends_bind.mp h
  obtain ⟨hl₁, -, hmay⟩ := ends_forM_check (fun _ => .deleteData) id hcheck hb
  have hi₁ : b₁.ledger.inserted = [] := by rw [hl₁]; exact hi
  rw [← hl₁, ends_forM_remove h]
  refine (Ledger.reaches_removes b₁.ledger fun q _ => by simp [hi₁]).mono ?_
  rintro w ⟨q, hq, rfl⟩
  exact ⟨hq, hmay q.graph (List.mem_eraseDups.mpr (List.mem_map_of_mem hq))⟩

/-! ## Removing whole graphs -/

/-- The quads of a graph are taken out, unless the operation has put some of them in. -/
theorem reaches_clearGraph {g : GraphName} (h : Ends (clearGraph env g) b u b')
    (hfresh : ∀ q ∈ b.inserted, q.graph ≠ g) :
    b.ledger.Reaches (fun w => ∃ q, w = .remove q ∧ q.graph = g) b'.ledger := by
  rw [(ends_clearGraph h).1]
  refine (Ledger.reaches_removes b.ledger ?_).mono ?_
  · intro q hq hins
    exact hfresh q hins (Content.mem_within.mp hq).1
  · rintro w ⟨q, hq, rfl⟩
    exact ⟨q, rfl, (Content.mem_within.mp hq).1⟩

/-- A cleared graph is removed by forgetting it; the default graph is not registered. -/
theorem reaches_removeGraph {g : GraphName} (hempty : b.tx.content.within g = [])
    (h : Ends (removeGraph env g) b u b') :
    b.ledger.Reaches (fun w => ∃ r, w = .unregister r ∧ .named r = g) b'.ledger := by
  cases g with
  | default =>
      obtain ⟨-, rfl⟩ := ends_pure.mp h
      exact .refl _ _
  | named r =>
      rw [ends_removeGraph hempty h]
      refine (Ledger.reaches_attempt b.ledger fun q hq => absurd hq List.not_mem_nil).mono ?_
      rintro w rfl
      exact ⟨r, rfl, rfl⟩

/-- The writes of clearing some graphs and, with DROP, of forgetting them. -/
def OfRemoval (action : GraphAction) (graphs : List GraphName) (w : Write) : Prop :=
  (∃ q, w = .remove q ∧ q.graph ∈ graphs) ∨
    (action = .drop ∧ ∃ g, w = .unregister g ∧ .named g ∈ graphs)

theorem not_ofRemoval_insert {action : GraphAction} {graphs : List GraphName} {q : Quad} :
    ¬ OfRemoval action graphs (.insert q) := by
  rintro (⟨x, h, -⟩ | ⟨-, g, h, -⟩) <;> cases h

theorem reaches_forM_remove {action : GraphAction} {graphs : List GraphName}
    (h : Ends (graphs.forM fun g => do
      clearGraph env g
      if action = .drop then removeGraph env g) b u b')
    (hi : b.inserted = []) : b.ledger.Reaches (OfRemoval action graphs) b'.ledger := by
  induction graphs generalizing b with
  | nil =>
      obtain rfl := ends_forM_nil.mp h
      exact .refl _ _
  | cons g graphs ih =>
      obtain ⟨b₂, hg, hgs⟩ := ends_forM_cons.mp h
      obtain ⟨_, b₁, hclear, hdrop⟩ := ends_bind.mp hg
      have hfirst : b.ledger.Reaches (OfRemoval action (g :: graphs)) b₁.ledger := by
        refine (reaches_clearGraph hclear fun q hq => by simp [hi] at hq).mono ?_
        rintro w ⟨q, rfl, rfl⟩
        exact .inl ⟨q, rfl, List.mem_cons_self⟩
      have hsecond : b₁.ledger.Reaches (OfRemoval action (g :: graphs)) b₂.ledger := by
        split at hdrop
        · rename_i haction
          refine (reaches_removeGraph (ends_clearGraph hclear).2 hdrop).mono ?_
          rintro w ⟨r, rfl, rfl⟩
          exact .inr ⟨haction, r, rfl, List.mem_cons_self⟩
        · obtain ⟨-, rfl⟩ := ends_pure.mp hdrop
          exact .refl _ _
      have hstep := hfirst.trans hsecond
      refine hstep.trans ((ih hgs ?_).mono ?_)
      · exact reaches_nil_inserted hstep hi fun q => not_ofRemoval_insert
      · rintro w (⟨q, rfl, hq⟩ | ⟨haction, r, rfl, hr⟩)
        · exact .inl ⟨q, rfl, List.mem_cons_of_mem _ hq⟩
        · exact .inr ⟨haction, r, rfl, List.mem_cons_of_mem _ hr⟩

theorem reaches_removeAll {action : GraphAction} {graphs : List GraphName}
    (h : Ends (removeAll env user action graphs) b u b') (hb : b.Vetted env.policy user)
    (hi : b.inserted = []) :
    (∀ g ∈ graphs, env.May user (removalKind action) g) ∧
      b.ledger.Reaches (OfRemoval action graphs) b'.ledger := by
  unfold removeAll at h
  obtain ⟨_, b₁, hcheck, h⟩ := ends_bind.mp h
  obtain ⟨hl₁, -, hmay⟩ := ends_forM_check (fun _ => removalKind action) id hcheck hb
  refine ⟨hmay, ?_⟩
  rw [← hl₁]
  exact reaches_forM_remove h (by rw [show b₁.inserted = b₁.ledger.inserted from rfl, hl₁]; exact hi)

/-- Removing graphs that the target covers is what DROP and CLEAR are entitled to. -/
theorem entitles_of_removal {op : GraphOperation} (haction : op.action.isTransfer = false)
    {graphs : List GraphName} (hcovers : ∀ g ∈ graphs, op.source.Covers g)
    (hmay : ∀ g ∈ graphs, env.May user (removalKind op.action) g) {w : Write}
    (hw : OfRemoval op.action graphs w) : op.Entitles (env.May user) w := by
  unfold GraphOperation.Entitles
  cases hop : op.action with
  | drop =>
      rw [hop] at hw hmay
      rcases hw with ⟨q, rfl, hq⟩ | ⟨-, g, rfl, hg⟩
      · exact ⟨hcovers _ hq, hmay _ hq⟩
      · exact ⟨hcovers _ hg, hmay _ hg⟩
  | clear =>
      rw [hop] at hw hmay
      rcases hw with ⟨q, rfl, hq⟩ | ⟨hdrop, -⟩
      · exact ⟨hcovers _ hq, hmay _ hq⟩
      · cases hdrop
  | add | copy | move =>
      rw [hop] at haction
      cases haction

theorem ends_dropOrClear {op : GraphOperation} (haction : op.action.isTransfer = false)
    (h : Ends (dropOrClear env user op) b u b') (hb : b.Vetted env.policy user)
    (hi : b.inserted = []) : b.ledger.Reaches (op.Entitles (env.May user)) b'.ledger := by
  unfold dropOrClear at h
  -- whatever the target is, the graphs to remove are covered by it
  have hremove : ∀ {b : Batch} {graphs : List GraphName}, b.Vetted env.policy user →
      b.inserted = [] → Ends (removeAll env user op.action graphs) b u b' →
      (∀ g ∈ graphs, op.source.Covers g) →
      b.ledger.Reaches (op.Entitles (env.May user)) b'.ledger := by
    intro b graphs hb hi h hcovers
    obtain ⟨hmay, hreach⟩ := reaches_removeAll h hb hi
    exact hreach.mono fun w => entitles_of_removal haction hcovers hmay
  cases hsource : op.source with
  | named g =>
      rw [hsource] at h
      obtain ⟨_, b₁, hcheck, h⟩ := ends_bind.mp h
      obtain ⟨hl₁, hb₁, -⟩ := ends_check hcheck hb
      have hi₁ : b₁.inserted = [] := (congrArg Ledger.inserted hl₁).trans hi
      obtain ⟨r, b₂, hcontains, h⟩ := ends_bind.mp h
      obtain ⟨-, j, rfl⟩ := ends_containsGraph hcontains
      rw [← hl₁]
      split at h
      · refine hremove (b := { b₁ with journal := j }) hb₁ hi₁ h fun g' hg' => ?_
        rw [hsource, List.mem_singleton.mp hg']
        rfl
      · rw [ends_unlessSilent h]
        exact .refl _ _
  | defaultGraph =>
      rw [hsource] at h
      refine hremove hb hi h fun g hg => ?_
      rw [hsource, List.mem_singleton.mp hg]
      rfl
  | namedGraphs =>
      rw [hsource] at h
      obtain ⟨named, b₁, hnamed, h⟩ := ends_bind.mp h
      obtain ⟨-, j, rfl⟩ := ends_namedGraphs hnamed
      refine hremove (b := { b with journal := j }) hb hi h fun g hg => ?_
      obtain ⟨r, -, rfl⟩ := List.mem_map.mp hg
      rw [hsource]
      exact GraphName.noConfusion
  | allGraphs =>
      rw [hsource] at h
      obtain ⟨named, b₁, hnamed, h⟩ := ends_bind.mp h
      obtain ⟨-, j, rfl⟩ := ends_namedGraphs hnamed
      refine hremove (b := { b with journal := j }) hb hi h fun g _ => ?_
      rw [hsource]
      trivial

/-! ## Transfers -/

/-- The writes of bringing quads to a destination: all of them are about the destination. -/
def OfCopy (action : GraphAction) (destination : GraphName) : Write → Prop
  | .insert q => q.graph = destination
  | .register g => .named g = destination
  | .remove q => action ≠ .add ∧ q.graph = destination
  | .unregister _ => False

theorem reaches_forM_insertInto {action : GraphAction} {quads : List Quad}
    {destination : GraphName}
    (h : Ends (quads.forM fun q => insert env (q.triple.inGraph destination)) b u b') :
    b.ledger.Reaches (OfCopy action destination) b'.ledger := by
  induction quads generalizing b with
  | nil =>
      obtain rfl := ends_forM_nil.mp h
      exact .refl _ _
  | cons q quads ih =>
      obtain ⟨b₁, hq, hqs⟩ := ends_forM_cons.mp h
      refine Ledger.Reaches.trans ?_ (ih hqs)
      rw [ends_insert hq]
      refine (Ledger.reaches_attempt b.ledger fun x hx => absurd hx List.not_mem_nil).mono ?_
      rintro w rfl
      rfl

/-- The last stage of copying, after stale quads are gone. -/
def fill (env : Environment) (quads : List Quad) (destination : GraphName) : Step Unit := do
  if quads.isEmpty then
    match destination with
    | .named g => insertGraph env g
    | .default => pure ()
  quads.forM fun q => insert env (q.triple.inGraph destination)

theorem reaches_fill {action : GraphAction} {quads : List Quad} {destination : GraphName}
    (h : Ends (fill env quads destination) b u b') :
    b.ledger.Reaches (OfCopy action destination) b'.ledger := by
  unfold fill at h
  cases hempty : quads.isEmpty with
  | false =>
      rw [hempty] at h
      exact reaches_forM_insertInto h
  | true =>
      rw [hempty] at h
      cases destination with
      | default => exact reaches_forM_insertInto h
      | named g =>
          obtain ⟨_, b₁, hregister, h⟩ := ends_bind.mp h
          refine Ledger.Reaches.trans ?_ (reaches_forM_insertInto h)
          rw [ends_insertGraph hregister]
          refine (Ledger.reaches_attempt b.ledger fun q hq => absurd hq List.not_mem_nil).mono ?_
          rintro w rfl
          rfl

theorem reaches_copyQuads {action : GraphAction} {source destination : GraphName}
    (h : Ends (copyQuads env action source destination) b u b') (hi : b.inserted = []) :
    b.ledger.Reaches (OfCopy action destination) b'.ledger := by
  unfold copyQuads at h
  obtain ⟨quads, b₁, hquads, h⟩ := ends_bind.mp h
  obtain ⟨-, j, rfl⟩ := ends_quadsOf hquads
  dsimp only at h
  split at h
  · rename_i hadd
    obtain ⟨old, b₂, hold, h⟩ := ends_bind.mp h
    obtain ⟨rfl, j', rfl⟩ := ends_quadsOf hold
    obtain ⟨_, b₃, hstale, h⟩ := ends_bind.mp h
    have hstale' : b.ledger.Reaches (OfCopy action destination) b₃.ledger := by
      rw [ends_forM_remove hstale]
      refine (Ledger.reaches_removes b.ledger fun q _ => ?_).mono ?_
      · simp [show b.ledger.inserted = [] from hi]
      · rintro w ⟨q, hq, rfl⟩
        exact ⟨hadd, (Content.mem_within.mp (List.mem_filter.mp hq).1).1⟩
    exact hstale'.trans (reaches_fill h)
  · exact reaches_fill (b := { b with journal := j }) h

theorem ends_absent? {g : GraphName} {r : Option Resource}
    (h : Ends (absent? env g) b r b') :
    (r = none ↔ b.tx.content.Has g) ∧ ∃ j, b' = { b with journal := j } := by
  cases g with
  | default =>
      obtain ⟨rfl, rfl⟩ := ends_pure.mp h
      exact ⟨iff_of_true rfl trivial, b'.journal, rfl⟩
  | named g =>
      obtain ⟨found, b₁, hfound, h⟩ := ends_bind.mp h
      obtain ⟨rfl, j, rfl⟩ := ends_containsGraph hfound
      obtain ⟨rfl, rfl⟩ := ends_pure.mp h
      refine ⟨?_, j, rfl⟩
      show (if b.tx.content.containsGraph g then none else some g) = none ↔
        b.tx.content.containsGraph g = true
      split <;> simp [*]

/-- The questions of a transfer are those about the rights it needs. -/
theorem admitted_iff_checks {action : GraphAction} {source destination : GraphName} :
    action.Admitted (env.May user) source destination ↔
      ∀ c ∈ transferChecks action source destination, env.May user c.1 c.2 := by
  unfold transferChecks
  constructor
  · rintro ⟨hquery, hupdate, hclear, hdrop⟩ c hc
    simp only [List.mem_append, List.mem_singleton, List.mem_ite_nil_left, List.mem_ite_nil_right]
      at hc
    rcases hc with ((rfl | ⟨hadd, rfl⟩) | rfl) | ⟨hmove, rfl⟩
    · exact hquery
    · exact hclear hadd
    · exact hupdate
    · exact hdrop hmove
  · intro h
    constructor
    · exact h (.query, source) (by simp)
    · exact h (.update, destination) (by simp)
    · intro hadd
      exact h (.clear, destination) (by simp [hadd])
    · intro hmove
      exact h (.drop, source) (by simp [hmove])

/-- The end of MOVE.  What has been put in is in the destination, so the source holds none of it. -/
theorem reaches_removeSource {source destination : GraphName} (hne : source ≠ destination)
    (h : Ends (do clearGraph env source; removeGraph env source) b u b')
    (hinserted : ∀ q ∈ b.inserted, q.graph = destination) :
    b.ledger.Reaches (GraphAction.move.EntitlesTransfer source destination) b'.ledger := by
  obtain ⟨_, b₁, hclear, hremove⟩ := ends_bind.mp h
  have hfresh : ∀ q ∈ b.inserted, q.graph ≠ source := by
    intro q hq hsource
    exact hne (hsource.symm.trans (hinserted q hq))
  refine ((reaches_clearGraph hclear hfresh).mono ?_).trans
    ((reaches_removeGraph (ends_clearGraph hclear).2 hremove).mono ?_)
  · rintro w ⟨q, rfl, hq⟩
    exact .inr ⟨rfl, hq⟩
  · rintro w ⟨r, rfl, hr⟩
    exact ⟨rfl, hr⟩

theorem ends_transfer {action : GraphAction} {source destination : GraphName} {silent : Bool}
    (h : Ends (transfer env user action source destination silent) b u b')
    (hb : b.Vetted env.policy user) (hi : b.inserted = []) :
    action.Admitted (env.May user) source destination ∧
      b.ledger.Reaches (action.EntitlesTransfer source destination) b'.ledger := by
  unfold transfer at h
  obtain ⟨_, b₁, hchecks, h⟩ := ends_bind.mp h
  obtain ⟨hl₁, -, hmay⟩ := ends_forM_check Prod.fst Prod.snd hchecks hb
  refine ⟨admitted_iff_checks.mpr hmay, ?_⟩
  have hi₁ : b₁.inserted = [] := (congrArg Ledger.inserted hl₁).trans hi
  rw [← hl₁]
  split at h
  · obtain ⟨-, rfl⟩ := ends_pure.mp h
    exact .refl _ _
  · rename_i hne
    obtain ⟨missing, b₂, habsent, h⟩ := ends_bind.mp h
    obtain ⟨-, j, rfl⟩ := ends_absent? habsent
    split at h
    · rw [ends_unlessSilent h]
      exact .refl _ _
    · obtain ⟨_, b₃, hcopy, h⟩ := ends_bind.mp h
      have hcopied := reaches_copyQuads hcopy hi₁
      have hfirst : b₁.ledger.Reaches (action.EntitlesTransfer source destination) b₃.ledger := by
        refine hcopied.mono fun w hw => ?_
        cases w with
        | insert q => exact hw
        | register g => exact hw
        | remove q => exact .inl hw
        | unregister g => exact hw.elim
      refine hfirst.trans ?_
      split at h
      · rename_i hmove
        rw [hmove]
        exact reaches_removeSource hne h fun q hq => may_of_mem_inserted hcopied hi₁ hq
      · obtain ⟨-, rfl⟩ := ends_pure.mp h
        exact .refl _ _

/-- A well-formed operation is a transfer between two graphs, or it has no destination. -/
theorem wellFormed_cases {op : GraphOperation} (h : op.malformed? = none) :
    (op.action.isTransfer = false ∧ op.destination = none) ∨
      (op.action.isTransfer = true ∧ ∃ source destination,
        op.source.single? = some source ∧ op.destination = some destination) := by
  unfold GraphOperation.malformed? at h
  cases haction : op.action.isTransfer with
  | false =>
      cases hd : op.destination with
      | none => exact .inl ⟨rfl, rfl⟩
      | some d => simp [haction, hd] at h
  | true =>
      cases hd : op.destination with
      | none => simp [haction, hd] at h
      | some destination =>
          cases hs : op.source.single? with
          | none => simp [haction, hd, hs] at h
          | some source => exact .inr ⟨rfl, source, destination, rfl, rfl⟩

/-- An operation that fits its action is a transfer if it has a destination. -/
theorem graphOperation_of_transfer {op : GraphOperation} (haction : op.action.isTransfer = true)
    {source destination : GraphName} (hsource : op.source.single? = some source)
    (hdestination : op.destination = some destination) :
    graphOperation env user op =
      transfer env user op.action source destination op.silent := by
  have hformed : op.malformed? = none := by
    simp [GraphOperation.malformed?, haction, hsource, hdestination]
  unfold graphOperation
  rw [hformed, hsource, hdestination]

/-- It removes graphs if it has none. -/
theorem graphOperation_of_removal {op : GraphOperation} (haction : op.action.isTransfer = false)
    (hdestination : op.destination = none) :
    graphOperation env user op = dropOrClear env user op := by
  have hformed : op.malformed? = none := by
    simp [GraphOperation.malformed?, haction, hdestination]
  unfold graphOperation
  rw [hformed, hdestination]
  cases op.source.single? <;> rfl

theorem ends_graphOperation {op : GraphOperation} (h : Ends (graphOperation env user op) b u b')
    (hb : b.Vetted env.policy user) (hi : b.inserted = []) :
    b.ledger.Reaches (op.Entitles (env.May user)) b'.ledger := by
  cases hmal : op.malformed? with
  | some e =>
      unfold graphOperation at h
      rw [hmal] at h
      exact absurd h not_ends_throw
  | none =>
      rcases wellFormed_cases hmal with ⟨haction, hd⟩ | ⟨haction, source, destination, hs, hd⟩
      · rw [graphOperation_of_removal haction hd] at h
        exact ends_dropOrClear haction h hb hi
      · rw [graphOperation_of_transfer haction hs hd] at h
        obtain ⟨hadmitted, hreach⟩ := ends_transfer h hb hi
        refine hreach.mono fun w hw => ?_
        unfold GraphOperation.Entitles
        cases hop : op.action with
        | drop | clear =>
            rw [hop] at haction
            cases haction
        | add | copy | move =>
            rw [hop] at hadmitted hw
            exact ⟨source, destination, hs, hd, hadmitted, hw⟩

/-! ## Pattern-driven updates -/

theorem ends_solve (hlooks : env.evaluator.Looks) {m : Modify} {input : Option Binding}
    {solutions : List Binding} (h : Ends (solve env user m input) b solutions b') :
    ∃ j, b' = { b with journal := j } :=
  (hlooks _ ((Reader.looks_reader _ _).restrict _ _) _ _ _).ends (ends_mapError.mp h)

/-- Taking numbers for new blank nodes touches the journal only. -/
theorem ends_takeNodes {count start : Nat} (h : Ends (takeNodes count) b start b') :
    ∃ j, b' = { b with journal := j } := by
  unfold takeNodes at h
  rw [ends_get_bind] at h
  obtain ⟨_, b₁, hset, hpure⟩ := ends_bind.mp h
  obtain rfl := ends_set.mp hset
  obtain ⟨-, rfl⟩ := ends_pure.mp hpure
  exact ⟨_, rfl⟩

section

variable {m : Modify} {input : Option Binding}

/-- How an update that has succeeded went, if to find its solutions is only to look: what it has
attempted was allowed. -/
theorem ends_modifyQuads_stages
    (hlook : ∀ b₁ S b₂, b₁.ledger = b.ledger → Ends (solve env user m input) b₁ S b₂ →
      ∃ j, b₂ = { b₁ with journal := j })
    (h : Ends (modifyQuads env user m input) b u b') (hb : b.Vetted env.policy user) :
    ∃ b₁ S j, (b₁.ledger = b.ledger ∧ b₁.journal.nextNode = b.journal.nextNode ∧
        Ends (solve env user m input) b₁ S { b₁ with journal := j }) ∧
      m.Allowed env.policy user (· ∈ deletions m.delete S)
        (· ∈ insertions j.nextNode m.insert S) ∧
      b'.ledger = (b.ledger.attemptAll ((deletions m.delete S).map .remove)).attemptAll
        ((insertions j.nextNode m.insert S).map .insert) := by
  unfold modifyQuads at h
  obtain ⟨_, b₁, h₁, h⟩ := ends_bind.mp h
  obtain ⟨hl₁, hb₁, hdeletes⟩ := ends_forM_check (fun _ => .delete) id h₁ hb
  obtain ⟨_, b₂, h₂, h⟩ := ends_bind.mp h
  obtain ⟨hl₂, hb₂, hinserts⟩ := ends_forM_check (fun _ => .update) id h₂ hb₁
  have hn₁ := nextNode_of_ends_forM_check h₁
  have hn₂ := nextNode_of_ends_forM_check h₂
  obtain ⟨S, b₃, hsolve, h⟩ := ends_bind.mp h
  obtain ⟨j, rfl⟩ := hlook b₂ S b₃ (hl₂.trans hl₁) hsolve
  obtain ⟨start, b₄, htake, h⟩ := ends_bind.mp h
  obtain rfl : j.nextNode = start := by
    cases htake
    rfl
  obtain ⟨j', rfl⟩ := ends_takeNodes htake
  dsimp only at h
  obtain ⟨_, b₅, h₅, h⟩ := ends_bind.mp h
  obtain ⟨hl₅, hb₅, hdelete⟩ := ends_forM_check (fun _ => .delete) Quad.graph h₅ hb₂
  obtain ⟨_, b₆, h₆, h⟩ := ends_bind.mp h
  obtain ⟨hl₆, -, hinsert⟩ := ends_forM_check (fun _ => .update) Quad.graph h₆ hb₅
  obtain ⟨_, b₇, hremoves, hadds⟩ := ends_bind.mp h
  have hl : b₆.ledger = b.ledger := by
    rw [hl₆, hl₅, ← hl₁, ← hl₂]
    rfl
  refine ⟨b₂, S, j, ⟨hl₂.trans hl₁, hn₂.trans hn₁, hsolve⟩, ?_, ?_⟩
  · refine ⟨fun t ht g hg => ?_, fun t ht g hg => ?_, hdelete, hinsert⟩
    · exact hdeletes g (List.mem_filterMap.mpr ⟨t, ht, hg⟩)
    · exact hinserts g (List.mem_filterMap.mpr ⟨t, ht, hg⟩)
  · rw [ends_forM_insert hadds, ends_forM_remove hremoves, hl]

theorem ends_modifyQuads (hlooks : env.evaluator.Looks)
    (h : Ends (modifyQuads env user m input) b u b') (hb : b.Vetted env.policy user)
    (hi : b.inserted = []) :
    b.ledger.Reaches ((Action.modify m).Entitles (env.May user)) b'.ledger := by
  obtain ⟨b₁, S, j, -, hallowed, hledger⟩ :=
    ends_modifyQuads_stages (fun _ _ _ _ => ends_solve hlooks) h hb
  rw [hledger]
  refine ((Ledger.reaches_removes b.ledger fun q _ => ?_).mono ?_).trans
    ((Ledger.reaches_inserts _ _).mono ?_)
  · simp [show b.ledger.inserted = [] from hi]
  · rintro w ⟨q, hq, rfl⟩
    exact hallowed.delete q hq
  · rintro w ⟨q, hq, rfl⟩
    exact hallowed.insert q hq

end

/-! ## Every action -/

/-- An action that succeeds has made writes that it is entitled to, and no others. -/
theorem ends_action (hlooks : env.evaluator.Looks) {input : Option Binding} {a : Action}
    (h : Ends (action env user input a) b u b') (hb : b.Vetted env.policy user)
    (hi : b.inserted = []) :
    b.ledger.Reaches (a.Entitles (env.May user)) b'.ledger := by
  cases a with
  | create g silent => exact ends_create h hb
  | graph op => exact ends_graphOperation h hb hi
  | insertData qs => exact ends_insertData h hb
  | deleteData qs => exact ends_deleteData h hb hi
  | modify m => exact ends_modifyQuads hlooks h hb hi

end Step

end GraphStore
