/-
# `GraphStore.Proofs.Attempts` — the writes that an operation attempts

An operation without a pattern attempts a list of writes that it determines together with
the content it finds (`Action.writes`).

    INSERT DATA      insert each quad
    DELETE DATA      remove each quad
    CREATE r         register r
    CLEAR t          graph by graph of t:  remove each quad
    DROP t           graph by graph of t:  remove each quad, unregister the graph
    ADD s d          register d if s is empty, insert each copy
    COPY s d         remove what is stale in d, then as ADD
    MOVE s d         as COPY, then as DROP s

While it runs it looks again: for the quads of the next graph, and for those of the source when
they have been copied.  What it finds is what stood there at the start, because the writes
so far were about other graphs (`Ledger.sameAt_attemptAll`).  So the ledger that an
operation leaves is the one before it with the list attempted (`ends_action_attempts`), and
what is to be said of its effect is said of the list.
-/
import GraphStore.Proofs.Entitlement

namespace GraphStore

/-! ## The writes of an operation -/

/-- The write that forgets that a graph was created; the default graph never was. -/
def Write.forget : GraphName → List Write
  | .default => []
  | .named r => [.unregister r]

/-- The write that leaves an existing graph behind where no quads are copied to. -/
def Write.placeholder (quads : List Quad) : GraphName → List Write
  | .default => []
  | .named r => if quads.isEmpty then [.register r] else []

theorem Write.mem_forget {g : GraphName} {w : Write} :
    w ∈ Write.forget g ↔ ∃ r, g = .named r ∧ w = .unregister r := by
  cases g <;> simp [forget]

theorem Write.mem_placeholder {quads : List Quad} {g : GraphName} {w : Write} :
    w ∈ Write.placeholder quads g ↔ quads = [] ∧ ∃ r, g = .named r ∧ w = .register r := by
  cases g <;> cases quads <;> simp [placeholder]

namespace Content

variable (c : Content)

/-- The quads of one graph as quads of another one. -/
def copies (source destination : GraphName) : List Quad :=
  (c.within source).map fun q => q.triple.inGraph destination

/-- The quads of the destination that have no counterpart in the source; ADD keeps them. -/
def stale (action : GraphAction) (source destination : GraphName) : List Quad :=
  if action = .add then []
  else (c.within destination).filter fun q => !(c.within source).any (·.triple == q.triple)

/-- The writes that empty a graph and, with DROP, remove it. -/
def removal (action : GraphAction) (g : GraphName) : List Write :=
  (c.within g).map .remove ++ if action = .drop then Write.forget g else []

/-- The writes that bring the quads of the source to the destination. -/
def bringing (action : GraphAction) (source destination : GraphName) : List Write :=
  (c.stale action source destination).map .remove ++
    (Write.placeholder (c.within source) destination ++
      (c.copies source destination).map .insert)

/-- The writes of a transfer from a graph that exists to another one. -/
def transferring (action : GraphAction) (source destination : GraphName) : List Write :=
  c.bringing action source destination ++ if action = .move then c.removal .drop source else []

/-- The graphs that a target covers and that exist, in the order in which they are removed. -/
def targets : GraphTarget → List GraphName
  | .named r => if c.containsGraph r then [.named r] else []
  | .defaultGraph => [.default]
  | .namedGraphs => c.namedGraphs.map .named
  | .allGraphs => .default :: c.namedGraphs.map .named

variable {c : Content} {source destination g : GraphName}

theorem targets_named (c : Content) (r : Resource) :
    c.targets (.named r) = if c.containsGraph r then [.named r] else [] := rfl

/-- A target that is one graph covers it, if it exists. -/
theorem targets_of_single {target : GraphTarget} (h : target.single? = some g) :
    c.targets target = if c.Has g then [g] else [] := by
  cases target with
  | named r =>
      obtain rfl := Option.some.inj h
      exact targets_named c r
  | defaultGraph =>
      obtain rfl := Option.some.inj h
      exact (if_pos trivial).symm
  | namedGraphs | allGraphs => cases h

theorem mem_copies {q : Quad} : q ∈ c.copies source destination ↔
    q.graph = destination ∧ c.lists.Holds (q.triple.inGraph source) := by
  rw [copies, List.mem_map]
  constructor
  · rintro ⟨x, hx, rfl⟩
    obtain ⟨hg, hheld⟩ := mem_within.mp hx
    refine ⟨rfl, ?_⟩
    rw [Triple.triple_inGraph, ← hg]
    exact hheld
  · rintro ⟨hg, hheld⟩
    refine ⟨q.triple.inGraph source, mem_within.mpr ⟨rfl, hheld⟩, ?_⟩
    rw [Triple.triple_inGraph, ← hg]
    rfl

theorem nodup_within (hc : c.Valid) (g : GraphName) : (c.within g).Nodup := by
  cases g with
  | default =>
      rw [within_default]
      exact hc.nodup_triples.map fun _ _ => Triple.inGraph_injective
  | named r =>
      rw [within_named]
      exact hc.nodup_quads.filter _

theorem nodup_copies (hc : c.Valid) (source destination : GraphName) :
    (c.copies source destination).Nodup := by
  refine (nodup_within hc source).map_on fun q hq x hx h => ?_
  have hgraph : q.graph = x.graph := (mem_within.mp hq).1.trans (mem_within.mp hx).1.symm
  exact QuadLists.eq_of_triple_eq (Triple.inGraph_injective h) hgraph

theorem mem_stale {action : GraphAction} {q : Quad} : q ∈ c.stale action source destination ↔
    action ≠ .add ∧ (q.graph = destination ∧ c.lists.Holds q) ∧
      ¬ c.lists.Holds (q.triple.inGraph source) := by
  unfold stale
  split
  · rename_i hadd
    exact iff_of_false List.not_mem_nil fun h => h.1 hadd
  · rename_i hadd
    rw [List.mem_filter, mem_within, Bool.not_eq_true', Bool.eq_false_iff, ne_eq, List.any_eq_true,
      and_iff_right hadd]
    refine and_congr Iff.rfl (not_congr ?_)
    constructor
    · rintro ⟨x, hx, htriple⟩
      obtain ⟨hg, hheld⟩ := mem_within.mp hx
      rw [← beq_iff_eq.mp htriple, ← hg]
      exact hheld
    · intro hheld
      exact ⟨q.triple.inGraph source, mem_within.mpr ⟨rfl, hheld⟩, beq_self_eq_true _⟩

theorem nodup_stale (hc : c.Valid) (action : GraphAction) (source destination : GraphName) :
    (c.stale action source destination).Nodup := by
  unfold stale
  split
  · exact List.nodup_nil
  · exact (nodup_within hc destination).filter _

theorem mem_targets {target : GraphTarget} :
    g ∈ c.targets target ↔ target.Covers g ∧ c.Has g := by
  have hnamed : g ∈ c.namedGraphs.map GraphName.named ↔ g ≠ .default ∧ c.Has g := by
    cases g with
    | default => simp
    | named r => simp [Has, containsGraph_iff_mem]
  cases target with
  | named r =>
      show _ ↔ g = .named r ∧ c.Has g
      rw [targets_named]
      split
      · rename_i hr
        rw [List.mem_singleton]
        exact ⟨fun hg => ⟨hg, hg ▸ hr⟩, And.left⟩
      · rename_i hr
        refine iff_of_false List.not_mem_nil ?_
        rintro ⟨rfl, hg⟩
        exact hr hg
  | defaultGraph =>
      show g ∈ [GraphName.default] ↔ g = .default ∧ c.Has g
      rw [List.mem_singleton]
      exact ⟨fun hg => ⟨hg, hg ▸ trivial⟩, And.left⟩
  | namedGraphs => exact hnamed
  | allGraphs =>
      show g ∈ GraphName.default :: _ ↔ True ∧ c.Has g
      rw [List.mem_cons, hnamed, true_and]
      by_cases hg : g = .default
      · subst hg
        exact iff_of_true (.inl rfl) trivial
      · simp [hg]

theorem nodup_targets (hc : c.Valid) (target : GraphTarget) : (c.targets target).Nodup := by
  have hnamed : (c.namedGraphs.map GraphName.named).Nodup :=
    (nodup_addMissing hc.nodup_graphs _).map fun _ _ => GraphName.named.inj
  cases target with
  | named r =>
      rw [targets_named]
      split
      · exact List.nodup_singleton _
      · exact List.nodup_nil
  | defaultGraph => exact List.nodup_singleton _
  | namedGraphs => exact hnamed
  | allGraphs => exact List.nodup_cons.mpr ⟨by simp, hnamed⟩

/-- Every write of a removal is about the graph. -/
theorem about_of_mem_removal {action : GraphAction} {w : Write} (hw : w ∈ c.removal action g) :
    w.about = g := by
  rcases List.mem_append.mp hw with hw | hw
  · obtain ⟨q, hq, rfl⟩ := List.mem_map.mp hw
    exact (mem_within.mp hq).1
  · split at hw
    · obtain ⟨r, rfl, rfl⟩ := Write.mem_forget.mp hw
      rfl
    · exact absurd hw List.not_mem_nil

/-- Every write that brings quads is about the destination. -/
theorem about_of_mem_bringing {action : GraphAction} {w : Write}
    (hw : w ∈ c.bringing action source destination) : w.about = destination := by
  rcases List.mem_append.mp hw with hw | hw
  · obtain ⟨q, hq, rfl⟩ := List.mem_map.mp hw
    exact (mem_stale.mp hq).2.1.1
  · rcases List.mem_append.mp hw with hw | hw
    · obtain ⟨-, r, rfl, rfl⟩ := Write.mem_placeholder.mp hw
      rfl
    · obtain ⟨q, hq, rfl⟩ := List.mem_map.mp hw
      exact (mem_copies.mp hq).1

/-- The writes of a removal depend on the quads of the graph only. -/
theorem SameAt.removal_eq {c' : Content} (h : c.SameAt g c') (action : GraphAction) :
    c'.removal action g = c.removal action g := by
  rw [removal, removal, h.within_eq]

end Content

/-- The writes of an operation on graphs that finds the content `c`. -/
def GraphOperation.writes (c : Content) (op : GraphOperation) : List Write :=
  match op.source.single?, op.destination with
  | some source, some destination =>
    if source ≠ destination ∧ c.Has source then c.transferring op.action source destination else []
  | _, _ => (c.targets op.source).flatMap (c.removal op.action)

theorem GraphOperation.writes_of_transfer {c : Content} {op : GraphOperation}
    {source destination : GraphName} (hsource : op.source.single? = some source)
    (hdestination : op.destination = some destination) : op.writes c =
      if source ≠ destination ∧ c.Has source then c.transferring op.action source destination
      else [] := by
  unfold writes
  rw [hsource, hdestination]

theorem GraphOperation.writes_of_removal {c : Content} {op : GraphOperation}
    (hdestination : op.destination = none) :
    op.writes c = (c.targets op.source).flatMap (c.removal op.action) := by
  unfold writes
  rw [hdestination]
  cases op.source.single? <;> rfl

/-- The writes of an action that finds the content `c`.  Those of an update with a pattern depend on
more than the content. -/
def Action.writes (c : Content) : Action → List Write
  | .create r _ => [.register r]
  | .graph op => op.writes c
  | .insertData qs => qs.map .insert
  | .deleteData qs => qs.map .remove
  | .modify _ => []

/-- The action has no pattern to be evaluated. -/
def Action.Patternless : Action → Prop
  | .modify _ => False
  | _ => True

theorem Ledger.attemptAll_append (l : Ledger) (ws ws' : List Write) :
    l.attemptAll (ws ++ ws') = (l.attemptAll ws).attemptAll ws' := List.foldl_append

/-- A write without effect is not made. -/
theorem Ledger.attempt_of_not_effective {l : Ledger} {w : Write} (h : ¬ w.Effective l.content) :
    l.attempt w = l := if_neg h

/-! ## Steps -/

namespace Step

open BatchM

variable {env : Environment} {user : User} {b b' : Batch} {u : Unit}

theorem ends_removeGraph_attempts {g : GraphName} (hempty : b.tx.content.within g = [])
    (h : Ends (removeGraph env g) b u b') : b'.ledger = b.ledger.attemptAll (Write.forget g) := by
  cases g with
  | default =>
      obtain ⟨-, rfl⟩ := ends_pure.mp h
      rfl
  | named r => exact ends_removeGraph hempty h

/-- Emptying a graph and, with DROP, removing it. -/
theorem ends_removeOne_attempts (action : GraphAction) {g : GraphName}
    (h : Ends (do clearGraph env g; if action = .drop then removeGraph env g) b u b') :
    b'.ledger = b.ledger.attemptAll (b.tx.content.removal action g) := by
  obtain ⟨_, b₁, hclear, h⟩ := ends_bind.mp h
  obtain ⟨hl₁, hempty⟩ := ends_clearGraph hclear
  rw [Content.removal, Ledger.attemptAll_append, ← hl₁]
  split at h
  · rename_i hdrop
    rw [if_pos hdrop]
    exact ends_removeGraph_attempts hempty h
  · rename_i hdrop
    obtain ⟨-, rfl⟩ := ends_pure.mp h
    rw [if_neg hdrop]
    rfl

/-- To remove a graph leaves the others as they were, so each of them is found as it was at the
start. -/
theorem ends_removeEach_attempts {action : GraphAction} {graphs : List GraphName}
    (hgraphs : graphs.Nodup)
    (h : Ends (graphs.forM fun g => do
      clearGraph env g
      if action = .drop then removeGraph env g) b u b') :
    b'.ledger = b.ledger.attemptAll (graphs.flatMap (b.tx.content.removal action)) := by
  induction graphs generalizing b with
  | nil =>
      obtain rfl := ends_forM_nil.mp h
      rfl
  | cons g graphs ih =>
      obtain ⟨hg, hgraphs⟩ := List.nodup_cons.mp hgraphs
      obtain ⟨b₁, hfirst, hrest⟩ := ends_forM_cons.mp h
      have hl₁ := ends_removeOne_attempts action hfirst
      have hsame : ∀ g' ∈ graphs, b.tx.content.SameAt g' b₁.tx.content := by
        intro g' hg'
        rw [show b₁.tx.content = b₁.ledger.content from rfl, hl₁]
        refine Ledger.sameAt_attemptAll (l := b.ledger) fun w hw => ?_
        rw [Content.about_of_mem_removal hw]
        rintro rfl
        exact hg hg'
      rw [ih hgraphs hrest, hl₁, List.flatMap_cons, Ledger.attemptAll_append]
      refine congrArg _ (List.flatMap_congr fun g' hg' => ?_)
      exact (hsame g' hg').removal_eq action

theorem ends_removeAll_attempts {action : GraphAction} {graphs : List GraphName}
    (hgraphs : graphs.Nodup) (h : Ends (removeAll env user action graphs) b u b') :
    b'.ledger = b.ledger.attemptAll (graphs.flatMap (b.tx.content.removal action)) := by
  obtain ⟨_, b₁, hchecks, h⟩ := ends_bind.mp h
  have hl₁ := ledger_of_ends_forM_check (fun _ => removalKind action) id hchecks
  rw [← show b₁.tx.content = b.tx.content from congrArg Ledger.content hl₁, ← hl₁]
  exact ends_removeEach_attempts hgraphs h

theorem ends_dropOrClear_attempts {op : GraphOperation} (hb : b.tx.content.Valid)
    (h : Ends (dropOrClear env user op) b u b') : b'.ledger =
      b.ledger.attemptAll ((b.tx.content.targets op.source).flatMap
        (b.tx.content.removal op.action)) := by
  have hnodup := Content.nodup_targets hb op.source
  unfold dropOrClear at h
  cases hsource : op.source with
  | named r =>
      rw [hsource] at h hnodup
      obtain ⟨_, b₁, hcheck, h⟩ := ends_bind.mp h
      have hl₁ := ledger_of_ends_check hcheck
      obtain ⟨found, b₂, hfound, h⟩ := ends_bind.mp h
      obtain ⟨rfl, j, rfl⟩ := ends_containsGraph hfound
      rw [← show b₁.tx.content = b.tx.content from congrArg Ledger.content hl₁] at hnodup ⊢
      rw [Content.targets_named] at hnodup ⊢
      rw [← hl₁]
      split at h
      · rename_i hr
        rw [if_pos hr] at hnodup ⊢
        exact ends_removeAll_attempts (b := { b₁ with journal := j }) hnodup h
      · rename_i hr
        rw [if_neg hr, ends_unlessSilent h]
        rfl
  | defaultGraph =>
      rw [hsource] at h hnodup
      exact ends_removeAll_attempts hnodup h
  | namedGraphs =>
      rw [hsource] at h hnodup
      obtain ⟨named, b₁, hnamed, h⟩ := ends_bind.mp h
      obtain ⟨rfl, j, rfl⟩ := ends_namedGraphs hnamed
      exact ends_removeAll_attempts (b := { b with journal := j }) hnodup h
  | allGraphs =>
      rw [hsource] at h hnodup
      obtain ⟨named, b₁, hnamed, h⟩ := ends_bind.mp h
      obtain ⟨rfl, j, rfl⟩ := ends_namedGraphs hnamed
      exact ends_removeAll_attempts (b := { b with journal := j }) hnodup h

theorem ends_fill_attempts {quads : List Quad} {destination : GraphName}
    (h : Ends (fill env quads destination) b u b') :
    b'.ledger = b.ledger.attemptAll (Write.placeholder quads destination ++
      (quads.map fun q => q.triple.inGraph destination).map .insert) := by
  have hinserts : ∀ {b : Batch},
      Ends (quads.forM fun q => insert env (q.triple.inGraph destination)) b u b' →
      b'.ledger = b.ledger.attemptAll
        ((quads.map fun q => q.triple.inGraph destination).map .insert) := by
    intro b h
    rw [List.map_map]
    exact ends_forM_attempt (fun _ _ _ _ => ends_insert) h
  unfold fill at h
  cases quads with
  | cons q quads => cases destination <;> exact hinserts h
  | nil =>
      cases destination with
      | default => exact hinserts h
      | named r =>
          obtain ⟨_, b₁, hregister, h⟩ := ends_bind.mp h
          rw [hinserts h, ends_insertGraph hregister]
          rfl

theorem ends_copyQuads_attempts {action : GraphAction} {source destination : GraphName}
    (h : Ends (copyQuads env action source destination) b u b') :
    b'.ledger = b.ledger.attemptAll (b.tx.content.bringing action source destination) := by
  obtain ⟨quads, b₁, hquads, h⟩ := ends_bind.mp h
  obtain ⟨rfl, j, rfl⟩ := ends_quadsOf hquads
  unfold Content.bringing Content.stale
  by_cases hadd : action = .add
  · rw [if_neg (not_not_intro hadd)] at h
    rw [if_pos hadd]
    exact ends_fill_attempts (b := { b with journal := j }) h
  · rw [if_pos hadd] at h
    rw [if_neg hadd]
    obtain ⟨old, b₂, hold, h⟩ := ends_bind.mp h
    obtain ⟨rfl, j', rfl⟩ := ends_quadsOf hold
    obtain ⟨_, b₃, hstale, h⟩ := ends_bind.mp h
    have hl₃ := ends_forM_remove hstale
    rw [Ledger.attemptAll_append]
    exact (ends_fill_attempts h).trans (congrArg (Ledger.attemptAll · _) hl₃)

theorem ends_transfer_attempts {action : GraphAction} {source destination : GraphName}
    {silent : Bool} (h : Ends (transfer env user action source destination silent) b u b') :
    b'.ledger = b.ledger.attemptAll (if source ≠ destination ∧ b.tx.content.Has source then
      b.tx.content.transferring action source destination else []) := by
  obtain ⟨_, b₁, hchecks, h⟩ := ends_bind.mp h
  have hl₁ := ledger_of_ends_forM_check Prod.fst Prod.snd hchecks
  rw [← show b₁.tx.content = b.tx.content from congrArg Ledger.content hl₁, ← hl₁]
  by_cases hne : source = destination
  · rw [if_pos hne] at h
    obtain ⟨-, rfl⟩ := ends_pure.mp h
    rw [if_neg fun hand => hand.1 hne]
    rfl
  · rw [if_neg hne] at h
    obtain ⟨missing, b₂, habsent, h⟩ := ends_bind.mp h
    obtain ⟨hmissing, j, rfl⟩ := ends_absent? habsent
    cases missing with
    | some r =>
        rw [ends_unlessSilent h, if_neg fun hand => Option.some_ne_none r (hmissing.mpr hand.2)]
        rfl
    | none =>
        rw [if_pos ⟨hne, hmissing.mp rfl⟩]
        obtain ⟨_, b₃, hcopy, h⟩ := ends_bind.mp h
        have hl₃ := ends_copyQuads_attempts hcopy
        rw [Content.transferring, Ledger.attemptAll_append,
          ← show b₃.ledger = b₁.ledger.attemptAll _ from hl₃]
        split at h
        · rename_i hmove
          have hsame : b₁.tx.content.SameAt source b₃.tx.content := by
            rw [show b₃.tx.content = b₃.ledger.content from rfl, hl₃]
            refine Ledger.sameAt_attemptAll (l := b₁.ledger) fun w hw => ?_
            rw [Content.about_of_mem_bringing hw]
            exact fun heq => hne heq.symm
          rw [if_pos hmove, ← hsame.removal_eq .drop]
          exact ends_removeOne_attempts .drop h
        · rename_i hmove
          obtain ⟨-, rfl⟩ := ends_pure.mp h
          rw [if_neg hmove]
          rfl

theorem ends_graphOperation_attempts {op : GraphOperation} (hb : b.tx.content.Valid)
    (h : Ends (graphOperation env user op) b u b') :
    b'.ledger = b.ledger.attemptAll (op.writes b.tx.content) := by
  cases hmal : op.malformed? with
  | some e =>
      unfold graphOperation at h
      rw [hmal] at h
      exact absurd h not_ends_throw
  | none =>
      rcases wellFormed_cases hmal with ⟨haction, hd⟩ | ⟨haction, source, destination, hs, hd⟩
      · rw [graphOperation_of_removal haction hd] at h
        rw [GraphOperation.writes_of_removal hd]
        exact ends_dropOrClear_attempts hb h
      · rw [graphOperation_of_transfer haction hs hd] at h
        rw [GraphOperation.writes_of_transfer hs hd]
        exact ends_transfer_attempts h

/-- An action without a pattern that succeeds has attempted its writes, and no others. -/
theorem ends_action_attempts {a : Action} (ha : a.Patternless) {input : Option Binding}
    (hb : b.tx.content.Valid) (h : Ends (action env user input a) b u b') :
    b'.ledger = b.ledger.attemptAll (a.writes b.tx.content) := by
  cases a with
  | create r silent =>
      obtain ⟨_, b₁, hcheck, h⟩ := ends_bind.mp h
      have hl₁ := ledger_of_ends_check hcheck
      obtain ⟨found, b₂, hfound, h⟩ := ends_bind.mp h
      obtain ⟨rfl, j, rfl⟩ := ends_containsGraph hfound
      rw [← hl₁]
      split at h
      · rename_i hr
        rw [ends_unlessSilent h]
        refine (Ledger.attempt_of_not_effective fun heffective => ?_).symm
        exact Bool.false_ne_true (heffective.symm.trans hr)
      · exact ends_insertGraph (b := { b₁ with journal := j }) h
  | graph op => exact ends_graphOperation_attempts hb h
  | insertData qs =>
      obtain ⟨_, b₁, hchecks, h⟩ := ends_bind.mp h
      rw [← ledger_of_ends_forM_check (fun _ => .insertData) id hchecks]
      exact ends_forM_insert h
  | deleteData qs =>
      obtain ⟨_, b₁, hchecks, h⟩ := ends_bind.mp h
      rw [← ledger_of_ends_forM_check (fun _ => .deleteData) id hchecks]
      exact ends_forM_remove h
  | modify m => exact ha.elim

end Step

end GraphStore
