/-
# `GraphStore.Proofs.Removal` — DROP and CLEAR remove exactly their target

What is left is a selection from the three lists of the content (`Content.without`).

                     triples         quads           graphs
    CLEAR t          not in t        not in t        all
    DROP t           not in t        not in t        not in t

A selection keeps the order, so nothing but the target has been touched.  The operation reads
its targets once and then takes one graph after the other, each quad by a write of its own.
A list of such writes comes to one selection, whatever its order (`content_removals`);
that the writes of the operation select what the table says is a matter of membership
(`minus_removals`).

A named graph that was created survives CLEAR, and one that only held quads does not
(`Content.Removed.exists_iff`).
-/
import GraphStore.Proofs.Alone
import GraphStore.Proofs.ExactChanges
import GraphStore.Proofs.Unhindered

namespace GraphStore

instance (target : GraphTarget) (g : GraphName) : Decidable (target.Covers g) :=
  match target with
  | .named r => inferInstanceAs (Decidable (g = .named r))
  | .defaultGraph => inferInstanceAs (Decidable (g = .default))
  | .namedGraphs => inferInstanceAs (Decidable (g ≠ .default))
  | .allGraphs => .isTrue trivial

theorem GraphTarget.covers_of_single {target : GraphTarget} {g : GraphName}
    (h : target.single? = some g) : target.Covers g := by
  cases target with
  | named r => exact (Option.some.inj h).symm
  | defaultGraph => exact (Option.some.inj h).symm
  | namedGraphs | allGraphs => cases h

/-- The write takes something out. -/
def Write.TakesOut : Write → Prop
  | .remove _ | .unregister _ => True
  | .insert _ | .register _ => False

namespace Content

/-- The content without what the writes take out. -/
def minus (c : Content) (ws : List Write) : Content where
  triples := c.triples.filter fun t => .remove (t.inGraph .default) ∉ ws
  quads := c.quads.filter fun q => .remove q ∉ ws
  graphs := c.graphs.filter fun r => .unregister r ∉ ws

/-- The content without the quads of the target and, with DROP, without its graphs. -/
def without (c : Content) (action : GraphAction) (target : GraphTarget) : Content where
  triples := if target.Covers .default then [] else c.triples
  quads := c.quads.filter fun q => ¬ target.Covers q.graph
  graphs := if action = .drop then c.graphs.filter fun r => ¬ target.Covers (.named r)
    else c.graphs

/-- DROP or CLEAR of the target leads from one content to the other, and notes the deleted
quads. -/
structure Removed (action : GraphAction) (target : GraphTarget) (c c' : Content)
    (deleted : List Quad) : Prop where
  content_eq : c' = c.without action target
  /-- The targeted graphs are empty. -/
  covered_empty : ∀ g, target.Covers g → c'.within g = []
  /-- All other graphs are as they were. -/
  others_kept : ∀ g, ¬ target.Covers g → c.SameAt g c'
  /-- A targeted graph exists afterwards if it was created and is only cleared. -/
  exists_iff : ∀ r, target.Covers (.named r) →
    (c'.Has (.named r) ↔ action ≠ .drop ∧ r ∈ c.graphs)
  deleted_nodup : deleted.Nodup
  mem_deleted : ∀ q, q ∈ deleted ↔ c.lists.Holds q ∧ target.Covers q.graph
  drop_named : action = .drop → target = .namedGraphs →
    c'.namedGraphs = [] ∧ c'.triples = c.triples
  drop_all : action = .drop → target = .allGraphs → c' = .empty

variable {c : Content} {action : GraphAction} {target : GraphTarget}

theorem minus_nil (c : Content) : c.minus [] = c := by
  simp [minus]

theorem minus_cons (c : Content) (w : Write) (ws : List Write) :
    (c.minus [w]).minus ws = c.minus (w :: ws) := by
  simp [minus, List.filter_filter, Bool.and_comm]

/-- Nothing is held twice, so erasing a member selects the others. -/
theorem apply_eq_minus (hc : c.Valid) {w : Write} (hw : w.TakesOut) :
    w.apply c = c.minus [w] := by
  cases w with
  | remove q =>
      have hgraphs : c.graphs.filter (fun r => .unregister r ∉ [Write.remove q]) = c.graphs :=
        List.filter_eq_self.mpr fun r _ => by simp
      cases hq : q.graph with
      | default =>
          have htriples : c.triples.erase q.triple =
              c.triples.filter fun t => .remove (t.inGraph .default) ∉ [Write.remove q] := by
            rw [hc.nodup_triples.erase_eq_filter]
            refine List.filter_congr fun t _ => ?_
            have hqt : q.triple.inGraph .default = q := by rw [← hq]; rfl
            have hiff : t.inGraph .default = q ↔ t = q.triple := by
              rw [← hqt]
              exact ⟨Triple.inGraph_injective, fun h => h ▸ rfl⟩
            exact Bool.eq_iff_iff.mpr (by simp [hiff])
          have hquads : c.quads.filter (fun x => .remove x ∉ [Write.remove q]) = c.quads := by
            refine List.filter_eq_self.mpr fun x hx => ?_
            have hne : x ≠ q := fun h => hc.quads_named x hx (h ▸ hq)
            simpa using hne
          simp only [Write.apply, QuadLists.erase, hq, withLists, lists, minus, htriples, hquads,
            hgraphs]
      | named r =>
          have htriples : c.triples.filter
              (fun t => .remove (t.inGraph .default) ∉ [Write.remove q]) = c.triples := by
            refine List.filter_eq_self.mpr fun t _ => ?_
            have hne : t.inGraph .default ≠ q := fun h => by simp [← h] at hq
            simpa using hne
          have hquads : c.quads.erase q =
              c.quads.filter fun x => .remove x ∉ [Write.remove q] := by
            rw [hc.nodup_quads.erase_eq_filter]
            exact List.filter_congr fun x _ => Bool.eq_iff_iff.mpr (by simp)
          simp only [Write.apply, QuadLists.erase, hq, withLists, lists, minus, htriples, hquads,
            hgraphs]
  | unregister r =>
      have hgraphs : c.graphs.erase r =
          c.graphs.filter fun x => .unregister x ∉ [Write.unregister r] := by
        rw [hc.nodup_graphs.erase_eq_filter]
        exact List.filter_congr fun x _ => Bool.eq_iff_iff.mpr (by simp)
      simp [Write.apply, minus, hgraphs]
  | insert q => exact hw.elim
  | register r => exact hw.elim

/-- To take out what is not there leaves everything. -/
theorem apply_of_not_effective {w : Write} (hw : w.TakesOut) (h : ¬ w.Effective c) :
    w.apply c = c := by
  cases w with
  | remove q =>
      change ¬ c.lists.Holds q at h
      unfold QuadLists.Holds at h
      cases hq : q.graph with
      | default =>
          rw [hq] at h
          change q.triple ∉ c.triples at h
          simp [Write.apply, QuadLists.erase, hq, withLists, lists, List.erase_of_not_mem h]
      | named r =>
          rw [hq] at h
          change q ∉ c.quads at h
          simp [Write.apply, QuadLists.erase, hq, withLists, lists, List.erase_of_not_mem h]
  | unregister r =>
      change r ∉ c.graphs at h
      simp [Write.apply, List.erase_of_not_mem h]
  | insert q => exact hw.elim
  | register r => exact hw.elim

end Content

namespace Ledger

variable {l : Ledger} {ws : List Write}

theorem content_attempt (hl : l.content.Valid) {w : Write} (hw : w.TakesOut) :
    (l.attempt w).content = l.content.minus [w] := by
  rw [← Content.apply_eq_minus hl hw]
  unfold attempt
  split
  · rfl
  · rename_i h
    exact (Content.apply_of_not_effective hw h).symm

/-- Writes that take something out come to a selection. -/
theorem content_removals (hl : l.content.Valid) (hws : ∀ w ∈ ws, w.TakesOut) :
    (l.attemptAll ws).content = l.content.minus ws := by
  induction ws generalizing l with
  | nil => exact l.content.minus_nil.symm
  | cons w ws ih =>
      obtain ⟨hw, hws⟩ := List.forall_mem_cons.mp hws
      rw [← Content.minus_cons, ← content_attempt hl hw]
      exact ih (valid_attempt hl w) hws

end Ledger

namespace Content

variable {c : Content} {action : GraphAction} {target : GraphTarget}

theorem takesOut_of_mem_removal {g : GraphName} {w : Write} (hw : w ∈ c.removal action g) :
    w.TakesOut := by
  rcases List.mem_append.mp hw with hw | hw
  · obtain ⟨q, -, rfl⟩ := List.mem_map.mp hw
    trivial
  · split at hw
    · obtain ⟨r, -, rfl⟩ := Write.mem_forget.mp hw
      trivial
    · exact absurd hw List.not_mem_nil

theorem remove_mem_removal {g : GraphName} {q : Quad} :
    .remove q ∈ c.removal action g ↔ q.graph = g ∧ c.lists.Holds q := by
  rw [removal, List.mem_append, ← mem_within]
  constructor
  · rintro (h | h)
    · obtain ⟨x, hx, hxq⟩ := List.mem_map.mp h
      exact Write.remove.inj hxq ▸ hx
    · split at h
      · obtain ⟨r, -, h⟩ := Write.mem_forget.mp h
        cases h
      · exact absurd h List.not_mem_nil
  · exact fun h => .inl (List.mem_map_of_mem h)

theorem unregister_mem_removal {g : GraphName} {r : Resource} :
    .unregister r ∈ c.removal action g ↔ action = .drop ∧ g = .named r := by
  rw [removal, List.mem_append]
  constructor
  · rintro (h | h)
    · obtain ⟨x, -, h⟩ := List.mem_map.mp h
      cases h
    · split at h
      · rename_i hdrop
        obtain ⟨r', hg, hr⟩ := Write.mem_forget.mp h
        exact ⟨hdrop, hg.trans (congrArg GraphName.named (Write.unregister.inj hr).symm)⟩
      · exact absurd h List.not_mem_nil
  · rintro ⟨rfl, rfl⟩
    exact .inr (Write.mem_forget.mpr ⟨r, rfl, rfl⟩)

/-- The writes of DROP or CLEAR. -/
def removals (c : Content) (action : GraphAction) (target : GraphTarget) : List Write :=
  (c.targets target).flatMap (c.removal action)

theorem remove_mem_removals {q : Quad} :
    .remove q ∈ c.removals action target ↔ c.lists.Holds q ∧ target.Covers q.graph := by
  rw [removals, List.mem_flatMap]
  simp only [remove_mem_removal, mem_targets]
  constructor
  · rintro ⟨g, ⟨hcovers, -⟩, rfl, hheld⟩
    exact ⟨hheld, hcovers⟩
  · rintro ⟨hheld, hcovers⟩
    exact ⟨q.graph, ⟨hcovers, has_of_holds hheld⟩, rfl, hheld⟩

theorem unregister_mem_removals {r : Resource} (hr : r ∈ c.graphs) :
    .unregister r ∈ c.removals action target ↔ action = .drop ∧ target.Covers (.named r) := by
  rw [removals, List.mem_flatMap]
  simp only [unregister_mem_removal, mem_targets]
  constructor
  · rintro ⟨g, ⟨hcovers, -⟩, hdrop, rfl⟩
    exact ⟨hdrop, hcovers⟩
  · rintro ⟨hdrop, hcovers⟩
    exact ⟨.named r, ⟨hcovers, containsGraph_iff.mpr (.inl hr)⟩, hdrop, rfl⟩

/-- The writes of the operation select what is not in the target. -/
theorem minus_removals (hc : c.Valid) (action : GraphAction) (target : GraphTarget) :
    c.minus (c.removals action target) = c.without action target := by
  have hquads : c.quads.filter (fun q => .remove q ∉ c.removals action target) =
      c.quads.filter fun q => ¬ target.Covers q.graph := by
    refine List.filter_congr fun q hq => decide_eq_decide.mpr (not_congr ?_)
    have hheld : c.lists.Holds q := by
      unfold QuadLists.Holds
      cases hg : q.graph with
      | default => exact absurd hg (hc.quads_named q hq)
      | named r => exact hq
    rw [remove_mem_removals, and_iff_right hheld]
  have htriples : c.triples.filter
      (fun t => .remove (t.inGraph .default) ∉ c.removals action target) =
        if target.Covers .default then [] else c.triples := by
    have hiff : ∀ t ∈ c.triples, .remove (t.inGraph .default) ∈ c.removals action target ↔
        target.Covers .default := fun t ht => by
      rw [remove_mem_removals]
      exact and_iff_right ht
    split
    · rename_i hcovers
      exact List.filter_eq_nil_iff.mpr fun t ht => by simpa using (hiff t ht).mpr hcovers
    · rename_i hcovers
      exact List.filter_eq_self.mpr fun t ht => by simpa using mt (hiff t ht).mp hcovers
  have hgraphs : c.graphs.filter (fun r => .unregister r ∉ c.removals action target) =
      if action = .drop then c.graphs.filter fun r => ¬ target.Covers (.named r)
      else c.graphs := by
    split
    · rename_i hdrop
      refine List.filter_congr fun r hr => decide_eq_decide.mpr (not_congr ?_)
      rw [unregister_mem_removals hr, and_iff_right hdrop]
    · rename_i hdrop
      exact List.filter_eq_self.mpr fun r hr =>
        decide_eq_true (mt (unregister_mem_removals hr).mp fun h => hdrop h.1)
  rw [minus, without, hquads, htriples, hgraphs]

theorem holds_without {q : Quad} :
    (c.without action target).lists.Holds q ↔ c.lists.Holds q ∧ ¬ target.Covers q.graph := by
  unfold QuadLists.Holds
  cases hg : q.graph with
  | default =>
      show q.triple ∈ (if target.Covers .default then [] else c.triples) ↔ _
      by_cases hcovers : target.Covers .default <;> simp [hcovers, lists]
  | named r =>
      show q ∈ c.quads.filter (fun q => ¬ target.Covers q.graph) ↔ _
      rw [List.mem_filter, decide_eq_true_iff, hg]
      exact Iff.rfl

theorem within_without {g : GraphName} : (c.without action target).within g =
    if target.Covers g then [] else c.within g := by
  cases g with
  | default =>
      rw [within_default, within_default, without]
      split <;> rfl
  | named r =>
      rw [within_named, within_named, without, List.filter_filter]
      split
      · rename_i hcovers
        refine List.filter_eq_nil_iff.mpr fun q _ h => ?_
        rw [Bool.and_eq_true, beq_iff_eq, decide_eq_true_iff] at h
        exact h.2 (h.1 ▸ hcovers)
      · rename_i hcovers
        refine List.filter_congr fun q _ => ?_
        cases hg : q.graph == .named r with
        | false => rfl
        | true =>
            rw [beq_iff_eq.mp hg, Bool.true_and]
            exact decide_eq_true hcovers

theorem mem_graphs_without {r : Resource} : r ∈ (c.without action target).graphs ↔
    r ∈ c.graphs ∧ (action = .drop → ¬ target.Covers (.named r)) := by
  show r ∈ (if action = .drop then c.graphs.filter fun r => ¬ target.Covers (.named r)
    else c.graphs) ↔ _
  split
  · rename_i hdrop
    rw [List.mem_filter, decide_eq_true_iff]
    simp [hdrop]
  · rename_i hdrop
    simp [hdrop]

theorem takesOut_of_mem_removals {w : Write} (hw : w ∈ c.removals action target) :
    w.TakesOut := by
  obtain ⟨g, -, hw⟩ := List.mem_flatMap.mp hw
  exact takesOut_of_mem_removal hw

/-- What DROP or CLEAR attempts removes exactly the target. -/
theorem removed_removals (hc : c.Valid) (action : GraphAction) (target : GraphTarget) :
    let l := (Ledger.start c).attemptAll (c.removals action target)
    c.Removed action target l.content l.deleted ∧ l.inserted = [] := by
  intro l
  have hadded : ∀ w ∈ c.removals action target, w.added = [] := by
    intro w hw
    have hout := takesOut_of_mem_removals hw
    cases w with
    | remove _ | unregister _ => rfl
    | insert _ | register _ => exact hout.elim
  have hinserted : l.inserted = [] := Ledger.inserted_attemptAll hadded
  have hcontent : l.content = c.without action target :=
    (Ledger.content_removals (l := .start c) hc fun _ => takesOut_of_mem_removals).trans
      (minus_removals hc action target)
  have hreach : (Ledger.start c).fresh.Reaches (· ∈ c.removals action target) l :=
    Ledger.reaches_attemptAll (.start c) (fun _ _ _ _ => List.not_mem_nil)
      fun _ _ _ _ w hw => (hadded w hw).symm ▸ List.not_mem_nil
  have hdiffers := hreach.differs hc.nodup_lists
  have hregistered : ∀ g, ¬ target.Covers g → ((c.without action target).Registered g ↔
      c.Registered g) := by
    intro g hg
    cases g with
    | default => exact Iff.rfl
    | named r => exact mem_graphs_without.trans (and_iff_left fun _ => hg)
  have hexists : ∀ r, target.Covers (.named r) →
      ((c.without action target).Has (.named r) ↔ action ≠ .drop ∧ r ∈ c.graphs) := by
    intro r hr
    rw [has_iff_within, within_without, if_pos hr]
    simp only [reduceCtorEq, ne_eq, not_true_eq_false, or_false, false_or]
    refine mem_graphs_without.trans ?_
    rw [and_comm]
    exact and_congr_left fun _ => ⟨fun h hdrop => h hdrop hr, fun h hdrop => absurd hdrop h⟩
  rw [hcontent] at *
  refine ⟨⟨rfl, fun g hg => ?_, fun g hg => ?_, hexists, hdiffers.deleted_nodup, fun q => ?_, ?_,
    ?_⟩, hinserted⟩
  · rw [within_without, if_pos hg]
  · refine .of_within ?_ (hregistered g hg)
    rw [within_without, if_neg hg]
  · have hleft := hdiffers.held_iff q
    rw [hinserted, hcontent, holds_without] at hleft
    constructor
    · intro hq
      have hheld := hdiffers.deleted_held q hq
      refine ⟨hheld, by_contra fun hcovers => ?_⟩
      exact (hleft.mp ⟨hheld, hcovers⟩).elim (fun h => h.2 hq) List.not_mem_nil
    · rintro ⟨hheld, hcovers⟩
      by_contra hq
      exact (hleft.mpr (.inl ⟨hheld, hq⟩)).2 hcovers
  · rintro rfl rfl
    refine ⟨List.eq_nil_iff_forall_not_mem.mpr fun r hr => ?_, rfl⟩
    exact ((hexists r GraphName.noConfusion).mp (containsGraph_iff_mem.mpr hr)).1 rfl
  · rintro rfl rfl
    simp [without, GraphTarget.Covers, empty]

end Content

namespace Session

/-- DROP or CLEAR removes exactly its target whenever it is executed: what is left is what it is not
about, in the same order, and what it answers is what it has removed.  It is executed if the
policy permits it on every graph that it finds, a single target exists, and no store call fails. -/
theorem removal_removes_target {env : Environment} {s : Session} (hs : s.content.Reachable)
    (call : BatchCall) (actor : Option User) {op : GraphOperation}
    (haction : op.action.isTransfer = false) (hdestination : op.destination = none) :
    let result := s.execute env call [{ action := .graph op, user := actor }]
    (∀ changes, result.1 = .ok changes → ∃ deleted,
      changes = [if env.options.trackChanges then ⟨some deleted, some []⟩ else Change.untracked] ∧
      s.content.Removed op.action op.source result.2.content deleted) ∧
    ((∀ kind n, env.faults kind n = none) →
      (∀ g, op.source.single? = some g → s.content.Has g) →
      (∀ g, op.source.Covers g → s.content.Has g →
        env.May (actor.getD (call.user.getD env.options.defaultUser))
          (Step.removalKind op.action) g) →
      ∃ changes, result.1 = .ok changes) := by
  intro result
  let executed : Operation := { action := .graph op, user := actor }
  have hpatternless : executed.action.Patternless := trivial
  have houtcome : executed.action.outcome s.content =
      (Ledger.start s.content).attemptAll (s.content.removals op.action op.source) := by
    show (Ledger.start s.content).attemptAll (op.writes s.content) = _
    rw [GraphOperation.writes_of_removal hdestination]
    rfl
  obtain ⟨hremoved, hinserted⟩ :=
    Content.removed_removals hs.valid op.action op.source
  constructor
  · intro changes h
    obtain ⟨hchanges, hcontent⟩ :=
      execute_patternless_eq_ok hpatternless hs.valid (Prod.ext h rfl : result = (.ok changes, _))
    rw [houtcome] at hchanges hcontent
    refine ⟨_, hchanges.trans ?_, hcontent ▸ hremoved⟩
    rw [Step.answer, hinserted]
  · intro hfaults hhas hmay
    obtain ⟨b, hends⟩ := Step.exists_ends_dropOrClear (b := Step.next (s.opened env.faults))
      hfaults
      (fun g hg => ⟨hmay g (GraphTarget.covers_of_single hg) (hhas g hg), .inr (hhas g hg)⟩)
      fun g hg => hmay g (Content.mem_targets.mp hg).1 (Content.mem_targets.mp hg).2
    rw [← Step.graphOperation_of_removal haction hdestination] at hends
    have hexecute : ∃ s', s.execute env call [executed] = (.ok [_], s') ∧ _ :=
      exists_execute_patternless hpatternless hs.valid hfaults ⟨b, hends⟩
    obtain ⟨s', hexecute, -⟩ := hexecute
    exact ⟨_, congrArg Prod.fst hexecute⟩

/-- CLEAR NAMED keeps a graph that was created, and with it the name; a graph that only held a quad
is gone. -/
theorem removal_removes_target_clear_named :
    let t : Triple := ⟨.iri ⟨"s"⟩, ⟨"p"⟩, .iri ⟨"o"⟩⟩
    let created : Resource := .iri ⟨"created"⟩
    let implied : Resource := .iri ⟨"implied"⟩
    let c : Content := {
      triples := [t]
      quads := [t.inGraph (.named implied), t.inGraph (.named created)]
      graphs := [created] }
    let op : GraphOperation := ⟨.clear, .namedGraphs, none, false⟩
    ∃ deleted s', Session.execute { content := c } {} {} [{ action := .graph op }] =
        (.ok [⟨some deleted, some []⟩], s') ∧
      s'.content = { triples := [t], graphs := [created] } ∧
      s'.content.Has (.named created) ∧ ¬ s'.content.Has (.named implied) ∧
      ∀ q, q ∈ deleted ↔ c.lists.Holds q ∧ q.graph ≠ .default := by
  intro t created implied c op
  have hpublish : (TransactionStep.runAll (.start .empty) [.addToDefault t,
      .addToNamed implied t, .insertGraph created, .addToNamed created t]).publish .empty =
        some c := by decide +kernel
  obtain ⟨hremoves, hexecutes⟩ := @removal_removes_target {} { content := c }
    (.transaction .empty hpublish) {} none op rfl rfl
  obtain ⟨changes, hok⟩ := hexecutes (fun _ _ => rfl) (fun _ h => by cases h) fun _ _ _ => rfl
  obtain ⟨deleted, rfl, hremoved⟩ := hremoves changes hok
  refine ⟨deleted, _, eq_ok_of_toOption (congrArg Except.toOption hok), ?_, ?_, ?_,
    hremoved.mem_deleted⟩
  · exact hremoved.content_eq.trans (by decide +kernel)
  · exact (hremoved.exists_iff created GraphName.noConfusion).mpr
      ⟨GraphAction.noConfusion, List.mem_cons_self⟩
  · exact fun h => absurd ((hremoved.exists_iff implied GraphName.noConfusion).mp h).2
      (by decide +kernel)

end Session

end GraphStore
