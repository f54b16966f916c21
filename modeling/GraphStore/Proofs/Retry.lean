/-
# `GraphStore.Proofs.Retry` — retrying is safe

An operation that has been executed and is executed again at once, because its answer was lost,
succeeds again and changes nothing.  Two things have to be seen of the content that the first run
leaves.

* Every write that the second run attempts has no effect there (`idle_outcome`).  It finds no quads
  in a graph that was cleared, no graph that was dropped or moved, and source and destination of a
  copy alike.
* The second run needs no access that the first did not need (`needs_of_outcome`).  This is not
  plain for DROP and CLEAR of several graphs, which need one for each graph that there is.

The operations are those that do not mind graphs in the wrong state.  MOVE from the default graph is
left out: the default graph exists when it has been moved, and the second run moves nothing to the
destination.
-/
import GraphStore.Proofs.Needs
import GraphStore.Proofs.Removal
import GraphStore.Proofs.Transfers

namespace GraphStore

/-- The action may be executed twice: it has no pattern, does not mind graphs in the wrong state,
and if it moves a graph, this is a named one. -/
def Action.Retriable : Action → Prop
  | .create _ silent => silent = true
  | .graph op => op.silent = true ∧ (op.action = .move → ∃ r, op.source = .named r)
  | .insertData _ | .deleteData _ => True
  | .modify _ => False

theorem Action.Retriable.patternless {a : Action} (ha : a.Retriable) : a.Patternless := by
  cases a with
  | modify m => exact ha
  | create _ _ | graph _ | insertData _ | deleteData _ => trivial

theorem Action.Retriable.silent {a : Action} (ha : a.Retriable) : a.Silent := by
  cases a with
  | graph op => exact ha.1
  | create r silent => exact ha
  | insertData _ | deleteData _ | modify _ => trivial

/-- None of the writes has an effect on the content. -/
def Content.Idle (c : Content) (ws : List Write) : Prop := ∀ w ∈ ws, ¬ w.Effective c

theorem Ledger.attemptAll_of_idle {l : Ledger} {ws : List Write} (h : l.content.Idle ws) :
    l.attemptAll ws = l := by
  induction ws with
  | nil => rfl
  | cons w ws ih =>
      obtain ⟨hw, hws⟩ := List.forall_mem_cons.mp h
      show (l.attempt w).attemptAll ws = l
      rw [attempt_of_not_effective hw]
      exact ih hws

namespace Content

variable {c c' : Content} {action : GraphAction} {source destination : GraphName}
  {target : GraphTarget} {deleted inserted : List Quad}

/-- To register a graph that exists has no effect. -/
theorem idle_register {r : Resource} (h : c.Has (.named r)) : c.Idle [.register r] := by
  refine List.forall_mem_singleton.mpr fun heffective => ?_
  exact Bool.false_ne_true ((show c.containsGraph r = false from heffective).symm.trans h)

/-- Nothing is left to be removed. -/
theorem Removed.removals_eq_nil (h : c.Removed action target c' deleted) :
    c'.removals action target = [] := by
  refine List.flatMap_eq_nil_iff.mpr fun g hg => ?_
  obtain ⟨hcovers, hhas⟩ := mem_targets.mp hg
  rw [removal, h.covered_empty g hcovers]
  split
  · rename_i hdrop
    cases g with
    | default => rfl
    | named r => exact absurd hdrop ((h.exists_iff r hcovers).mp hhas).1
  · rfl

/-- A removal makes no graph exist. -/
theorem Removed.has_of_has (h : c.Removed action target c' deleted) {g : GraphName}
    (hhas : c'.Has g) : c.Has g := by
  by_cases hcovers : target.Covers g
  · cases g with
    | default => trivial
    | named r => exact containsGraph_iff.mpr (.inl ((h.exists_iff r hcovers).mp hhas).2)
  · exact (h.others_kept g hcovers).has_iff.mp hhas

/-- Between two graphs of which one has been brought to the other nothing is left to be brought. -/
theorem Brought.idle_transferring (h : c.Brought action source destination c' deleted inserted)
    (hmove : action ≠ .move) : c'.Idle (c'.transferring action source destination) := by
  have hsource : c'.triplesOf source = c.triplesOf source := by
    ext t
    rw [mem_triplesOf, mem_triplesOf]
    exact (h.source_kept hmove).holds_iff
  have hbrought : ∀ t : Triple, c'.lists.Holds (t.inGraph source) →
      c'.lists.Holds (t.inGraph destination) := by
    intro t ht
    rw [← mem_triplesOf] at ht ⊢
    rw [hsource] at ht
    rw [h.destination_triples]
    split
    · exact Finset.mem_union_right _ ht
    · exact ht
  intro w hw
  rw [transferring, if_neg hmove, List.append_nil] at hw
  rcases List.mem_append.mp hw with hw | hw
  · -- what is in the destination of a copy is in the source
    obtain ⟨q, hq, rfl⟩ := List.mem_map.mp hw
    obtain ⟨hadd, ⟨rfl, hheld⟩, hstale⟩ := mem_stale.mp hq
    refine absurd ?_ hstale
    have hmem : q.triple ∈ c'.triplesOf q.graph := by
      rw [mem_triplesOf, q.triple_inGraph_graph]
      exact hheld
    rw [h.destination_triples, if_neg hadd, ← hsource, mem_triplesOf] at hmem
    exact hmem
  · rcases List.mem_append.mp hw with hw | hw
    · obtain ⟨-, r, rfl, rfl⟩ := Write.mem_placeholder.mp hw
      exact idle_register h.destination_has _ List.mem_cons_self
    · obtain ⟨q, hq, rfl⟩ := List.mem_map.mp hw
      obtain ⟨rfl, hheld⟩ := mem_copies.mp hq
      refine fun heffective => heffective ?_
      have hcopy := hbrought q.triple hheld
      rw [q.triple_inGraph_graph] at hcopy
      exact hcopy

end Content

/-! ## The second run -/

theorem GraphOperation.removed_outcome {op : GraphOperation} (hdestination : op.destination = none)
    {c : Content} (hc : c.Valid) : c.Removed op.action op.source
      ((Action.graph op).outcome c).content ((Action.graph op).outcome c).deleted := by
  have houtcome : (Action.graph op).outcome c =
      (Ledger.start c).attemptAll (c.removals op.action op.source) :=
    congrArg (Ledger.start c).attemptAll (writes_of_removal hdestination)
  rw [houtcome]
  exact (Content.removed_removals hc op.action op.source).1

theorem GraphOperation.idle_of_transfer {op : GraphOperation}
    (haction : op.action.isTransfer = true) {source destination : GraphName}
    (hsource : op.source.single? = some source) (hdestination : op.destination = some destination)
    (hmove : op.action = .move → ∃ r, op.source = .named r) {c : Content} (hc : c.Valid) :
    ((Action.graph op).outcome c).content.Idle
      (op.writes ((Action.graph op).outcome c).content) := by
  have hwrites := fun c : Content => writes_of_transfer (c := c) hsource hdestination
  have houtcome : (Action.graph op).outcome c =
      (Ledger.start c).attemptAll (op.writes c) := rfl
  rw [hwrites] at houtcome ⊢
  by_cases hrun : source ≠ destination ∧ c.Has source
  · rw [if_pos hrun] at houtcome
    have hbrought := Content.brought_transferring hc haction hrun.1
    rw [← houtcome] at hbrought
    split
    · rename_i hagain
      by_cases hop : op.action = .move
      · -- a named graph that was moved is not there
        obtain ⟨r, hr⟩ := hmove hop
        rw [hr] at hsource
        obtain rfl := Option.some.inj hsource
        exact absurd hagain.2 ((hbrought.source_gone hop).2.2 GraphName.noConfusion)
      · exact hbrought.idle_transferring hop
    · exact fun w hw => absurd hw List.not_mem_nil
  · -- the first run did nothing, and the second finds what the first has found
    rw [if_neg hrun] at houtcome
    rw [houtcome]
    show c.Idle (if source ≠ destination ∧ c.Has source then _ else [])
    rw [if_neg hrun]
    exact fun w hw => absurd hw List.not_mem_nil

namespace Action

variable {a : Action} (ha : a.Retriable) (hformed : a.Formed) {c : Content} (hc : c.Valid)

include ha hformed hc

/-- What the second run attempts has no effect on what the first has left. -/
theorem idle_outcome : (a.outcome c).content.Idle (a.writes (a.outcome c).content) := by
  cases a with
  | create r silent => exact Content.idle_register (Content.has_register (.start c) r)
  | graph op =>
      rcases Step.wellFormed_cases hformed with ⟨-, hdestination⟩ |
        ⟨haction, source, destination, hsource, hdestination⟩
      · have hwrites : op.writes ((graph op).outcome c).content = [] :=
          (GraphOperation.writes_of_removal hdestination).trans
            (GraphOperation.removed_outcome hdestination hc).removals_eq_nil
        show Content.Idle _ (op.writes _)
        rw [hwrites]
        exact fun w hw => absurd hw List.not_mem_nil
      · exact GraphOperation.idle_of_transfer haction hsource hdestination ha.2 hc
  | insertData qs =>
      intro w hw heffective
      obtain ⟨q, hq, rfl⟩ := List.mem_map.mp hw
      exact heffective (Ledger.holds_inserts.mpr (.inr hq))
  | deleteData qs =>
      intro w hw heffective
      obtain ⟨q, hq, rfl⟩ := List.mem_map.mp hw
      exact ((Ledger.holds_removes (l := .start c) hc).mp heffective).2 hq
  | modify m => exact ha.elim

/-- The second run needs no access that the first did not need. -/
theorem needs_of_outcome {S S' : List Binding} {kind : AccessKind} {g : GraphName}
    (h : a.Needs (a.outcome c).content S' kind g) : a.Needs c S kind g := by
  cases h with
  | create => exact .create
  | insertData hq => exact .insertData hq
  | deleteData hq => exact .deleteData hq
  | target haction hsource => exact .target haction hsource
  | @targets op g haction hsource hcovers hhas =>
      refine .targets haction hsource hcovers ?_
      rcases Step.wellFormed_cases hformed with ⟨-, hdestination⟩ | ⟨htransfer, -⟩
      · exact (GraphOperation.removed_outcome hdestination hc).has_of_has hhas
      · rw [haction] at htransfer
        cases htransfer
  | source haction hsource => exact .source haction hsource
  | destination haction hdestination => exact .destination haction hdestination
  | replaced haction hdestination => exact .replaced haction hdestination
  | moved haction hsource => exact .moved haction hsource
  | deleteTemplate | deletion | insertTemplate | insertion => exact ha.elim

end Action

namespace Session

/-- An operation that may be executed twice, and has been executed, is executed again at once if no
store call fails: it answers that nothing was deleted or inserted, and the content is the one that
the first run has left, in the same order. -/
theorem retry_changes_nothing {env : Environment} (hfaults : ∀ kind n, env.faults kind n = none)
    {s s' : Session} (hs : s.content.Reachable) (call : BatchCall) {op : Operation}
    (hop : op.action.Retriable) {changes : List Change}
    (h : s.execute env call [op] = (.ok changes, s')) :
    ∃ s'', s'.execute env call [op] =
        (.ok [if env.options.trackChanges then ⟨some [], some []⟩ else Change.untracked], s'') ∧
      s''.content = s'.content := by
  have hpatternless := hop.patternless
  obtain ⟨-, hcontent⟩ := execute_patternless_eq_ok hpatternless hs.valid h
  -- the first run was allowed what it needs
  rw [← execute_with_evaluator hpatternless .scanning] at h
  obtain ⟨b, hends, -⟩ := ends_of_execute_one Evaluator.looks_scanning h
  rw [Step.acting_of_patternless hpatternless] at hends
  have hformed := Step.formed_of_ends hends
  obtain ⟨S, -, hallowed⟩ := Step.ends_action_allowed Evaluator.discreet_scanning hends rfl
  -- so the second is, and what it attempts has no effect
  have hidle : op.action.outcome s'.content = .start s'.content := by
    rw [hcontent]
    exact Ledger.attemptAll_of_idle (op.action.idle_outcome hop hformed hs.valid)
  have hvalid : s'.content.Valid := by
    rw [hcontent]
    exact Ledger.valid_attemptAll (l := .start s.content) hs.valid _
  have hagain : ∃ b, BatchM.Ends (Step.action env
      (op.user.getD (call.user.getD env.options.defaultUser)) call.input op.action)
      (Step.next (s'.opened env.faults)) () b := by
    refine Step.exists_ends_of_allowed hfaults hpatternless hop.silent hformed
      fun S' kind g hneeds => ?_
    have hneeds : op.action.Needs s'.content S' kind g := hneeds
    rw [hcontent] at hneeds
    exact hallowed kind g (op.action.needs_of_outcome hop hformed hs.valid hneeds)
  obtain ⟨s'', hexecute, hcontent'⟩ := exists_execute_patternless hpatternless hvalid hfaults hagain
  rw [hidle] at hexecute hcontent'
  exact ⟨s'', hexecute, hcontent'⟩

/-- A graph is moved, and then it is not there. -/
theorem retry_changes_nothing_move :
    let t : Triple := ⟨.iri ⟨"s"⟩, ⟨"p"⟩, .iri ⟨"o"⟩⟩
    let source : GraphName := .named (.iri ⟨"source"⟩)
    let destination : GraphName := .named (.iri ⟨"destination"⟩)
    let c : Content := { quads := [t.inGraph source] }
    let op : Operation := { action := .graph (.transfer .move source destination true) }
    ∃ s' s'', Session.execute { content := c } {} {} [op] =
        (.ok [⟨some [t.inGraph source], some [t.inGraph destination]⟩], s') ∧
      s'.execute {} {} [op] = (.ok [⟨some [], some []⟩], s'') ∧ s''.content = s'.content := by
  intro t source destination c op
  have hpublish : (TransactionStep.runAll (.start .empty)
      (c.quads.map TransactionStep.insert)).publish .empty = some c := by decide +kernel
  have hretriable : op.action.Retriable := ⟨rfl, fun _ => ⟨.iri ⟨"source"⟩, rfl⟩⟩
  have hok := eq_ok_of_toOption (r := Session.execute { content := c } {} {} [op])
    (a := [⟨some [t.inGraph source], some [t.inGraph destination]⟩]) (by decide +kernel)
  obtain ⟨s'', hagain, hcontent⟩ := retry_changes_nothing (fun _ _ => rfl)
    (.transaction .empty hpublish) {} hretriable hok
  exact ⟨_, s'', hok, hagain, hcontent⟩

end Session

end GraphStore
