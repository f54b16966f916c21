/-
# `GraphStore.Proofs.Transfers` — ADD, COPY and MOVE do what their names say

Let S and T be the triples of the source and of the destination before the transfer.

              destination   source      deleted                inserted
    ADD       T ∪ S         as before   nothing                S ∖ T in the destination
    COPY      S             as before   T ∖ S                  S ∖ T in the destination
    MOVE      S             gone        T ∖ S, then source S   S ∖ T in the destination

`c.Brought action source destination c' deleted inserted` spells this out, with what is left
alone and with the destination, which exists afterwards even if S is empty.  It holds of the
writes that a transfer attempts (`brought_transferring`), so of every transfer that
is executed; and one that is admitted is executed if no store call fails
(`Session.transfer_brings`).

The quads of MOVE are noted in the order of the writes: the source is emptied last, when the
copies are in the destination.  No quad is noted twice, as source and destination differ.
-/
import GraphStore.Proofs.Alone
import GraphStore.Proofs.Meaning
import GraphStore.Proofs.Reachable
import GraphStore.Proofs.Unhindered

namespace GraphStore

namespace Content

/-- A transfer leads from one content to the other, and notes the deleted and inserted quads. -/
structure Brought (action : GraphAction) (source destination : GraphName) (c c' : Content)
    (deleted inserted : List Quad) : Prop where
  /-- ADD joins the two graphs, COPY and MOVE replace the destination. -/
  destination_triples : c'.triplesOf destination =
    if action = .add then c.triplesOf destination ∪ c.triplesOf source else c.triplesOf source
  /-- The destination exists, be the source empty or not. -/
  destination_has : c'.Has destination
  /-- ADD and COPY leave the source as it was. -/
  source_kept : action ≠ .move → c.SameAt source c'
  /-- MOVE empties the source, and a named source exists no more. -/
  source_gone : action = .move →
    c'.within source = [] ∧ ¬ c'.Registered source ∧ (source ≠ .default → ¬ c'.Has source)
  /-- All other graphs are as they were. -/
  others_kept : ∀ g, g ≠ source → g ≠ destination → c.SameAt g c'
  inserted_eq : inserted = c.lacking source destination
  deleted_eq : deleted = c.stale action source destination ++
    if action = .move then c.within source else []
  inserted_nodup : inserted.Nodup
  deleted_nodup : deleted.Nodup
  disjoint : ∀ q ∈ inserted, q ∉ deleted

variable {c : Content} {source destination g : GraphName} {action : GraphAction}

theorem mem_triplesOf {t : Triple} : t ∈ c.triplesOf g ↔ c.lists.Holds (t.inGraph g) := by
  cases g with
  | default => exact List.mem_toFinset
  | named r =>
      rw [triplesOf, List.mem_toFinset, List.mem_map]
      constructor
      · rintro ⟨q, hq, rfl⟩
        obtain ⟨hq, hg⟩ := List.mem_filter.mp hq
        have hg : q.graph = .named r := of_decide_eq_true hg
        have hwithin : q ∈ c.within (.named r) := by
          rw [within_named]
          exact List.mem_filter.mpr ⟨hq, beq_iff_eq.mpr hg⟩
        rw [← hg, q.triple_inGraph_graph]
        exact (mem_within.mp hwithin).2
      · intro h
        exact ⟨t.inGraph (.named r), List.mem_filter.mpr ⟨h, decide_eq_true rfl⟩, rfl⟩

/-- Every write of a transfer is about the destination or, with MOVE, about the source. -/
theorem about_of_mem_transferring {w : Write}
    (hw : w ∈ c.transferring action source destination) :
    w.about = destination ∨ (action = .move ∧ w.about = source) := by
  rcases List.mem_append.mp hw with hw | hw
  · exact .inl (about_of_mem_bringing hw)
  · split at hw
    · rename_i hmove
      exact .inr ⟨hmove, about_of_mem_removal hw⟩
    · exact absurd hw List.not_mem_nil

/-- A graph that is to be created exists afterwards. -/
theorem has_register (l : Ledger) (r : Resource) :
    (l.attempt (.register r)).content.Has (.named r) := by
  by_cases hr : l.content.containsGraph r = true
  · have hidle : ¬ (Write.register r).Effective l.content := fun he =>
      Bool.false_ne_true ((show l.content.containsGraph r = false from he).symm.trans hr)
    rw [Ledger.attempt_of_not_effective hidle]
    exact hr
  · have heffective : (Write.register r).Effective l.content := Bool.eq_false_of_not_eq_true hr
    rw [Ledger.attempt, if_pos heffective]
    exact containsGraph_iff.mpr (.inl (List.mem_append_right _ List.mem_cons_self))

/-- Bringing the quads of a graph to another one leaves it existing: it holds a copy, or it has been
created for want of one. -/
theorem has_bringing (l : Ledger) (action : GraphAction) (source destination : GraphName) :
    (l.attemptAll (l.content.bringing action source destination)).content.Has destination := by
  rw [bringing, Ledger.attemptAll_append, Ledger.attemptAll_append]
  generalize l.attemptAll ((l.content.stale action source destination).map .remove) = l₁
  cases hquads : l.content.within source with
  | nil =>
      rw [copies, hquads]
      cases destination with
      | default => trivial
      | named r => exact has_register l₁ r
  | cons q quads =>
      have hmem : q.triple.inGraph destination ∈ l.content.copies source destination := by
        rw [copies, hquads]
        exact List.mem_cons_self
      exact has_of_holds (Ledger.holds_inserts.mpr (.inr hmem))

/-- A transfer notes what it brings, and with MOVE the quads of the source too. -/
theorem notes_transferring {l : Ledger} (hl : l.content.Valid) (hne : source ≠ destination)
    (action : GraphAction) :
    (l.attemptAll (l.content.transferring action source destination)).notes =
      (l.deleted ++ (l.content.stale action source destination ++
        if action = .move then l.content.within source else []),
        l.inserted ++ l.content.lacking source destination) := by
  have hbringing := notes_bringing hl action source destination
  rw [transferring, Ledger.attemptAll_append]
  split
  · have hsame : l.content.SameAt source
        (l.attemptAll (l.content.bringing action source destination)).content :=
      Ledger.sameAt_attemptAll fun w hw hg => hne (hg.symm.trans (about_of_mem_bringing hw))
    have hvalid := Ledger.valid_attemptAll hl (l.content.bringing action source destination)
    rw [← hsame.removal_eq .drop, removal, if_pos rfl, Ledger.attemptAll_append,
      Ledger.notes_forget, Ledger.notes_removes hvalid (nodup_within hvalid source) fun q hq =>
        (mem_within.mp hq).2, hsame.within_eq]
    obtain ⟨hdeleted, hinserted⟩ := Prod.mk.inj hbringing
    rw [hdeleted, hinserted, List.append_assoc]
  · rw [List.append_nil]
    exact hbringing

/-- What a transfer attempts does what the name of the transfer says. -/
theorem brought_transferring (hc : c.Valid) (haction : action.isTransfer = true)
    (hne : source ≠ destination) :
    let l := (Ledger.start c).attemptAll (c.transferring action source destination)
    c.Brought action source destination l.content l.deleted l.inserted := by
  intro l
  have htransferred : c.Transferred action source destination l.content :=
    transferred_transferring (l := .start c) hc haction hne
  have hnotes : l.notes = ([] ++ (c.stale action source destination ++
      if action = .move then c.within source else []), [] ++ c.lacking source destination) :=
    notes_transferring (l := .start c) hc hne action
  obtain ⟨hdeleted, hinserted⟩ := Prod.mk.inj hnotes
  rw [List.nil_append] at hdeleted hinserted
  have hsame : ∀ g, g ≠ destination → (action = .move → g ≠ source) → c.SameAt g l.content := by
    intro g hdestination hsource
    refine Ledger.sameAt_attemptAll (l := .start c) fun w hw hg => ?_
    rcases about_of_mem_transferring hw with hw | ⟨hmove, hw⟩
    · exact hdestination (hg.symm.trans hw)
    · exact hsource hmove (hg.symm.trans hw)
  have hempty : action = .move → l.content.within source = [] := by
    intro hmove
    refine List.eq_nil_iff_forall_not_mem.mpr fun q hq => ?_
    obtain ⟨hg, hq⟩ := mem_within.mp hq
    rcases (htransferred.holds_iff q).mp hq with ⟨-, -, hsource⟩ | ⟨hdestination, -⟩
    · exact hsource hmove hg
    · exact hne (hg.symm.trans hdestination)
  have hunregistered : action = .move → ¬ l.content.Registered source := by
    intro hmove hsource
    cases source with
    | default => exact hsource
    | named r => exact ((htransferred.graphs_iff r hne).mp hsource).2 hmove rfl
  have hapart : ∀ q ∈ c.within source, q ∉ c.stale action source destination := fun q hq hstale =>
    hne ((mem_within.mp hq).1.symm.trans (mem_stale.mp hstale).2.1.1)
  refine ⟨?_, ?_, fun hmove => hsame source hne fun h => absurd h hmove, ?_,
    fun g hsource hdestination => hsame g hdestination fun _ => hsource, hinserted, hdeleted,
    ?_, ?_, ?_⟩
  · ext t
    rw [mem_triplesOf, htransferred.holds_iff]
    cases action with
    | add => simp [mem_triplesOf]
    | copy | move => simp [mem_triplesOf]
    | drop | clear => cases haction
  · have hbrought := has_bringing (.start c) action source destination
    show ((Ledger.start c).attemptAll (c.transferring action source destination)).content.Has _
    rw [transferring, Ledger.attemptAll_append]
    split
    · refine (Ledger.sameAt_attemptAll fun w hw hg => ?_).has_iff.mpr hbrought
      exact hne ((about_of_mem_removal hw).symm.trans hg)
    · exact hbrought
  · intro hmove
    refine ⟨hempty hmove, hunregistered hmove, fun hnamed hhas => ?_⟩
    rcases has_iff_within.mp hhas with hdefault | hregistered | hheld
    · exact hnamed hdefault
    · exact hunregistered hmove hregistered
    · exact hheld (hempty hmove)
  · rw [hinserted]
    exact (nodup_copies hc source destination).filter _
  · rw [hdeleted]
    refine (nodup_stale hc action source destination).append ?_ ?_
    · split
      · exact nodup_within hc source
      · exact List.nodup_nil
    · intro q hstale hq
      split at hq
      · exact hapart q hq hstale
      · exact absurd hq List.not_mem_nil
  · intro q hq hdel
    rw [hinserted] at hq
    rw [hdeleted, List.mem_append] at hdel
    refine (mem_lacking.mp hq).2 ?_
    rcases hdel with hstale | hmoved
    · exact (mem_stale.mp hstale).2.1.2
    · split at hmoved
      · exact (mem_within.mp hmoved).2
      · exact absurd hmoved List.not_mem_nil

end Content

namespace Session

/-- A transfer to another graph, from a source that exists, leads where its name says whenever it is
executed, and answers exactly what it has changed.  It is executed if the policy admits it and no
store call fails. -/
theorem transfer_brings {env : Environment} {s : Session} (hs : s.content.Reachable)
    (call : BatchCall) (actor : Option User) {op : GraphOperation}
    (haction : op.action.isTransfer = true) {source destination : GraphName}
    (hsource : op.source.single? = some source) (hdestination : op.destination = some destination)
    (hne : source ≠ destination) (hhas : s.content.Has source) :
    let result := s.execute env call [{ action := .graph op, user := actor }]
    (∀ changes, result.1 = .ok changes → ∃ deleted inserted,
      changes = [if env.options.trackChanges then ⟨some deleted, some inserted⟩
        else Change.untracked] ∧
      s.content.Brought op.action source destination result.2.content deleted inserted) ∧
    ((∀ kind n, env.faults kind n = none) →
      op.action.Admitted (env.May (actor.getD (call.user.getD env.options.defaultUser)))
        source destination →
      ∃ changes, result.1 = .ok changes) := by
  intro result
  let executed : Operation := { action := .graph op, user := actor }
  have hpatternless : executed.action.Patternless := trivial
  have houtcome : executed.action.outcome s.content =
      (Ledger.start s.content).attemptAll
        (s.content.transferring op.action source destination) := by
    show (Ledger.start s.content).attemptAll (op.writes s.content) = _
    rw [GraphOperation.writes_of_transfer hsource hdestination, if_pos ⟨hne, hhas⟩]
  constructor
  · intro changes h
    obtain ⟨hchanges, hcontent⟩ :=
      execute_patternless_eq_ok hpatternless hs.valid (Prod.ext h rfl : result = (.ok changes, _))
    refine ⟨_, _, hchanges, ?_⟩
    rw [hcontent, houtcome]
    exact Content.brought_transferring hs.valid haction hne
  · intro hfaults hadmitted
    obtain ⟨b, hends⟩ := Step.exists_ends_transfer (b := Step.next (s.opened env.faults)) hfaults
      hadmitted op.silent hhas
    rw [← Step.graphOperation_of_transfer haction hsource hdestination] at hends
    have hexecute : ∃ s', s.execute env call [executed] = (.ok [_], s') ∧ _ :=
      exists_execute_patternless hpatternless hs.valid hfaults ⟨b, hends⟩
    obtain ⟨s', hexecute, -⟩ := hexecute
    exact ⟨_, congrArg Prod.fst hexecute⟩

/-- MOVE between two graphs that have a triple in common: the copy of that triple is neither deleted
nor inserted. -/
theorem transfer_brings_shared_triple :
    let t (o : String) : Triple := ⟨.iri ⟨"s"⟩, ⟨"p"⟩, .iri ⟨o⟩⟩
    let source : GraphName := .named (.iri ⟨"source"⟩)
    let destination : GraphName := .named (.iri ⟨"destination"⟩)
    let c : Content := {
      quads := [(t "a").inGraph source, (t "b").inGraph source, (t "b").inGraph destination,
        (t "c").inGraph destination]
      graphs := [.iri ⟨"source"⟩] }
    let op : GraphOperation := .transfer .move source destination false
    let deleted :=
      [(t "c").inGraph destination, (t "a").inGraph source, (t "b").inGraph source]
    let inserted := [(t "a").inGraph destination]
    ∃ s', Session.execute { content := c } {} {} [{ action := .graph op }] =
        (.ok [⟨some deleted, some inserted⟩], s') ∧
      c.Brought .move source destination s'.content deleted inserted := by
  intro t source destination c op deleted inserted
  have hpublish : (TransactionStep.runAll (.start .empty)
      (.insertGraph (.iri ⟨"source"⟩) :: c.quads.map TransactionStep.insert)).publish .empty =
        some c := by decide +kernel
  obtain ⟨hbrings, hexecutes⟩ := @transfer_brings {} { content := c }
    (.transaction .empty hpublish) {} none op rfl source destination rfl rfl (by decide)
    (by decide +kernel)
  obtain ⟨changes, hok⟩ := hexecutes (fun _ _ => rfl) ⟨rfl, rfl, fun _ => rfl, fun _ => rfl⟩
  obtain ⟨deleted', inserted', rfl, hbrought⟩ := hbrings changes hok
  obtain rfl : deleted' = deleted := hbrought.deleted_eq.trans (by decide +kernel)
  obtain rfl : inserted' = inserted := hbrought.inserted_eq.trans (by decide +kernel)
  exact ⟨_, eq_ok_of_toOption (congrArg Except.toOption hok), hbrought⟩

end Session

end GraphStore
