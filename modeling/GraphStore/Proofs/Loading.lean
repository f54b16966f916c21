/-
# `GraphStore.Proofs.Loading` — quads that are added in bulk

There are two ways of adding a list of quads.  `extend` adds them past the policy, in a transaction
of its own, and counts the calls that had an effect; INSERT DATA asks the policy first, and notes
the quads that were new.

    extend         begin ─ write q₁ ─ write q₂ ─ … ─ commit         3 true
    INSERT DATA    begin ─ check … ─ insert q₁ ─ insert q₂ ─ … ─ commit     [q₁, q₂, q₅]

Behind the questions both attempt one insertion after the other, and no attempt goes by more than
the content in front of it.  So they come to the same (`Ledger.attemptAll_inserts`): of the list,
the quads that the content lacks are appended, each once, in the order in which they first appear
(`Content.newAmong`).
-/
import GraphStore.Proofs.Alone
import GraphStore.Proofs.Reachable
import GraphStore.Proofs.Repetitions
import GraphStore.Proofs.Unhindered

namespace GraphStore

namespace QuadLists

/-- Appending quads appends those of the default graph to one list and the others to the other. -/
theorem foldl_append_eq (l : QuadLists) (qs : List Quad) :
    qs.foldl append l = ⟨l.triples ++ (qs.filter (·.graph = .default)).map Quad.triple,
      l.quads ++ qs.filter (·.graph ≠ .default)⟩ := by
  induction qs generalizing l with
  | nil => simp
  | cons q qs ih =>
      rw [List.foldl_cons, ih]
      unfold append
      cases hq : q.graph <;> simp [hq]

end QuadLists

/-! ## Insertions in a transaction -/

namespace Ledger

/-- The transaction that has made the writes of the ledger. -/
def tx (l : Ledger) : Transaction := ⟨l.content, l.log⟩

/-- Adding a quad is attempting its insertion; the answer says whether it is noted. -/
theorem insert_tx (l : Ledger) (q : Quad) :
    l.tx.insert q = (decide (¬ l.content.lists.Holds q), (l.attempt (.insert q)).tx) := by
  rw [Step.insert_eq_edit]
  by_cases hq : l.content.lists.Holds q
  · have hvain : ¬ (Write.insert q).Effective l.content := not_not_intro hq
    rw [Transaction.edit_of_not_effective hvain, attempt_of_not_effective hvain]
    simp [hq, tx]
  · have hnew : (Write.insert q).Effective l.content := hq
    rw [Transaction.edit_of_effective hnew, attempt, if_pos hnew]
    simp [hq, tx, write]

/-- An insertion that has an effect is noted. -/
theorem length_inserted_attempt (l : Ledger) (q : Quad) :
    (l.attempt (.insert q)).inserted.length =
      l.inserted.length + (decide (¬ l.content.lists.Holds q)).toNat := by
  unfold attempt
  by_cases hq : l.content.lists.Holds q
  · rw [if_neg (show ¬ (Write.insert q).Effective l.content from not_not_intro hq)]
    simp [hq]
  · rw [if_pos (show (Write.insert q).Effective l.content from hq)]
    simp [hq, write, Write.added]

/-- Insertions that are counted if they have an effect. -/
theorem foldl_inserts (l : Ledger) (qs : List Quad)
    {f : Nat × Transaction → Quad → Nat × Transaction}
    (hf : ∀ p q, f p q = (p.1 + (p.2.insert q).1.toNat, (p.2.insert q).2)) :
    qs.foldl f (l.inserted.length, l.tx) =
      ((l.attemptAll (qs.map .insert)).inserted.length, (l.attemptAll (qs.map .insert)).tx) := by
  induction qs generalizing l with
  | nil => rfl
  | cons q qs ih =>
      rw [List.foldl_cons, hf, insert_tx, ← length_inserted_attempt]
      exact ih (l.attempt (.insert q))

/-- The log of insertions replays to the content they lead to. -/
theorem publish_inserts (l : Ledger) (qs : List Quad) {committed : Content}
    (h : l.tx.publish committed = some l.content) :
    (l.attemptAll (qs.map .insert)).tx.publish committed =
      some (l.attemptAll (qs.map .insert)).content := by
  induction qs generalizing l with
  | nil => exact h
  | cons q qs ih =>
      refine ih (l.attempt (.insert q)) ?_
      have hone := Transaction.publish_edit h (Write.insert q).edit
      rw [← Step.insert_eq_edit, insert_tx] at hone
      exact hone

end Ledger

namespace Session

open BatchM

variable {s : Session} {faults : Faults}

/-- Calls that add one quad after the other attempt their insertions; as many have an effect as
quads are noted. -/
theorem exists_ends_inserts (hwrite : ∀ n, faults .write n = none) (qs : List Quad) {l : Ledger}
    {b : Batch} (hb : b.tx = l.tx) :
    ∃ effects b', Ends ((qs.map fun q tx => Transaction.insert tx q).mapM
        (BatchM.call faults .write)) b effects b' ∧
      b'.tx = (l.attemptAll (qs.map .insert)).tx ∧
      l.inserted.length + effects.count true =
        (l.attemptAll (qs.map .insert)).inserted.length := by
  induction qs generalizing l b with
  | nil => exact ⟨[], b, ends_pure.mpr ⟨rfl, rfl⟩, hb, rfl⟩
  | cons q qs ih =>
      have hcall := run_call_of_faultless hwrite (fun tx => Transaction.insert tx q) b
      rw [hb, Ledger.insert_tx] at hcall
      obtain ⟨effects, b', hends, htx, hcount⟩ :=
        ih (l := l.attempt (.insert q)) (b := { b with
          tx := (l.attempt (.insert q)).tx, journal := (b.journal.call faults .write).2 }) rfl
      refine ⟨decide (¬ l.content.lists.Holds q) :: effects, b', ?_, htx, ?_⟩
      · rw [List.map_cons, List.mapM_cons]
        refine ends_bind.mpr ⟨_, _, hcall, ends_bind.mpr ⟨effects, b', hends, ?_⟩⟩
        exact ends_pure.mpr ⟨rfl, rfl⟩
      · refine Eq.trans ?_ hcount
        have hone : ∀ effect : Bool, (if effect == true then 1 else 0) = effect.toNat := by decide
        rw [Ledger.length_inserted_attempt, List.count_cons, hone]
        omega

/-- Changes that are all made are published, and those that had an effect are counted. -/
theorem write_of_ends (hfaults : ∀ kind n, faults kind n = none)
    {acts : List (Transaction → Bool × Transaction)} {effects : List Bool} {b : Batch} {c : Content}
    (h : Ends (acts.mapM (BatchM.call faults .write)) (s.opened faults) effects b)
    (hpublish : b.tx.publish s.content = some c) :
    ∃ s', s.write faults acts = (.ok (effects.count true), s') ∧ s'.content = c := by
  obtain ⟨s', hcommit, hcontent⟩ :=
    commit_of_publish (s := ⟨s.content, b.journal⟩) (hfaults .commit) hpublish
  refine ⟨s', ?_, hcontent⟩
  have hrun : (acts.mapM (BatchM.call faults .write)).run
      { tx := .start s.content, journal := (s.call faults .begin).2.journal } =
        (.ok effects, b) := h
  unfold write
  rw [call_eq_ok (hfaults .begin)]
  dsimp only
  rw [call_content, hrun]
  dsimp only
  rw [hcommit]

end Session

/-! ## What is loaded -/

namespace Content

/-- The quads of a list that the content lacks: each once, in the order of first appearance. -/
def newAmong (c : Content) (qs : List Quad) : List Quad := qs.eraseDups.filter (· ∉ c.allQuads)

/-- The list has been united with what the content holds: behind the old elements of each list stand
the new ones, in the order in which they first appear. -/
structure Loaded (c : Content) (qs : List Quad) (c' : Content) : Prop where
  mem_iff : ∀ q, q ∈ c'.allQuads ↔ q ∈ c.allQuads ∨ q ∈ qs
  size_eq : c'.size = c.size + (c.newAmong qs).length
  triples_eq : c'.triples =
    c.triples ++ ((c.newAmong qs).filter (·.graph = .default)).map Quad.triple
  quads_eq : c'.quads = c.quads ++ (c.newAmong qs).filter (·.graph ≠ .default)
  graphs_eq : c'.graphs = c.graphs

variable {c c' : Content} {qs : List Quad}

theorem mem_newAmong {q : Quad} : q ∈ c.newAmong qs ↔ q ∈ qs ∧ q ∉ c.allQuads := by
  rw [newAmong, List.mem_filter, List.mem_eraseDups, decide_eq_true_iff]

theorem nodup_newAmong (c : Content) (qs : List Quad) : (c.newAmong qs).Nodup :=
  (nodup_eraseDups qs).filter _

theorem mem_allQuads_iff_holds (hc : c.Valid) {q : Quad} : q ∈ c.allQuads ↔ c.lists.Holds q := by
  rw [allQuads, List.mem_append, ← within_default, mem_within]
  unfold QuadLists.Holds
  cases hq : q.graph with
  | default =>
      have hquads : q ∉ c.quads := fun h => hc.quads_named q h hq
      simp [hquads]
  | named g => simp [lists]

theorem newAmong_eq (hc : c.Valid) (qs : List Quad) :
    c.newAmong qs = qs.eraseDups.filter (¬ c.lists.Holds ·) :=
  List.filter_congr fun _ _ => decide_eq_decide.mpr (not_congr (mem_allQuads_iff_holds hc))

/-- Nothing is new in a list that has been loaded. -/
theorem Loaded.newAmong_eq_nil (h : c.Loaded qs c') : c'.newAmong qs = [] := by
  refine List.eq_nil_iff_forall_not_mem.mpr fun q hq => ?_
  obtain ⟨hmem, hnew⟩ := mem_newAmong.mp hq
  exact hnew ((h.mem_iff q).mpr (.inr hmem))

/-- Loading a list in which nothing is new changes nothing. -/
theorem Loaded.eq_of_newAmong_eq_nil (h : c.Loaded qs c') (hnew : c.newAmong qs = []) : c' = c := by
  have htriples : c'.triples = c.triples := by
    rw [h.triples_eq, hnew]
    exact List.append_nil _
  have hquads : c'.quads = c.quads := by
    rw [h.quads_eq, hnew]
    exact List.append_nil _
  show Content.mk c'.triples c'.quads c'.graphs = c
  rw [htriples, hquads, h.graphs_eq]

/-- Insertions one after the other load their list, and note what is new. -/
theorem loaded_inserts {l : Ledger} (hl : l.content.Valid) (qs : List Quad) :
    l.content.Loaded qs (l.attemptAll (qs.map .insert)).content ∧
      (l.attemptAll (qs.map .insert)).inserted = l.inserted ++ l.content.newAmong qs := by
  have hattempt := Ledger.attemptAll_inserts l qs
  rw [← newAmong_eq hl] at hattempt
  have hlists : (l.attemptAll (qs.map .insert)).content.lists =
      ⟨l.content.triples ++
          ((l.content.newAmong qs).filter (·.graph = .default)).map Quad.triple,
        l.content.quads ++ (l.content.newAmong qs).filter (·.graph ≠ .default)⟩ := by
    rw [hattempt]
    exact QuadLists.foldl_append_eq l.content.lists _
  obtain ⟨htriples, hquads⟩ := QuadLists.mk.inj hlists
  refine ⟨⟨fun q => ?_, ?_, htriples, hquads, Ledger.graphs_inserts⟩, by rw [hattempt]⟩
  · rw [mem_allQuads_iff_holds (Ledger.valid_attemptAll hl _), Ledger.holds_inserts,
      mem_allQuads_iff_holds hl]
  · have hsplit := (l.content.newAmong qs).length_eq_length_filter_add (·.graph = .default)
    rw [size, size, htriples, hquads, List.length_append, List.length_append, List.length_map]
    simp only [ne_eq, decide_not] at hsplit ⊢
    omega

end Content

namespace Session

open BatchM

/-- Adding quads in bulk counts what is new and publishes what the insertions lead to. -/
theorem extend_of_valid {s : Session} (hs : s.content.Valid) (qs : List Quad) :
    ∃ s', s.extend Faults.none qs = (.ok (s.content.newAmong qs).length, s') ∧
      s'.content = ((Ledger.start s.content).attemptAll (qs.map .insert)).content := by
  have hwrite : ∀ n, Faults.none .write n = none := fun _ => rfl
  obtain ⟨effects, b, hends, htx, hcount⟩ := exists_ends_inserts hwrite qs
    (l := .start s.content) (b := s.opened Faults.none) rfl
  have hpublish : Transaction.publish _ s.content = _ :=
    Ledger.publish_inserts (.start s.content) qs rfl
  rw [← htx] at hpublish
  obtain ⟨s', hwrite, hcontent⟩ := write_of_ends (fun _ _ => rfl) hends hpublish
  have hnew : ((Ledger.start s.content).attemptAll (qs.map .insert)).inserted =
      [] ++ s.content.newAmong qs :=
    (Content.loaded_inserts (l := .start s.content) hs qs).2
  rw [hnew] at hcount
  refine ⟨s', ?_, hcontent⟩
  rw [show s.extend Faults.none qs = _ from hwrite]
  simpa [Ledger.start] using hcount

/-- So does adding them to a store with one writer. -/
theorem singleWriter_extend_of_valid {w : SingleWriter} (hw : w.committed.Valid)
    (qs : List Quad) : w.extend qs = ((w.committed.newAmong qs).length, { w with
      committed := ((Ledger.start w.committed).attemptAll (qs.map .insert)).content }) := by
  have hnew := (Content.loaded_inserts (l := .start w.committed) hw qs).2
  have hpublish : Transaction.publish _ w.committed = _ :=
    Ledger.publish_inserts (.start w.committed) qs rfl
  unfold SingleWriter.extend
  rw [show (0, Transaction.start w.committed) =
      ((Ledger.start w.committed).inserted.length, (Ledger.start w.committed).tx) from rfl,
    Ledger.foldl_inserts (.start w.committed) qs, hnew]
  · dsimp only
    rw [hpublish]
    rfl
  · exact fun _ _ => rfl

/-- INSERT DATA that is permitted notes what is new and publishes what its insertions lead to. -/
theorem execute_insertData {env : Environment} (henv : env.Unhindered) {s : Session}
    (hs : s.content.Valid) (call : BatchCall) (user : Option User) (qs : List Quad) :
    ∃ s', s.execute env call [{ action := .insertData qs, user := user }] =
        (.ok [Step.answer env ((Ledger.start s.content).attemptAll (qs.map .insert))], s') ∧
      s'.content = ((Ledger.start s.content).attemptAll (qs.map .insert)).content := by
  let op : Operation := { action := .insertData qs, user := user }
  have hpatternless : op.action.Patternless := trivial
  refine exists_execute_patternless hpatternless hs henv.faultless ?_
  have hallowed : ∀ g ∈ (qs.map Quad.graph).eraseDups, env.policy .insertData g
      (user.getD (call.user.getD env.options.defaultUser)) = true := fun _ _ => henv.permits _ _ _
  obtain ⟨b, hchecks⟩ := Step.exists_ends_forM_check (fun _ => .insertData) id hallowed
    (Step.next (s.opened env.faults))
  obtain ⟨_, b', hinserts⟩ := (Step.handling_total henv.faultless).forM
    (Step.handling_total henv.faultless).insert qs b
  exact ⟨b', ends_bind.mpr ⟨(), b, hchecks, hinserts⟩⟩

/-- Adding a list of quads in bulk unites it with the content: it answers how many quads of the list
are new, by which the store has grown, and adding the list again answers that none is.  A store
with one writer comes to the same.  So does INSERT DATA of the list, where everything is permitted:
what it answers is counted here. -/
theorem extend_unites {s : Session} (hs : s.content.Reachable) (qs : List Quad) :
    let new := s.content.newAmong qs
    new.Nodup ∧ (∀ q, q ∈ new ↔ q ∈ qs ∧ q ∉ s.content.allQuads) ∧
      ∃ s', s.extend Faults.none qs = (.ok new.length, s') ∧ s.content.Loaded qs s'.content ∧
        (∃ s'', s'.extend Faults.none qs = (.ok 0, s'') ∧ s''.content = s'.content) ∧
        (∀ w : SingleWriter, w.committed = s.content →
          w.extend qs = (new.length, { w with committed := s'.content })) ∧
        ∀ (env : Environment) (call : BatchCall) (user : Option User), env.Unhindered →
          ∃ change t, s.execute env call [{ action := .insertData qs, user := user }] =
              (.ok [change], t) ∧ t.content = s'.content ∧
            (env.options.trackChanges = true → change = ⟨some [], some new⟩) := by
  intro new
  have hvalid : s.content.Valid := hs.valid
  obtain ⟨s', hextend, hcontent⟩ := extend_of_valid hvalid qs
  obtain ⟨hloaded, hinserted⟩ := Content.loaded_inserts (l := .start s.content) hvalid qs
  have hloaded' : s.content.Loaded qs s'.content := hcontent ▸ hloaded
  have hvalid' : s'.content.Valid := hcontent ▸ Ledger.valid_attemptAll hvalid _
  refine ⟨Content.nodup_newAmong _ qs, fun q => Content.mem_newAmong, s', hextend, hloaded',
    ?_, ?_, ?_⟩
  · obtain ⟨s'', hagain, hcontent'⟩ := extend_of_valid hvalid' qs
    have hnone := hloaded'.newAmong_eq_nil
    rw [hnone] at hagain
    have hagain' : s'.content.Loaded qs s''.content := by
      rw [hcontent']
      exact (Content.loaded_inserts (l := .start s'.content) hvalid' qs).1
    exact ⟨s'', hagain, hagain'.eq_of_newAmong_eq_nil hnone⟩
  · rintro w hw
    rw [singleWriter_extend_of_valid (hw ▸ hvalid), hw, hcontent]
  · intro env call user henv
    obtain ⟨t, hexecute, ht⟩ := execute_insertData henv hvalid call user qs
    refine ⟨_, t, hexecute, ht.trans hcontent.symm, fun htrack => ?_⟩
    have hdeleted : ((Ledger.start s.content).attemptAll (qs.map .insert)).deleted = [] :=
      Ledger.deleted_inserts
    rw [Step.answer, if_pos htrack, hdeleted, hinserted]
    rfl

/-- Of four quads one is held, and one comes twice. -/
theorem extend_unites_repeated :
    let t (o : String) : Triple := ⟨.iri ⟨"s"⟩, ⟨"p"⟩, .iri ⟨o⟩⟩
    let g : Resource := .iri ⟨"g"⟩
    let c : Content := { triples := [t "a"], graphs := [g] }
    let s : Session := { content := c }
    let q : Quad := (t "a").inGraph (.named g)
    let qs : List Quad := [(t "a").inGraph .default, q, (t "b").inGraph .default, q]
    c.Reachable ∧ ∃ s', s.extend Faults.none qs = (.ok 2, s') ∧
      s'.content = { triples := [t "a", t "b"], quads := [q], graphs := [g] } ∧
      ∃ u, s.execute {} {} [{ action := .insertData qs }] =
          (.ok [⟨some [], some [q, (t "b").inGraph .default]⟩], u) ∧ u.content = s'.content := by
  intro t g c s q qs
  have hreachable : c.Reachable :=
    .transaction .empty (show (TransactionStep.runAll (.start .empty)
      [.addToDefault (t "a"), .insertGraph g]).publish .empty = some c by decide +kernel)
  have hs : s.content.Reachable := hreachable
  obtain ⟨-, -, s', hextend, hloaded, -, -, hexecute⟩ := extend_unites hs qs
  have hnew : s.content.newAmong qs = [q, (t "b").inGraph .default] := by decide +kernel
  obtain ⟨change, u, hchange, hu, hanswer⟩ := hexecute {} {} none ⟨fun _ _ _ => rfl, fun _ _ => rfl⟩
  rw [hnew] at hextend hanswer
  rw [hanswer rfl] at hchange
  refine ⟨hreachable, s', hextend, ?_, u, hchange, hu⟩
  show Content.mk s'.content.triples s'.content.quads s'.content.graphs = _
  rw [hloaded.triples_eq, hloaded.quads_eq, hloaded.graphs_eq, hnew]
  decide +kernel

end Session

end GraphStore
