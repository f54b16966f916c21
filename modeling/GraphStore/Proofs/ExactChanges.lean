/-
# `GraphStore.Proofs.ExactChanges` — what operations answer is exactly what changed

`before.Differs after deleted inserted` says that two lists of quads account for the
difference of two contents, order included: erase the deleted quads one after the
other, append the inserted ones, and the second content's lists are there.  Nothing
is listed that was not a change, nothing twice, and nothing changed that is not
listed (`held_iff`).

`execute_exact_changes` states this of every operation of a batch and, folded over
the answers, of the batch.  The step is `Ledger.Reaches.differs`; it needs that the
lists hold nothing twice, which is where reachable contents come in.
-/
import Mathlib.Data.List.Induction
import GraphStore.Proofs.Reachable

namespace GraphStore

/-- The two lists of quads are the difference of the lists `before` and `after`. -/
structure QuadLists.Differs (before after : QuadLists) (deleted inserted : List Quad) : Prop where
  lists_eq : after = before.revise deleted inserted
  deleted_nodup : deleted.Nodup
  deleted_held : ∀ q ∈ deleted, before.Holds q
  inserted_nodup : inserted.Nodup
  inserted_absent : ∀ q ∈ inserted, ¬ (deleted.foldl QuadLists.erase before).Holds q
  held_iff : ∀ q, after.Holds q ↔ (before.Holds q ∧ q ∉ deleted) ∨ q ∈ inserted

/-- The lists after the change: the deleted quads are erased, then the inserted ones appended. -/
def Change.replay (l : QuadLists) (c : Change) : QuadLists :=
  l.revise (c.deleted.getD []) (c.inserted.getD [])

theorem Content.Valid.nodup_lists {c : Content} (hc : c.Valid) : c.lists.Nodup :=
  ⟨hc.nodup_triples, hc.nodup_quads⟩

/-- The quads that an operation has noted are the difference it has made. -/
theorem Ledger.Reaches.differs {may : Write → Prop} {l l' : Ledger} (hl : l.content.lists.Nodup)
    (h : l.fresh.Reaches may l') :
    l.content.lists.Differs l'.content.lists l'.deleted l'.inserted := by
  obtain ⟨ws, hws, -⟩ := h
  have hstart : l.fresh.Accounts l.fresh.content.lists := Ledger.accounts_start rfl rfl
  have haccounts := hws.accounts hl hstart
  refine ⟨haccounts.lists_eq, haccounts.deleted_nodup, haccounts.deleted_held,
    haccounts.inserted_nodup, haccounts.inserted_absent, fun q => ?_⟩
  rw [haccounts.lists_eq, QuadLists.revise, QuadLists.holds_foldl_append,
    QuadLists.holds_foldl_erase hl]

namespace Session

variable {s s' : Session} {env : Environment} {call : BatchCall} {ops : List Operation}
  {changes : List Change} {b : Batch}

theorem answer_tracked (htracked : env.options.trackChanges = true) (l : Ledger) :
    Step.answer env l = ⟨some l.deleted, some l.inserted⟩ := by
  rw [Step.answer, if_pos htracked]

/-- The answers so far, replayed on the committed lists, give the lists that the batch works on. -/
theorem progress_replay (hs : s.content.Valid) (hlooks : env.evaluator.Looks)
    (htracked : env.options.trackChanges = true)
    (h : s.progress env call ops = (.ok changes, b)) :
    b.tx.content.lists = changes.foldl Change.replay s.content.lists := by
  induction ops using List.reverseRecOn generalizing changes b with
  | nil =>
      obtain ⟨rfl, rfl⟩ := Step.ends_operations_nil.mp h
      rfl
  | append_singleton ops op ih =>
      obtain ⟨before, b₁, change, rfl, hbefore, rfl, hreach⟩ := progress_concat hlooks h
      have hvalid := progress_valid hlooks hs hbefore
      have hdiffers := hreach.differs hvalid.nodup_lists
      rw [List.foldl_append, ← ih hbefore, answer_tracked htracked]
      exact hdiffers.lists_eq

/-- A batch that succeeds with its changes tracked answers the exact difference that every
operation has made, and replaying the answers in order makes the difference of the whole batch. -/
theorem execute_exact_changes (hs : s.content.Reachable) (hlooks : env.evaluator.Looks)
    (htracked : env.options.trackChanges = true)
    (h : s.execute env call ops = (.ok changes, s')) :
    changes.length = ops.length ∧
      s'.content.lists = changes.foldl Change.replay s.content.lists ∧
      ∀ k (hk : k < changes.length), ∃ b b' deleted inserted,
        s.progress env call (ops.take k) = (.ok (changes.take k), b) ∧
        s.progress env call (ops.take (k + 1)) = (.ok (changes.take (k + 1)), b') ∧
        b.tx.content.lists = (changes.take k).foldl Change.replay s.content.lists ∧
        changes[k] = ⟨some deleted, some inserted⟩ ∧
        b.tx.content.lists.Differs b'.tx.content.lists deleted inserted := by
  obtain ⟨b, hprogress, hcontent⟩ := execute_eq_ok hlooks h
  have hlength := length_of_progress hprogress
  refine ⟨hlength, ?_, fun k hk => ?_⟩
  · rw [hcontent]
    exact progress_replay hs.valid hlooks htracked hprogress
  · have hk' : k < ops.length := hlength ▸ hk
    obtain ⟨b', hprogress'⟩ := progress_take hprogress (Nat.succ_le_of_lt hk')
    have hconcat := hprogress'
    rw [List.take_succ_eq_append_getElem hk'] at hconcat
    obtain ⟨before, b₁, change, hchanges, hbefore, rfl, hreach⟩ := progress_concat hlooks hconcat
    rw [List.take_succ_eq_append_getElem hk] at hchanges
    obtain ⟨rfl, hchange⟩ := List.append_inj' hchanges rfl
    refine ⟨b₁, b', b'.deleted, b'.inserted, hbefore, hprogress', ?_, ?_, ?_⟩
    · exact progress_replay hs.valid hlooks htracked hbefore
    · rw [List.cons.inj hchange |>.1, answer_tracked htracked]
      rfl
    · exact hreach.differs (progress_valid hlooks hs.valid hbefore).nodup_lists

/-- A triple is added to the default graph, and the default graph is moved. -/
def addThenMove (t : Triple) (g : Resource) : List Operation :=
  [{ action := .insertData [t.inGraph .default] },
   { action := .graph (.transfer .move .default (.named g) false) }]

/-- MOVE answers the quad it takes out of its source as well as the one it puts in. -/
theorem execute_exact_changes_addThenMove :
    let t : Triple := ⟨.iri ⟨"s"⟩, ⟨"p"⟩, .iri ⟨"o"⟩⟩
    let g : Resource := .iri ⟨"g"⟩
    ∃ changes s', Session.execute {} {} {} (addThenMove t g) = (.ok changes, s') ∧
      changes = [⟨some [], some [t.inGraph .default]⟩,
        ⟨some [t.inGraph .default], some [t.inGraph (.named g)]⟩] ∧
      s'.content.lists = changes.foldl Change.replay ⟨[], []⟩ := by
  intro t g
  have hok := eq_ok_of_toOption (r := Session.execute {} {} {} (addThenMove t g))
    (a := [⟨some [], some [t.inGraph .default]⟩,
      ⟨some [t.inGraph .default], some [t.inGraph (.named g)]⟩]) (by decide +kernel)
  exact ⟨_, _, hok, rfl,
    (execute_exact_changes .empty Evaluator.looks_scanning rfl hok).2.1⟩

end Session

end GraphStore
