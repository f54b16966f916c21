/-
# `GraphStore.Proofs.Ledger` — operations as lists of elementary writes

Ten kinds of operation change a content along several paths, and each path ends
in one of four elementary writes: a quad is added, a quad is taken out, a graph
is registered, a registration is forgotten.  `Write` is the type of these four,
and everything an operation does to the store is a list of them.

A `Ledger` is the part of an open batch that writes act on: the working content,
the log that a commit replays, and the quads the running operation has noted as
deleted and inserted.  `l.Wrote ws l'` says that the writes `ws` lead from `l` to
`l'`, each with an effect when its turn comes, and that no quad is taken out after
the same operation has put it in.  This last condition is what makes the two noted
lists a faithful account: they forget in which order deletions and insertions were
mixed, and a MOVE deletes after it has inserted.

What follows from `Wrote`, once for all operations:

* `Wrote.content_eq` — the content is the old one with the writes applied;
* `Wrote.deleted_eq`, `Wrote.inserted_eq` — the noted lists are those of the writes;
* `Wrote.replay` — the log entries replay to the working content;
* `Wrote.valid` — a valid content stays valid;
* `Wrote.accounts` — the noted lists alone account for the two lists of quads,
  order included, and list nothing twice and nothing that was not a change.
-/
import Mathlib.Data.List.Nodup
import GraphStore.Execution
import GraphStore.Proofs.Publication

namespace GraphStore

/-! ## The two lists of quads -/

/-- The lists that hold the quads of a content: the triples of the default graph, and the quads of
the named graphs. -/
structure QuadLists where
  triples : List Triple
  quads : List Quad
deriving DecidableEq

/-- The lists of a content. -/
def Content.lists (c : Content) : QuadLists := ⟨c.triples, c.quads⟩

namespace QuadLists

/-- The list that the graph of the quad belongs to holds it. -/
def Holds (l : QuadLists) (q : Quad) : Prop :=
  match q.graph with
  | .default => q.triple ∈ l.triples
  | .named _ => q ∈ l.quads

instance (l : QuadLists) (q : Quad) : Decidable (l.Holds q) := by
  unfold Holds
  split <;> infer_instance

/-- Appends the quad to the list of its graph. -/
def append (l : QuadLists) (q : Quad) : QuadLists :=
  match q.graph with
  | .default => { l with triples := l.triples ++ [q.triple] }
  | .named _ => { l with quads := l.quads ++ [q] }

/-- Erases the quad from the list of its graph. -/
def erase (l : QuadLists) (q : Quad) : QuadLists :=
  match q.graph with
  | .default => { l with triples := l.triples.erase q.triple }
  | .named _ => { l with quads := l.quads.erase q }

/-- Neither list holds anything twice. -/
structure Nodup (l : QuadLists) : Prop where
  triples : l.triples.Nodup
  quads : l.quads.Nodup

/-- Erases all quads of the first list, then appends all quads of the second. -/
def revise (l : QuadLists) (deleted inserted : List Quad) : QuadLists :=
  inserted.foldl append (deleted.foldl erase l)

variable {l : QuadLists} {q x : Quad}

theorem eq_of_triple_eq (ht : q.triple = x.triple) (hg : q.graph = x.graph) : q = x := by
  rw [← q.triple_inGraph_graph, ← x.triple_inGraph_graph, ht, hg]

theorem holds_append : (l.append x).Holds q ↔ l.Holds q ∨ q = x := by
  unfold Holds append
  cases hx : x.graph <;> cases hq : q.graph
  · have h : q.triple = x.triple ↔ q = x :=
      ⟨fun ht => eq_of_triple_eq ht (hq.trans hx.symm), fun h => h ▸ rfl⟩
    simp [h]
  · have h : q ≠ x := fun h => by simp [h, hx] at hq
    simp [h]
  · have h : q ≠ x := fun h => by simp [h, hx] at hq
    simp [h]
  · simp

theorem holds_erase (hl : l.Nodup) : (l.erase x).Holds q ↔ l.Holds q ∧ q ≠ x := by
  unfold Holds erase
  cases hx : x.graph <;> cases hq : q.graph
  · have h : q.triple = x.triple ↔ q = x :=
      ⟨fun ht => eq_of_triple_eq ht (hq.trans hx.symm), fun h => h ▸ rfl⟩
    simp [hl.triples.mem_erase_iff, h, and_comm]
  · have h : q ≠ x := fun h => by simp [h, hx] at hq
    simp [h]
  · have h : q ≠ x := fun h => by simp [h, hx] at hq
    simp [h]
  · simp [hl.quads.mem_erase_iff, and_comm]

theorem Nodup.erase (hl : l.Nodup) (x : Quad) : (l.erase x).Nodup := by
  unfold QuadLists.erase
  cases x.graph with
  | default => exact ⟨hl.triples.erase _, hl.quads⟩
  | named g => exact ⟨hl.triples, hl.quads.erase _⟩

theorem nodup_concat {α : Type} {xs : List α} {a : α} (hxs : xs.Nodup) (ha : a ∉ xs) :
    (xs ++ [a]).Nodup := by
  rw [← List.concat_eq_append]
  exact List.Nodup.concat ha hxs

theorem Nodup.append (hl : l.Nodup) (h : ¬ l.Holds x) : (l.append x).Nodup := by
  unfold Holds at h
  unfold QuadLists.append
  cases hx : x.graph with
  | default =>
      rw [hx] at h
      exact ⟨nodup_concat hl.triples h, hl.quads⟩
  | named g =>
      rw [hx] at h
      exact ⟨hl.triples, nodup_concat hl.quads h⟩

theorem erase_concat {α : Type} [DecidableEq α] {a b : α} (h : a ≠ b) (xs : List α) :
    (xs ++ [b]).erase a = xs.erase a ++ [b] := by
  by_cases ha : a ∈ xs
  · exact List.erase_append_left _ ha
  · rw [List.erase_append_right _ ha, List.erase_of_not_mem ha, List.erase_of_not_mem]
    simpa using h

/-- Different quads are appended and erased independently of each other. -/
theorem erase_append (h : q ≠ x) : (l.append x).erase q = (l.erase q).append x := by
  unfold append erase
  cases hx : x.graph <;> cases hq : q.graph
  · have ht : q.triple ≠ x.triple := fun ht => h (eq_of_triple_eq ht (hq.trans hx.symm))
    simp [erase_concat ht]
  · simp
  · simp
  · simp [erase_concat h]

theorem erase_foldl_append {qs : List Quad} (h : q ∉ qs) (l : QuadLists) :
    (qs.foldl append l).erase q = qs.foldl append (l.erase q) := by
  induction qs generalizing l with
  | nil => rfl
  | cons x qs ih =>
      simp only [List.mem_cons, not_or] at h
      simp only [List.foldl_cons]
      rw [ih h.2, erase_append h.1]

theorem holds_foldl_append {qs : List Quad} :
    (qs.foldl append l).Holds q ↔ l.Holds q ∨ q ∈ qs := by
  induction qs generalizing l with
  | nil => simp
  | cons x qs ih => simp only [List.foldl_cons, ih, holds_append, List.mem_cons, or_assoc]

theorem holds_foldl_erase {qs : List Quad} (hl : l.Nodup) :
    (qs.foldl erase l).Holds q ↔ l.Holds q ∧ q ∉ qs := by
  induction qs generalizing l with
  | nil => simp
  | cons x qs ih =>
      simp only [List.foldl_cons, ih (hl.erase x), holds_erase hl, List.mem_cons, not_or, and_assoc]

end QuadLists

/-! ## Elementary writes -/

/-- The content with other lists of quads. -/
def Content.withLists (c : Content) (l : QuadLists) : Content :=
  { c with triples := l.triples, quads := l.quads }

/-- An elementary change of a content. -/
inductive Write where
  | insert (q : Quad)
  | remove (q : Quad)
  | register (g : Resource)
  | unregister (g : Resource)
deriving DecidableEq

namespace Write

/-- The content after the write. -/
def apply (c : Content) : Write → Content
  | .insert q => c.withLists (c.lists.append q)
  | .remove q => c.withLists (c.lists.erase q)
  | .register g => { c with graphs := c.graphs ++ [g] }
  | .unregister g => { c with graphs := c.graphs.erase g }

/-- The write changes something. -/
def Effective (c : Content) : Write → Prop
  | .insert q => ¬ c.lists.Holds q
  | .remove q => c.lists.Holds q
  | .register g => c.containsGraph g = false
  | .unregister g => g ∈ c.graphs

instance (c : Content) (w : Write) : Decidable (w.Effective c) := by
  cases w <;> unfold Effective <;> infer_instance

/-- The entry of the log. -/
def edit : Write → Edit
  | .insert q => match q.graph with
    | .default => .addedTriple q.triple
    | .named _ => .addedQuad q
  | .remove q => match q.graph with
    | .default => .removedTriple q.triple
    | .named _ => .removedQuad q
  | .register g => .registered g
  | .unregister g => .unregistered g

/-- The quad that the write takes out. -/
def removed : Write → List Quad
  | .remove q => [q]
  | _ => []

/-- The quad that the write adds. -/
def added : Write → List Quad
  | .insert q => [q]
  | _ => []

/-- The log entry has an effect exactly when the write has, and then the same. -/
theorem apply_edit (c : Content) (w : Write) :
    Edit.apply c w.edit = if w.Effective c then some (w.apply c) else none := by
  cases w with
  | insert q =>
      unfold edit Effective apply QuadLists.Holds QuadLists.append
      cases hq : q.graph with
      | default => by_cases h : q.triple ∈ c.triples <;>
          simp [hq, Edit.apply, Content.addTriple, Content.lists, Content.withLists, h]
      | named g => by_cases h : q ∈ c.quads <;>
          simp [hq, Edit.apply, Content.addQuad, Content.lists, Content.withLists, h]
  | remove q =>
      unfold edit Effective apply QuadLists.Holds QuadLists.erase
      cases hq : q.graph with
      | default => by_cases h : q.triple ∈ c.triples <;>
          simp [hq, Edit.apply, Content.removeTriple, Content.lists, Content.withLists, h]
      | named g => by_cases h : q ∈ c.quads <;>
          simp [hq, Edit.apply, Content.removeQuad, Content.lists, Content.withLists, h]
  | register g =>
      show (if c.containsGraph g then none else _) = if c.containsGraph g = false then _ else _
      cases c.containsGraph g <;> rfl
  | unregister g => rfl

/-- An effective write of a valid content leaves a valid content. -/
theorem valid_apply {c : Content} (hc : c.Valid) {w : Write} (hw : w.Effective c) :
    (w.apply c).Valid := by
  have hl : c.lists.Nodup := ⟨hc.nodup_triples, hc.nodup_quads⟩
  cases w with
  | insert q =>
      have hl' := hl.append hw
      refine ⟨hl'.triples, hl'.quads, ?_, hc.nodup_graphs⟩
      intro x hx
      replace hx : x ∈ (c.lists.append q).quads := hx
      unfold QuadLists.append at hx
      cases hq : q.graph with
      | default =>
          rw [hq] at hx
          exact hc.quads_named x hx
      | named g =>
          rw [hq] at hx
          rcases List.mem_append.mp hx with hx | hx
          · exact hc.quads_named x hx
          · rw [List.mem_singleton.mp hx, hq]
            exact GraphName.noConfusion
  | remove q =>
      have hl' := hl.erase q
      refine ⟨hl'.triples, hl'.quads, ?_, hc.nodup_graphs⟩
      intro x hx
      replace hx : x ∈ (c.lists.erase q).quads := hx
      unfold QuadLists.erase at hx
      cases hq : q.graph with
      | default =>
          rw [hq] at hx
          exact hc.quads_named x hx
      | named g =>
          rw [hq] at hx
          exact hc.quads_named x (List.mem_of_mem_erase hx)
  | register g =>
      refine ⟨hc.nodup_triples, hc.nodup_quads, hc.quads_named, ?_⟩
      refine QuadLists.nodup_concat hc.nodup_graphs fun hg => ?_
      have : c.containsGraph g = true := by simp [Content.containsGraph, hg]
      rw [show c.containsGraph g = false from hw] at this
      exact Bool.noConfusion this
  | unregister g =>
      exact ⟨hc.nodup_triples, hc.nodup_quads, hc.quads_named, hc.nodup_graphs.erase g⟩

end Write

namespace Transaction

variable {tx : Transaction} {w : Write}

theorem edit_of_effective (hw : w.Effective tx.content) :
    tx.edit w.edit = (true, ⟨w.apply tx.content, tx.log ++ [w.edit]⟩) := by
  rw [edit, w.apply_edit, if_pos hw]
  rfl

theorem edit_of_not_effective (hw : ¬ w.Effective tx.content) : tx.edit w.edit = (false, tx) := by
  rw [edit, w.apply_edit, if_neg hw]
  rfl

end Transaction

/-! ## Ledgers -/

/-- What the writes of an operation act on. -/
structure Ledger where
  content : Content
  log : List Edit
  deleted : List Quad
  inserted : List Quad

/-- The ledger of an open batch. -/
def Batch.ledger (b : Batch) : Ledger := ⟨b.tx.content, b.tx.log, b.deleted, b.inserted⟩

namespace Ledger

/-- The ledger after one more write. -/
def write (l : Ledger) (w : Write) : Ledger :=
  ⟨w.apply l.content, l.log ++ [w.edit], l.deleted ++ w.removed, l.inserted ++ w.added⟩

/-- The writes lead from one ledger to the other: each has an effect when its turn comes, and
takes out nothing that was put in before. -/
inductive Wrote : Ledger → List Write → Ledger → Prop
  | nil (l : Ledger) : Wrote l [] l
  | cons {l l' : Ledger} {w : Write} {ws : List Write} :
      w.Effective l.content → (∀ q ∈ w.removed, q ∉ l.inserted) →
      Wrote (l.write w) ws l' → Wrote l (w :: ws) l'

variable {l l' l'' : Ledger} {ws ws' : List Write}

theorem Wrote.one {w : Write} (he : w.Effective l.content)
    (hf : ∀ q ∈ w.removed, q ∉ l.inserted) : Wrote l [w] (l.write w) :=
  .cons he hf (.nil _)

theorem Wrote.append (h : Wrote l ws l') (h' : Wrote l' ws' l'') : Wrote l (ws ++ ws') l'' := by
  induction h with
  | nil _ => exact h'
  | cons he hf _ ih => exact .cons he hf (ih h')

theorem Wrote.content_eq (h : Wrote l ws l') : l'.content = ws.foldl Write.apply l.content := by
  induction h with
  | nil _ => rfl
  | cons _ _ _ ih => exact ih

theorem Wrote.deleted_eq (h : Wrote l ws l') :
    l'.deleted = l.deleted ++ ws.flatMap Write.removed := by
  induction h with
  | nil _ => simp
  | cons _ _ _ ih => simp [ih, write]

theorem Wrote.inserted_eq (h : Wrote l ws l') :
    l'.inserted = l.inserted ++ ws.flatMap Write.added := by
  induction h with
  | nil _ => simp
  | cons _ _ _ ih => simp [ih, write]

/-- The entries that the writes leave in the log make the same change again. -/
theorem Wrote.replay (h : Wrote l ws l') :
    ∃ es, l'.log = l.log ++ es ∧ Edit.replay l.content es = some l'.content := by
  induction h with
  | nil l => exact ⟨[], by simp, rfl⟩
  | @cons l _ w _ he _ _ ih =>
      obtain ⟨es, hlog, hes⟩ := ih
      refine ⟨w.edit :: es, by simp [hlog, write], ?_⟩
      rw [Edit.replay_cons, w.apply_edit, if_pos he]
      exact hes

theorem Wrote.valid (h : Wrote l ws l') (hl : l.content.Valid) : l'.content.Valid := by
  induction h with
  | nil _ => exact hl
  | cons he _ _ ih => exact ih (Write.valid_apply hl he)

/-! ## What the noted lists say

`l.Accounts start` is the invariant of an operation that began on the lists
`start`.  It holds before the first write, when nothing is noted, and every write
keeps it: a deletion finds its quad among the old ones, because it was not put in
by this operation, and so commutes with the insertions already made. -/

/-- The noted quads account for the change of the lists `start`: they list every change once, and
nothing else. -/
structure Accounts (start : QuadLists) (l : Ledger) : Prop where
  lists_eq : l.content.lists = start.revise l.deleted l.inserted
  deleted_nodup : l.deleted.Nodup
  deleted_held : ∀ q ∈ l.deleted, start.Holds q
  inserted_nodup : l.inserted.Nodup
  inserted_absent : ∀ q ∈ l.inserted, ¬ (l.deleted.foldl QuadLists.erase start).Holds q

theorem accounts_start (hd : l.deleted = []) (hi : l.inserted = []) :
    l.Accounts l.content.lists := by
  constructor <;> simp [hd, hi, QuadLists.revise]

theorem Accounts.insert {start : QuadLists} (h : l.Accounts start) {q : Quad}
    (hq : ¬ l.content.lists.Holds q) : (l.write (.insert q)).Accounts start := by
  rw [h.lists_eq, QuadLists.revise, QuadLists.holds_foldl_append, not_or] at hq
  constructor
  · show l.content.lists.append q = start.revise (l.deleted ++ []) (l.inserted ++ [q])
    simp [h.lists_eq, QuadLists.revise]
  · simpa [write, Write.removed] using h.deleted_nodup
  · simpa [write, Write.removed] using h.deleted_held
  · exact QuadLists.nodup_concat h.inserted_nodup hq.2
  · intro x hx
    simp only [write, Write.removed, List.append_nil]
    rcases List.mem_append.mp hx with hx | hx
    · exact h.inserted_absent x hx
    · rw [List.mem_singleton.mp hx]
      exact hq.1

theorem Accounts.remove {start : QuadLists} (hs : start.Nodup) (h : l.Accounts start) {q : Quad}
    (hq : l.content.lists.Holds q) (hfresh : q ∉ l.inserted) :
    (l.write (.remove q)).Accounts start := by
  rw [h.lists_eq, QuadLists.revise, QuadLists.holds_foldl_append, QuadLists.holds_foldl_erase hs]
    at hq
  have hold : start.Holds q ∧ q ∉ l.deleted := hq.resolve_right hfresh
  constructor
  · show l.content.lists.erase q = start.revise (l.deleted ++ [q]) (l.inserted ++ [])
    simp [h.lists_eq, QuadLists.revise, QuadLists.erase_foldl_append hfresh]
  · exact QuadLists.nodup_concat h.deleted_nodup hold.2
  · intro x hx
    rcases List.mem_append.mp hx with hx | hx
    · exact h.deleted_held x hx
    · rw [List.mem_singleton.mp hx]
      exact hold.1
  · simpa [write, Write.added] using h.inserted_nodup
  · intro x hx
    have hx' : x ∈ l.inserted := by simpa [write, Write.added] using hx
    have habs := h.inserted_absent x hx'
    rw [QuadLists.holds_foldl_erase hs] at habs ⊢
    rintro ⟨hstart, hdel⟩
    exact habs ⟨hstart, fun hd => hdel (List.mem_append_left _ hd)⟩

/-- A write that is no quad leaves the account as it was. -/
theorem Accounts.of_graphs {start : QuadLists} (h : l.Accounts start)
    (hlists : l'.content.lists = l.content.lists) (hd : l'.deleted = l.deleted)
    (hi : l'.inserted = l.inserted) : l'.Accounts start := by
  obtain ⟨h₁, h₂, h₃, h₄, h₅⟩ := h
  constructor <;> simpa [hlists, hd, hi]

theorem Wrote.accounts {start : QuadLists} (hs : start.Nodup) (h : Wrote l ws l')
    (hl : l.Accounts start) : l'.Accounts start := by
  induction h with
  | nil _ => exact hl
  | @cons l _ w _ he hf _ ih =>
      refine ih ?_
      cases w with
      | insert q => exact hl.insert he
      | remove q => exact hl.remove hs he (hf q (by simp [Write.removed]))
      | register g => exact hl.of_graphs rfl (List.append_nil _) (List.append_nil _)
      | unregister g => exact hl.of_graphs rfl (List.append_nil _) (List.append_nil _)

end Ledger

end GraphStore
