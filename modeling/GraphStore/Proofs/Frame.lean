/-
# `GraphStore.Proofs.Frame` — what writes leave alone

Every write is about one graph.

    write        insert q      remove q      register r    unregister r
    is about     graph of q    graph of q    r             r

`c.SameAt g c'` says that a graph is in both contents the same: its quads and their order,
whether it was created, and whether it exists.  Writes about other graphs leave it so, one
(`sameAt_apply`) and many (`Ledger.sameAt_attemptAll`).

A named graph exists because it was created or because it holds quads (`Content.has_iff_within`);
removing the last quad of a graph that was never created removes the graph.
-/
import GraphStore.Proofs.Repetitions
import GraphStore.Proofs.Steps

namespace GraphStore

/-- The graph that the write is about. -/
def Write.about : Write → GraphName
  | .insert q | .remove q => q.graph
  | .register r | .unregister r => .named r

namespace Content

/-- The graph exists; the default graph always does. -/
def Has (c : Content) : GraphName → Prop
  | .default => True
  | .named r => c.containsGraph r = true

/-- The graph was created, and not removed since. -/
def Registered (c : Content) : GraphName → Prop
  | .default => False
  | .named r => r ∈ c.graphs

instance (c : Content) (g : GraphName) : Decidable (c.Has g) := by
  cases g <;> unfold Has <;> infer_instance

instance (c : Content) (g : GraphName) : Decidable (c.Registered g) := by
  cases g <;> unfold Registered <;> infer_instance

/-- The graph is the same in both contents: its quads, in their order, whether it was created, and
whether it exists. -/
structure SameAt (g : GraphName) (c c' : Content) : Prop where
  within_eq : c'.within g = c.within g
  registered_iff : c'.Registered g ↔ c.Registered g
  has_iff : c'.Has g ↔ c.Has g

variable {c c' c'' : Content} {g : GraphName}

theorem mem_namedGraphs {r : Resource} :
    r ∈ c.namedGraphs ↔ r ∈ c.graphs ∨ ∃ q ∈ c.quads, q.graph = .named r := by
  have hresource : ∀ n : GraphName, n.resource? = some r ↔ n = .named r := by
    intro n
    cases n <;> simp [GraphName.resource?]
  unfold namedGraphs
  rw [mem_addMissing, List.mem_filterMap]
  simp only [hresource]

theorem containsGraph_iff_mem {r : Resource} : c.containsGraph r = true ↔ r ∈ c.namedGraphs := by
  rw [mem_namedGraphs]
  unfold containsGraph
  simp

theorem containsGraph_iff {r : Resource} : c.containsGraph r = true ↔
    r ∈ c.graphs ∨ ∃ q, q.graph = .named r ∧ c.lists.Holds q := by
  rw [containsGraph_iff_mem, mem_namedGraphs]
  refine or_congr Iff.rfl (exists_congr fun q => ?_)
  rw [← mem_within, within_named, List.mem_filter, beq_iff_eq]

/-- A graph exists if it is the default graph, if it was created or if it holds quads. -/
theorem has_iff_within : c.Has g ↔ g = .default ∨ c.Registered g ∨ c.within g ≠ [] := by
  cases g with
  | default => exact iff_of_true trivial (.inl rfl)
  | named r =>
      refine containsGraph_iff.trans ?_
      simp only [← mem_within, ne_eq, List.eq_nil_iff_forall_not_mem, not_forall, not_not,
        reduceCtorEq, false_or]
      exact Iff.rfl

theorem has_of_holds {q : Quad} (h : c.lists.Holds q) : c.Has q.graph :=
  has_iff_within.mpr (.inr (.inr (List.ne_nil_of_mem (mem_within.mpr ⟨rfl, h⟩))))

theorem SameAt.of_within (hwithin : c'.within g = c.within g)
    (hregistered : c'.Registered g ↔ c.Registered g) : c.SameAt g c' := by
  refine ⟨hwithin, hregistered, has_iff_within.trans (Iff.trans ?_ has_iff_within.symm)⟩
  rw [hwithin, hregistered]

theorem SameAt.refl (g : GraphName) (c : Content) : c.SameAt g c := ⟨rfl, Iff.rfl, Iff.rfl⟩

theorem SameAt.trans (h : c.SameAt g c') (h' : c'.SameAt g c'') : c.SameAt g c'' where
  within_eq := h'.within_eq.trans h.within_eq
  registered_iff := h'.registered_iff.trans h.registered_iff
  has_iff := h'.has_iff.trans h.has_iff

theorem SameAt.holds_iff {q : Quad} (h : c.SameAt q.graph c') :
    c'.lists.Holds q ↔ c.lists.Holds q := by
  have hmem := congrArg (q ∈ ·) h.within_eq
  simpa [mem_within] using hmem

/-- The quads of a graph do not depend on the lists of the created graphs. -/
theorem within_of_lists (h : c'.lists = c.lists) : c'.within g = c.within g := by
  obtain ⟨htriples, hquads⟩ := QuadLists.mk.inj h
  cases g with
  | default => rw [within_default, within_default, htriples]
  | named r => rw [within_named, within_named, hquads]

theorem within_insert_of_ne {q : Quad} (h : q.graph ≠ g) :
    ((Write.insert q).apply c).within g = c.within g := by
  cases hq : q.graph with
  | default =>
      cases g with
      | default => exact absurd hq h
      | named r => simp [within_named, Write.apply, withLists, QuadLists.append, hq, lists]
  | named r' =>
      cases g with
      | default => simp [within_default, Write.apply, withLists, QuadLists.append, hq, lists]
      | named r =>
          have hne : r' ≠ r := fun heq => h (hq.trans (congrArg GraphName.named heq))
          simp [within_named, Write.apply, withLists, QuadLists.append, hq, lists, hne]

theorem within_remove_of_ne {q : Quad} (h : q.graph ≠ g) :
    ((Write.remove q).apply c).within g = c.within g := by
  cases hq : q.graph with
  | default =>
      cases g with
      | default => exact absurd hq h
      | named r => simp [within_named, Write.apply, withLists, QuadLists.erase, hq, lists]
  | named r' =>
      cases g with
      | default => simp [within_default, Write.apply, withLists, QuadLists.erase, hq, lists]
      | named r =>
          have hnot : q ∉ c.quads.filter (·.graph == .named r) := by
            rw [List.mem_filter, beq_iff_eq]
            exact fun hmem => h hmem.2
          simp only [within_named, Write.apply, withLists, QuadLists.erase, hq, lists]
          rw [← List.erase_filter, List.erase_of_not_mem hnot]

/-- A write leaves every graph alone that it is not about. -/
theorem sameAt_apply {w : Write} (h : w.about ≠ g) : c.SameAt g (w.apply c) := by
  cases w with
  | insert q => exact .of_within (within_insert_of_ne h) (by cases g <;> exact Iff.rfl)
  | remove q => exact .of_within (within_remove_of_ne h) (by cases g <;> exact Iff.rfl)
  | register r =>
      refine .of_within (within_of_lists rfl) ?_
      cases g with
      | default => exact Iff.rfl
      | named r' =>
          have hne : r' ≠ r := fun heq => h (congrArg GraphName.named heq.symm)
          show r' ∈ c.graphs ++ [r] ↔ _
          rw [List.mem_append, List.mem_singleton]
          exact or_iff_left hne
  | unregister r =>
      refine .of_within (within_of_lists rfl) ?_
      cases g with
      | default => exact Iff.rfl
      | named r' =>
          have hne : r' ≠ r := fun heq => h (congrArg GraphName.named heq.symm)
          exact List.mem_erase_of_ne hne

end Content

namespace Ledger

variable {l : Ledger} {w : Write} {ws : List Write} {g : GraphName}

theorem sameAt_attempt (h : w.about ≠ g) : l.content.SameAt g (l.attempt w).content := by
  unfold attempt
  split
  · exact Content.sameAt_apply h
  · exact .refl g l.content

/-- Attempts leave every graph alone that none of them is about. -/
theorem sameAt_attemptAll (h : ∀ w ∈ ws, w.about ≠ g) :
    l.content.SameAt g (l.attemptAll ws).content := by
  induction ws generalizing l with
  | nil => exact .refl g l.content
  | cons w ws ih =>
      obtain ⟨hw, hws⟩ := List.forall_mem_cons.mp h
      exact (sameAt_attempt hw).trans (ih hws)

end Ledger

end GraphStore
