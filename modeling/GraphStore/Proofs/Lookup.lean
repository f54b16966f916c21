/-
# `GraphStore.Proofs.Lookup` — lookups find the triples of the dataset, each once

`c.view scope` is the content seen through a USING list, as the evaluator reads it;
`c.dataset scope` is the same as a value.  A lookup in the first finds exactly the
triples of the second that the filter accepts (`mem_found`).  Contents hold nothing
twice, and the merge of several graphs drops repetitions, so nothing is found twice
(`nodup_found`).  The list of named graphs enumerates the names (`namedGraphs_view`).
-/
import GraphStore.Proofs.Meaning
import GraphStore.Proofs.Repetitions

namespace GraphStore

namespace Content

/-! ## One graph -/

/-- The quads of a graph that a filter accepts. -/
def lookup (c : Content) : GraphName → TripleFilter → List Quad
  | .default, f => c.findDefault f
  | .named g, f => c.findNamed g f

variable {c : Content} {g : GraphName} {f : TripleFilter} {u : Triple}

theorem graph_of_mem_lookup {q : Quad} (h : q ∈ c.lookup g f) : q.graph = g := by
  cases g with
  | default =>
      obtain ⟨t, -, rfl⟩ := List.mem_map.mp h
      rfl
  | named g =>
      have hq := (List.mem_filter.mp h).2
      rw [Bool.and_eq_true, beq_iff_eq] at hq
      exact hq.1

theorem mem_triples_lookup :
    u ∈ (c.lookup g f).map Quad.triple ↔ u ∈ c.triplesOf g ∧ f.accepts u := by
  cases g with
  | default => simp [lookup, findDefault, triplesOf]
  | named g =>
      simp only [lookup, findNamed, triplesOf, List.mem_map, List.mem_filter, Bool.and_eq_true,
        beq_iff_eq, List.mem_toFinset, decide_eq_true_eq]
      constructor
      · rintro ⟨q, ⟨hq, hg, hf⟩, rfl⟩
        exact ⟨⟨q, ⟨hq, hg⟩, rfl⟩, hf⟩
      · rintro ⟨⟨q, ⟨hq, hg⟩, rfl⟩, hf⟩
        exact ⟨q, ⟨hq, hg, hf⟩, rfl⟩

/-- Quads of one graph are told apart by their triples. -/
theorem nodup_triples {qs : List Quad} (hg : ∀ q ∈ qs, q.graph = g) (h : qs.Nodup) :
    (qs.map Quad.triple).Nodup := by
  refine h.map_on fun a ha b hb hab => ?_
  rw [← a.triple_inGraph_graph, ← b.triple_inGraph_graph, hab, hg a ha, hg b hb]

theorem nodup_lookup (hc : c.Valid) : (c.lookup g f).Nodup := by
  cases g with
  | default =>
      exact (hc.nodup_triples.filter _).map fun _ _ => Triple.inGraph_injective
  | named g => exact hc.nodup_quads.filter _

theorem find_reader {m : Type → Type} [Monad m] (c : Content) (g : GraphName) (f : TripleFilter) :
    (c.reader : Reader m).find (some g) f = pure (c.lookup g f) := by
  cases g <;> rfl

/-! ## Through a USING list -/

/-- The content as the evaluator reads it. -/
def view (c : Content) (scope : Option Using) : Dataset (Except EvaluationError) :=
  ⟨c.reader, scope⟩

variable {scope : Option Using}

theorem mapM_find_reader {m : Type → Type} [Monad m] [LawfulMonad m] (c : Content)
    (f : TripleFilter) (is : List Iri) :
    is.mapM (fun i => (c.reader : Reader m).find (some i.graph) f) =
      pure (is.map fun i => c.lookup i.graph f) := by
  simp only [find_reader, List.mapM_pure]

/-- What a lookup finds. -/
def found (c : Content) : Option Using → GraphName → TripleFilter → List Quad
  | none, g, f => c.lookup g f
  | some u, .default, f =>
    ((u.default.map fun i => c.lookup i.graph f).flatten.map
      fun q => q.triple.inGraph .default).eraseDups
  | some u, .named g, f => if g ∈ u.named.map Resource.iri then c.lookup (.named g) f else []

theorem find_dataset {m : Type → Type} [Monad m] [LawfulMonad m] (c : Content)
    (scope : Option Using) (g : GraphName) (f : TripleFilter) :
    (⟨c.reader, scope⟩ : Dataset m).find g f = pure (c.found scope g f) := by
  cases scope with
  | none => cases g <;> rfl
  | some u =>
      cases g with
      | default =>
          show (do
            let parts ← u.default.mapM fun i : Iri => (c.reader : Reader m).find (some i.graph) f
            return (parts.flatten.map fun q : Quad => q.triple.inGraph .default).eraseDups) = _
          rw [mapM_find_reader, pure_bind]
          rfl
      | named g =>
          have hsees : (⟨c.reader, some u⟩ : Dataset m).sees g = true ↔
              g ∈ u.named.map Resource.iri := by
            show (u.named.any fun i => Resource.iri i == g) = true ↔ _
            simp
          show (if (⟨c.reader, some u⟩ : Dataset m).sees g then _ else _) =
            pure (if g ∈ u.named.map Resource.iri then _ else _)
          by_cases hg : g ∈ u.named.map Resource.iri
          · rw [if_pos (hsees.mpr hg), if_pos hg]
            rfl
          · rw [if_neg fun h => hg (hsees.mp h), if_neg hg]

theorem find_view (c : Content) (scope : Option Using) (g : GraphName) (f : TripleFilter) :
    (c.view scope).find g f = .ok (c.found scope g f) :=
  find_dataset c scope g f

/-- What is found are the triples of the graph that the filter accepts. -/
theorem mem_found {t : Triple} : t ∈ (c.found scope g f).map Quad.triple ↔
    t ∈ (c.dataset scope).graph g ∧ f.accepts t := by
  cases scope with
  | none => exact mem_triples_lookup
  | some u =>
      cases g with
      | default =>
          show _ ↔ t ∈ u.default.toFinset.biUnion _ ∧ _
          rw [Finset.mem_biUnion]
          constructor
          · intro ht
            obtain ⟨q, hq, rfl⟩ := List.mem_map.mp ht
            obtain ⟨x, hx, rfl⟩ := List.mem_map.mp (List.mem_eraseDups.mp hq)
            obtain ⟨qs, hqs, hx⟩ := List.mem_flatten.mp hx
            obtain ⟨i, hi, rfl⟩ := List.mem_map.mp hqs
            obtain ⟨hxt, hf⟩ := mem_triples_lookup.mp (List.mem_map_of_mem (f := Quad.triple) hx)
            exact ⟨⟨i, List.mem_toFinset.mpr hi, hxt⟩, hf⟩
          · rintro ⟨⟨i, hi, ht⟩, hf⟩
            obtain ⟨x, hx, rfl⟩ := List.mem_map.mp (mem_triples_lookup.mpr ⟨ht, hf⟩)
            refine List.mem_map.mpr ⟨x.triple.inGraph .default, List.mem_eraseDups.mpr ?_, rfl⟩
            refine List.mem_map.mpr ⟨x, List.mem_flatten.mpr ⟨_, ?_, hx⟩, rfl⟩
            exact List.mem_map_of_mem (List.mem_toFinset.mp hi)
      | named g =>
          show t ∈ List.map _ (if g ∈ u.named.map Resource.iri then _ else _) ↔
            t ∈ (if g ∈ u.named.map Resource.iri then _ else _) ∧ _
          by_cases hg : g ∈ u.named.map Resource.iri
          · rw [if_pos hg, if_pos hg]
            exact mem_triples_lookup
          · rw [if_neg hg, if_neg hg]
            simp

theorem nodup_found (hc : c.Valid) : ((c.found scope g f).map Quad.triple).Nodup := by
  have hlookup : ∀ g, ((c.lookup g f).map Quad.triple).Nodup :=
    fun g => nodup_triples (fun q => graph_of_mem_lookup) (nodup_lookup hc)
  cases scope with
  | none => exact hlookup g
  | some u =>
      cases g with
      | default =>
          refine nodup_triples (g := .default) (fun q hq => ?_) (nodup_eraseDups _)
          obtain ⟨x, -, rfl⟩ := List.mem_map.mp (List.mem_eraseDups.mp hq)
          rfl
      | named g =>
          show (List.map _ (if g ∈ u.named.map Resource.iri then _ else _)).Nodup
          split
          · exact hlookup (.named g)
          · exact List.nodup_nil

theorem coe_found (hc : c.Valid) : (((c.found scope g f).map Quad.triple : List Triple) :
    Multiset Triple) = ((c.dataset scope).graph g).val.filter (f.accepts ·) := by
  refine (Multiset.Nodup.ext (Multiset.coe_nodup.mpr (nodup_found hc))
    ((Finset.nodup _).filter _)).mpr fun u => ?_
  rw [Multiset.mem_coe, mem_found, Multiset.mem_filter, Finset.mem_val]

/-- The named graphs are listed, each once. -/
theorem namedGraphs_view (hc : c.Valid) (scope : Option Using) :
    ∃ ns, (c.view scope).namedGraphs = .ok ns ∧
      (ns : Multiset Resource) = (c.dataset scope).names.val := by
  cases scope with
  | none =>
      refine ⟨c.namedGraphs, rfl, ?_⟩
      refine (Multiset.Nodup.ext ?_ (Finset.nodup _)).mpr fun n => ?_
      · exact Multiset.coe_nodup.mpr (nodup_addMissing hc.nodup_graphs _)
      · rw [Multiset.mem_coe, Finset.mem_val, namedGraphs, mem_addMissing]
        show _ ↔ n ∈ (c.graphs ++ c.quads.filterMap (·.graph.resource?)).toFinset
        rw [List.mem_toFinset, List.mem_append]
  | some u =>
      refine ⟨(u.named.map Resource.iri).eraseDups, rfl, ?_⟩
      refine (Multiset.Nodup.ext ?_ (Finset.nodup _)).mpr fun n => ?_
      · exact Multiset.coe_nodup.mpr (nodup_eraseDups _)
      · rw [Multiset.mem_coe, Finset.mem_val, List.mem_eraseDups]
        exact List.mem_toFinset.symm

end Content

end GraphStore
