/-
# `GraphStore.Proofs.Materialized` — a USING list might as well be a content

The graphs of a USING list are never put together: each lookup merges the default graphs
that it needs, under the filter at hand, and leaves out the named graphs that are not
listed.  `c.select u` does it once and for all.

    c ──lookup through u──▶ found
    │                         ∥
    └──select──▶ c.select u ──lookup──▶ found

The default graph needs two exchanges: the filter is applied to every part before the merge
or once behind it, and repetitions are dropped among quads or among triples.  A named
graph is there or it is not.  The named graphs are the listed ones, whether they hold
quads or not, so that no quad of the selected content adds another (`namedGraphs_select`).

An evaluation depends on these lookups alone (`Uniform.eval`).
-/
import GraphStore.Proofs.Lookup
import GraphStore.Proofs.Uniform

namespace GraphStore

namespace Content

variable {c : Content} {u : Using}

theorem mem_triples_select {t : Triple} :
    t ∈ (c.select u).triples ↔ ∃ i ∈ u.default, t.inGraph i.graph ∈ c.quads := by
  simp only [select, List.mem_eraseDups, List.mem_flatMap, List.mem_map, findNamed,
    List.mem_filter, Bool.and_eq_true, beq_iff_eq]
  constructor
  · rintro ⟨i, hi, q, ⟨hq, hg, -⟩, rfl⟩
    refine ⟨i, hi, ?_⟩
    rw [show i.graph = q.graph from hg.symm]
    exact hq
  · rintro ⟨i, hi, ht⟩
    exact ⟨i, hi, t.inGraph i.graph, ⟨ht, rfl, rfl⟩, rfl⟩

/-- The filter may be applied to the listed graphs before they are merged or to the merge. -/
theorem found_default_select (c : Content) (u : Using) (f : TripleFilter) :
    c.found (some u) .default f = (c.select u).lookup .default f := by
  have hinj : Function.Injective (Triple.inGraph · .default) :=
    fun _ _ => Triple.inGraph_injective
  have hpart : ∀ i : Iri, (c.lookup i.graph f).map Quad.triple =
      ((c.findNamed (.iri i) .any).map Quad.triple).filter f.accepts := by
    intro i
    rw [List.filter_map]
    refine congrArg (List.map Quad.triple) ?_
    simp only [lookup, findNamed, Iri.graph, List.filter_filter]
    refine List.filter_congr fun q _ => ?_
    simp [Bool.and_comm]
  have hparts : ((u.default.map fun i => c.lookup i.graph f).flatten).map Quad.triple =
      (u.default.flatMap fun i => (c.findNamed (.iri i) .any).map Quad.triple).filter
        f.accepts := by
    rw [List.filter_flatMap, List.map_flatten, List.map_map, List.flatMap_def]
    refine congrArg List.flatten (List.map_congr_left fun i _ => ?_)
    exact hpart i
  calc c.found (some u) .default f
      = ((((u.default.map fun i => c.lookup i.graph f).flatten).map Quad.triple).map
          (Triple.inGraph · .default)).eraseDups := by rw [List.map_map]; rfl
    _ = (((u.default.flatMap fun i => (c.findNamed (.iri i) .any).map Quad.triple).filter
          f.accepts).map (Triple.inGraph · .default)).eraseDups := by rw [hparts]
    _ = ((c.select u).triples.filter f.accepts).map (Triple.inGraph · .default) := by
      rw [eraseDups_map hinj, eraseDups_filter]
      rfl

/-- A listed graph keeps all its quads, and no other graph keeps any. -/
theorem found_named_select (c : Content) (u : Using) (g : Resource) (f : TripleFilter) :
    c.found (some u) (.named g) f = (c.select u).lookup (.named g) f := by
  have hlisted : ∀ q : Quad, q.graph = .named g →
      (u.named.any (·.graph == q.graph) ↔ g ∈ u.named.map Resource.iri) := by
    intro q hq
    simp [hq, Iri.graph]
  show (if g ∈ u.named.map Resource.iri then _ else _) = _
  by_cases hg : g ∈ u.named.map Resource.iri
  · rw [if_pos hg]
    simp only [lookup, findNamed, select, List.filter_filter]
    refine List.filter_congr fun q _ => ?_
    by_cases hq : q.graph = .named g
    · rw [(hlisted q hq).mpr hg, Bool.and_true]
    · simp [hq]
  · rw [if_neg hg]
    symm
    refine List.filter_eq_nil_iff.mpr fun q hq => ?_
    intro haccepted
    obtain ⟨hgraph, -⟩ := Bool.and_eq_true_iff.mp haccepted
    exact hg ((hlisted q (beq_iff_eq.mp hgraph)).mp (List.mem_filter.mp hq).2)

/-- What is found through a list is found in the selected content. -/
theorem found_select (c : Content) (u : Using) (g : GraphName) (f : TripleFilter) :
    c.found (some u) g f = (c.select u).lookup g f := by
  cases g with
  | default => exact found_default_select c u f
  | named g => exact found_named_select c u g f

/-- The quads of the selected content are in graphs that are listed already. -/
theorem namedGraphs_select (c : Content) (u : Using) :
    (c.select u).namedGraphs = (u.named.map Resource.iri).eraseDups := by
  refine addMissing_eq_self fun g hg => ?_
  obtain ⟨q, hq, hgraph⟩ := List.mem_filterMap.mp hg
  obtain ⟨i, hi, hiq⟩ := List.any_eq_true.mp (List.mem_filter.mp hq).2
  rw [← beq_iff_eq.mp hiq] at hgraph
  obtain rfl := Option.some.inj hgraph
  exact List.mem_eraseDups.mpr (List.mem_map_of_mem hi)

/-- All lookups agree. -/
theorem dataset_select {m : Type → Type} [Monad m] [LawfulMonad m] (c : Content) (u : Using) :
    Dataset.Related (fun _ x y => x = y) (⟨c.reader, some u⟩ : Dataset m)
      ⟨(c.select u).reader, none⟩ where
  find g f := by
    rw [find_dataset, find_dataset, found_select]
    rfl
  namedGraphs := by
    show pure (u.named.map Resource.iri).eraseDups = pure (c.select u).namedGraphs
    rw [namedGraphs_select]

end Content

/-- Equality is kept by all steps. -/
theorem uniform_eq {m : Type → Type} [Monad m] [MonadExcept EvaluationError m] :
    Uniform (m := m) (n := m) fun _ x y => x = y where
  pure _ := rfl
  throw _ := rfl
  bind hx hf := by rw [hx, funext hf]

/-- A pattern has the same solutions through a USING list as in the content that the list selects,
in the same order, and it is refused in the one if it is in the other.  In the default graph a
triple of any listed graph is found once, other named graphs are empty, and an empty part of the
list is an empty default graph or no named graphs. -/
theorem using_materialized {m : Type → Type} [Monad m] [LawfulMonad m]
    [MonadExcept EvaluationError m] (c : Content) (u : Using) :
    let listed : Dataset m := ⟨c.reader, some u⟩
    (∀ (p : Pattern) (input : Option Binding),
      p.solutions (c.reader : Reader m) (some u) input =
        p.solutions (c.select u).reader none input) ∧
      (∀ f, ∃ found, listed.find .default f = pure found ∧ found.Nodup ∧
        ∀ t : Triple, t.inGraph .default ∈ found ↔
          f.accepts t ∧ ∃ i ∈ u.default, t.inGraph i.graph ∈ c.quads) ∧
      (∀ g ∉ u.named.map Resource.iri, ∀ f, listed.find (.named g) f = pure []) ∧
      (u.default = [] → ∀ f, listed.find .default f = pure []) ∧
      (u.named = [] → listed.namedGraphs = pure []) := by
  intro listed
  refine ⟨fun p input => ?_, fun f => ?_, fun g hg f => ?_, fun hnone f => ?_, fun hnone => ?_⟩
  · exact uniform_eq.eval (c.dataset_select u) p .default [input.getD .empty]
  · refine ⟨c.found (some u) .default f, c.find_dataset (some u) .default f, nodup_eraseDups _,
      fun t => ?_⟩
    have hinj : Function.Injective (Triple.inGraph · .default) :=
      fun _ _ => Triple.inGraph_injective
    rw [Content.found_default_select, ← Content.mem_triples_select, and_comm]
    exact (List.mem_map_of_injective hinj).trans List.mem_filter
  · rw [c.find_dataset (some u) (.named g) f, Content.found, if_neg hg]
  · rw [c.find_dataset (some u) .default f, Content.found, hnone]
    rfl
  · show pure (u.named.map Resource.iri).eraseDups = pure []
    rw [hnone]
    rfl

/-- A triple of two listed graphs is found once in the default graph, and a named graph that is
listed twice is gone through once; a third graph is not there, and nothing is without a list. -/
theorem using_materialized_overlap :
    let a : Iri := ⟨"a"⟩
    let b : Iri := ⟨"b"⟩
    let h : Resource := .iri ⟨"h"⟩
    let t : Triple := ⟨.iri ⟨"s"⟩, ⟨"p"⟩, .iri ⟨"o"⟩⟩
    let c : Content :=
      { quads := [t.inGraph a.graph, t.inGraph b.graph, t.inGraph (.named h)] }
    let p : Pattern := .bgp [⟨.var ⟨"x"⟩, .iri ⟨"p"⟩, .iri ⟨"o"⟩⟩]
    let listed : Dataset (Except EvaluationError) := ⟨c.reader, some ⟨[a, b, a], [b, b]⟩⟩
    let nothing : Dataset (Except EvaluationError) := ⟨c.reader, some ⟨[], []⟩⟩
    (Pattern.solutions listed.reader (.join p (.graph (.var ⟨"g"⟩) p)) listed.scope none).toOption =
        some [(Binding.empty.insert ⟨"x"⟩ (.iri ⟨"s"⟩)).insert ⟨"g"⟩ (.iri b)] ∧
      listed.find (.named h) .any = pure [] ∧
      nothing.find .default .any = pure [] ∧ nothing.namedGraphs = pure [] := by
  intro a b h t c p listed nothing
  obtain ⟨hsolutions, -, houtside, -, -⟩ :=
    using_materialized (m := Except EvaluationError) c ⟨[a, b, a], [b, b]⟩
  obtain ⟨-, -, -, hdefault, hnamed⟩ :=
    using_materialized (m := Except EvaluationError) c ⟨[], []⟩
  refine ⟨?_, houtside h (by decide) .any, hdefault rfl .any, hnamed rfl⟩
  rw [hsolutions]
  decide +kernel

end GraphStore
