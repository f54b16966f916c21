/-
# `GraphStore.Proofs.BasicPattern` — lists of triple patterns are joins

The evaluator extends every binding by the matches of the first triple pattern, then
by those of the second, and looks triples up under what is bound already.  The
meaning of the list is a set given by a property.  The bridge has two parts.

* Matches of a list are the joins of the matches of its parts
  (`allMatches_append`).  Both sides hold nothing twice: a binding of known variables
  is the merge of its two restrictions and of nothing else.
* One triple pattern is a join with its own matches, for one binding
  (`matchOne_view`; the lookup key only leaves out triples that would not match) and
  for many (`matchTriple_view`).

Joining is associative, which turns the fold over the list into one join
(`bgp_view`).
-/
import GraphStore.Proofs.Matching
import GraphStore.Proofs.Outcome

namespace GraphStore

open Binding

/-! ## Matches of lists -/

section Matches

variable {G : Finset Triple} {t : TriplePattern} {ts ts' : List TriplePattern} {b b' : Binding}
  {u u' : Triple}

/-- An injective partial map keeps multisets without repetitions. -/
theorem nodup_filterMap_on {α β : Type} {f : α → Option β} {s : Multiset α} (hs : s.Nodup)
    (hf : ∀ a ∈ s, ∀ a' ∈ s, ∀ b, f a = some b → f a' = some b → a = a') :
    (s.filterMap f).Nodup := by
  induction s using Multiset.induction with
  | empty => exact Multiset.nodup_zero
  | cons a s ih =>
      obtain ⟨ha, hs⟩ := Multiset.nodup_cons.mp hs
      have htail : (s.filterMap f).Nodup := by
        refine ih hs fun x hx x' hx' => ?_
        exact hf x (Multiset.mem_cons_of_mem hx) x' (Multiset.mem_cons_of_mem hx')
      cases hfa : f a with
      | none =>
          rw [Multiset.filterMap_cons_none _ _ hfa]
          exact htail
      | some b =>
          rw [Multiset.filterMap_cons_some _ _ _ hfa]
          refine Multiset.nodup_cons.mpr ⟨fun hb => ?_, htail⟩
          obtain ⟨a', ha', hfa'⟩ := (Multiset.mem_filterMap _ _).mp hb
          have haa' := hf a (Multiset.mem_cons_self a s) a' (Multiset.mem_cons_of_mem ha') b hfa hfa'
          exact ha (haa' ▸ ha')

/-- Bindings of known variables are merged without repetitions: a merge determines both parts. -/
theorem nodup_join {A B : Multiset Binding} {vs ws : List Variable}
    (hA : A.Nodup) (hB : B.Nodup) (hvs : ∀ a ∈ A, ∀ v, a.Binds v ↔ v ∈ vs)
    (hws : ∀ b ∈ B, ∀ v, b.Binds v ↔ v ∈ ws) : (join A B).Nodup := by
  refine Multiset.nodup_bind.mpr ⟨fun a _ => ?_, ?_⟩
  · refine nodup_filterMap_on hB fun b hb b' hb' m hm hm' => ?_
    refine eq_of_extends (extends_of_merge? hm).2 (extends_of_merge? hm').2 fun v => ?_
    rw [hws b hb, hws b' hb']
  · refine Multiset.Nodup.pairwise (fun a ha a' ha' hne => ?_) hA
    refine Multiset.disjoint_left.mpr ?_
    intro m hm hm'
    obtain ⟨b, -, hb⟩ := (Multiset.mem_filterMap _ _).mp hm
    obtain ⟨b', -, hb'⟩ := (Multiset.mem_filterMap _ _).mp hm'
    refine hne (eq_of_extends (extends_of_merge? hb).1 (extends_of_merge? hb').1 fun v => ?_)
    rw [hvs a ha, hvs a' ha']

theorem TriplePattern.Instance.of_extends (h : t.Instance b u) (hb : b'.Extends b) :
    t.Instance b' u := by
  rw [instance_iff] at *
  exact fun cell hcell => TermPattern.value?_of_extends hb (h cell hcell)

theorem TriplePattern.Instance.project (h : t.Instance b u) {vs : List Variable}
    (hvs : ∀ v ∈ t.unknowns, v ∈ vs) : t.Instance (b.project vs) u := by
  rw [instance_iff] at *
  intro cell hcell
  rw [TermPattern.value?_project fun v hv => hvs v (mem_unknowns_iff.mpr ⟨cell, hcell, hv⟩)]
  exact h cell hcell

/-- A binding makes a triple pattern at most one triple. -/
theorem TriplePattern.Instance.unique (h : t.Instance b u) (h' : t.Instance b u') : u = u' := by
  have hs := Resource.toTerm_injective (Option.some.inj (h.subject.symm.trans h'.subject))
  have hp := Term.iri.inj (Option.some.inj (h.predicate.symm.trans h'.predicate))
  have ho := Option.some.inj (h.object.symm.trans h'.object)
  cases u; cases u'
  simp_all

theorem IsMatch.project (h : IsMatch G ts b) {vs : List Variable} {ts' : List TriplePattern}
    (hts' : ∀ t ∈ ts', t ∈ ts) (hvs : vs = ts'.flatMap TriplePattern.unknowns) :
    IsMatch G ts' (b.project vs) := by
  have hsub : ∀ v ∈ vs, b.Binds v := by
    intro v hv
    rw [hvs] at hv
    obtain ⟨t, ht, hvt⟩ := List.mem_flatMap.mp hv
    exact (h.binds v).mpr (List.mem_flatMap.mpr ⟨t, hts' t ht, hvt⟩)
  constructor
  · intro v
    rw [binds_project, ← hvs]
    exact and_iff_left_of_imp (hsub v)
  · intro t ht
    obtain ⟨u, hu, hinstance⟩ := h.puts t (hts' t ht)
    refine ⟨u, hu, hinstance.project fun v hv => ?_⟩
    rw [hvs]
    exact List.mem_flatMap.mpr ⟨t, ht, hv⟩

theorem allMatches_nil (G : Finset Triple) : allMatches G [] = {empty} := by
  refine (Multiset.Nodup.ext (nodup_allMatches G []) (Multiset.nodup_singleton _)).mpr fun b => ?_
  rw [mem_allMatches, Multiset.mem_singleton]
  constructor
  · intro h
    refine eq_of_extends (.refl b) (extends_empty b) fun v => ?_
    rw [h.binds]
    exact iff_of_false List.not_mem_nil (not_binds_empty v)
  · rintro rfl
    exact ⟨fun v => iff_of_false (not_binds_empty v) List.not_mem_nil,
      fun t ht => absurd ht List.not_mem_nil⟩

/-- Matches of two lists are the merges of matches of each. -/
theorem allMatches_append (G : Finset Triple) (ts ts' : List TriplePattern) :
    allMatches G (ts ++ ts') = join (allMatches G ts) (allMatches G ts') := by
  have hnodup : (join (allMatches G ts) (allMatches G ts')).Nodup :=
    nodup_join (nodup_allMatches G ts) (nodup_allMatches G ts')
      (fun a ha => (mem_allMatches.mp ha).binds) (fun b hb => (mem_allMatches.mp hb).binds)
  refine (Multiset.Nodup.ext (nodup_allMatches G _) hnodup).mpr fun m => ?_
  rw [mem_allMatches, mem_join]
  constructor
  · intro hm
    -- a match of both lists is the merge of its restrictions to the unknowns of each
    refine ⟨m.project (ts.flatMap TriplePattern.unknowns), mem_allMatches.mpr ?_,
      m.project (ts'.flatMap TriplePattern.unknowns), mem_allMatches.mpr ?_, ?_⟩
    · exact hm.project (fun t ht => List.mem_append_left _ ht) rfl
    · exact hm.project (fun t ht => List.mem_append_right _ ht) rfl
    · refine merge?_eq_some.mpr ⟨extends_project _ _, extends_project _ _, fun v hv => ?_⟩
      rw [binds_project, binds_project]
      have hv' := (hm.binds v).mp hv
      rw [List.flatMap_append, List.mem_append] at hv'
      rcases hv' with h | h
      · exact .inl ⟨h, hv⟩
      · exact .inr ⟨h, hv⟩
  · rintro ⟨a, ha, b, hb, hmerge⟩
    obtain ⟨hma, hmb⟩ := extends_of_merge? hmerge
    replace ha := mem_allMatches.mp ha
    replace hb := mem_allMatches.mp hb
    constructor
    · intro v
      rw [binds_merge? hmerge, ha.binds, hb.binds, List.flatMap_append, List.mem_append]
    · intro t ht
      rcases List.mem_append.mp ht with ht | ht
      · obtain ⟨u, hu, hinstance⟩ := ha.puts t ht
        exact ⟨u, hu, hinstance.of_extends hma⟩
      · obtain ⟨u, hu, hinstance⟩ := hb.puts t ht
        exact ⟨u, hu, hinstance.of_extends hmb⟩

/-- One triple pattern is matched by going through the triples. -/
theorem allMatches_singleton (G : Finset Triple) (t : TriplePattern) :
    allMatches G [t] = G.val.filterMap (t.unify · .empty) := by
  have hnodup : (G.val.filterMap (t.unify · .empty)).Nodup := by
    refine nodup_filterMap_on G.nodup fun u _ u' _ b h h' => ?_
    exact (TriplePattern.unify_empty.mp h).2.unique (TriplePattern.unify_empty.mp h').2
  refine (Multiset.Nodup.ext (nodup_allMatches G _) hnodup).mpr fun b => ?_
  rw [mem_allMatches, Multiset.mem_filterMap]
  have hunknowns : [t].flatMap TriplePattern.unknowns = t.unknowns := by simp
  constructor
  · intro h
    obtain ⟨u, hu, hinstance⟩ := h.puts t List.mem_cons_self
    refine ⟨u, hu, TriplePattern.unify_empty.mpr ⟨fun v => ?_, hinstance⟩⟩
    rw [h.binds, hunknowns]
  · rintro ⟨u, hu, h⟩
    obtain ⟨hbinds, hinstance⟩ := TriplePattern.unify_empty.mp h
    constructor
    · intro v
      rw [hbinds, hunknowns]
    · intro x hx
      rw [List.mem_singleton.mp hx]
      exact ⟨u, hu, hinstance⟩

end Matches

/-! ## The evaluator -/

/-- A check of an optional value that succeeds with a known result. -/
theorem mapM_eq_some {α β : Type} {f : α → Option β} {o : Option α} {z : β}
    (h : ∀ y, o = some y → f y = some z) : o.mapM f = some (o.map fun _ => z) := by
  cases o with
  | none => rfl
  | some y =>
      rw [Option.mapM_some, h y rfl]
      rfl

/-- What stands in the way of a lookup key stands in the way of a match, and a triple that the
key does not accept does not match. -/
theorem TriplePattern.key?_of_unify {t : TriplePattern} {u : Triple} {b b' : Binding}
    (h : t.unify u b = some b') : ∃ f, t.key? b = some f ∧ f.accepts u = true := by
  rw [unify_eq_unifyAll] at h
  obtain ⟨hext, -, hvalues⟩ := unifyAll_spec h
  have hinstance : t.Instance b' u := instance_iff.mpr hvalues
  -- a position that is fixed before has the term of the triple already
  have hfixed : ∀ {p : TermPattern} {x y : Term}, p.value? b' = some x → p.value? b = some y →
      y = x := by
    intro p x y hx hy
    exact Option.some.inj ((TermPattern.value?_of_extends hext hy).symm.trans hx)
  have hs : ∀ y, t.subject.value? b = some y → y = u.subject.toTerm :=
    fun y hy => hfixed hinstance.subject hy
  have hp : ∀ y, t.predicate.value? b = some y → y = .iri u.predicate := by
    intro y hy
    cases hpred : t.predicate with
    | iri i =>
        have hi := hinstance.predicate
        rw [hpred] at hy hi
        exact Option.some.inj (hy.symm.trans hi)
    | var v =>
        have hv := hinstance.predicate
        rw [hpred] at hy hv
        exact Option.some.inj ((hext v y hy).symm.trans hv)
  have ho : ∀ y, t.object.value? b = some y → y = u.object :=
    fun y hy => hfixed hinstance.object hy
  have hsubject : (t.subject.value? b).mapM Term.toResource? =
      some ((t.subject.value? b).map fun _ => u.subject) :=
    mapM_eq_some fun y hy => by rw [hs y hy, Resource.toResource?_toTerm]
  have hpredicate : (t.predicate.value? b).mapM Term.toIri? =
      some ((t.predicate.value? b).map fun _ => u.predicate) :=
    mapM_eq_some fun y hy => by rw [hp y hy]; rfl
  refine ⟨⟨(t.subject.value? b).map fun _ => u.subject,
    (t.predicate.value? b).map fun _ => u.predicate, t.object.value? b⟩, ?_, ?_⟩
  · unfold key?
    rw [hsubject, hpredicate]
    rfl
  · have hobject : (t.object.value? b).all (· == u.object) = true := by
      cases hob : t.object.value? b with
      | none => rfl
      | some y => simp [ho y hob]
    unfold TripleFilter.accepts
    simp [Option.all_map, hobject]

theorem TriplePattern.unify_eq_none {t : TriplePattern} {b : Binding} (hkey : t.key? b = none)
    (u : Triple) : t.unify u b = none := by
  cases hu : t.unify u b with
  | none => rfl
  | some b' =>
      obtain ⟨f, hf, -⟩ := key?_of_unify hu
      rw [hkey] at hf
      cases hf

/-- Triples that the key leaves out would not match. -/
theorem TriplePattern.filterMap_filter_key {t : TriplePattern} {b : Binding} {f : TripleFilter}
    (hkey : t.key? b = some f) (us : Multiset Triple) :
    (us.filter (f.accepts ·)).filterMap (t.unify · b) = us.filterMap (t.unify · b) := by
  rw [Multiset.filterMap_filter]
  congr 1
  funext u
  split
  · rfl
  · rename_i hnot
    cases hu : t.unify u b with
    | none => rfl
    | some b' =>
        obtain ⟨f', hf', haccepts⟩ := key?_of_unify hu
        rw [hkey] at hf'
        rw [← Option.some.inj hf'] at haccepts
        exact absurd haccepts hnot

variable {c : Content} {scope : Option Using} {g : GraphName}

/-- Extending one binding is joining it with the matches of the triple pattern. -/
theorem matchOne_view (hc : c.Valid) (scope : Option Using) (g : GraphName) (t : TriplePattern)
    (b : Binding) : ∃ bs, (c.view scope).matchOne g t b = .ok bs ∧
      (bs : Multiset Binding) = join {b} (allMatches ((c.dataset scope).graph g) [t]) := by
  have hmatches : join {b} (allMatches ((c.dataset scope).graph g) [t]) =
      ((c.dataset scope).graph g).val.filterMap (t.unify · b) := by
    rw [singleton_join, allMatches_singleton, Multiset.filterMap_filterMap]
    congr 1
    funext u
    exact (t.merging_unify u b).symm
  rw [hmatches]
  unfold Dataset.matchOne
  cases hkey : t.key? b with
  | none =>
      refine ⟨[], rfl, ?_⟩
      simp [TriplePattern.unify_eq_none hkey, Multiset.filterMap_eq_bind]
  | some f =>
      refine ⟨(c.found scope g f).filterMap fun q => t.unify q.triple b, ?_, ?_⟩
      · exact bind_ok (Content.find_view c scope g f) rfl
      · rw [← TriplePattern.filterMap_filter_key hkey, ← Content.coe_found hc,
          Multiset.filterMap_coe, List.filterMap_map]
        rfl

theorem matchTriple_view (hc : c.Valid) (scope : Option Using) (g : GraphName) (t : TriplePattern)
    (input : List Binding) : ∃ bs, (c.view scope).matchTriple g input t = .ok bs ∧
      (bs : Multiset Binding) = join input (allMatches ((c.dataset scope).graph g) [t]) := by
  obtain ⟨parts, hparts⟩ : ∃ parts, input.mapM ((c.view scope).matchOne g t) = .ok parts := by
    refine mapM_ok fun b _ => ?_
    obtain ⟨bs, hbs, -⟩ := matchOne_view hc scope g t b
    exact ⟨bs, hbs⟩
  refine ⟨parts.flatten, ?_, ?_⟩
  · unfold Dataset.matchTriple
    rw [hparts]
    rfl
  · refine coe_flatten_of_mapM hparts fun b _ bs hbs => ?_
    obtain ⟨bs', hbs', hjoin⟩ := matchOne_view hc scope g t b
    rw [hbs] at hbs'
    rw [Except.ok.inj hbs', hjoin, singleton_join]

/-- Matching a list of triple patterns joins the bindings with the matches of the list. -/
theorem bgp_view (hc : c.Valid) (scope : Option Using) (g : GraphName) (ts : List TriplePattern)
    (input : List Binding) : ∃ bs, ts.foldlM ((c.view scope).matchTriple g) input = .ok bs ∧
      (bs : Multiset Binding) = join input (allMatches ((c.dataset scope).graph g) ts) := by
  induction ts generalizing input with
  | nil => exact ⟨input, rfl, by rw [allMatches_nil, join_empty]⟩
  | cons t ts ih =>
      obtain ⟨first, hfirst, hjoin⟩ := matchTriple_view hc scope g t input
      obtain ⟨bs, hbs, hjoin'⟩ := ih first
      refine ⟨bs, ?_, ?_⟩
      · rw [List.foldlM_cons, hfirst]
        exact hbs
      · rw [hjoin', hjoin, join_assoc, ← allMatches_append]
        rfl

end GraphStore
