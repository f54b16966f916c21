/-
# `GraphStore.Proofs.Meaning` — what a pattern means, bottom up

The evaluator threads bindings through a pattern from left to right.  The query
language says what a pattern means without any order: every pattern has a multiset
of solutions, made from those of its parts.  `p.meaning D g` is that multiset, in the
dataset `D` with `g` as the active graph.

Nothing of the evaluator is used here but the value of an expression.  A dataset is
the finite set of triples of each graph and the finite set of names of the named
graphs (`Content.dataset` reads it off a content and a USING list), and the meaning
of a list of triple patterns is a set given by its property: the bindings of exactly
its unknowns that put every triple pattern into the graph (`IsMatch`).

A slice takes a part of an order, which a multiset does not have; slices and the forms
that the evaluator refuses are given no solutions.
-/
import Mathlib.Data.Finset.Powerset
import Mathlib.Data.Finset.Union
import Mathlib.Data.Finset.Prod
import Mathlib.Data.Set.Finite.Basic
import GraphStore.Proofs.Merge

namespace GraphStore

/-! ## Datasets -/

/-- A dataset as a value: the triples of every graph, and the names of the named graphs. -/
structure RdfDataset where
  graph : GraphName → Finset Triple
  names : Finset Resource

namespace Content

/-- The triples of a graph. -/
def triplesOf (c : Content) : GraphName → Finset Triple
  | .default => c.triples.toFinset
  | .named g => ((c.quads.filter (·.graph = .named g)).map Quad.triple).toFinset

/-- The dataset that a USING list selects: the default graph is the union of the listed graphs,
and the named graphs are the listed ones.  Without a list the content itself is the dataset. -/
def dataset (c : Content) : Option Using → RdfDataset
  | none =>
    { graph := c.triplesOf
      names := (c.graphs ++ c.quads.filterMap (·.graph.resource?)).toFinset }
  | some u =>
    { graph := fun
        | .default => u.default.toFinset.biUnion fun i => c.triplesOf i.graph
        | .named g => if g ∈ u.named.map Resource.iri then c.triplesOf (.named g) else ∅
      names := (u.named.map Resource.iri).toFinset }

end Content

/-! ## Triple patterns -/

/-- The variable of a position; blank nodes count as variables. -/
def TermPattern.unknowns : TermPattern → List Variable
  | .var v => [v]
  | .blank n => [n.asVariable]
  | .iri _ | .literal _ => []

namespace TriplePattern

/-- The variables of a triple pattern, blank nodes included. -/
def unknowns (t : TriplePattern) : List Variable :=
  t.subject.unknowns ++ t.predicate.variables ++ t.object.unknowns

/-- Under the binding, the triple pattern is the triple. -/
structure Instance (t : TriplePattern) (b : Binding) (u : Triple) : Prop where
  subject : t.subject.value? b = some u.subject.toTerm
  predicate : t.predicate.value? b = some (.iri u.predicate)
  object : t.object.value? b = some u.object

end TriplePattern

/-- The binding has exactly the unknowns of the triple patterns as variables, and puts each of the
triple patterns into the graph. -/
structure IsMatch (G : Finset Triple) (ts : List TriplePattern) (b : Binding) : Prop where
  binds : ∀ v, b.Binds v ↔ v ∈ ts.flatMap TriplePattern.unknowns
  puts : ∀ t ∈ ts, ∃ u ∈ G, t.Instance b u

/-- The terms of a triple. -/
def Triple.terms (u : Triple) : Finset Term := {u.subject.toTerm, .iri u.predicate, u.object}

namespace TriplePattern

variable {t : TriplePattern} {b : Binding} {u : Triple} {v : Variable} {x : Term}

theorem value?_of_mem_unknowns {p : TermPattern} (hv : v ∈ p.unknowns) :
    p.value? b = b.get? v := by
  cases p with
  | var w =>
      rw [List.mem_singleton.mp hv]
      rfl
  | blank n =>
      rw [List.mem_singleton.mp hv]
      rfl
  | iri i => exact absurd hv List.not_mem_nil
  | literal l => exact absurd hv List.not_mem_nil

theorem name_value?_of_mem_variables {p : NamePattern} (hv : v ∈ p.variables) :
    p.value? b = b.get? v := by
  cases p with
  | var w =>
      rw [List.mem_singleton.mp hv]
      rfl
  | iri i => exact absurd hv List.not_mem_nil

/-- An instance gives every unknown a term of the triple. -/
theorem Instance.exists_term (h : t.Instance b u) (hv : v ∈ t.unknowns) :
    ∃ x ∈ u.terms, b.get? v = some x := by
  unfold unknowns at hv
  rcases List.mem_append.mp hv with hv | hv
  · rcases List.mem_append.mp hv with hv | hv
    · refine ⟨u.subject.toTerm, by simp [Triple.terms], ?_⟩
      rw [← value?_of_mem_unknowns hv, h.subject]
    · refine ⟨.iri u.predicate, by simp [Triple.terms], ?_⟩
      rw [← name_value?_of_mem_variables hv, h.predicate]
  · refine ⟨u.object, by simp [Triple.terms], ?_⟩
    rw [← value?_of_mem_unknowns hv, h.object]

end TriplePattern

/-- There are finitely many matches, since their entries are made of the unknowns and of the terms
of the graph. -/
theorem finite_matches (G : Finset Triple) (ts : List TriplePattern) :
    {b : Binding | IsMatch G ts b}.Finite := by
  let entries : Finset Entry :=
    (ts.flatMap TriplePattern.unknowns).toFinset ×ˢ G.biUnion Triple.terms
  have hinj : Set.InjOn (fun b : Binding => b.entries.toFinset) {b | IsMatch G ts b} := by
    intro a _ b _ hab
    ext v x
    rw [Binding.get?, Binding.get?, ← Entry.mem_iff_find a.ordered, ← Entry.mem_iff_find b.ordered,
      ← List.mem_toFinset, ← List.mem_toFinset]
    exact Finset.ext_iff.mp hab (v, x)
  refine Set.Finite.of_injOn (t := (entries.powerset : Set (Finset Entry))) ?_ hinj
    (Finset.finite_toSet _)
  intro b hb
  refine Finset.mem_coe.mpr (Finset.mem_powerset.mpr fun e he => ?_)
  obtain ⟨v, x⟩ := e
  have hget : b.get? v = some x :=
    (Entry.mem_iff_find b.ordered).mp (List.mem_toFinset.mp he)
  have hv : v ∈ ts.flatMap TriplePattern.unknowns :=
    (hb.binds v).mp (Option.isSome_iff_exists.mpr ⟨x, hget⟩)
  obtain ⟨t, ht, hvt⟩ := List.mem_flatMap.mp hv
  obtain ⟨u, hu, hinstance⟩ := hb.puts t ht
  obtain ⟨y, hy, hyv⟩ := hinstance.exists_term hvt
  rw [hget] at hyv
  rw [Finset.mem_product, Finset.mem_biUnion, List.mem_toFinset, Option.some.inj hyv]
  exact ⟨hv, u, hu, hy⟩

/-- The matches of triple patterns in a graph, each once. -/
noncomputable def allMatches (G : Finset Triple) (ts : List TriplePattern) : Multiset Binding :=
  (finite_matches G ts).toFinset.val

theorem mem_allMatches {G : Finset Triple} {ts : List TriplePattern} {b : Binding} :
    b ∈ allMatches G ts ↔ IsMatch G ts b := by
  unfold allMatches
  rw [Finset.mem_val]
  exact (finite_matches G ts).mem_toFinset

theorem nodup_allMatches (G : Finset Triple) (ts : List TriplePattern) : (allMatches G ts).Nodup :=
  (finite_matches G ts).toFinset.nodup

/-! ## Expressions -/

namespace Expr

/-- The value of an expression, absent also if the expression is refused. -/
def value? (e : Expr) (b : Binding) : Option Term := (e.eval b).toOption.join

/-- The expression is true under the binding. -/
def isTrue (e : Expr) (b : Binding) : Bool := (e.value? b).bind Term.truth? == some true

end Expr

namespace Binding

/-- Binds a variable to a value, which has to agree with the value it may have already; without a
value nothing is bound. -/
def assign (b : Binding) (v : Variable) : Option Term → Option Binding
  | some t => b.merge? (single v t)
  | none => some b

/-- The binding that a row of a table of values stands for. -/
def ofRow (vars : List Variable) (row : List (Option Term)) : Option Binding :=
  (vars.zip row).foldlM (fun b cell => b.assign cell.1 cell.2) empty

/-- The joins that satisfy a condition, and the bindings on the left that are in no such join. -/
def leftJoin (A B : Multiset Binding) (condition : Binding → Bool) : Multiset Binding :=
  (join A B).filter (condition ·) +
    A.filter fun a => (join {a} B).filter (condition ·) = 0

end Binding

/-! ## Patterns -/

/-- The solutions of a pattern in the active graph. -/
@[simp] noncomputable def Pattern.meaning (D : RdfDataset) :
    Pattern → GraphName → Multiset Binding
  | .bgp ts, g => allMatches (D.graph g) ts
  | .join l r, g => Binding.join (l.meaning D g) (r.meaning D g)
  | .leftJoin l r condition, g =>
    Binding.leftJoin (l.meaning D g) (r.meaning D g) fun b => condition.all (·.isTrue b)
  | .filter e p, g => (p.meaning D g).filter (e.isTrue ·)
  | .union l r, g => l.meaning D g + r.meaning D g
  | .graph (.iri i) p, _ => p.meaning D i.graph
  | .graph (.var v) p, _ =>
    D.names.val.bind fun n => Binding.join {.single v n.toTerm} (p.meaning D (.named n))
  | .extend p v e, g => (p.meaning D g).filterMap fun b => b.assign v (e.value? b)
  | .values vars rows, _ => (rows : Multiset (List (Option Term))).filterMap (Binding.ofRow vars)
  | .project p vars, g => (p.meaning D g).map (·.project vars)
  | .distinct p, g => (p.meaning D g).dedup
  | .reduced p, g => (p.meaning D g).dedup
  | .path .., _ | .minus .., _ | .orderBy .., _ | .slice .., _ | .group .., _ | .service .., _ => 0

end GraphStore
