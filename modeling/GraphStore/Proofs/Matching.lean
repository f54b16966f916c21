/-
# `GraphStore.Proofs.Matching` — matching a triple pattern with a triple

The evaluator extends a binding by what a triple pattern still leaves open, position
by position.  Two things are said about this.

* What matching gives: the binding of the unknowns that makes the pattern the triple
  (`unify_empty`), starting from the empty binding.
* What is bound before makes no difference but to be merged with that
  (`merging_unify`).  So extending bindings by the matches of a triple pattern is a
  join with these matches.
-/
import GraphStore.Proofs.Lookup

namespace GraphStore

/-! ## Merging functions -/

/-- The function merges its argument with a binding that does not depend on it. -/
def Merging (f : Binding → Option Binding) : Prop := ∀ b, f b = (f .empty).bind b.merge?

namespace Merging

variable {f h : Binding → Option Binding}

theorem some : Merging Option.some := fun b => (b.merge?_empty).symm

theorem unify (v : Variable) (t : Term) : Merging fun b => b.unify v t := by
  intro b
  show b.unify v t = (Binding.empty.unify v t).bind b.merge?
  rw [Binding.unify_eq_merge?, Binding.unify_eq_merge?, Binding.empty_merge?]
  rfl

theorem guard (c : Prop) [Decidable c] :
    Merging fun b => if c then Option.some b else none := by
  intro b
  show (if c then Option.some b else none) = Option.bind (if c then _ else none) _
  split
  · exact (b.merge?_empty).symm
  · rfl

/-- One after the other, two merging functions merge. -/
theorem bind (hf : Merging f) (hh : Merging h) : Merging fun b => (f b).bind h := by
  intro b
  show (f b).bind h = ((f .empty).bind h).bind b.merge?
  rw [hf b, Option.bind_assoc, Option.bind_assoc]
  congr 1
  funext m
  -- `h` merges with a fixed binding, if with any; the rest is associativity
  rw [hh m]
  cases hfix : h .empty with
  | none =>
      cases hbm : b.merge? m with
      | none => rfl
      | some n =>
          show h n = none
          rw [hh n, hfix]
          rfl
  | some y =>
      show (b.merge? m).bind h = (m.merge? y).bind b.merge?
      rw [← Binding.merge?_assoc]
      congr 1
      funext n
      rw [hh n, hfix]
      rfl

theorem foldlM {α : Type} {step : Binding → α → Option Binding}
    (hstep : ∀ a, Merging fun b => step b a) (as : List α) : Merging fun b => as.foldlM step b := by
  induction as with
  | nil => exact Merging.some
  | cons a as ih => exact (hstep a).bind ih

end Merging

/-! ## Positions

A triple pattern and a triple are matched position by position.  The predicate is a
position like the others, with fewer terms that may stand there. -/

/-- A predicate position as a position. -/
def NamePattern.toTermPattern : NamePattern → TermPattern
  | .iri i => .iri i
  | .var v => .var v

namespace TermPattern

variable {p : TermPattern} {x : Term} {b b' : Binding} {v : Variable}

theorem merging_unify (p : TermPattern) (x : Term) : Merging (p.unify x) := by
  cases p with
  | iri i => exact Merging.guard (x = .iri i)
  | blank n => exact Merging.unify n.asVariable x
  | literal l => exact Merging.guard (x = .literal l)
  | var v => exact Merging.unify v x

/-- Matching fixes the position to the term and binds its unknown, nothing else. -/
theorem unify_spec (h : p.unify x b = some b') :
    b'.Extends b ∧ (∀ v, b'.Binds v ↔ b.Binds v ∨ v ∈ p.unknowns) ∧ p.value? b' = some x := by
  have hvar : ∀ w, b.unify w x = some b' →
      b'.Extends b ∧ (∀ v, b'.Binds v ↔ b.Binds v ∨ v ∈ [w]) ∧ b'.get? w = some x := by
    intro w h
    rw [Binding.unify_eq_merge?] at h
    obtain ⟨hb, hs⟩ := Binding.extends_of_merge? h
    refine ⟨hb, fun v => ?_, Binding.extends_single.mp hs⟩
    rw [Binding.binds_merge? h, Binding.binds_single, List.mem_singleton, eq_comm]
  have hconst : ∀ c : Term, (if x = c then some b else none) = some b' →
      b'.Extends b ∧ (∀ v, b'.Binds v ↔ b.Binds v ∨ v ∈ ([] : List Variable)) ∧
        some c = some x := by
    intro c h
    split at h
    · rename_i hx
      obtain rfl := Option.some.inj h
      exact ⟨.refl b, by simp, by rw [hx]⟩
    · cases h
  cases p with
  | iri i => exact hconst (.iri i) h
  | blank n => exact hvar n.asVariable h
  | literal l => exact hconst (.literal l) h
  | var w => exact hvar w h

/-- A binding that fixes the position to the term extends what matching gives. -/
theorem exists_unify (hb : b'.Extends b) (hx : p.value? b' = some x) :
    ∃ m, p.unify x b = some m ∧ b'.Extends m := by
  have hvar : ∀ w, b'.get? w = some x → ∃ m, b.unify w x = some m ∧ b'.Extends m := by
    intro w hw
    rw [Binding.unify_eq_merge?]
    obtain ⟨m, hm⟩ := Binding.exists_merge? hb (Binding.extends_single.mpr hw)
    exact ⟨m, hm, hb.of_merge? hm (Binding.extends_single.mpr hw)⟩
  have hconst : ∀ c : Term, some c = some x →
      ∃ m, (if x = c then some b else none) = some m ∧ b'.Extends m := by
    intro c hc
    rw [if_pos (Option.some.inj hc).symm]
    exact ⟨b, rfl, hb⟩
  cases p with
  | iri i => exact hconst (.iri i) hx
  | blank n => exact hvar n.asVariable hx
  | literal l => exact hconst (.literal l) hx
  | var w => exact hvar w hx

/-- A position that is fixed stays fixed. -/
theorem value?_of_extends (hb : b'.Extends b) (hx : p.value? b = some x) :
    p.value? b' = some x := by
  cases p with
  | iri i => exact hx
  | blank n => exact hb _ _ hx
  | literal l => exact hx
  | var w => exact hb _ _ hx

/-- The value of a position depends on its unknowns only. -/
theorem value?_project {vs : List Variable} (h : ∀ v ∈ p.unknowns, v ∈ vs) :
    p.value? (b.project vs) = p.value? b := by
  have hget : ∀ v ∈ p.unknowns, (b.project vs).get? v = b.get? v := by
    intro v hv
    rw [Binding.get?_project, if_pos (h v hv)]
  cases p with
  | iri i => rfl
  | blank n => exact hget n.asVariable List.mem_cons_self
  | literal l => rfl
  | var w => exact hget w List.mem_cons_self

end TermPattern

namespace TriplePattern

/-- The positions of a triple pattern, each with the term of the triple that stands there. -/
def positions (t : TriplePattern) (u : Triple) : List (TermPattern × Term) :=
  [(t.subject, u.subject.toTerm), (t.predicate.toTermPattern, .iri u.predicate),
    (t.object, u.object)]

/-- Matches positions with terms, one after the other. -/
def unifyAll (cells : List (TermPattern × Term)) (b : Binding) : Option Binding :=
  cells.foldlM (fun b cell => cell.1.unify cell.2 b) b

variable {t : TriplePattern} {u : Triple} {b b' : Binding} {v : Variable}
  {cells : List (TermPattern × Term)}

theorem unify_eq_unifyAll (t : TriplePattern) (u : Triple) (b : Binding) :
    t.unify u b = unifyAll (t.positions u) b := by
  have hpredicate : ∀ b, t.predicate.unify u.predicate b =
      t.predicate.toTermPattern.unify (.iri u.predicate) b := by
    intro b
    cases t.predicate with
    | iri i =>
        show (if i = u.predicate then some b else none) =
          if Term.iri u.predicate = .iri i then some b else none
        simp only [Term.iri.injEq, eq_comm]
    | var v => rfl
  unfold unify unifyAll positions
  simp only [List.foldlM_cons, List.foldlM_nil, hpredicate]
  cases t.subject.unify u.subject.toTerm b with
  | none => rfl
  | some b₁ =>
      show (t.predicate.toTermPattern.unify _ b₁).bind _ =
        (t.predicate.toTermPattern.unify _ b₁).bind _
      congr 1
      funext b₂
      exact (Option.bind_fun_some _).symm

theorem instance_iff : t.Instance b u ↔ ∀ cell ∈ t.positions u, cell.1.value? b = some cell.2 := by
  have hpredicate : t.predicate.value? b = t.predicate.toTermPattern.value? b := by
    cases t.predicate <;> rfl
  constructor
  · rintro ⟨hs, hp, ho⟩ cell hcell
    rw [hpredicate] at hp
    simp only [positions, List.mem_cons, List.not_mem_nil, or_false] at hcell
    rcases hcell with rfl | rfl | rfl
    · exact hs
    · exact hp
    · exact ho
  · intro h
    refine ⟨h _ List.mem_cons_self, ?_, h (t.object, u.object) (by simp [positions])⟩
    rw [hpredicate]
    exact h _ (List.mem_cons_of_mem _ List.mem_cons_self)

theorem mem_unknowns_iff :
    v ∈ t.unknowns ↔ ∃ cell ∈ t.positions u, v ∈ cell.1.unknowns := by
  have hpredicate : t.predicate.variables = t.predicate.toTermPattern.unknowns := by
    cases t.predicate <;> rfl
  simp only [unknowns, positions, hpredicate, List.mem_append, List.mem_cons, List.not_mem_nil,
    or_false, exists_eq_or_imp, exists_eq_left, or_assoc]

theorem unifyAll_spec (h : unifyAll cells b = some b') :
    b'.Extends b ∧ (∀ v, b'.Binds v ↔ b.Binds v ∨ ∃ cell ∈ cells, v ∈ cell.1.unknowns) ∧
      ∀ cell ∈ cells, cell.1.value? b' = some cell.2 := by
  induction cells generalizing b with
  | nil =>
      obtain rfl := Option.some.inj h
      exact ⟨.refl b, by simp, by simp⟩
  | cons cell cells ih =>
      obtain ⟨b₁, hcell, hcells⟩ := Option.bind_eq_some_iff.mp h
      obtain ⟨hb, hbinds, hvalue⟩ := TermPattern.unify_spec hcell
      obtain ⟨hb', hbinds', hvalues⟩ := ih hcells
      refine ⟨hb'.trans hb, fun v => ?_, ?_⟩
      · rw [hbinds', hbinds, or_assoc]
        simp only [List.mem_cons, exists_eq_or_imp]
      · refine List.forall_mem_cons.mpr ⟨?_, hvalues⟩
        exact TermPattern.value?_of_extends hb' hvalue

theorem exists_unifyAll (hb : b'.Extends b)
    (h : ∀ cell ∈ cells, cell.1.value? b' = some cell.2) :
    ∃ m, unifyAll cells b = some m ∧ b'.Extends m := by
  induction cells generalizing b with
  | nil => exact ⟨b, rfl, hb⟩
  | cons cell cells ih =>
      obtain ⟨hcell, hcells⟩ := List.forall_mem_cons.mp h
      obtain ⟨b₁, hb₁, hext⟩ := TermPattern.exists_unify hb hcell
      obtain ⟨m, hm, hext'⟩ := ih hext hcells
      exact ⟨m, Option.bind_eq_some_iff.mpr ⟨b₁, hb₁, hm⟩, hext'⟩

theorem merging_unify (t : TriplePattern) (u : Triple) : Merging (t.unify u) := by
  have hall : t.unify u = unifyAll (t.positions u) := funext (t.unify_eq_unifyAll u)
  rw [hall]
  exact Merging.foldlM (fun cell : TermPattern × Term => TermPattern.merging_unify cell.1 cell.2) _

/-- Matched with the empty binding, a triple pattern gives the binding of its unknowns that makes
it the triple. -/
theorem unify_empty : t.unify u .empty = some b ↔
    (∀ v, b.Binds v ↔ v ∈ t.unknowns) ∧ t.Instance b u := by
  rw [unify_eq_unifyAll, instance_iff]
  constructor
  · intro h
    obtain ⟨-, hbinds, hvalues⟩ := unifyAll_spec h
    refine ⟨fun v => ?_, hvalues⟩
    rw [hbinds, mem_unknowns_iff (u := u)]
    exact or_iff_right (Binding.not_binds_empty v)
  · rintro ⟨hbinds, hvalues⟩
    obtain ⟨m, hm, hext⟩ := exists_unifyAll (Binding.extends_empty b) hvalues
    obtain ⟨-, hbinds', -⟩ := unifyAll_spec hm
    rw [hm]
    congr 1
    refine Binding.eq_of_extends hext (.refl b) fun v => ?_
    rw [hbinds', hbinds, mem_unknowns_iff (u := u)]
    exact or_iff_right (Binding.not_binds_empty v)

end TriplePattern

end GraphStore
