/-
# `GraphStore.Proofs.MergeLaws` — bindings as a partial join structure

Bindings are ordered by extension, and two of them have a join in that order if they agree on
the variables that both bind.  `a.merge? b` is this join (`merge?_eq_some_iff_least`), so the laws
of joins hold of it, where every equation also says that both sides are there or neither is.

Projecting and merging may change places,

    a, b    ── merge? ──▶  m
      │                    │
    project vs           project vs
      ▼                    ▼
    a', b'  ── merge? ──▶  m'

if `vs` has every variable that both bind.  Without a shared variable the way round below can be
open where the one above is not: `a` and `b` may disagree on nothing else.
-/
import GraphStore.Proofs.Merge

namespace GraphStore

namespace Binding

variable {a b m : Binding} {vs : List Variable}

/-! ## Joins -/

/-- The least binding that extends both: it has exactly their variables, with their values. -/
structure LeastExtension (a b m : Binding) : Prop where
  left : m.Extends a
  right : m.Extends b
  value : ∀ v, m.get? v = (a.get? v).or (b.get? v)
  least : ∀ n : Binding, n.Extends a → n.Extends b → n.Extends m

theorem isSome_merge? (a b : Binding) : (a.merge? b).isSome = a.compatible b := by
  unfold merge?
  split
  · rename_i hcompatible
    exact hcompatible.symm
  · rename_i hcompatible
    exact (Bool.eq_false_iff.mpr hcompatible).symm

theorem compatible_comm (a b : Binding) : a.compatible b = b.compatible a := by
  rw [← isSome_merge?, ← isSome_merge?, merge?_comm]

theorem merge?_eq_some_iff_least : a.merge? b = some m ↔ LeastExtension a b m := by
  constructor
  · intro h
    obtain ⟨hleft, hright⟩ := extends_of_merge? h
    refine ⟨hleft, hright, fun v => ?_, fun n ha hb => ha.of_merge? h hb⟩
    rw [merge?_comm] at h
    exact get?_merge h v
  · intro h
    refine merge?_eq_some.mpr ⟨h.left, h.right, fun v hv => ?_⟩
    simp only [Binds, h.value, Option.isSome_or, Bool.or_eq_true] at hv
    exact hv

@[simp] theorem merge?_self (a : Binding) : a.merge? a = some a :=
  merge?_eq_some.mpr ⟨.refl a, .refl a, fun _ => .inl⟩

/-! ## Projections -/

theorem Extends.project (h : m.Extends a) (vs : List Variable) :
    (m.project vs).Extends (a.project vs) := by
  intro v t ht
  rw [get?_project] at ht ⊢
  split at ht
  · rename_i hv
    rw [if_pos hv]
    exact h v t ht
  · cases ht

/-- A disagreement on one of the variables is seen in the projections. -/
theorem compatible_of_project (hvs : ∀ v, a.Binds v → b.Binds v → v ∈ vs)
    (h : (a.project vs).compatible (b.project vs) = true) : a.compatible b = true := by
  refine compatible_iff.mpr fun v t u ht hu => ?_
  have hv : v ∈ vs :=
    hvs v (Option.isSome_iff_exists.mpr ⟨t, ht⟩) (Option.isSome_iff_exists.mpr ⟨u, hu⟩)
  refine compatible_iff.mp h v t u ?_ ?_
  · rw [get?_project, if_pos hv, ht]
  · rw [get?_project, if_pos hv, hu]

theorem merge?_project (h : a.merge? b = some m) (vs : List Variable) :
    (a.project vs).merge? (b.project vs) = some (m.project vs) := by
  obtain ⟨ha, hb⟩ := extends_of_merge? h
  refine merge?_eq_some.mpr ⟨ha.project vs, hb.project vs, fun v hv => ?_⟩
  rw [binds_project] at hv
  rw [binds_project, binds_project]
  rcases (binds_merge? h v).mp hv.2 with hbinds | hbinds
  · exact .inl ⟨hv.1, hbinds⟩
  · exact .inr ⟨hv.1, hbinds⟩

theorem project_merge? (hvs : ∀ v, a.Binds v → b.Binds v → v ∈ vs) :
    (a.merge? b).map (·.project vs) = (a.project vs).merge? (b.project vs) := by
  cases hm : a.merge? b with
  | some m =>
      rw [merge?_project hm]
      rfl
  | none =>
      cases hp : (a.project vs).merge? (b.project vs) with
      | none => rfl
      | some p =>
          have hprojections : (a.project vs).compatible (b.project vs) = true := by
            rw [← isSome_merge?, hp]
            rfl
          have hcompatible := compatible_of_project hvs hprojections
          rw [← isSome_merge?, hm] at hcompatible
          cases hcompatible

end Binding

open Binding

/-- Merging is the join of the order of extension: defined for the compatible bindings,
commutative, idempotent, associative as far as it is defined, with the empty binding as unit; and
it commutes with projections that keep the shared variables. -/
theorem merging_joins (a b c : Binding) :
    a.compatible b = b.compatible a ∧
    (a.merge? b).isSome = a.compatible b ∧
    (∀ m, a.merge? b = some m ↔ LeastExtension a b m) ∧
    a.merge? b = b.merge? a ∧
    a.merge? a = some a ∧
    (empty.merge? a = some a ∧ a.merge? empty = some a) ∧
    (a.merge? b).bind (·.merge? c) = (b.merge? c).bind a.merge? ∧
    ∀ vs : List Variable, (∀ v, a.Binds v → b.Binds v → v ∈ vs) →
      (a.merge? b).map (·.project vs) = (a.project vs).merge? (b.project vs) :=
  ⟨compatible_comm a b, isSome_merge? a b, fun _ => merge?_eq_some_iff_least, merge?_comm a b,
    merge?_self a, ⟨empty_merge? a, merge?_empty a⟩, merge?_assoc a b c,
    fun _ hvs => project_merge? hvs⟩

/-- The shared variable is kept, one other is dropped, and one that nobody binds is listed. -/
theorem merging_joins_projected :
    let x : Variable := ⟨"x"⟩
    let y : Variable := ⟨"y"⟩
    let z : Variable := ⟨"z"⟩
    let i : Term := .iri ⟨"http://e.com/i"⟩
    let a := Binding.ofList [(y, i), (x, i)]
    let b := Binding.ofList [(z, .iri ⟨"http://e.com/j"⟩), (x, i)]
    let vs : List Variable := [z, ⟨"w"⟩, x, z]
    (∀ v, a.Binds v → b.Binds v → v ∈ vs) ∧
      (a.merge? b).map (·.project vs) = some b := by
  intro x y z i a b vs
  have hvs : ∀ v, a.Binds v → b.Binds v → v ∈ vs := by
    have hentries : ∀ e ∈ a.entries, (b.get? e.1).isSome = true → e.1 ∈ vs := by decide
    intro v ha hb
    obtain ⟨t, ht⟩ := Option.isSome_iff_exists.mp ha
    exact hentries (v, t) ((Entry.mem_iff_find a.ordered).mpr ht) hb
  obtain ⟨-, -, -, -, -, -, -, hproject⟩ := merging_joins a b empty
  refine ⟨hvs, (hproject vs hvs).trans ?_⟩
  decide

/-- Where a shared variable is dropped, the projections can be merged although the bindings
cannot. -/
example :
    let a := Binding.single ⟨"x"⟩ (.iri ⟨"http://e.com/i"⟩)
    let b := Binding.single ⟨"x"⟩ (.iri ⟨"http://e.com/j"⟩)
    a.merge? b = none ∧ (a.project []).merge? (b.project []) = some empty := by
  decide

end GraphStore
