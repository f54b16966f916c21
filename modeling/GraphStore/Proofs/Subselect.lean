/-
# `GraphStore.Proofs.Subselect` — a subselect among the solutions before it

A subselect is a projection with DISTINCT, REDUCED and LIMIT around it, in any nesting.
The projection starts afresh: it finds its own solutions, whatever the seeds are, and
joins them with the seeds.  What stands around it does not start afresh.  It is applied
to the joined solutions of all seeds together (`Subselect.eval_pattern`):

    own solutions  ──merges──▶  joined solutions  ──modify──▶  answer

The query language has it the other way around, first `modify` and then `merges`.  The
two orders agree where the seeds leave every modifier alone, `Modifier.Admits`:

* DISTINCT and REDUCED, if no binding is the merge of two different pairs, for a pair of
  equal merges would count once after the merging and twice before it;
* a slice, if there is one seed at most and it is compatible with all own solutions, for
  otherwise a LIMIT counts pairs and not solutions.

Seeds that bind none of the variables of the subselect are the plain case of this
(`Modifier.admits_of_not_binds`).  Two runs show that the orders differ in general.
-/
import GraphStore.Proofs.Lookup

namespace GraphStore

open Binding

/-! ## Merging lists -/

namespace Binding

variable {seeds own : List Binding} {b x : Binding}

/-- The merges of all compatible pairs, in the order of the seeds. -/
def merges (seeds own : List Binding) : List Binding :=
  seeds.flatMap fun b => own.filterMap b.merge?

theorem merges_nil (own : List Binding) : merges [] own = [] := rfl

theorem merges_cons (b : Binding) (seeds own : List Binding) :
    merges (b :: seeds) own = own.filterMap b.merge? ++ merges seeds own := rfl

theorem mem_merges {n : Binding} :
    n ∈ merges seeds own ↔ ∃ b ∈ seeds, ∃ x ∈ own, b.merge? x = some n := by
  simp only [merges, List.mem_flatMap, List.mem_filterMap]

/-- The empty seed changes nothing. -/
theorem merges_empty (own : List Binding) : merges [empty] own = own := by
  rw [merges_cons, merges_nil, List.append_nil, show empty.merge? = some from funext empty_merge?]
  exact List.filterMap_some

/-- No binding is the merge of two different pairs. -/
def Separate (seeds own : List Binding) : Prop :=
  ∀ b ∈ seeds, ∀ b' ∈ seeds, ∀ x ∈ own, ∀ x' ∈ own, ∀ n,
    b.merge? x = some n → b'.merge? x' = some n → b = b' ∧ x = x'

/-- Repetitions may be dropped before the merging if pairs are told apart by their merges. -/
theorem eraseDups_merges (hseeds : seeds.Nodup) (h : Separate seeds own) :
    (merges seeds own).eraseDups = merges seeds own.eraseDups := by
  induction seeds with
  | nil => rfl
  | cons b seeds ih =>
      obtain ⟨hb, hseeds⟩ := List.nodup_cons.mp hseeds
      have hhead : (own.filterMap b.merge?).eraseDups = own.eraseDups.filterMap b.merge? := by
        refine eraseDups_filterMap own fun x hx x' hx' n hn hn' => ?_
        exact (h b List.mem_cons_self b List.mem_cons_self x hx x' hx' n hn hn').2
      have hdisjoint :
          (merges seeds own).removeAll (own.filterMap b.merge?) = merges seeds own := by
        refine List.filter_eq_self.mpr fun n hn => ?_
        obtain ⟨b', hb', x', hx', hn'⟩ := mem_merges.mp hn
        rw [Bool.not_eq_true', List.elem_eq_mem, decide_eq_false_iff_not]
        intro hmem
        obtain ⟨x, hx, hxn⟩ := List.mem_filterMap.mp hmem
        obtain ⟨rfl, -⟩ := h b List.mem_cons_self b' (List.mem_cons_of_mem _ hb') x hx x' hx' n
          hxn hn'
        exact hb hb'
      have htail := ih hseeds fun c hc c' hc' =>
        h c (List.mem_cons_of_mem _ hc) c' (List.mem_cons_of_mem _ hc')
      rw [merges_cons, List.eraseDups_append, hdisjoint, hhead, htail, merges_cons]

end Binding

/-! ## Modifiers -/

/-- What may stand around the projection of a subselect. -/
inductive Modifier where
  | distinct
  | reduced
  | slice (start : Nat) (length : Option Nat)
deriving DecidableEq

namespace Modifier

variable {seeds own : List Binding}

/-- The pattern with the modifier around it. -/
def around : Modifier → Pattern → Pattern
  | .distinct, p => .distinct p
  | .reduced, p => .reduced p
  | .slice start length, p => .slice p start length

/-- The effect on a list of solutions. -/
def apply : Modifier → List Binding → List Binding
  | .distinct, bs | .reduced, bs => bs.eraseDups
  | .slice start length, bs => length.elim (bs.drop start) (bs.drop start).take

/-- The modifier does the same before the own solutions are merged with the seeds as after it. -/
def Admits (seeds own : List Binding) : Modifier → Prop
  | .distinct | .reduced => seeds.Nodup ∧ Separate seeds own
  | .slice .. => seeds.length ≤ 1 ∧ ∀ b ∈ seeds, ∀ x ∈ own, (b.merge? x).isSome

theorem eval_around (d : Dataset (Except EvaluationError)) (m : Modifier) (p : Pattern)
    (g : GraphName) (input : List Binding) :
    d.eval (m.around p) g input = (d.eval p g input).map m.apply := by
  cases m <;> cases hp : d.eval p g input <;> simp only [around, Dataset.eval, hp] <;> rfl

theorem apply_subset (m : Modifier) (bs : List Binding) : m.apply bs ⊆ bs := by
  cases m with
  | distinct | reduced => exact fun b hb => List.mem_eraseDups.mp hb
  | slice start length =>
      cases length with
      | none => exact List.drop_subset start bs
      | some n => exact fun b hb => List.drop_subset start bs (List.take_subset n _ hb)

theorem Admits.mono {m : Modifier} {own' : List Binding} (h : m.Admits seeds own)
    (hsub : own' ⊆ own) : m.Admits seeds own' := by
  cases m with
  | distinct | reduced =>
      exact ⟨h.1, fun b hb b' hb' x hx x' hx' => h.2 b hb b' hb' x (hsub hx) x' (hsub hx')⟩
  | slice => exact ⟨h.1, fun b hb x hx => h.2 b hb x (hsub hx)⟩

theorem slice_merges {start : Nat} {length : Option Nat}
    (h : (slice start length).Admits seeds own) :
    (slice start length).apply (merges seeds own) =
      merges seeds ((slice start length).apply own) := by
  obtain ⟨hsingle, hcompatible⟩ := h
  match seeds, hsingle with
  | [], _ => cases length <;> simp [apply, merges_nil]
  | [b], _ =>
      -- a compatible seed has one merge for every solution
      have hmap : ∀ xs : List Binding, xs ⊆ own →
          merges [b] xs = xs.map fun x => (b.merge? x).getD x := by
        intro xs hxs
        rw [merges_cons, merges_nil, List.append_nil, ← List.filterMap_eq_map]
        refine List.filterMap_congr fun x hx => ?_
        have hx' := hcompatible b List.mem_cons_self x (hxs hx)
        rw [Function.comp_apply, ← Option.some_get hx', Option.getD_some, Option.some_get]
      rw [hmap own fun _ hx => hx, hmap _ (apply_subset (slice start length) own)]
      cases length <;> simp [apply, List.map_drop, List.map_take]

theorem apply_merges {m : Modifier} (h : m.Admits seeds own) :
    m.apply (merges seeds own) = merges seeds (m.apply own) := by
  cases m with
  | distinct | reduced => exact eraseDups_merges h.1 h.2
  | slice start length => exact slice_merges h

/-- Seeds without the variables of the own solutions. -/
theorem admits_of_not_binds {vars : List Variable} (hown : ∀ x ∈ own, ∀ v, x.Binds v → v ∈ vars)
    (hseeds : ∀ b ∈ seeds, ∀ v ∈ vars, ¬ b.Binds v) (hnodup : seeds.Nodup) (m : Modifier)
    (hone : (∃ start length, m = slice start length) → seeds.length ≤ 1) :
    m.Admits seeds own := by
  -- the merge has the values of the own solution for `vars` and those of the seed elsewhere
  have hget : ∀ b ∈ seeds, ∀ x ∈ own, ∀ n, b.merge? x = some n → ∀ v,
      (v ∈ vars → n.get? v = x.get? v ∧ b.get? v = none) ∧
      (v ∉ vars → n.get? v = b.get? v ∧ x.get? v = none) := by
    intro b hb x hx n hn v
    rw [get?_merge hn v]
    constructor
    · intro hv
      have hnone := not_binds.mp (hseeds b hb v hv)
      rw [hnone, Option.or_none]
      exact ⟨rfl, rfl⟩
    · intro hv
      have hnone : x.get? v = none := not_binds.mp fun hbinds => hv (hown x hx v hbinds)
      rw [hnone, Option.none_or]
      exact ⟨rfl, rfl⟩
  have hseparate : Separate seeds own := by
    intro b hb b' hb' x hx x' hx' n hn hn'
    have h := hget b hb x hx n hn
    have h' := hget b' hb' x' hx' n hn'
    constructor
    · ext1 v
      by_cases hv : v ∈ vars
      · rw [((h v).1 hv).2, ((h' v).1 hv).2]
      · rw [← ((h v).2 hv).1, ← ((h' v).2 hv).1]
    · ext1 v
      by_cases hv : v ∈ vars
      · rw [← ((h v).1 hv).1, ← ((h' v).1 hv).1]
      · rw [((h v).2 hv).2, ((h' v).2 hv).2]
  cases m with
  | distinct | reduced => exact ⟨hnodup, hseparate⟩
  | slice start length =>
      refine ⟨hone ⟨start, length, rfl⟩, fun b hb x hx => ?_⟩
      have hcompatible : b.compatible x = true := by
        refine compatible_iff.mpr fun v t u ht hu => ?_
        have hv := hown x hx v (Option.isSome_iff_exists.mpr ⟨u, hu⟩)
        exact absurd (Option.isSome_iff_exists.mpr ⟨t, ht⟩) (hseeds b hb v hv)
      unfold merge?
      rw [if_pos hcompatible]
      rfl

end Modifier

/-! ## Subselects -/

/-- A projection and what stands around it, the outermost first. -/
structure Subselect where
  modifiers : List Modifier
  inner : Pattern
  vars : List Variable

namespace Subselect

variable {s : Subselect} {seeds own : List Binding}

/-- The subselect as a pattern. -/
def pattern (s : Subselect) : Pattern := s.modifiers.foldr Modifier.around (.project s.inner s.vars)

/-- The effect of all modifiers. -/
def modify (s : Subselect) (bs : List Binding) : List Binding :=
  s.modifiers.foldr Modifier.apply bs

/-- The own solutions, from those of the inner pattern. -/
def projected (s : Subselect) (found : List Binding) : List Binding :=
  found.map (·.project s.vars)

/-- The own solutions are found from the empty binding, merged with all seeds, and then modified. -/
theorem eval_pattern (d : Dataset (Except EvaluationError)) (s : Subselect) (g : GraphName)
    (input : List Binding) :
    d.eval s.pattern g input =
      (d.eval s.inner g [.empty]).map fun found => s.modify (merges input (s.projected found)) := by
  obtain ⟨modifiers, inner, vars⟩ := s
  induction modifiers with
  | nil =>
      show d.eval (.project inner vars) g input = _
      rw [Dataset.eval]
      cases d.eval inner g [.empty] <;> rfl
  | cons m modifiers ih =>
      show d.eval (m.around (Subselect.pattern ⟨modifiers, inner, vars⟩)) g input = _
      rw [m.eval_around, ih]
      cases d.eval inner g [.empty] <;> rfl

theorem modify_subset (s : Subselect) (bs : List Binding) : s.modify bs ⊆ bs := by
  unfold modify
  induction s.modifiers with
  | nil => exact fun _ hb => hb
  | cons m modifiers ih => exact fun b hb => ih (m.apply_subset _ hb)

/-- Where every modifier admits the seeds, merging and modifying may change places. -/
theorem modify_merges (h : ∀ m ∈ s.modifiers, m.Admits seeds own) :
    s.modify (merges seeds own) = merges seeds (s.modify own) := by
  obtain ⟨modifiers, inner, vars⟩ := s
  induction modifiers with
  | nil => rfl
  | cons m modifiers ih =>
      have hrest := ih fun m' hm' => h m' (List.mem_cons_of_mem _ hm')
      have hm := (h m List.mem_cons_self).mono (modify_subset ⟨modifiers, inner, vars⟩ own)
      calc m.apply (Subselect.modify ⟨modifiers, inner, vars⟩ (merges seeds own))
          = m.apply (merges seeds (Subselect.modify ⟨modifiers, inner, vars⟩ own)) :=
            congrArg m.apply hrest
        _ = merges seeds (m.apply (Subselect.modify ⟨modifiers, inner, vars⟩ own)) :=
            Modifier.apply_merges hm

theorem mem_vars_of_mem_projected {found : List Binding} {x : Binding} {v : Variable}
    (hx : x ∈ s.projected found) (hv : x.Binds v) : v ∈ s.vars := by
  obtain ⟨b, -, rfl⟩ := List.mem_map.mp hx
  exact ((binds_project b s.vars v).mp hv).1

end Subselect

/-- A subselect is modified after it has been joined with the seeds.  It is evaluated on its own
and then joined if its modifiers admit the seeds; so it is without modifiers, and where the seeds
are different, bind none of its variables, and are one at most if it has a slice. -/
theorem subselect_eval (d : Dataset (Except EvaluationError)) (s : Subselect) (g : GraphName)
    (input : List Binding) :
    d.eval s.pattern g input =
        (d.eval s.inner g [.empty]).map (fun found => s.modify (merges input (s.projected found))) ∧
      ((∀ found, d.eval s.inner g [.empty] = .ok found →
          ∀ m ∈ s.modifiers, m.Admits input (s.projected found)) →
        d.eval s.pattern g input = (d.eval s.pattern g [.empty]).map (merges input)) ∧
      (input.Nodup → (∀ b ∈ input, ∀ v ∈ s.vars, ¬ b.Binds v) →
          ((∃ start length, .slice start length ∈ s.modifiers) → input.length ≤ 1) →
        d.eval s.pattern g input = (d.eval s.pattern g [.empty]).map (merges input)) := by
  have hadmits : (∀ found, d.eval s.inner g [.empty] = .ok found →
      ∀ m ∈ s.modifiers, m.Admits input (s.projected found)) →
      d.eval s.pattern g input = (d.eval s.pattern g [.empty]).map (merges input) := by
    intro h
    rw [s.eval_pattern d g input, s.eval_pattern d g [.empty]]
    cases hfound : d.eval s.inner g [.empty] with
    | error e => rfl
    | ok found =>
        simp only [Except.map, merges_empty, Subselect.modify_merges (h found hfound)]
  refine ⟨s.eval_pattern d g input, hadmits, fun hnodup hseeds hone => hadmits ?_⟩
  intro found _ m hm
  have hvars : ∀ x ∈ s.projected found, ∀ v, x.Binds v → v ∈ s.vars :=
    fun x hx v => Subselect.mem_vars_of_mem_projected hx
  refine m.admits_of_not_binds hvars hseeds hnodup ?_
  rintro ⟨start, length, rfl⟩
  exact hone ⟨start, length, hm⟩

/-- Two seeds without the variables of a DISTINCT subselect. -/
theorem subselect_eval_distinct :
    let x : Variable := ⟨"x"⟩
    let y : Variable := ⟨"y"⟩
    let a : Term := .iri ⟨"a"⟩
    let b : Term := .iri ⟨"b"⟩
    let d : Dataset (Except EvaluationError) := Content.view {} none
    let s : Subselect := ⟨[.distinct], .values [y] [[some a], [some b], [some a]], [y]⟩
    let seeds := [single x a, single x b]
    seeds.Nodup ∧ (∀ b ∈ seeds, ∀ v ∈ s.vars, ¬ b.Binds v) ∧
      d.eval s.pattern .default seeds =
        .ok (merges seeds [single y a, single y b]) := by
  intro x y a b d s seeds
  have hnodup : seeds.Nodup := by decide
  have hseeds : ∀ b ∈ seeds, ∀ v ∈ s.vars, ¬ b.Binds v := by
    show ∀ b ∈ seeds, ∀ v ∈ s.vars, ¬ (b.get? v).isSome
    decide
  have hone : (∃ start length, .slice start length ∈ s.modifiers) → seeds.length ≤ 1 := by
    rintro ⟨start, length, hslice⟩
    cases List.mem_singleton.mp hslice
  refine ⟨hnodup, hseeds, ?_⟩
  rw [(subselect_eval d s .default seeds).2.2 hnodup hseeds hone]
  rfl

/-- A subselect is not evaluated on its own in general: two seeds use up one LIMIT. -/
theorem limit_shared_by_seeds :
    ¬ ∀ (d : Dataset (Except EvaluationError)) (s : Subselect) (g : GraphName)
        (input bs own : List Binding), d.eval s.pattern g input = .ok bs →
          d.eval s.pattern g [.empty] = .ok own → bs.Perm (merges input own) := by
  intro h
  let x : Variable := ⟨"x"⟩
  let y : Variable := ⟨"y"⟩
  let a : Term := .iri ⟨"a"⟩
  let b : Term := .iri ⟨"b"⟩
  let s : Subselect := ⟨[.slice 0 (some 1)], .values [y] [[some a]], [y]⟩
  have hperm := h (Content.view {} none) s .default [single x a, single x b]
    [(single x a).insert y a] [single y a] rfl rfl
  exact absurd hperm.length_eq (by decide)

end GraphStore
