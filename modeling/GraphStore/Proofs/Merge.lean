/-
# `GraphStore.Proofs.Merge` — bindings under extension, merging and joining

`m.Extends a` orders bindings: `m` binds what `a` binds, to the same terms.  Merging
is described by this order alone.  `a.merge? b` is `m` exactly when `m` extends both
and binds no further variable (`merge?_eq_some`), and there is such an `m` exactly
when some binding extends both (`exists_merge?`).  The two sides of this description
are symmetric, and so merging is commutative and associative without looking at
entries again.

`join` is the merging of two multisets of bindings, all compatible pairs.  It inherits
associativity, has the empty binding as its unit and distributes over sums.
-/
import Mathlib.Data.Multiset.Bind
import GraphStore.Evaluation.Solutions

namespace GraphStore

namespace Entry

/-- Entries in order hold one value for each variable. -/
theorem mem_iff_find {es : List Entry} (h : es.Pairwise Before) {v : Variable} {t : Term} :
    (v, t) ∈ es ↔ find v es = some t := by
  induction es with
  | nil => simp [find]
  | cons e es ih =>
      obtain ⟨hlt, hes⟩ := List.pairwise_cons.mp h
      rw [List.mem_cons, ih hes, find]
      by_cases hev : e.1 = v
      · have hnone : find v es = none := by
          refine find_eq_none_of_forall fun a ha => ?_
          rw [← hev]
          exact hlt a ha
        rw [if_pos hev, hnone]
        constructor
        · rintro (rfl | hfalse)
          · rfl
          · cases hfalse
        · intro ht
          exact .inl (Prod.ext hev.symm (Option.some.inj ht).symm)
      · rw [if_neg hev]
        constructor
        · rintro (rfl | hfind)
          · exact absurd rfl hev
          · exact hfind
        · exact .inr

/-- Setting entries one after the other: the new ones win. -/
theorem find_foldl_insert {es : List Entry} (h : es.Pairwise Before) (b : Binding) (v : Variable) :
    (es.foldl (fun c e => c.insert e.1 e.2) b).get? v = (find v es).or (b.get? v) := by
  induction es generalizing b with
  | nil => rfl
  | cons e es ih =>
      obtain ⟨hlt, hes⟩ := List.pairwise_cons.mp h
      rw [List.foldl_cons, ih hes, Binding.get?_insert, find]
      by_cases hev : e.1 = v
      · have hnone : find v es = none := by
          refine find_eq_none_of_forall fun a ha => ?_
          rw [← hev]
          exact hlt a ha
        rw [if_pos hev, if_pos hev, hnone]
        rfl
      · rw [if_neg hev, if_neg hev]

end Entry

namespace Binding

variable {a b c m : Binding} {v w : Variable} {t u : Term}

/-! ## Extension -/

/-- The binding `m` binds what `a` binds, to the same terms. -/
def Extends (m a : Binding) : Prop := ∀ v t, a.get? v = some t → m.get? v = some t

/-- The variable has a value. -/
def Binds (b : Binding) (v : Variable) : Prop := (b.get? v).isSome

theorem Extends.refl (a : Binding) : a.Extends a := fun _ _ h => h

theorem Extends.trans (h : m.Extends b) (h' : b.Extends a) : m.Extends a :=
  fun v t ha => h v t (h' v t ha)

theorem extends_empty (m : Binding) : m.Extends empty := fun _ _ h => by cases h

/-- A binding is determined by what it extends if it binds nothing else. -/
theorem Extends.get?_eq (h : m.Extends a) (hv : a.Binds v) : m.get? v = a.get? v := by
  obtain ⟨t, ht⟩ := Option.isSome_iff_exists.mp hv
  rw [h v t ht, ht]

theorem Extends.binds (h : m.Extends a) (hv : a.Binds v) : m.Binds v := by
  unfold Binds
  rw [h.get?_eq hv]
  exact hv

theorem not_binds : ¬ b.Binds v ↔ b.get? v = none := by
  unfold Binds
  rw [Bool.not_eq_true, Option.isSome_eq_false_iff, Option.isNone_iff_eq_none]

theorem not_binds_empty (v : Variable) : ¬ empty.Binds v := fun h => by cases h

/-- Two bindings with a common extension and the same variables are equal. -/
theorem eq_of_extends (ha : m.Extends a) (hb : m.Extends b) (h : ∀ v, a.Binds v ↔ b.Binds v) :
    a = b := by
  ext1 v
  by_cases hv : a.Binds v
  · rw [← ha.get?_eq hv, ← hb.get?_eq ((h v).mp hv)]
  · rw [not_binds.mp hv, not_binds.mp fun hb => hv ((h v).mpr hb)]

/-! ## Merging -/

theorem compatible_iff :
    a.compatible b = true ↔ ∀ v t u, a.get? v = some t → b.get? v = some u → t = u := by
  unfold compatible
  rw [List.all_eq_true]
  constructor
  · intro h v t u ha hb
    have he := h (v, t) ((Entry.mem_iff_find a.ordered).mpr ha)
    simp only [hb, Option.all_some, beq_iff_eq] at he
    exact he.symm
  · rintro h ⟨v, t⟩ he
    have ha : a.get? v = some t := (Entry.mem_iff_find a.ordered).mp he
    cases hb : b.get? v with
    | none => simp
    | some u => simp [h v t u ha hb]

theorem get?_merge (h : a.merge? b = some m) (v : Variable) :
    m.get? v = (b.get? v).or (a.get? v) := by
  unfold merge? at h
  split at h
  · rw [← Option.some.inj h]
    exact Entry.find_foldl_insert b.ordered a v
  · cases h

/-- Bindings with a common extension can be merged. -/
theorem exists_merge? (ha : m.Extends a) (hb : m.Extends b) : ∃ n, a.merge? b = some n := by
  have hcompatible : a.compatible b = true := by
    refine compatible_iff.mpr fun v t u ht hu => ?_
    have := (ha v t ht).symm.trans (hb v u hu)
    exact Option.some.inj this
  unfold merge?
  rw [if_pos hcompatible]
  exact ⟨_, rfl⟩

theorem extends_of_merge? (h : a.merge? b = some m) : m.Extends a ∧ m.Extends b := by
  have hget := get?_merge h
  constructor
  · intro v t ha
    rw [hget v]
    cases hb : b.get? v with
    | none => exact ha
    | some u =>
        have hcompatible : a.compatible b = true := by
          unfold merge? at h
          split at h
          · assumption
          · cases h
        rw [compatible_iff.mp hcompatible v t u ha hb]
        rfl
  · intro v t hb
    rw [hget v, hb]
    rfl

/-- A merge is the least common extension. -/
theorem Extends.of_merge? {n : Binding} (h : a.merge? b = some n) (ha : m.Extends a)
    (hb : m.Extends b) : m.Extends n := by
  intro v t ht
  cases hbv : b.get? v with
  | some u =>
      rw [← ht, (extends_of_merge? h).2 v u hbv]
      exact hb v u hbv
  | none =>
      rw [get?_merge h, hbv] at ht
      exact ha v t ht

theorem binds_merge? (h : a.merge? b = some m) (v : Variable) :
    m.Binds v ↔ a.Binds v ∨ b.Binds v := by
  unfold Binds
  rw [get?_merge h v]
  cases ha : a.get? v <;> cases hb : b.get? v <;> simp

/-- A merge is the binding that extends both and binds no other variable. -/
theorem merge?_eq_some :
    a.merge? b = some m ↔
      m.Extends a ∧ m.Extends b ∧ ∀ v, m.Binds v → a.Binds v ∨ b.Binds v := by
  constructor
  · intro h
    obtain ⟨ha, hb⟩ := extends_of_merge? h
    exact ⟨ha, hb, fun v => (binds_merge? h v).mp⟩
  · rintro ⟨ha, hb, hm⟩
    obtain ⟨n, hn⟩ := exists_merge? ha hb
    rw [hn]
    congr 1
    obtain ⟨hna, hnb⟩ := extends_of_merge? hn
    -- both bind the same variables, and on these both agree with `a` or with `b`
    ext1 v
    by_cases hva : a.Binds v
    · rw [hna.get?_eq hva, ha.get?_eq hva]
    · by_cases hvb : b.Binds v
      · rw [hnb.get?_eq hvb, hb.get?_eq hvb]
      · have hn' : ¬ n.Binds v := fun h => ((binds_merge? hn v).mp h).elim hva hvb
        have hm' : ¬ m.Binds v := fun h => (hm v h).elim hva hvb
        rw [not_binds.mp hn', not_binds.mp hm']

theorem merge?_comm (a b : Binding) : a.merge? b = b.merge? a := by
  ext m
  rw [merge?_eq_some, merge?_eq_some]
  constructor
  · rintro ⟨ha, hb, hm⟩
    exact ⟨hb, ha, fun v hv => (hm v hv).symm⟩
  · rintro ⟨hb, ha, hm⟩
    exact ⟨ha, hb, fun v hv => (hm v hv).symm⟩

@[simp] theorem empty_merge? (b : Binding) : empty.merge? b = some b := by
  refine merge?_eq_some.mpr ⟨extends_empty b, .refl b, fun v hv => .inr hv⟩

@[simp] theorem merge?_empty (a : Binding) : a.merge? empty = some a := by
  rw [merge?_comm, empty_merge?]

/-- Three bindings merged either way give the least binding that extends all three. -/
theorem merge?_merge?_eq_some :
    (b.merge? c).bind a.merge? = some m ↔
      m.Extends a ∧ m.Extends b ∧ m.Extends c ∧
        ∀ v, m.Binds v → a.Binds v ∨ b.Binds v ∨ c.Binds v := by
  rw [Option.bind_eq_some_iff]
  constructor
  · rintro ⟨n, hn, hm⟩
    obtain ⟨hnb, hnc⟩ := extends_of_merge? hn
    obtain ⟨hma, hmn⟩ := extends_of_merge? hm
    refine ⟨hma, hmn.trans hnb, hmn.trans hnc, fun v hv => ?_⟩
    rcases (binds_merge? hm v).mp hv with hv | hv
    · exact .inl hv
    · exact .inr ((binds_merge? hn v).mp hv)
  · rintro ⟨hma, hmb, hmc, hm⟩
    obtain ⟨n, hn⟩ := exists_merge? hmb hmc
    refine ⟨n, hn, merge?_eq_some.mpr ⟨hma, hmb.of_merge? hn hmc, fun v hv => ?_⟩⟩
    rcases hm v hv with hv | hv
    · exact .inl hv
    · exact .inr ((binds_merge? hn v).mpr hv)

theorem merge?_assoc (a b c : Binding) :
    (a.merge? b).bind (·.merge? c) = (b.merge? c).bind a.merge? := by
  have hcomm : (a.merge? b).bind (·.merge? c) = (a.merge? b).bind c.merge? := by
    congr 1
    funext n
    exact merge?_comm n c
  ext m
  rw [hcomm, merge?_merge?_eq_some, merge?_merge?_eq_some]
  constructor
  · rintro ⟨hc, ha, hb, hm⟩
    exact ⟨ha, hb, hc, fun v hv => by rcases hm v hv with h | h | h <;> simp [h]⟩
  · rintro ⟨ha, hb, hc, hm⟩
    exact ⟨hc, ha, hb, fun v hv => by rcases hm v hv with h | h | h <;> simp [h]⟩

/-! ## Single variables -/

/-- The binding of one variable. -/
def single (v : Variable) (t : Term) : Binding := empty.insert v t

theorem get?_single (v w : Variable) (t : Term) :
    (single v t).get? w = if v = w then some t else none := by
  rw [single, get?_insert, get?_empty]

theorem binds_single : (single v t).Binds w ↔ v = w := by
  unfold Binds
  rw [get?_single]
  split <;> simp_all

theorem extends_single : m.Extends (single v t) ↔ m.get? v = some t := by
  constructor
  · intro h
    exact h v t (by rw [get?_single, if_pos rfl])
  · intro h w u hu
    rw [get?_single] at hu
    split at hu
    · rename_i hvw
      rw [← hvw, h, Option.some.inj hu]
    · cases hu

theorem extends_insert (hv : b.get? v = none) (t : Term) : (b.insert v t).Extends b := by
  intro w u hw
  rw [get?_insert]
  split
  · rename_i hvw
    rw [← hvw, hv] at hw
    cases hw
  · exact hw

theorem binds_insert : (b.insert v t).Binds w ↔ b.Binds w ∨ v = w := by
  unfold Binds
  rw [get?_insert]
  split <;> simp_all

/-- Binding a variable, unless it is bound to another term, is merging. -/
theorem unify_eq_merge? (b : Binding) (v : Variable) (t : Term) :
    b.unify v t = b.merge? (single v t) := by
  unfold unify
  cases hv : b.get? v with
  | none =>
      refine (merge?_eq_some.mpr ⟨extends_insert hv t, ?_, fun w hw => ?_⟩).symm
      · rw [extends_single, get?_insert, if_pos rfl]
      · rw [binds_single]
        exact binds_insert.mp hw
  | some u =>
      show (if u = t then some b else none) = _
      by_cases hut : u = t
      · rw [if_pos hut]
        rw [hut] at hv
        exact (merge?_eq_some.mpr ⟨.refl b, extends_single.mpr hv, fun w => .inl⟩).symm
      · rw [if_neg hut]
        cases hm : b.merge? (single v t) with
        | none => rfl
        | some m =>
            obtain ⟨hb, ht⟩ := extends_of_merge? hm
            rw [extends_single, hb v u hv] at ht
            exact absurd (Option.some.inj ht) hut

/-! ## Projection

A binding is projected by collecting its values for the variables; what has been
collected is extended by the binding all the time. -/

/-- Collects the value of one more variable. -/
def collect (b c : Binding) (v : Variable) : Binding := (b.get? v).elim c (c.insert v)

theorem project_eq_foldl (b : Binding) (vs : List Variable) :
    b.project vs = vs.foldl b.collect empty := by
  unfold project
  congr 1
  funext c v
  unfold collect
  cases b.get? v <;> rfl

theorem get?_collect (h : b.Extends c) (w v : Variable) :
    (b.collect c w).get? v = if w = v then b.get? v else c.get? v := by
  unfold collect
  cases hw : b.get? w with
  | none =>
      rw [Option.elim_none]
      split
      · rename_i hwv
        rw [← hwv, hw]
        exact not_binds.mp fun hc => not_binds.mpr hw (h.binds hc)
      · rfl
  | some t =>
      rw [Option.elim_some, get?_insert]
      split
      · rename_i hwv
        rw [← hwv, hw]
      · rfl

theorem extends_collect (h : b.Extends c) (w : Variable) : b.Extends (b.collect c w) := by
  intro v t ht
  rw [get?_collect h] at ht
  split at ht
  · exact ht
  · exact h v t ht

theorem get?_foldl_collect (h : b.Extends c) (vs : List Variable) (v : Variable) :
    (vs.foldl b.collect c).get? v = if v ∈ vs then b.get? v else c.get? v := by
  induction vs generalizing c with
  | nil => rfl
  | cons w vs ih =>
      rw [List.foldl_cons, ih (extends_collect h w), get?_collect h]
      by_cases hvw : w = v
      · rw [if_pos hvw, ite_self, if_pos (List.mem_cons.mpr (.inl hvw.symm))]
      · rw [if_neg hvw]
        simp only [List.mem_cons, Ne.symm hvw, false_or]

theorem get?_project (b : Binding) (vs : List Variable) (v : Variable) :
    (b.project vs).get? v = if v ∈ vs then b.get? v else none := by
  rw [project_eq_foldl]
  exact get?_foldl_collect (extends_empty b) vs v

theorem extends_project (b : Binding) (vs : List Variable) : b.Extends (b.project vs) := by
  intro v t h
  rw [get?_project] at h
  split at h
  · exact h
  · cases h

theorem binds_project (b : Binding) (vs : List Variable) (v : Variable) :
    (b.project vs).Binds v ↔ v ∈ vs ∧ b.Binds v := by
  unfold Binds
  rw [get?_project]
  split <;> simp_all

/-! ## Joining -/

/-- The merges of all compatible pairs. -/
def join (A B : Multiset Binding) : Multiset Binding := A.bind fun a => B.filterMap a.merge?

variable {A B C : Multiset Binding}

theorem mem_join {A B : Multiset Binding} :
    m ∈ join A B ↔ ∃ a ∈ A, ∃ b ∈ B, a.merge? b = some m := by
  simp only [join, Multiset.mem_bind, Multiset.mem_filterMap]

@[simp] theorem zero_join (B : Multiset Binding) : join 0 B = 0 := Multiset.zero_bind _

theorem join_add (A B B' : Multiset Binding) : join A (B + B') = join A B + join A B' := by
  unfold join
  rw [← Multiset.bind_add]
  exact Multiset.bind_congr fun a _ => Multiset.filterMap_add ..

theorem singleton_join (a : Binding) (B : Multiset Binding) :
    join {a} B = B.filterMap a.merge? := Multiset.singleton_bind ..

theorem join_singleton (A : Multiset Binding) (b : Binding) :
    join A {b} = A.filterMap (·.merge? b) := by
  unfold join
  rw [Multiset.filterMap_eq_bind]
  refine Multiset.bind_congr fun a _ => ?_
  cases hm : a.merge? b with
  | none => exact Multiset.filterMap_cons_none _ 0 hm
  | some m => exact Multiset.filterMap_cons_some _ _ 0 hm

theorem join_bind {ι : Type} (A : Multiset Binding) (S : Multiset ι)
    (F : ι → Multiset Binding) : join A (S.bind F) = S.bind fun i => join A (F i) := by
  unfold join
  simp only [Multiset.filterMap_bind]
  exact Multiset.bind_bind ..

/-- The empty binding is a unit. -/
@[simp] theorem empty_join (B : Multiset Binding) : join {empty} B = B := by
  rw [singleton_join, show empty.merge? = some from funext empty_merge?]
  exact Multiset.filterMap_some B

@[simp] theorem join_empty (A : Multiset Binding) : join A {empty} = A := by
  unfold join
  have hsingle : ∀ a : Binding, ({empty} : Multiset Binding).filterMap a.merge? = {a} :=
    fun a => Multiset.filterMap_cons_some _ _ 0 (merge?_empty a)
  rw [Multiset.bind_congr fun a _ => hsingle a, Multiset.bind_singleton, Multiset.map_id']

theorem join_assoc (A B C : Multiset Binding) : join (join A B) C = join A (join B C) := by
  unfold join
  rw [Multiset.bind_assoc]
  refine Multiset.bind_congr fun a _ => ?_
  rw [Multiset.bind_filterMap, Multiset.filterMap_bind]
  refine Multiset.bind_congr fun b _ => ?_
  rw [Multiset.filterMap_filterMap]
  have hassoc : (fun c => (b.merge? c).bind a.merge?) =
      fun c => (a.merge? b).bind (·.merge? c) := funext fun c => (merge?_assoc a b c).symm
  rw [hassoc]
  cases a.merge? b with
  | none => simp [Multiset.filterMap_eq_bind]
  | some n => rfl

end Binding

end GraphStore
