/-
# `GraphStore.Proofs.Agreement` — the evaluator computes what patterns mean

The evaluator is started on a list of bindings, the *seeds*, and every part of a
pattern is started on what the parts before it have found.  The meaning of a pattern
knows no seeds.  So there are two statements:

* `Joins c scope p g` — from any seeds, evaluation gives the join of the seeds with
  the meaning of `p`;
* `Agrees c scope p g` — from the empty binding, evaluation gives the meaning of `p`.

The first implies the second.  Both are cases of `Yields`, in which most forms have
one lemma.  Forms that look at whole solutions, such as FILTER and OPTIONAL, do not
join: a filter inside a pattern that is started on seeds would see more than its own
solutions.  `Pattern.Seedable` and `Pattern.Rooted` say from which parts a pattern
has to be made for either statement, and the two are proved together, since a
subselect is started afresh wherever it stands.

All statements are about evaluations that succeed.  When they do is the subject of
`GraphStore.Proofs.Supported`; an expression that is refused may go unnoticed, because
a GRAPH pattern without seeds for a graph is not evaluated in that graph.
-/
import GraphStore.Proofs.Supported

namespace GraphStore

open Binding

/-! ## Expressions, rows and lists of results -/

theorem Expr.keep_eq_ok {e : Expr} {bs kept : List Binding} (h : e.keep bs = .ok kept) :
    kept = bs.filter (e.isTrue ·) := by
  refine filter_eq_of_filterM h fun b r hr => ?_
  obtain ⟨t, ht, hr⟩ := bind_eq_ok.mp hr
  obtain ⟨v, hv, ht⟩ := bind_eq_ok.mp ht
  rw [Expr.isTrue, Expr.value?, hv, ← Except.ok.inj hr, ← Except.ok.inj ht]
  rfl

theorem Dataset.keep_eq_ok {condition : Option Expr} {bs kept : List Binding}
    (h : (Dataset.keep condition bs : Except EvaluationError (List Binding)) = .ok kept) :
    kept = bs.filter fun b => condition.all (·.isTrue b) := by
  cases condition with
  | none =>
      rw [← Except.ok.inj h]
      exact (List.filter_eq_self.mpr fun b _ => rfl).symm
  | some e =>
      rw [Dataset.keep, Dataset.lift_eq] at h
      exact Expr.keep_eq_ok h

theorem Binding.extend_eq_ok {b : Binding} {v : Variable} {e : Expr} {o : Option Binding}
    (h : b.extend v e = .ok o) : o = b.assign v (e.value? b) := by
  obtain ⟨t, ht, h⟩ := bind_eq_ok.mp h
  rw [Expr.value?, ht]
  cases t with
  | none => exact (Except.ok.inj h).symm
  | some t =>
      rw [← Except.ok.inj h]
      exact b.unify_eq_merge? v t

/-- Extending a binding by a row is merging it with the row. -/
theorem Binding.unifyRow_eq (b : Binding) (vars : List Variable) (row : List (Option Term)) :
    b.unifyRow vars row = (ofRow vars row).bind b.merge? := by
  have hassign : ∀ b : Binding, b.unifyRow vars row =
      (vars.zip row).foldlM (fun b cell => b.assign cell.1 cell.2) b := by
    intro b
    unfold unifyRow
    congr 1
    funext b cell
    cases cell.2 with
    | none => rfl
    | some t => exact b.unify_eq_merge? cell.1 t
  have hmerging : Merging fun b => (vars.zip row).foldlM (fun b cell => b.assign cell.1 cell.2) b := by
    refine Merging.foldlM (fun cell => ?_) _
    cases hcell : cell.2 with
    | none => exact Merging.some
    | some t =>
        have hunify : (fun b : Binding => b.assign cell.1 (some t)) = fun b => b.unify cell.1 t :=
          funext fun b => (b.unify_eq_merge? cell.1 t).symm
        rw [hunify]
        exact Merging.unify cell.1 t
  rw [hassign]
  exact hmerging b

/-- Filtering a list by a test filters its multiset. -/
theorem coe_filter {α : Type} (q : α → Bool) (xs : List α) :
    (xs.filter q : Multiset α) = (xs : Multiset α).filter (q ·) := by
  rw [Multiset.filter_coe]
  congr 2
  funext x
  rw [Bool.decide_eq_true]

/-- Going through the bindings on the left, as the evaluator does. -/
theorem Binding.leftJoin_eq_bind (A B : Multiset Binding) (condition : Binding → Bool) :
    leftJoin A B condition = A.bind fun a =>
      if (join {a} B).filter (condition ·) = 0 then {a} else (join {a} B).filter (condition ·) := by
  have hjoin : (join A B).filter (condition ·) =
      A.bind fun a => (join {a} B).filter (condition ·) := by
    simp only [singleton_join]
    exact Multiset.filter_bind ..
  unfold leftJoin
  rw [hjoin, Multiset.filter_eq_bind, ← Multiset.bind_add]
  refine Multiset.bind_congr fun a _ => ?_
  split
  · rename_i hnone
    rw [hnone, zero_add]
  · rw [add_zero]

/-! ## The statements -/

section Statements

variable (c : Content) (scope : Option Using)

/-- Where evaluation succeeds, it gives these bindings. -/
def Yields (p : Pattern) (g : GraphName) (input : List Binding) (A : Multiset Binding) : Prop :=
  ∀ bs, (c.view scope).eval p g input = .ok bs → (bs : Multiset Binding) = A

/-- From any seeds, evaluation joins them with the meaning of the pattern. -/
def Joins (p : Pattern) (g : GraphName) : Prop :=
  ∀ input, Yields c scope p g input (join input (p.meaning (c.dataset scope) g))

/-- From the empty binding, evaluation gives the meaning of the pattern. -/
def Agrees (p : Pattern) (g : GraphName) : Prop :=
  Yields c scope p g [.empty] (p.meaning (c.dataset scope) g)

end Statements

section Forms

variable {c : Content} {scope : Option Using} {p l r : Pattern} {g : GraphName}
  {input : List Binding} {A B : Multiset Binding}

theorem Joins.agrees (h : Joins c scope p g) : Agrees c scope p g := by
  intro bs hbs
  rw [h [.empty] bs hbs]
  exact empty_join _

theorem joins_bgp (hc : c.Valid) (ts : List TriplePattern) (g : GraphName) :
    Joins c scope (.bgp ts) g := by
  intro input bs h
  rw [Dataset.eval] at h
  obtain ⟨bs', hbs', hjoin⟩ := bgp_view hc scope g ts input
  rw [hbs'] at h
  rw [← Except.ok.inj h, hjoin]
  rfl

theorem joins_values (vars : List Variable) (rows : List (List (Option Term))) (g : GraphName) :
    Joins c scope (.values vars rows) g := by
  intro input bs h
  rw [Dataset.eval] at h
  rw [← Except.ok.inj h, ← Multiset.coe_bind]
  refine Multiset.bind_congr fun b _ => ?_
  rw [Pattern.meaning, Multiset.filterMap_filterMap, Multiset.filterMap_coe]
  congr 2
  exact funext fun row => b.unifyRow_eq vars row

/-! ### Forms that are evaluated on what their parts give -/

theorem yields_join (hl : Yields c scope l g input A) (hr : Joins c scope r g) :
    Yields c scope (.join l r) g input (join A (r.meaning (c.dataset scope) g)) := by
  intro bs h
  rw [Dataset.eval] at h
  obtain ⟨left, hleft, h⟩ := bind_eq_ok.mp h
  rw [hr left bs h, hl left hleft]

theorem yields_union (hl : Yields c scope l g input A) (hr : Yields c scope r g input B) :
    Yields c scope (.union l r) g input (A + B) := by
  intro bs h
  rw [Dataset.eval] at h
  obtain ⟨left, hleft, h⟩ := bind_eq_ok.mp h
  obtain ⟨right, hright, h⟩ := bind_eq_ok.mp h
  rw [← Except.ok.inj h, ← Multiset.coe_add, hl left hleft, hr right hright]

theorem yields_graph {i : Iri} (h : Yields c scope p i.graph input A) (g : GraphName) :
    Yields c scope (.graph (.iri i) p) g input A := by
  intro bs hbs
  rw [Dataset.eval] at hbs
  exact h bs hbs

/-- OPTIONAL: every binding on the left is extended, or kept if nothing extends it. -/
theorem yields_leftJoin (hl : Yields c scope l g input A) (hr : Joins c scope r g)
    (condition : Option Expr) :
    Yields c scope (.leftJoin l r condition) g input
      (leftJoin A (r.meaning (c.dataset scope) g) fun b => condition.all (·.isTrue b)) := by
  intro bs hbs
  rw [Dataset.eval] at hbs
  obtain ⟨left, hleft, hbs⟩ := bind_eq_ok.mp hbs
  obtain ⟨parts, hparts, hbs⟩ := bind_eq_ok.mp hbs
  rw [← hl left hleft, leftJoin_eq_bind, ← Except.ok.inj hbs]
  refine coe_flatten_of_mapM hparts fun b _ found hfound => ?_
  obtain ⟨right, hright, hfound⟩ := bind_eq_ok.mp hfound
  obtain ⟨kept, hkept, hfound⟩ := bind_eq_ok.mp hfound
  have hkept' : (kept : Multiset Binding) =
      (join {b} (r.meaning (c.dataset scope) g)).filter fun m => condition.all (·.isTrue m) := by
    rw [Dataset.keep_eq_ok hkept, coe_filter, hr [b] right hright]
    rfl
  rw [← hkept', ← Except.ok.inj hfound]
  cases kept with
  | nil => rfl
  | cons m kept => rfl

theorem yields_filter (h : Yields c scope p g input A) (e : Expr) :
    Yields c scope (.filter e p) g input (A.filter (e.isTrue ·)) := by
  intro bs hbs
  rw [Dataset.eval] at hbs
  obtain ⟨inner, hinner, hbs⟩ := bind_eq_ok.mp hbs
  rw [Dataset.lift_eq] at hbs
  rw [← h inner hinner, Expr.keep_eq_ok hbs, coe_filter]

theorem yields_extend (h : Yields c scope p g input A) (v : Variable) (e : Expr) :
    Yields c scope (.extend p v e) g input (A.filterMap fun b => b.assign v (e.value? b)) := by
  intro bs hbs
  rw [Dataset.eval] at hbs
  obtain ⟨inner, hinner, hbs⟩ := bind_eq_ok.mp hbs
  obtain ⟨extended, hextended, hbs⟩ := bind_eq_ok.mp hbs
  rw [Dataset.lift_eq] at hextended
  have hmap := map_eq_of_mapM (F := fun b => b.assign v (e.value? b)) hextended
    fun b o ho => extend_eq_ok ho
  rw [← h inner hinner, ← Except.ok.inj hbs, hmap, Multiset.filterMap_coe, List.filterMap_map]
  rfl

/-- Dropping repetitions of a list is dropping those of its multiset. -/
theorem coe_eraseDups (bs : List Binding) :
    (bs.eraseDups : Multiset Binding) = (bs : Multiset Binding).dedup := by
  refine (Multiset.Nodup.ext (Multiset.coe_nodup.mpr (nodup_eraseDups bs))
    (Multiset.nodup_dedup _)).mpr fun b => ?_
  rw [Multiset.mem_coe, List.mem_eraseDups, Multiset.mem_dedup, Multiset.mem_coe]

theorem yields_distinct (h : Yields c scope p g input A) :
    Yields c scope (.distinct p) g input A.dedup := by
  intro bs hbs
  rw [Dataset.eval] at hbs
  obtain ⟨inner, hinner, hbs⟩ := bind_eq_ok.mp hbs
  rw [← h inner hinner, ← Except.ok.inj hbs, coe_eraseDups]

/-- REDUCED drops what DISTINCT drops. -/
theorem yields_reduced (h : Yields c scope p g input A) :
    Yields c scope (.reduced p) g input A.dedup :=
  yields_distinct h

/-! ### Forms that are joined with the seeds -/

theorem joins_join (hl : Joins c scope l g) (hr : Joins c scope r g) :
    Joins c scope (.join l r) g := by
  intro input
  have h := yields_join (hl input) hr
  rw [join_assoc] at h
  exact h

theorem joins_union (hl : Joins c scope l g) (hr : Joins c scope r g) :
    Joins c scope (.union l r) g := by
  intro input
  have h := yields_union (hl input) (hr input)
  rw [← join_add] at h
  exact h

/-- A variable for the graph: the seeds of each graph are joined there. -/
theorem joins_graph_var (hc : c.Valid) (h : ∀ n, Joins c scope p (.named n)) (v : Variable)
    (g : GraphName) : Joins c scope (.graph (.var v) p) g := by
  intro input bs hbs
  rw [Dataset.eval] at hbs
  obtain ⟨names, hnames, hbs⟩ := bind_eq_ok.mp hbs
  obtain ⟨parts, hparts, hbs⟩ := bind_eq_ok.mp hbs
  obtain ⟨ns, hns, hval⟩ := Content.namedGraphs_view hc scope
  rw [hnames] at hns
  obtain rfl := Except.ok.inj hns
  have hseeds : ∀ n : Resource, ((input.filterMap (·.unify v n.toTerm) : List Binding) :
      Multiset Binding) = join input {single v n.toTerm} := by
    intro n
    rw [join_singleton, Multiset.filterMap_coe]
    simp only [unify_eq_merge?]
  have hflatten := coe_flatten_of_mapM (F := fun n => join input
    (join {single v n.toTerm} (p.meaning (c.dataset scope) (.named n)))) hparts ?_
  · rw [← Except.ok.inj hbs, hflatten, hval, ← join_bind]
    rfl
  · intro n _ found hfound
    rw [← join_assoc, ← hseeds]
    dsimp only at hfound
    split at hfound
    · rename_i hempty
      rw [← Except.ok.inj hfound, List.isEmpty_iff.mp hempty]
      exact (zero_join _).symm
    · exact h n _ found hfound

/-- A subselect is evaluated on its own and then joined. -/
theorem joins_project (h : Agrees c scope p g) (vars : List Variable) :
    Joins c scope (.project p vars) g := by
  intro input bs hbs
  rw [Dataset.eval] at hbs
  obtain ⟨inner, hinner, hbs⟩ := bind_eq_ok.mp hbs
  rw [← Except.ok.inj hbs, ← Multiset.coe_bind]
  refine Multiset.bind_congr fun b _ => ?_
  rw [Pattern.meaning, ← h inner hinner, Multiset.map_coe, Multiset.filterMap_coe]

end Forms

/-! ## The patterns -/

mutual

/-- The pattern can be started on any seeds. -/
inductive Pattern.Seedable : Pattern → Prop
  | bgp (ts : List TriplePattern) : Seedable (.bgp ts)
  | values (vars : List Variable) (rows : List (List (Option Term))) : Seedable (.values vars rows)
  | join {l r : Pattern} : Seedable l → Seedable r → Seedable (.join l r)
  | union {l r : Pattern} : Seedable l → Seedable r → Seedable (.union l r)
  | graph (n : NamePattern) {p : Pattern} : Seedable p → Seedable (.graph n p)
  | project {p : Pattern} (vars : List Variable) : Rooted p → Seedable (.project p vars)

/-- The pattern can be started on the empty binding. -/
inductive Pattern.Rooted : Pattern → Prop
  | seedable {p : Pattern} : Seedable p → Rooted p
  | join {l r : Pattern} : Rooted l → Seedable r → Rooted (.join l r)
  | union {l r : Pattern} : Rooted l → Rooted r → Rooted (.union l r)
  | leftJoin {l r : Pattern} (condition : Option Expr) :
      Rooted l → Seedable r → Rooted (.leftJoin l r condition)
  | filter (e : Expr) {p : Pattern} : Rooted p → Rooted (.filter e p)
  | extend {p : Pattern} (v : Variable) (e : Expr) : Rooted p → Rooted (.extend p v e)
  | graph (i : Iri) {p : Pattern} : Rooted p → Rooted (.graph (.iri i) p)
  | distinct {p : Pattern} : Rooted p → Rooted (.distinct p)
  | reduced {p : Pattern} : Rooted p → Rooted (.reduced p)
  | project {p : Pattern} (vars : List Variable) : Rooted p → Rooted (.project p vars)

end

mutual

theorem Pattern.Seedable.joins {c : Content} (hc : c.Valid) (scope : Option Using) :
    ∀ {p : Pattern}, p.Seedable → ∀ g, Joins c scope p g
  | _, .bgp ts, g => joins_bgp hc ts g
  | _, .values vars rows, g => joins_values vars rows g
  | _, .join hl hr, g => joins_join (hl.joins hc scope g) (hr.joins hc scope g)
  | _, .union hl hr, g => joins_union (hl.joins hc scope g) (hr.joins hc scope g)
  | _, .graph (.iri i) hp, g => fun input => yields_graph (hp.joins hc scope i.graph input) g
  | _, .graph (.var v) hp, g =>
      joins_graph_var hc (fun n => hp.joins hc scope (.named n)) v g
  | _, .project vars hp, g => joins_project (hp.agrees hc scope g) vars

theorem Pattern.Rooted.agrees {c : Content} (hc : c.Valid) (scope : Option Using) :
    ∀ {p : Pattern}, p.Rooted → ∀ g, Agrees c scope p g
  | _, .seedable hp, g => (hp.joins hc scope g).agrees
  | _, .join hl hr, g => yields_join (hl.agrees hc scope g) (hr.joins hc scope g)
  | _, .union hl hr, g => yields_union (hl.agrees hc scope g) (hr.agrees hc scope g)
  | _, .leftJoin condition hl hr, g =>
      yields_leftJoin (hl.agrees hc scope g) (hr.joins hc scope g) condition
  | _, .filter e hp, g => yields_filter (hp.agrees hc scope g) e
  | _, .extend v e hp, g => yields_extend (hp.agrees hc scope g) v e
  | _, .graph i hp, g => yields_graph (hp.agrees hc scope i.graph) g
  | _, .distinct hp, g => yields_distinct (hp.agrees hc scope g)
  | _, .reduced hp, g => yields_reduced (hp.agrees hc scope g)
  | _, .project vars hp, g => (joins_project (hp.agrees hc scope g) vars).agrees

end

end GraphStore
