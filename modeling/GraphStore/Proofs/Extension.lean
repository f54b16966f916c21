/-
# `GraphStore.Proofs.Extension` — solutions extend what they start from

Every part of a pattern is started on a list of bindings, the seeds, and answers bindings that have
grown out of them.

    seeds   a₁ ── a₂ ── …
             │ ╲     │
    found   m₁  m₂  m₃ …        `a.Grows N m`: m binds what a binds, and further only names in N

`Pattern.Names p` are the names that `p` can bind: the variables that are in scope in the
group around it, and those that stand for its blank nodes, which the evaluator matches like
variables.  Binding one more variable grows a binding, and so does merging it with another; all
forms of patterns are made of these two, except that some of them drop bindings again.

Nothing is said about what the lookups find.  So the steps of the evaluation are described
by their answers alone: `x.Answers φ` says that `φ` holds of the answer whenever the steps `x`
succeed, in whichever batch they are run.
-/
import GraphStore.Proofs.Agreement
import GraphStore.Proofs.Run

namespace GraphStore

/-! ## What steps answer -/

namespace BatchM

variable {ε α β : Type} {φ : α → Prop} {ψ : β → Prop}

/-- If the steps succeed, the answer satisfies `φ`. -/
def Answers (x : BatchM ε α) (φ : α → Prop) : Prop := ∀ b a b', Ends x b a b' → φ a

theorem answers_any (x : BatchM ε α) : Answers x fun _ => True := fun _ _ _ _ => trivial

theorem answers_pure {a : α} (ha : φ a) : Answers (pure a : BatchM ε α) φ := by
  intro b a' b' h
  rw [(ends_pure.mp h).1]
  exact ha

theorem answers_throw (e : ε) : Answers (throw e : BatchM ε α) φ :=
  fun _ _ _ h => absurd h not_ends_throw

theorem Answers.bind {x : BatchM ε α} {f : α → BatchM ε β} (hx : Answers x φ)
    (hf : ∀ a, φ a → Answers (f a) ψ) : Answers (x >>= f) ψ := by
  intro b c b' h
  obtain ⟨a, b₁, ha, hc⟩ := ends_bind.mp h
  exact hf a (hx b a b₁ ha) b₁ c b' hc

theorem Answers.mono {x : BatchM ε α} {φ' : α → Prop} (hx : Answers x φ) (h : ∀ a, φ a → φ' a) :
    Answers x φ' :=
  fun b a b' ha => h a (hx b a b' ha)

/-- What is answered for the members of a list comes from one of them. -/
theorem answers_mapM {f : α → BatchM ε β} {xs : List α} {φ : α → β → Prop}
    (hf : ∀ a ∈ xs, Answers (f a) (φ a)) :
    Answers (xs.mapM f) fun ys => ∀ y ∈ ys, ∃ a ∈ xs, φ a y := by
  induction xs with
  | nil => exact answers_pure fun y hy => absurd hy List.not_mem_nil
  | cons x xs ih =>
      obtain ⟨hx, hxs⟩ := List.forall_mem_cons.mp hf
      rw [List.mapM_cons]
      refine hx.bind fun y hy => (ih hxs).bind fun ys hys => answers_pure fun z hz => ?_
      rcases List.mem_cons.mp hz with rfl | hz
      · exact ⟨x, List.mem_cons_self, hy⟩
      · obtain ⟨a, ha, haz⟩ := hys z hz
        exact ⟨a, List.mem_cons_of_mem x ha, haz⟩

theorem answers_foldlM {f : β → α → BatchM ε β} {xs : List α}
    (hf : ∀ s, ψ s → ∀ a ∈ xs, Answers (f s a) ψ) {s : β} (hs : ψ s) :
    Answers (xs.foldlM f s) ψ := by
  induction xs generalizing s with
  | nil => exact answers_pure hs
  | cons x xs ih =>
      rw [List.foldlM_cons]
      refine (hf s hs x List.mem_cons_self).bind fun s' hs' => ih (fun s hs a ha => ?_) hs'
      exact hf s hs a (List.mem_cons_of_mem x ha)

end BatchM

open BatchM

theorem Dataset.answers_lift {α : Type} (r : Except EvaluationError α) :
    Answers (Dataset.lift r : BatchM EvaluationError α) fun a => r = .ok a := by
  cases r with
  | ok a => exact answers_pure rfl
  | error e => exact answers_throw e

theorem Expr.answers_keep (e : Expr) (bs : List Binding) :
    Answers (Dataset.lift (e.keep bs) : BatchM EvaluationError (List Binding)) (· ⊆ bs) := by
  refine (Dataset.answers_lift _).mono fun kept hkept => ?_
  rw [Expr.keep_eq_ok hkept]
  exact List.filter_subset_self bs

/-! ## Names -/

/-- The blank nodes of a triple pattern. -/
def TriplePattern.blanks (t : TriplePattern) : List BlankNode :=
  t.subject.blanks ++ t.object.blanks

/-- The blank nodes that the evaluator matches like variables and that are not hidden by a
projection. -/
def Pattern.blanks : Pattern → List BlankNode
  | .bgp triples => triples.flatMap TriplePattern.blanks
  | .path s _ o => s.blanks ++ o.blanks
  | .join l r | .leftJoin l r _ | .union l r => l.blanks ++ r.blanks
  | .filter _ p | .graph _ p | .extend p _ _ | .orderBy p _ | .distinct p | .reduced p
  | .slice p _ _ | .service _ p _ | .minus p _ => p.blanks
  | .values .. | .project .. | .group .. => []

/-- The names that a pattern can bind. -/
def Pattern.Names (p : Pattern) (v : Variable) : Prop :=
  v ∈ p.inScope ∨ ∃ n ∈ p.blanks, v = n.asVariable

namespace Pattern

variable {l r p : Pattern} {v w : Variable} {e : Expr}

theorem names_join : (join l r).Names v ↔ l.Names v ∨ r.Names v := by
  simp only [Names, inScope, blanks, List.mem_append, or_and_right, exists_or]
  exact or_or_or_comm

theorem names_union : (union l r).Names v ↔ l.Names v ∨ r.Names v := names_join

theorem names_leftJoin {condition : Option Expr} :
    (leftJoin l r condition).Names v ↔ l.Names v ∨ r.Names v := names_join

theorem names_graph {name : NamePattern} :
    (graph name p).Names v ↔ v ∈ name.variables ∨ p.Names v := by
  simp only [Names, inScope, blanks, List.mem_append, or_assoc]

theorem names_extend : (extend p w e).Names v ↔ v = w ∨ p.Names v := by
  simp only [Names, inScope, blanks, List.mem_cons, or_assoc]

end Pattern

theorem TermPattern.names_of_mem_unknowns {p : TermPattern} {v : Variable} (h : v ∈ p.unknowns) :
    v ∈ p.variables ∨ ∃ n ∈ p.blanks, v = n.asVariable := by
  cases p with
  | var w => exact .inl h
  | blank n => exact .inr ⟨n, List.mem_singleton_self n, List.mem_singleton.mp h⟩
  | iri i => exact absurd h List.not_mem_nil
  | literal l => exact absurd h List.not_mem_nil

/-- The unknowns of a triple pattern are names of every basic pattern that has it. -/
theorem Pattern.names_of_mem_unknowns {ts : List TriplePattern} {t : TriplePattern} (ht : t ∈ ts)
    {v : Variable} (h : v ∈ t.unknowns) : (Pattern.bgp ts).Names v := by
  have hvariable (h : v ∈ t.variables) : (Pattern.bgp ts).Names v :=
    .inl (List.mem_flatMap.mpr ⟨t, ht, h⟩)
  have hblank (h : ∃ n ∈ t.blanks, v = n.asVariable) : (Pattern.bgp ts).Names v := by
    obtain ⟨n, hn, hv⟩ := h
    exact .inr ⟨n, List.mem_flatMap.mpr ⟨t, ht, hn⟩, hv⟩
  simp only [TriplePattern.unknowns, List.mem_append] at h
  simp only [TriplePattern.variables, TriplePattern.blanks, List.mem_append] at hvariable hblank
  rcases h with (h | h) | h
  · rcases TermPattern.names_of_mem_unknowns h with h | ⟨n, hn, hv⟩
    · exact hvariable (.inl (.inl h))
    · exact hblank ⟨n, .inl hn, hv⟩
  · exact hvariable (.inl (.inr h))
  · rcases TermPattern.names_of_mem_unknowns h with h | ⟨n, hn, hv⟩
    · exact hvariable (.inr h)
    · exact hblank ⟨n, .inr hn, hv⟩

/-! ## Growing bindings -/

namespace Binding

variable {a b m : Binding} {N N' : Variable → Prop}

/-- The binding `m` extends `a`, and binds no further variables but some of `N`. -/
structure Grows (N : Variable → Prop) (a m : Binding) : Prop where
  extends_seed : m.Extends a
  names : ∀ v, m.Binds v → a.Binds v ∨ N v

theorem Grows.refl (a : Binding) : a.Grows N a := ⟨.refl a, fun _ h => .inl h⟩

theorem Grows.trans (h : a.Grows N b) (h' : b.Grows N m) : a.Grows N m := by
  refine ⟨h'.extends_seed.trans h.extends_seed, fun v hv => ?_⟩
  rcases h'.names v hv with hv | hv
  · exact h.names v hv
  · exact .inr hv

theorem Grows.mono (hN : ∀ v, N v → N' v) (h : a.Grows N m) : a.Grows N' m :=
  ⟨h.extends_seed, fun v hv => (h.names v hv).imp_right (hN v)⟩

/-- A merge has grown out of either side by the variables of the other. -/
theorem grows_of_merge? (h : a.merge? b = some m) (hb : ∀ v, b.Binds v → N v) : a.Grows N m :=
  ⟨(extends_of_merge? h).1, fun v hv => ((binds_merge? h v).mp hv).imp_right (hb v)⟩

theorem grows_of_unify {v : Variable} {t : Term} (hv : N v) (h : a.unify v t = some m) :
    a.Grows N m := by
  rw [unify_eq_merge?] at h
  refine grows_of_merge? h fun w hw => ?_
  rw [← binds_single.mp hw]
  exact hv

theorem grows_of_foldlM {α : Type} {f : Binding → α → Option Binding} {xs : List α}
    (hf : ∀ x ∈ xs, ∀ a m, f a x = some m → a.Grows N m) (h : xs.foldlM f a = some m) :
    a.Grows N m := by
  induction xs generalizing a with
  | nil =>
      rw [← Option.some.inj h]
      exact .refl a
  | cons x xs ih =>
      obtain ⟨b, hb, hm⟩ := Option.bind_eq_some_iff.mp h
      obtain ⟨hx, hxs⟩ := List.forall_mem_cons.mp hf
      exact (hx a b hb).trans (ih hxs hm)

theorem grows_of_unifyRow {vars : List Variable} {row : List (Option Term)}
    (h : a.unifyRow vars row = some m) : a.Grows (· ∈ vars) m := by
  refine grows_of_foldlM (fun cell hcell a m hm => ?_) h
  have hvar : cell.1 ∈ vars := (List.of_mem_zip hcell).1
  obtain ⟨v, value⟩ := cell
  cases value with
  | none =>
      rw [← Option.some.inj hm]
      exact .refl a
  | some t => exact grows_of_unify hvar hm

theorem grows_of_assign {v : Variable} {value : Option Term} (hv : N v)
    (h : a.assign v value = some m) : a.Grows N m := by
  cases value with
  | none =>
      rw [← Option.some.inj h]
      exact .refl a
  | some t => exact grows_of_unify hv ((a.unify_eq_merge? v t).trans h)

theorem grows_of_match {ts : List TriplePattern} {t : TriplePattern} (ht : t ∈ ts) {u : Triple}
    (h : t.unify u a = some m) : a.Grows (Pattern.bgp ts).Names m := by
  rw [TriplePattern.unify_eq_unifyAll] at h
  obtain ⟨hextends, hbinds, -⟩ := TriplePattern.unifyAll_spec h
  refine ⟨hextends, fun v hv => ((hbinds v).mp hv).imp_right fun hcell => ?_⟩
  exact Pattern.names_of_mem_unknowns ht (TriplePattern.mem_unknowns_iff.mpr hcell)

/-- Each of the bindings found has grown out of a seed. -/
def Grown (N : Variable → Prop) (seeds found : List Binding) : Prop :=
  ∀ m ∈ found, ∃ a ∈ seeds, a.Grows N m

variable {seeds found found' : List Binding}

theorem Grown.refl (seeds : List Binding) : Grown N seeds seeds := fun a ha => ⟨a, ha, .refl a⟩

theorem Grown.trans (h : Grown N seeds found) (h' : Grown N found found') :
    Grown N seeds found' := by
  intro m hm
  obtain ⟨b, hb, hbm⟩ := h' m hm
  obtain ⟨a, ha, hab⟩ := h b hb
  exact ⟨a, ha, hab.trans hbm⟩

theorem Grown.mono (hN : ∀ v, N v → N' v) (h : Grown N seeds found) : Grown N' seeds found := by
  intro m hm
  obtain ⟨a, ha, ham⟩ := h m hm
  exact ⟨a, ha, ham.mono hN⟩

theorem Grown.subset (h : Grown N seeds found) (hsub : found' ⊆ found) : Grown N seeds found' :=
  fun m hm => h m (hsub hm)

theorem Grown.append (h : Grown N seeds found) (h' : Grown N seeds found') :
    Grown N seeds (found ++ found') := by
  intro m hm
  rcases List.mem_append.mp hm with hm | hm
  · exact h m hm
  · exact h' m hm

/-- What is found for several seeds at a time, or for one after the other. -/
theorem Grown.flatten {parts : List (List Binding)} (h : ∀ part ∈ parts, Grown N seeds part) :
    Grown N seeds parts.flatten := by
  intro m hm
  obtain ⟨part, hpart, hm⟩ := List.mem_flatten.mp hm
  exact h part hpart m hm

theorem Grown.of_mem {a : Binding} (ha : a ∈ seeds) (h : Grown N [a] found) :
    Grown N seeds found := by
  intro m hm
  obtain ⟨a', ha', hgrows⟩ := h m hm
  rw [List.mem_singleton.mp ha'] at hgrows
  exact ⟨a, ha, hgrows⟩

end Binding

/-! ## The evaluation -/

open Binding

namespace Dataset

variable {d : Dataset (BatchM EvaluationError)} {N : Variable → Prop}

theorem answers_matchTriple (g : GraphName) (input : List Binding) {ts : List TriplePattern}
    {t : TriplePattern} (ht : t ∈ ts) :
    Answers (d.matchTriple g input t) (Grown (Pattern.bgp ts).Names input) := by
  have hone : ∀ a ∈ input, Answers (d.matchOne g t a) (Grown (Pattern.bgp ts).Names [a]) := by
    intro a _
    unfold matchOne
    cases t.key? a with
    | none => exact answers_pure fun m hm => absurd hm List.not_mem_nil
    | some f =>
        refine (answers_any _).bind fun quads _ => answers_pure fun m hm => ?_
        obtain ⟨q, -, hm⟩ := List.mem_filterMap.mp hm
        exact ⟨a, List.mem_singleton_self a, grows_of_match ht hm⟩
  refine (answers_mapM hone).bind fun parts hparts => answers_pure (.flatten fun part hpart => ?_)
  obtain ⟨a, ha, hgrown⟩ := hparts part hpart
  exact .of_mem ha hgrown

/-- The bindings that a condition keeps are among those it is put to. -/
theorem answers_keep (condition : Option Expr) (bs : List Binding) :
    Answers (Dataset.keep condition bs : BatchM EvaluationError (List Binding)) (· ⊆ bs) := by
  cases condition with
  | none => exact answers_pure (List.Subset.refl bs)
  | some e => exact e.answers_keep bs

/-- Where the optional part finds nothing, the seed itself is answered. -/
theorem grown_kept {a : Binding} {right kept : List Binding} (hright : Grown N [a] right)
    (hkept : kept ⊆ right) : Grown N [a] (if kept.isEmpty then [a] else kept) := by
  split
  · exact .refl [a]
  · exact hright.subset hkept

theorem grown_seeds (input : List Binding) {v : Variable} (hv : N v) (t : Term) :
    Grown N input (input.filterMap (·.unify v t)) := by
  intro m hm
  obtain ⟨a, ha, hm⟩ := List.mem_filterMap.mp hm
  exact ⟨a, ha, grows_of_unify hv hm⟩

theorem grown_values (input : List Binding) (vars : List Variable)
    (rows : List (List (Option Term))) :
    Grown (· ∈ vars) input (input.flatMap fun a => rows.filterMap (a.unifyRow vars)) := by
  intro m hm
  obtain ⟨a, ha, hm⟩ := List.mem_flatMap.mp hm
  obtain ⟨row, -, hm⟩ := List.mem_filterMap.mp hm
  exact ⟨a, ha, grows_of_unifyRow hm⟩

/-- A projection hides what it does not list, and merging keeps the seed. -/
theorem grown_project (input inner : List Binding) (vars : List Variable) :
    Grown (· ∈ vars) input
      (input.flatMap fun a => (inner.map (·.project vars)).filterMap a.merge?) := by
  intro m hm
  obtain ⟨a, ha, hm⟩ := List.mem_flatMap.mp hm
  obtain ⟨b, hb, hm⟩ := List.mem_filterMap.mp hm
  obtain ⟨s, -, rfl⟩ := List.mem_map.mp hb
  exact ⟨a, ha, grows_of_merge? hm fun v hv => ((binds_project s vars v).mp hv).1⟩

theorem grown_extend {input : List Binding} {v : Variable} {e : Expr} (hv : N v)
    {extended : List (Option Binding)} (h : input.mapM (·.extend v e) = .ok extended) :
    Grown N input (extended.filterMap id) := by
  rw [map_eq_of_mapM h fun a o => extend_eq_ok]
  intro m hm
  obtain ⟨o, ho, hm⟩ := List.mem_filterMap.mp hm
  obtain ⟨a, ha, rfl⟩ := List.mem_map.mp ho
  exact ⟨a, ha, grows_of_assign hv hm⟩

/-- Every part of a pattern answers bindings that have grown out of its seeds. -/
theorem answers_eval : ∀ (p : Pattern) (g : GraphName) (input : List Binding),
    Answers (d.eval p g input) (Grown p.Names input)
  | .bgp ts, g, input => by
      simp only [eval]
      refine answers_foldlM (fun found hfound t ht => ?_) (.refl input)
      exact (answers_matchTriple g found ht).mono fun _ => hfound.trans
  | .join l r, g, input => by
      simp only [eval]
      refine (answers_eval l g input).bind fun left hleft => (answers_eval r g left).mono ?_
      intro out hout
      refine Grown.trans (hleft.mono fun v hv => ?_) (hout.mono fun v hv => ?_)
      · exact Pattern.names_join.mpr (.inl hv)
      · exact Pattern.names_join.mpr (.inr hv)
  | .leftJoin l r condition, g, input => by
      simp only [eval]
      refine (answers_eval l g input).bind fun left hleft => ?_
      have hpart : ∀ a ∈ left, Answers (do
          let right ← d.eval r g [a]
          let kept ← keep condition right
          return if kept.isEmpty then [a] else kept) (Grown r.Names [a]) := by
        intro a _
        refine (answers_eval r g [a]).bind fun right hright => ?_
        exact (answers_keep condition right).bind fun kept hkept =>
          answers_pure (grown_kept hright hkept)
      refine (answers_mapM hpart).bind fun parts hparts => answers_pure ?_
      refine Grown.trans (hleft.mono fun v hv => Pattern.names_leftJoin.mpr (.inl hv)) ?_
      refine Grown.mono (fun v hv => Pattern.names_leftJoin.mpr (.inr hv)) ?_
      refine .flatten fun part hpart => ?_
      obtain ⟨a, ha, hgrown⟩ := hparts part hpart
      exact .of_mem ha hgrown
  | .filter e p, g, input => by
      simp only [eval]
      refine (answers_eval p g input).bind fun inner hinner => ?_
      exact (e.answers_keep inner).mono fun kept hkept => hinner.subset hkept
  | .union l r, g, input => by
      simp only [eval]
      refine (answers_eval l g input).bind fun left hleft => ?_
      refine (answers_eval r g input).bind fun right hright => answers_pure (Grown.append ?_ ?_)
      · exact hleft.mono fun v hv => Pattern.names_union.mpr (.inl hv)
      · exact hright.mono fun v hv => Pattern.names_union.mpr (.inr hv)
  | .graph (.iri i) p, _, input => by
      simp only [eval]
      refine (answers_eval p i.graph input).mono fun out hout => hout.mono fun v hv => ?_
      exact Pattern.names_graph.mpr (.inr hv)
  | .graph (.var v) p, _, input => by
      simp only [eval]
      have hpart : ∀ names : List Resource, ∀ n ∈ names, Answers (
          if (input.filterMap (·.unify v n.toTerm)).isEmpty then pure []
          else d.eval p (.named n) (input.filterMap (·.unify v n.toTerm)))
          (Grown (Pattern.graph (.var v) p).Names input) := by
        intro names n _
        split
        · exact answers_pure fun m hm => absurd hm List.not_mem_nil
        · refine (answers_eval p (.named n) _).mono fun out hout => ?_
          refine Grown.trans (grown_seeds input ?_ n.toTerm) (hout.mono fun w hw => ?_)
          · exact Pattern.names_graph.mpr (.inl (List.mem_singleton_self v))
          · exact Pattern.names_graph.mpr (.inr hw)
      refine (answers_any _).bind fun names _ => ?_
      refine (answers_mapM (hpart names)).bind fun parts hparts => answers_pure ?_
      refine .flatten fun part hpart => ?_
      obtain ⟨-, -, hgrown⟩ := hparts part hpart
      exact hgrown
  | .extend p v e, g, input => by
      simp only [eval]
      refine (answers_eval p g input).bind fun inner hinner => ?_
      refine (answers_lift _).bind fun extended hextended => answers_pure ?_
      refine Grown.trans (hinner.mono fun w hw => Pattern.names_extend.mpr (.inr hw)) ?_
      exact grown_extend (Pattern.names_extend.mpr (.inl rfl)) hextended
  | .values vars rows, _, input => by
      simp only [eval]
      exact answers_pure ((grown_values input vars rows).mono fun _ => .inl)
  | .project p vars, g, input => by
      simp only [eval]
      refine (answers_any _).bind fun inner _ => answers_pure ?_
      exact (grown_project input inner vars).mono fun _ => .inl
  | .distinct p, g, input => by
      simp only [eval]
      refine (answers_eval p g input).bind fun inner hinner => answers_pure ?_
      exact hinner.subset fun m => List.mem_eraseDups.mp
  | .reduced p, g, input => by
      simp only [eval]
      refine (answers_eval p g input).bind fun inner hinner => answers_pure ?_
      exact hinner.subset fun m => List.mem_eraseDups.mp
  | .slice p start length, g, input => by
      simp only [eval]
      refine (answers_eval p g input).bind fun inner hinner => answers_pure ?_
      refine hinner.subset ?_
      cases length with
      | none => exact List.drop_subset start inner
      | some n => exact fun m hm => List.drop_subset start inner (List.take_subset n _ hm)
  | .path .., _, _ | .minus .., _, _ | .orderBy .., _, _ | .group .., _, _
  | .service .., _, _ => by
      simp only [eval]
      exact answers_throw _

end Dataset

theorem Binding.Extends.compatible {m a : Binding} (h : m.Extends a) : m.compatible a = true := by
  refine compatible_iff.mpr fun v t u ht hu => ?_
  rw [h v u hu] at ht
  exact (Option.some.inj ht).symm

/-- Whatever the lookups find: each solution extends a binding that the evaluation is started on,
with the same value for each of its variables, and every further variable that it binds is in
scope, or is one of those that the blank nodes of the pattern are matched as.  So the solutions
that the scanning evaluator answers are compatible with its input. -/
theorem solutions_extend_input (r : Reader (BatchM EvaluationError)) (scope : Option Using)
    (p : Pattern) :
    (∀ (g : GraphName) (input out : List Binding) (b b' : Batch),
      Ends (Dataset.eval ⟨r, scope⟩ p g input) b out b' →
        ∀ m ∈ out, ∃ a ∈ input, (∀ v t, a.get? v = some t → m.get? v = some t) ∧
          ∀ v, m.Binds v → a.Binds v ∨ v ∈ p.inScope ∨ ∃ n ∈ p.blanks, v = n.asVariable) ∧
      ∀ (input : Option Binding) (out : List Binding) (b b' : Batch),
        Ends (Evaluator.scanning.run r p scope input) b out b' →
          ∀ m ∈ out, m.Extends (input.getD .empty) ∧ m.compatible (input.getD .empty) = true := by
  have hgrown (g : GraphName) (input out : List Binding) (b b' : Batch)
      (h : Ends (Dataset.eval ⟨r, scope⟩ p g input) b out b') : Grown p.Names input out :=
    Dataset.answers_eval p g input b out b' h
  constructor
  · intro g input out b b' h m hm
    obtain ⟨a, ha, hgrows⟩ := hgrown g input out b b' h m hm
    exact ⟨a, ha, hgrows.extends_seed, hgrows.names⟩
  · intro input out b b' h m hm
    obtain ⟨a, ha, hgrows⟩ := hgrown .default [input.getD .empty] out b b' h m hm
    rw [List.mem_singleton.mp ha] at hgrows
    exact ⟨hgrows.extends_seed, hgrows.extends_seed.compatible⟩

/-- The objects of `r` that a group asks for, the first of which a subselect finds for `q`; the
node that has it stays hidden. -/
def sampled (r q : Iri) : Pattern :=
  .join (.bgp [⟨.var ⟨"s"⟩, .iri r, .var ⟨"o"⟩⟩])
    (.slice (.distinct (.project (.bgp [⟨.blank (.label "x"), .iri q, .var ⟨"o"⟩⟩]) [⟨"o"⟩])) 0
      (some 1))

/-- The subject is given, and the object is found. -/
theorem solutions_extend_input_sampled :
    let seed : Binding := Binding.empty.insert ⟨"s"⟩ (.iri ⟨"a"⟩)
    let found : Binding := seed.insert ⟨"o"⟩ (.iri ⟨"c"⟩)
    let c : Content := { triples := [⟨.iri ⟨"a"⟩, ⟨"r"⟩, .iri ⟨"c"⟩⟩, ⟨.iri ⟨"b"⟩, ⟨"r"⟩, .iri ⟨"c"⟩⟩,
      ⟨.iri ⟨"a"⟩, ⟨"q"⟩, .iri ⟨"c"⟩⟩] }
    let reader := BatchM.reader Faults.none EvaluationError.storage
    ∃ b', Ends (Evaluator.scanning.run reader (sampled ⟨"r"⟩ ⟨"q"⟩) none (some seed))
        { tx := .start c, journal := {} } [found] b' ∧
      found.Extends seed ∧ found.compatible seed = true := by
  intro seed found c reader
  obtain ⟨b', hends⟩ : ∃ b', Ends
      (Evaluator.scanning.run reader (sampled ⟨"r"⟩ ⟨"q"⟩) none (some seed))
      { tx := .start c, journal := {} } [found] b' :=
    ⟨_, Session.eq_ok_of_toOption (by decide +kernel)⟩
  obtain ⟨-, hscanning⟩ := solutions_extend_input reader none (sampled ⟨"r"⟩ ⟨"q"⟩)
  have hfound := hscanning (some seed) [found] _ b' hends found (List.mem_singleton_self found)
  exact ⟨b', hends, hfound⟩

end GraphStore
