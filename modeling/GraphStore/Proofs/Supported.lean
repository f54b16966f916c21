/-
# `GraphStore.Proofs.Supported` — what is supported is evaluated

The evaluator of patterns fails in no other way than by refusing a construct.
`Expr.supported` and `Pattern.supported` say that no construct of that kind occurs,
anywhere in the expression or the pattern, and then evaluation succeeds: for every
binding, and over every content, through every USING list and from all seeds.
-/
import GraphStore.Proofs.BasicPattern

namespace GraphStore

mutual

/-- Nothing in the expression is refused. -/
def Expr.supported : Expr → Bool
  | .iri _ | .literal _ | .var _ | .bound _ => true
  | .not e => e.supported
  | .and l r | .or l r | .equal l r | .sameTerm l r => l.supported && r.supported
  | .ite condition yes no => condition.supported && yes.supported && no.supported
  | .coalesce es => Expr.allSupported es
  | .compare .. | .arith .. | .signed .. | .member .. | .holds _ | .call .. => false

/-- Nothing in the expressions is refused. -/
def Expr.allSupported : List Expr → Bool
  | [] => true
  | e :: es => e.supported && Expr.allSupported es

end

/-- Nothing in the pattern is refused. -/
def Pattern.supported : Pattern → Bool
  | .bgp _ | .values .. => true
  | .join l r | .union l r => l.supported && r.supported
  | .leftJoin l r condition => l.supported && r.supported && condition.all Expr.supported
  | .filter e p | .extend p _ e => e.supported && p.supported
  | .graph _ p | .project p _ | .distinct p | .reduced p | .slice p _ _ => p.supported
  | .path .. | .minus .. | .orderBy .. | .group .. | .service .. => false

/-! ## Expressions -/

mutual

theorem Expr.eval_ok (b : Binding) : ∀ {e : Expr}, e.supported = true → ∃ v, e.eval b = .ok v
  | .iri i, _ => ⟨_, rfl⟩
  | .literal l, _ => ⟨_, rfl⟩
  | .var v, _ => ⟨_, rfl⟩
  | .bound v, _ => ⟨_, rfl⟩
  | .not e, h => by
      obtain ⟨v, hv⟩ := Expr.eval_ok b (e := e) h
      rw [Expr.eval, hv]
      exact ⟨_, rfl⟩
  | .and l r, h | .or l r, h | .equal l r, h | .sameTerm l r, h => by
      rw [Expr.supported, Bool.and_eq_true] at h
      obtain ⟨x, hx⟩ := Expr.eval_ok b h.1
      obtain ⟨y, hy⟩ := Expr.eval_ok b h.2
      rw [Expr.eval, hx, hy]
      exact ⟨_, rfl⟩
  | .ite condition yes no, h => by
      rw [Expr.supported, Bool.and_eq_true, Bool.and_eq_true] at h
      obtain ⟨v, hv⟩ := Expr.eval_ok b h.1.1
      rw [Expr.eval, hv]
      show ∃ r, (match v.bind Term.truth? with
        | some true => yes.eval b
        | some false => no.eval b
        | none => pure none) = Except.ok r
      split
      · exact Expr.eval_ok b h.1.2
      · exact Expr.eval_ok b h.2
      · exact ⟨none, rfl⟩
  | .coalesce es, h => firstValue_ok b h
  | .compare .., h | .arith .., h | .signed .., h | .member .., h | .holds _, h | .call .., h =>
      absurd h Bool.false_ne_true

theorem firstValue_ok (b : Binding) :
    ∀ {es : List Expr}, Expr.allSupported es = true → ∃ v, firstValue b es = .ok v
  | [], _ => ⟨none, rfl⟩
  | e :: es, h => by
      rw [Expr.allSupported, Bool.and_eq_true] at h
      obtain ⟨v, hv⟩ := Expr.eval_ok b h.1
      rw [firstValue, hv]
      cases v with
      | none => exact firstValue_ok b h.2
      | some t => exact ⟨some t, rfl⟩

end

/-! ## Keeping and extending bindings -/

theorem Expr.keep_ok {e : Expr} (h : e.supported = true) (bs : List Binding) :
    ∃ kept, e.keep bs = .ok kept := by
  refine filterM_ok (fun b => ?_) bs
  obtain ⟨v, hv⟩ := e.eval_ok b h
  exact ⟨_, bind_ok (bind_ok hv rfl) rfl⟩

theorem Binding.extend_ok {e : Expr} (h : e.supported = true) (b : Binding) (v : Variable) :
    ∃ o, b.extend v e = .ok o := by
  obtain ⟨t, ht⟩ := e.eval_ok b h
  rw [Binding.extend, ht]
  cases t <;> exact ⟨_, rfl⟩

/-! ## Patterns -/

namespace Dataset

/-- An outcome is its own step of the evaluation. -/
theorem lift_eq {α : Type} (r : Except EvaluationError α) :
    (lift r : Except EvaluationError α) = r := by
  cases r <;> rfl

theorem keep_ok {condition : Option Expr} (h : condition.all Expr.supported = true)
    (bs : List Binding) :
    ∃ kept, (keep condition bs : Except EvaluationError (List Binding)) = .ok kept := by
  cases condition with
  | none => exact ⟨bs, rfl⟩
  | some e =>
      rw [keep, lift_eq]
      exact Expr.keep_ok h bs

/-- A pattern in which nothing is refused is evaluated. -/
theorem eval_ok {c : Content} (hc : c.Valid) (scope : Option Using) :
    ∀ p : Pattern, p.supported = true → ∀ (g : GraphName) (input : List Binding),
      ∃ bs, (c.view scope).eval p g input = .ok bs
  | .bgp ts, _, g, input => by
      obtain ⟨bs, hbs, -⟩ := bgp_view hc scope g ts input
      rw [eval]
      exact ⟨bs, hbs⟩
  | .join l r, h, g, input => by
      rw [Pattern.supported, Bool.and_eq_true] at h
      obtain ⟨left, hleft⟩ := eval_ok hc scope l h.1 g input
      obtain ⟨bs, hbs⟩ := eval_ok hc scope r h.2 g left
      rw [eval]
      exact ⟨bs, bind_ok hleft hbs⟩
  | .leftJoin l r condition, h, g, input => by
      rw [Pattern.supported, Bool.and_eq_true, Bool.and_eq_true] at h
      obtain ⟨left, hleft⟩ := eval_ok hc scope l h.1.1 g input
      obtain ⟨parts, hparts⟩ : ∃ parts, left.mapM (fun b => do
          let right ← (c.view scope).eval r g [b]
          let kept ← keep condition right
          return if kept.isEmpty then [b] else kept) = Except.ok parts := by
        refine mapM_ok fun b _ => ?_
        obtain ⟨right, hright⟩ := eval_ok hc scope r h.1.2 g [b]
        obtain ⟨kept, hkept⟩ := keep_ok h.2 right
        exact ⟨_, bind_ok hright (bind_ok hkept rfl)⟩
      rw [eval]
      exact ⟨_, bind_ok hleft (bind_ok hparts rfl)⟩
  | .filter e p, h, g, input => by
      rw [Pattern.supported, Bool.and_eq_true] at h
      obtain ⟨inner, hinner⟩ := eval_ok hc scope p h.2 g input
      obtain ⟨kept, hkept⟩ := Expr.keep_ok h.1 inner
      rw [eval]
      exact ⟨kept, bind_ok hinner ((lift_eq _).trans hkept)⟩
  | .union l r, h, g, input => by
      rw [Pattern.supported, Bool.and_eq_true] at h
      obtain ⟨left, hleft⟩ := eval_ok hc scope l h.1 g input
      obtain ⟨right, hright⟩ := eval_ok hc scope r h.2 g input
      rw [eval]
      exact ⟨_, bind_ok hleft (bind_ok hright rfl)⟩
  | .graph (.iri i) p, h, g, input => by
      rw [eval]
      exact eval_ok hc scope p h i.graph input
  | .graph (.var v) p, h, g, input => by
      obtain ⟨names, hnames, -⟩ := Content.namedGraphs_view hc scope
      obtain ⟨parts, hparts⟩ : ∃ parts, names.mapM (fun n =>
          let seeds := input.filterMap (·.unify v n.toTerm)
          if seeds.isEmpty then pure [] else (c.view scope).eval p (.named n) seeds) =
          Except.ok parts := by
        refine mapM_ok fun n _ => ?_
        dsimp only
        split
        · exact ⟨[], rfl⟩
        · exact eval_ok hc scope p h (.named n) _
      rw [eval]
      exact ⟨_, bind_ok hnames (bind_ok hparts rfl)⟩
  | .extend p v e, h, g, input => by
      rw [Pattern.supported, Bool.and_eq_true] at h
      obtain ⟨inner, hinner⟩ := eval_ok hc scope p h.2 g input
      obtain ⟨extended, hextended⟩ : ∃ extended, inner.mapM (·.extend v e) = Except.ok extended :=
        mapM_ok fun b _ => Binding.extend_ok h.1 b v
      rw [eval]
      exact ⟨_, bind_ok hinner (bind_ok ((lift_eq _).trans hextended) rfl)⟩
  | .values vars rows, _, g, input => by
      rw [eval]
      exact ⟨_, rfl⟩
  | .project p vars, h, g, input => by
      obtain ⟨inner, hinner⟩ := eval_ok hc scope p h g [Binding.empty]
      rw [eval]
      exact ⟨_, bind_ok hinner rfl⟩
  | .distinct p, h, g, input | .reduced p, h, g, input | .slice p _ _, h, g, input => by
      obtain ⟨inner, hinner⟩ := eval_ok hc scope p h g input
      rw [eval]
      exact ⟨_, bind_ok hinner rfl⟩
  | .path .., h, _, _ | .minus .., h, _, _ | .orderBy .., h, _, _ | .group .., h, _, _
  | .service .., h, _, _ => absurd h Bool.false_ne_true

end Dataset

end GraphStore
