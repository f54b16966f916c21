/-
# `GraphStore.Proofs.Refusal` — when it is noticed that a construct is refused

The evaluator has no look at a pattern as a whole before it begins.  It meets a refused
form only where the evaluation comes to it:

    join l r          l, then r, also when l has found nothing
    union l r         both
    leftJoin l r e    l, then r once for each solution of l, and e for each of these
    filter e p        p, then e for each solution of p
    graph ?g p        p in each named graph for which there are seeds
    and, or, =        both operands
    if c yes no       c, then one of yes and no, if c is true or false
    coalesce          one candidate after the other, up to the first value

`p.ComesTo d g input k` is this table: evaluating `p` from the seeds `input` in the graph
`g` comes to `k`.  Two facts tie it to the evaluator.  An evaluation that succeeds has come
to no refused form (`Pattern.ComesTo.not_refused`), and one that fails reports a refused
form that it has come to (`Dataset.eval_reports`).

So the error names a part of the pattern that is really refused, and a pattern that is made
of supported forms only is evaluated (`failure_names_refused_part`).  And the table says
exactly when a pattern is rejected (`rejected_iff_comesTo`).  Where it stands in no optional
part and in no GRAPH with a variable, a refused pattern is met in every evaluation
(`Pattern.exposed`); a refused expression, and what these two hide, is met over some data
and not over other (`unmet_part_goes_unnoticed`).
-/
import GraphStore.Proofs.Constructs

namespace GraphStore

/-! ## What an evaluation comes to -/

/-- The expressions that are evaluated whenever the expression is. -/
def Expr.operands : Expr → List Expr
  | .not e => [e]
  | .or l r | .and l r | .equal l r | .sameTerm l r => [l, r]
  | .ite condition _ _ => [condition]
  | .iri _ | .literal _ | .var _ | .bound _ | .coalesce _ | .compare .. | .arith .. | .signed ..
  | .member .. | .holds _ | .call .. => []

/-- The evaluation of the expression under the binding comes to the construct. -/
inductive Expr.ComesTo (b : Binding) : Expr → Construct → Prop
  | here (e : Expr) : ComesTo b e (.expression e)
  | operand {e o : Expr} {k : Construct} : o ∈ e.operands → ComesTo b o k → ComesTo b e k
  /-- The branch that the condition chooses. -/
  | branch {condition yes no : Expr} {t : Bool} {k : Construct} :
      condition.truth b = .ok (some t) → ComesTo b (if t then yes else no) k →
      ComesTo b (.ite condition yes no) k
  /-- A candidate behind others that have no value. -/
  | candidate {before after : List Expr} {e : Expr} {k : Construct} :
      (∀ x ∈ before, x.eval b = .ok none) → ComesTo b e k →
      ComesTo b (.coalesce (before ++ e :: after)) k

/-- The patterns, each with a graph and seeds, that an evaluation begins with whatever it finds. -/
def Pattern.firsts (g : GraphName) (input : List Binding) :
    Pattern → List (Pattern × GraphName × List Binding)
  | .join l _ | .leftJoin l _ _ => [(l, g, input)]
  | .union l r => [(l, g, input), (r, g, input)]
  | .filter _ p | .extend p _ _ | .distinct p | .reduced p | .slice p _ _ => [(p, g, input)]
  | .graph (.iri i) p => [(p, i.graph, input)]
  | .project p _ => [(p, g, [.empty])]
  | .graph (.var _) _ | .bgp _ | .values .. | .path .. | .minus .. | .orderBy .. | .group ..
  | .service .. => []

/-- The evaluation of the pattern in a graph from seeds comes to the construct. -/
inductive Pattern.ComesTo (d : Dataset (Except EvaluationError)) :
    Pattern → GraphName → List Binding → Construct → Prop
  | here (p : Pattern) (g : GraphName) (input : List Binding) : ComesTo d p g input (.pattern p)
  | first {p q : Pattern} {g g' : GraphName} {input seeds : List Binding} {k : Construct} :
      (q, g', seeds) ∈ p.firsts g input → ComesTo d q g' seeds k → ComesTo d p g input k
  | joined {l r : Pattern} {g : GraphName} {input left : List Binding} {k : Construct} :
      d.eval l g input = .ok left → ComesTo d r g left k → ComesTo d (.join l r) g input k
  | optional {l r : Pattern} {condition : Option Expr} {g : GraphName}
      {input left : List Binding} {b : Binding} {k : Construct} :
      d.eval l g input = .ok left → b ∈ left → ComesTo d r g [b] k →
      ComesTo d (.leftJoin l r condition) g input k
  | optionalCondition {l r : Pattern} {e : Expr} {g : GraphName}
      {input left right : List Binding} {b x : Binding} {k : Construct} :
      d.eval l g input = .ok left → b ∈ left → d.eval r g [b] = .ok right → x ∈ right →
      e.ComesTo x k → ComesTo d (.leftJoin l r (some e)) g input k
  | condition {e : Expr} {p : Pattern} {g : GraphName} {input found : List Binding} {b : Binding}
      {k : Construct} :
      d.eval p g input = .ok found → b ∈ found → e.ComesTo b k →
      ComesTo d (.filter e p) g input k
  | value {p : Pattern} {v : Variable} {e : Expr} {g : GraphName} {input found : List Binding}
      {b : Binding} {k : Construct} :
      d.eval p g input = .ok found → b ∈ found → e.ComesTo b k →
      ComesTo d (.extend p v e) g input k
  /-- A named graph in which some seed agrees with the variable. -/
  | named {v : Variable} {p : Pattern} {g : GraphName} {input seeds : List Binding}
      {names : List Resource} {n : Resource} {k : Construct} :
      d.namedGraphs = .ok names → n ∈ names → input.filterMap (·.unify v n.toTerm) = seeds →
      seeds ≠ [] → ComesTo d p (.named n) seeds k → ComesTo d (.graph (.var v) p) g input k

theorem Expr.mem_parts_of_mem_operands {e o : Expr} (h : o ∈ e.operands) :
    .expression o ∈ e.parts := by
  cases e <;> simp_all [operands, parts]

/-- What an evaluation comes to stands in the expression. -/
theorem Expr.ComesTo.has {b : Binding} {e : Expr} {k : Construct} (h : e.ComesTo b k) :
    (Construct.expression e).Has k := by
  induction h with
  | here e => exact .refl _
  | operand ho _ ih => exact .part (mem_parts_of_mem_operands ho) ih
  | @branch condition yes no t k _ _ ih =>
      refine .part (d := .expression (if t then yes else no)) ?_ ih
      cases t <;> simp [Expr.parts]
  | candidate _ _ ih => exact .part (by simp [Expr.parts]) ih

theorem Pattern.mem_parts_of_mem_firsts {p q : Pattern} {g g' : GraphName}
    {input seeds : List Binding} (h : (q, g', seeds) ∈ p.firsts g input) :
    .pattern q ∈ p.parts := by
  cases p with
  | graph n p => cases n <;> simp_all [firsts, parts]
  | union l r =>
      rcases List.mem_pair.mp h with h | h
      · cases h
        exact List.mem_cons_self
      · cases h
        exact List.mem_cons_of_mem _ List.mem_cons_self
  | _ => simp_all [firsts, parts]

/-- What an evaluation comes to stands in the pattern. -/
theorem Pattern.ComesTo.has {d : Dataset (Except EvaluationError)} {p : Pattern} {g : GraphName}
    {input : List Binding} {k : Construct} (h : p.ComesTo d g input k) :
    (Construct.pattern p).Has k := by
  induction h with
  | here p g input => exact .refl _
  | first hq _ ih => exact .part (mem_parts_of_mem_firsts hq) ih
  | joined _ _ ih | optional _ _ _ ih | named _ _ _ _ _ ih =>
      exact .part (by simp [Pattern.parts]) ih
  | optionalCondition _ _ _ _ he | condition _ _ he | value _ _ he =>
      exact .part (by simp [Pattern.parts]) he.has

/-! ## Expressions -/

/-- The error reports a refused construct, one of those that `met` holds of. -/
def EvaluationError.Reports (err : EvaluationError) (met : Construct → Prop) : Prop :=
  ∃ k, err = .unsupported k ∧ met k ∧ k.refused = true

theorem EvaluationError.Reports.mono {err : EvaluationError} {met met' : Construct → Prop}
    (h : err.Reports met) (hmet : ∀ k, met k → met' k) : err.Reports met' := by
  obtain ⟨k, herr, hk, hrefused⟩ := h
  exact ⟨k, herr, hmet k hk, hrefused⟩

section Expressions

variable {b : Binding}

/-- The condition chooses the branch that is evaluated, if it has a truth. -/
theorem Expr.eval_ite {condition yes no : Expr} {t : Option Bool}
    (h : condition.truth b = .ok t) : (Expr.ite condition yes no).eval b =
      t.elim (.ok none) fun t => (if t then yes else no).eval b := by
  obtain ⟨v, hv, ht⟩ := bind_eq_ok.mp h
  obtain rfl : v.bind Term.truth? = t := Except.ok.inj ht
  rw [Expr.eval, bind_of_ok hv]
  cases v.bind Term.truth? with
  | none => rfl
  | some t => cases t <;> rfl

theorem firstValue_append {before : List Expr} (h : ∀ x ∈ before, x.eval b = .ok none)
    (es : List Expr) : firstValue b (before ++ es) = firstValue b es := by
  induction before with
  | nil => rfl
  | cons x before ih =>
      obtain ⟨hx, hbefore⟩ := List.forall_mem_cons.mp h
      rw [List.cons_append, firstValue, hx]
      exact ih hbefore

/-- Of an expression that has been evaluated, all operands have been. -/
theorem Expr.eval_operand {e o : Expr} {v : Option Term} (h : e.eval b = .ok v)
    (ho : o ∈ e.operands) : ∃ w, o.eval b = .ok w := by
  cases e with
  | not e =>
      obtain rfl := List.mem_singleton.mp ho
      rw [Expr.eval] at h
      obtain ⟨x, hx, -⟩ := bind_eq_ok.mp h
      exact ⟨x, hx⟩
  | or l r | and l r | equal l r | sameTerm l r =>
      rw [Expr.eval] at h
      obtain ⟨x, hx, h⟩ := bind_eq_ok.mp h
      obtain ⟨y, hy, -⟩ := bind_eq_ok.mp h
      rcases List.mem_pair.mp ho with rfl | rfl
      · exact ⟨x, hx⟩
      · exact ⟨y, hy⟩
  | ite condition yes no =>
      obtain rfl := List.mem_singleton.mp ho
      rw [Expr.eval] at h
      obtain ⟨x, hx, -⟩ := bind_eq_ok.mp h
      exact ⟨x, hx⟩
  | _ => cases ho

/-- An evaluation that succeeds has come to nothing that is refused. -/
theorem Expr.ComesTo.not_refused {e : Expr} {k : Construct} (h : e.ComesTo b k) :
    ∀ {v : Option Term}, e.eval b = .ok v → k.refused = false := by
  induction h with
  | here e =>
      intro v hv
      cases e with
      | compare | arith | signed | member | holds | call => cases hv
      | _ => rfl
  | operand ho _ ih =>
      intro v hv
      obtain ⟨w, hw⟩ := Expr.eval_operand hv ho
      exact ih hw
  | branch ht _ ih =>
      intro v hv
      rw [Expr.eval_ite ht] at hv
      exact ih hv
  | candidate hbefore _ ih =>
      intro v hv
      rw [Expr.eval, firstValue_append hbefore, firstValue] at hv
      obtain ⟨w, hw, -⟩ := bind_eq_ok.mp hv
      exact ih hw

mutual

/-- An evaluation that fails reports a refused form that it has come to. -/
theorem Expr.eval_reports : ∀ {e : Expr} {err : EvaluationError}, e.eval b = .error err →
    err.Reports (e.ComesTo b)
  | .iri _, _, h | .literal _, _, h | .var _, _, h | .bound _, _, h => by cases h
  | .not e, err, h => by
      rw [Expr.eval] at h
      rcases bind_eq_error h with h | ⟨v, -, h⟩
      · exact (Expr.eval_reports h).mono fun k => .operand List.mem_cons_self
      · cases h
  | .and l r, err, h | .or l r, err, h | .equal l r, err, h | .sameTerm l r, err, h => by
      rw [Expr.eval] at h
      rcases bind_eq_error h with h | ⟨x, -, h⟩
      · exact (Expr.eval_reports h).mono fun k => .operand List.mem_cons_self
      · rcases bind_eq_error h with h | ⟨y, -, h⟩
        · exact (Expr.eval_reports h).mono fun k => .operand (List.mem_pair.mpr (.inr rfl))
        · cases h
  | .ite condition yes no, err, h => by
      cases hcondition : condition.eval b with
      | error err' =>
          rw [Expr.eval, hcondition] at h
          obtain rfl := Except.error.inj h
          exact (Expr.eval_reports hcondition).mono fun k => .operand List.mem_cons_self
      | ok v =>
          have htruth : condition.truth b = .ok (v.bind Term.truth?) := bind_ok hcondition rfl
          rw [Expr.eval_ite htruth] at h
          cases ht : v.bind Term.truth? with
          | none =>
              rw [ht] at h
              cases h
          | some t =>
              rw [ht] at h htruth
              refine EvaluationError.Reports.mono ?_ fun k => .branch htruth
              cases t with
              | true => exact Expr.eval_reports h
              | false => exact Expr.eval_reports h
  | .coalesce es, err, h => by
      obtain ⟨before, e, after, rfl, hbefore, hreports⟩ := firstValue_reports h
      exact hreports.mono fun k => .candidate hbefore
  | .compare .., _, h | .arith .., _, h | .signed .., _, h | .member .., _, h | .holds _, _, h
  | .call .., _, h => ⟨_, (Except.error.inj h).symm, .here _, rfl⟩

/-- The candidate that fails, behind those that have no value. -/
theorem firstValue_reports : ∀ {es : List Expr} {err : EvaluationError},
    firstValue b es = .error err → ∃ before e after, es = before ++ e :: after ∧
      (∀ x ∈ before, x.eval b = .ok none) ∧ err.Reports (e.ComesTo b)
  | [], _, h => by cases h
  | e :: es, err, h => by
      rw [firstValue] at h
      rcases bind_eq_error h with he | ⟨v, hv, h⟩
      · exact ⟨[], e, es, rfl, fun x hx => absurd hx List.not_mem_nil, Expr.eval_reports he⟩
      · cases v with
        | some t => cases h
        | none =>
            obtain ⟨before, x, after, rfl, hbefore, hreports⟩ := firstValue_reports h
            exact ⟨e :: before, x, after, rfl, List.forall_mem_cons.mpr ⟨hv, hbefore⟩, hreports⟩

end

end Expressions

/-! ## Conditions and values of solutions -/

section Solutions

variable {e : Expr} {b : Binding} {bs kept : List Binding} {v : Variable} {err : EvaluationError}

theorem Expr.ok_of_keep (h : e.keep bs = .ok kept) (hb : b ∈ bs) : ∃ t, e.eval b = .ok t := by
  obtain ⟨r, hr⟩ := ok_of_filterM h b hb
  obtain ⟨t, ht, -⟩ := bind_eq_ok.mp hr
  obtain ⟨x, hx, -⟩ := bind_eq_ok.mp ht
  exact ⟨x, hx⟩

theorem Expr.keep_eq_error (h : e.keep bs = .error err) : ∃ b ∈ bs, e.eval b = .error err := by
  obtain ⟨b, hb, h⟩ := filterM_eq_error h
  refine ⟨b, hb, ?_⟩
  rcases bind_eq_error h with h | ⟨t, -, h⟩
  · rcases bind_eq_error h with h | ⟨x, -, h⟩
    · exact h
    · cases h
  · cases h

theorem Binding.ok_of_extend {o : Option Binding} (h : b.extend v e = .ok o) :
    ∃ t, e.eval b = .ok t := by
  obtain ⟨t, ht, -⟩ := bind_eq_ok.mp h
  exact ⟨t, ht⟩

theorem Binding.extend_eq_error (h : b.extend v e = .error err) : e.eval b = .error err := by
  rcases bind_eq_error h with h | ⟨t, -, h⟩
  · exact h
  · cases t <;> cases h

end Solutions

/-! ## Patterns -/

/-- Of a pattern that has been evaluated, all that the evaluation begins with has been. -/
theorem Dataset.eval_firsts {d : Dataset (Except EvaluationError)} {p q : Pattern}
    {g g' : GraphName} {input seeds bs : List Binding} (h : d.eval p g input = .ok bs)
    (hq : (q, g', seeds) ∈ p.firsts g input) : ∃ found, d.eval q g' seeds = .ok found := by
  have hbegin : ∀ {α : Type} {p : Pattern} {g : GraphName} {input : List Binding}
      {f : List Binding → Except EvaluationError α} {a : α}, d.eval p g input >>= f = .ok a →
      (q, g', seeds) ∈ [(p, g, input)] → ∃ found, d.eval q g' seeds = .ok found := by
    intro α p g input f a h hq
    cases List.mem_singleton.mp hq
    obtain ⟨found, hfound, -⟩ := bind_eq_ok.mp h
    exact ⟨found, hfound⟩
  cases p with
  | join | leftJoin | filter | extend | project | distinct | reduced | slice =>
      rw [Dataset.eval] at h
      exact hbegin h hq
  | union l r =>
      rw [Dataset.eval] at h
      rcases List.mem_cons.mp hq with hl | hr
      · exact hbegin h (List.mem_singleton.mpr hl)
      · obtain ⟨left, -, h⟩ := bind_eq_ok.mp h
        exact hbegin h hr
  | graph n p =>
      cases n with
      | iri i =>
          rw [Dataset.eval] at h
          cases List.mem_singleton.mp hq
          exact ⟨bs, h⟩
      | var v => cases hq
  | _ => cases hq

/-- An evaluation that succeeds has come to nothing that is refused. -/
theorem Pattern.ComesTo.not_refused {d : Dataset (Except EvaluationError)} {p : Pattern}
    {g : GraphName} {input : List Binding} {k : Construct} (h : p.ComesTo d g input k) :
    ∀ {bs : List Binding}, d.eval p g input = .ok bs → k.refused = false := by
  induction h with
  | here p g input =>
      intro bs h
      cases p with
      | path | minus | orderBy | group | service =>
          rw [Dataset.eval] at h
          cases h
      | _ => rfl
  | first hq _ ih =>
      intro bs h
      obtain ⟨found, hfound⟩ := Dataset.eval_firsts h hq
      exact ih hfound
  | joined hleft _ ih =>
      intro bs h
      rw [Dataset.eval, bind_of_ok hleft] at h
      exact ih h
  | optional hleft hb _ ih =>
      intro bs h
      rw [Dataset.eval, bind_of_ok hleft] at h
      obtain ⟨parts, hparts, -⟩ := bind_eq_ok.mp h
      obtain ⟨part, hpart⟩ := ok_of_mapM hparts _ hb
      obtain ⟨right, hright, -⟩ := bind_eq_ok.mp hpart
      exact ih hright
  | optionalCondition hleft hb hright hx he =>
      intro bs h
      rw [Dataset.eval, bind_of_ok hleft] at h
      obtain ⟨parts, hparts, -⟩ := bind_eq_ok.mp h
      obtain ⟨part, hpart⟩ := ok_of_mapM hparts _ hb
      rw [bind_of_ok hright] at hpart
      obtain ⟨kept, hkept, -⟩ := bind_eq_ok.mp hpart
      rw [Dataset.keep, Dataset.lift_eq] at hkept
      obtain ⟨t, ht⟩ := Expr.ok_of_keep hkept hx
      exact he.not_refused ht
  | condition hfound hb he =>
      intro bs h
      rw [Dataset.eval, bind_of_ok hfound] at h
      obtain ⟨t, ht⟩ := Expr.ok_of_keep ((Dataset.lift_eq _).symm.trans h) hb
      exact he.not_refused ht
  | value hfound hb he =>
      intro bs h
      rw [Dataset.eval, bind_of_ok hfound] at h
      obtain ⟨extended, hextended, -⟩ := bind_eq_ok.mp h
      rw [Dataset.lift_eq] at hextended
      obtain ⟨o, ho⟩ := ok_of_mapM hextended _ hb
      obtain ⟨t, ht⟩ := Binding.ok_of_extend ho
      exact he.not_refused ht
  | named hnames hn hseeds hne _ ih =>
      intro bs h
      rw [Dataset.eval, bind_of_ok hnames] at h
      obtain ⟨parts, hparts, -⟩ := bind_eq_ok.mp h
      obtain ⟨part, hpart⟩ := ok_of_mapM hparts _ hn
      rw [hseeds, if_neg (by simpa using hne)] at hpart
      exact ih hpart

namespace Dataset

/-- The lookups of triple patterns do not fail. -/
theorem bgp_ok (c : Content) (scope : Option Using) (g : GraphName) (ts : List TriplePattern)
    (input : List Binding) : ∃ bs, ts.foldlM ((c.view scope).matchTriple g) input = .ok bs := by
  have hone : ∀ (t : TriplePattern) (input : List Binding),
      ∃ bs, (c.view scope).matchTriple g input t = .ok bs := by
    intro t input
    obtain ⟨parts, hparts⟩ : ∃ parts, input.mapM ((c.view scope).matchOne g t) = .ok parts := by
      refine mapM_ok fun b _ => ?_
      unfold matchOne
      cases t.key? b with
      | none => exact ⟨[], rfl⟩
      | some f => exact ⟨_, bind_ok (Content.find_view c scope g f) rfl⟩
    exact ⟨_, bind_ok hparts rfl⟩
  induction ts generalizing input with
  | nil => exact ⟨input, rfl⟩
  | cons t ts ih =>
      obtain ⟨found, hfound⟩ := hone t input
      obtain ⟨bs, hbs⟩ := ih found
      exact ⟨bs, bind_ok hfound hbs⟩

/-- An evaluation that fails reports a refused form that it has come to. -/
theorem eval_reports {c : Content} {scope : Option Using} :
    ∀ (p : Pattern) {g : GraphName} {input : List Binding} {err : EvaluationError},
      (c.view scope).eval p g input = .error err →
      err.Reports (p.ComesTo (c.view scope) g input)
  | .bgp ts, g, input, err, h => by
      obtain ⟨bs, hbs⟩ := bgp_ok c scope g ts input
      rw [eval, hbs] at h
      cases h
  | .join l r, g, input, err, h => by
      rw [eval] at h
      rcases bind_eq_error h with h | ⟨left, hleft, h⟩
      · exact (eval_reports l h).mono fun k => .first List.mem_cons_self
      · exact (eval_reports r h).mono fun k => .joined hleft
  | .leftJoin l r condition, g, input, err, h => by
      rw [eval] at h
      rcases bind_eq_error h with h | ⟨left, hleft, h⟩
      · exact (eval_reports l h).mono fun k => .first List.mem_cons_self
      rcases bind_eq_error h with h | ⟨parts, -, h⟩
      · obtain ⟨b, hb, h⟩ := mapM_eq_error h
        rcases bind_eq_error h with h | ⟨right, hright, h⟩
        · exact (eval_reports r h).mono fun k => .optional hleft hb
        rcases bind_eq_error h with h | ⟨kept, -, h⟩
        · cases condition with
          | none => cases h
          | some e =>
              rw [keep, lift_eq] at h
              obtain ⟨x, hx, h⟩ := Expr.keep_eq_error h
              exact (Expr.eval_reports h).mono fun k => .optionalCondition hleft hb hright hx
        · cases h
      · cases h
  | .filter e p, g, input, err, h => by
      rw [eval] at h
      rcases bind_eq_error h with h | ⟨found, hfound, h⟩
      · exact (eval_reports p h).mono fun k => .first List.mem_cons_self
      rw [lift_eq] at h
      obtain ⟨b, hb, h⟩ := Expr.keep_eq_error h
      exact (Expr.eval_reports h).mono fun k => .condition hfound hb
  | .union l r, g, input, err, h => by
      rw [eval] at h
      rcases bind_eq_error h with h | ⟨left, -, h⟩
      · exact (eval_reports l h).mono fun k => .first List.mem_cons_self
      rcases bind_eq_error h with h | ⟨right, -, h⟩
      · exact (eval_reports r h).mono fun k => .first (List.mem_pair.mpr (.inr rfl))
      · cases h
  | .graph (.iri i) p, g, input, err, h => by
      rw [eval] at h
      exact (eval_reports p h).mono fun k => .first List.mem_cons_self
  | .graph (.var v) p, g, input, err, h => by
      rw [eval] at h
      rcases bind_eq_error h with h | ⟨names, hnames, h⟩
      · cases scope <;> cases h
      rcases bind_eq_error h with h | ⟨parts, -, h⟩
      · obtain ⟨n, hn, h⟩ := mapM_eq_error h
        dsimp only at h
        split at h
        · cases h
        · rename_i hne
          refine (eval_reports p h).mono fun k => .named hnames hn rfl ?_
          simpa using hne
      · cases h
  | .extend p v e, g, input, err, h => by
      rw [eval] at h
      rcases bind_eq_error h with h | ⟨found, hfound, h⟩
      · exact (eval_reports p h).mono fun k => .first List.mem_cons_self
      rcases bind_eq_error h with h | ⟨extended, -, h⟩
      · rw [lift_eq] at h
        obtain ⟨b, hb, h⟩ := mapM_eq_error h
        exact (Expr.eval_reports (Binding.extend_eq_error h)).mono fun k => .value hfound hb
      · cases h
  | .values vars rows, g, input, err, h => by
      rw [eval] at h
      cases h
  | .project p _, g, input, err, h | .distinct p, g, input, err, h | .reduced p, g, input, err, h
  | .slice p _ _, g, input, err, h => by
      rw [eval] at h
      rcases bind_eq_error h with h | ⟨found, -, h⟩
      · exact (eval_reports p h).mono fun k => .first List.mem_cons_self
      · cases h
  | .path .., g, input, err, h | .minus .., g, input, err, h | .orderBy .., g, input, err, h
  | .group .., g, input, err, h | .service .., g, input, err, h => by
      rw [eval] at h
      exact ⟨_, (Except.error.inj h).symm, .here _ _ _, rfl⟩

end Dataset

/-- A refused pattern stands where every evaluation comes, whatever the data are. -/
def Pattern.exposed : Pattern → Bool
  | .path .. | .minus .. | .orderBy .. | .group .. | .service .. => true
  | .join l r | .union l r => l.exposed || r.exposed
  | .leftJoin l _ _ => l.exposed
  | .filter _ p | .extend p _ _ | .graph (.iri _) p | .project p _ | .distinct p | .reduced p
  | .slice p _ _ => p.exposed
  | .bgp _ | .values .. | .graph (.var _) _ => false

theorem Dataset.eval_of_exposed {d : Dataset (Except EvaluationError)} :
    ∀ {p : Pattern}, p.exposed = true → ∀ (g : GraphName) (input : List Binding)
      (bs : List Binding), d.eval p g input ≠ .ok bs
  | .path .., _, g, input, bs | .minus .., _, g, input, bs | .orderBy .., _, g, input, bs
  | .group .., _, g, input, bs | .service .., _, g, input, bs => by
      rw [eval]
      exact fun h => nomatch h
  | .join l r, h, g, input, bs => by
      rw [eval]
      intro hbs
      obtain ⟨left, hleft, hright⟩ := bind_eq_ok.mp hbs
      rcases Bool.or_eq_true_iff.mp h with hl | hr
      · exact eval_of_exposed hl g input left hleft
      · exact eval_of_exposed hr g left bs hright
  | .union l r, h, g, input, bs => by
      rw [eval]
      intro hbs
      obtain ⟨left, hleft, hbs⟩ := bind_eq_ok.mp hbs
      obtain ⟨right, hright, -⟩ := bind_eq_ok.mp hbs
      rcases Bool.or_eq_true_iff.mp h with hl | hr
      · exact eval_of_exposed hl g input left hleft
      · exact eval_of_exposed hr g input right hright
  | .graph (.iri i) p, h, g, input, bs => by
      rw [eval]
      exact eval_of_exposed (p := p) h i.graph input bs
  | .project p _, h, g, input, bs => by
      rw [eval]
      intro hbs
      obtain ⟨found, hfound, -⟩ := bind_eq_ok.mp hbs
      exact eval_of_exposed (p := p) h g [.empty] found hfound
  | .leftJoin p _ _, h, g, input, bs | .filter _ p, h, g, input, bs
  | .extend p _ _, h, g, input, bs | .distinct p, h, g, input, bs | .reduced p, h, g, input, bs
  | .slice p _ _, h, g, input, bs => by
      rw [eval]
      intro hbs
      obtain ⟨found, hfound, -⟩ := bind_eq_ok.mp hbs
      exact eval_of_exposed (p := p) h g input found hfound

/-! ## Failures and rejections -/

/-- Every failure names a refused part of the pattern, however parts are written; so a pattern
without one is evaluated.  What a user may query of a content is a content too
(`Content.restrict_reader`). -/
theorem failure_names_refused_part (c : Content) (p : Pattern) (scope : Option Using)
    (input : Option Binding) (text : Construct → String) :
    let outcome : Except EvaluationError (List Binding) := p.solutions c.reader scope input
    (p.supported = true → ∃ bs, outcome = .ok bs) ∧
      ∀ err, outcome = .error err → ∃ k, err = .unsupported k ∧ (Construct.pattern p).Has k ∧
        k.refused = true ∧
        err.messageWith text =
          "The graph pattern " ++ text k ++ " is not supported by this evaluator" := by
  intro outcome
  have hfailure : ∀ err, outcome = .error err →
      ∃ k, err = .unsupported k ∧ (Construct.pattern p).Has k ∧ k.refused = true := by
    intro err herr
    have heval : (c.view scope).eval p .default [input.getD .empty] = .error err := herr
    obtain ⟨k, hk, hmet, hrefused⟩ := Dataset.eval_reports p heval
    exact ⟨k, hk, hmet.has, hrefused⟩
  constructor
  · intro hp
    cases houtcome : outcome with
    | ok bs => exact ⟨bs, rfl⟩
    | error err =>
        obtain ⟨k, -, hk, hrefused⟩ := hfailure err houtcome
        rw [hk.not_refused hp] at hrefused
        cases hrefused
  · intro err herr
    obtain ⟨k, rfl, hk, hrefused⟩ := hfailure err herr
    exact ⟨k, rfl, hk, hrefused, rfl⟩

/-- Conditions of optional parts: one has supported branches; in the other IF comes to a comparison
for the second solution, and the failure names it. -/
theorem failure_names_refused_part_optional :
    let x : Variable := ⟨"x"⟩
    let o : Variable := ⟨"o"⟩
    let t : TriplePattern := ⟨.var x, .var ⟨"p"⟩, .var o⟩
    let p : Pattern := .leftJoin (.bgp [t]) (.graph (.var ⟨"g"⟩) (.bgp [t]))
      (some (.ite (.bound x) (.not (.var x)) (.coalesce [.var x, .var o])))
    let smaller : Expr := .compare .less (.var o) (.literal (.simple "5"))
    let u : TriplePattern := ⟨.iri ⟨"s"⟩, .iri ⟨"p"⟩, .var o⟩
    let q : Pattern := .leftJoin (.bgp [u]) (.bgp [u])
      (some (.ite (.equal (.var o) (.literal (.simple "a"))) (.var o) smaller))
    let c : Content := { triples := [⟨.iri ⟨"s"⟩, ⟨"p"⟩, .literal (.simple "a")⟩,
      ⟨.iri ⟨"s"⟩, ⟨"p"⟩, .literal (.simple "b")⟩] }
    let outcome : Pattern → Except EvaluationError (List Binding) := fun p =>
      p.solutions c.reader none none
    (p.supported = true ∧ ∃ bs, outcome p = .ok bs) ∧
      ∃ err, outcome q = .error err ∧ (Construct.pattern q).Has (.expression smaller) ∧
        smaller.refused = true ∧
        err.message = "The graph pattern (?o < \"5\") is not supported by this evaluator" := by
  intro x o t p smaller u q c outcome
  have hp : p.supported = true := by decide
  have hq : outcome q = .error (.unsupported (.expression smaller)) := rfl
  obtain ⟨k, hk, hpart, hrefused, hmessage⟩ :=
    (failure_names_refused_part c q none none Construct.render).2 _ hq
  obtain rfl := EvaluationError.unsupported.inj hk
  have htext : Construct.render (.expression smaller) = "(?o < \"5\")" := by decide +kernel
  refine ⟨⟨hp, (failure_names_refused_part c p none none Construct.render).1 hp⟩,
    _, hq, hpart, hrefused, ?_⟩
  rw [EvaluationError.message, hmessage, htext]
  rfl

/-- A pattern is rejected exactly if its evaluation comes to something that is refused.  It is
rejected over all data where a refused pattern is exposed. -/
theorem rejected_iff_comesTo (p : Pattern) :
    (∀ (c : Content) (scope : Option Using) (input : Option Binding),
      (∃ k, p.solutions c.reader scope input = Except.error (EvaluationError.unsupported k)) ↔
        ∃ k, p.ComesTo (c.view scope) .default [input.getD .empty] k ∧ k.refused = true) ∧
      (p.exposed = true → ∀ (c : Content) (scope : Option Using) (input : Option Binding),
        ∃ k, p.solutions c.reader scope input =
          Except.error (EvaluationError.unsupported k)) := by
  constructor
  · intro c scope input
    constructor
    · rintro ⟨k, h⟩
      have heval : (c.view scope).eval p .default [input.getD .empty] =
        .error (.unsupported k) := h
      obtain ⟨k, -, hmet, hrefused⟩ := Dataset.eval_reports p heval
      exact ⟨k, hmet, hrefused⟩
    · rintro ⟨k, hmet, hrefused⟩
      cases houtcome : (c.view scope).eval p .default [input.getD .empty] with
      | ok bs =>
          rw [hmet.not_refused houtcome] at hrefused
          cases hrefused
      | error err =>
          obtain ⟨k', rfl, -, -⟩ := Dataset.eval_reports p houtcome
          exact ⟨k', houtcome⟩
  · intro hp c scope input
    cases houtcome : (c.view scope).eval p .default [input.getD .empty] with
    | ok bs => exact absurd houtcome (Dataset.eval_of_exposed hp .default _ bs)
    | error err =>
        obtain ⟨k, rfl, -, -⟩ := Dataset.eval_reports p houtcome
        exact ⟨k, houtcome⟩

/-- MINUS behind a triple pattern is met over the empty content too. -/
theorem rejected_iff_comesTo_minus :
    let t : TriplePattern := ⟨.var ⟨"s"⟩, .var ⟨"p"⟩, .var ⟨"o"⟩⟩
    let p : Pattern := .filter (.bound ⟨"s"⟩) (.join (.bgp [t]) (.minus (.bgp [t]) (.bgp [])))
    p.exposed = true ∧ ∃ k, p.solutions (Content.reader {}) none none =
      Except.error (EvaluationError.unsupported k) := by
  intro t p
  have hp : p.exposed = true := by decide
  exact ⟨hp, (rejected_iff_comesTo p).2 hp {} none none⟩

/-- A refused part is not always noticed: without solutions a comparison is never made. -/
theorem unmet_part_goes_unnoticed :
    ¬ ∀ (p : Pattern) (k : Construct), (Construct.pattern p).Has k → k.refused = true →
      ∀ (c : Content) (scope : Option Using) (input : Option Binding),
        ∃ k, p.solutions c.reader scope input =
          Except.error (EvaluationError.unsupported k) := by
  intro h
  let e : Expr := .compare .less (.var ⟨"o"⟩) (.literal (.simple "5"))
  let p : Pattern := .filter e (.bgp [⟨.var ⟨"s"⟩, .var ⟨"p"⟩, .var ⟨"o"⟩⟩])
  have hpart : (Construct.pattern p).Has (.expression e) :=
    .part (List.mem_cons_of_mem _ List.mem_cons_self) (.refl _)
  obtain ⟨k, hk⟩ := h p (.expression e) hpart rfl {} none none
  have hfound : p.solutions (Content.reader {}) none none =
    (Except.ok [] : Except EvaluationError (List Binding)) := rfl
  rw [hfound] at hk
  cases hk

end GraphStore
