/-
# `GraphStore.Proofs.Dependence` — what the value of an expression depends on

Two facts about one expression under two bindings:

| | |
| :-- | :-- |
| the bindings agree on `e.reads` | the outcomes are the same (`Expr.eval_congr`) |
| the second extends the first, `e` is steady | a value that is there stays (`Expr.eval_keeps`) |

`e.reads` are the variables that occur in `e` outside of refused forms, which are refused whatever
is in them.  An expression is steady if it can only be undecided about a variable that is not
bound: BOUND takes a missing value for an answer, and COALESCE goes on to the next candidate, and
neither answer is safe when more variables are bound later.

The connectives are the interesting case of the second fact.  A conjunction with an undecided side
may have a value already, and that side may be decided later; `Truth.and_eq_false` and its three
companions say when a connective has which value, and each of them only asks for values that are
there.
-/
import GraphStore.Proofs.Agreement
import GraphStore.Proofs.Refusal

namespace GraphStore

/-! ## Variables -/

mutual

/-- The variables that occur in the expression, refused forms left out. -/
def Expr.reads : Expr → List Variable
  | .iri _ | .literal _ => []
  | .var v | .bound v => [v]
  | .not e => e.reads
  | .and l r | .or l r | .equal l r | .sameTerm l r => l.reads ++ r.reads
  | .ite condition yes no => condition.reads ++ (yes.reads ++ no.reads)
  | .coalesce es => Expr.allReads es
  | .compare .. | .arith .. | .signed .. | .member .. | .holds _ | .call .. => []

/-- The variables that occur in one of the expressions. -/
def Expr.allReads : List Expr → List Variable
  | [] => []
  | e :: es => e.reads ++ Expr.allReads es

end

section Agreement

variable {b b' : Binding}

mutual

/-- Under bindings that agree on its variables an expression has the same value, has none, or is
refused for the same construct. -/
theorem Expr.eval_congr : ∀ {e : Expr}, (∀ v ∈ e.reads, b.get? v = b'.get? v) →
    e.eval b = e.eval b'
  | .iri _, _ | .literal _, _ => rfl
  | .var v, h => by
      rw [Expr.eval, Expr.eval, h v (List.mem_singleton_self v)]
  | .bound v, h => by
      rw [Expr.eval, Expr.eval, Binding.contains, Binding.contains,
        h v (List.mem_singleton_self v)]
  | .not e, h => by
      rw [Expr.eval, Expr.eval, Expr.eval_congr (e := e) h]
  | .and l r, h | .or l r, h | .equal l r, h | .sameTerm l r, h => by
      obtain ⟨hl, hr⟩ := List.forall_mem_append.mp h
      rw [Expr.eval, Expr.eval, Expr.eval_congr hl, Expr.eval_congr hr]
  | .ite condition yes no, h => by
      obtain ⟨hcondition, h⟩ := List.forall_mem_append.mp h
      obtain ⟨hyes, hno⟩ := List.forall_mem_append.mp h
      rw [Expr.eval, Expr.eval, Expr.eval_congr hcondition, Expr.eval_congr hyes,
        Expr.eval_congr hno]
  | .coalesce es, h => by
      rw [Expr.eval, Expr.eval, firstValue_congr h]
  | .compare .., _ | .arith .., _ | .signed .., _ | .member .., _ | .holds _, _ | .call .., _ =>
      rfl

theorem firstValue_congr : ∀ {es : List Expr},
    (∀ v ∈ Expr.allReads es, b.get? v = b'.get? v) → firstValue b es = firstValue b' es
  | [], _ => rfl
  | e :: es, h => by
      obtain ⟨he, hes⟩ := List.forall_mem_append.mp h
      rw [firstValue, firstValue, Expr.eval_congr he, firstValue_congr hes]

end

end Agreement

/-! ## Values that stay -/

/-- The second has the value of the first, if that has one. -/
def Keeps {α : Type} (x y : Option α) : Prop := ∀ t, x = some t → y = some t

section Keeps

variable {α β : Type} {x y : Option α}

theorem Keeps.refl (x : Option α) : Keeps x x := fun _ h => h

theorem keeps_none (y : Option α) : Keeps none y := fun _ h => by cases h

theorem Keeps.map (h : Keeps x y) (f : α → β) : Keeps (x.map f) (y.map f) := by
  intro t ht
  obtain ⟨a, ha, rfl⟩ := Option.map_eq_some_iff.mp ht
  rw [h a ha]
  rfl

theorem Keeps.bind (h : Keeps x y) (f : α → Option β) : Keeps (x.bind f) (y.bind f) := by
  intro t ht
  obtain ⟨a, ha, hf⟩ := Option.bind_eq_some_iff.mp ht
  rw [h a ha]
  exact hf

end Keeps

namespace Truth

variable {x x' y y' : Option Bool}

theorem and_eq_false : and x y = some false ↔ x = some false ∨ y = some false := by
  rcases x with _ | _ | _ <;> rcases y with _ | _ | _ <;> decide

theorem and_eq_true : and x y = some true ↔ x = some true ∧ y = some true := by
  rcases x with _ | _ | _ <;> rcases y with _ | _ | _ <;> decide

theorem or_eq_true : or x y = some true ↔ x = some true ∨ y = some true := by
  rcases x with _ | _ | _ <;> rcases y with _ | _ | _ <;> decide

theorem or_eq_false : or x y = some false ↔ x = some false ∧ y = some false := by
  rcases x with _ | _ | _ <;> rcases y with _ | _ | _ <;> decide

theorem keeps_and (hx : Keeps x x') (hy : Keeps y y') : Keeps (and x y) (and x' y') := by
  intro t ht
  cases t with
  | false => exact and_eq_false.mpr ((and_eq_false.mp ht).imp (hx false) (hy false))
  | true => exact and_eq_true.mpr ((and_eq_true.mp ht).imp (hx true) (hy true))

theorem keeps_or (hx : Keeps x x') (hy : Keeps y y') : Keeps (or x y) (or x' y') := by
  intro t ht
  cases t with
  | false => exact or_eq_false.mpr ((or_eq_false.mp ht).imp (hx false) (hy false))
  | true => exact or_eq_true.mpr ((or_eq_true.mp ht).imp (hx true) (hy true))

end Truth

theorem keeps_sameValue {x x' y y' : Option Term} (hx : Keeps x x') (hy : Keeps y y') :
    Keeps (sameValue x y) (sameValue x' y') := by
  intro t ht
  cases x with
  | none => cases ht
  | some a =>
      cases y with
      | none => cases ht
      | some b =>
          rw [hx a rfl, hy b rfl]
          exact ht

/-- The expression is made of supported constructs other than BOUND and COALESCE. -/
def Expr.steady : Expr → Bool
  | .iri _ | .literal _ | .var _ => true
  | .not e => e.steady
  | .and l r | .or l r | .equal l r | .sameTerm l r => l.steady && r.steady
  | .ite condition yes no => condition.steady && yes.steady && no.steady
  | .bound _ | .coalesce _ => false
  | .compare .. | .arith .. | .signed .. | .member .. | .holds _ | .call .. => false

section Growth

variable {b b' : Binding}

/-- A steady expression is evaluated under both bindings, and under the larger one it keeps its
value. -/
theorem Expr.eval_keeps (h : b'.Extends b) : ∀ {e : Expr}, e.steady = true →
    ∃ x y, e.eval b = .ok x ∧ e.eval b' = .ok y ∧ Keeps x y
  | .iri _, _ | .literal _, _ => ⟨_, _, rfl, rfl, .refl _⟩
  | .var v, _ => ⟨b.get? v, b'.get? v, rfl, rfl, h v⟩
  | .not e, he => by
      obtain ⟨x, y, hx, hy, hkeeps⟩ := Expr.eval_keeps h (e := e) he
      exact ⟨_, _, bind_ok hx rfl, bind_ok hy rfl, (hkeeps.bind _).map _⟩
  | .and l r, he => by
      obtain ⟨hl, hr⟩ := Bool.and_eq_true_iff.mp he
      obtain ⟨x, x', hx, hx', hxs⟩ := Expr.eval_keeps h hl
      obtain ⟨y, y', hy, hy', hys⟩ := Expr.eval_keeps h hr
      exact ⟨_, _, bind_ok hx (bind_ok hy rfl), bind_ok hx' (bind_ok hy' rfl),
        (Truth.keeps_and (hxs.bind _) (hys.bind _)).map _⟩
  | .or l r, he => by
      obtain ⟨hl, hr⟩ := Bool.and_eq_true_iff.mp he
      obtain ⟨x, x', hx, hx', hxs⟩ := Expr.eval_keeps h hl
      obtain ⟨y, y', hy, hy', hys⟩ := Expr.eval_keeps h hr
      exact ⟨_, _, bind_ok hx (bind_ok hy rfl), bind_ok hx' (bind_ok hy' rfl),
        (Truth.keeps_or (hxs.bind _) (hys.bind _)).map _⟩
  | .equal l r, he | .sameTerm l r, he => by
      obtain ⟨hl, hr⟩ := Bool.and_eq_true_iff.mp he
      obtain ⟨x, x', hx, hx', hxs⟩ := Expr.eval_keeps h hl
      obtain ⟨y, y', hy, hy', hys⟩ := Expr.eval_keeps h hr
      exact ⟨_, _, bind_ok hx (bind_ok hy rfl), bind_ok hx' (bind_ok hy' rfl),
        keeps_sameValue hxs hys⟩
  | .ite condition yes no, he => by
      obtain ⟨he, hno⟩ := Bool.and_eq_true_iff.mp he
      obtain ⟨hcondition, hyes⟩ := Bool.and_eq_true_iff.mp he
      obtain ⟨x, x', hx, hx', hxs⟩ := Expr.eval_keeps h hcondition
      have hbranch : ∀ t : Bool, ∃ y y', (if t then yes else no).eval b = .ok y ∧
          (if t then yes else no).eval b' = .ok y' ∧ Keeps y y' := by
        intro t
        cases t with
        | false => exact Expr.eval_keeps h hno
        | true => exact Expr.eval_keeps h hyes
      have htruth : condition.truth b = .ok (x.bind Term.truth?) := bind_ok hx rfl
      have htruth' : condition.truth b' = .ok (x'.bind Term.truth?) := bind_ok hx' rfl
      have hkeeps : Keeps (x.bind Term.truth?) (x'.bind Term.truth?) := hxs.bind _
      rw [Expr.eval_ite htruth, Expr.eval_ite htruth']
      -- an undecided condition has no value to keep, a decided one stays with its branch
      cases ht : x.bind Term.truth? with
      | some t =>
          rw [hkeeps t ht]
          exact hbranch t
      | none =>
          cases x'.bind Term.truth? with
          | none => exact ⟨none, none, rfl, rfl, .refl none⟩
          | some t =>
              obtain ⟨-, y', -, hy', -⟩ := hbranch t
              exact ⟨none, y', rfl, hy', keeps_none y'⟩
  | .bound _, he | .coalesce _, he | .compare .., he | .arith .., he | .signed .., he
  | .member .., he | .holds _, he | .call .., he => absurd he Bool.false_ne_true

theorem Expr.truth_keeps (h : b'.Extends b) {e : Expr} (he : e.steady = true) {t : Bool}
    (ht : e.truth b = .ok (some t)) : e.truth b' = .ok (some t) := by
  obtain ⟨x, y, hx, hy, hkeeps⟩ := Expr.eval_keeps h he
  have hxt : x.bind Term.truth? = some t := by
    rw [Expr.truth, bind_of_ok hx] at ht
    exact Except.ok.inj ht
  rw [Expr.truth, bind_of_ok hy]
  exact congrArg Except.ok (hkeeps.bind _ t hxt)

theorem Expr.isTrue_eq {e : Expr} {t : Bool} (ht : e.truth b = .ok (some t)) : e.isTrue b = t := by
  obtain ⟨x, hx, hxt⟩ := bind_eq_ok.mp ht
  rw [Expr.isTrue, Expr.value?, hx]
  show (x.bind Term.truth? == some true) = t
  rw [Except.ok.inj hxt]
  cases t <;> rfl

end Growth

/-- Nothing stops a filter with a steady condition. -/
theorem Expr.keep_eq_filter {e : Expr} (he : e.steady = true) (bs : List Binding) :
    e.keep bs = .ok (bs.filter (e.isTrue ·)) := by
  obtain ⟨kept, hkept⟩ : ∃ kept, e.keep bs = .ok kept := by
    refine filterM_ok (fun b => ?_) bs
    obtain ⟨x, -, hx, -⟩ := Expr.eval_keeps (Binding.Extends.refl b) he
    exact ⟨_, bind_ok (bind_ok hx rfl) rfl⟩
  rw [hkept, Expr.keep_eq_ok hkept]

/-- A filter that has decided about all solutions may as well stand behind what binds more
variables in them. -/
theorem Expr.keep_map {e : Expr} (he : e.steady = true) {f : Binding → Binding}
    {bs : List Binding} (hf : ∀ b ∈ bs, (f b).Extends b)
    (hdecided : ∀ b ∈ bs, ∃ t, e.truth b = .ok (some t)) :
    e.keep (bs.map f) = (e.keep bs).map (List.map f) := by
  have hsame : ∀ b ∈ bs, e.isTrue (f b) = e.isTrue b := by
    intro b hb
    obtain ⟨t, ht⟩ := hdecided b hb
    rw [Expr.isTrue_eq ht, Expr.isTrue_eq (Expr.truth_keeps (hf b hb) he ht)]
  rw [Expr.keep_eq_filter he, Expr.keep_eq_filter he, List.filter_map]
  exact congrArg (fun kept => Except.ok (kept.map f)) (List.filter_congr hsame)

/-- An expression has the same outcome under bindings that agree on its variables.  Made of
supported constructs other than BOUND and COALESCE, it keeps its value when more variables are
bound, and a filter that has decided about its solutions keeps the same ones. -/
theorem expressions_depend_on_variables (e : Expr) :
    (∀ b b' : Binding, (∀ v ∈ e.reads, b.get? v = b'.get? v) → e.eval b = e.eval b') ∧
    (e.steady = true → ∀ b b' : Binding, b'.Extends b →
      (∀ t, e.eval b = .ok (some t) → e.eval b' = .ok (some t)) ∧
      ∀ t, e.truth b = .ok (some t) → e.truth b' = .ok (some t)) ∧
    (e.steady = true → ∀ (f : Binding → Binding) (bs : List Binding),
      (∀ b ∈ bs, (f b).Extends b) → (∀ b ∈ bs, ∃ t, e.truth b = .ok (some t)) →
      e.keep (bs.map f) = (e.keep bs).map (List.map f)) := by
  refine ⟨fun b b' => Expr.eval_congr, fun he b b' hext => ⟨fun t ht => ?_, fun t => ?_⟩,
    fun he f bs => Expr.keep_map he⟩
  · obtain ⟨x, y, hx, hy, hkeeps⟩ := Expr.eval_keeps hext he
    obtain rfl : x = some t := Except.ok.inj (hx.symm.trans ht)
    rw [hy, hkeeps t rfl]
  · exact Expr.truth_keeps hext he

/-- A conjunction whose right side is undecided in the first solution and decided later; a variable
that does not occur in it makes no difference. -/
theorem expressions_depend_on_variables_conjunction :
    let x : Variable := ⟨"x"⟩
    let y : Variable := ⟨"y"⟩
    let z : Variable := ⟨"z"⟩
    let i : Term := .iri ⟨"http://e.com/i"⟩
    let e : Expr := .and (.equal (.var x) (.var y)) (.not (.var z))
    let b := Binding.ofList [(x, i), (y, .iri ⟨"http://e.com/j"⟩)]
    let c := Binding.ofList [(x, i), (y, i), (z, boolTerm false)]
    let f := fun b : Binding => (b.merge? (.single z (boolTerm true))).getD b
    e.eval b = e.eval (b.insert ⟨"w"⟩ i) ∧
      (e.steady = true ∧ (f b).contains z = true ∧
        e.eval (f b) = .ok (some (boolTerm false))) ∧
      e.keep ([b, c].map f) = .ok [c] := by
  intro x y z i e b c f
  obtain ⟨hagree, hgrow, hfilter⟩ := expressions_depend_on_variables e
  have hreads : ∀ v ∈ e.reads, b.get? v = (b.insert ⟨"w"⟩ i).get? v := by
    decide
  have hf : ∀ b : Binding, (f b).Extends b := by
    intro b
    show ((b.merge? (.single z (boolTerm true))).getD b).Extends b
    cases hm : b.merge? (.single z (boolTerm true)) with
    | none => exact .refl b
    | some m => exact (Binding.extends_of_merge? hm).1
  have hb : e.eval b = .ok (some (boolTerm false)) := ok_of_toOption (by decide +kernel)
  refine ⟨hagree b _ hreads, ⟨rfl, by decide, (hgrow rfl b (f b) (hf b)).1 _ hb⟩, ?_⟩
  have hbt : e.truth b = .ok (some false) := ok_of_toOption (by decide +kernel)
  have hct : e.truth c = .ok (some true) := ok_of_toOption (by decide +kernel)
  have hdecided : ∀ d ∈ [b, c], ∃ t, e.truth d = .ok (some t) :=
    List.forall_mem_cons.mpr ⟨⟨false, hbt⟩, List.forall_mem_singleton.mpr ⟨true, hct⟩⟩
  exact (hfilter rfl f [b, c] (fun d _ => hf d) hdecided).trans
    (ok_of_toOption (by decide +kernel))

end GraphStore
