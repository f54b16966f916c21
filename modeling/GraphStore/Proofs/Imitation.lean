/-
# `GraphStore.Proofs.Imitation` — operations that are taken for transfers

Lowering knows the kind of the next transfer of the text, but not where it stands.  A
request that was written by hand is taken for that transfer if it begins like one:

    INSERT { GRAPH <b> { ?s ?p ?o } } WHERE { GRAPH <a> { ?s ?p ?o } } ; ADD <c> TO <d>

becomes an ADD from `a` to `b`, and the written ADD stays an update.  `Imitated` says
where this happens, and `lowering_keeps_written` that it happens nowhere else: without
imitation every operation becomes what it was written as, and with it some operation
does not.

One request alone is never lowered to a transfer (`Request.not_isTransfer_lower`), and
what folding finds always is one; this is how the two outcomes are told apart.
-/
import GraphStore.Proofs.Rewriting
import Mathlib.Data.List.Forall2

namespace GraphStore

/-- The operation is written as ADD, COPY or MOVE. -/
def Written.isTransfer : Written → Bool
  | .transfer _ => true
  | .plain _ => false

theorem Written.isTransfer_lower {w : Written} {next : Nat} {l : Operation × Nat}
    (h : w.lower next = .ok l) : l.1.isTransfer = w.isTransfer := by
  cases w with
  | plain r => exact Request.not_isTransfer_lower h
  | transfer t =>
      rw [← Except.ok.inj h]
      exact t.isTransfer

/-- Lowered one by one, the transfers are the operations that are written as transfers. -/
theorem Written.forall₂_lowerEach {ws : List Written} {next next' : Nat} {ops : List Operation}
    (h : lowerEach next ws = .ok (ops, next')) :
    List.Forall₂ (fun w op => Operation.isTransfer op = w.isTransfer) ws ops := by
  induction ws generalizing next ops with
  | nil =>
      rw [← (Prod.mk.inj (Except.ok.inj h)).1]
      exact .nil
  | cons w ws ih =>
      rw [lowerEach_cons] at h
      cases hl : w.lower next with
      | error e =>
          rw [hl] at h
          cases h
      | ok l =>
          cases hl' : lowerEach l.2 ws with
          | error e =>
              rw [hl] at h
              simp only [Except.bind, hl'] at h
              cases h
          | ok l' =>
              rw [hl] at h
              simp only [Except.bind, hl', Except.map] at h
              obtain ⟨rfl, rfl⟩ := Prod.mk.inj (Except.ok.inj h)
              exact .cons (isTransfer_lower hl) (ih hl')

/-- An operation that imitates the next transfer is taken for one. -/
theorem exists_foldNext_of_imitates {r : Request} {ws : List Written} (h : Imitates r ws) :
    ∃ op used cs, Request.foldNext (some (ws.flatMap Written.clauses)) r
        (ws.flatMap Written.requests) = some (op, used, some cs) ∧ op.action.isTransfer = true := by
  obtain ⟨c, hc, hshape⟩ := h
  obtain ⟨cs, hclauses⟩ := List.head?_eq_some_iff.mp hc
  have hmem : c ∈ ws.flatMap Written.clauses := by
    rw [hclauses]
    exact List.mem_cons_self
  obtain ⟨op, used, hfold⟩ := Request.foldTransfer_of_shape hshape
  obtain ⟨haction, -, -⟩ :=
    Request.shape_of_foldTransfer (Written.isTransfer_of_mem_clauses hmem) hfold
  refine ⟨op, used, cs, ?_, ?_⟩
  · rw [hclauses, Request.foldNext, hfold]
    rfl
  · rw [haction]
    exact Written.isTransfer_of_mem_clauses hmem

/-- Where an operation imitates a transfer, some operation is not what it was written as. -/
theorem lowerAll_ne_of_imitated {ws : List Written} (hload : ∀ r, .plain r ∈ ws → ¬ r.IsLoad)
    (h : Imitated ws) (next : Nat) :
    Request.lowerAll (some (ws.flatMap Written.clauses)) next (ws.flatMap Written.requests) ≠
      Written.lowerEach next ws := by
  induction ws generalizing next with
  | nil => exact absurd h not_false
  | cons w ws ih =>
      have hws : ∀ r, .plain r ∈ ws → ¬ r.IsLoad := fun r hr => hload r (List.mem_cons_of_mem _ hr)
      intro heq
      rw [Written.lowerEach_cons] at heq
      cases w with
      | transfer t =>
          rw [Written.clauses_transfer, Written.requests_transfer,
            Request.lowerAll_transfer] at heq
          exact ih hws h next (Request.eq_of_map_cons heq)
      | plain r =>
          obtain ⟨l, hl⟩ := Request.lower_ok (hload r List.mem_cons_self) next
          rw [Written.clauses_plain, Written.requests_plain, Written.lower, hl] at heq
          by_cases himitates : Imitates r ws
          · -- the first operation is a transfer on one side only
            obtain ⟨op, used, cs, hfold, htransfer⟩ := exists_foldNext_of_imitates himitates
            obtain ⟨ops, next', hops, -⟩ := Written.lowerEach_ok hws l.2
            rw [Request.lowerAll_found hfold] at heq
            simp only [Except.bind, hops, Except.map] at heq
            have hfirst := Request.not_isTransfer_lower hl
            split at heq
            · cases heq
            · obtain ⟨hcons, -⟩ := Prod.mk.inj (Except.ok.inj heq)
              rw [← (List.cons.inj hcons).1] at hfirst
              exact Bool.noConfusion (htransfer.symm.trans hfirst)
          · have hnone := Written.foldNext_plain himitates []
            rw [List.append_nil] at hnone
            rw [Request.lowerAll_alone hnone, hl] at heq
            exact ih hws (h.resolve_left himitates) l.2 (Request.eq_of_map_cons heq)

/-- Without imitation every operation becomes what it was written as, and so the transfers are
those that were written as transfers.  With imitation, and if no LOAD fails, it is not so. -/
theorem lowering_keeps_written (ws : List Written) (next : Nat) :
    (¬ Imitated ws →
      Request.lowerAll (some (ws.flatMap Written.clauses)) next (ws.flatMap Written.requests) =
          Written.lowerEach next ws ∧
        ∀ ops next', Written.lowerEach next ws = .ok (ops, next') →
          List.Forall₂ (fun w op => Operation.isTransfer op = w.isTransfer) ws ops) ∧
    ((∀ r, .plain r ∈ ws → ¬ r.IsLoad) → Imitated ws →
      Request.lowerAll (some (ws.flatMap Written.clauses)) next (ws.flatMap Written.requests) ≠
        Written.lowerEach next ws) := by
  refine ⟨fun h => ⟨?_, fun ops next' hops => Written.forall₂_lowerEach hops⟩, fun hload h => ?_⟩
  · have hall := lowerAll_written h next []
    rw [List.append_nil] at hall
    rw [hall]
    cases Written.lowerEach next ws with
    | error e => rfl
    | ok l => simp only [Except.bind, Request.lowerAll, Except.map, List.append_nil]
  · exact lowerAll_ne_of_imitated hload h next

/-- A written ADD behind an ADD that is written out. -/
theorem lowering_keeps_written_imitated :
    let a : GraphRef := .iri ⟨"a"⟩
    let b : GraphRef := .iri ⟨"b"⟩
    let c : GraphRef := .iri ⟨"c"⟩
    let drop : Request := .drop true (.named (.iri ⟨"b"⟩))
    let add : Transfer := ⟨.add, false, b, c, rfl, by decide⟩
    let copied := Request.copyAll a.pattern b.pattern
    Request.lowerAll (some [add.clause]) 0 (drop :: add.requests) =
        .ok ([{ action := .graph ⟨.drop, .named (.iri ⟨"b"⟩), none, true⟩ },
          { action := .graph add.operation }], 0) ∧
      Request.lowerAll (some [add.clause]) 0 (copied :: add.requests) ≠
        Written.lowerEach 0 [.plain copied, .transfer add] := by
  intro a b c drop add copied
  have hdrop : ¬ Imitated [.plain drop, .transfer add] := by
    rintro (⟨clause, hclause, hshape⟩ | h)
    · obtain rfl : add.clause = clause := Option.some.inj hclause
      have hshape : Request.Shape .add (.drop true (.named (.iri ⟨"b"⟩)) :: _) := hshape
      cases hshape
    · exact h
  have hcopied : Imitated [.plain copied, .transfer add] :=
    .inl ⟨add.clause, rfl, .add a b add.requests⟩
  have hload : ∀ r, Written.plain r ∈ [.plain copied, .transfer add] → ¬ r.IsLoad := by
    rintro r hr ⟨silent, source, destination, rfl⟩
    simp only [List.mem_cons, List.not_mem_nil, or_false, reduceCtorEq] at hr
    cases (Written.plain.inj hr : _ = Request.deleteInsert _ _ _ _)
  exact ⟨((lowering_keeps_written [.plain drop, .transfer add] 0).1 hdrop).1,
    (lowering_keeps_written [.plain copied, .transfer add] 0).2 hload hcopied⟩

/-- Not every written transfer stays one, and an update becomes one that nobody wrote. -/
theorem written_out_add_is_taken_for_next_add :
    ¬ ∀ (ws : List Written) (next : Nat) (ops : List Operation) (next' : Nat),
      Request.lowerAll (some (ws.flatMap Written.clauses)) next (ws.flatMap Written.requests) =
          .ok (ops, next') →
        List.Forall₂ (fun w op => Operation.isTransfer op = w.isTransfer) ws ops := by
  intro h
  let a : GraphRef := .iri ⟨"a"⟩
  let b : GraphRef := .iri ⟨"b"⟩
  let add : Transfer := ⟨.add, false, .iri ⟨"c"⟩, .iri ⟨"d"⟩, rfl, by decide⟩
  have hlower : Request.lowerAll (some [add.clause]) 0
      (Request.copyAll a.pattern b.pattern :: add.requests) =
        .ok ([{ action := .graph (.transfer .add a.name b.name false) },
          { action := .modify ⟨[], [⟨.var ⟨"s"⟩, .var ⟨"p"⟩, .var ⟨"o"⟩, .iri ⟨"d"⟩⟩],
            Request.allOf (.iri ⟨"c"⟩), none, none⟩ }], 0) := by
    have hfirst := Request.lowerAll_transfer ⟨.add, false, a, b, rfl, by decide⟩ [] 0 add.requests
    have hsecond : Request.lowerAll (some []) 0 add.requests = _ := Request.lowerAll_alone rfl
    rw [hsecond] at hfirst
    simp only [Request.lowerAll] at hfirst
    exact hfirst
  have hall := h [.plain (Request.copyAll a.pattern b.pattern), .transfer add] 0 _ 0 hlower
  cases hall with
  | cons hfirst htail => cases hfirst

end GraphStore
