/-
# `GraphStore.Proofs.Alignment` — where the clauses of a text fit its requests

Lowering walks along two lists at once, the requests of the grammar and the clauses of
the text, and never looks back.  For an update that only has transfers the one list is
made of the statements whose graphs differ, and the other of the statements whose graphs
are spelled differently:

    PREFIX ex: <http://e.com/>
    COPY SILENT <http://e.com/a> TO ex:a ;               –             COPY SILENT
    COPY <http://e.com/a> TO <http://e.com/b>            DROP, copy    COPY

The clause of the first statement is still there when the requests of the second are
met, and its SILENT with it.  `lowerAll_transfers_iff` says which lists of clauses fit a
list of transfers: those that begin with their own clauses.  Together with what the scan
sees of a text this is `lowering_of_spelled_transfers`.
-/
import GraphStore.Proofs.Spelling

namespace GraphStore

open Clause

/-! ## Lists of transfers -/

section Transfers

variable {ts : List Transfer} {cs : List TransferClause}

/-- If a transfer is found, the next clause is its own. -/
theorem clause_of_foldNext {t : Transfer} {r : Request} {rest : List Request} {used : Nat}
    {clauses : Option (List TransferClause)} (hcs : ∀ c ∈ cs, c.action.isTransfer = true)
    (h : Request.foldNext (some cs) r rest = some (t.operation, used, clauses)) :
    ∃ cs', cs = t.clause :: cs' := by
  cases cs with
  | nil => cases h
  | cons c cs =>
      obtain ⟨⟨op, used'⟩, hfold, heq⟩ := Option.map_eq_some_iff.mp h
      obtain rfl : op = t.operation := (Prod.mk.inj heq).1
      obtain ⟨haction, hsilent, -⟩ :=
        Request.shape_of_foldTransfer (hcs c List.mem_cons_self) hfold
      obtain ⟨action, silent⟩ := c
      obtain rfl : t.action = action := haction
      obtain rfl : t.silent = silent := hsilent
      exact ⟨cs, rfl⟩

/-- Transfers are lowered to themselves exactly if the clauses begin with theirs. -/
theorem lowerAll_transfers_iff (hcs : ∀ c ∈ cs, c.action.isTransfer = true) (next : Nat) :
    Request.lowerAll (some cs) next (ts.flatMap Transfer.requests) =
        .ok (ts.map fun t => { action := .graph t.operation }, next) ↔
      ts.map Transfer.clause <+: cs := by
  induction ts generalizing cs with
  | nil =>
      rw [List.flatMap_nil, Request.lowerAll]
      exact iff_of_true rfl List.nil_prefix
  | cons t ts ih =>
      constructor
      · intro h
        obtain ⟨cs', rfl⟩ : ∃ cs', cs = t.clause :: cs' := by
          obtain ⟨r, rest, hr⟩ := List.exists_cons_of_ne_nil (Written.transfer t).requests_ne_nil
          have hr : t.requests = r :: rest := hr
          rw [List.flatMap_cons, hr, List.cons_append] at h
          rcases Request.first_of_lowerAll h with ⟨g, used, clauses, hfold, hop⟩ | hop
          · obtain rfl : t.operation = g := Action.graph.inj (congrArg Operation.action hop)
            exact clause_of_foldNext hcs hfold
          · exact absurd (hop.symm.trans t.isTransfer) (by decide)
        rw [List.flatMap_cons, Request.lowerAll_transfer] at h
        have htail := ih fun c hc => hcs c (List.mem_cons_of_mem _ hc)
        rw [List.map_cons]
        exact (List.prefix_cons_inj t.clause).mpr (htail.mp (Request.eq_of_map_cons h))
      · rintro ⟨cs', rfl⟩
        rw [List.map_cons, List.cons_append] at hcs ⊢
        have htail := (ih fun c hc => hcs c (List.mem_cons_of_mem _ hc)).mpr ⟨cs', rfl⟩
        rw [List.flatMap_cons, Request.lowerAll_transfer, htail]
        rfl

end Transfers

/-! ## Statements -/

namespace Statement

variable {ds : List Declaration} {st : Statement ds}

/-- The transfers that statements are, in order. -/
def transfers (sts : List (Statement ds)) : List Transfer := sts.filterMap transfer?

theorem flatMap_requests (sts : List (Statement ds)) :
    sts.flatMap requests = (transfers sts).flatMap Transfer.requests := by
  rw [transfers, List.filterMap_eq_flatMap_toList, List.flatMap_assoc]
  rfl

theorem isTransfer_of_mem_filterMap {sts : List (Statement ds)} :
    ∀ c ∈ sts.filterMap clause?, c.action.isTransfer = true := by
  intro c hc
  obtain ⟨st, -, h⟩ := List.mem_filterMap.mp hc
  unfold clause? at h
  split at h
  · cases h
  · rw [← Option.some.inj h]
    exact st.isTransfer

/-- Where spelling decides rightly, the clause that is seen is the clause of the transfer. -/
theorem clause?_eq (h : st.source.graph = st.destination.graph → st.SpelledAlike) :
    st.clause? = st.transfer?.map Transfer.clause := by
  unfold clause? transfer?
  by_cases hspelled : st.SpelledAlike
  · rw [if_pos hspelled, dif_pos (graph_eq_of_token_eq hspelled)]
    rfl
  · rw [if_neg hspelled, dif_neg fun hgraph => hspelled (h hgraph)]
    rfl

end Statement

/-! ## Texts -/

/-- The requests of an update that only has transfers, lowered with its text, give one operation
for each statement with different graphs exactly if the clauses of these statements are the first
that are seen.  So it is if equal graphs are spelled alike. -/
theorem lowering_of_spelled_transfers {ds : List Declaration} {sts : List (Statement ds)}
    {closed : Bool} {text : String} (hds : ∀ d ∈ ds, d.IsWord) (hsts : ∀ st ∈ sts, st.IsWord)
    (hlayout : Layout (updateLexemes ds sts closed) text.toList) (next : Nat) :
    (Request.lowerText next (sts.flatMap Statement.requests) text =
        .ok ((Statement.transfers sts).map fun t => { action := .graph t.operation }, next) ↔
      (Statement.transfers sts).map Transfer.clause <+: sts.filterMap Statement.clause?) ∧
    ((∀ st ∈ sts, st.source.graph = st.destination.graph → st.SpelledAlike) →
      Request.lowerText next (sts.flatMap Statement.requests) text =
        .ok ((Statement.transfers sts).map fun t => { action := .graph t.operation }, next)) := by
  have hfit : Request.lowerAll (some (sts.filterMap Statement.clause?)) next
        ((Statement.transfers sts).flatMap Transfer.requests) =
      .ok ((Statement.transfers sts).map fun t => { action := .graph t.operation }, next) ↔
        (Statement.transfers sts).map Transfer.clause <+: sts.filterMap Statement.clause? :=
    lowerAll_transfers_iff Statement.isTransfer_of_mem_filterMap next
  rw [Request.lowerText, transferClauses_layout hds hsts hlayout, Statement.flatMap_requests]
  refine ⟨hfit, fun hspelled => hfit.mpr ?_⟩
  have hsame : sts.filterMap Statement.clause? = (Statement.transfers sts).map Transfer.clause := by
    rw [Statement.transfers, List.map_filterMap]
    exact List.filterMap_congr fun st hst => Statement.clause?_eq (hspelled st hst)
  exact hsame ▸ List.prefix_rfl

/-- Both spellings of a graph, and a statement that does nothing. -/
theorem lowering_of_spelled_transfers_prefixed :
    let ex : Declaration := ⟨"ex", ⟨"http://e.com/"⟩, by decide, by decide⟩
    let a : SpelledGraph [ex] :=
      ⟨.reference false "http://e.com/a", .iri ⟨"http://e.com/a"⟩, by decide⟩
    let b : SpelledGraph [ex] := ⟨.prefixed false "ex" "b", .iri ⟨"http://e.com/b"⟩, by decide⟩
    let b' : SpelledGraph [ex] := ⟨.prefixed true "ex" "b", .iri ⟨"http://e.com/b"⟩, by decide⟩
    let sts : List (Statement [ex]) := [⟨.add, true, a, b, rfl⟩, ⟨.move, true, b, b', rfl⟩,
      ⟨.copy, false, b', ⟨.default, .default, rfl⟩, rfl⟩]
    Request.lowerText 0 (sts.flatMap Statement.requests)
        (" PREFIX ex: <http://e.com/> add SILENT <http://e.com/a> TO ex:b ;" ++
          " move SILENT ex:b TO GRAPH ex:b ; copy GRAPH ex:b TO DEFAULT") =
      .ok ([{ action := .graph (.transfer .add a.graph.name b.graph.name true) },
        { action := .graph (.transfer .copy b.graph.name .default false) }], 0) := by
  intro ex a b b' sts
  have htext : render (updateLexemes [ex] sts false) =
      (" PREFIX ex: <http://e.com/> add SILENT <http://e.com/a> TO ex:b ;" ++
        " move SILENT ex:b TO GRAPH ex:b ; copy GRAPH ex:b TO DEFAULT").toList := by
    decide +kernel +revert
  have hlayout := layout_render (updateLexemes [ex] sts false)
  rw [htext] at hlayout
  have hds : ∀ d ∈ [ex], d.IsWord :=
    List.forall_mem_singleton.mpr (show "ex".toList.all isWordChar = true by decide)
  have hb : ("ex".toList ++ "b".toList).all isWordChar = true := by decide
  have hsts : ∀ st ∈ sts, st.IsWord :=
    List.forall_mem_cons.mpr ⟨⟨trivial, hb⟩, List.forall_mem_cons.mpr ⟨⟨hb, hb⟩,
      List.forall_mem_singleton.mpr ⟨hb, trivial⟩⟩⟩
  have hspelled : ∀ st ∈ sts, st.source.graph = st.destination.graph → st.SpelledAlike :=
    List.forall_mem_cons.mpr ⟨fun h => absurd h (show a.graph ≠ b.graph by decide),
      List.forall_mem_cons.mpr ⟨fun _ => rfl,
        List.forall_mem_singleton.mpr fun h => absurd h (show b'.graph ≠ .default by decide)⟩⟩
  exact (lowering_of_spelled_transfers hds hsts hlayout 0).2 hspelled

/-- Two spellings of one graph: the SILENT of a statement that does nothing goes to the next. -/
theorem silent_goes_to_next_copy :
    ¬ ∀ (ds : List Declaration) (sts : List (Statement ds)) (closed : Bool) (text : String)
      (next : Nat), Layout (updateLexemes ds sts closed) text.toList →
        Request.lowerText next (sts.flatMap Statement.requests) text =
          .ok ((Statement.transfers sts).map fun t => { action := .graph t.operation }, next) := by
  intro h
  let ex : Declaration := ⟨"ex", ⟨"http://e.com/"⟩, by decide, by decide⟩
  let a : SpelledGraph [ex] :=
    ⟨.reference false "http://e.com/a", .iri ⟨"http://e.com/a"⟩, by decide⟩
  let a' : SpelledGraph [ex] := ⟨.prefixed false "ex" "a", .iri ⟨"http://e.com/a"⟩, by decide⟩
  let b : SpelledGraph [ex] :=
    ⟨.reference false "http://e.com/b", .iri ⟨"http://e.com/b"⟩, by decide⟩
  let sts : List (Statement [ex]) := [⟨.copy, true, a, a', rfl⟩, ⟨.copy, false, a, b, rfl⟩]
  have htext : render (updateLexemes [ex] sts false) =
      (" PREFIX ex: <http://e.com/> copy SILENT <http://e.com/a> TO ex:a ;" ++
        " copy <http://e.com/a> TO <http://e.com/b>").toList := by
    decide +kernel +revert
  have hds : ∀ d ∈ [ex], d.IsWord :=
    List.forall_mem_singleton.mpr (show "ex".toList.all isWordChar = true by decide)
  have hsts : ∀ st ∈ sts, st.IsWord :=
    List.forall_mem_cons.mpr ⟨⟨trivial, show ("ex".toList ++ "a".toList).all isWordChar = true by
        decide⟩,
      List.forall_mem_singleton.mpr ⟨trivial, trivial⟩⟩
  have hlayout := layout_render (updateLexemes [ex] sts false)
  rw [htext] at hlayout
  have hlower := h [ex] sts false _ 0 hlayout
  rw [Request.lowerText, transferClauses_layout hds hsts hlayout,
    Statement.flatMap_requests] at hlower
  have hprefix : [(⟨.copy, false⟩ : TransferClause)] <+: [⟨.copy, true⟩, ⟨.copy, false⟩] :=
    (lowerAll_transfers_iff Statement.isTransfer_of_mem_filterMap 0).mp hlower
  exact absurd hprefix (by decide)

end GraphStore
