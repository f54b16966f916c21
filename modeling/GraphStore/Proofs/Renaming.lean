/-
# `GraphStore.Proofs.Renaming` — the blank nodes of INSERT DATA are new ones

A blank node that is written in INSERT DATA is a label.  Lowering gives each label of an operation
a new node, the same one wherever the label stands, and starts afresh with the next operation:

    INSERT DATA { _:a p _:b }  ;  …  ;  INSERT DATA { _:a p o }
                  n     n+1                           n+2

Repetitions are dropped behind the renaming, among quads that the text does not show.  This comes
to the same as dropping them before it, as a renaming that keeps the labels of the quads apart
keeps the quads apart (`eraseDups_rename`).

What is folded into a transfer is DROP and copying updates (`parts_of_foldNext`), so every INSERT
DATA is lowered, and in order: `lowerAll_inserted` is the induction on a run, which also says where
the numbers of each operation begin.
-/
import Mathlib.Data.Finset.Card
import Mathlib.Data.Set.Function
import GraphStore.Proofs.Repetitions
import GraphStore.Proofs.Rewriting

namespace GraphStore

/-! ## New nodes -/

theorem freshNode_injOn (start : Nat) (blanks : List BlankNode) :
    Set.InjOn (freshNode start blanks) {n | n ∈ blanks} := by
  intro n hn n' hn' h
  exact (List.idxOf_inj hn).mp (Nat.add_left_cancel (BlankNode.fresh.inj h))

theorem exists_freshNode (start : Nat) {blanks : List BlankNode} {n : BlankNode} (hn : n ∈ blanks) :
    ∃ k, start ≤ k ∧ k < start + blanks.length ∧ freshNode start blanks n = .fresh k :=
  ⟨_, Nat.le_add_right _ _, Nat.add_lt_add_left (List.idxOf_lt_length_of_mem hn) _, rfl⟩

/-- Where row `i` begins, if rows of labels are numbered one behind the other from `next` on. -/
def rowStart (next : Nat) (rows : List (List BlankNode)) (i : Nat) : Nat :=
  (rows.take i).foldl (fun k row => k + row.length) next

section

variable {next i j k k' : Nat} {rows : List (List BlankNode)} {row row' : List BlankNode}

theorem rowStart_succ (h : rows[i]? = some row) :
    rowStart next rows (i + 1) = rowStart next rows i + row.length := by
  simp [rowStart, List.take_add_one, h]

theorem rowStart_mono (h : i ≤ j) : rowStart next rows i ≤ rowStart next rows j := by
  refine monotone_nat_of_le_succ (fun i => ?_) h
  cases hi : rows[i]? with
  | some row =>
      rw [rowStart_succ hi]
      exact Nat.le_add_right _ _
  | none => simp [rowStart, List.take_add_one, hi]

theorem rowStart_lt (next : Nat) (hi : rows[i]? = some row) (hk : k < row.length) (hij : i < j) :
    rowStart next rows i + k < rowStart next rows j := by
  have hnext : rowStart next rows (i + 1) ≤ rowStart next rows j := rowStart_mono hij
  rw [rowStart_succ hi] at hnext
  omega

/-- No two places of the rows have the same number. -/
theorem rowStart_inj (hi : rows[i]? = some row) (hj : rows[j]? = some row') (hk : k < row.length)
    (hk' : k' < row'.length) (h : rowStart next rows i + k = rowStart next rows j + k') :
    i = j ∧ k = k' := by
  rcases Nat.lt_trichotomy i j with hlt | rfl | hgt
  · have hless := rowStart_lt next hi hk hlt
    omega
  · exact ⟨rfl, Nat.add_left_cancel h⟩
  · have hless := rowStart_lt next hj hk' hgt
    omega

end

/-! ## Renamed quads -/

/-- The blank nodes of a quad. -/
def Quad.blanks (q : Quad) : List BlankNode := q.subject.blanks ++ q.object.blanks

theorem mem_quadBlanks {quads : List Quad} {n : BlankNode} :
    n ∈ quadBlanks quads ↔ ∃ q ∈ quads, n ∈ q.blanks := by
  rw [quadBlanks, List.mem_eraseDups, List.mem_flatMap]
  rfl

section

variable {f : BlankNode → BlankNode}

theorem Resource.eq_of_rename {r r' : Resource}
    (hf : ∀ n ∈ r.blanks, ∀ n' ∈ r'.blanks, f n = f n' → n = n')
    (h : r.rename f = r'.rename f) : r = r' := by
  cases r with
  | iri i =>
      cases r' with
      | iri i' => exact h
      | blank n' => cases h
  | blank n =>
      cases r' with
      | iri i' => cases h
      | blank n' =>
          rw [hf n (List.mem_singleton_self n) n' (List.mem_singleton_self n')
            (Resource.blank.inj h)]

theorem Term.eq_of_rename {t t' : Term}
    (hf : ∀ n ∈ t.blanks, ∀ n' ∈ t'.blanks, f n = f n' → n = n')
    (h : t.rename f = t'.rename f) : t = t' := by
  cases t with
  | iri _ | literal _ =>
      cases t' with
      | iri _ | literal _ => exact h
      | blank n' => cases h
  | blank n =>
      cases t' with
      | iri _ | literal _ => cases h
      | blank n' =>
          rw [hf n (List.mem_singleton_self n) n' (List.mem_singleton_self n') (Term.blank.inj h)]

/-- Quads whose blank nodes are kept apart are kept apart. -/
theorem Quad.eq_of_rename {q q' : Quad}
    (hf : ∀ n ∈ q.blanks, ∀ n' ∈ q'.blanks, f n = f n' → n = n')
    (h : q.rename f = q'.rename f) : q = q' := by
  have hsubject : q.subject = q'.subject := Resource.eq_of_rename
    (fun n hn n' hn' => hf n (List.mem_append_left _ hn) n' (List.mem_append_left _ hn'))
    (congrArg Quad.subject h)
  have hobject : q.object = q'.object := Term.eq_of_rename
    (fun n hn n' hn' => hf n (List.mem_append_right _ hn) n' (List.mem_append_right _ hn'))
    (congrArg Quad.object h)
  have hpredicate : q.predicate = q'.predicate := (Quad.mk.inj h).2.1
  have hgraph : q.graph = q'.graph := (Quad.mk.inj h).2.2.2
  cases q
  cases q'
  simp_all

theorem eraseDups_rename {quads : List Quad} (hf : Set.InjOn f {n | n ∈ quadBlanks quads}) :
    (quads.map (Quad.rename f)).eraseDups = quads.eraseDups.map (Quad.rename f) := by
  simp only [← List.filterMap_eq_map]
  refine eraseDups_filterMap quads fun q hq q' hq' r hr hr' => ?_
  refine Quad.eq_of_rename (fun n hn n' hn' heq => ?_) (Option.some.inj (hr.trans hr'.symm))
  exact hf (mem_quadBlanks.mpr ⟨q, hq, hn⟩) (mem_quadBlanks.mpr ⟨q', hq', hn'⟩) heq

end

/-- Gathered data are the given quads without their repetitions. -/
theorem GroundData.quads_ofQuads (quads : List Quad) : (ofQuads quads).quads = quads.eraseDups := by
  have hgather : ∀ d : GroundData, (quads.foldl (fun d q => (d.accept q).2) d).quads =
      Content.addMissing d.quads quads := by
    induction quads with
    | nil => exact fun d => rfl
    | cons q quads ih =>
        intro d
        show _ = Content.addMissing
          (if d.quads.contains q then d.quads else d.quads ++ [q]) quads
        rw [List.foldl_cons, ih, GroundData.accept]
        simp only [List.contains_iff_mem]
        split <;> rfl
  rw [ofQuads, hgather, Content.addMissing_eq_append]
  simp [GroundData.empty]

/-! ## What folding takes -/

/-- The quads of INSERT DATA. -/
def Operation.inserted? (op : Operation) : Option (List Quad) :=
  match op.action with
  | .insertData quads => some quads
  | _ => none

namespace Request

variable {r : Request} {rest : List Request} {op : GraphOperation} {used next : Nat}

/-- Rewritten transfers consist of drops and of updates that copy a whole graph. -/
def IsTransferPart (r : Request) : Prop :=
  (∃ silent target, r = .drop silent target) ∨ r.IsCopyAll

/-- Behind the drop of the destination comes the copying update, and perhaps the drop of the
source. -/
theorem parts_of_foldDropped {clause : Option TransferClause} {cleared : GraphName}
    (h : foldDropped clause cleared rest = some (op, used)) :
    ∀ r ∈ rest.take used, r.IsTransferPart := by
  cases rest with
  | nil => cases h
  | cons r rest =>
      rw [foldDropped] at h
      obtain ⟨graphs, hgraphs, h⟩ := Option.bind_eq_some_iff.mp h
      obtain ⟨source, destination, hr, rfl⟩ := exists_of_copied? hgraphs
      -- a second request is taken only if it drops the source
      have hused : used = 1 ∨
          used = 2 ∧ ∃ silent, rest.head?.bind (drops? source.name) = some silent := by
        by_cases hcleared : cleared = destination.name
        · simp only [ne_eq, hcleared, not_true_eq_false, if_false, Option.bind_eq_bind] at h
          cases hdropped : rest.head?.bind (drops? source.name) with
          | none =>
              rw [hdropped] at h
              refine .inl ?_
              rcases clause with _ | ⟨_ | _ | _ | _ | _, silent⟩ <;> cases h <;> rfl
          | some silent =>
              rw [hdropped] at h
              rcases clause with _ | ⟨_ | _ | _ | _ | _, silent'⟩ <;> cases h <;>
                first | exact .inl rfl | exact .inr ⟨rfl, silent, rfl⟩
        · simp only [ne_eq, hcleared, not_false_eq_true, if_true, Option.bind_eq_bind,
            Option.bind_none] at h
          cases h
      have hcopy : r.IsTransferPart := .inr ⟨source, destination, hr⟩
      rcases hused with rfl | ⟨rfl, silent, hdropped⟩
      · exact List.forall_mem_singleton.mpr hcopy
      · obtain ⟨first, hfirst, hdrops⟩ := Option.bind_eq_some_iff.mp hdropped
        obtain ⟨rest', rfl⟩ := List.head?_eq_some_iff.mp hfirst
        have hdrop : first.IsTransferPart := .inl ⟨silent, _, drops?_eq_some.mp hdrops⟩
        exact List.forall_mem_cons.mpr ⟨hcopy, List.forall_mem_singleton.mpr hdrop⟩

/-- Nothing but parts of transfers is folded. -/
theorem parts_of_foldTransfer {clause : Option TransferClause}
    (h : foldTransfer clause r rest = some (op, used)) :
    ∀ r' ∈ r :: rest.take used, r'.IsTransferPart := by
  rw [List.forall_mem_cons]
  unfold foldTransfer at h
  split at h
  · obtain ⟨graphs, hgraphs, h⟩ := Option.bind_eq_some_iff.mp h
    obtain ⟨source, destination, hr, -⟩ := exists_of_copied? hgraphs
    obtain ⟨-, rfl⟩ := Prod.mk.inj (Option.some.inj h)
    exact ⟨.inr ⟨source, destination, hr⟩, fun r' hr' => absurd hr' List.not_mem_nil⟩
  · split at h
    · obtain ⟨cleared, -, h⟩ := Option.bind_eq_some_iff.mp h
      exact ⟨.inl ⟨true, _, rfl⟩, parts_of_foldDropped h⟩
    · cases h

theorem parts_of_foldNext {clauses clauses' : Option (List TransferClause)}
    (h : foldNext clauses r rest = some (op, used, clauses')) :
    ∀ r' ∈ r :: rest.take used, r'.IsTransferPart := by
  unfold foldNext at h
  split at h
  · obtain ⟨found, hfound, h⟩ := Option.map_eq_some_iff.mp h
    cases h
    exact parts_of_foldTransfer hfound
  · cases h
  · obtain ⟨found, hfound, h⟩ := Option.map_eq_some_iff.mp h
    cases h
    exact parts_of_foldTransfer hfound

/-- The quads of INSERT DATA. -/
def inserted? : Request → Option (List Quad)
  | .insertData quads => some quads
  | _ => none

theorem inserted?_of_part (h : r.IsTransferPart) : r.inserted? = none := by
  rcases h with ⟨silent, target, rfl⟩ | ⟨source, destination, rfl⟩ <;> rfl

theorem not_isLoad_of_part (h : r.IsTransferPart) : ¬ r.IsLoad := by
  rintro ⟨silent, iri, g, rfl⟩
  rcases h with ⟨_, _, h⟩ | ⟨_, _, h⟩ <;> cases h

/-! ## The blank nodes of a run -/

/-- Where the numbers of the `i`th list of quads begin, if the lists are numbered from `next` on. -/
def numbersOf (next : Nat) (data : List (List Quad)) (i : Nat) : Nat :=
  rowStart next (data.map quadBlanks) i

theorem numbersOf_cons (quads : List Quad) (data : List (List Quad)) (i : Nat) :
    numbersOf next (quads :: data) (i + 1) =
      numbersOf (next + (quadBlanks quads).length) data i := rfl

/-- What one request alone is lowered to inserts the renamed quads of the request. -/
theorem lower_inserted {l : Operation × Nat} (h : r.lower next = .ok l) :
    l.1.inserted? = r.inserted?.map (fun quads =>
      (GroundData.ofQuads (quads.map (Quad.rename (freshNode next (quadBlanks quads))))).quads) ∧
    l.2 = next + (r.inserted?.elim 0 fun quads => (quadBlanks quads).length) := by
  cases r with
  | load => cases h
  | insertData | deleteData | deleteInsert | clear | create | drop =>
      rw [← Except.ok.inj h]
      exact ⟨rfl, rfl⟩

/-- The requests behind a folded transfer are those behind its parts. -/
theorem exists_parts {clauses clauses' : Option (List TransferClause)}
    (h : foldNext clauses r rest = some (op, used, clauses')) :
    ∃ parts, r :: rest = parts ++ rest.drop used ∧ ∀ r' ∈ parts, r'.IsTransferPart :=
  ⟨r :: rest.take used, by rw [List.cons_append, List.take_append_drop], parts_of_foldNext h⟩

/-- LOAD stops a run, wherever it stands. -/
theorem lowerAll_load {rs : List Request} (hload : ∃ r ∈ rs, r.IsLoad)
    (clauses : Option (List TransferClause)) (next : Nat) :
    ∃ e, lowerAll clauses next rs = .error e := by
  induction clauses, next, rs using lowerAll.induct with
  | case1 clauses next =>
      obtain ⟨r, hr, -⟩ := hload
      exact absurd hr List.not_mem_nil
  | case2 clauses next r rest op used clauses' hfold ih =>
      obtain ⟨parts, hparts, hpart⟩ := exists_parts hfold
      obtain ⟨r', hr', hload⟩ := hload
      rw [hparts, List.mem_append] at hr'
      have hbehind : r' ∈ rest.drop used :=
        hr'.resolve_left fun h => not_isLoad_of_part (hpart r' h) hload
      obtain ⟨e, he⟩ := ih ⟨r', hbehind, hload⟩
      exact ⟨e, by rw [lowerAll_found hfold, he]; rfl⟩
  | case3 clauses next r rest hfold ih =>
      rw [lowerAll_alone hfold]
      cases hl : r.lower next with
      | error e => exact ⟨e, rfl⟩
      | ok l =>
          obtain ⟨r', hr', hload⟩ := hload
          rcases List.mem_cons.mp hr' with rfl | hr'
          · obtain ⟨silent, source, destination, rfl⟩ := hload
            cases hl
          · obtain ⟨e, he⟩ := ih l.2 ⟨r', hr', hload⟩
            exact ⟨e, by rw [Except.bind, he]; rfl⟩

/-- Without LOAD a run lowers every INSERT DATA, and in order. -/
theorem lowerAll_inserted {rs : List Request} (hload : ∀ r ∈ rs, ¬ r.IsLoad)
    (clauses : Option (List TransferClause)) (next : Nat) :
    let data := rs.filterMap inserted?
    ∃ ops, lowerAll clauses next rs = .ok (ops, numbersOf next data data.length) ∧
      ops.filterMap Operation.inserted? = data.mapIdx fun i quads => (GroundData.ofQuads (quads.map
        (Quad.rename (freshNode (numbersOf next data i) (quadBlanks quads))))).quads := by
  induction clauses, next, rs using lowerAll.induct with
  | case1 clauses next => exact ⟨[], by rw [lowerAll]; rfl, rfl⟩
  | case2 clauses next r rest op used clauses' hfold ih =>
      obtain ⟨parts, hparts, hpart⟩ := exists_parts hfold
      have hskip : (r :: rest).filterMap inserted? = (rest.drop used).filterMap inserted? := by
        rw [hparts, List.filterMap_append,
          List.filterMap_eq_nil_iff.mpr fun r' hr' => inserted?_of_part (hpart r' hr'),
          List.nil_append]
      obtain ⟨ops, hops, hinserted⟩ := ih fun r' hr' =>
        hload r' (hparts ▸ List.mem_append_right _ hr')
      rw [hskip]
      refine ⟨{ action := .graph op } :: ops, ?_, hinserted⟩
      rw [lowerAll_found hfold, hops]
      rfl
  | case3 clauses next r rest hfold ih =>
      obtain ⟨l, hl⟩ := lower_ok (hload r List.mem_cons_self) next
      obtain ⟨hinserted, hnext⟩ := lower_inserted hl
      obtain ⟨ops, hops, hrest⟩ := ih l.2 fun r' hr' => hload r' (List.mem_cons_of_mem _ hr')
      have hrun : lowerAll clauses next (r :: rest) =
          .ok (l.1 :: ops, numbersOf l.2 (rest.filterMap inserted?)
            (rest.filterMap inserted?).length) := by
        rw [lowerAll_alone hfold, hl, Except.bind, hops]
        rfl
      refine ⟨l.1 :: ops, ?_⟩
      cases hr : r.inserted? with
      | none =>
          rw [hr] at hinserted hnext
          rw [hrun, hnext, List.filterMap_cons_none hr, List.filterMap_cons_none hinserted, hrest]
          exact ⟨rfl, by rw [hnext]; rfl⟩
      | some quads =>
          rw [hr] at hinserted hnext
          rw [hrun, hnext, List.filterMap_cons_some hr, List.filterMap_cons_some hinserted, hrest,
            List.mapIdx_cons, List.length_cons]
          simp only [numbersOf_cons]
          exact ⟨rfl, by rw [hnext]; rfl⟩

end Request

/-- The labels of each list of quads are renamed to nodes of its own, to new ones from `next` up to
`next'` that are not in `taken`. -/
structure RenamesApart (taken : Set BlankNode) (next next' : Nat) (data : List (List Quad))
    (ρ : Nat → BlankNode → BlankNode) : Prop where
  injective (i : Nat) {quads} : data[i]? = some quads → Set.InjOn (ρ i) {n | n ∈ quadBlanks quads}
  numbered (i : Nat) {quads} : data[i]? = some quads → ∀ n ∈ quadBlanks quads,
    ∃ k, next ≤ k ∧ k < next' ∧ ρ i n = .fresh k
  fresh (i : Nat) {quads} : data[i]? = some quads → ∀ n ∈ quadBlanks quads, ρ i n ∉ taken
  disjoint (i j : Nat) {quads quads'} : data[i]? = some quads → data[j]? = some quads' → i ≠ j →
    ∀ n ∈ quadBlanks quads, ∀ n' ∈ quadBlanks quads', ρ i n ≠ ρ j n'

/-- The labels of the `i`th list of quads, each with its number in the run. -/
def naming (next : Nat) (data : List (List Quad)) (i : Nat) : BlankNode → BlankNode :=
  freshNode (Request.numbersOf next data i) (quadBlanks (data.getD i []))

theorem naming_eq {next : Nat} {data : List (List Quad)} {i : Nat} {quads : List Quad}
    (h : data[i]? = some quads) :
    naming next data i = freshNode (Request.numbersOf next data i) (quadBlanks quads) := by
  rw [naming, List.getD_eq_getElem?_getD, h, Option.getD_some]

theorem renamesApart_naming {taken : Set BlankNode} {next : Nat}
    (htaken : ∀ k, next ≤ k → .fresh k ∉ taken) (data : List (List Quad)) :
    RenamesApart taken next (Request.numbersOf next data data.length) data
      (naming next data) := by
  have hrow : ∀ {i quads}, data[i]? = some quads →
      (data.map quadBlanks)[i]? = some (quadBlanks quads) := fun hi => by
    rw [List.getElem?_map, hi, Option.map_some]
  have hnumbered : ∀ {i quads}, data[i]? = some quads → ∀ n ∈ quadBlanks quads,
      ∃ k, next ≤ k ∧ k < Request.numbersOf next data data.length ∧
        naming next data i n = .fresh k := by
    intro i quads hi n hn
    have hlength : i < data.length := (List.getElem?_eq_some_iff.mp hi).1
    have hnext : next ≤ Request.numbersOf next data i := rowStart_mono (Nat.zero_le i)
    have hbefore := rowStart_lt next (hrow hi) (List.idxOf_lt_length_of_mem hn) hlength
    exact ⟨_, hnext.trans (Nat.le_add_right _ _), hbefore, by rw [naming_eq hi]; rfl⟩
  constructor
  · intro i quads hi
    rw [naming_eq hi]
    exact freshNode_injOn _ _
  · exact fun i => hnumbered
  · intro i quads hi n hn
    obtain ⟨k, hle, -, hk⟩ := hnumbered hi n hn
    rw [hk]
    exact htaken k hle
  · intro i j quads quads' hi hj hij n hn n' hn' heq
    rw [naming_eq hi, naming_eq hj] at heq
    exact hij (rowStart_inj (hrow hi) (hrow hj) (List.idxOf_lt_length_of_mem hn)
      (List.idxOf_lt_length_of_mem hn') (BlankNode.fresh.inj heq)).1

theorem length_eraseDups (quads : List Quad) : quads.eraseDups.length = quads.toFinset.card := by
  rw [← List.toFinset_card_of_nodup (nodup_eraseDups quads)]
  congr 1
  ext q
  simp

/-- Lowering renames the blank nodes of INSERT DATA, and nothing else.  It fails exactly if there
is a LOAD; otherwise the `i`th INSERT DATA becomes one that inserts the same quads, each once and
at its first position, with their labels renamed by `ρ i`.  The renamings keep the labels of an
operation apart, and lead to new nodes that no other operation has and that are not in `taken`,
which may be anything that the supply of new nodes keeps clear of. -/
theorem lowering_renames_blanks {taken : Set BlankNode} {next : Nat}
    (htaken : ∀ k, next ≤ k → .fresh k ∉ taken) (clauses : Option (List TransferClause))
    (rs : List Request) :
    let data := rs.filterMap Request.inserted?
    ((∃ l, Request.lowerAll clauses next rs = .ok l) ↔ ∀ r ∈ rs, ¬ r.IsLoad) ∧
      ∀ ops next', Request.lowerAll clauses next rs = .ok (ops, next') →
        ∃ ρ : Nat → BlankNode → BlankNode, RenamesApart taken next next' data ρ ∧
          ops.filterMap Operation.inserted? =
            data.mapIdx (fun i quads => quads.eraseDups.map (Quad.rename (ρ i))) ∧
          ∀ (i : Nat) (quads lowered : List Quad), data[i]? = some quads →
            (ops.filterMap Operation.inserted?)[i]? = some lowered →
              lowered.Nodup ∧ lowered.length = quads.toFinset.card := by
  intro data
  have honly : ∀ l, Request.lowerAll clauses next rs = .ok l → ∀ r ∈ rs, ¬ r.IsLoad := by
    intro l hl r hr hload
    obtain ⟨e, he⟩ := Request.lowerAll_load ⟨r, hr, hload⟩ clauses next
    rw [he] at hl
    cases hl
  refine ⟨⟨fun ⟨l, hl⟩ => honly l hl, fun hload => ?_⟩, fun ops next' hlower => ?_⟩
  · obtain ⟨ops, hops, -⟩ := Request.lowerAll_inserted hload clauses next
    exact ⟨_, hops⟩
  · obtain ⟨ops', hops, hinserted⟩ := Request.lowerAll_inserted (honly _ hlower) clauses next
    obtain ⟨rfl, rfl⟩ := Prod.mk.inj (Except.ok.inj (hops.symm.trans hlower))
    have hrenames := renamesApart_naming htaken data
    have hlowered : ops'.filterMap Operation.inserted? =
        data.mapIdx fun i quads => quads.eraseDups.map (Quad.rename (naming next data i)) := by
      rw [hinserted, List.mapIdx_eq_mapIdx_iff]
      intro i hi
      have hget : data[i]? = some data[i] := List.getElem?_eq_getElem hi
      rw [← eraseDups_rename (hrenames.injective i hget), GroundData.quads_ofQuads, naming_eq hget]
    refine ⟨_, hrenames, hlowered, fun i quads lowered hi hl => ?_⟩
    rw [hlowered, List.getElem?_mapIdx, hi, Option.map_some] at hl
    rw [← Option.some.inj hl]
    refine ⟨?_, by rw [List.length_map, length_eraseDups]⟩
    rw [← eraseDups_rename (hrenames.injective i hi)]
    exact nodup_eraseDups _

/-- The same two labels in two operations; one quad is written twice. -/
theorem lowering_renames_blanks_twice :
    let edge (n n' : BlankNode) : Quad := ⟨.blank n, ⟨"edge"⟩, .blank n', .default⟩
    let x : BlankNode := .label "x"
    let y : BlankNode := .label "y"
    let rs : List Request := [.insertData [edge x y, edge y x, edge x y],
      .clear true .defaultGraph, .insertData [edge y y]]
    ∃ ops next', Request.lowerAll none 0 rs = .ok (ops, next') ∧
      ∃ a b c : BlankNode, a ≠ b ∧ a ≠ c ∧ b ≠ c ∧
        ops.filterMap Operation.inserted? = [[edge a b, edge b a], [edge c c]] := by
  intro edge x y rs
  have htaken : ∀ k, 0 ≤ k → .fresh k ∉ Set.range BlankNode.label := by
    rintro k - ⟨text, h⟩
    cases h
  obtain ⟨hlowers, hrenamed⟩ := lowering_renames_blanks htaken none rs
  have hload : ∀ r ∈ rs, ¬ r.IsLoad := by
    rintro r hr ⟨silent, source, destination, rfl⟩
    simp [rs] at hr
  obtain ⟨⟨ops, next'⟩, hl⟩ := hlowers.mpr hload
  obtain ⟨ρ, hρ, hinserted, -⟩ := hrenamed ops next' hl
  refine ⟨ops, next', hl, ρ 0 x, ρ 0 y, ρ 1 y, ?_, ?_, ?_, hinserted⟩
  · exact fun h => absurd (hρ.injective 0 rfl (by decide) (by decide) h) (by decide)
  · exact hρ.disjoint 0 1 rfl rfl (by decide) x (by decide) y (by decide)
  · exact hρ.disjoint 0 1 rfl rfl (by decide) y (by decide) y (by decide)

end GraphStore
