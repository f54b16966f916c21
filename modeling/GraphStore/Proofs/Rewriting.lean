/-
# `GraphStore.Proofs.Rewriting` — transfers are put together as they were taken apart

The grammar takes ADD, COPY and MOVE apart into DROP and copying updates, and lowering
puts them together again.  What lowering sees is the flat list of requests, and the list
of transfer clauses of the text:

    written operations  ──requests──▶  r₁ r₂ r₃ …
                        ──clauses───▶  c₁ c₂ …       ──lowerAll──▶  operations

`Written.lowerEach` is what it should come to, one operation for each written one.
Three rewritings have common beginnings, and so the next clause has to tell them apart.
`foldNext_transfer` says that a transfer is found by its own clause, whatever follows;
`foldNext_plain` says that another operation is passed over, unless the operations from
there on have the very shape of the next transfer (`Imitates`).  A run over the list
(`lowerAll_written`) keeps clauses and requests in step.

Where no other operation copies a whole graph there is nothing to imitate a transfer
with, and lowering undoes the rewriting: `lowering_undoes_rewriting`.
-/
import GraphStore.Update.Lowering

namespace GraphStore

/-! ## Graphs that a transfer names -/

/-- A graph that a statement may name. -/
inductive GraphRef where
  | default
  | iri (i : Iri)
deriving DecidableEq

namespace GraphRef

/-- The graph of the dataset. -/
def name : GraphRef → GraphName
  | .default => .default
  | .iri i => i.graph

/-- The graph as it stands in a template. -/
def pattern : GraphRef → GraphPattern
  | .default => .default
  | .iri i => .iri i

variable {g : GraphRef} {n : GraphName}

theorem constant?_pattern (g : GraphRef) : g.pattern.constant? = some g.name := by
  cases g <;> rfl

/-- A template has a fixed graph only if a graph is named there. -/
theorem exists_of_constant? {p : GraphPattern} (h : p.constant? = some n) :
    ∃ g : GraphRef, p = g.pattern ∧ n = g.name := by
  cases p with
  | default => exact ⟨.default, rfl, (Option.some.inj h).symm⟩
  | iri i => exact ⟨.iri i, rfl, (Option.some.inj h).symm⟩
  | var v => cases h

theorem ofGraph_name (g : GraphRef) : GraphTarget.ofGraph g.name = Request.targetOf g.pattern := by
  cases g <;> rfl

/-- A target is one graph that can be named. -/
theorem single?_eq_some {target : GraphTarget} :
    target.single? = some g.name ↔ target = Request.targetOf g.pattern := by
  rw [← ofGraph_name]
  constructor
  · intro h
    cases target with
    | named r =>
        rw [← Option.some.inj h]
        rfl
    | defaultGraph =>
        rw [← Option.some.inj h]
        rfl
    | namedGraphs | allGraphs => cases h
  · rintro rfl
    exact GraphTarget.single?_ofGraph g.name

theorem name_injective {g h : GraphRef} (heq : g.name = h.name) : g = h := by
  cases g <;> cases h <;> cases heq <;> rfl

theorem targetOf_injective {g h : GraphRef}
    (heq : Request.targetOf g.pattern = Request.targetOf h.pattern) : g = h := by
  cases g <;> cases h <;> cases heq <;> rfl

/-- Any triple, as a template for the graph. -/
def template (g : GraphRef) : QuadPattern := ⟨.var ⟨"s"⟩, .var ⟨"p"⟩, .var ⟨"o"⟩, g.pattern⟩

/-- The removal of the graph as an operation. -/
def dropping (g : GraphRef) (silent : Bool) : Operation :=
  { action := .graph ⟨.drop, Request.targetOf g.pattern, none, silent⟩ }

end GraphRef

/-! ## Written operations -/

/-- ADD, COPY or MOVE from one graph to another. -/
structure Transfer where
  action : GraphAction
  silent : Bool
  source : GraphRef
  destination : GraphRef
  isTransfer : action.isTransfer = true
  different : source ≠ destination

namespace Transfer

/-- What the grammar makes of the transfer. -/
def requests (t : Transfer) : List Request :=
  Request.ofTransfer t.action t.silent t.source.pattern t.destination.pattern

/-- The clause of the text. -/
def clause (t : Transfer) : TransferClause := ⟨t.action, t.silent⟩

/-- The transfer as one operation on graphs. -/
def operation (t : Transfer) : GraphOperation :=
  .transfer t.action t.source.name t.destination.name t.silent

/-- The copying update of its rewriting as an operation. -/
def copying (t : Transfer) : Operation :=
  { action := .modify {
      delete := []
      insert := [t.destination.template]
      pattern := Request.allOf t.source.pattern } }

theorem lower_copyAll (t : Transfer) (next : Nat) :
    (Request.copyAll t.source.pattern t.destination.pattern).lower next = .ok (t.copying, next) :=
  rfl

/-- The three rewritings. -/
theorem requests_cases (t : Transfer) :
    (t.action = .add ∧ t.requests = [Request.copyAll t.source.pattern t.destination.pattern]) ∨
    (t.action = .copy ∧
      t.requests = [.drop true (Request.targetOf t.destination.pattern),
        Request.copyAll t.source.pattern t.destination.pattern]) ∨
    (t.action = .move ∧
      t.requests = [.drop true (Request.targetOf t.destination.pattern),
        Request.copyAll t.source.pattern t.destination.pattern,
        .drop t.silent (Request.targetOf t.source.pattern)]) := by
  obtain ⟨action, silent, source, destination, isTransfer, different⟩ := t
  cases action with
  | add => exact .inl ⟨rfl, rfl⟩
  | copy => exact .inr (.inl ⟨rfl, rfl⟩)
  | move => exact .inr (.inr ⟨rfl, rfl⟩)
  | drop | clear => cases isTransfer

end Transfer

/-- An operation as it is written: a transfer or any other one. -/
inductive Written where
  | transfer (t : Transfer)
  | plain (r : Request)

namespace Written

/-- The requests that the grammar gives for it. -/
def requests : Written → List Request
  | .transfer t => t.requests
  | .plain r => [r]

/-- Its transfer clause, if it is a transfer. -/
def clauses : Written → List TransferClause
  | .transfer t => [t.clause]
  | .plain _ => []

/-- The operation that it is, and the number of the next new blank node. -/
def lower (next : Nat) : Written → Except UpdateError (Operation × Nat)
  | .transfer t => .ok ({ action := .graph t.operation }, next)
  | .plain r => r.lower next

/-- Lowers written operations one by one. -/
def lowerEach (next : Nat) : List Written → Except UpdateError (List Operation × Nat)
  | [] => .ok ([], next)
  | w :: ws => do
    let (op, next) ← w.lower next
    let (ops, next) ← lowerEach next ws
    return (op :: ops, next)

theorem lowerEach_cons (next : Nat) (w : Written) (ws : List Written) :
    lowerEach next (w :: ws) =
      (w.lower next).bind fun l => (lowerEach l.2 ws).map fun l' => (l.1 :: l'.1, l'.2) := by
  rw [lowerEach]
  cases w.lower next with
  | error e => rfl
  | ok l =>
      show (do
        let (ops, next) ← lowerEach l.2 ws
        return (l.1 :: ops, next)) = (lowerEach l.2 ws).map _
      cases lowerEach l.2 ws <;> rfl

theorem requests_ne_nil (w : Written) : w.requests ≠ [] := by
  cases w with
  | plain r => exact List.cons_ne_nil r []
  | transfer t =>
      show t.requests ≠ []
      rcases t.requests_cases with ⟨-, h⟩ | ⟨-, h⟩ | ⟨-, h⟩ <;> rw [h] <;>
        exact List.cons_ne_nil _ _

end Written

/-! ## Shapes of requests -/

/-- The operation is ADD, COPY or MOVE. -/
def Operation.isTransfer (op : Operation) : Bool :=
  match op.action with
  | .graph g => g.action.isTransfer
  | _ => false

namespace Request

variable {r : Request} {n : GraphName}

/-- The request copies one whole graph to another, as the grammar writes it. -/
def IsCopyAll (r : Request) : Prop :=
  ∃ source destination : GraphRef, r = copyAll source.pattern destination.pattern

/-- The request loads a document. -/
def IsLoad (r : Request) : Prop := ∃ silent source destination, r = .load silent source destination

theorem sourceOf?_allOf (g : GraphRef) : sourceOf? (allOf g.pattern) = some g.name := by
  cases g <;> rfl

theorem exists_of_sourceOf? {p : Pattern} (h : sourceOf? p = some n) :
    ∃ g : GraphRef, p = allOf g.pattern ∧ n = g.name := by
  unfold sourceOf? at h
  split at h
  · rename_i i triples
    split at h
    · rename_i hany
      exact ⟨.iri i, by rw [hany]; rfl, (Option.some.inj h).symm⟩
    · cases h
  · split at h
    · rename_i hany
      exact ⟨.default, by rw [hany]; rfl, (Option.some.inj h).symm⟩
    · cases h
  · cases h

theorem exists_of_destinationOf? {qs : List QuadPattern} (h : destinationOf? qs = some n) :
    ∃ g : GraphRef,
      qs = [⟨anyTriple.subject, anyTriple.predicate, anyTriple.object, g.pattern⟩] ∧
        n = g.name := by
  unfold destinationOf? at h
  split at h
  · rename_i q
    split at h
    · rename_i hany
      obtain ⟨g, hg, hn⟩ := GraphRef.exists_of_constant? h
      refine ⟨g, ?_, hn⟩
      obtain ⟨s, p, o, graph⟩ := q
      rw [← hany, ← hg]
    · cases h
  · cases h

theorem copied?_copyAll (source destination : GraphRef) :
    (copyAll source.pattern destination.pattern).copied? =
      some (source.name, destination.name) := by
  have hdestination : destinationOf?
      [⟨anyTriple.subject, anyTriple.predicate, anyTriple.object, destination.pattern⟩] =
        some destination.name := destination.constant?_pattern
  show (do
    let d ← destinationOf? _
    let s ← sourceOf? (allOf source.pattern)
    return (s, d) : Option (GraphName × GraphName)) = _
  rw [hdestination, sourceOf?_allOf]
  rfl

/-- Only requests of the grammar's own form are recognised as copying a graph. -/
theorem exists_of_copied? {graphs : GraphName × GraphName} (h : r.copied? = some graphs) :
    ∃ source destination : GraphRef, r = copyAll source.pattern destination.pattern ∧
      graphs = (source.name, destination.name) := by
  unfold copied? at h
  split at h
  · obtain ⟨d, hd, h⟩ := Option.bind_eq_some_iff.mp h
    obtain ⟨s, hs, h⟩ := Option.bind_eq_some_iff.mp h
    obtain ⟨destination, rfl, rfl⟩ := exists_of_destinationOf? hd
    obtain ⟨source, rfl, rfl⟩ := exists_of_sourceOf? hs
    exact ⟨source, destination, rfl, (Option.some.inj h).symm⟩
  · cases h

theorem drops?_eq_some {g : GraphRef} {silent : Bool} :
    drops? g.name r = some silent ↔ r = .drop silent (targetOf g.pattern) := by
  constructor
  · intro h
    unfold drops? at h
    split at h
    · split at h
      · rename_i hsingle
        rw [GraphRef.single?_eq_some.mp hsingle, Option.some.inj h]
      · cases h
    · cases h
  · rintro rfl
    show (if (targetOf g.pattern).single? = some g.name then some silent else none) = some silent
    rw [if_pos (GraphRef.single?_eq_some.mpr rfl)]

/-! ## What folding finds -/

/-- The requests begin with the rewriting of a transfer of this kind. -/
inductive Shape : GraphAction → List Request → Prop
  | add (source destination : GraphRef) (rest : List Request) :
      Shape .add (copyAll source.pattern destination.pattern :: rest)
  | copy (source destination : GraphRef) (rest : List Request) :
      Shape .copy (.drop true (targetOf destination.pattern) ::
        copyAll source.pattern destination.pattern :: rest)
  | move (source destination : GraphRef) (silent : Bool) (rest : List Request) :
      Shape .move (.drop true (targetOf destination.pattern) ::
        copyAll source.pattern destination.pattern ::
        .drop silent (targetOf source.pattern) :: rest)

variable {c : TransferClause} {rest : List Request} {source destination : GraphRef}
  {silent : Bool}

theorem foldTransfer_add :
    foldTransfer (some ⟨.add, silent⟩) (copyAll source.pattern destination.pattern) rest =
      some (.transfer .add source.name destination.name silent, 0) := by
  rw [foldTransfer, copied?_copyAll]
  rfl

/-- COPY and MOVE are looked for behind the silent drop of their destination. -/
theorem foldTransfer_dropped (hc : c.action ≠ .add) :
    foldTransfer (some c) (.drop true (targetOf destination.pattern)) rest =
      foldDropped (some c) destination.name rest := by
  obtain ⟨action, silent⟩ := c
  have hsingle := GraphRef.single?_eq_some.mpr (rfl : targetOf destination.pattern = _)
  cases action <;> first | exact absurd rfl hc | (simp only [foldTransfer, hsingle]; rfl)

/-- Behind the drop, a COPY takes the copying update alone, and a MOVE needs the drop of the
source after it. -/
theorem foldDropped_copyAll (c : TransferClause) (source destination : GraphRef)
    (rest : List Request) :
    foldDropped (some c) destination.name (copyAll source.pattern destination.pattern :: rest) =
      if c.action = .copy then some (.transfer .copy source.name destination.name c.silent, 1)
      else (rest.head?.bind (drops? source.name)).map fun _ =>
        (.transfer .move source.name destination.name c.silent, 2) := by
  obtain ⟨action, silent⟩ := c
  rw [foldDropped, copied?_copyAll]
  simp only [Option.bind_eq_bind, Option.bind_some, ne_eq, not_true_eq_false, if_false]
  cases action <;> cases rest.head?.bind (drops? source.name) <;> rfl

/-- Nothing else is found behind a drop. -/
theorem exists_of_foldDropped {cleared : GraphName} {found : GraphOperation × Nat}
    (h : foldDropped (some c) cleared rest = some found) :
    ∃ (source destination : GraphRef) (rest' : List Request),
      rest = copyAll source.pattern destination.pattern :: rest' ∧
        cleared = destination.name := by
  cases rest with
  | nil => cases h
  | cons r rest' =>
      rw [foldDropped] at h
      obtain ⟨graphs, hgraphs, h⟩ := Option.bind_eq_some_iff.mp h
      obtain ⟨source, destination, rfl, rfl⟩ := exists_of_copied? hgraphs
      by_cases hcleared : cleared = destination.name
      · exact ⟨source, destination, rest', rfl, hcleared⟩
      · simp only [ne_eq, hcleared, not_false_eq_true, if_true, Option.bind_eq_bind,
          Option.bind_none] at h
        cases h

theorem foldTransfer_copy :
    foldTransfer (some ⟨.copy, silent⟩) (.drop true (targetOf destination.pattern))
        (copyAll source.pattern destination.pattern :: rest) =
      some (.transfer .copy source.name destination.name silent, 1) := by
  rw [foldTransfer_dropped (fun h => by cases h), foldDropped_copyAll, if_pos rfl]

theorem foldTransfer_move {silent' : Bool} :
    foldTransfer (some ⟨.move, silent⟩) (.drop true (targetOf destination.pattern))
        (copyAll source.pattern destination.pattern ::
          .drop silent' (targetOf source.pattern) :: rest) =
      some (.transfer .move source.name destination.name silent, 2) := by
  rw [foldTransfer_dropped (fun h => by cases h), foldDropped_copyAll,
    if_neg (fun h => by cases h), List.head?_cons, Option.bind_some, drops?_eq_some.mpr rfl]
  rfl

/-- Where requests have the shape of the transfer that is looked for, it is found. -/
theorem foldTransfer_of_shape {r : Request} (h : Shape c.action (r :: rest)) :
    ∃ op used, foldTransfer (some c) r rest = some (op, used) := by
  obtain ⟨action, silent⟩ := c
  cases h with
  | add source destination => exact ⟨_, _, foldTransfer_add⟩
  | copy source destination rest => exact ⟨_, _, foldTransfer_copy⟩
  | move source destination silent' rest => exact ⟨_, _, foldTransfer_move⟩

/-- What is found has the kind and the flag of the clause, and the requests have its shape. -/
theorem shape_of_foldTransfer {r : Request} {op : GraphOperation} {used : Nat}
    (hc : c.action.isTransfer = true) (h : foldTransfer (some c) r rest = some (op, used)) :
    op.action = c.action ∧ op.silent = c.silent ∧ Shape c.action (r :: rest) := by
  by_cases hadd : c.action = .add
  · obtain ⟨action, silent⟩ := c
    subst hadd
    rw [foldTransfer] at h
    obtain ⟨graphs, hgraphs, h⟩ := Option.bind_eq_some_iff.mp h
    obtain ⟨source, destination, rfl, rfl⟩ := exists_of_copied? hgraphs
    obtain ⟨rfl, rfl⟩ := Prod.mk.inj (Option.some.inj h)
    exact ⟨rfl, rfl, .add source destination rest⟩
  · obtain ⟨target, hr, cleared, hsingle, hdropped⟩ : ∃ target, r = .drop true target ∧
        ∃ cleared, target.single? = some cleared ∧
          foldDropped (some c) cleared rest = some (op, used) := by
      obtain ⟨action, silent⟩ := c
      unfold foldTransfer at h
      split at h
      · rename_i heq
        exact absurd (congrArg TransferClause.action (Option.some.inj heq)) hadd
      · split at h
        · rename_i target
          obtain ⟨cleared, hcleared, h⟩ := Option.bind_eq_some_iff.mp h
          exact ⟨target, rfl, cleared, hcleared, h⟩
        · cases h
    obtain ⟨source, destination, rest', rfl, rfl⟩ := exists_of_foldDropped hdropped
    rw [hr, GraphRef.single?_eq_some.mp hsingle]
    rw [foldDropped_copyAll] at hdropped
    split at hdropped
    · rename_i hcopy
      rw [← (Prod.mk.inj (Option.some.inj hdropped)).1, hcopy]
      exact ⟨rfl, rfl, .copy source destination rest'⟩
    · rename_i hcopy
      have hmove : c.action = .move := by
        cases haction : c.action with
        | move => rfl
        | add => exact absurd haction hadd
        | copy => exact absurd haction hcopy
        | drop | clear =>
            rw [haction] at hc
            cases hc
      obtain ⟨silent, hsilent, hop⟩ := Option.map_eq_some_iff.mp hdropped
      obtain ⟨r', hr', hdrops⟩ := Option.bind_eq_some_iff.mp hsilent
      obtain ⟨rest'', rfl⟩ := List.head?_eq_some_iff.mp hr'
      rw [drops?_eq_some.mp hdrops, ← (Prod.mk.inj hop).1, hmove]
      exact ⟨rfl, rfl, .move source destination silent rest''⟩

/-! ## One step of lowering -/

/-- One request alone is not lowered to a transfer. -/
theorem not_isTransfer_lower {r : Request} {next : Nat} {l : Operation × Nat}
    (h : r.lower next = .ok l) : l.1.isTransfer = false := by
  cases r with
  | load => cases h
  | insertData | deleteData | deleteInsert | clear | create | drop =>
      rw [← Except.ok.inj h]
      rfl

/-- Runs that agree behind the same first operation agree. -/
theorem eq_of_map_cons {x y : Except UpdateError (List Operation × Nat)} {op : Operation}
    (h : (x.map fun l => (op :: l.1, l.2)) = y.map fun l => (op :: l.1, l.2)) : x = y := by
  cases x with
  | error e =>
      cases y with
      | error e' => rw [Except.error.inj h]
      | ok l' => cases h
  | ok l =>
      cases y with
      | error e' => cases h
      | ok l' =>
          obtain ⟨hops, hnext⟩ := Prod.mk.inj (Except.ok.inj h)
          rw [Prod.ext (List.cons.inj hops).2 hnext]

variable {clauses : Option (List TransferClause)} {next : Nat}

/-- A found transfer takes the place of its requests. -/
theorem lowerAll_found {r : Request} {op : GraphOperation} {used : Nat}
    {clauses' : Option (List TransferClause)}
    (h : foldNext clauses r rest = some (op, used, clauses')) :
    lowerAll clauses next (r :: rest) =
      (lowerAll clauses' next (rest.drop used)).map fun l =>
        ({ action := .graph op } :: l.1, l.2) := by
  rw [lowerAll, h]
  dsimp only
  cases lowerAll clauses' next (rest.drop used) <;> rfl

/-- Where no transfer is found, the request is lowered alone. -/
theorem lowerAll_alone {r : Request} (h : foldNext clauses r rest = none) :
    lowerAll clauses next (r :: rest) =
      (r.lower next).bind fun l =>
        (lowerAll clauses l.2 rest).map fun l' => (l.1 :: l'.1, l'.2) := by
  rw [lowerAll, h]
  dsimp only
  cases r.lower next with
  | error e => rfl
  | ok l =>
      show (do
        let (ops, next) ← lowerAll clauses l.2 rest
        return (l.1 :: ops, next)) = (lowerAll clauses l.2 rest).map _
      cases lowerAll clauses l.2 rest <;> rfl

/-- The first operation is a transfer that is found, or no transfer. -/
theorem first_of_lowerAll {r : Request} {op : Operation} {ops : List Operation} {next' : Nat}
    (h : lowerAll clauses next (r :: rest) = .ok (op :: ops, next')) :
    (∃ g used clauses', foldNext clauses r rest = some (g, used, clauses') ∧
      op = { action := .graph g }) ∨ op.isTransfer = false := by
  cases hfold : foldNext clauses r rest with
  | some found =>
      obtain ⟨g, used, clauses'⟩ := found
      rw [lowerAll_found hfold] at h
      cases hrun : lowerAll clauses' next (rest.drop used) with
      | error e =>
          rw [hrun] at h
          cases h
      | ok l =>
          rw [hrun] at h
          obtain ⟨hops, -⟩ := Prod.mk.inj (Except.ok.inj h)
          exact .inl ⟨g, used, clauses', rfl, (List.cons.inj hops).1.symm⟩
  | none =>
      rw [lowerAll_alone hfold] at h
      cases hl : r.lower next with
      | error e =>
          rw [hl] at h
          cases h
      | ok l =>
          cases hrun : lowerAll clauses l.2 rest with
          | error e =>
              rw [hl] at h
              simp only [Except.bind, hrun] at h
              cases h
          | ok l' =>
              rw [hl] at h
              simp only [Except.bind, hrun] at h
              obtain ⟨hops, -⟩ := Prod.mk.inj (Except.ok.inj h)
              rw [← (List.cons.inj hops).1]
              exact .inr (not_isTransfer_lower hl)

/-- A transfer is found by its own clause, whatever follows. -/
theorem foldNext_transfer (t : Transfer) (cs : List TransferClause) (rest : List Request) :
    ∃ r tail, t.requests = r :: tail ∧
      foldNext (some (t.clause :: cs)) r (tail ++ rest) =
        some (t.operation, tail.length, some cs) := by
  obtain ⟨action, silent, source, destination, isTransfer, different⟩ := t
  cases action with
  | add =>
      refine ⟨_, _, rfl, ?_⟩
      show (foldTransfer (some ⟨.add, silent⟩) _ _).map _ = _
      rw [foldTransfer_add]
      rfl
  | copy =>
      refine ⟨_, _, rfl, ?_⟩
      show (foldTransfer (some ⟨.copy, silent⟩) _ (copyAll _ _ :: rest)).map _ = _
      rw [foldTransfer_copy]
      rfl
  | move =>
      refine ⟨_, _, rfl, ?_⟩
      show (foldTransfer (some ⟨.move, silent⟩) _ (copyAll _ _ :: .drop _ _ :: rest)).map _ = _
      rw [foldTransfer_move]
      rfl
  | drop | clear => cases isTransfer

/-- A transfer in front of other requests is lowered to itself, and its clause is used up. -/
theorem lowerAll_transfer (t : Transfer) (cs : List TransferClause) (next : Nat)
    (rest : List Request) :
    lowerAll (some (t.clause :: cs)) next (t.requests ++ rest) =
      (lowerAll (some cs) next rest).map fun l =>
        ({ action := .graph t.operation } :: l.1, l.2) := by
  obtain ⟨r, tail, hr, hfold⟩ := foldNext_transfer t cs rest
  rw [hr, List.cons_append, lowerAll_found hfold, List.drop_left]

end Request

/-! ## Runs of lowering -/

/-- A request and the written operations behind it begin like the transfer that comes next. -/
def Imitates (r : Request) (ws : List Written) : Prop :=
  ∃ c, (ws.flatMap Written.clauses).head? = some c ∧
    Request.Shape c.action (r :: ws.flatMap Written.requests)

/-- Somewhere an operation that is not a transfer begins like the transfer that comes next. -/
def Imitated : List Written → Prop
  | [] => False
  | .transfer _ :: ws => Imitated ws
  | .plain r :: ws => Imitates r ws ∨ Imitated ws

namespace Written

variable {ws : List Written} {c : TransferClause} {r : Request}

theorem clauses_plain (r : Request) (ws : List Written) :
    (plain r :: ws).flatMap clauses = ws.flatMap clauses := rfl

theorem clauses_transfer (t : Transfer) (ws : List Written) :
    (transfer t :: ws).flatMap clauses = t.clause :: ws.flatMap clauses := rfl

theorem requests_plain (r : Request) (ws : List Written) :
    (plain r :: ws).flatMap requests = r :: ws.flatMap requests := rfl

theorem requests_transfer (t : Transfer) (ws : List Written) :
    (transfer t :: ws).flatMap requests = t.requests ++ ws.flatMap requests := rfl

theorem isTransfer_of_mem_clauses (h : c ∈ ws.flatMap clauses) : c.action.isTransfer = true := by
  obtain ⟨w, -, hc⟩ := List.mem_flatMap.mp h
  cases w with
  | plain r => cases hc
  | transfer t =>
      rw [List.mem_singleton.mp hc]
      exact t.isTransfer

theorem exists_cons_requests (h : ws.flatMap clauses ≠ []) :
    ∃ r rest, ws.flatMap requests = r :: rest := by
  cases ws with
  | nil => exact absurd rfl h
  | cons w ws =>
      obtain ⟨r, rest, hr⟩ := List.exists_cons_of_ne_nil w.requests_ne_nil
      exact ⟨r, rest ++ ws.flatMap requests, by rw [List.flatMap_cons, hr]; rfl⟩

/-- A copying update before a transfer other than ADD was not written as a transfer. -/
theorem exists_plain_of_copyAll {source destination : GraphRef} {rest : List Request}
    (hc : (ws.flatMap clauses).head? = some c) (hadd : c.action ≠ .add)
    (h : ws.flatMap requests = Request.copyAll source.pattern destination.pattern :: rest) :
    ∃ ws', ws = .plain (Request.copyAll source.pattern destination.pattern) :: ws' ∧
      rest = ws'.flatMap requests := by
  cases ws with
  | nil => cases hc
  | cons w ws =>
      cases w with
      | plain r =>
          rw [requests_plain] at h
          obtain ⟨rfl, rfl⟩ := List.cons.inj h
          exact ⟨ws, rfl, rfl⟩
      | transfer t =>
          -- COPY and MOVE do not begin with the copying update
          obtain rfl : t.clause = c := Option.some.inj hc
          rw [requests_transfer] at h
          rcases t.requests_cases with ⟨haction, -⟩ | ⟨-, hr⟩ | ⟨-, hr⟩
          · exact absurd haction hadd
          · rw [hr] at h
            cases h
          · rw [hr] at h
            cases h

/-- The shape of the next transfer does not reach beyond that transfer. -/
theorem shape_of_append {rest : List Request} (hc : (ws.flatMap clauses).head? = some c)
    (h : Request.Shape c.action (r :: (ws.flatMap requests ++ rest))) :
    Request.Shape c.action (r :: ws.flatMap requests) := by
  have hne : ws.flatMap clauses ≠ [] := fun hnil => by
    rw [hnil] at hc
    cases hc
  obtain ⟨r', tail, hrequests⟩ := exists_cons_requests hne
  rw [hrequests, List.cons_append] at h
  rw [hrequests]
  obtain ⟨action, silent⟩ := c
  generalize htail : tail ++ rest = tail' at h
  cases h with
  | add source destination => exact .add source destination _
  | copy source destination => exact .copy source destination _
  | move source destination silent' rest' =>
      -- the transfer is still to come, so there is a request behind the copying update
      obtain ⟨ws', rfl, rfl⟩ := exists_plain_of_copyAll hc (fun h => by cases h) hrequests
      rw [clauses_plain] at hc
      have hne : ws'.flatMap clauses ≠ [] := fun hnil => by
        rw [hnil] at hc
        cases hc
      obtain ⟨r'', tail, hrequests'⟩ := exists_cons_requests hne
      rw [hrequests'] at htail ⊢
      rw [(List.cons.inj htail).1]
      exact .move source destination silent' tail

/-- An operation that does not imitate the next transfer is passed over. -/
theorem foldNext_plain (h : ¬ Imitates r ws) (rest : List Request) :
    Request.foldNext (some (ws.flatMap clauses)) r (ws.flatMap requests ++ rest) = none := by
  cases hclauses : ws.flatMap clauses with
  | nil => rfl
  | cons c cs =>
      show (Request.foldTransfer (some c) r _).map _ = none
      cases hfold : Request.foldTransfer (some c) r (ws.flatMap requests ++ rest) with
      | none => rfl
      | some found =>
          have hc : (ws.flatMap clauses).head? = some c := by rw [hclauses]; rfl
          have hmem : c ∈ ws.flatMap clauses := by rw [hclauses]; exact List.mem_cons_self
          obtain ⟨-, -, hshape⟩ :=
            Request.shape_of_foldTransfer (isTransfer_of_mem_clauses hmem) hfold
          exact absurd ⟨c, hc, shape_of_append hc hshape⟩ h

end Written

/-- Written operations that do not imitate transfers are lowered one by one.  Their clauses are
used up then, and nothing that follows is taken for a transfer. -/
theorem lowerAll_written {ws : List Written} (h : ¬ Imitated ws) (next : Nat)
    (rest : List Request) :
    Request.lowerAll (some (ws.flatMap Written.clauses)) next
        (ws.flatMap Written.requests ++ rest) =
      (Written.lowerEach next ws).bind fun l =>
        (Request.lowerAll (some []) l.2 rest).map fun l' => (l.1 ++ l'.1, l'.2) := by
  induction ws generalizing next with
  | nil =>
      show Request.lowerAll (some []) next rest =
        (Request.lowerAll (some []) next rest).map fun l => ([] ++ l.1, l.2)
      cases Request.lowerAll (some []) next rest <;> rfl
  | cons w ws ih =>
      cases w with
      | transfer t =>
          have hrest := ih h
          rw [Written.clauses_transfer, Written.requests_transfer, List.append_assoc,
            Request.lowerAll_transfer, hrest, Written.lowerEach_cons, Written.lower]
          cases hl : Written.lowerEach next ws with
          | error e => simp only [Except.bind, Except.map, hl]
          | ok l =>
              simp only [Except.bind, hl, Except.map]
              cases Request.lowerAll (some []) l.2 rest <;> rfl
      | plain r =>
          obtain ⟨himitates, himitated⟩ := not_or.mp h
          have hrest := ih himitated
          have hnone := Written.foldNext_plain himitates rest
          rw [Written.clauses_plain, Written.requests_plain, List.cons_append,
            Request.lowerAll_alone hnone, Written.lowerEach_cons, Written.lower]
          cases r.lower next with
          | error e => rfl
          | ok lowered =>
              simp only [Except.bind, hrest]
              cases hl : Written.lowerEach lowered.2 ws with
              | error e => rfl
              | ok l =>
                  simp only [Except.map]
                  cases Request.lowerAll (some []) l.2 rest <;> rfl

/-! ## Where nothing can imitate a transfer -/

theorem not_imitates {r : Request} {ws : List Written} (hr : ¬ r.IsCopyAll)
    (hws : ∀ r, .plain r ∈ ws → ¬ r.IsCopyAll) : ¬ Imitates r ws := by
  rintro ⟨c, hc, hshape⟩
  obtain ⟨action, silent⟩ := c
  generalize hrest : ws.flatMap Written.requests = rest at hshape
  -- the copying update of COPY and MOVE is the second request
  have hsecond : ∀ {source destination : GraphRef} {rest' : List Request}, action ≠ .add →
      ws.flatMap Written.requests ≠
        Request.copyAll source.pattern destination.pattern :: rest' := by
    intro source destination rest' hadd hcopy
    obtain ⟨ws', rfl, -⟩ := Written.exists_plain_of_copyAll hc hadd hcopy
    exact hws _ List.mem_cons_self ⟨source, destination, rfl⟩
  cases hshape with
  | add source destination => exact hr ⟨source, destination, rfl⟩
  | copy source destination rest' => exact hsecond (fun h => by cases h) hrest
  | move source destination silent' rest' => exact hsecond (fun h => by cases h) hrest

theorem not_imitated {ws : List Written} (h : ∀ r, .plain r ∈ ws → ¬ r.IsCopyAll) :
    ¬ Imitated ws := by
  induction ws with
  | nil => exact not_false
  | cons w ws ih =>
      have hws : ∀ r, .plain r ∈ ws → ¬ r.IsCopyAll := fun r hr => h r (List.mem_cons_of_mem _ hr)
      cases w with
      | transfer t => exact ih hws
      | plain r => exact not_or.mpr ⟨not_imitates (h r List.mem_cons_self) hws, ih hws⟩

theorem Request.lower_ok {r : Request} (h : ¬ r.IsLoad) (next : Nat) :
    ∃ l, r.lower next = .ok l := by
  cases r with
  | load silent source destination => exact absurd ⟨silent, source, destination, rfl⟩ h
  | insertData | deleteData | deleteInsert | clear | create | drop => exact ⟨_, rfl⟩

/-- Without LOAD every written operation becomes one operation. -/
theorem Written.lowerEach_ok {ws : List Written} (h : ∀ r, .plain r ∈ ws → ¬ r.IsLoad)
    (next : Nat) :
    ∃ ops next', lowerEach next ws = .ok (ops, next') ∧ ops.length = ws.length := by
  induction ws generalizing next with
  | nil => exact ⟨[], next, rfl, rfl⟩
  | cons w ws ih =>
      obtain ⟨l, hl⟩ : ∃ l, w.lower next = .ok l := by
        cases w with
        | transfer t => exact ⟨_, rfl⟩
        | plain r => exact Request.lower_ok (h r List.mem_cons_self) next
      obtain ⟨ops, next', hops, hlength⟩ := ih (fun r hr => h r (List.mem_cons_of_mem _ hr)) l.2
      refine ⟨l.1 :: ops, next', ?_, congrArg (· + 1) hlength⟩
      rw [lowerEach_cons, hl]
      simp only [Except.bind, hops, Except.map]

/-- Lowering gives back what was written, one operation for each written one, if no operation but
the transfers copies a whole graph and none is a LOAD.  The clauses are used up by their transfers:
requests behind the written ones are lowered as if there were no clauses. -/
theorem lowering_undoes_rewriting {ws : List Written}
    (hcopy : ∀ r, .plain r ∈ ws → ¬ r.IsCopyAll) (hload : ∀ r, .plain r ∈ ws → ¬ r.IsLoad)
    (next : Nat) :
    ∃ ops next', Written.lowerEach next ws = .ok (ops, next') ∧ ops.length = ws.length ∧
      Request.lowerAll (some (ws.flatMap Written.clauses)) next
        (ws.flatMap Written.requests) = .ok (ops, next') ∧
      ∀ rest, Request.lowerAll (some (ws.flatMap Written.clauses)) next
          (ws.flatMap Written.requests ++ rest) =
        (Request.lowerAll (some []) next' rest).map fun l => (ops ++ l.1, l.2) := by
  obtain ⟨ops, next', heach, hlength⟩ := Written.lowerEach_ok hload next
  have hall : ∀ rest, Request.lowerAll (some (ws.flatMap Written.clauses)) next
      (ws.flatMap Written.requests ++ rest) =
        (Request.lowerAll (some []) next' rest).map fun l => (ops ++ l.1, l.2) := by
    intro rest
    rw [lowerAll_written (not_imitated hcopy), heach]
    rfl
  refine ⟨ops, next', heach, hlength, ?_, hall⟩
  have hnil := hall []
  rw [List.append_nil, Request.lowerAll] at hnil
  rw [hnil]
  simp only [Except.map, List.append_nil]

/-- Written drops of the graphs of the transfers around them. -/
theorem lowering_undoes_rewriting_drops :
    let a : GraphRef := .iri ⟨"a"⟩
    let b : GraphRef := .iri ⟨"b"⟩
    let add : Transfer := ⟨.add, false, a, b, rfl, by decide⟩
    let copy : Transfer := ⟨.copy, true, a, .default, rfl, by decide⟩
    let move : Transfer := ⟨.move, false, b, a, rfl, by decide⟩
    let drop (silent : Bool) (target : GraphTarget) : Operation :=
      { action := .graph ⟨.drop, target, none, silent⟩ }
    let ws : List Written := [.plain (.drop true (.named (.iri ⟨"b"⟩))), .transfer add,
      .plain (.drop true .defaultGraph), .transfer copy, .plain (.drop false (.named (.iri ⟨"a"⟩))),
      .transfer move, .plain (.drop false (.named (.iri ⟨"b"⟩)))]
    Request.lowerAll (some [⟨.add, false⟩, ⟨.copy, true⟩, ⟨.move, false⟩]) 0
        (ws.flatMap Written.requests) =
      .ok ([drop true (.named (.iri ⟨"b"⟩)), { action := .graph add.operation },
        drop true .defaultGraph, { action := .graph copy.operation },
        drop false (.named (.iri ⟨"a"⟩)), { action := .graph move.operation },
        drop false (.named (.iri ⟨"b"⟩))], 0) := by
  intro a b add copy move drop ws
  have hdrops : ∀ r, .plain r ∈ ws → ∃ silent target, r = .drop silent target := by
    intro r hr
    simp only [ws, List.mem_cons, List.not_mem_nil, or_false, Written.plain.injEq,
      reduceCtorEq, false_or] at hr
    rcases hr with rfl | rfl | rfl | rfl <;> exact ⟨_, _, rfl⟩
  have hcopy : ∀ r, .plain r ∈ ws → ¬ r.IsCopyAll := by
    rintro r hr ⟨source, destination, rfl⟩
    obtain ⟨silent, target, h⟩ := hdrops _ hr
    cases h
  have hload : ∀ r, .plain r ∈ ws → ¬ r.IsLoad := by
    rintro r hr ⟨silent, source, destination, rfl⟩
    obtain ⟨silent, target, h⟩ := hdrops _ hr
    cases h
  obtain ⟨ops, next', heach, -, hall, -⟩ := lowering_undoes_rewriting hcopy hload 0
  rw [← heach] at hall
  exact hall

end GraphStore
