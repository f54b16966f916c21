/-
# `GraphStore.Proofs.NodesInTurn` — new nodes that are taken as labels are met

The tables of `Renaming` and `TemplateNodes` are written down when all labels are known.  One pass
over the quads has to do without: it keeps a map and fills it, and a label that is met for the first
time takes the next node of the supply.

    met        _:b    _:a    _:b    _:c
    map        b↦0    a↦1           c↦2

`InTurn supply x met value` says that the steps `x` meet these labels and come to what `value`
makes of the map, not of the map as it is then but of any that it may become: what has been looked
up stays.  So a whole pass comes to what its last map makes of the quads.

For INSERT DATA this is the table of `Renaming` (`lower_insertData_inTurn`).  Templates are given
up as soon as a position stands for nothing, and labels behind it are not met; so the numbers
are others than those of `TemplateNodes`, but the quads are the same up to the names of new nodes
(`insertions_inTurn`).
-/
import GraphStore.Proofs.Needs
import GraphStore.Proofs.TemplateNodes

namespace GraphStore

/-! ## Maps that are filled -/

/-- The labels that have been met, with their nodes, and how many nodes have been taken. -/
structure NodeMap where
  taken : Nat
  given : List (BlankNode × BlankNode) := []

namespace NodeMap

/-- The node of a label; a label that is met for the first time takes the next one. -/
def node (supply : Nat → BlankNode) (n : BlankNode) : StateM NodeMap BlankNode := fun m =>
  match m.given.lookup n with
  | some n' => (n', m)
  | none => (supply m.taken, ⟨m.taken + 1, m.given ++ [(n, supply m.taken)]⟩)

/-- The map in which the labels have been met in this order. -/
def filled (supply : Nat → BlankNode) (start : Nat) (labels : List BlankNode) : NodeMap :=
  ⟨start + labels.length, labels.mapIdx fun k n => (n, supply (start + k))⟩

/-- The node that a label has in that map. -/
def nodeIn (supply : Nat → BlankNode) (start : Nat) (labels : List BlankNode) (n : BlankNode) :
    BlankNode :=
  supply (start + labels.idxOf n)

end NodeMap

open NodeMap Content

section

variable {supply : Nat → BlankNode} {start : Nat} {labels more : List BlankNode} {n : BlankNode}
  {α β : Type}

theorem lookup_mapIdx (g : Nat → BlankNode) (labels : List BlankNode) (n : BlankNode) :
    (labels.mapIdx fun k n => (n, g k)).lookup n =
      if n ∈ labels then some (g (labels.idxOf n)) else none := by
  induction labels generalizing g with
  | nil => rfl
  | cons l labels ih =>
      rw [List.mapIdx_cons, List.lookup_cons, ih fun k => g (k + 1), List.idxOf_cons]
      by_cases hn : n = l
      · simp [hn]
      · simp [hn, Ne.symm hn, beq_false_of_ne, cond_false]

theorem nodeIn_addMissing (hn : n ∈ labels) (more : List BlankNode) :
    nodeIn supply start (addMissing labels more) n = nodeIn supply start labels n := by
  rw [nodeIn, addMissing_eq_append, List.idxOf_append_of_mem hn]
  rfl

/-- The steps meet the labels, and come to what `value` makes of every later map. -/
def InTurn (supply : Nat → BlankNode) (x : StateM NodeMap α) (met : List BlankNode)
    (value : (BlankNode → BlankNode) → α) : Prop :=
  ∀ start labels more, x (filled supply start labels) =
    (value (nodeIn supply start (addMissing (addMissing labels met) more)),
      filled supply start (addMissing labels met))

theorem inTurn_pure (a : α) : InTurn supply (pure a) [] fun _ => a := fun _ _ _ => rfl

theorem addMissing_append [BEq α] (seen xs ys : List α) :
    addMissing seen (xs ++ ys) = addMissing (addMissing seen xs) ys :=
  List.foldl_append

theorem addMissing_nil [BEq α] [LawfulBEq α] (xs : List α) : addMissing [] xs = xs.eraseDups := by
  rw [addMissing_eq_append]
  simp

theorem InTurn.bind {x : StateM NodeMap α} {met met' : List BlankNode}
    {value : (BlankNode → BlankNode) → α} {y : α → StateM NodeMap β}
    (hx : InTurn supply x met value) (value' : (BlankNode → BlankNode) → α → β)
    (hy : ∀ f, InTurn supply (y (value f)) met' fun f' => value' f' (value f)) :
    InTurn supply (x >>= y) (met ++ met') fun f => value' f (value f) := by
  intro start labels more
  -- for the first steps, the labels of the second ones are some of those that may follow
  have hx' := hx start labels (met' ++ more)
  rw [addMissing_append] at hx'
  have hy' := hy (nodeIn supply start
    (addMissing (addMissing (addMissing labels met) met') more)) start (addMissing labels met) more
  rw [addMissing_append labels met met']
  show (match x (filled supply start labels) with | (a, m) => y a m) = _
  rw [hx']
  exact hy'

theorem InTurn.map {x : StateM NodeMap α} {met : List BlankNode}
    {value : (BlankNode → BlankNode) → α} (hx : InTurn supply x met value) (g : α → β) :
    InTurn supply (x >>= fun a => pure (g a)) met fun f => g (value f) := by
  have hbind : InTurn supply (x >>= fun a => pure (g a)) (met ++ []) fun f => g (value f) :=
    hx.bind (fun _ a => g a) fun f => inTurn_pure (g (value f))
  rw [List.append_nil] at hbind
  exact hbind

theorem inTurn_node (n : BlankNode) : InTurn supply (node supply n) [n] fun f => f n := by
  intro start labels more
  have hn : n ∈ addMissing labels [n] := mem_addMissing.mpr (.inr (List.mem_singleton_self n))
  dsimp only
  rw [nodeIn_addMissing hn]
  show (match (labels.mapIdx fun k n => (n, supply (start + k))).lookup n with
    | some n' => (n', filled supply start labels)
    | none => (supply (start + labels.length), _)) = _
  rw [lookup_mapIdx fun k => supply (start + k)]
  by_cases hmet : n ∈ labels
  · rw [if_pos hmet, addMissing_eq_self (by simpa using hmet)]
    rfl
  · have hlabels : addMissing labels [n] = labels ++ [n] := by
      show (if labels.contains n then labels else labels ++ [n]) = _
      rw [if_neg (by simpa using hmet)]
    rw [if_neg hmet, hlabels]
    simp [nodeIn, filled, List.mapIdx_concat, List.idxOf_append_of_notMem hmet, Nat.add_assoc]

end

/-! ## INSERT DATA in one pass -/

section

variable (supply : Nat → BlankNode)

/-- The resource, its label replaced. -/
def Resource.inTurn : Resource → StateM NodeMap Resource
  | .iri i => pure (.iri i)
  | .blank n => do
    let n ← node supply n
    return .blank n

/-- The term, its label replaced. -/
def Term.inTurn : Term → StateM NodeMap Term
  | .blank n => do
    let n ← node supply n
    return .blank n
  | t => pure t

/-- The quad, its labels replaced. -/
def Quad.inTurn (q : Quad) : StateM NodeMap Quad := do
  let s ← q.subject.inTurn supply
  let o ← q.object.inTurn supply
  return { q with subject := s, object := o }

/-- Gathers quads as their labels are replaced. -/
def GroundData.gatherInTurn (d : GroundData) (quads : List Quad) : StateM NodeMap GroundData :=
  quads.foldlM (fun d q => do
    let q ← q.inTurn supply
    return (d.accept q).2) d

end

section

variable {supply : Nat → BlankNode}

theorem Resource.inTurn_rename (r : Resource) :
    InTurn supply (r.inTurn supply) r.blanks fun f => r.rename f := by
  cases r with
  | iri i => exact inTurn_pure _
  | blank n => exact (inTurn_node n).map _

theorem Term.inTurn_rename (t : Term) :
    InTurn supply (t.inTurn supply) t.blanks fun f => t.rename f := by
  cases t with
  | iri _ | literal _ => exact inTurn_pure _
  | blank n => exact (inTurn_node n).map _

theorem Quad.inTurn_rename (q : Quad) :
    InTurn supply (q.inTurn supply) q.blanks fun f => q.rename f :=
  q.subject.inTurn_rename.bind (fun f s => { q with subject := s, object := q.object.rename f })
    fun _ => q.object.inTurn_rename.map _

/-- One pass gathers what the last map makes of the quads. -/
theorem GroundData.inTurn_gatherInTurn (d : GroundData) (quads : List Quad) :
    InTurn supply (d.gatherInTurn supply quads) (quads.flatMap Quad.blanks) fun f =>
      (quads.map (Quad.rename f)).foldl (fun d q => (d.accept q).2) d := by
  induction quads generalizing d with
  | nil => exact inTurn_pure d
  | cons q quads ih =>
      have hfirst : InTurn supply (do
          let q ← q.inTurn supply
          return (d.accept q).2) q.blanks fun f => (d.accept (q.rename f)).2 :=
        q.inTurn_rename.map _
      exact InTurn.bind (y := fun d => d.gatherInTurn supply quads) hfirst
        (fun f d => (quads.map (Quad.rename f)).foldl (fun d q => (d.accept q).2) d) fun f => ih _

end

/-- The pass that fills a map as it goes lowers INSERT DATA. -/
theorem Request.lower_insertData_inTurn (next : Nat) (quads : List Quad) :
    let gathered := GroundData.gatherInTurn .fresh .empty quads { taken := next }
    (Request.insertData quads).lower next =
      .ok ({ action := .insertData gathered.1.quads }, gathered.2.taken) := by
  intro gathered
  have hlabels : addMissing [] (quads.flatMap Quad.blanks) = quadBlanks quads := addMissing_nil _
  have hpass : InTurn .fresh (GroundData.gatherInTurn .fresh .empty quads) _ _ :=
    GroundData.inTurn_gatherInTurn .empty quads
  have hgathered := hpass next [] []
  rw [hlabels] at hgathered
  have hvalue : gathered = (GroundData.ofQuads (quads.map (Quad.rename
      (freshNode next (quadBlanks quads)))), filled .fresh next (quadBlanks quads)) := hgathered
  rw [hvalue]
  rfl

/-! ## Templates in one pass -/

section

variable (supply : Nat → BlankNode) (s : Binding)

/-- The term at a position, its label replaced. -/
def TermPattern.inTurn : TermPattern → StateM NodeMap (Option Term)
  | .iri i => pure (some (.iri i))
  | .blank n => do
    let n ← node supply n
    return some (.blank n)
  | .literal l => pure (some (.literal l))
  | .var v => pure (s.get? v)

/-- The quad that a template is for the solution, once its subject is known. -/
def QuadPattern.behind (t : QuadPattern) : Option Resource → StateM NodeMap (Option Quad)
  | none => return none
  | some r =>
    match t.predicate.instance? s with
    | none => return none
    | some p => do
      let o ← t.object.inTurn supply s
      return do
        let o ← o
        let g ← t.graph.instance? s
        return ⟨r, p, o, g⟩

/-- The quad that a template is for the solution.  It is given up at the first position that stands
for nothing, and labels behind that position are not met. -/
def QuadPattern.inTurn (t : QuadPattern) : StateM NodeMap (Option Quad) := do
  let x ← t.subject.inTurn supply s
  t.behind supply s (x.bind Term.toResource?)

/-- Gathers what the templates are for one solution. -/
def gatherInstances (templates : List QuadPattern) (gathered : List Quad) :
    StateM NodeMap (List Quad) :=
  templates.foldlM (fun gathered t => do
    let q ← t.inTurn supply s
    return addMissing gathered q.toList) gathered

end

/-- Gathers what the templates are for the solutions, with another map for each. -/
def insertionsInTurn (supply : Nat → BlankNode) (templates : List QuadPattern) (taken : Nat) :
    List Binding → List Quad → List Quad
  | [], gathered => gathered
  | s :: S, gathered =>
    let (gathered, m) := gatherInstances supply s templates gathered { taken := taken }
    insertionsInTurn supply templates m.taken S gathered

/-- What templates are for a solution, labels taken through `f`. -/
def instancesBy (templates : List QuadPattern) (s : Binding) (f : BlankNode → BlankNode) :
    List Quad :=
  templates.filterMap fun t => t.instance? (fun n => some (f n)) s

/-- What templates are for solutions, labels taken through a table. -/
def instancesIn (templates : List QuadPattern) (S : List Binding)
    (node : Nat → BlankNode → BlankNode) : List Quad :=
  (S.mapIdx fun i s => instancesBy templates s (node i)).flatten

/-- The labels that are met in a template. -/
def QuadPattern.met (s : Binding) (t : QuadPattern) : List BlankNode :=
  let r := (t.subject.instance? some s).bind Term.toResource?
  t.subject.blanks ++ if r.isSome ∧ (t.predicate.instance? s).isSome then t.object.blanks else []

section

variable {supply : Nat → BlankNode} {s : Binding}

theorem TermPattern.inTurn_instance? (p : TermPattern) :
    InTurn supply (p.inTurn supply s) p.blanks fun f => p.instance? (fun n => some (f n)) s := by
  cases p with
  | iri _ | literal _ | var _ => exact inTurn_pure _
  | blank n => exact (inTurn_node n).map _

/-- Whether a position stands for a resource does not depend on what labels stand for. -/
theorem TermPattern.isSome_resource (p : TermPattern) (f : BlankNode → BlankNode) :
    ((p.instance? (fun n => some (f n)) s).bind Term.toResource?).isSome =
      ((p.instance? some s).bind Term.toResource?).isSome := by
  cases p <;> rfl

theorem QuadPattern.inTurn_behind (t : QuadPattern) (r : Option Resource) :
    InTurn supply (t.behind supply s r)
      (if r.isSome ∧ (t.predicate.instance? s).isSome then t.object.blanks else []) fun f => do
        let r ← r
        let p ← t.predicate.instance? s
        let o ← t.object.instance? (fun n => some (f n)) s
        let g ← t.graph.instance? s
        return ⟨r, p, o, g⟩ := by
  unfold QuadPattern.behind
  cases r with
  | none => exact inTurn_pure none
  | some r =>
      cases t.predicate.instance? s with
      | none => exact inTurn_pure none
      | some p =>
          rw [if_pos ⟨rfl, rfl⟩]
          exact t.object.inTurn_instance?.map fun o => do
            let o ← o
            let g ← t.graph.instance? s
            return Quad.mk r p o g

theorem QuadPattern.inTurn_instance? (t : QuadPattern) :
    InTurn supply (t.inTurn supply s) (t.met s) fun f => t.instance? (fun n => some (f n)) s := by
  refine InTurn.bind (y := fun x => t.behind supply s (x.bind Term.toResource?))
    t.subject.inTurn_instance? (fun f x => do
      let r ← x.bind Term.toResource?
      let p ← t.predicate.instance? s
      let o ← t.object.instance? (fun n => some (f n)) s
      let g ← t.graph.instance? s
      return ⟨r, p, o, g⟩) fun f => ?_
  rw [← t.subject.isSome_resource f]
  exact t.inTurn_behind _

/-- One pass over the templates gathers what the last map makes of them. -/
theorem inTurn_gatherInstances (templates : List QuadPattern) (gathered : List Quad) :
    InTurn supply (gatherInstances supply s templates gathered) (templates.flatMap (·.met s))
      fun f => addMissing gathered (instancesBy templates s f) := by
  induction templates generalizing gathered with
  | nil => exact inTurn_pure gathered
  | cons t templates ih =>
      have hfirst : InTurn supply (do
          let q ← t.inTurn supply s
          return addMissing gathered q.toList) (t.met s) fun f =>
            addMissing gathered (t.instance? (fun n => some (f n)) s).toList :=
        t.inTurn_instance?.map _
      have hvalue : (fun f : BlankNode → BlankNode =>
          addMissing gathered (instancesBy (t :: templates) s f)) = fun f =>
            addMissing (addMissing gathered (t.instance? (fun n => some (f n)) s).toList)
              (instancesBy templates s f) := by
        funext f
        rw [instancesBy, List.filterMap_cons]
        cases t.instance? (fun n => some (f n)) s <;> rfl
      rw [hvalue]
      exact InTurn.bind (y := fun gathered => gatherInstances supply s templates gathered) hfirst
        (fun f gathered => addMissing gathered (instancesBy templates s f)) fun f => ih _

end

/-- The labels that are met for a solution, in the order in which they are met. -/
def metBy (templates : List QuadPattern) (s : Binding) : List BlankNode :=
  (templates.flatMap (·.met s)).eraseDups

/-- The node that a label has in the map of the solution `i`. -/
def nodeInTurn (supply : Nat → BlankNode) (templates : List QuadPattern) (start : Nat)
    (S : List Binding) (i : Nat) : BlankNode → BlankNode :=
  nodeIn supply (rowStart start (S.map (metBy templates)) i)
    ((S[i]?.map (metBy templates)).getD [])

theorem nodeInTurn_eq {supply : Nat → BlankNode} {templates : List QuadPattern} {start : Nat}
    {S : List Binding} {i : Nat} {s : Binding} (h : S[i]? = some s) :
    nodeInTurn supply templates start S i =
      nodeIn supply (rowStart start (S.map (metBy templates)) i) (metBy templates s) := by
  rw [nodeInTurn, h]
  rfl

/-- The pass over all solutions gathers what a table makes of them: each solution has the map that
its labels have filled. -/
theorem insertionsInTurn_eq (supply : Nat → BlankNode) (templates : List QuadPattern)
    (start : Nat) (S : List Binding) (gathered : List Quad) :
    insertionsInTurn supply templates start S gathered =
      addMissing gathered (instancesIn templates S (nodeInTurn supply templates start S)) := by
  induction S generalizing start gathered with
  | nil => rfl
  | cons s S ih =>
      have hpass := @inTurn_gatherInstances supply s templates gathered start [] []
      rw [addMissing_nil] at hpass
      rw [instancesIn, List.mapIdx_cons, List.flatten_cons, addMissing_append]
      exact (congrArg (fun r => insertionsInTurn supply templates r.2.taken S r.1) hpass).trans
        (ih _ _)

/-- If the supply gives other nodes each time, the labels that are met have nodes of their own. -/
theorem nodeInTurn_inj {supply : Nat → BlankNode} {templates : List QuadPattern} {start : Nat}
    {S : List Binding} (hapart : Set.InjOn supply {k | start ≤ k}) {i i' : Nat} {s s' : Binding}
    {l l' : BlankNode} (hs : S[i]? = some s) (hs' : S[i']? = some s') (hl : l ∈ metBy templates s)
    (hl' : l' ∈ metBy templates s') (h : nodeInTurn supply templates start S i l =
      nodeInTurn supply templates start S i' l') : i = i' ∧ l = l' := by
  rw [nodeInTurn_eq hs, nodeInTurn_eq hs'] at h
  have hrow : ∀ {i s}, S[i]? = some s → (S.map (metBy templates))[i]? = some (metBy templates s) :=
    fun hs => by rw [List.getElem?_map, hs, Option.map_some]
  have hlater : ∀ i k, start ≤ rowStart start (S.map (metBy templates)) i + k := fun i k =>
    (rowStart_mono (Nat.zero_le i)).trans (Nat.le_add_right _ k)
  obtain ⟨rfl, hidx⟩ := rowStart_inj (hrow hs) (hrow hs') (List.idxOf_lt_length_of_mem hl)
    (List.idxOf_lt_length_of_mem hl') (hapart (hlater _ _) (hlater _ _) h)
  obtain rfl : s = s' := Option.some.inj (hs.symm.trans hs')
  exact ⟨rfl, (List.idxOf_inj hl).mp hidx⟩

theorem exists_nodeInTurn (supply : Nat → BlankNode) (templates : List QuadPattern) (start : Nat)
    (S : List Binding) (i : Nat) (n : BlankNode) :
    ∃ k, start ≤ k ∧ nodeInTurn supply templates start S i n = supply k :=
  ⟨_, (rowStart_mono (Nat.zero_le i)).trans (Nat.le_add_right _ _), rfl⟩

/-! ## Other new nodes -/

section

variable {f g σ : BlankNode → BlankNode} {s : Binding} {t : QuadPattern} {q : Quad}

theorem Resource.toTerm_of_mem_blanks {r : Resource} {n : BlankNode} (h : n ∈ r.blanks) :
    r.toTerm = .blank n := by
  cases r with
  | iri i => exact absurd h List.not_mem_nil
  | blank n' =>
      rw [List.mem_singleton.mp h]
      rfl

theorem Term.eq_of_mem_blanks {x : Term} {n : BlankNode} (h : n ∈ x.blanks) : x = .blank n := by
  cases x with
  | iri _ | literal _ => exact absurd h List.not_mem_nil
  | blank n' => rw [List.mem_singleton.mp h]

theorem Quad.mentions_of_mem_blanks {n : BlankNode} (h : n ∈ q.blanks) : q.Mentions n :=
  (List.mem_append.mp h).elim (fun h => .inl (Resource.toTerm_of_mem_blanks h))
    fun h => .inr (.inl (Term.eq_of_mem_blanks h))

theorem Resource.toTerm_rename (r : Resource) : (r.rename σ).toTerm = r.toTerm.rename σ := by
  cases r <;> rfl

/-- Where the node `f n` stands for the label `n`, renaming puts `g n`. -/
theorem TermPattern.Stands.rename {p : TermPattern} {x : Term}
    (h : p.Stands (fun n n' => f n = n') s x) (hlabels : ∀ n ∈ p.blanks, σ (f n) = g n)
    (hbound : ∀ n, s.Mentions n → σ n = n) : p.Stands (fun n n' => g n = n') s (x.rename σ) := by
  cases h with
  | iri i => exact .iri i
  | literal l => exact .literal l
  | @blank n n' hnode =>
      subst hnode
      exact .blank (hlabels n (List.mem_singleton_self n)).symm
  | @var v x hv =>
      have hx : x.rename σ = x := by
        cases x with
        | iri _ | literal _ => rfl
        | blank n => exact congrArg Term.blank (hbound n ⟨v, hv⟩)
      rw [hx]
      exact .var hv

theorem QuadPattern.Instance.rename (h : t.Instance (fun n n' => f n = n') s q)
    (hlabels : ∀ n ∈ t.labels, σ (f n) = g n) (hbound : ∀ n, s.Mentions n → σ n = n) :
    t.Instance (fun n n' => g n = n') s (q.rename σ) := by
  obtain ⟨hsubject, hpredicate, hobject, hgraph⟩ := h
  have hname : t.predicate.toTermPattern.blanks = [] := by
    cases t.predicate <;> rfl
  refine ⟨?_, hpredicate.of_no_blanks hname,
    hobject.rename (fun n hn => hlabels n (List.mem_append_right _ hn)) hbound, hgraph⟩
  rw [show (q.rename σ).subject.toTerm = _ from q.subject.toTerm_rename]
  exact hsubject.rename (fun n hn => hlabels n (List.mem_append_left _ hn)) hbound

theorem QuadPattern.instance?_some : t.instance? (fun n => some (f n)) s = some q ↔
    t.Instance (fun n n' => f n = n') s q := by
  simp only [QuadPattern.instance?_eq_some, Option.some.injEq]

/-- Renaming leads from the instance with one table of nodes to the instance with another one. -/
theorem QuadPattern.instance?_rename (hlabels : ∀ n ∈ t.labels, σ (f n) = g n)
    (hbound : ∀ n, s.Mentions n → σ n = n) :
    t.instance? (fun n => some (g n)) s =
      (t.instance? (fun n => some (f n)) s).map (Quad.rename σ) := by
  cases hq : t.instance? (fun n => some (f n)) s with
  | some q => exact instance?_some.mpr ((instance?_some.mp hq).rename hlabels hbound)
  | none =>
      refine Option.eq_none_iff_forall_ne_some.mpr fun q hq' => ?_
      obtain ⟨q', hq', -⟩ := (instance?_some.mp hq').renew f
      rw [instance?_some.mpr hq'] at hq
      cases hq

theorem instancesBy_rename {templates : List QuadPattern}
    (hlabels : ∀ n ∈ templateBlanks templates, σ (f n) = g n)
    (hbound : ∀ n, s.Mentions n → σ n = n) :
    instancesBy templates s g = (instancesBy templates s f).map (Quad.rename σ) := by
  rw [instancesBy, instancesBy, List.map_filterMap]
  refine List.filterMap_congr fun t ht => QuadPattern.instance?_rename (fun n hn => ?_) hbound
  exact hlabels n (List.mem_eraseDups.mpr (List.mem_flatMap.mpr ⟨t, ht, hn⟩))

theorem instancesIn_rename {templates : List QuadPattern} {S : List Binding}
    {node node' : Nat → BlankNode → BlankNode}
    (hnode : ∀ i, ∀ n ∈ templateBlanks templates, σ (node i n) = node' i n)
    (hbound : ∀ s ∈ S, ∀ n, s.Mentions n → σ n = n) :
    instancesIn templates S node' = (instancesIn templates S node).map (Quad.rename σ) := by
  rw [instancesIn, instancesIn, List.map_flatten]
  congr 1
  refine List.mapIdx_eq_iff.mpr fun i => ?_
  rw [List.getElem?_map, List.getElem?_mapIdx, Option.map_map]
  cases hs : S[i]? with
  | none => rfl
  | some s =>
      exact congrArg some
        (instancesBy_rename (hnode i) (hbound s (List.mem_of_getElem? hs))).symm

/-- All labels of a template that has an instance are met. -/
theorem QuadPattern.Instance.met_eq (h : t.Instance (fun n n' => f n = n') s q) :
    t.met s = t.labels := by
  have hq : t.instance? (fun n => some (f n)) s = some q := instance?_some.mpr h
  simp only [QuadPattern.instance?, Option.bind_eq_bind, Option.bind_eq_some_iff] at hq
  obtain ⟨r, hr, p, hp, -⟩ := hq
  rw [← Option.bind_eq_some_iff] at hr
  rw [QuadPattern.met, ← t.subject.isSome_resource f, hr, hp]
  rfl

end

namespace Modify

variable {m : Modify} {c : Content} {S : List Binding} {node : Nat → BlankNode → BlankNode}
  {i : Nat} {s : Binding} {t : QuadPattern} {q : Quad}

/-- New nodes can be renamed at will. -/
theorem NewNodes.exists_rename (hnew : m.NewNodes c S node) (node' : Nat → BlankNode → BlankNode) :
    ∃ σ : BlankNode → BlankNode,
      (∀ i, ∀ n ∈ templateBlanks m.insert, σ (node i n) = node' i n) ∧
        ∀ n, m.Meets c S n → σ n = n := by
  let place := Nat × {n // n ∈ templateBlanks m.insert}
  have hinj : Function.Injective fun x : place => node x.1 x.2 := by
    rintro ⟨i, n, hn⟩ ⟨i', n', hn'⟩ h
    obtain ⟨rfl, rfl⟩ := hnew.apart hn hn' h
    rfl
  refine ⟨Function.extend (fun x : place => node x.1 x.2) (fun x => node' x.1 x.2) id,
    fun i n hn => hinj.extend_apply _ id ⟨i, n, hn⟩, fun n hmeets => ?_⟩
  refine Function.extend_apply' _ _ _ ?_
  rintro ⟨⟨i, l, hl⟩, rfl⟩
  exact hnew.unmet hl hmeets

theorem mem_instancesIn_iff : q ∈ instancesIn m.insert S node ↔ ∃ i t, m.Yields S node i t q := by
  simp only [instancesIn, instancesBy, List.mem_flatten, List.mem_mapIdx]
  constructor
  · rintro ⟨_, ⟨i, hi, rfl⟩, hq⟩
    obtain ⟨t, ht, hq⟩ := List.mem_filterMap.mp hq
    exact ⟨i, t, S[i], List.getElem?_eq_getElem hi, ht, QuadPattern.instance?_some.mp hq⟩
  · rintro ⟨i, t, s, hs, ht, hinstance⟩
    obtain ⟨hi, rfl⟩ := List.getElem?_eq_some_iff.mp hs
    refine ⟨_, ⟨i, hi, rfl⟩, List.mem_filterMap.mpr ⟨t, ht, ?_⟩⟩
    exact QuadPattern.instance?_some.mpr hinstance

/-- The insertions are what the table of `NewNodes` makes of the solutions. -/
theorem insertions_eq (start : Nat) : Step.insertions start m.insert S =
    (instancesIn m.insert S fun i => freshNode
      (start + i * (templateBlanks m.insert).length) (templateBlanks m.insert)).eraseDups := by
  rw [Step.insertions, instancesIn, List.mapIdx_eq_zipIdx_map]
  rfl

/-- A blank node of what is inserted is the node of a label that is met, or a solution binds it. -/
theorem node_cases {n : BlankNode} (hn : n ∈ quadBlanks (instancesIn m.insert S node)) :
    (∃ i s l, S[i]? = some s ∧ l ∈ metBy m.insert s ∧ l ∈ templateBlanks m.insert ∧
      node i l = n) ∨ m.Meets c S n := by
  obtain ⟨q, hq, hn⟩ := mem_quadBlanks.mp hn
  obtain ⟨i, t, hyields⟩ := mem_instancesIn_iff.mp hq
  rcases hyields.mentions_cases (Quad.mentions_of_mem_blanks hn) with ⟨l, hl, hnode⟩ | hbound
  · obtain ⟨s, hs, ht, hinstance⟩ := hyields
    refine .inl ⟨i, s, l, hs, ?_, mem_templateBlanks ht hl, hnode⟩
    exact List.mem_eraseDups.mpr (List.mem_flatMap.mpr ⟨t, ht, hinstance.met_eq ▸ hl⟩)
  · obtain ⟨s, hs, hmentions⟩ := hbound
    exact .inr (.inr (.inl ⟨s, List.mem_of_getElem? hs, hmentions⟩))

/-- A renaming keeps the blank nodes of what is inserted apart if it leads the labels that are met
to nodes of their own, which are new, and keeps what the update meets. -/
theorem injOn_of_rename {node' : Nat → BlankNode → BlankNode} {σ : BlankNode → BlankNode}
    (hσ : ∀ i, ∀ n ∈ templateBlanks m.insert, σ (node i n) = node' i n)
    (hmet : ∀ n, m.Meets c S n → σ n = n) (hnew : ∀ i n, ¬ m.Meets c S (node' i n))
    (hapart : ∀ {i i' s s' l l'}, S[i]? = some s → S[i']? = some s' → l ∈ metBy m.insert s →
      l' ∈ metBy m.insert s' → node' i l = node' i' l' → i = i' ∧ l = l') :
    Set.InjOn σ {n | n ∈ quadBlanks (instancesIn m.insert S node)} := by
  intro n hn n' hn' heq
  rcases node_cases (c := c) hn with ⟨i, s, l, hs, hl, hlabel, rfl⟩ | hbound <;>
    rcases node_cases (c := c) hn' with ⟨i', s', l', hs', hl', hlabel', rfl⟩ | hbound'
  · rw [hσ i l hlabel, hσ i' l' hlabel'] at heq
    obtain ⟨rfl, rfl⟩ := hapart hs hs' hl hl' heq
    rfl
  · rw [hσ i l hlabel, hmet n' hbound'] at heq
    exact absurd (heq ▸ hbound') (hnew i l)
  · rw [hσ i' l' hlabel', hmet n hbound] at heq
    exact absurd (heq ▸ hbound) (hnew i' l')
  · rwa [hmet n hbound, hmet n' hbound'] at heq

/-- The pass that fills a map for each solution inserts the same quads up to the names of new nodes.
The supply must give other nodes each time, and none that the update meets. -/
theorem insertions_inTurn {start taken : Nat} {supply : Nat → BlankNode}
    (hstart : ∀ k, start ≤ k → ¬ m.Meets c S (.fresh k))
    (hsupply : ∀ k, taken ≤ k → ¬ m.Meets c S (supply k))
    (hapart : Set.InjOn supply {k | taken ≤ k}) :
    ∃ σ : BlankNode → BlankNode,
      Set.InjOn σ {n | n ∈ quadBlanks (Step.insertions start m.insert S)} ∧
      (∀ n, m.Meets c S n → σ n = n) ∧
      insertionsInTurn supply m.insert taken S [] =
        (Step.insertions start m.insert S).map (Quad.rename σ) := by
  obtain ⟨σ, hσ, hmet⟩ := (newNodes_freshNode hstart).exists_rename
    (nodeInTurn supply m.insert taken S)
  have hnew : ∀ i n, ¬ m.Meets c S (nodeInTurn supply m.insert taken S i n) := by
    intro i n
    obtain ⟨k, hle, hk⟩ := exists_nodeInTurn supply m.insert taken S i n
    rw [hk]
    exact hsupply k hle
  have hinj := injOn_of_rename hσ hmet hnew (nodeInTurn_inj hapart)
  refine ⟨σ, ?_, hmet, ?_⟩
  · rw [insertions_eq]
    refine hinj.mono fun n hn => ?_
    obtain ⟨q, hq, hn⟩ := mem_quadBlanks.mp hn
    exact mem_quadBlanks.mpr ⟨q, List.mem_eraseDups.mp hq, hn⟩
  · rw [insertionsInTurn_eq, addMissing_nil, insertions_eq, ← eraseDups_rename hinj,
      instancesIn_rename hσ fun s hs n hn => hmet n (.inr (.inl ⟨s, hs, hn⟩))]

end Modify

end GraphStore
