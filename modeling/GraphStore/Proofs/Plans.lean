/-
# `GraphStore.Proofs.Plans` — the stages of an operation

Every operation is carried out in four stages.

    ask ─ … ─ ask ─▶ look ─▶ ask ─ … ─ ask ─▶ the rest
    └───────────────── gate ─────────────┘

The first questions are written in the operation.  The others are about what it finds: the graphs
that there are, or the quads that the solutions of its pattern come to.  `plan env user input a` are
the stages of the action `a`, as data, and `steps_plan` says that the executor goes through them.

So a property that sequencing keeps is one of the whole action, if it is one of questions, of
lookups and of changes, and of the ways in which the action can break off (`Compositional.action`).
-/
import GraphStore.Proofs.Compositional

namespace GraphStore

/-- The action fits together: an operation on graphs has the source and the destination that it
takes. -/
def Action.Formed : Action → Prop
  | .graph op => op.malformed? = none
  | .create .. | .insertData _ | .deleteData _ | .modify _ => True

/-- The action does not mind graphs in the wrong state. -/
def Action.Silent : Action → Prop
  | .create _ silent => silent = true
  | .graph op => op.silent = true
  | .insertData _ | .deleteData _ | .modify _ => True

namespace Step

open BatchM

variable {env : Environment} {user : User} {accesses : List (AccessKind × GraphName)}

/-! ## Lists of questions -/

/-- Asks for accesses, one after the other. -/
def ask (env : Environment) (user : User) (accesses : List (AccessKind × GraphName)) : Step Unit :=
  accesses.forM fun c => check env user c.1 c.2

theorem ask_singleton (kind : AccessKind) (g : GraphName) :
    ask env user [(kind, g)] = check env user kind g := by
  show (check env user kind g >>= fun _ => pure ()) = _
  exact bind_pure _

theorem ask_append (accesses' : List (AccessKind × GraphName)) :
    ask env user (accesses ++ accesses') = (do ask env user accesses; ask env user accesses') := by
  induction accesses with
  | nil => rfl
  | cons c accesses ih =>
      show (check env user c.1 c.2 >>= fun _ => ask env user (accesses ++ accesses')) =
        ((check env user c.1 c.2 >>= fun _ => ask env user accesses) >>= fun _ => _)
      rw [ih]
      exact (bind_assoc _ _ _).symm

theorem ask_map {δ : Type} (kind : AccessKind) (g : δ → GraphName) (xs : List δ) :
    ask env user (xs.map fun x => (kind, g x)) = xs.forM fun x => check env user kind (g x) := by
  induction xs with
  | nil => rfl
  | cons x xs ih => exact congrArg (check env user kind (g x) >>= fun _ => ·) ih

theorem ask_kind (kind : AccessKind) (graphs : List GraphName) :
    ask env user (graphs.map (kind, ·)) = graphs.forM (check env user kind) :=
  ask_map kind id graphs

/-! ## Plans -/

/-- The stages of an operation. -/
structure Plan where
  /-- What is found by looking. -/
  Found : Type
  first : List (AccessKind × GraphName)
  look : Step Found
  second : Found → List (AccessKind × GraphName)
  rest : Found → Step Unit

namespace Plan

/-- The stages up to the last question. -/
def gate (env : Environment) (user : User) (p : Plan) : Step p.Found := do
  ask env user p.first
  let found ← p.look
  ask env user (p.second found)
  return found

/-- All stages. -/
def steps (env : Environment) (user : User) (p : Plan) : Step Unit := do
  let found ← p.gate env user
  p.rest found

/-- Questions that are written in the operation, and then the rest. -/
def direct (accesses : List (AccessKind × GraphName)) (rest : Step Unit) : Plan :=
  ⟨Unit, accesses, pure (), fun _ => [], fun _ => rest⟩

theorem steps_eq (p : Plan) : p.steps env user = (do
    ask env user p.first
    let found ← p.look
    ask env user (p.second found)
    p.rest found) := by
  simp only [steps, gate, bind_assoc, pure_bind]

theorem steps_direct (rest : Step Unit) :
    (direct accesses rest).steps env user = (do ask env user accesses; rest) := by
  rw [steps_eq]
  simp only [direct, pure_bind]
  rfl

end Plan

/-- DROP and CLEAR.  The graph of a named target is asked for again when it has been found. -/
def removalPlan (env : Environment) (op : GraphOperation) : Plan :=
  let kind := removalKind op.action
  let remove (graphs : List GraphName) : Step Unit := graphs.forM fun g => do
    clearGraph env g
    if op.action = .drop then removeGraph env g
  match op.source with
  | .named r => {
      Found := Bool
      first := [(kind, .named r)]
      look := (reader env).containsGraph r
      second found := if found then [(kind, .named r)] else []
      rest found := if found then remove [.named r]
        else unlessSilent op.silent (.graphDoesNotExist r) }
  | .defaultGraph => .direct [(kind, .default)] (remove [.default])
  | .namedGraphs => {
      Found := List Resource
      first := []
      look := (reader env).namedGraphs
      second named := (named.map GraphName.named).map (kind, ·)
      rest named := remove (named.map .named) }
  | .allGraphs => {
      Found := List Resource
      first := []
      look := (reader env).namedGraphs
      second named := (GraphName.default :: named.map GraphName.named).map (kind, ·)
      rest named := remove (.default :: named.map .named) }

/-- ADD, COPY and MOVE. -/
def transferPlan (env : Environment) (action : GraphAction) (source destination : GraphName)
    (silent : Bool) : Plan :=
  .direct (transferChecks action source destination) do
    if source = destination then return
    match ← absent? env source with
    | some g => unlessSilent silent (.graphDoesNotExist g)
    | none =>
      copyQuads env action source destination
      if action = .move then
        clearGraph env source
        removeGraph env source

/-- A pattern-driven update. -/
def modifyPlan (env : Environment) (user : User) (m : Modify) (input : Option Binding) : Plan where
  Found := List Binding × Nat
  first := (m.delete.filterMap (·.graph.constant?)).map (.delete, ·) ++
    (m.insert.filterMap (·.graph.constant?)).map (.update, ·)
  look := do
    let solutions ← solve env user m input
    let start ← takeNodes (solutions.length * (templateBlanks m.insert).length)
    return (solutions, start)
  second found :=
    (deletions m.delete found.1).map (fun q => (.delete, q.graph)) ++
      (insertions found.2 m.insert found.1).map fun q => (.update, q.graph)
  rest found := do
    (deletions m.delete found.1).forM (remove env)
    (insertions found.2 m.insert found.1).forM (insert env)

/-- The stages of an action. -/
def plan (env : Environment) (user : User) (input : Option Binding) : Action → Plan
  | .create r silent => .direct [(.create, .named r)] do
    if ← (reader env).containsGraph r then
      unlessSilent silent (.graphAlreadyExists r)
    else
      insertGraph env r
  | .graph op =>
    match op.malformed? with
    | some e => .direct [] (throw (.malformed e))
    | none =>
      match op.source.single?, op.destination with
      | some source, some destination =>
        transferPlan env op.action source destination op.silent
      | _, _ => removalPlan env op
  | .insertData quads =>
    .direct ((quads.map Quad.graph).eraseDups.map (.insertData, ·)) (quads.forM (insert env))
  | .deleteData quads =>
    .direct ((quads.map Quad.graph).eraseDups.map (.deleteData, ·)) (quads.forM (remove env))
  | .modify m => modifyPlan env user m input

theorem steps_removalPlan (op : GraphOperation) :
    (removalPlan env op).steps env user = dropOrClear env user op := by
  unfold removalPlan dropOrClear
  cases op.source with
  | named r =>
      rw [Plan.steps_eq]
      dsimp only
      rw [ask_singleton]
      refine congrArg _ (funext fun _ => congrArg _ (funext fun found => ?_))
      cases found with
      | true => exact congrArg (· >>= _) (ask_kind (removalKind op.action) [.named r])
      | false => exact pure_bind _ _
  | defaultGraph =>
      rw [Plan.steps_direct]
      exact congrArg (· >>= _) (ask_kind (removalKind op.action) [.default])
  | namedGraphs | allGraphs =>
      rw [Plan.steps_eq]
      dsimp only
      simp only [ask_kind]
      rfl

theorem steps_modifyPlan (m : Modify) (input : Option Binding) :
    (modifyPlan env user m input).steps env user = modifyQuads env user m input := by
  rw [Plan.steps_eq]
  simp only [modifyPlan, ask_append, ask_kind, ask_map, bind_assoc, pure_bind]
  rfl

/-- The stages of an action are what the executor does. -/
theorem steps_plan (input : Option Binding) (a : Action) :
    (plan env user input a).steps env user = action env user input a := by
  cases a with
  | create r silent =>
      refine (Plan.steps_direct _).trans ?_
      rw [ask_singleton]
      rfl
  | graph op =>
      unfold plan action graphOperation
      dsimp only
      cases op.malformed? with
      | some e => exact Plan.steps_direct _
      | none =>
          cases op.source.single? with
          | none => exact steps_removalPlan op
          | some source =>
              cases op.destination with
              | none => exact steps_removalPlan op
              | some destination => exact Plan.steps_direct _
  | insertData quads =>
      refine (Plan.steps_direct _).trans ?_
      rw [ask_kind]
      rfl
  | deleteData quads =>
      refine (Plan.steps_direct _).trans ?_
      rw [ask_kind]
      rfl
  | modify m => exact steps_modifyPlan m input

/-! ## What the stages are made of -/

/-- The look and the rest of the plan have the property. -/
structure Plan.Made (P : (α : Type) → Step α → Prop) (p : Plan) : Prop where
  look : P _ p.look
  rest : ∀ found, P _ (p.rest found)

section

variable {P : (α : Type) → Step α → Prop} (hP : Handling env P)

include hP

theorem Handling.unlessSilent {silent : Bool} {e : StructuralError}
    (h : silent ≠ true → P Unit (throw (.structural e))) : P _ (Step.unlessSilent silent e) := by
  cases silent with
  | true => exact hP.pure ()
  | false => exact h Bool.false_ne_true

theorem Handling.made_direct {rest : Step Unit} (hrest : P _ rest) :
    (Plan.direct accesses rest).Made P := ⟨hP.pure (), fun _ => hrest⟩

theorem Handling.made_removalPlan {op : GraphOperation}
    (hloud : op.silent ≠ true → ∀ e, P Unit (throw (.structural e))) :
    (removalPlan env op).Made P := by
  unfold removalPlan
  cases op.source with
  | named r =>
      refine ⟨hP.containsGraph r, fun found => ?_⟩
      cases found with
      | true => exact hP.removeEach op.action _
      | false => exact hP.unlessSilent fun h => hloud h _
  | defaultGraph => exact hP.made_direct (hP.removeEach op.action _)
  | namedGraphs | allGraphs => exact ⟨hP.namedGraphs, fun _ => hP.removeEach op.action _⟩

theorem Handling.made_transferPlan {action : GraphAction} {source destination : GraphName}
    {silent : Bool} (hloud : silent ≠ true → ∀ e, P Unit (throw (.structural e))) :
    (transferPlan env action source destination silent).Made P := by
  refine hP.made_direct ?_
  split
  · exact hP.pure ()
  · refine hP.bind (hP.absent? source) fun missing => ?_
    cases missing with
    | some g => exact hP.unlessSilent fun h => hloud h _
    | none => exact hP.transferQuads action source destination

theorem Handling.made_modifyPlan {m : Modify} {input : Option Binding}
    (hsolve : P _ (solve env user m input)) (hnodes : ∀ count, P _ (takeNodes count)) :
    (modifyPlan env user m input).Made P :=
  ⟨hP.bind hsolve fun _ => hP.bind (hnodes _) fun _ => hP.pure _,
    fun _ => hP.bind (hP.forM hP.remove _) fun _ => hP.forM hP.insert _⟩

/-- A property of lookups and changes is one of the stages, if it holds of the ways in which the
action can break off and of the evaluation of its pattern. -/
theorem Handling.made_plan {input : Option Binding} {a : Action}
    (hloud : ¬ a.Silent → ∀ e, P Unit (throw (.structural e)))
    (hmisfit : ¬ a.Formed → ∀ e, P Unit (throw (.malformed e)))
    (hpattern : ∀ m, a = .modify m → P _ (solve env user m input) ∧ ∀ n, P _ (takeNodes n)) :
    (plan env user input a).Made P := by
  cases a with
  | create r silent =>
      refine hP.made_direct (hP.bind (hP.containsGraph r) fun found => ?_)
      cases found with
      | true => exact hP.unlessSilent fun h => hloud h _
      | false => exact hP.insertGraph r
  | graph op =>
      unfold plan
      dsimp only
      cases hmalformed : op.malformed? with
      | some e =>
          refine hP.made_direct (hmisfit (fun hformed => ?_) e)
          exact Option.some_ne_none e (hmalformed.symm.trans hformed)
      | none =>
          cases op.source.single? with
          | none => exact hP.made_removalPlan hloud
          | some source =>
              cases op.destination with
              | none => exact hP.made_removalPlan hloud
              | some destination => exact hP.made_transferPlan hloud
  | insertData quads => exact hP.made_direct (hP.forM hP.insert quads)
  | deleteData quads => exact hP.made_direct (hP.forM hP.remove quads)
  | modify m => exact hP.made_modifyPlan (hpattern m rfl).1 (hpattern m rfl).2

end

/-- A property that moreover holds of questions is one of the action. -/
theorem Compositional.action {P : (α : Type) → Step α → Prop} (hP : Compositional env P)
    {input : Option Binding} {a : Action}
    (hloud : ¬ a.Silent → ∀ e, P Unit (throw (.structural e)))
    (hmisfit : ¬ a.Formed → ∀ e, P Unit (throw (.malformed e)))
    (hpattern : ∀ m, a = .modify m → P _ (solve env user m input) ∧ ∀ n, P _ (takeNodes n)) :
    P _ (Step.action env user input a) := by
  have hmade : (plan env user input a).Made P := hP.toHandling.made_plan hloud hmisfit hpattern
  rw [← steps_plan, Plan.steps_eq]
  refine hP.bind (hP.checks user Prod.fst Prod.snd _) fun _ => hP.bind hmade.look fun found => ?_
  exact hP.bind (hP.checks user Prod.fst Prod.snd _) fun _ => hmade.rest found

end Step

end GraphStore
