/-
Execution of update batches.

A batch runs in one transaction.  The first operation that fails aborts it and nothing of it can
be seen; otherwise it is committed and every operation answers what it changed.  An operation
asks the policy once for each kind of access and graph, before its first change.
-/
import GraphStore.Change
import GraphStore.Options
import GraphStore.Session
import GraphStore.Template

namespace GraphStore

/-- What execution depends on besides the store. -/
structure Environment where
  policy : Policy := Policy.permitAll
  evaluator : Evaluator := Evaluator.scanning
  options : Options := {}
  faults : Faults := Faults.none

/-- Steps of an operation. -/
abbrev Step := BatchM UpdateError

namespace Step

/-- Refuses the operation if the policy does; what has passed is not asked again. -/
def check (env : Environment) (user : User) (kind : AccessKind) (g : GraphName) : Step Unit := do
  let b ← get
  if (kind, g) ∈ b.passed then return
  set { b with
    passed := b.passed ++ [(kind, g)]
    journal := { b.journal with checks := b.journal.checks ++ [Check.mk kind g user] } }
  match env.policy.check kind g user with
  | .ok () => return
  | .error e => throw (.accessDenied e)

/-- The lookups of the transaction. -/
def reader (env : Environment) : Reader Step := BatchM.reader env.faults UpdateError.storage

/-- The quads of a graph. -/
def quadsOf (env : Environment) (g : GraphName) : Step (List Quad) :=
  (reader env).find (some g) .any

/-- A change of the transaction. -/
def write (env : Environment) (act : Transaction → Bool × Transaction) : Step Bool :=
  BatchM.mapError UpdateError.storage (BatchM.call env.faults .write act)

/-- Adds a quad and notes it if it is new.  It is noted also if changes are not tracked, where the
note serves no purpose: nothing is decided by the notes, and `operation` leaves them out of its
answer then. -/
def insert (env : Environment) (q : Quad) : Step Unit := do
  if ← write env (·.insert q) then
    modify fun b => { b with inserted := b.inserted ++ [q] }

/-- Removes a quad and notes it if it was there, whether or not changes are tracked. -/
def remove (env : Environment) (q : Quad) : Step Unit := do
  if ← write env (·.remove q) then
    modify fun b => { b with deleted := b.deleted ++ [q] }

/-- Removes every quad of a graph; the graph stays created. -/
def clearGraph (env : Environment) (g : GraphName) : Step Unit := do
  let quads ← quadsOf env g
  quads.forM (remove env)

/-- Creates a graph. -/
def insertGraph (env : Environment) (g : Resource) : Step Unit := do
  let _ ← write env (·.insertGraph g)

/-- Removes a graph with its quads; the default graph stays as it is. -/
def removeGraph (env : Environment) : GraphName → Step Unit
  | .default => return
  | .named g => do
    let _ ← write env (·.removeGraph g)

/-- A graph in the wrong state is an error unless the operation is silent. -/
def unlessSilent (silent : Bool) (e : StructuralError) : Step Unit :=
  if silent then return else throw (.structural e)

/-- CREATE. -/
def create (env : Environment) (user : User) (g : Resource) (silent : Bool) : Step Unit := do
  check env user .create (.named g)
  if ← (reader env).containsGraph g then
    unlessSilent silent (.graphAlreadyExists g)
  else
    insertGraph env g

/-- The kind of access that DROP or CLEAR needs. -/
def removalKind : GraphAction → AccessKind
  | .drop => .drop
  | _ => .clear

/-- Removes the quads of graphs, and with DROP the graphs too. -/
def removeAll (env : Environment) (user : User) (action : GraphAction) (graphs : List GraphName) :
    Step Unit := do
  graphs.forM (check env user (removalKind action))
  graphs.forM fun g => do
    clearGraph env g
    if action = .drop then removeGraph env g

/-- DROP and CLEAR. -/
def dropOrClear (env : Environment) (user : User) (op : GraphOperation) : Step Unit := do
  match op.source with
  | .named g =>
    check env user (removalKind op.action) (.named g)
    if ← (reader env).containsGraph g then
      removeAll env user op.action [.named g]
    else
      unlessSilent op.silent (.graphDoesNotExist g)
  | .defaultGraph => removeAll env user op.action [.default]
  | .namedGraphs =>
    let named ← (reader env).namedGraphs
    removeAll env user op.action (named.map .named)
  | .allGraphs =>
    let named ← (reader env).namedGraphs
    removeAll env user op.action (.default :: named.map .named)

/-- The accesses that a transfer needs. -/
def transferChecks (action : GraphAction) (source destination : GraphName) :
    List (AccessKind × GraphName) :=
  [(.query, source)] ++ (if action = .add then [] else [(.clear, destination)]) ++
    [(.update, destination)] ++ (if action = .move then [(.drop, source)] else [])

/-- Brings the quads of the source to the destination.  Unless the action is ADD, what only the
destination holds goes; an empty source still leaves an existing destination behind. -/
def copyQuads (env : Environment) (action : GraphAction) (source destination : GraphName) :
    Step Unit := do
  let quads ← quadsOf env source
  if action ≠ .add then
    let old ← quadsOf env destination
    let stale := old.filter fun q => !quads.any (·.triple == q.triple)
    stale.forM (remove env)
  if quads.isEmpty then
    match destination with
    | .named g => insertGraph env g
    | .default => pure ()
  quads.forM fun q => insert env (q.triple.inGraph destination)

/-- Whether a graph exists; the default graph always does. -/
def absent? (env : Environment) : GraphName → Step (Option Resource)
  | .default => return none
  | .named g => do
    let found ← (reader env).containsGraph g
    return if found then none else some g

/-- ADD, COPY and MOVE. -/
def transfer (env : Environment) (user : User) (action : GraphAction)
    (source destination : GraphName) (silent : Bool) : Step Unit := do
  (transferChecks action source destination).forM fun c => check env user c.1 c.2
  if source = destination then return
  match ← absent? env source with
  | some g => unlessSilent silent (.graphDoesNotExist g)
  | none =>
    copyQuads env action source destination
    if action = .move then
      clearGraph env source
      removeGraph env source

/-- An operation on whole graphs. -/
def graphOperation (env : Environment) (user : User) (op : GraphOperation) : Step Unit := do
  match op.malformed? with
  | some e => throw (.malformed e)
  | none =>
    match op.source.single?, op.destination with
    | some source, some destination =>
      transfer env user op.action source destination op.silent
    | _, _ => dropOrClear env user op

/-- INSERT DATA. -/
def insertData (env : Environment) (user : User) (quads : List Quad) : Step Unit := do
  (quads.map Quad.graph).eraseDups.forM (check env user .insertData)
  quads.forM (insert env)

/-- DELETE DATA. -/
def deleteData (env : Environment) (user : User) (quads : List Quad) : Step Unit := do
  (quads.map Quad.graph).eraseDups.forM (check env user .deleteData)
  quads.forM (remove env)

/-- The distinct deletions that the solutions ask for. -/
def deletions (templates : List QuadPattern) (solutions : List Binding) : List Quad :=
  (solutions.flatMap fun b => templates.filterMap (QuadPattern.deletion? b)).eraseDups

/-- The distinct insertions that the solutions ask for, their new blank nodes numbered from
`start` on: each solution has one for every blank node of the templates. -/
def insertions (start : Nat) (templates : List QuadPattern) (solutions : List Binding) :
    List Quad :=
  let blanks := templateBlanks templates
  (solutions.zipIdx.flatMap fun (b, i) =>
    templates.filterMap (QuadPattern.insertion? (start + i * blanks.length) blanks b)).eraseDups

/-- The solutions of the pattern over what the user may query. -/
def solve (env : Environment) (user : User) (m : Modify) (input : Option Binding) :
    Step (List Binding) :=
  let reader := (BatchM.reader env.faults EvaluationError.storage).restrict env.policy user
  BatchM.mapError UpdateError.evaluation
    (env.evaluator.run reader m.pattern m.scope (m.input.or input))

/-- The number of the next new blank node, `count` of which are taken. -/
def takeNodes (count : Nat) : Step Nat := do
  let b ← get
  set { b with journal := { b.journal with nextNode := b.journal.nextNode + count } }
  return b.journal.nextNode

/-- A pattern-driven update: all deletions are made before all insertions. -/
def modifyQuads (env : Environment) (user : User) (m : Modify) (input : Option Binding) :
    Step Unit := do
  (m.delete.filterMap (·.graph.constant?)).forM (check env user .delete)
  (m.insert.filterMap (·.graph.constant?)).forM (check env user .update)
  let solutions ← solve env user m input
  let start ← takeNodes (solutions.length * (templateBlanks m.insert).length)
  let removed := deletions m.delete solutions
  let added := insertions start m.insert solutions
  removed.forM fun q => check env user .delete q.graph
  added.forM fun q => check env user .update q.graph
  removed.forM (remove env)
  added.forM (insert env)

/-- The steps of an operation. -/
def action (env : Environment) (user : User) (input : Option Binding) : Action → Step Unit
  | .create g silent => create env user g silent
  | .graph op => graphOperation env user op
  | .insertData quads => insertData env user quads
  | .deleteData quads => deleteData env user quads
  | .modify m => modifyQuads env user m input

/-- Runs an operation as its own user, or else the one of the batch.  The notes are its answer if
changes are tracked; otherwise there are no lists in it. -/
def operation (env : Environment) (user : User) (input : Option Binding) (op : Operation) :
    Step Change := do
  modify fun b => { b with passed := [], deleted := [], inserted := [] }
  action env (op.user.getD user) input op.action
  let b ← get
  return if env.options.trackChanges then ⟨some b.deleted, some b.inserted⟩
    else Change.untracked

end Step

/-- A pattern-driven update without a dataset of its own takes that of the batch. -/
def Action.withScope (scope : Option Using) : Action → Action
  | .modify m => .modify { m with scope := m.scope.or scope }
  | a => a

/-- What a batch is called with. -/
structure BatchCall where
  /-- The user, or the default user if there is none. -/
  user : Option User := none
  /-- The dataset of operations without one. -/
  scope : Option Using := none
  /-- The input of operations without one. -/
  input : Option Binding := none
deriving Inhabited

/-- Runs the operations of a stream in order, up to the first that fails. -/
def Step.operations (env : Environment) (call : BatchCall) :
    List (Except UpdateError Operation) → Step (List Change)
  | [] => return []
  | item :: rest => do
    modify fun b => { b with journal := { b.journal with pulled := b.journal.pulled + 1 } }
    match item with
    | .error e => throw e
    | .ok op =>
      let op := { op with action := op.action.withScope call.scope }
      let change ← Step.operation env (call.user.getD env.options.defaultUser) call.input op
      let changes ← Step.operations env call rest
      return change :: changes

/-- The text of a commit that meets a changed content. -/
def contentChanged : StorageError :=
  .corruption "The committed content changed while a write transaction was open"

namespace Session

/-- Records a store call outside of a batch. -/
def call (s : Session) (faults : Faults) (kind : CallKind) : Except StorageError Unit × Session :=
  let (outcome, journal) := s.journal.call faults kind
  (outcome, { s with journal := journal })

/-- Commits a transaction: publishes its content unless the call fails. -/
def commit (s : Session) (faults : Faults) (tx : Transaction) :
    Except StorageError Unit × Session :=
  match s.call faults .commit with
  | (.error e, s) => (.error e, s)
  | (.ok (), s) =>
    match tx.publish s.content with
    | some content => (.ok (), { s with content := content })
    | none => (.error contentChanged, s)

/-- Runs steps in a transaction, which is committed if they succeed and aborted if they fail; an
abort that fails too changes nothing about the error. -/
def transact {α : Type} (s : Session) (faults : Faults) (steps : Step α) :
    Except UpdateError α × Session :=
  match s.call faults .begin with
  | (.error e, s) => (.error (.storage e), s)
  | (.ok (), s) =>
    match steps.run { tx := .start s.content, journal := s.journal } with
    | (.ok a, b) =>
      match commit { s with journal := b.journal } faults b.tx with
      | (.ok (), s) => (.ok a, s)
      | (.error e, s) => (.error (.storage e), s)
    | (.error e, b) =>
      let (_, s) := call { s with journal := b.journal } faults .abort
      (.error e, s)

/-- Executes the operations of a stream as one batch. -/
def executeStream (s : Session) (env : Environment) (call : BatchCall)
    (items : List (Except UpdateError Operation)) : Except UpdateError (List Change) × Session :=
  s.transact env.faults (Step.operations env call items)

/-- Executes operations as one batch. -/
def execute (s : Session) (env : Environment) (call : BatchCall) (ops : List Operation) :
    Except UpdateError (List Change) × Session :=
  s.executeStream env call (ops.map .ok)

/-- Makes changes in a transaction of their own, past all policies, and answers how many had an
effect.  If the abort after a failed change fails too, its error is reported. -/
def write (s : Session) (faults : Faults) (acts : List (Transaction → Bool × Transaction)) :
    Except StorageError Nat × Session :=
  match s.call faults .begin with
  | (.error e, s) => (.error e, s)
  | (.ok (), s) =>
    let steps : BatchM StorageError (List Bool) := acts.mapM (BatchM.call faults .write)
    match steps.run { tx := .start s.content, journal := s.journal } with
    | (.ok effects, b) =>
      match commit { s with journal := b.journal } faults b.tx with
      | (.ok (), s) => (.ok (effects.count true), s)
      | (.error e, s) => (.error e, s)
    | (.error e, b) =>
      match call { s with journal := b.journal } faults .abort with
      | (.ok (), s) => (.error e, s)
      | (.error abortError, s) => (.error abortError, s)

/-- Adds quads; answers how many were new. -/
def extend (s : Session) (faults : Faults) (quads : List Quad) :
    Except StorageError Nat × Session :=
  s.write faults (quads.map fun q tx => tx.insert q)

end Session

end GraphStore
