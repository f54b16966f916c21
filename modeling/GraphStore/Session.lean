/-
Sessions: a committed content and a record of what has been done to it.

Every call of the store is recorded before it acts, and a schedule may let it fail; a call that
fails has done nothing.  While a batch is open it works on a transaction of its own, and the
committed content is not part of its state.
-/
import GraphStore.Error
import GraphStore.Evaluation.Solutions
import GraphStore.Transaction

namespace GraphStore

/-- The classes of store calls. -/
inductive CallKind where
  /-- Opening a transaction. -/
  | begin
  | commit
  | abort
  /-- Changing a transaction. -/
  | write
  /-- Looking up quads in a transaction. -/
  | read
  /-- Looking up named graphs in a transaction. -/
  | graphs
deriving DecidableEq, Inhabited, Repr

/-- The failure of the `n`-th call of a class, counted from zero. -/
abbrev Faults := CallKind → Nat → Option StorageError

/-- Every call succeeds. -/
def Faults.none : Faults := fun _ _ => Option.none

/-- A question that was put to the policy. -/
structure Check where
  kind : AccessKind
  graph : GraphName
  user : User
deriving DecidableEq, Inhabited, Repr

/-- A pattern that was handed to an evaluator, and the quads it could see. -/
structure Evaluation where
  pattern : Pattern
  scope : Option Using
  input : Option Binding
  visible : List Quad
deriving Inhabited

/-- What has been done: store calls, questions, recorded evaluations, operations taken from a
stream, and new blank nodes supplied, all since the start of the session. -/
structure Journal where
  calls : List CallKind := []
  checks : List Check := []
  evaluations : List Evaluation := []
  pulled : Nat := 0
  nextNode : Nat := 0
deriving Inhabited

/-- Records a call and looks whether it fails. -/
def Journal.call (j : Journal) (faults : Faults) (kind : CallKind) :
    Except StorageError Unit × Journal :=
  let outcome := match faults kind (j.calls.count kind) with
    | some e => .error e
    | none => .ok ()
  (outcome, { j with calls := j.calls ++ [kind] })

/-- A committed content and its record. -/
structure Session where
  content : Content := {}
  journal : Journal := {}
deriving Inhabited

/-- An open batch: its transaction, the record, and of the operation that is running the accesses
it has passed and the quads it has removed and added. -/
structure Batch where
  tx : Transaction
  journal : Journal
  passed : List (AccessKind × GraphName) := []
  deleted : List Quad := []
  inserted : List Quad := []
deriving Inhabited

/-- Steps of a batch that may fail. -/
abbrev BatchM (ε : Type) := ExceptT ε (StateM Batch)

namespace BatchM

/-- A store call of the given class, and what it does if it does not fail. -/
def call {α : Type} (faults : Faults) (kind : CallKind) (act : Transaction → α × Transaction) :
    BatchM StorageError α := do
  let b ← get
  let (outcome, journal) := b.journal.call faults kind
  match outcome with
  | .ok () =>
    let (a, tx) := act b.tx
    set { b with tx := tx, journal := journal }
    return a
  | .error e =>
    set { b with journal := journal }
    throw e

/-- The same steps with another type of errors. -/
def mapError {ε δ α : Type} (f : ε → δ) (x : BatchM ε α) : BatchM δ α :=
  ExceptT.mk do
    let outcome ← x.run
    return outcome.mapError f

/-- The lookups of the open transaction; errors of the store are passed on through `f`. -/
def reader {ε : Type} (faults : Faults) (f : StorageError → ε) : Reader (BatchM ε) where
  findDefault k := mapError f (call faults .read fun tx => (tx.content.findDefault k, tx))
  findNamed g k := mapError f (call faults .read fun tx => (tx.content.findNamed g k, tx))
  findAnyNamed k := mapError f (call faults .read fun tx => (tx.content.findAnyNamed k, tx))
  namedGraphs := mapError f (call faults .graphs fun tx => (tx.content.namedGraphs, tx))
  containsGraph g := mapError f (call faults .graphs fun tx => (tx.content.containsGraph g, tx))

end BatchM

/-- Evaluates the pattern of a pattern-driven update over what the user may query. -/
structure Evaluator where
  run : Reader (BatchM EvaluationError) → Pattern → Option Using → Option Binding →
    BatchM EvaluationError (List Binding)

namespace Evaluator

/-- The evaluator that scans the dataset. -/
def scanning : Evaluator := ⟨fun reader p scope input => p.solutions reader scope input⟩

/-- An evaluator that looks at all quads, records the call, and answers the given bindings or
fails. -/
def scripted (bindings : List Binding) (error : Option EvaluationError) : Evaluator :=
  ⟨fun reader p scope input => do
    let visible ← reader.find none .any
    modify fun b => { b with journal := { b.journal with
      evaluations := b.journal.evaluations ++ [⟨p, scope, input, visible⟩] } }
    match error with
    | some e => throw e
    | none => return bindings⟩

end Evaluator

end GraphStore
