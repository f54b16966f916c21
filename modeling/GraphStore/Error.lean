/-
The causes for which updates fail, and their texts.
-/
import GraphStore.Algebra.Text
import GraphStore.Operation

namespace GraphStore

/-- A failure of the store. -/
inductive StorageError where
  | corruption (text : String)
  | other (text : String)
deriving DecidableEq, Inhabited, Repr

/-- The text of a failure of the store. -/
def StorageError.message : StorageError → String
  | .corruption text => text
  | .other text => text

/-- A position of a quad. -/
inductive Position where
  | subject | predicate | object | graphName
deriving DecidableEq, Inhabited, Repr

/-- The name of a position. -/
def Position.name : Position → String
  | .subject => "subject"
  | .predicate => "predicate"
  | .object => "object"
  | .graphName => "graph name"

/-- A rule that data has to keep. -/
inductive DataRule where
  /-- No variables. -/
  | nonGroundTerm
  /-- No literals as subjects. -/
  | literalSubject
deriving DecidableEq, Inhabited, Repr

/-- The text of a broken rule. -/
def DataRule.message : DataRule → String
  | .nonGroundTerm => "Variables not permitted in data"
  | .literalSubject => "Literals not allowed as subjects in data"

/-- A term that may not stand where it stands. -/
structure DataError where
  term : TermPattern
  position : Position
  rule : DataRule
deriving DecidableEq, Inhabited, Repr

/-- The text of a misplaced term. -/
def DataError.message (e : DataError) : String :=
  e.rule.message ++ ": " ++ e.term.render ++ " in " ++ e.position.name ++ " position"

/-- A graph that an operation finds in the wrong state; SILENT hides it. -/
inductive StructuralError where
  | graphAlreadyExists (graph : Resource)
  | graphDoesNotExist (graph : Resource)
deriving DecidableEq, Inhabited, Repr

/-- The text of a graph in the wrong state. -/
def StructuralError.message : StructuralError → String
  | .graphAlreadyExists g => "The graph " ++ g.render ++ " already exists"
  | .graphDoesNotExist g => "The graph " ++ g.render ++ " does not exist"

/-- A construct that an evaluator cannot evaluate. -/
inductive Construct where
  | pattern (p : Pattern)
  | expression (e : Expr)
  | described (text : String)
deriving Inhabited

/-- The construct as text. -/
def Construct.render : Construct → String
  | .pattern p => p.render
  | .expression e => e.render
  | .described text => text

/-- A failure to evaluate a pattern. -/
inductive EvaluationError where
  | storage (e : StorageError)
  | unsupported (construct : Construct)
  | other (text : String)
deriving Inhabited

/-- The text of a failed evaluation, constructs written by `text`. -/
def EvaluationError.messageWith (text : Construct → String) : EvaluationError → String
  | .storage e => e.message
  | .unsupported c => "The graph pattern " ++ text c ++ " is not supported by this evaluator"
  | .other message => message

/-- The text of a failed evaluation. -/
def EvaluationError.message (e : EvaluationError) : String := e.messageWith Construct.render

/-- The cause for which a batch fails. -/
inductive UpdateError where
  | accessDenied (e : AccessDenied)
  | dataValidation (e : DataError)
  | structural (e : StructuralError)
  | malformed (e : Malformed)
  | storage (e : StorageError)
  | evaluation (e : EvaluationError)
  /-- An operation that is not implemented, by name. -/
  | unsupported (name : String)
deriving Inhabited

/-- The text of a failed batch. -/
def UpdateError.message : UpdateError → String
  | .accessDenied e => e.message
  | .dataValidation e => e.message
  | .structural e => e.message
  | .malformed e => "Invalid update operation: " ++ e.message
  | .storage e => e.message
  | .evaluation e => e.message
  | .unsupported name => "The update operation " ++ name ++ " is not supported"

end GraphStore
