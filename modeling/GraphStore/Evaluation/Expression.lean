/-
Evaluation of expressions under a binding.

An expression may have no value, for example because a variable is unbound; that is not a failure.
The logical connectives evaluate both sides.  Constructs other than constants, variables, BOUND,
COALESCE, IF, equality and the connectives are refused.
-/
import GraphStore.Error

namespace GraphStore

/-- The truth of a term: that of a boolean, or whether a string has characters. -/
def Term.truth? : Term → Option Bool
  | .literal l =>
    if l.datatype = xsdBoolean then
      if l.value = "true" ∨ l.value = "1" then some true
      else if l.value = "false" ∨ l.value = "0" then some false
      else none
    else if l.datatype = xsdString then some (!l.value.isEmpty)
    else none
  | _ => none

namespace Truth

/-- False wins, otherwise both sides are needed. -/
def and : Option Bool → Option Bool → Option Bool
  | some false, _ => some false
  | _, some false => some false
  | some true, some true => some true
  | _, _ => none

/-- True wins, otherwise both sides are needed. -/
def or : Option Bool → Option Bool → Option Bool
  | some true, _ => some true
  | _, some true => some true
  | some false, some false => some false
  | _, _ => none

end Truth

/-- The term of a truth value. -/
def boolTerm (b : Bool) : Term := .literal (.boolean b)

/-- Whether two values are the same term, if both are there. -/
def sameValue : Option Term → Option Term → Option Term
  | some a, some b => some (boolTerm (a == b))
  | _, _ => none

/-- The construct that cannot be evaluated. -/
def refuse {α : Type} (e : Expr) : Except EvaluationError α :=
  .error (.unsupported (.expression e))

mutual

/-- The value of an expression. -/
def Expr.eval (b : Binding) : Expr → Except EvaluationError (Option Term)
  | .iri i => .ok (some (.iri i))
  | .literal l => .ok (some (.literal l))
  | .var v => .ok (b.get? v)
  | .bound v => .ok (some (boolTerm (b.contains v)))
  | .not e => do
    let v ← e.eval b
    return (v.bind Term.truth?).map fun t => boolTerm !t
  | .and l r => do
    let x ← l.eval b
    let y ← r.eval b
    return (Truth.and (x.bind Term.truth?) (y.bind Term.truth?)).map boolTerm
  | .or l r => do
    let x ← l.eval b
    let y ← r.eval b
    return (Truth.or (x.bind Term.truth?) (y.bind Term.truth?)).map boolTerm
  | .equal l r => do
    let x ← l.eval b
    let y ← r.eval b
    return sameValue x y
  | .sameTerm l r => do
    let x ← l.eval b
    let y ← r.eval b
    return sameValue x y
  | .ite c yes no => do
    let v ← c.eval b
    match v.bind Term.truth? with
    | some true => yes.eval b
    | some false => no.eval b
    | none => return none
  | .coalesce es => firstValue b es
  | .compare op l r => refuse (.compare op l r)
  | .arith op l r => refuse (.arith op l r)
  | .signed s e => refuse (.signed s e)
  | .member e es => refuse (.member e es)
  | .holds p => refuse (.holds p)
  | .call f es => refuse (.call f es)

/-- The first value of a list of expressions; those behind it are not evaluated. -/
def firstValue (b : Binding) : List Expr → Except EvaluationError (Option Term)
  | [] => .ok none
  | e :: es => do
    match ← e.eval b with
    | some v => return some v
    | none => firstValue b es

end

/-- The truth of an expression. -/
def Expr.truth (e : Expr) (b : Binding) : Except EvaluationError (Option Bool) := do
  let v ← e.eval b
  return v.bind Term.truth?

/-- The bindings for which the condition is true. -/
def Expr.keep (e : Expr) (bs : List Binding) : Except EvaluationError (List Binding) :=
  bs.filterM fun b => do
    let t ← e.truth b
    return t == some true

end GraphStore
