/-
Selections: the pattern of a SELECT and its modifiers.

The order is: grouping, HAVING, trailing VALUES, computed columns, ORDER BY, projection, DISTINCT or
REDUCED, and last the slice.
-/
import GraphStore.Algebra

namespace GraphStore

/-- The join of two patterns: an empty basic pattern leaves the other one as it is, and two basic
patterns become one. -/
def Pattern.combine : Pattern → Pattern → Pattern
  | .bgp [], r => r
  | l, .bgp [] => l
  | .bgp ls, .bgp rs => .bgp (ls ++ rs)
  | l, r => .join l r

/-- The join of a list of patterns. -/
def Pattern.combineAll (ps : List Pattern) : Pattern := ps.foldl Pattern.combine (.bgp [])

mutual

/-- Whether every variable that the value of an expression hangs on is among `vs`.  BOUND, COALESCE
and EXISTS have a value for unbound variables too. -/
def Expr.dependsOnly (vs : List Variable) : Expr → Bool
  | .iri _ | .literal _ | .bound _ | .coalesce _ | .holds _ => true
  | .var v => vs.contains v
  | .signed _ e | .not e => e.dependsOnly vs
  | .or a b | .and a b | .equal a b | .sameTerm a b => a.dependsOnly vs && b.dependsOnly vs
  | .compare _ a b | .arith _ a b => a.dependsOnly vs && b.dependsOnly vs
  | .ite a b c => a.dependsOnly vs && b.dependsOnly vs && c.dependsOnly vs
  | .member a es => a.dependsOnly vs && Expr.allDependOnly vs es
  | .call _ es => Expr.allDependOnly vs es

/-- `Expr.dependsOnly` of every expression of a list. -/
def Expr.allDependOnly (vs : List Variable) : List Expr → Bool
  | [] => true
  | e :: es => e.dependsOnly vs && Expr.allDependOnly vs es

end

/-- What happens to equal solutions. -/
inductive Duplicates where
  | kept | distinct | reduced
deriving DecidableEq, Inhabited, Repr

/-- A column of a selection: a variable, or a variable that gets a value. -/
inductive Column where
  | plain (v : Variable)
  | computed (value : Expr) (v : Variable)

/-- The variable of a column. -/
def Column.name : Column → Variable
  | .plain v => v
  | .computed _ v => v

/-- What solutions are grouped by; the keys that are no variables get one first. -/
structure Grouping where
  keys : List Variable := []
  computed : List (Expr × Variable) := []

/-- A selection as it is written. -/
structure Selection where
  duplicates : Duplicates
  /-- The columns; without them all variables are selected. -/
  columns : Option (List Column)
  pattern : Pattern
  grouping : Option Grouping
  having : Option Expr
  order : List OrderKey
  /-- The first solution and the number of solutions. -/
  slice : Option (Nat × Option Nat)
  values : Option Pattern
  aggregates : List Aggregate

namespace Selection

/-- The grouping; aggregates without GROUP BY fold all solutions into one. -/
def grouping? (s : Selection) : Option Grouping :=
  if s.grouping.isNone && !s.aggregates.isEmpty then some {} else s.grouping

/-- The grouped pattern. -/
def grouped (s : Selection) : Pattern :=
  match s.grouping? with
  | some g =>
    .group (g.computed.foldl (fun p c => .extend p c.2 c.1) s.pattern) g.keys s.aggregates
  | none => s.pattern

/-- The pattern that the columns are taken from. -/
def source (s : Selection) : Pattern :=
  let p := match s.having with
    | some e => .filter e s.grouped
    | none => s.grouped
  match s.values with
  | some v => p.combine v
  | none => p

/-- Adds a column to a pattern.  A computed column may not reuse a variable in scope; after
grouping a column may only depend on variables in scope.  A column is not in scope of the columns
after it. -/
def addColumn (isGrouped : Bool) (inScope : List Variable) (p : Pattern) : Column → Option Pattern
  | .plain v => if isGrouped && !inScope.contains v then none else some p
  | .computed e v =>
    if inScope.contains v || (isGrouped && !e.dependsOnly inScope) then none
    else some (.extend p v e)

/-- The pattern with its columns and their variables. -/
def projected? (s : Selection) : Option (Pattern × List Variable) :=
  let p := s.source
  match s.columns with
  | none =>
    if s.grouping?.isSome then none
    else some (p, p.inScope.eraseDups.mergeSort fun a b => !(b.name < a.name))
  | some columns => do
    let vs := columns.map Column.name
    if vs.eraseDups.length ≠ vs.length then none
    return (← columns.foldlM (addColumn s.grouping?.isSome p.inScope) p, vs)

/-- The pattern of a selection, unless its columns do not fit. -/
def toPattern? (s : Selection) : Option Pattern := do
  let (p, vs) ← s.projected?
  let p := if s.order.isEmpty then p else .orderBy p s.order
  let p := Pattern.project p vs
  let p := match s.duplicates with
    | .kept => p
    | .distinct => .distinct p
    | .reduced => .reduced p
  match s.slice with
  | some (start, length) => return .slice p start length
  | none => return p

end Selection

end GraphStore
