/-
Group patterns and sub-selections.

The parts of a group are put together in order; its filters hold for the whole group.
-/
import GraphStore.Sparql.Expression
import GraphStore.Sparql.Selection

namespace GraphStore.Sparql

open Rule

/-- A part of a group. -/
inductive Part where
  | joined (p : Pattern)
  | optional (p : Pattern) (condition : Option Expr)
  | minus (p : Pattern)
  | bind (value : Expr) (v : Variable)
  | filter (condition : Expr)

/-- An optional part: a filter around it is its condition. -/
def Part.ofOptional : Pattern → Part
  | .filter e p => .optional p (some e)
  | p => .optional p none

/-- A pattern with the next part of its group; BIND may not set a variable in scope. -/
def Part.addTo (p : Pattern) : Part → Option Pattern
  | .joined q => some (p.combine q)
  | .optional q e => some (.leftJoin p q e)
  | .minus q => some (.minus p q)
  | .bind e v => if p.inScope.contains v then none else some (.extend p v e)
  | .filter _ => some p

/-- The condition of a part that is a filter. -/
def Part.condition? : Part → Option Expr
  | .filter e => some e
  | _ => none

/-- The pattern of a group. -/
def groupOf? (parts : List Part) : Option Pattern := do
  let p ← parts.foldlM Part.addTo (.bgp [])
  match parts.filterMap Part.condition? with
  | [] => return p
  | e :: es => return .filter (es.foldl .and e) p

/-- Closes the labels of blank nodes that have been used so far. -/
def closeLabels : Rule Unit :=
  update fun s => { s with closedLabels := s.labels ++ s.closedLabels, labels := [] }

/-- A constant in a table. -/
def cell : Rule (Option Term) :=
  (do return some (.iri (← iri))) <|> (do return some (.literal (← literal))) <|>
    (do
      keyword "UNDEF"
      return none)

/-- A row of a table. -/
def row : Rule (List (Option Term)) := do
  mark "("
  let cells ← many (lexeme cell)
  symbol ")"
  return cells

/-- The variables and rows of a table; a table of one variable needs no brackets. -/
def table : Rule Pattern :=
  (do
    let v ← lexeme variableName
    mark "\x7b"
    let cells ← many (lexeme cell)
    symbol "\x7d"
    return .values [v] (cells.map fun c => [c])) <|>
  (do
    mark "("
    let vs ← many (lexeme variableName)
    mark ")"
    mark "\x7b"
    let rows ← many (lexeme row)
    symbol "\x7d"
    require (rows.all fun r => r.length == vs.length)
    return .values vs rows)

/-- A table after VALUES. -/
def valuesClause : Rule Pattern := do
  word "VALUES"
  table

/-- Groups with UNION between them. -/
def unions (inner : Inner) : Rule Pattern := do
  return joinLeft .union default (← separated (lexeme inner.group) (word "UNION"))

/-- A pattern after SERVICE and, if `silent`, SILENT. -/
def service (inner : Inner) (silent : Bool) : Rule Part := do
  word "SERVICE"
  if silent then word "SILENT"
  let n ← lexeme name
  return .joined (.service n (← inner.group) silent)

/-- A part of a group that is no triple.  SILENT may also begin the name of a prefix. -/
def part (inner : Inner) : Rule Part :=
  (Part.joined <$> unions inner) <|>
  (do
    word "OPTIONAL"
    return .ofOptional (← inner.group)) <|>
  (do
    word "MINUS"
    return .minus (← inner.group)) <|>
  (do
    word "GRAPH"
    let n ← lexeme name
    return .joined (.graph n (← inner.group))) <|>
  service inner true <|> service inner false <|>
  (do
    word "FILTER"
    return .filter (← constraint inner)) <|>
  (do
    word "BIND"
    mark "("
    let e ← lexeme inner.expression
    word "AS"
    let v ← lexeme variableName
    symbol ")"
    return .bind e v) <|>
  (Part.joined <$> valuesClause)

/-- The basic patterns of a block, as one part. -/
def block : Rule Part := do return .joined (.combineAll (← basicPatterns))

/-- The parts of a group: a block of triples may stand between any two others. -/
def parts (inner : Inner) : Rule (List Part) := do
  let first ← optional (lexeme block)
  let more ← many do
    let p ← lexeme (part inner)
    let _ ← optional (mark ".")
    let b ← optional (lexeme block)
    return p :: b.toList
  return first.toList ++ more.flatten

/-- A column of a selection. -/
def column (inner : Inner) : Rule Column :=
  (Column.plain <$> variableName) <|>
  (do
    mark "("
    let e ← lexeme inner.expression
    word "AS"
    let v ← lexeme variableName
    symbol ")"
    return .computed e v)

/-- The columns of a selection, absent for all variables. -/
def columns (inner : Inner) : Rule (Option (List Column)) :=
  (do
    symbol "*"
    return none) <|> (some <$> many1 (lexeme (column inner)))

/-- What happens to equal solutions of a selection. -/
def duplicates : Rule Duplicates :=
  (do
    word "DISTINCT"
    return .distinct) <|>
  (do
    word "REDUCED"
    return .reduced) <|>
  give .kept

/-- A key of GROUP BY, with the variable it is bound to. -/
def groupKey (inner : Inner) : Rule (Expr × Option Variable) :=
  (do return (← builtInCall inner, none)) <|> (do return (← functionCall inner, none)) <|>
  (do
    mark "("
    let e ← lexeme inner.expression
    let v ← optional do
      word "AS"
      lexeme variableName
    symbol ")"
    return (e, v)) <|>
  (do return (.var (← variableName), none))

/-- The grouping with one key more; a key without variable gets a new one. -/
def addKey (g : Grouping) : Expr × Option Variable → Rule Grouping
  | (.var v, _) => give { g with keys := g.keys ++ [v] }
  | (e, v) => do
    let v ← match v with
      | some v => give v
      | none => freshVariable
    return { keys := g.keys ++ [v], computed := g.computed ++ [(e, v)] }

/-- GROUP BY. -/
def grouping (inner : Inner) : Rule Grouping := do
  word "GROUP"
  word "BY"
  (← many1 (lexeme (groupKey inner))).foldlM addKey {}

/-- HAVING; several conditions hold together, and no blank stands between them. -/
def having (inner : Inner) : Rule Expr := do
  word "HAVING"
  return joinLeft .and default (← many1 (constraint inner))

/-- A key of ORDER BY. -/
def orderKey (inner : Inner) : Rule OrderKey :=
  (do
    word "ASC"
    return .ascending (← bracketedExpression inner)) <|>
  (do
    word "DESC"
    return .descending (← bracketedExpression inner)) <|>
  (OrderKey.ascending <$> constraint inner) <|>
  (do return .ascending (.var (← variableName)))

/-- ORDER BY. -/
def ordering (inner : Inner) : Rule (List OrderKey) := do
  word "ORDER"
  word "BY"
  many1 (lexeme (orderKey inner))

/-- The greatest number of a slice. -/
def maxCount : Nat := 0xffffffffffffffff

/-- A number after a keyword. -/
def count (text : String) : Rule Nat := do
  word text
  let ds ← scan fun cs => some (cs.takeWhile isAsciiDigit, cs.dropWhile isAsciiDigit)
  let n := ds.foldl (fun n d => 10 * n + hexValue d) 0
  require (!ds.isEmpty && n ≤ maxCount)
  return n

/-- LIMIT and OFFSET, in either order: the first solution and the number of solutions. -/
def slice : Rule (Nat × Option Nat) :=
  (do
    let length ← lexeme (count "LIMIT")
    return ((← optional (count "OFFSET")).getD 0, some length)) <|>
  (do
    let start ← lexeme (count "OFFSET")
    return (start, ← optional (count "LIMIT")))

/-- The aggregates of the selection that ends here. -/
def closeAggregates : Rule (List Aggregate) := fun s =>
  (some (s.aggregates.headD []), { s with aggregates := s.aggregates.tail })

/-- A selection. -/
def selection (inner : Inner) : Rule Pattern := do
  word "SELECT"
  update fun s => { s with aggregates := [] :: s.aggregates }
  let duplicates ← duplicates
  let columns ← lexeme (columns inner)
  let _ ← optional (word "WHERE")
  let pattern ← lexeme inner.group
  let grouping ← lexeme (optional (grouping inner))
  let having ← lexeme (optional (having inner))
  let order ← lexeme (optional (ordering inner))
  let slice ← lexeme (optional slice)
  let values ← optional valuesClause
  let aggregates ← closeAggregates
  ofOption (Selection.toPattern?
    { duplicates, columns, pattern, grouping, having, order := order.getD [], slice, values,
      aggregates })

/-- Braces around the parts of a group or around a selection. -/
def groupRule (inner : Inner) : Rule Pattern :=
  let braced (p : Rule Pattern) : Rule Pattern := do
    mark "\x7b"
    closeLabels
    let p ← lexeme p
    closeLabels
    symbol "\x7d"
    return p
  braced (do ofOption (groupOf? (← parts inner))) <|> braced (selection inner)

/-- The rules for constructs of a given nesting at most. -/
def within : Nat → Inner
  | 0 => ⟨fail, fail⟩
  | n + 1 => ⟨fun s => expressionRule (within n) s, fun s => groupRule (within n) s⟩

/-- A group. -/
def group : Rule Pattern := nested fun n => (within n).group

end GraphStore.Sparql
