/-
The written form of property paths, expressions and graph patterns.

Solution modifiers directly below each other are written as one SELECT: walking inwards, flags
add up, the innermost order and slice win, and a projection joins as long as none with variables
has been taken.
-/
import GraphStore.Algebra
import GraphStore.Term.Text

namespace GraphStore

/-- A text between braces. -/
def braced (text : String) : String := "\x7b " ++ text ++ " \x7d"

/-- A text between parentheses. -/
def parenthesized (text : String) : String := "(" ++ text ++ ")"

/-- A list of texts separated by commas. -/
def commaSeparated (texts : List String) : String := ", ".intercalate texts

/-- A property path. -/
def Path.render : Path → String
  | .link i => i.render
  | .inverse p => "^" ++ parenthesized p.render
  | .sequence p q => parenthesized (p.render ++ " / " ++ q.render)
  | .alternative p q => parenthesized (p.render ++ " | " ++ q.render)
  | .zeroOrMore p => parenthesized p.render ++ "*"
  | .oneOrMore p => parenthesized p.render ++ "+"
  | .zeroOrOne p => parenthesized p.render ++ "?"
  | .negated is => "!" ++ parenthesized (" | ".intercalate (is.map Iri.render))

/-- The sign of a comparison. -/
def Comparison.render : Comparison → String
  | .greater => ">"
  | .greaterOrEqual => ">="
  | .less => "<"
  | .lessOrEqual => "<="

/-- The sign of an arithmetic operator. -/
def Arithmetic.render : Arithmetic → String
  | .add => "+"
  | .subtract => "-"
  | .multiply => "*"
  | .divide => "/"

/-- A sign. -/
def Sign.render : Sign → String
  | .plus => "+"
  | .minus => "-"

/-- The name a function is called by. -/
def FunctionName.render : FunctionName → String
  | .builtIn name => name
  | .custom i => i.render

/-- The name of an aggregate function. -/
def AggregateFunction.render : AggregateFunction → String
  | .count => "COUNT"
  | .sum => "SUM"
  | .min => "MIN"
  | .max => "MAX"
  | .avg => "AVG"
  | .sample => "SAMPLE"
  | .groupConcat _ => "GROUP_CONCAT"
  | .custom i => i.render

/-- An aggregate function applied to a text. -/
def AggregateFunction.renderCall (f : AggregateFunction) (distinct : Bool) (argument : String) :
    String :=
  let tail := match f with
    | .groupConcat (some separator) => "; SEPARATOR = " ++ quoted separator
    | _ => ""
  f.render ++ parenthesized ((if distinct then "DISTINCT " else "") ++ argument ++ tail)

/-- A cell of a table of values. -/
def renderCell : Option Term → String
  | some t => t.render ++ " "
  | none => "UNDEF "

/-- A table of values. -/
def renderValues (vars : List Variable) (rows : List (List (Option Term))) : String :=
  "VALUES ( " ++ String.join (vars.map fun v => v.render ++ " ") ++ ") \x7b " ++
    String.join (rows.map fun row => "( " ++ String.join (row.map renderCell) ++ ") ") ++ " \x7d"

/-- The solution modifiers gathered for one SELECT. -/
structure SelectHead where
  distinct : Bool := false
  reduced : Bool := false
  vars : List Variable := []
  order : Option String := none
  start : Nat := 0
  length : Option Nat := none

/-- A SELECT with the pattern `body`. -/
def SelectHead.render (h : SelectHead) (body : String) : String :=
  braced ("SELECT" ++ (if h.distinct then " DISTINCT" else "") ++
    (if h.reduced then " REDUCED" else "") ++
    (if h.vars.isEmpty then " *" else String.join (h.vars.map fun v => " " ++ v.render)) ++
    " WHERE " ++ braced body ++
    (match h.order with
      | some keys => " ORDER BY" ++ keys
      | none => "") ++
    (if h.start > 0 then " OFFSET " ++ toString h.start else "") ++
    (match h.length with
      | some n => " LIMIT " ++ toString n
      | none => ""))

/-- What stands below the gathered modifiers, if there are any. -/
def closeSelect (h : Option SelectHead) (body : String) : String :=
  match h with
  | some h => h.render body
  | none => body

/-- A right side of a join that would read as a modification of the left side. -/
def Pattern.modifiesLeft : Pattern → Bool
  | .leftJoin .. | .minus .. | .extend .. | .filter .. => true
  | _ => false

mutual

/-- A graph pattern below the solution modifiers `h`. -/
def Pattern.renderBelow (h : Option SelectHead) : Pattern → String
  | .bgp triples => closeSelect h (String.join (triples.map fun t => t.render ++ " ."))
  | .path s p o => closeSelect h (s.render ++ " " ++ p.render ++ " " ++ o.render ++ " .")
  | .join l r =>
    let right := r.renderBelow none
    closeSelect h (l.renderBelow none ++ " " ++ if r.modifiesLeft then braced right else right)
  | .leftJoin l r none =>
    closeSelect h (l.renderBelow none ++ " OPTIONAL " ++ braced (r.renderBelow none))
  | .leftJoin l r (some e) =>
    closeSelect h (l.renderBelow none ++ " OPTIONAL " ++
      braced (r.renderBelow none ++ " FILTER" ++ parenthesized e.render))
  | .filter e p => closeSelect h (p.renderBelow none ++ " FILTER" ++ parenthesized e.render)
  | .union l r =>
    closeSelect h (braced (l.renderBelow none) ++ " UNION " ++ braced (r.renderBelow none))
  | .graph n p => closeSelect h ("GRAPH " ++ n.render ++ " " ++ braced (p.renderBelow none))
  | .extend p v e =>
    closeSelect h (p.renderBelow none ++ " BIND" ++ parenthesized (e.render ++ " AS " ++ v.render))
  | .minus l r => closeSelect h (l.renderBelow none ++ " MINUS " ++ braced (r.renderBelow none))
  | .values vars rows => closeSelect h (renderValues vars rows)
  | .orderBy p keys => p.renderBelow (some { h.getD {} with order := some (renderKeys keys) })
  | .project p vars =>
    match h with
    | some h =>
      if h.vars.isEmpty then p.renderBelow (some { h with vars := vars })
      else h.render (p.renderBelow (some { vars := vars }))
    | none => p.renderBelow (some { vars := vars })
  | .distinct p => p.renderBelow (some { h.getD {} with distinct := true })
  | .reduced p => p.renderBelow (some { h.getD {} with reduced := true })
  | .slice p start length =>
    p.renderBelow (some { h.getD {} with start := start, length := length })
  | .group p vars aggregates =>
    closeSelect h ("\x7bSELECT" ++ renderAggregates aggregates ++
      String.join (vars.map fun v => " " ++ v.render) ++ " WHERE " ++ braced (p.renderBelow none) ++
      (if vars.isEmpty then "" else
        " GROUP BY" ++ String.join (vars.map fun v => " " ++ v.render)) ++ "\x7d")
  | .service n p silent =>
    closeSelect h ((if silent then "SERVICE SILENT " else "SERVICE ") ++ n.render ++ " " ++
      braced (p.renderBelow none))

/-- Sort keys, each after a blank. -/
def renderKeys : List OrderKey → String
  | [] => ""
  | .ascending e :: keys => " ASC" ++ parenthesized e.render ++ renderKeys keys
  | .descending e :: keys => " DESC" ++ parenthesized e.render ++ renderKeys keys

/-- Aggregates with their variables, each after a blank. -/
def renderAggregates : List Aggregate → String
  | [] => ""
  | .of v f distinct none :: rest =>
    " " ++ parenthesized (f.renderCall distinct "*" ++ " AS " ++ v.render) ++ renderAggregates rest
  | .of v f distinct (some e) :: rest =>
    " " ++ parenthesized (f.renderCall distinct e.render ++ " AS " ++ v.render) ++
      renderAggregates rest

/-- An expression. -/
def Expr.render : Expr → String
  | .iri i => i.render
  | .literal l => l.render
  | .var v => v.render
  | .or a b => parenthesized (a.render ++ " || " ++ b.render)
  | .and a b => parenthesized (a.render ++ " && " ++ b.render)
  | .equal a b => parenthesized (a.render ++ " = " ++ b.render)
  | .sameTerm a b => "sameTerm" ++ parenthesized (commaSeparated [a.render, b.render])
  | .compare op a b => parenthesized (a.render ++ " " ++ op.render ++ " " ++ b.render)
  | .arith op a b => a.render ++ " " ++ op.render ++ " " ++ b.render
  | .signed s a => s.render ++ a.render
  | .not (.holds p) => "NOT EXISTS " ++ braced (p.renderBelow none)
  | .not a => "!" ++ a.render
  | .member a es =>
    parenthesized (a.render ++ " IN " ++ parenthesized (commaSeparated (renderAll es)))
  | .holds p => "EXISTS " ++ braced (p.renderBelow none)
  | .bound v => "BOUND" ++ parenthesized v.render
  | .ite c a b => "IF" ++ parenthesized (commaSeparated [c.render, a.render, b.render])
  | .coalesce es => "COALESCE" ++ parenthesized (commaSeparated (renderAll es))
  | .call f es => f.render ++ parenthesized (commaSeparated (renderAll es))

/-- A list of expressions. -/
def renderAll : List Expr → List String
  | [] => []
  | e :: es => e.render :: renderAll es

end

/-- A graph pattern. -/
def Pattern.render (p : Pattern) : String := p.renderBelow none

end GraphStore
