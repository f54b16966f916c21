/-
Expressions.

The rules of one level of brackets take the rules of the level inside as an argument; what they
need of groups is only that one may follow EXISTS.
-/
import GraphStore.Sparql.Triples

namespace GraphStore.Sparql

open Rule

/-- The rules for what stands inside brackets and braces. -/
structure Inner where
  expression : Rule Expr
  group : Rule Pattern

/-- A function that is called by name. -/
structure BuiltIn where
  /-- The name as it is written, in any case. -/
  word : String
  /-- The name of the function. -/
  name : String
  /-- The number of arguments. -/
  arity : Nat
  /-- Whether the bracket has to touch the name. -/
  tight : Bool

/-- Functions of `arity` arguments. -/
def functions (arity : Nat) (words : List String) : List BuiltIn :=
  words.map fun w => ⟨w, w, arity, false⟩

/-- Functions of `arity` arguments whose bracket has to touch the name. -/
def tightFunctions (arity : Nat) (words : List String) : List BuiltIn :=
  words.map fun w => ⟨w, w, arity, true⟩

/-- The functions that are called by name.  Where a function takes an optional argument, the form
that has it comes first. -/
def builtIns : List BuiltIn :=
  functions 1 ["STR", "LANG", "DATATYPE", "IRI", "ABS", "CEIL", "FLOOR", "ROUND", "STRLEN", "UCASE",
    "LCASE", "YEAR", "MONTH", "DAY", "HOURS", "MINUTES", "SECONDS", "TIMEZONE", "TZ"] ++
  [⟨"URI", "IRI", 1, false⟩] ++
  functions 2 ["LANGMATCHES", "CONTAINS", "STRSTARTS", "STRENDS", "STRBEFORE", "STRAFTER",
    "STRLANG", "STRDT"] ++
  functions 0 ["RAND", "NOW", "UUID", "STRUUID"] ++
  functions 3 ["SUBSTR", "REGEX"] ++ functions 2 ["SUBSTR", "REGEX"] ++
  functions 4 ["REPLACE"] ++ functions 3 ["REPLACE"] ++
  tightFunctions 1 ["BNODE"] ++ tightFunctions 0 ["BNODE"] ++
  tightFunctions 1 ["ENCODE_FOR_URI", "MD5", "SHA1", "SHA256", "SHA384", "SHA512", "isIRI",
    "isBLANK", "isLITERAL", "isNUMERIC"] ++
  [⟨"isURI", "isIRI", 1, true⟩]

/-- Expressions in brackets with commas between them; the brackets may be empty. -/
def expressionList (inner : Inner) : Rule (List Expr) :=
  (do
    mark "("
    let es ← separated (lexeme inner.expression) (mark ",")
    symbol ")"
    return es) <|>
  (do
    nil
    return [])

/-- A given number of expressions in brackets with commas between them. -/
def arguments (inner : Inner) : Nat → Rule (List Expr)
  | 0 => do
    nil
    return []
  | n + 1 => do
    mark "("
    let first ← lexeme inner.expression
    let more ← times n do
      mark ","
      lexeme inner.expression
    symbol ")"
    return first :: more

/-- A call of a function that has a name. -/
def namedCall (inner : Inner) (f : BuiltIn) : Rule Expr := do
  keyword f.word
  if !f.tight then blank
  return .call (.builtIn f.name) (← arguments inner f.arity)

/-- An aggregate without its variable: the function, whether equal values count once, and the
argument, which is absent where whole solutions are counted. -/
abbrev Fold := AggregateFunction × Bool × Option Expr

/-- A function that folds a group, and its argument in brackets.  A first reading takes DISTINCT
for the keyword; if it fails, the same letters may begin the name of a prefix. -/
def fold {α : Type} (head : Rule α)
    (argument : α → Rule (AggregateFunction × Option Expr)) : Rule Fold :=
  let call (distinct : Bool) : Rule Fold := do
    let a ← lexeme head
    mark "("
    if distinct then word "DISTINCT"
    let (f, e) ← lexeme (argument a)
    symbol ")"
    return (f, distinct, e)
  call true <|> call false

/-- The separator of a concatenation. -/
def separator : Rule String := do
  mark ";"
  word "SEPARATOR"
  mark "="
  scan Lexeme.string

/-- A function that folds a group and its argument; a function without a keyword has an IRI. -/
def aggregateCall (inner : Inner) : Rule Fold :=
  let value (f : AggregateFunction) : Rule (AggregateFunction × Option Expr) := do
    return (f, some (← inner.expression))
  let all : Rule (AggregateFunction × Option Expr) := do
    symbol "*"
    return (.count, none)
  let separated : Rule (AggregateFunction × Option Expr) := do
    let e ← lexeme inner.expression
    return (.groupConcat (some (← separator)), some e)
  let named : List (String × AggregateFunction) :=
    [("SUM", .sum), ("MIN", .min), ("MAX", .max), ("AVG", .avg), ("SAMPLE", .sample)]
  fold (keyword "COUNT") (fun _ => all <|> value .count) <|>
    firstOf (named.map fun entry => fold (keyword entry.1) fun _ => value entry.2) <|>
    fold (keyword "GROUP_CONCAT") (fun _ => separated <|> value (.groupConcat none)) <|>
    fold iri fun i => value (.custom i)

/-- The variable of an aggregate of the innermost selection; equal aggregates share it. -/
def aggregate (inner : Inner) : Rule Variable := do
  let (f, distinct, e) ← aggregateCall inner
  match (← state).aggregates with
  | [] => fail
  | known :: outer =>
    match known.find? fun a => a == .of a.result f distinct e with
    | some a => return a.result
    | none =>
      let v ← freshVariable
      update fun s => { s with aggregates := (known ++ [.of v f distinct e]) :: outer }
      return v

/-- A group after EXISTS. -/
def existence (inner : Inner) : Rule Expr := do
  word "EXISTS"
  return .holds (← inner.group)

/-- A call of a built-in construct. -/
def builtInCall (inner : Inner) : Rule Expr :=
  (Expr.var <$> aggregate inner) <|>
  (do
    word "BOUND"
    mark "("
    let v ← lexeme variableName
    symbol ")"
    return .bound v) <|>
  (do
    keyword "CONCAT"
    return .call (.builtIn "CONCAT") (← expressionList inner)) <|>
  (do
    keyword "COALESCE"
    return .coalesce (← expressionList inner)) <|>
  (do
    word "IF"
    match ← arguments inner 3 with
    | [a, b, c] => return .ite a b c
    | _ => fail) <|>
  (do
    keyword "sameTerm"
    match ← arguments inner 2 with
    | [a, b] => return .sameTerm a b
    | _ => fail) <|>
  existence inner <|>
  (do
    word "NOT"
    return .not (← existence inner)) <|>
  firstOf (builtIns.map (namedCall inner))

/-- An expression in brackets. -/
def bracketedExpression (inner : Inner) : Rule Expr := do
  mark "("
  let e ← lexeme inner.expression
  symbol ")"
  return e

/-- An IRI, or a call of the function it names. -/
def iriOrCall (inner : Inner) : Rule Expr := do
  let i ← iri
  let call : Rule Expr := do
    blank
    return .call (.custom i) (← expressionList inner)
  call <|> give (.iri i)

/-- A call of a function by its IRI. -/
def functionCall (inner : Inner) : Rule Expr := do
  let i ← lexeme iri
  return .call (.custom i) (← expressionList inner)

/-- An expression without operators. -/
def primary (inner : Inner) : Rule Expr :=
  bracketedExpression inner <|> iriOrCall inner <|> (Expr.var <$> variableName) <|>
    (Expr.literal <$> literal) <|> builtInCall inner

/-- A primary expression with at most one operator before it. -/
def unary (inner : Inner) : Rule Expr :=
  (do
    mark "!"
    return .not (← primary inner)) <|>
  (do
    mark "+"
    return .signed .plus (← primary inner)) <|>
  (do
    mark "-"
    return .signed .minus (← primary inner)) <|>
  primary inner

/-- Operands with operators between them, put together from the right. -/
def chain {α : Type} : α → List ((α → α → α) × α) → α
  | a, [] => a
  | a, (f, b) :: rest => f a (chain b rest)

/-- Operands `p` with operators between them. -/
def chained (p : Rule Expr) (operators : Rule (Expr → Expr → Expr)) : Rule Expr := do
  let first ← lexeme p
  let more ← many do
    let f ← operators
    return (f, ← lexeme p)
  return chain first more

/-- An operator that is written as `text`. -/
def operator (text : String) (f : Expr → Expr → Expr) : Rule (Expr → Expr → Expr) := do
  mark text
  return f

/-- Products and quotients. -/
def product (inner : Inner) : Rule Expr :=
  chained (unary inner) (operator "*" (.arith .multiply) <|> operator "/" (.arith .divide))

/-- Sums and differences. -/
def sum (inner : Inner) : Rule Expr :=
  chained (product inner) (operator "+" (.arith .add) <|> operator "-" (.arith .subtract))

/-- What follows a sum that is compared. -/
def comparison (inner : Inner) : Rule (Expr → Expr) :=
  (do
    let f ← operator "=" .equal <|> operator "!=" (fun a b => .not (.equal a b)) <|>
      operator ">=" (.compare .greaterOrEqual) <|> operator ">" (.compare .greater) <|>
      operator "<=" (.compare .lessOrEqual) <|> operator "<" (.compare .less)
    let b ← sum inner
    return (f · b)) <|>
  (do
    word "IN"
    let es ← expressionList inner
    return (.member · es)) <|>
  (do
    word "NOT"
    word "IN"
    let es ← expressionList inner
    return fun a => .not (.member a es))

/-- A sum, compared at most once. -/
def relation (inner : Inner) : Rule Expr := do
  let a ← lexeme (sum inner)
  match ← optional (comparison inner) with
  | some f => return f a
  | none => return a

/-- An expression of one level of brackets. -/
def expressionRule (inner : Inner) : Rule Expr := do
  let conjunction : Rule Expr := do
    return joinLeft .and default (← separated (lexeme (relation inner)) (mark "&&"))
  return joinLeft .or default (← separated (lexeme conjunction) (mark "||"))

/-- A condition after FILTER and HAVING, and an order key. -/
def constraint (inner : Inner) : Rule Expr :=
  bracketedExpression inner <|> functionCall inner <|> builtInCall inner

end GraphStore.Sparql
