/-
The rules of single terms: references, names, variables, blank nodes and literals.
-/
import GraphStore.Iri.Resolve
import GraphStore.Sparql.Rule
import GraphStore.Text.LanguageTag

namespace GraphStore.Sparql

open Rule

/-- The absolute IRI that a reference denotes under a base; without base it is absolute itself. -/
def absolute? (base : Option Iri) (text : String) : Option Iri :=
  match base with
  | some base => base.resolve? text
  | none => Iri.ofText? text

/-- A reference between angle brackets. -/
def reference : Rule Iri := do
  let written ← scan Lexeme.reference
  let text ← ofOption (Lexeme.unescape Lexeme.referenceEscapes written)
  ofOption (absolute? (← state).base (String.ofList text))

/-- What a prefix stands for. -/
def namespaceOf (name : String) : Rule String := do ofOption ((← state).prefixes.lookup name)

/-- The IRI that a prefixed name stands for; backslashes only guard the character after them. -/
def prefixedName : Rule Iri :=
  (do
    let start ← namespaceOf (← scan Lexeme.prefixName)
    let rest ← scan Lexeme.localName
    ofOption (Iri.ofText? (start ++ String.ofList (rest.toList.filter (· != '\\'))))) <|>
  (do
    let start ← namespaceOf (← scan Lexeme.prefixName)
    ofOption (Iri.ofText? start))

/-- An IRI. -/
def iri : Rule Iri := reference <|> prefixedName

/-- A variable. -/
def variableName : Rule Variable := do
  symbol "?" <|> symbol "$"
  return ⟨← scan Lexeme.varName⟩

/-- A blank node with a label, which no group before may have used. -/
def labelledBlank : Rule BlankNode := do
  symbol "_:"
  let label ← scan Lexeme.blankLabel
  require (!(← state).closedLabels.contains label)
  update fun s => { s with labels := s.labels.insert label }
  return .label label

/-- Brackets with nothing but blanks between them; comments may not stand there. -/
def emptyBrackets (opening closing : Char) : Rule Unit :=
  scan fun cs =>
    match cs with
    | c :: cs =>
      let rest := cs.dropWhile " \t\r\n".toList.contains
      if c == opening && rest.head? == some closing then some ((), rest.drop 1) else none
    | [] => none

/-- The empty list. -/
def nil : Rule Unit := emptyBrackets '(' ')'

/-- A blank node. -/
def blankNode : Rule BlankNode :=
  labelledBlank <|> (do
    emptyBrackets '[' ']'
    freshBlank)

/-- A string with its language or datatype. -/
def quotedLiteral : Rule Literal := do
  let value ← scan Lexeme.string
  let datatype : Rule Literal := do
    blank
    symbol "^^"
    blank
    return .typed value (← iri)
  let language : Rule Literal := do
    blank
    symbol "@"
    let tag ← scan Lexeme.languageTag
    require (Text.isLanguageTag tag)
    return .tagged value tag
  datatype <|> language <|> give (.simple value)

/-- A truth value. -/
def truth : Rule Literal :=
  (do
    symbol "true"
    return .boolean true) <|>
  (do
    symbol "false"
    return .boolean false)

/-- A literal. -/
def literal : Rule Literal := quotedLiteral <|> scan Lexeme.number <|> truth

/-- A subject or an object that is a single term. -/
def term : Rule TermPattern :=
  (TermPattern.var <$> variableName) <|> (TermPattern.iri <$> iri) <|>
    (TermPattern.literal <$> literal) <|> (TermPattern.blank <$> blankNode) <|>
    (do
      nil
      return .iri (rdf "nil"))

/-- A variable or an IRI. -/
def name : Rule NamePattern := (NamePattern.var <$> variableName) <|> (NamePattern.iri <$> iri)

end GraphStore.Sparql
