/-
The written form of terms, triple patterns and quads: `<iri>`, `_:id`, `?name`, quoted literals.
Inside quotes the control characters, the quote and the backslash are escaped, all else is kept.
-/
import GraphStore.Term

namespace GraphStore

/-- The digit of `n` modulo 16, in upper case. -/
def hexDigit (n : Nat) : Char :=
  if n % 16 < 10 then Char.ofNat (48 + n % 16) else Char.ofNat (55 + n % 16)

/-- The last `width` hexadecimal digits of `n`, the most significant first. -/
def hexDigits : Nat → Nat → List Char
  | 0, _ => []
  | width + 1, n => hexDigits width (n / 16) ++ [hexDigit n]

/-- A character inside quotes. -/
def quotedChar (c : Char) : List Char :=
  match c with
  | '\x08' => ['\\', 'b']
  | '\t' => ['\\', 't']
  | '\n' => ['\\', 'n']
  | '\x0c' => ['\\', 'f']
  | '\r' => ['\\', 'r']
  | '"' => ['\\', '"']
  | '\\' => ['\\', '\\']
  | c => if c.toNat < 32 || c.toNat == 127 then '\\' :: 'u' :: hexDigits 4 c.toNat else [c]

/-- A text between double quotes. -/
def quoted (text : String) : String :=
  String.ofList ('"' :: text.toList.flatMap quotedChar ++ ['"'])

/-- The identifier of a blank node: its label, or 32 digits for a new node. -/
def BlankNode.id : BlankNode → String
  | .label text => text
  | .fresh index => String.ofList (hexDigits 32 index)

/-- An IRI between angle brackets, nothing escaped. -/
def Iri.render (i : Iri) : String := "<" ++ i.text ++ ">"

/-- A blank node. -/
def BlankNode.render (n : BlankNode) : String := "_:" ++ n.id

/-- A variable. -/
def Variable.render (v : Variable) : String := "?" ++ v.name

/-- A literal; the datatype of a simple literal is not written. -/
def Literal.render : Literal → String
  | .typed value datatype =>
    if datatype = xsdString then quoted value else quoted value ++ "^^" ++ datatype.render
  | .tagged value language => quoted value ++ "@" ++ language

/-- An IRI or a blank node. -/
def Resource.render : Resource → String
  | .iri i => i.render
  | .blank n => n.render

/-- Any ground term. -/
def Term.render : Term → String
  | .iri i => i.render
  | .blank n => n.render
  | .literal l => l.render

/-- A graph name standing alone. -/
def GraphName.render : GraphName → String
  | .default => "DEFAULT"
  | .named g => g.render

/-- A triple, its parts separated by blanks. -/
def Triple.render (t : Triple) : String :=
  t.subject.render ++ " " ++ t.predicate.render ++ " " ++ t.object.render

/-- A quad; the default graph is not written. -/
def Quad.render (q : Quad) : String :=
  match q.graph with
  | .default => q.triple.render
  | .named g => q.triple.render ++ " " ++ g.render

/-- A subject or object position. -/
def TermPattern.render : TermPattern → String
  | .iri i => i.render
  | .blank n => n.render
  | .literal l => l.render
  | .var v => v.render

/-- A predicate position. -/
def NamePattern.render : NamePattern → String
  | .iri i => i.render
  | .var v => v.render

/-- A triple pattern, its parts separated by blanks. -/
def TriplePattern.render (t : TriplePattern) : String :=
  t.subject.render ++ " " ++ t.predicate.render ++ " " ++ t.object.render

/-- A blank node of a query pattern is matched like a variable that no query can name. -/
def BlankNode.asVariable (n : BlankNode) : Variable := ⟨"_:" ++ n.id⟩

end GraphStore
