/-
The lexical grammar: scans of names, numbers, strings and references.

A scan takes the longest lexeme at the start of a text and gives the rest with it.
-/
import GraphStore.Term
import GraphStore.Text.Characters

namespace GraphStore.Sparql.Lexeme

/-- A search for a lexeme at the start of a text. -/
abbrev Scan (α : Type) := List Char → Option (α × List Char)

/-- The ranges of letters that begin a name. -/
def letterRanges : List (Nat × Nat) :=
  [(0x41, 0x5a), (0x61, 0x7a), (0xc0, 0xd6), (0xd8, 0xf6), (0xf8, 0x2ff), (0x370, 0x37d),
    (0x37f, 0x1fff), (0x200c, 0x200d), (0x2070, 0x218f), (0x2c00, 0x2fef), (0x3001, 0xd7ff),
    (0xf900, 0xfdcf), (0xfdf0, 0xfffd)]

/-- A letter that begins a name. -/
def isLetter (c : Char) : Bool := letterRanges.any fun r => inRange r.1 r.2 c

/-- A letter, a digit or the underscore. -/
def isNameStart (c : Char) : Bool := isLetter c || isAsciiDigit c || c == '_'

/-- A character of a variable name after the first. -/
def isVarChar (c : Char) : Bool :=
  isNameStart c || c.toNat == 0xb7 || inRange 0x300 0x36f c || inRange 0x203f 0x2040 c

/-- A character of a name after the first. -/
def isNameChar (c : Char) : Bool := isVarChar c || c == '-'

/-- The text after blanks and comments; `comment` says whether it begins inside a comment. -/
def skipBlank (comment : Bool) : List Char → List Char
  | [] => []
  | c :: cs =>
    if comment then skipBlank (c != '\n' && c != '\r') cs
    else if " \t\r\n".toList.contains c then skipBlank false cs
    else if c == '#' then skipBlank true cs
    else c :: cs

/-- The characters at the start of a text that `p` accepts, and the rest. -/
def spanOf (p : Char → Bool) (cs : List Char) : String × List Char :=
  (String.ofList (cs.takeWhile p), cs.dropWhile p)

/-- The first `n` characters and the rest, unless `n` is zero. -/
def first? (n : Nat) : Scan String := fun cs =>
  if n = 0 then none else some (String.ofList (cs.take n), cs.drop n)

/-- A variable name after its mark. -/
def varName : Scan String
  | c :: cs => if isNameStart c then some (spanOf isVarChar (c :: cs)) else none
  | [] => none

/-- The length of a name that goes on with `p` or full stops and does not end in a full stop;
`dots` counts the full stops just read. -/
def dottedLength (p : Char → Bool) (dots : Nat) : List Char → Nat
  | [] => 0
  | c :: cs =>
    if c == '.' then dottedLength p (dots + 1) cs
    else if p c then dots + 1 + dottedLength p 0 cs
    else 0

/-- The label of a blank node after its mark. -/
def blankLabel : Scan String
  | c :: cs =>
    if isNameStart c then first? (dottedLength isNameChar 0 (c :: cs)) (c :: cs) else none
  | [] => none

/-- The name of a prefix with its colon, which is not given; the name may be empty. -/
def prefixName : Scan String := fun cs =>
  let n := if cs.head?.any isLetter then dottedLength isNameChar 0 cs else 0
  match cs.drop n with
  | ':' :: rest => some (String.ofList (cs.take n), rest)
  | _ => none

/-- A character that a backslash may stand before in a local name. -/
def isEscapable (c : Char) : Bool := "_~.-!$&'()*+,;=/?#@%".toList.contains c

/-- The length of a piece of a local name: characters, colons, `%` with two digits and escaped
characters. -/
def localPiece : List Char → Nat
  | '%' :: a :: b :: cs => if isHexDigit a && isHexDigit b then 3 + localPiece cs else 0
  | '\\' :: c :: cs => if isEscapable c then 2 + localPiece cs else 0
  | c :: cs => if isNameChar c || c == ':' then 1 + localPiece cs else 0
  | [] => 0

/-- The length of a local name: a piece, and a second one if full stops stand between them. -/
def localLength (cs : List Char) : Nat :=
  let first := localPiece cs
  let dots := ((cs.drop first).takeWhile (· == '.')).length
  let second := localPiece (cs.drop (first + dots))
  if second = 0 then first else first + dots + second

/-- A local name, escapes included. -/
def localName : Scan String
  | c :: cs =>
    if isNameStart c || ":%\\".toList.contains c then first? (localLength (c :: cs)) (c :: cs)
    else none
  | [] => none

/-- A text between angle brackets. -/
def reference : Scan (List Char)
  | '<' :: cs =>
    match cs.dropWhile (· != '>') with
    | _ :: rest => some (cs.takeWhile (· != '>'), rest)
    | [] => none
  | _ => none

/-- What a backslash may stand before. -/
structure Escapes where
  /-- The character that a single character stands for. -/
  single : Char → Option Char
  /-- Whether the first digit of a code may be a plus sign. -/
  plusSign : Bool

/-- The character whose code is written in base sixteen with `width` digits; the first may be a
plus sign if `plusSign`. -/
def codePoint? (plusSign : Bool) (width : Nat) (code : List Char) : Option Char :=
  let digits := if plusSign && code.head? == some '+' then code.drop 1 else code
  let n := digits.foldl (fun n d => 16 * n + hexValue d) 0
  if code.length == width && digits.all isHexDigit && n.isValidChar then some (Char.ofNat n)
  else none

/-- The number of digits after `\u` and `\U`. -/
def codeWidth? (c : Char) : Option Nat :=
  if c == 'u' then some 4 else if c == 'U' then some 8 else none

/-- A text with its escapes replaced. -/
def unescape (e : Escapes) : List Char → Option (List Char)
  | [] => some []
  | '\\' :: k :: cs => do
    match codeWidth? k with
    | some width =>
      let c ← codePoint? e.plusSign width (cs.take width)
      return c :: (← unescape e (cs.drop width))
    | none => return (← e.single k) :: (← unescape e cs)
  | ['\\'] => none
  | c :: cs => do return c :: (← unescape e cs)
termination_by cs => cs.length
decreasing_by
  all_goals simp only [List.length_drop, List.length_cons]
  all_goals omega

/-- The escapes of one character inside strings. -/
def stringEscape? : Char → Option Char
  | 't' => some '\t'
  | 'b' => some '\x08'
  | 'n' => some '\n'
  | 'r' => some '\r'
  | 'f' => some '\x0c'
  | '"' => some '"'
  | '\x27' => some '\x27'
  | '\\' => some '\\'
  | _ => none

/-- The escapes inside strings. -/
def stringEscapes : Escapes := ⟨stringEscape?, false⟩

/-- The escapes inside references: codes only. -/
def referenceEscapes : Escapes := ⟨fun _ => none, true⟩

/-- The text up to the quote that ends a string on one line, escapes as they are. -/
def shortBody (quote : Char) : Scan (List Char)
  | [] => none
  | '\\' :: c :: cs => (shortBody quote cs).map fun r => ('\\' :: c :: r.1, r.2)
  | c :: cs =>
    if c == quote then some ([], cs)
    else if c == '\n' || c == '\r' then none
    else (shortBody quote cs).map fun r => (c :: r.1, r.2)

/-- The text up to the three quotes that end a string, escapes as they are. -/
def longBody (quote : Char) : Scan (List Char)
  | [] => none
  | '\\' :: c :: cs => (longBody quote cs).map fun r => ('\\' :: c :: r.1, r.2)
  | c :: cs =>
    if [quote, quote, quote].isPrefixOf (c :: cs) then some ([], cs.drop 2)
    else (longBody quote cs).map fun r => (c :: r.1, r.2)

/-- A string after its opening quotes. -/
def closeString (body : Scan (List Char)) : Scan String := fun cs => do
  let (text, rest) ← body cs
  return (String.ofList (← unescape stringEscapes text), rest)

/-- A string between three quotes. -/
def longString (quote : Char) : Scan String := fun cs =>
  if [quote, quote, quote].isPrefixOf cs then closeString (longBody quote) (cs.drop 3) else none

/-- A string between single quotes of the kind given. -/
def shortString (quote : Char) : Scan String := fun cs =>
  if [quote].isPrefixOf cs then closeString (shortBody quote) (cs.drop 1) else none

/-- A string: one between three quotes comes first, since it begins like an empty one. -/
def string : Scan String := fun cs =>
  (longString '\x27' cs).or <| (longString '"' cs).or <| (shortString '\x27' cs).or <|
    shortString '"' cs

/-- The number of digits at the start of a text. -/
def digitCount (cs : List Char) : Nat := (cs.takeWhile isAsciiDigit).length

/-- The length of an exponent, zero if there is none. -/
def exponentLength : List Char → Nat
  | c :: cs =>
    let sign := if cs.head?.any "+-".toList.contains then 1 else 0
    let digits := digitCount (cs.drop sign)
    if (c == 'e' || c == 'E') && digits != 0 then 1 + sign + digits else 0
  | [] => 0

/-- The length and the kind of the number without sign at the start of a text. -/
def number? (cs : List Char) : Option (Nat × Iri) :=
  let whole := digitCount cs
  let afterWhole := cs.drop whole
  match afterWhole with
  | '.' :: cs =>
    let part := digitCount cs
    let exponent := exponentLength (cs.drop part)
    if exponent != 0 && whole + part != 0 then some (whole + 1 + part + exponent, xsd "double")
    else if part != 0 then some (whole + 1 + part, xsd "decimal")
    else if whole != 0 then some (whole, xsd "integer")
    else none
  | _ =>
    if whole == 0 then none
    else
      let exponent := exponentLength afterWhole
      some (whole + exponent, if exponent == 0 then xsd "integer" else xsd "double")

/-- A number; it keeps its sign and its digits as they are written, and blanks and comments
between them. -/
def number : Scan Literal := fun cs => do
  let digits := if cs.head?.any "+-".toList.contains then skipBlank false (cs.drop 1) else cs
  let (n, datatype) ← number? digits
  let length := cs.length - digits.length + n
  return (.typed (String.ofList (cs.take length)) datatype, cs.drop length)

/-- The length of the subtags at the start of a text, each after its hyphen. -/
def subtagLength : List Char → Nat
  | '-' :: c :: cs =>
    if isAsciiLetter c || isAsciiDigit c then 2 + subtagLength cs else 0
  | c :: cs => if isAsciiLetter c || isAsciiDigit c then 1 + subtagLength cs else 0
  | [] => 0

/-- A language tag after its mark, in lower case. -/
def languageTag : Scan String := fun cs =>
  let letters := (cs.takeWhile isAsciiLetter).length
  let after := cs.drop letters
  let n := letters + if after.head? == some '-' then subtagLength after else 0
  if letters = 0 then none
  else some (String.ofList ((cs.take n).map Text.asciiLower), cs.drop n)

end GraphStore.Sparql.Lexeme
