/-
Language tags (RFC 5646).

A tag is a language with optional extensions, script, region and variants, then extensions that
a single letter or digit opens, then a private part that `x` opens.  Subtags have eight characters
at most.  A tag may also be private as a whole, with subtags of any length, or one of those that
were registered before this form.
-/
import GraphStore.Text.Characters

namespace GraphStore.Text

/-- The tags that were registered before the general form. -/
def registeredTags : List String :=
  ["art-lojban", "cel-gaulish", "en-gb-oed", "i-ami", "i-bnn", "i-default", "i-enochian", "i-hak",
    "i-klingon", "i-lux", "i-mingo", "i-navajo", "i-pwn", "i-tao", "i-tay", "i-tsu", "no-bok",
    "no-nyn", "sgn-be-fr", "sgn-be-nl", "sgn-ch-de", "zh-guoyu", "zh-hakka", "zh-min",
    "zh-min-nan", "zh-xiang"]

/-- A letter or digit of ASCII. -/
def isAsciiAlphanumeric (c : Char) : Bool := isAsciiLetter c || isAsciiDigit c

/-- What has been read of a tag. -/
inductive TagStage where
  /-- The language and as many extended languages as the number says. -/
  | language (extended : Nat)
  | script
  /-- The region or a variant. -/
  | region
  /-- An extension; `opened` if nothing has followed the mark that opens it. -/
  | extension (opened : Bool)
  /-- The private part, likewise. -/
  | privateUse (opened : Bool)
deriving DecidableEq, Inhabited, Repr

namespace TagStage

/-- Whether a tag may end here. -/
def complete : TagStage → Bool
  | .extension opened => !opened
  | .privateUse opened => !opened
  | _ => true

/-- A subtag that names a region: two letters or three digits. -/
def isRegion (cs : List Char) : Bool :=
  (cs.length == 2 && cs.all isAsciiLetter) || (cs.length == 3 && cs.all isAsciiDigit)

/-- A subtag that names a variant: five characters or more, or four of which the first is a
digit. -/
def isVariant (cs : List Char) : Bool :=
  cs.all isAsciiAlphanumeric &&
    ((5 ≤ cs.length && cs.head?.any isAsciiLetter) || (4 ≤ cs.length && cs.head?.any isAsciiDigit))

/-- The stage after a subtag of the general part; `extended` is the number of extended languages
read, if another one may follow. -/
def general? (extended : Option Nat) (beforeScript beforeRegion : Bool) (cs : List Char) :
    Option TagStage :=
  if extended.any (· < 3) && cs.length == 3 && cs.all isAsciiLetter then
    some (.language (extended.getD 0 + 1))
  else if beforeScript && cs.length == 4 && cs.all isAsciiLetter then some .script
  else if beforeRegion && isRegion cs then some .region
  else if isVariant cs then some .region
  else none

/-- The stage after a subtag that is neither a mark nor private. -/
def plain? (s : TagStage) (cs : List Char) : Option TagStage :=
  match s with
  | .language extended => general? (some extended) true true cs
  | .script => general? none false true cs
  | .region => general? none false false cs
  | .extension _ => some (.extension false)
  | .privateUse _ => some (.privateUse false)

/-- Whether the stage is the private part. -/
def isPrivate : TagStage → Bool
  | .privateUse _ => true
  | _ => false

/-- The stage after a subtag. -/
def next? (s : TagStage) (cs : List Char) : Option TagStage :=
  if cs.isEmpty || 8 < cs.length || !cs.all isAsciiAlphanumeric then none
  else if s.isPrivate then some (.privateUse false)
  else if cs.length == 1 then
    if !s.complete then none
    else if cs == ['x'] then some (.privateUse true) else some (.extension true)
  else s.plain? cs

end TagStage

/-- The stage after the language, which has two to eight letters; a long one is extended by no
other language. -/
def languageStage? (cs : List Char) : Option TagStage :=
  if 2 ≤ cs.length && cs.length ≤ 8 && cs.all isAsciiLetter then
    some (.language (if cs.length < 4 then 0 else 3))
  else none

/-- Whether a text in lower case is a language tag. -/
def isLanguageTag (tag : String) : Bool :=
  registeredTags.contains tag ||
    match (tag.splitOn "-").map String.toList with
    | ['x'] :: first :: rest =>
      (first :: rest).all fun cs => !cs.isEmpty && cs.all isAsciiAlphanumeric
    | language :: rest =>
      ((languageStage? language).bind (rest.foldlM TagStage.next?)).any TagStage.complete
    | [] => false

end GraphStore.Text
