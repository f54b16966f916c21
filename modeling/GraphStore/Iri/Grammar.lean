/-
The grammar of absolute IRIs (RFC 3987).

A reference is split into scheme, authority, path, query and fragment, and each part has its own
characters.  The split loses nothing: joining the parts gives the text back
(`IriParts.toText_ofText`).
-/
import GraphStore.Term

namespace GraphStore

/-- Characters in `[lo, hi]`. -/
def inRange (lo hi : Nat) (c : Char) : Bool := lo ≤ c.toNat && c.toNat ≤ hi

/-- The letters `A` to `Z` and `a` to `z`. -/
def isAsciiLetter (c : Char) : Bool := inRange 0x41 0x5a c || inRange 0x61 0x7a c

/-- The digits `0` to `9`. -/
def isAsciiDigit (c : Char) : Bool := inRange 0x30 0x39 c

/-- The digits of base sixteen, in both cases. -/
def isHexDigit (c : Char) : Bool := isAsciiDigit c || inRange 0x41 0x46 c || inRange 0x61 0x66 c

/-- The value of a digit of base sixteen. -/
def hexValue (c : Char) : Nat :=
  if isAsciiDigit c then c.toNat - 48
  else if inRange 0x41 0x46 c then c.toNat - 55
  else c.toNat - 87

namespace IriGrammar

/-- The characters beyond ASCII that may stand in every part. -/
def ucsRanges : List (Nat × Nat) :=
  [(0xa0, 0xd7ff), (0xf900, 0xfdcf), (0xfdf0, 0xffef), (0x10000, 0x1fffd), (0x20000, 0x2fffd),
    (0x30000, 0x3fffd), (0x40000, 0x4fffd), (0x50000, 0x5fffd), (0x60000, 0x6fffd),
    (0x70000, 0x7fffd), (0x80000, 0x8fffd), (0x90000, 0x9fffd), (0xa0000, 0xafffd),
    (0xb0000, 0xbfffd), (0xc0000, 0xcfffd), (0xd0000, 0xdfffd), (0xe1000, 0xefffd)]

/-- The private characters, which may stand in a query only. -/
def privateRanges : List (Nat × Nat) :=
  [(0xe000, 0xf8ff), (0xf0000, 0xffffd), (0x100000, 0x10fffd)]

/-- Letters, digits and the other unreserved characters of ASCII. -/
def isAsciiUnreserved (c : Char) : Bool :=
  isAsciiLetter c || isAsciiDigit c || "-._~".toList.contains c

/-- The unreserved characters of ASCII and beyond. -/
def isUnreserved (c : Char) : Bool :=
  isAsciiUnreserved c || ucsRanges.any fun r => inRange r.1 r.2 c

/-- The delimiters inside a part. -/
def isSubDelim (c : Char) : Bool := "!$&'()*+,;=".toList.contains c

/-- A character of a scheme after its first letter. -/
def isSchemeChar (c : Char) : Bool := isAsciiLetter c || isAsciiDigit c || "+-.".toList.contains c

/-- A character of a host name. -/
def isHostChar (c : Char) : Bool := isUnreserved c || isSubDelim c

/-- A character of the user information. -/
def isUserChar (c : Char) : Bool := isHostChar c || c == ':'

/-- A character of a path, slashes included. -/
def isPathChar (c : Char) : Bool := isHostChar c || ":@/".toList.contains c

/-- A character of a fragment. -/
def isFragmentChar (c : Char) : Bool := isPathChar c || c == '?'

/-- A character of a query. -/
def isQueryChar (c : Char) : Bool :=
  isFragmentChar c || privateRanges.any fun r => inRange r.1 r.2 c

/-- Every character is accepted by `ok` or part of a percent sign with two digits. -/
def allChars (ok : Char → Bool) : List Char → Bool
  | '%' :: a :: b :: cs => isHexDigit a && isHexDigit b && allChars ok cs
  | c :: cs => c != '%' && ok c && allChars ok cs
  | [] => true

/-- The fields of a text between separators. -/
def fields (separator : Char) : List Char → List (List Char)
  | [] => [[]]
  | c :: cs =>
    if c == separator then [] :: fields separator cs
    else match fields separator cs with
      | f :: fs => (c :: f) :: fs
      | [] => [[c]]

/-- A decimal number up to 255 without leading zero. -/
def isOctet (cs : List Char) : Bool :=
  !cs.isEmpty && cs.length ≤ 3 && cs.all isAsciiDigit &&
    (cs.length == 1 || cs.head? != some '0') &&
    cs.foldl (fun n c => 10 * n + hexValue c) 0 ≤ 255

/-- An address of four octets. -/
def isAddress4 (cs : List Char) : Bool :=
  let octets := fields '.' cs
  octets.length == 4 && octets.all isOctet

/-- One to four digits of base sixteen. -/
def isGroup (cs : List Char) : Bool := !cs.isEmpty && cs.length ≤ 4 && cs.all isHexDigit

/-- The number of 16-bit groups in a list of fields; the last may be an address of four octets. -/
def groupCount : List (List Char) → Option Nat
  | [] => some 0
  | [f] => if isGroup f then some 1 else if isAddress4 f then some 2 else none
  | f :: fs => if isGroup f then (groupCount fs).map (· + 1) else none

/-- The text before and after the first double colon. -/
def splitDoubleColon : List Char → Option (List Char × List Char)
  | ':' :: ':' :: cs => some ([], cs)
  | c :: cs => (splitDoubleColon cs).map fun r => (c :: r.1, r.2)
  | [] => none

/-- The fields of a possibly empty text between colons. -/
def colonFields (cs : List Char) : List (List Char) := if cs.isEmpty then [] else fields ':' cs

/-- An address of eight groups, of which a double colon stands for one or more zero groups. -/
def isAddress6 (cs : List Char) : Bool :=
  match splitDoubleColon cs with
  | none => groupCount (fields ':' cs) == some 8
  | some (before, after) =>
    let head := colonFields before
    match groupCount head, groupCount (colonFields after) with
    | some m, some n => m == head.length && m + n ≤ 7
    | _, _ => false

/-- An address of a later version: `v`, the version, a point and some characters of ASCII. -/
def isAddressFuture : List Char → Bool
  | v :: cs =>
    let version := cs.takeWhile (· != '.')
    let rest := (cs.dropWhile (· != '.')).drop 1
    (v == 'v' || v == 'V') && !version.isEmpty && version.all isHexDigit && !rest.isEmpty &&
      rest.all fun c => isAsciiUnreserved c || isSubDelim c || c == ':'
  | [] => false

/-- Nothing, or a colon and digits. -/
def isHostNumber : List Char → Bool
  | [] => true
  | c :: cs => c == ':' && cs.all isAsciiDigit

/-- A host, an address in brackets or a name, with an optional number after a colon. -/
def isHost : List Char → Bool
  | '[' :: cs =>
    let address := cs.takeWhile (· != ']')
    match cs.dropWhile (· != ']') with
    | _ :: number => (isAddressFuture address || isAddress6 address) && isHostNumber number
    | [] => false
  | cs => allChars isHostChar (cs.takeWhile (· != ':')) && isHostNumber (cs.dropWhile (· != ':'))

/-- An authority: optional user information, host and number. -/
def isAuthority (cs : List Char) : Bool :=
  match cs.dropWhile (· != '@') with
  | _ :: host => allChars isUserChar (cs.takeWhile (· != '@')) && isHost host
  | [] => isHost cs

/-- Whether a text is the scheme of a reference. -/
def isScheme : List Char → Bool
  | c :: cs => isAsciiLetter c && cs.all isSchemeChar
  | [] => false

end IriGrammar

open IriGrammar

/-- The parts of an IRI or of a relative reference. -/
structure IriParts where
  scheme : Option (List Char)
  authority : Option (List Char)
  path : List Char
  query : Option (List Char)
  fragment : Option (List Char)
deriving DecidableEq, Repr

namespace IriParts

/-- The scheme in front of a reference and what follows its colon. -/
def splitScheme (cs : List Char) : Option (List Char) × List Char :=
  let head := cs.takeWhile (· != ':')
  match cs.dropWhile (· != ':') with
  | _ :: rest => if isScheme head then (some head, rest) else (none, cs)
  | [] => (none, cs)

/-- The characters that end an authority. -/
def endsAuthority (c : Char) : Bool := c == '/' || c == '?' || c == '#'

/-- The authority in front of a text, after two slashes. -/
def splitAuthority : List Char → Option (List Char) × List Char
  | '/' :: '/' :: cs =>
    (some (cs.takeWhile (!endsAuthority ·)), cs.dropWhile (!endsAuthority ·))
  | cs => (none, cs)

/-- The text before the first `mark`, and the one after it if there is a mark. -/
def splitMark (mark : Char) (cs : List Char) : List Char × Option (List Char) :=
  (cs.takeWhile (· != mark), match cs.dropWhile (· != mark) with
    | _ :: rest => some rest
    | [] => none)

/-- The parts of a reference. -/
def ofText (cs : List Char) : IriParts :=
  let scheme := splitScheme cs
  let authority := splitAuthority scheme.2
  let fragment := splitMark '#' authority.2
  let query := splitMark '?' fragment.1
  ⟨scheme.1, authority.1, query.1, query.2, fragment.2⟩

/-- The reference with the given parts. -/
def toText (p : IriParts) : List Char :=
  p.scheme.elim [] (· ++ [':']) ++ p.authority.elim [] (['/', '/'] ++ ·) ++ p.path ++
    p.query.elim [] ('?' :: ·) ++ p.fragment.elim [] ('#' :: ·)

/-- The first segment of a path. -/
def firstSegment (path : List Char) : List Char := path.takeWhile (· != '/')

/-- Each part has only the characters it may have, and a text that starts with its path has no colon
in the first segment, since what stands before it would be a scheme. -/
def wellFormed (p : IriParts) : Bool :=
  p.authority.all isAuthority && allChars isPathChar p.path &&
    p.query.all (allChars isQueryChar) && p.fragment.all (allChars isFragmentChar) &&
    !(p.scheme.isNone && p.authority.isNone && (firstSegment p.path).contains ':')

theorem splitMark_join (mark : Char) (cs : List Char) :
    (splitMark mark cs).1 ++ (splitMark mark cs).2.elim [] (mark :: ·) = cs := by
  conv => rhs; rw [← List.takeWhile_append_dropWhile (p := (· != mark)) (l := cs)]
  simp only [splitMark]
  congr 1
  cases h : cs.dropWhile (· != mark) with
  | nil => rfl
  | cons d rest =>
    have := List.head?_dropWhile_not (· != mark) cs
    rw [h] at this
    simp at this
    simp [this]

theorem splitScheme_join (cs : List Char) :
    (splitScheme cs).1.elim [] (· ++ [':']) ++ (splitScheme cs).2 = cs := by
  simp only [splitScheme]
  cases h : cs.dropWhile (· != ':') with
  | nil => rfl
  | cons d rest =>
    have hd := List.head?_dropWhile_not (· != ':') cs
    rw [h] at hd
    simp at hd
    subst hd
    have hcs : cs = cs.takeWhile (· != ':') ++ ':' :: rest := by
      rw [← h, List.takeWhile_append_dropWhile]
    by_cases hs : isScheme (cs.takeWhile (· != ':'))
    · simp only [hs, if_true, Option.elim_some, List.append_assoc, List.singleton_append]
      exact hcs.symm
    · simp [hs]

theorem splitAuthority_join (cs : List Char) :
    (splitAuthority cs).1.elim [] (['/', '/'] ++ ·) ++ (splitAuthority cs).2 = cs := by
  unfold splitAuthority
  split
  · simp
  · rfl

/-- Splitting a reference into its parts loses nothing. -/
theorem toText_ofText (cs : List Char) : (ofText cs).toText = cs := by
  simp only [ofText, toText, List.append_assoc]
  rw [← List.append_assoc (splitMark '?' _).1, splitMark_join, splitMark_join,
    splitAuthority_join, splitScheme_join]

end IriParts

/-- Whether a text is an absolute IRI. -/
def isAbsoluteIri (text : String) : Bool :=
  let parts := IriParts.ofText text.toList
  parts.scheme.isSome && parts.wellFormed

/-- Reads an absolute IRI and keeps it as it is written. -/
def Iri.ofText? (text : String) : Option Iri := if isAbsoluteIri text then some ⟨text⟩ else none

end GraphStore
