/-
Resolution of references against a base IRI.

A reference with a scheme or an authority has its path as it is written.  Any other path leads from
the directory of the base: `.` stays in a directory and `..` leads out of it.  The directory of the
base itself is not simplified.
-/
import GraphStore.Iri.Grammar

namespace GraphStore

open IriGrammar

namespace IriParts

/-- A path up to its last slash; after an authority (`rooted`) it is the root at least. -/
def directory (rooted : Bool) (path : List Char) : List Char :=
  let up := (path.reverse.dropWhile (· != '/')).reverse
  if rooted && up.isEmpty then ['/'] else up

/-- The directory that a directory is in. -/
def parent (rooted : Bool) (path : List Char) : List Char := directory rooted path.dropLast

/-- The directory that a segment leads to.  Without authority an empty segment does not lead out of
the root, since the path would then read as an authority. -/
def enter? (rooted : Bool) (path segment : List Char) : Option (List Char) :=
  if segment == ['.', '.'] then some (parent rooted path)
  else if segment == ['.'] then some path
  else if !rooted && path == ['/'] && segment.isEmpty then none
  else some (path ++ segment ++ ['/'])

/-- The path that segments lead to from a directory. -/
def follow? (rooted : Bool) (path : List Char) : List (List Char) → Option (List Char)
  | [] => some path
  | [last] =>
    some (if last == ['.', '.'] then parent rooted path
      else if last == ['.'] then path
      else path ++ last)
  | segment :: segments => do follow? rooted (← enter? rooted path segment) segments

/-- The path that a path leads to from the path of the base. -/
def pathFrom? (base : IriParts) (path : List Char) : Option (List Char) :=
  let rooted := base.authority.isSome
  if path.head? == some '/' then follow? rooted ['/'] (fields '/' (path.drop 1))
  else follow? rooted (directory rooted base.path) (fields '/' path)

/-- The reference `r` seen from `base`. -/
def resolve? (base r : IriParts) : Option IriParts :=
  if r.scheme.isSome then some r
  else if r.authority.isSome then some { r with scheme := base.scheme }
  else if r.path.isEmpty then
    some ⟨base.scheme, base.authority, base.path, r.query.or base.query, r.fragment⟩
  else do
    return ⟨base.scheme, base.authority, ← base.pathFrom? r.path, r.query, r.fragment⟩

end IriParts

/-- The absolute IRI that a reference denotes under a base. -/
def Iri.resolve? (base : Iri) (reference : String) : Option Iri := do
  let r := IriParts.ofText reference.toList
  guard r.wellFormed
  let target ← (IriParts.ofText base.text.toList).resolve? r
  return ⟨String.ofList target.toText⟩

end GraphStore
