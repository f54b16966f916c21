/-
Changes: the quads that one operation removed and added.

Both lists hold what changed, not what was asked for.  A list is absent if changes are not
tracked, which differs from an empty list.
-/
import GraphStore.Term.Text

namespace GraphStore

/-- What an operation changed. -/
structure Change where
  deleted : Option (List Quad)
  inserted : Option (List Quad)
deriving DecidableEq, Inhabited, Repr

namespace Change

/-- The change of an operation that was not tracked. -/
def untracked : Change := ⟨none, none⟩

/-- A list of quads, one to a line, or the note that there is none. -/
def renderQuads (text : Quad → String) : Option (List Quad) → String
  | none => "\n\t<NONE>"
  | some qs => String.join (qs.map fun q => "\n\t" ++ text q)

/-- A change as text, quads written by `text`. -/
def renderWith (text : Quad → String) (c : Change) : String :=
  "Deleted quads" ++ renderQuads text c.deleted ++ "\nUpdated quads" ++
    renderQuads text c.inserted

/-- A change as text. -/
def render (c : Change) : String := c.renderWith Quad.render

end Change

end GraphStore
