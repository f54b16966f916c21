/-
Options of update execution.
-/
import GraphStore.Config

namespace GraphStore

/-- How updates are executed if a call does not say otherwise. -/
structure Options where
  /-- The user of a batch that names none. -/
  defaultUser : User := AccessList.defaultAdmin
  /-- Whether results list the changed quads. -/
  trackChanges : Bool := true
  /-- The IRI that relative references of update text are resolved against. -/
  baseIri : Option String := none
deriving DecidableEq, Inhabited, Repr

namespace Options

/-- Options are written with all fields. -/
def toConfig (o : Options) : Config :=
  .record [("default_user", .text o.defaultUser), ("track_changes", .flag o.trackChanges),
    ("base_iri", match o.baseIri with
      | some base => .text base
      | none => .null)]

/-- Reads a text that may be absent. -/
def baseOfConfig? : Config → Option (Option String)
  | .null => some none
  | .text base => some (some base)
  | _ => none

/-- Every field has a default. -/
def ofConfig? (c : Config) : Option Options :=
  match c.fields? ["default_user", "track_changes", "base_iri"] with
  | some [user, track, base] => do
    let user ← Config.orDefault Config.toText? AccessList.defaultAdmin user
    let track ← Config.orDefault Config.toFlag? true track
    let base ← Config.orDefault baseOfConfig? none base
    return ⟨user, track, base⟩
  | _ => none

end Options

end GraphStore
