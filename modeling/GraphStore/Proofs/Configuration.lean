/-
# `GraphStore.Proofs.Configuration` — access lists written down and read back

An access list is kept as a configuration value.

    AccessList ──toConfig──▶ Config ──ofConfigWith? parse──▶ AccessList

Two things could go wrong on the way.  A selector is written as a text, and `DEFAULT` and `ALL`
stand in one name space with the IRIs of graphs; they are kept apart by the colon behind the
scheme of an absolute IRI (`ReadsIris.ne_keyword`).  And a field that is missing has a default,
which grants more than an empty one; so all fields are written, the empty ones too.

How IRIs are read is left open: `parse` is any function that accepts absolute IRIs only and keeps
them as they are written (`ReadsIris`).  The reader of the store is one (`readsIris_ofText?`).

`AccessList.Writable` is the one condition on a list: `parse` accepts the IRIs of the graphs that
the rules name.  A list that has been read satisfies it (`AccessList.writable_of_ofConfigWith?`),
whatever it was read from, and a list that satisfies it comes back
(`AccessList.ofConfigWith?_toConfig`).
-/
import GraphStore.Config

namespace GraphStore

/-! ## Reading IRIs -/

/-- What is relied on of a function that reads IRIs. -/
structure ReadsIris (parse : String → Option Iri) : Prop where
  /-- It accepts absolute IRIs only, and these begin with a scheme. -/
  absolute : ∀ {text : String} {i : Iri}, parse text = some i →
    ∃ scheme rest : String, text = scheme ++ ":" ++ rest
  /-- It keeps them as they are written. -/
  verbatim : ∀ {text : String} {i : Iri}, parse text = some i → i.text = text

variable {parse : String → Option Iri}

/-- A word without a colon is no absolute IRI. -/
theorem ReadsIris.ne_keyword (hparse : ReadsIris parse) {text keyword : String}
    (h : (parse text).isSome = true) (hkeyword : ':' ∉ keyword.toList) : text ≠ keyword := by
  rintro rfl
  obtain ⟨i, hi⟩ := Option.isSome_iff_exists.mp h
  obtain ⟨scheme, rest, rfl⟩ := hparse.absolute hi
  exact hkeyword (by simp)

/-- An accepted IRI is read as itself. -/
theorem ReadsIris.parse_text (hparse : ReadsIris parse) {i : Iri}
    (h : (parse i.text).isSome = true) : parse i.text = some i := by
  obtain ⟨j, hj⟩ := Option.isSome_iff_exists.mp h
  have htext : j.text = i.text := hparse.verbatim hj
  cases i
  cases j
  obtain rfl := htext
  exact hj

/-- What has been read is accepted again. -/
theorem ReadsIris.isSome_parse_text (hparse : ReadsIris parse) {text : String} {i : Iri}
    (h : parse text = some i) : (parse i.text).isSome = true := by
  rw [hparse.verbatim h, h]
  rfl

/-- An IRI is read if it is absolute, and kept as it is written. -/
theorem Iri.ofText?_eq_some {text : String} {i : Iri} :
    Iri.ofText? text = some i ↔ isAbsoluteIri text = true ∧ i.text = text := by
  unfold Iri.ofText?
  constructor
  · intro h
    split at h
    · rename_i habsolute
      rw [← Option.some.inj h]
      exact ⟨habsolute, rfl⟩
    · cases h
  · rintro ⟨habsolute, rfl⟩
    rw [if_pos habsolute]

/-- A scheme ends at a colon, and an absolute IRI has one. -/
theorem colon_mem_of_isAbsoluteIri {text : String} (h : isAbsoluteIri text = true) :
    ':' ∈ text.toList := by
  rw [isAbsoluteIri, Bool.and_eq_true] at h
  obtain ⟨scheme, hscheme⟩ := Option.isSome_iff_exists.mp h.1
  rw [← IriParts.toText_ofText text.toList, IriParts.toText, hscheme]
  simp

/-- The reader of the store is one of those that are relied on. -/
theorem readsIris_ofText? : ReadsIris Iri.ofText? where
  absolute := by
    intro text i h
    obtain ⟨habsolute, -⟩ := Iri.ofText?_eq_some.mp h
    obtain ⟨scheme, rest, hsplit⟩ := List.append_of_mem (colon_mem_of_isAbsoluteIri habsolute)
    refine ⟨.ofList scheme, .ofList rest, ?_⟩
    rw [← String.toList_inj, hsplit]
    simp
  verbatim := fun h => (Iri.ofText?_eq_some.mp h).2

/-! ## Lists and fields -/

namespace Config

variable {α : Type} {read : Config → Option α} {write : α → Config}

/-- A list comes back if its items do. -/
theorem toList?_map {xs : List α} (h : ∀ x ∈ xs, read (write x) = some x) :
    toList? read (.list (xs.map write)) = some xs := by
  show (xs.map write).mapM read = some xs
  induction xs with
  | nil => rfl
  | cons x xs ih =>
      obtain ⟨hx, hxs⟩ := List.forall_mem_cons.mp h
      rw [List.map_cons, List.mapM_cons, hx, ih hxs]
      rfl

/-- The items of a list that has been read have been read. -/
theorem forall_of_toList? {P : α → Prop} (hread : ∀ c x, read c = some x → P x) {c : Config}
    {xs : List α} (h : toList? read c = some xs) : ∀ x ∈ xs, P x := by
  cases c with
  | list items =>
      replace h : items.mapM read = some xs := h
      induction items generalizing xs with
      | nil =>
          obtain rfl := Option.some.inj h
          exact fun _ hx => absurd hx List.not_mem_nil
      | cons item items ih =>
          rw [List.mapM_cons] at h
          obtain ⟨x, hx, h⟩ := Option.bind_eq_some_iff.mp h
          obtain ⟨rest, hrest, h⟩ := Option.bind_eq_some_iff.mp h
          obtain rfl := Option.some.inj h
          exact List.forall_mem_cons.mpr ⟨hread item x hx, ih hrest⟩
  | null | flag _ | number _ _ | text _ | record _ => cases h

/-- A field holds what has been read, or its default. -/
theorem of_orDefault {P : α → Prop} (hread : ∀ c x, read c = some x → P x) {default x : α}
    (hdefault : P default) {field : Option Config} (h : orDefault read default field = some x) :
    P x := by
  cases field with
  | none =>
      obtain rfl := Option.some.inj h
      exact hdefault
  | some c => exact hread c x h

theorem exists_of_required {field : Option Config} {x : α} (h : required read field = some x) :
    ∃ c, read c = some x := by
  cases field with
  | none => cases h
  | some c => exact ⟨c, h⟩

end Config

/-! ## Kinds, selectors and rules -/

theorem AccessKind.ofConfig?_toConfig (k : AccessKind) : ofConfig? k.toConfig = some k :=
  ofName?_name k

namespace GraphSelector

/-- A graph that is named has an IRI that `parse` accepts. -/
def Writable (parse : String → Option Iri) : GraphSelector → Prop
  | .defaultGraph | .allGraphs => True
  | .named i => (parse i.text).isSome = true

instance (parse : String → Option Iri) (g : GraphSelector) : Decidable (g.Writable parse) := by
  cases g <;> unfold Writable <;> infer_instance

/-- The IRI of a graph is none of the words of a configuration. -/
theorem ofConfigWith?_toConfig (hparse : ReadsIris parse) {g : GraphSelector}
    (h : g.Writable parse) : ofConfigWith? parse g.toConfig = some g := by
  cases g with
  | defaultGraph | allGraphs => rfl
  | named i =>
      have hdefault : i.text ≠ "DEFAULT" := hparse.ne_keyword h (by decide)
      have hall : i.text ≠ "ALL" := hparse.ne_keyword h (by decide)
      show ofTextWith? parse i.text = some (.named i)
      rw [ofTextWith?, if_neg hdefault, if_neg hall, hparse.parse_text h]
      rfl

/-- A text that is read as a named graph is an IRI that is accepted. -/
theorem writable_of_ofConfigWith? (hparse : ReadsIris parse) {c : Config} {g : GraphSelector}
    (h : ofConfigWith? parse c = some g) : g.Writable parse := by
  obtain ⟨text, -, htext⟩ := Option.bind_eq_some_iff.mp h
  unfold ofTextWith? at htext
  split at htext
  · rw [← Option.some.inj htext]
    exact trivial
  · split at htext
    · rw [← Option.some.inj htext]
      exact trivial
    · obtain ⟨i, hi, rfl⟩ := Option.map_eq_some_iff.mp htext
      exact hparse.isSome_parse_text hi

end GraphSelector

namespace AccessRule

theorem ofConfigWith?_toConfig (hparse : ReadsIris parse) {r : AccessRule}
    (h : r.graph.Writable parse) : ofConfigWith? parse r.toConfig = some r := by
  have hkinds : Config.toList? AccessKind.ofConfig? (.list (r.kinds.map AccessKind.toConfig)) =
      some r.kinds := Config.toList?_map fun k _ => k.ofConfig?_toConfig
  have hfields : r.toConfig.fields? ["user", "graph", "kinds"] = some [some (.text r.user),
      some r.graph.toConfig, some (.list (r.kinds.map AccessKind.toConfig))] := rfl
  rw [ofConfigWith?, hfields]
  simp only [Config.required, Config.orDefault, Config.toText?, hkinds,
    GraphSelector.ofConfigWith?_toConfig hparse h]
  rfl

theorem writable_of_ofConfigWith? (hparse : ReadsIris parse) {c : Config} {r : AccessRule}
    (h : ofConfigWith? parse c = some r) : r.graph.Writable parse := by
  unfold ofConfigWith? at h
  split at h
  · obtain ⟨user, -, h⟩ := Option.bind_eq_some_iff.mp h
    obtain ⟨graph, hgraph, h⟩ := Option.bind_eq_some_iff.mp h
    obtain ⟨kinds, -, h⟩ := Option.bind_eq_some_iff.mp h
    obtain rfl := Option.some.inj h
    obtain ⟨c, hc⟩ := Config.exists_of_required hgraph
    exact GraphSelector.writable_of_ofConfigWith? hparse hc
  · cases h

end AccessRule

/-! ## Access lists -/

namespace AccessList

/-- The graphs that the rules name have IRIs that `parse` accepts. -/
def Writable (parse : String → Option Iri) (l : AccessList) : Prop :=
  ∀ r ∈ l.rules, r.graph.Writable parse

instance (parse : String → Option Iri) (l : AccessList) : Decidable (l.Writable parse) := by
  unfold Writable
  infer_instance

/-- Written down and read back, the list is the same and decides the same. -/
def Survives (parse : String → Option Iri) (l : AccessList) : Prop :=
  ∃ l', ofConfigWith? parse l.toConfig = some l' ∧ l' = l ∧
    ∀ kind graph user, l'.policy.check kind graph user = l.policy.check kind graph user

theorem ofConfigWith?_toConfig (hparse : ReadsIris parse) {l : AccessList}
    (h : l.Writable parse) : ofConfigWith? parse l.toConfig = some l := by
  have hadmins : Config.toList? Config.toText? (.list (l.admins.map Config.text)) =
      some l.admins := Config.toList?_map fun _ _ => rfl
  have hrules : Config.toList? (AccessRule.ofConfigWith? parse)
      (.list (l.rules.map AccessRule.toConfig)) = some l.rules :=
    Config.toList?_map fun r hr => AccessRule.ofConfigWith?_toConfig hparse (h r hr)
  have hfields : l.toConfig.fields? ["admins", "rules"] = some [
      some (.list (l.admins.map Config.text)),
      some (.list (l.rules.map AccessRule.toConfig))] := rfl
  rw [ofConfigWith?, hfields]
  simp only [Config.orDefault, hadmins, hrules]
  rfl

theorem writable_of_ofConfigWith? (hparse : ReadsIris parse) {c : Config} {l : AccessList}
    (h : ofConfigWith? parse c = some l) : l.Writable parse := by
  unfold ofConfigWith? at h
  split at h
  · obtain ⟨admins, -, h⟩ := Option.bind_eq_some_iff.mp h
    obtain ⟨rules, hrules, h⟩ := Option.bind_eq_some_iff.mp h
    obtain rfl := Option.some.inj h
    refine Config.of_orDefault (P := fun rules => ∀ r ∈ rules, r.graph.Writable parse) ?_ ?_
      hrules
    · intro c rules hc
      exact Config.forall_of_toList?
        (fun _ _ => AccessRule.writable_of_ofConfigWith? hparse) hc
    · exact fun _ hr => absurd hr List.not_mem_nil
  · cases h

theorem survives_iff (hparse : ReadsIris parse) {l : AccessList} :
    l.Survives parse ↔ l.Writable parse := by
  constructor
  · rintro ⟨l', hread, rfl, -⟩
    exact writable_of_ofConfigWith? hparse hread
  · intro h
    exact ⟨l, ofConfigWith?_toConfig hparse h, rfl, fun _ _ _ => rfl⟩

/-- An access list survives being written down exactly if the IRIs of the graphs that its rules name
are accepted.  Whatever configuration is accepted, the list it stands for is of this kind: written
back and read again it is the same list, and answers every question in the same way. -/
theorem configuration_keeps_decisions (hparse : ReadsIris parse) :
    (∀ l : AccessList, l.Survives parse ↔ l.Writable parse) ∧
      ∀ (c : Config) (l : AccessList), ofConfigWith? parse c = some l →
        l.Writable parse ∧ l.Survives parse := by
  refine ⟨fun l => survives_iff hparse, fun c l h => ?_⟩
  have hwritable : l.Writable parse := writable_of_ofConfigWith? hparse h
  exact ⟨hwritable, (survives_iff hparse).mpr hwritable⟩

/-- Administrators and kinds are missing, and a list of kinds is empty: each comes back as it was
read.  A graph whose IRI is the word for the default graph does not come back. -/
theorem configuration_keeps_decisions_missing_fields :
    let c : Config := .record [("rules", .list [
      .record [("user", .text "monger"), ("graph", .text "http://graph_1")],
      .record [("user", .text "gonger"), ("graph", .text "DEFAULT"), ("kinds", .list [])]])]
    let l : AccessList := {
      admins := ["admin"]
      rules := [⟨"monger", .named ⟨"http://graph_1"⟩, AccessKind.all⟩,
        ⟨"gonger", .defaultGraph, []⟩] }
    ReadsIris Iri.ofText? ∧ ofConfig? c = some l ∧ l.Writable Iri.ofText? ∧
      l.Survives Iri.ofText? ∧
      ¬ (withoutAdmins.allowAll "monger" (.named ⟨"DEFAULT"⟩)).Survives Iri.ofText? := by
  intro c l
  obtain ⟨hsurvives, hread⟩ := configuration_keeps_decisions readsIris_ofText?
  have hc : ofConfig? c = some l := by decide +kernel
  obtain ⟨hwritable, hl⟩ := hread c l hc
  refine ⟨readsIris_ofText?, hc, hwritable, hl, ?_⟩
  rw [hsurvives]
  decide +kernel

end AccessList

end GraphStore
