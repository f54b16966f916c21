/-
# `GraphStore.Proofs.Permission` — nothing changes that the user may not change

`before.ChangesOnly may after` compares two contents: a quad or a registration that
is in one of them and not in the other is the subject of a write that is allowed.
Every list of allowed writes gives it (`changesOnly_of_writes`), whatever the two
contents hold, so it needs no invariant of the store.

`operation_permitted` is the statement about the program.  It is made about any
operation of a batch, at the point where the operation has succeeded, whether or not
the batch is committed later.  The user is the one of the operation, or else of the
batch, or else the default user.
-/
import GraphStore.Proofs.Run

namespace GraphStore

/-- What only one of the two contents has was changed by a write that is allowed. -/
structure Content.ChangesOnly (may : Write → Prop) (before after : Content) : Prop where
  removed : ∀ q, before.lists.Holds q → ¬ after.lists.Holds q → may (.remove q)
  inserted : ∀ q, ¬ before.lists.Holds q → after.lists.Holds q → may (.insert q)
  unregistered : ∀ g, g ∈ before.graphs → g ∉ after.graphs → may (.unregister g)
  registered : ∀ g, g ∉ before.graphs → g ∈ after.graphs → may (.register g)

namespace QuadLists

variable {l : QuadLists} {q x : Quad}

/-- Erasing a quad makes no other quad appear or disappear, also where it was held twice. -/
theorem holds_erase_of_ne (h : q ≠ x) : (l.erase x).Holds q ↔ l.Holds q := by
  unfold Holds erase
  cases hx : x.graph <;> cases hq : q.graph
  · have ht : q.triple ≠ x.triple := fun ht => h (eq_of_triple_eq ht (hq.trans hx.symm))
    simp [List.mem_erase_of_ne ht]
  · simp
  · simp
  · simp [List.mem_erase_of_ne h]

theorem holds_of_holds_erase (h : (l.erase x).Holds q) : l.Holds q := by
  unfold Holds erase at *
  cases hx : x.graph <;> cases hq : q.graph <;> simp only [hx, hq] at h ⊢
  · exact List.mem_of_mem_erase h
  · exact h
  · exact h
  · exact List.mem_of_mem_erase h

end QuadLists

namespace Content

variable {may may' : Write → Prop} {c c' c'' : Content}

theorem ChangesOnly.refl (may : Write → Prop) (c : Content) : c.ChangesOnly may c :=
  ⟨fun _ h h' => absurd h h', fun _ h h' => absurd h' h, fun _ h h' => absurd h h',
    fun _ h h' => absurd h' h⟩

theorem ChangesOnly.trans (h : c.ChangesOnly may c') (h' : c'.ChangesOnly may c'') :
    c.ChangesOnly may c'' := by
  constructor
  · intro q hq hq''
    by_cases hq' : c'.lists.Holds q
    · exact h'.removed q hq' hq''
    · exact h.removed q hq hq'
  · intro q hq hq''
    by_cases hq' : c'.lists.Holds q
    · exact h.inserted q hq hq'
    · exact h'.inserted q hq' hq''
  · intro g hg hg''
    by_cases hg' : g ∈ c'.graphs
    · exact h'.unregistered g hg' hg''
    · exact h.unregistered g hg hg'
  · intro g hg hg''
    by_cases hg' : g ∈ c'.graphs
    · exact h.registered g hg hg'
    · exact h'.registered g hg' hg''

/-- One write changes nothing but its own subject. -/
theorem changesOnly_apply (c : Content) {w : Write} (hw : may w) :
    c.ChangesOnly may (w.apply c) := by
  cases w with
  | insert x =>
      refine ⟨fun q hq hq' => ?_, fun q hq hq' => ?_, fun _ h h' => absurd h h',
        fun _ h h' => absurd h' h⟩
      · exact absurd (QuadLists.holds_append.mpr (.inl hq)) hq'
      · rcases QuadLists.holds_append.mp hq' with hq' | rfl
        · exact absurd hq' hq
        · exact hw
  | remove x =>
      have hother : ∀ q, q ≠ x → (c.lists.Holds q ↔ ((Write.remove x).apply c).lists.Holds q) :=
        fun q hne => (QuadLists.holds_erase_of_ne hne).symm
      refine ⟨fun q hq hq' => ?_, fun q hq hq' => ?_, fun _ h h' => absurd h h',
        fun _ h h' => absurd h' h⟩
      · by_cases hqx : q = x
        · rw [hqx]
          exact hw
        · exact absurd ((hother q hqx).mp hq) hq'
      · by_cases hqx : q = x
        · rw [hqx] at hq hq'
          exact absurd (QuadLists.holds_of_holds_erase hq') hq
        · exact absurd ((hother q hqx).mpr hq') hq
  | register x =>
      refine ⟨fun _ h h' => absurd h h', fun _ h h' => absurd h' h, fun g hg hg' => ?_,
        fun g hg hg' => ?_⟩
      · exact absurd (List.mem_append_left _ hg) hg'
      · rcases List.mem_append.mp hg' with hg' | hg'
        · exact absurd hg' hg
        · rw [List.mem_singleton.mp hg']
          exact hw
  | unregister x =>
      refine ⟨fun _ h h' => absurd h h', fun _ h h' => absurd h' h, fun g hg hg' => ?_,
        fun g hg hg' => ?_⟩
      · by_cases hgx : g = x
        · rw [hgx]
          exact hw
        · exact absurd ((List.mem_erase_of_ne hgx).mpr hg) hg'
      · exact absurd (List.mem_of_mem_erase hg') hg

theorem changesOnly_of_writes {ws : List Write} (hmay : ∀ w ∈ ws, may w) (c : Content) :
    c.ChangesOnly may (ws.foldl Write.apply c) := by
  induction ws generalizing c with
  | nil => exact .refl _ _
  | cons w ws ih =>
      refine (changesOnly_apply c (hmay w List.mem_cons_self)).trans (ih ?_ _)
      exact fun x hx => hmay x (List.mem_cons_of_mem _ hx)

end Content

/-- The dataset of the batch does not matter for what an operation may do. -/
theorem Action.entitles_withScope (a : Action) (scope : Option Using)
    (may : AccessKind → GraphName → Prop) : (a.withScope scope).Entitles may = a.Entitles may := by
  cases a with
  | modify m =>
      funext w
      cases w <;> rfl
  | create _ _ | graph _ | insertData _ | deleteData _ => rfl

namespace Session

/-- An operation of a batch that succeeds has made only changes that the policy allows its user:
the writes it has made, the quads and registrations by which the contents before and after it
differ, and the quads it answers are all ones that the operation may write. -/
theorem operation_permitted {s : Session} {env : Environment} {call : BatchCall}
    {ops : List Operation} {op : Operation} {changes : List Change} {b' : Batch}
    (hlooks : env.evaluator.Looks)
    (h : s.progress env call (ops ++ [op]) = (.ok changes, b')) :
    ∃ before change b, ∃ ws : List Write, changes = before ++ [change] ∧
      s.progress env call ops = (.ok before, b) ∧
      b'.tx.content = ws.foldl Write.apply b.tx.content ∧
      (∀ w ∈ ws, op.action.Entitles
        (env.May (op.user.getD (call.user.getD env.options.defaultUser))) w) ∧
      b.tx.content.ChangesOnly (op.action.Entitles
        (env.May (op.user.getD (call.user.getD env.options.defaultUser)))) b'.tx.content ∧
      (env.options.trackChanges = true →
        change = ⟨some (ws.flatMap Write.removed), some (ws.flatMap Write.added)⟩) := by
  obtain ⟨before, b, change, hchanges, hbefore, hanswer, ws, hws, hmay⟩ :=
    progress_concat hlooks h
  rw [Action.entitles_withScope] at hmay
  have hcontent : b'.tx.content = ws.foldl Write.apply b.tx.content := hws.content_eq
  refine ⟨before, change, b, ws, hchanges, hbefore, hcontent, hmay, ?_, fun htracked => ?_⟩
  · rw [hcontent]
    exact Content.changesOnly_of_writes hmay _
  · rw [hanswer, Step.answer, if_pos htracked, hws.deleted_eq, hws.inserted_eq]
    rfl

/-- Moves the triples with the predicate `p` to the graph that their subject names. -/
def relocate (p : Iri) : Operation :=
  { action := .modify {
      delete := [⟨.var ⟨"s"⟩, .iri p, .var ⟨"o"⟩, .default⟩]
      insert := [⟨.var ⟨"s"⟩, .iri p, .var ⟨"o"⟩, .var ⟨"s"⟩⟩]
      pattern := .bgp [⟨.var ⟨"s"⟩, .iri p, .var ⟨"o"⟩⟩] } }

/-- One user may query everything, delete in the default graph, and update one named graph. -/
def oneGraph (user : User) (g : Resource) : Policy := fun kind graph u =>
  u == user && (kind == .query || (kind == .delete && graph == .default) ||
    (kind == .update && graph == .named g))

/-- The graph of an inserted quad may come from a variable of the template. -/
theorem operation_permitted_relocate :
    let t : Triple := ⟨.iri ⟨"s"⟩, ⟨"p"⟩, .iri ⟨"o"⟩⟩
    let env : Environment := { policy := oneGraph "editor" (.iri ⟨"s"⟩) }
    let s : Session := { content := { triples := [t] } }
    ∃ changes b',
      s.progress env { user := some "editor" } ([] ++ [relocate ⟨"p"⟩]) = (.ok changes, b') ∧
      changes = [⟨some [t.inGraph .default], some [t.inGraph (.named (.iri ⟨"s"⟩))]⟩] ∧
      s.content.ChangesOnly ((relocate ⟨"p"⟩).action.Entitles (env.May "editor")) b'.tx.content := by
  intro t env s
  have hok := eq_ok_of_toOption
    (r := s.progress env { user := some "editor" } ([] ++ [relocate ⟨"p"⟩]))
    (a := [⟨some [t.inGraph .default], some [t.inGraph (.named (.iri ⟨"s"⟩))]⟩]) (by decide +kernel)
  obtain ⟨before, change, b, ws, -, hbefore, -, -, honly, -⟩ :=
    operation_permitted Evaluator.looks_scanning hok
  obtain ⟨rfl, rfl⟩ := Step.ends_operations_nil.mp hbefore
  exact ⟨_, _, hok, rfl, honly⟩

end Session

end GraphStore
