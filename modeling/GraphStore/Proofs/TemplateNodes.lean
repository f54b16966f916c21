/-
# `GraphStore.Proofs.TemplateNodes` — the blank nodes of insert templates are new ones

A blank node that is written in an insert template is a label.  Each solution has a new node for
each label, whatever template the label stands in:

              _:a      _:b
    s₀        k        k+1
    s₁        k+2      k+3
    ⋮

`Modify.NewNodes` says what there is to know about such a table, if the supply of new nodes keeps
clear of the store, of the solutions and of the templates.  A quad with a new node betrays its
row: another solution cannot yield it, and it was not in the store.  So it is inserted, and all
that can make the same quad is another template for the same solution, with the same labels in
the same positions (`Modify.NewNodes.own`).  There such templates do merge, as what is inserted is
a set of quads (`merging_templates`).
-/
import GraphStore.Proofs.Modification
import GraphStore.Proofs.Renaming

namespace GraphStore

/-! ## Mentioned nodes -/

/-- The node stands somewhere in the quad. -/
def Quad.Mentions (q : Quad) (n : BlankNode) : Prop :=
  q.subject.toTerm = .blank n ∨ q.object = .blank n ∨ q.graph = .named (.blank n)

/-- The node stands in a quad of the content, or is a graph of it. -/
def Content.Mentions (c : Content) (n : BlankNode) : Prop :=
  (∃ q, c.lists.Holds q ∧ q.Mentions n) ∨ .blank n ∈ c.graphs

/-- The solution binds the node. -/
def Binding.Mentions (s : Binding) (n : BlankNode) : Prop := ∃ v, s.get? v = some (.blank n)

/-- The labels of a template. -/
def QuadPattern.labels (t : QuadPattern) : List BlankNode := t.subject.blanks ++ t.object.blanks

namespace Modify

/-- The update could meet the node: it is one of the store, of the solutions or of the templates. -/
def Meets (m : Modify) (c : Content) (S : List Binding) (n : BlankNode) : Prop :=
  c.Mentions n ∨ (∃ s ∈ S, s.Mentions n) ∨ n ∈ templateBlanks m.insert

/-- For the solution `i`, the template yields the quad, labels taken through `node i`. -/
def Yields (m : Modify) (S : List Binding) (node : Nat → BlankNode → BlankNode) (i : Nat)
    (t : QuadPattern) (q : Quad) : Prop :=
  ∃ s, S[i]? = some s ∧ t ∈ m.insert ∧ t.Instance (fun n n' => node i n = n') s q

/-- `node i n` is a new node for the label `n` and the solution `i`. -/
structure NewNodes (m : Modify) (c : Content) (S : List Binding)
    (node : Nat → BlankNode → BlankNode) : Prop where
  /-- Another label or another solution has another node. -/
  apart {i i' n n'} : n ∈ templateBlanks m.insert → n' ∈ templateBlanks m.insert →
    node i n = node i' n' → i = i' ∧ n = n'
  /-- The nodes are not those of the store, of the solutions or of the templates. -/
  unmet {i n} : n ∈ templateBlanks m.insert → ¬ m.Meets c S (node i n)

variable {m : Modify} {c : Content} {S : List Binding} {node : Nat → BlankNode → BlankNode}
  {start i i' : Nat} {s s' : Binding} {t t' : QuadPattern} {q : Quad}

theorem mem_templateBlanks (ht : t ∈ m.insert) {n : BlankNode} (hn : n ∈ t.labels) :
    n ∈ templateBlanks m.insert :=
  List.mem_eraseDups.mpr (List.mem_flatMap.mpr ⟨t, ht, hn⟩)

/-- The table of new nodes: row by row, from `start` on. -/
theorem newNodes_freshNode (hsupply : ∀ k, start ≤ k → ¬ m.Meets c S (.fresh k)) :
    m.NewNodes c S fun i =>
      freshNode (start + i * (templateBlanks m.insert).length) (templateBlanks m.insert) := by
  constructor
  · intro i i' n n' hn hn' h
    have hlt := List.idxOf_lt_length_of_mem hn
    have hlt' := List.idxOf_lt_length_of_mem hn'
    have hrow : ∀ i k, k < (templateBlanks m.insert).length →
        (i * (templateBlanks m.insert).length + k) / (templateBlanks m.insert).length = i := by
      intro i k hk
      rw [Nat.add_comm, Nat.add_mul_div_right _ _ (Nat.zero_lt_of_lt hk), Nat.div_eq_of_lt hk,
        Nat.zero_add]
    have hk : i * (templateBlanks m.insert).length + (templateBlanks m.insert).idxOf n =
        i' * (templateBlanks m.insert).length + (templateBlanks m.insert).idxOf n' := by
      have hfresh := BlankNode.fresh.inj h
      rw [Nat.add_assoc, Nat.add_assoc] at hfresh
      exact Nat.add_left_cancel hfresh
    have hi : i = i' := by
      rw [← hrow i _ hlt, hk, hrow i' _ hlt']
    subst hi
    exact ⟨rfl, freshNode_injOn _ _ hn hn' h⟩
  · intro i n hn
    obtain ⟨k, hle, -, hk⟩ := exists_freshNode
      (start + i * (templateBlanks m.insert).length) hn
    rw [hk]
    exact hsupply k ((Nat.le_add_right _ _).trans hle)

end Modify

/-! ## What stands for a label -/

section

variable {f : BlankNode → BlankNode} {s : Binding} {p : TermPattern} {x : Term} {n : BlankNode}

theorem TermPattern.Stands.eq_of_mem_blanks (h : p.Stands (fun n n' => f n = n') s x)
    (hn : n ∈ p.blanks) : x = .blank (f n) := by
  cases h with
  | iri _ | literal _ | var _ => exact absurd hn List.not_mem_nil
  | blank hnode => rw [List.mem_singleton.mp hn, hnode]

/-- A blank node takes the place of a label, or is bound by the solution. -/
theorem TermPattern.Stands.blank_cases (h : p.Stands (fun n n' => f n = n') s (.blank n)) :
    (∃ l ∈ p.blanks, f l = n) ∨ s.Mentions n := by
  cases h with
  | blank hnode => exact .inl ⟨_, List.mem_singleton_self _, hnode⟩
  | var hv => exact .inr ⟨_, hv⟩

theorem GraphPattern.Stands.mentions {p : GraphPattern} {g : GraphName} (h : p.Stands s g)
    (hg : g = .named (.blank n)) : s.Mentions n := by
  cases h with
  | default | iri _ => cases hg
  | var hv =>
      cases hg
      exact ⟨_, hv⟩

end

namespace Modify

variable {m : Modify} {c : Content} {S : List Binding} {node : Nat → BlankNode → BlankNode}
  {i i' : Nat} {s s' : Binding} {t t' : QuadPattern} {q : Quad}

/-- The quads that some template yields for some solution are those that the update inserts. -/
theorem exists_yields_iff {start : Nat} : (∃ i t, m.Yields S (fun i => freshNode
      (start + i * (templateBlanks m.insert).length) (templateBlanks m.insert)) i t q) ↔
    m.Inserts start S q := by
  constructor
  · rintro ⟨i, t, s, hs, ht, hinstance⟩
    exact ⟨i, s, hs, t, ht, hinstance⟩
  · rintro ⟨i, s, hs, t, ht, hinstance⟩
    exact ⟨i, t, s, hs, ht, hinstance⟩

/-- Labels are never copied: a blank node of what is yielded is a new one or one that the solution
binds. -/
theorem Yields.mentions_cases (h : m.Yields S node i t q) {n : BlankNode} (hn : q.Mentions n) :
    (∃ l ∈ t.labels, node i l = n) ∨ ∃ s, S[i]? = some s ∧ s.Mentions n := by
  obtain ⟨s, hs, -, hsubject, -, hobject, hgraph⟩ := h
  have hposition : ∀ {p : TermPattern}, p.blanks ⊆ t.labels →
      p.Stands (fun n n' => node i n = n') s (.blank n) →
        (∃ l ∈ t.labels, node i l = n) ∨ ∃ s, S[i]? = some s ∧ s.Mentions n := by
    intro p hp hstands
    rcases hstands.blank_cases with ⟨l, hl, hnode⟩ | hbound
    · exact .inl ⟨l, hp hl, hnode⟩
    · exact .inr ⟨s, hs, hbound⟩
  rcases hn with hn | hn | hn
  · rw [hn] at hsubject
    exact hposition (List.subset_append_left _ _) hsubject
  · rw [hn] at hobject
    exact hposition (List.subset_append_right _ _) hobject
  · exact .inr ⟨s, hs, hgraph.mentions hn⟩

namespace NewNodes

variable (hnew : m.NewNodes c S node)

include hnew

/-- Only the label itself stands for its new node, and only for its solution. -/
theorem eq_of_stands (hs : S[i]? = some s) {p : TermPattern} {n : BlankNode}
    (hp : ∀ n ∈ p.blanks, n ∈ templateBlanks m.insert) (hn : n ∈ templateBlanks m.insert)
    (h : p.Stands (fun n n' => node i n = n') s (.blank (node i' n))) :
    i = i' ∧ p.blanks = [n] := by
  rcases h.blank_cases with ⟨l, hl, hnode⟩ | hbound
  · obtain ⟨rfl, rfl⟩ := hnew.apart (hp l hl) hn hnode
    cases p with
    | blank l' => exact ⟨rfl, by rw [List.mem_singleton.mp hl]; rfl⟩
    | iri _ | literal _ | var _ => exact absurd hl List.not_mem_nil
  · exact absurd (.inr (.inl ⟨s, List.mem_of_getElem? hs, hbound⟩)) (hnew.unmet hn)

/-- Positions that stand for one term have the same label or none, and with a label they belong to
one solution. -/
theorem blanks_eq (hs : S[i]? = some s) (hs' : S[i']? = some s') {p p' : TermPattern} {x : Term}
    (hp : ∀ n ∈ p.blanks, n ∈ templateBlanks m.insert)
    (hp' : ∀ n ∈ p'.blanks, n ∈ templateBlanks m.insert)
    (h : p.Stands (fun n n' => node i n = n') s x)
    (h' : p'.Stands (fun n n' => node i' n = n') s' x) :
    p'.blanks = p.blanks ∧ (p.blanks ≠ [] → i' = i) := by
  rcases hblanks : p.blanks with _ | ⟨n, rest⟩
  · refine ⟨List.eq_nil_iff_forall_not_mem.mpr fun n hn => ?_, fun hne => absurd rfl hne⟩
    rw [h'.eq_of_mem_blanks hn] at h
    obtain ⟨-, hlabel⟩ := hnew.eq_of_stands hs hp (hp' n hn) h
    rw [hblanks] at hlabel
    cases hlabel
  · have hn : n ∈ p.blanks := hblanks ▸ List.mem_cons_self
    rw [h.eq_of_mem_blanks hn] at h'
    obtain ⟨hi, hlabel'⟩ := hnew.eq_of_stands hs' hp' (hp n hn) h'
    rw [h.eq_of_mem_blanks hn] at h
    obtain ⟨-, hlabel⟩ := hnew.eq_of_stands hs hp (hp n hn) h
    rw [hlabel', ← hlabel, hblanks]
    exact ⟨rfl, fun _ => hi⟩

/-- Templates that yield one quad have the same labels in the same positions, and with a label they
do it for one solution. -/
theorem own (h : m.Yields S node i t q) (hlabels : t.labels ≠ []) (h' : m.Yields S node i' t' q) :
    i' = i ∧ t'.subject.blanks = t.subject.blanks ∧ t'.object.blanks = t.object.blanks := by
  obtain ⟨s, hs, ht, hsubject, -, hobject, -⟩ := h
  obtain ⟨s', hs', ht', hsubject', -, hobject', -⟩ := h'
  have hmem : ∀ {t}, t ∈ m.insert → ∀ n ∈ t.labels, n ∈ templateBlanks m.insert :=
    fun ht n hn => mem_templateBlanks ht hn
  obtain ⟨hseq, hsi⟩ := hnew.blanks_eq hs hs'
    (fun n hn => hmem ht n (List.mem_append_left _ hn))
    (fun n hn => hmem ht' n (List.mem_append_left _ hn)) hsubject hsubject'
  obtain ⟨hoeq, hoi⟩ := hnew.blanks_eq hs hs'
    (fun n hn => hmem ht n (List.mem_append_right _ hn))
    (fun n hn => hmem ht' n (List.mem_append_right _ hn)) hobject hobject'
  refine ⟨?_, hseq, hoeq⟩
  by_cases hsubjectless : t.subject.blanks = []
  · refine hoi fun hobjectless => hlabels ?_
    rw [QuadPattern.labels, hsubjectless, hobjectless]
    rfl
  · exact hsi hsubjectless

/-- A quad with a label in its template was not in the store. -/
theorem not_holds (h : m.Yields S node i t q) (hlabels : t.labels ≠ []) : ¬ c.lists.Holds q := by
  intro hq
  obtain ⟨n, hn⟩ := List.exists_mem_of_ne_nil _ hlabels
  obtain ⟨s, hs, ht, hsubject, -, hobject, -⟩ := h
  have hmentions : q.Mentions (node i n) := by
    rcases List.mem_append.mp hn with hn | hn
    · exact .inl (hsubject.eq_of_mem_blanks hn)
    · exact .inr (.inl (hobject.eq_of_mem_blanks hn))
  exact hnew.unmet (mem_templateBlanks ht hn) (.inl (.inl ⟨q, hq, hmentions⟩))

end NewNodes

end Modify

/-! ## The update -/

namespace Step

open BatchM

variable {env : Environment} {user : User} {input : Option Binding} {m : Modify}
  {S : List Binding} {b : Batch}

/-- Every solution has new nodes of its own for the labels of the insert templates.  Let `S` be the
solutions of a pattern-driven update, repetitions included, and let the supply of new nodes keep
clear of the store, of the solutions and of the templates.  Then there is a table of new nodes
through which all templates take their labels; no other blank nodes are inserted than those of
this table and those that a solution binds.  A quad that a template with a label yields is yielded
for that solution only, and only by templates with the same labels in the same positions.  If the
update is allowed it succeeds, and it inserts what the templates yield: a quad with a label in its
template was not in the store, so it is answered, once, as inserted. -/
theorem insert_labels_get_new_nodes (hvalid : b.tx.content.Valid) {actor : Option User}
    (hsolve : env.Solves (actor.getD user) m input b.tx.content S)
    (hsupply : ∀ k, b.journal.nextNode ≤ k → ¬ m.Meets b.tx.content S (.fresh k)) :
    let update := operation env user input { action := .modify m, user := actor }
    ∃ node : Nat → BlankNode → BlankNode, m.NewNodes b.tx.content S node ∧
      (∀ i t q n, m.Yields S node i t q → q.Mentions n →
        (∃ l ∈ t.labels, node i l = n) ∨ ∃ s, S[i]? = some s ∧ s.Mentions n) ∧
      (∀ i t q i' t', m.Yields S node i t q → t.labels ≠ [] → m.Yields S node i' t' q →
        i' = i ∧ t'.subject.blanks = t.subject.blanks ∧ t'.object.blanks = t.object.blanks) ∧
      ((∀ kind n, env.faults kind n = none) →
        ((∃ change b', Ends update b change b') ↔ m.Allowed env.policy (actor.getD user)
          (m.Deletes S) fun q => ∃ i t, m.Yields S node i t q)) ∧
      ∀ change b', Ends update b change b' → ∃ deleted inserted,
        change = (if env.options.trackChanges then ⟨some deleted, some inserted⟩
          else Change.untracked) ∧
        b.tx.content.Modified (m.Deletes S) (fun q => ∃ i t, m.Yields S node i t q) b'.tx.content
          deleted inserted ∧
        ∀ i t q, m.Yields S node i t q → t.labels ≠ [] →
          ¬ b.tx.content.lists.Holds q ∧ q ∈ inserted ∧ b'.tx.content.lists.Holds q := by
  intro update
  have hnew := Modify.newNodes_freshNode hsupply
  have hyields : (fun q => ∃ i t, m.Yields S _ i t q) = m.Inserts b.journal.nextNode S :=
    funext fun q => propext Modify.exists_yields_iff
  have hvetted : (begun b).Vetted env.policy (actor.getD user) :=
    fun _ hmem => absurd hmem List.not_mem_nil
  have hsolve' : env.Solves (actor.getD user) m input (begun b).tx.content S := hsolve
  refine ⟨_, hnew, fun i t q n h hn => h.mentions_cases hn,
    fun i t q i' t' h hlabels h' => hnew.own h hlabels h', fun hfaults => ?_,
    fun change b' hends => ?_⟩
  · rw [hyields]
    constructor
    · rintro ⟨change, b', hends⟩
      obtain ⟨hallowed, -⟩ :=
        ends_modifyQuads_solved hsolve' hvetted (ends_operation_iff.mp hends).2
      exact (Modify.allowed_iff m.scope).mp hallowed
    · intro hallowed
      obtain ⟨b', hends⟩ := exists_ends_modifyQuads hsolve' hvetted hfaults
        ((Modify.allowed_iff m.scope).mpr hallowed)
      exact ⟨_, b', ends_operation_iff.mpr ⟨rfl, hends⟩⟩
  · obtain ⟨rfl, haction⟩ := ends_operation_iff.mp hends
    obtain ⟨-, hledger⟩ : _ ∧ b'.ledger = ((begun b).ledger.attemptAll
        ((deletions m.delete S).map .remove)).attemptAll
        ((insertions b.journal.nextNode m.insert S).map .insert) :=
      ends_modifyQuads_solved hsolve' hvetted haction
    have hmodified := Ledger.modified_of_attempts (l := (begun b).ledger) hvalid rfl
      (deletions m.delete S) (insertions b.journal.nextNode m.insert S)
    simp only [Modify.mem_deletions_iff, Modify.mem_insertions_iff] at hmodified
    rw [← hyields, ← hledger] at hmodified
    refine ⟨_, _, rfl, hmodified, fun i t q h hlabels => ?_⟩
    have habsent := hnew.not_holds h hlabels
    exact ⟨habsent, (hmodified.mem_inserted q).mpr ⟨⟨i, t, h⟩, fun hq => habsent hq.1⟩,
      (hmodified.holds_iff q).mpr (.inr ⟨i, t, h⟩)⟩

/-- Two equal solutions. -/
theorem insert_labels_get_new_nodes_twice :
    let found : Binding := Binding.empty.insert ⟨"x"⟩ (.iri ⟨"a"⟩)
    let t : QuadPattern := ⟨.blank (.label "b"), .iri ⟨"p"⟩, .var ⟨"x"⟩, .default⟩
    let m : Modify := { delete := [], insert := [t], pattern := .bgp [] }
    let env : Environment := { evaluator := .scripted [found, found] none }
    let quad (n : BlankNode) : Quad := ⟨.blank n, ⟨"p"⟩, .iri ⟨"a"⟩, .default⟩
    ∃ n n' deleted inserted b', n ≠ n' ∧ quad n ∈ inserted ∧ quad n' ∈ inserted ∧
      Ends (operation env "user" none { action := .modify m })
        { tx := .start .empty, journal := {} } ⟨some deleted, some inserted⟩ b' := by
  intro found t m env quad
  let b : Batch := { tx := .start .empty, journal := {} }
  let S := [found, found]
  have hsolve : env.Solves "user" m none b.tx.content S := solves_scripted (fun _ _ => rfl) rfl
  have hlabels : templateBlanks m.insert = [.label "b"] := by decide +kernel
  have hbound : ∀ v n, found.get? v ≠ some (.blank n) := by
    intro v n h
    rw [Binding.get?_insert] at h
    split at h <;> simp at h
  have hsupply : ∀ k, b.journal.nextNode ≤ k → ¬ m.Meets b.tx.content S (.fresh k) := by
    rintro k - ((⟨q, hq, -⟩ | hgraph) | ⟨s, hs, v, hv⟩ | hlabel)
    · unfold QuadLists.Holds at hq
      split at hq <;> exact absurd hq List.not_mem_nil
    · exact absurd hgraph List.not_mem_nil
    · obtain rfl : s = found := by simpa [S] using hs
      exact hbound v _ hv
    · rw [hlabels, List.mem_singleton] at hlabel
      cases hlabel
  obtain ⟨node, hnew, -, -, hsucceeds, hinserts⟩ :=
    @insert_labels_get_new_nodes env "user" none m S b Content.valid_empty none hsolve hsupply
  have hyields : ∀ i, S[i]? = some found → m.Yields S node i t (quad (node i (.label "b"))) :=
    fun i hi => ⟨found, hi, List.mem_singleton_self t, .blank rfl, .iri _, .var rfl, .default⟩
  have hallowed : m.Allowed env.policy "user" (m.Deletes S) fun q => ∃ i t, m.Yields S node i t q :=
    ⟨fun _ _ _ _ => rfl, fun _ _ _ _ => rfl, fun _ _ => rfl, fun _ _ => rfl⟩
  obtain ⟨change, b', hends⟩ := (hsucceeds fun _ _ => rfl).mpr hallowed
  obtain ⟨deleted, inserted, rfl, -, hown⟩ := hinserts change b' hends
  refine ⟨node 0 (.label "b"), node 1 (.label "b"), deleted, inserted, b', ?_, ?_, ?_, hends⟩
  · intro h
    have hlabel : .label "b" ∈ templateBlanks m.insert := hlabels ▸ List.mem_singleton_self _
    cases (hnew.apart hlabel hlabel h).1
  · exact (hown 0 t _ (hyields 0 rfl) (by decide)).2.1
  · exact (hown 1 t _ (hyields 1 rfl) (by decide)).2.1

/-- Two templates with the same label are instantiated alike by the one solution. -/
theorem merging_templates :
    let found : Binding :=
      (Binding.empty.insert ⟨"x"⟩ (.iri ⟨"a"⟩)).insert ⟨"y"⟩ (.iri ⟨"a"⟩)
    let t (v : String) : QuadPattern := ⟨.blank (.label "b"), .iri ⟨"p"⟩, .var ⟨v⟩, .default⟩
    let m : Modify := { delete := [], insert := [t "x", t "y"], pattern := .bgp [] }
    let env : Environment := { evaluator := .scripted [found] none }
    t "x" ≠ t "y" ∧
      (∀ t ∈ m.insert, t.labels ≠ [] ∧
        (t.insertion? 0 (templateBlanks m.insert) found).isSome) ∧
      ∃ q, (Session.execute {} env {} [{ action := .modify m }]).1 = .ok [⟨some [], some [q]⟩] := by
  intro found t m env
  refine ⟨by decide, by decide +kernel, ⟨.blank (.fresh 0), ⟨"p"⟩, .iri ⟨"a"⟩, .default⟩, ?_⟩
  exact congrArg Prod.fst (Session.eq_ok_of_toOption (r := Session.execute {} env {} _)
    (by decide +kernel))

end Step

end GraphStore
