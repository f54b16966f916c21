/-
# `GraphStore.Proofs.Modification` — pattern-driven updates delete, and then insert

A pattern-driven update finds its solutions on the content before it, makes two sets of quads of
them and of its templates, and only then changes anything.

    solutions S ──┬─ delete templates ─▶ D ─┐
                  └─ insert templates ─▶ I ─┤
    before ─────────────────────────────────┴─▶ (before − D) ∪ I

`Modify.Deletes` and `Modify.Inserts` are D and I, by what it is for a quad to be an instance of
a template; the lists of the executor are these sets, each quad once (`mem_deletions_iff`,
`mem_insertions_iff`).  They may overlap, and either may ask for what is so already: a quad is
answered as deleted if it was there, and as inserted if it was not there once the deletions had
been made.

That the executor attempts just these deletions and insertions is known (`ends_modifyQuads_solved`);
what is left is what attempts make of a content, as sets (`Ledger.modified_of_attempts`), and that
the two sets do not depend on the order of the solutions (`Deletes.congr`, `Inserts.congr`).
-/
import GraphStore.Proofs.Denial
import GraphStore.Proofs.Effects
import GraphStore.Proofs.ExactChanges
import GraphStore.Proofs.Matching
import GraphStore.Proofs.Solving

namespace GraphStore

/-! ## Instances of templates -/

/-- Under the solution `s`, the position stands for the term; what a blank node stands for is said
by `node`. -/
inductive TermPattern.Stands (node : BlankNode → BlankNode → Prop) (s : Binding) :
    TermPattern → Term → Prop
  | iri (i : Iri) : Stands node s (.iri i) (.iri i)
  | literal (l : Literal) : Stands node s (.literal l) (.literal l)
  | blank {n n' : BlankNode} : node n n' → Stands node s (.blank n) (.blank n')
  | var {v : Variable} {t : Term} : s.get? v = some t → Stands node s (.var v) t

/-- Under the solution `s`, the position stands for the graph. -/
inductive GraphPattern.Stands (s : Binding) : GraphPattern → GraphName → Prop
  | default : Stands s .default .default
  | iri (i : Iri) : Stands s (.iri i) i.graph
  | var {v : Variable} {g : Resource} : s.get? v = some g.toTerm → Stands s (.var v) (.named g)

/-- Under the solution, the template is the quad.  As there is no quad with a term in a position
where it may not stand, a solution that binds such a term has no instance. -/
structure QuadPattern.Instance (node : BlankNode → BlankNode → Prop) (s : Binding)
    (t : QuadPattern) (q : Quad) : Prop where
  subject : t.subject.Stands node s q.subject.toTerm
  predicate : t.predicate.toTermPattern.Stands node s (.iri q.predicate)
  object : t.object.Stands node s q.object
  graph : t.graph.Stands s q.graph

theorem Term.toResource?_eq_some {t : Term} {r : Resource} :
    t.toResource? = some r ↔ t = r.toTerm := by
  constructor
  · intro h
    cases t with
    | iri i =>
        rw [← Option.some.inj h]
        rfl
    | blank n =>
        rw [← Option.some.inj h]
        rfl
    | literal l => cases h
  · rintro rfl
    exact r.toResource?_toTerm

theorem Term.toIri?_eq_some {t : Term} {i : Iri} : t.toIri? = some i ↔ t = .iri i := by
  cases t <;> simp [Term.toIri?]

section

variable {node : BlankNode → Option BlankNode} {s : Binding}

theorem TermPattern.instance?_eq_some {p : TermPattern} {t : Term} :
    p.instance? node s = some t ↔ p.Stands (fun n n' => node n = some n') s t := by
  constructor
  · intro h
    cases p with
    | iri i =>
        rw [← Option.some.inj h]
        exact .iri i
    | blank n =>
        obtain ⟨n', hn, rfl⟩ := Option.map_eq_some_iff.mp h
        exact .blank hn
    | literal l =>
        rw [← Option.some.inj h]
        exact .literal l
    | var v => exact .var h
  · intro h
    cases h with
    | iri i => rfl
    | blank hn => exact Option.map_eq_some_iff.mpr ⟨_, hn, rfl⟩
    | literal l => rfl
    | var hv => exact hv

theorem NamePattern.instance?_eq_some {p : NamePattern} {i : Iri} : p.instance? s = some i ↔
    p.toTermPattern.Stands (fun n n' => node n = some n') s (.iri i) := by
  rw [← TermPattern.instance?_eq_some]
  cases p with
  | iri j =>
      show some j = some i ↔ some (Term.iri j) = some (.iri i)
      simp
  | var v =>
      show (s.get? v).bind Term.toIri? = some i ↔ s.get? v = some (.iri i)
      simp only [Option.bind_eq_some_iff, Term.toIri?_eq_some, exists_eq_right]

theorem GraphPattern.instance?_eq_some {p : GraphPattern} {g : GraphName} :
    p.instance? s = some g ↔ p.Stands s g := by
  constructor
  · intro h
    cases p with
    | default =>
        rw [← Option.some.inj h]
        exact .default
    | iri i =>
        rw [← Option.some.inj h]
        exact .iri i
    | var v =>
        obtain ⟨r, hr, rfl⟩ := Option.map_eq_some_iff.mp h
        obtain ⟨t, ht, hr⟩ := Option.bind_eq_some_iff.mp hr
        rw [Term.toResource?_eq_some.mp hr] at ht
        exact .var ht
  · intro h
    cases h with
    | default => rfl
    | iri i => rfl
    | var hv =>
        refine Option.map_eq_some_iff.mpr ⟨_, Option.bind_eq_some_iff.mpr ⟨_, hv, ?_⟩, rfl⟩
        exact Resource.toResource?_toTerm _

/-- What the executor makes of a template are its instances. -/
theorem QuadPattern.instance?_eq_some {t : QuadPattern} {q : Quad} :
    t.instance? node s = some q ↔ t.Instance (fun n n' => node n = some n') s q := by
  unfold QuadPattern.instance?
  simp only [Option.bind_eq_bind, Option.bind_eq_some_iff, Option.pure_def, Option.some.injEq]
  constructor
  · rintro ⟨r, ⟨x, hx, hr⟩, i, hi, o, ho, g, hg, rfl⟩
    rw [Term.toResource?_eq_some.mp hr] at hx
    exact ⟨TermPattern.instance?_eq_some.mp hx, NamePattern.instance?_eq_some.mp hi,
      TermPattern.instance?_eq_some.mp ho, GraphPattern.instance?_eq_some.mp hg⟩
  · rintro ⟨hs, hp, ho, hg⟩
    exact ⟨q.subject, ⟨_, TermPattern.instance?_eq_some.mpr hs, Resource.toResource?_toTerm _⟩,
      q.predicate, NamePattern.instance?_eq_some.mpr hp, q.object,
      TermPattern.instance?_eq_some.mpr ho, q.graph, GraphPattern.instance?_eq_some.mpr hg, rfl⟩

end

section

variable {node node' : BlankNode → BlankNode → Prop} {s : Binding}

theorem TermPattern.Stands.of_no_blanks {p : TermPattern} {t : Term} (hp : p.blanks = [])
    (h : p.Stands node s t) : p.Stands node' s t := by
  cases h with
  | iri i => exact .iri i
  | literal l => exact .literal l
  | blank _ => cases hp
  | var hv => exact .var hv

/-- The instances of a template without blank nodes do not depend on new nodes. -/
theorem QuadPattern.Instance.of_no_blanks {t : QuadPattern} {q : Quad}
    (hsubject : t.subject.blanks = []) (hobject : t.object.blanks = [])
    (h : t.Instance node s q) : t.Instance node' s q := by
  have hpredicate : t.predicate.toTermPattern.blanks = [] := by
    cases t.predicate <;> rfl
  exact ⟨h.subject.of_no_blanks hsubject, h.predicate.of_no_blanks hpredicate,
    h.object.of_no_blanks hobject, h.graph⟩

end

/-! ## What an update asks for -/

namespace Modify

variable {m : Modify} {S S' : List Binding} {start start' : Nat} {q : Quad}

/-- A delete template yields the quad for a solution; blank nodes stand for nothing there. -/
def Deletes (m : Modify) (S : List Binding) (q : Quad) : Prop :=
  ∃ s ∈ S, ∃ t ∈ m.delete, t.Instance (fun _ _ => False) s q

/-- An insert template yields the quad for a solution; its blank nodes stand for new nodes, which
are numbered from `start` on and are other ones for every solution. -/
def Inserts (m : Modify) (start : Nat) (S : List Binding) (q : Quad) : Prop :=
  ∃ i s, S[i]? = some s ∧ ∃ t ∈ m.insert, t.Instance (fun n n' =>
    freshNode (start + i * (templateBlanks m.insert).length) (templateBlanks m.insert) n = n') s q

theorem mem_deletions_iff : q ∈ Step.deletions m.delete S ↔ m.Deletes S q := by
  rw [Step.mem_deletions]
  unfold Deletes QuadPattern.deletion?
  simp only [QuadPattern.instance?_eq_some, reduceCtorEq]

theorem mem_insertions_iff : q ∈ Step.insertions start m.insert S ↔ m.Inserts start S q := by
  rw [Step.mem_insertions]
  unfold Inserts QuadPattern.insertion?
  simp only [QuadPattern.instance?_eq_some, Option.some.injEq]

/-- The deletions do not depend on the order of the solutions. -/
theorem Deletes.congr (hS : ∀ s, s ∈ S ↔ s ∈ S') : m.Deletes S q ↔ m.Deletes S' q := by
  unfold Deletes
  simp only [hS]

theorem blanks_eq_nil (hblanks : templateBlanks m.insert = []) {t : QuadPattern}
    (ht : t ∈ m.insert) : t.subject.blanks = [] ∧ t.object.blanks = [] := by
  have hnone : ∀ n, n ∉ t.subject.blanks ++ t.object.blanks := by
    intro n hn
    have hmem : n ∈ templateBlanks m.insert :=
      List.mem_eraseDups.mpr (List.mem_flatMap.mpr ⟨t, ht, hn⟩)
    rw [hblanks] at hmem
    exact absurd hmem List.not_mem_nil
  exact List.append_eq_nil_iff.mp (List.eq_nil_iff_forall_not_mem.mpr hnone)

/-- Without blank nodes in the templates, neither do the insertions. -/
theorem Inserts.congr (hblanks : templateBlanks m.insert = []) (hS : ∀ s, s ∈ S ↔ s ∈ S') :
    m.Inserts start S q ↔ m.Inserts start' S' q := by
  have hsub : ∀ {S S' : List Binding} {start start' : Nat}, (∀ s, s ∈ S → s ∈ S') →
      m.Inserts start S q → m.Inserts start' S' q := by
    rintro S S' start start' hS ⟨i, s, hs, t, ht, hinstance⟩
    obtain ⟨i', hi'⟩ := List.mem_iff_getElem?.mp (hS s (List.mem_of_getElem? hs))
    obtain ⟨hsubject, hobject⟩ := blanks_eq_nil hblanks ht
    exact ⟨i', s, hi', t, ht, hinstance.of_no_blanks hsubject hobject⟩
  exact ⟨hsub fun s => (hS s).mp, hsub fun s => (hS s).mpr⟩

/-- What the executor puts to the policy is what the update asks for; the dataset of the update has
nothing to do with it. -/
theorem allowed_iff {policy : Policy} {user : User} (scope : Option Using) :
    ({ m with scope := scope } : Modify).Allowed policy user (· ∈ Step.deletions m.delete S)
        (· ∈ Step.insertions start m.insert S) ↔
      m.Allowed policy user (m.Deletes S) (m.Inserts start S) := by
  simp only [mem_deletions_iff, mem_insertions_iff]
  constructor <;> exact fun h => ⟨h.delete_constant, h.insert_constant, h.delete, h.insert⟩

end Modify

/-- The quads `D` have been taken out of the content and then `I` put in; `deleted` and `inserted`
list, each quad once, what that has changed. -/
structure Content.Modified (D I : Quad → Prop) (before after : Content)
    (deleted inserted : List Quad) : Prop where
  holds_iff : ∀ q, after.lists.Holds q ↔ before.lists.Holds q ∧ ¬ D q ∨ I q
  graphs_eq : after.graphs = before.graphs
  deleted_nodup : deleted.Nodup
  mem_deleted : ∀ q, q ∈ deleted ↔ D q ∧ before.lists.Holds q
  inserted_nodup : inserted.Nodup
  mem_inserted : ∀ q, q ∈ inserted ↔ I q ∧ ¬ (before.lists.Holds q ∧ ¬ D q)

/-! ## The update -/

/-- What deletions and then insertions make of a content, and what a fresh ledger notes of them. -/
theorem Ledger.modified_of_attempts {l : Ledger} (hvalid : l.content.Valid) (hfresh : l.fresh = l)
    (removed added : List Quad) :
    let l' := (l.attemptAll (removed.map .remove)).attemptAll (added.map .insert)
    l.content.Modified (· ∈ removed) (· ∈ added) l'.content l'.deleted l'.inserted := by
  intro l'
  have hdeleted : l.deleted = [] := hfresh ▸ rfl
  have hinserted : l.inserted = [] := hfresh ▸ rfl
  have hnone : ∀ q ∈ removed, q ∉ l.inserted := by simp [hinserted]
  have hreach : l.fresh.Reaches (fun _ => True) l' := by
    rw [hfresh]
    exact ((reaches_removes l hnone).mono fun _ _ => trivial).trans
      ((reaches_inserts _ added).mono fun _ _ => trivial)
  have hdiffers := hreach.differs hvalid.nodup_lists
  have hremoved : ∀ q, (l.attemptAll (removed.map .remove)).content.lists.Holds q ↔
      l.content.lists.Holds q ∧ q ∉ removed := fun q => holds_removes hvalid
  constructor
  · intro q
    rw [holds_inserts, hremoved]
  · rw [graphs_inserts, graphs_removes]
  · exact hdiffers.deleted_nodup
  · intro q
    rw [deleted_inserts, mem_deleted_removes hvalid, hdeleted]
    exact or_iff_right List.not_mem_nil
  · exact hdiffers.inserted_nodup
  · intro q
    rw [mem_inserted_inserts, hremoved, inserted_removes, hinserted]
    exact or_iff_right List.not_mem_nil

namespace Session

open BatchM

section

variable {env : Environment} (hlooks : env.evaluator.Looks)
  (hfaults : ∀ kind n, env.faults kind n = none)

include hlooks hfaults

/-- What an update that is executed alone comes to, its solutions being `S`. -/
theorem execute_modify {s : Session} (hs : s.content.Valid) (call : BatchCall)
    (actor : Option User) {m : Modify} {S : List Binding}
    (hsolve : env.Solves (actor.getD (call.user.getD env.options.defaultUser))
      { m with scope := m.scope.or call.scope } call.input s.content S) :
    let allowed := m.Allowed env.policy (actor.getD (call.user.getD env.options.defaultUser))
      (m.Deletes S) (m.Inserts s.journal.nextNode S)
    let result := s.execute env call [{ action := .modify m, user := actor }]
    ((∃ changes, result.1 = .ok changes) → allowed) ∧
      (allowed → ∃ deleted inserted,
        result.1 = .ok [if env.options.trackChanges then ⟨some deleted, some inserted⟩
          else Change.untracked] ∧
        s.content.Modified (m.Deletes S) (m.Inserts s.journal.nextNode S) result.2.content
          deleted inserted) := by
  intro allowed result
  have hvetted := Step.vetted_next env.policy
    (actor.getD (call.user.getD env.options.defaultUser)) (s.opened env.faults)
  constructor
  · rintro ⟨changes, h⟩
    obtain ⟨b, hends, -⟩ := ends_of_execute_one hlooks (Prod.ext h rfl)
    obtain ⟨hallowed, -⟩ := Step.ends_modifyQuads_solved hsolve hvetted hends
    exact (Modify.allowed_iff _).mp hallowed
  · intro hallowed
    obtain ⟨b, hends⟩ := Step.exists_ends_modifyQuads hsolve hvetted hfaults
      ((Modify.allowed_iff (m.scope.or call.scope)).mpr hallowed)
    obtain ⟨-, hledger⟩ := Step.ends_modifyQuads_solved hsolve hvetted hends
    have hacting : Ends (Step.acting env call { action := .modify m, user := actor })
      (Step.next (s.opened env.faults)) () b := hends
    obtain ⟨s', hexecute, hcontent⟩ := execute_one_of_ends hlooks hfaults hacting
    have hmodified := Ledger.modified_of_attempts (l := (Step.next (s.opened env.faults)).ledger)
      hs rfl (Step.deletions m.delete S) (Step.insertions s.journal.nextNode m.insert S)
    simp only [Modify.mem_deletions_iff, Modify.mem_insertions_iff] at hmodified
    refine ⟨b.ledger.deleted, b.ledger.inserted, congrArg Prod.fst hexecute, ?_⟩
    rw [show result.2 = s' from congrArg Prod.snd hexecute, hcontent,
      show b.tx.content = b.ledger.content from rfl, hledger]
    exact hmodified

/-- A pattern-driven update makes its deletions, and then its insertions, on the content before it.
With the solutions `S` it succeeds exactly if the policy allows the graphs that are written in its
templates and those of the quads to be deleted and to be inserted; then it leaves the content
without the former and with the latter, and answers what that has changed.  Unless insert templates
have blank nodes, all this is the same for any other solutions that are the same as a set. -/
theorem modify_deletes_then_inserts {s : Session} (hs : s.content.Reachable) (call : BatchCall)
    (actor : Option User) {m : Modify} {S : List Binding}
    (hsolve : env.Solves (actor.getD (call.user.getD env.options.defaultUser))
      { m with scope := m.scope.or call.scope } call.input s.content S) :
    let D := m.Deletes S
    let I := m.Inserts s.journal.nextNode S
    let op : Operation := { action := .modify m, user := actor }
    let allowed := m.Allowed env.policy (actor.getD (call.user.getD env.options.defaultUser)) D I
    let answer (deleted inserted : List Quad) : Change :=
      if env.options.trackChanges then ⟨some deleted, some inserted⟩ else Change.untracked
    ((∃ changes, (s.execute env call [op]).1 = .ok changes) ↔ allowed) ∧
      (allowed → ∃ deleted inserted,
        (s.execute env call [op]).1 = .ok [answer deleted inserted] ∧
        s.content.Modified D I (s.execute env call [op]).2.content deleted inserted) ∧
      (templateBlanks m.insert = [] → ∀ (e : Evaluator) (S' : List Binding), e.Looks →
        ({ env with evaluator := e } : Environment).Solves
          (actor.getD (call.user.getD env.options.defaultUser))
          { m with scope := m.scope.or call.scope } call.input s.content S' →
        (∀ b, b ∈ S' ↔ b ∈ S) →
        let other := s.execute { env with evaluator := e } call [op]
        ((∃ changes, other.1 = .ok changes) ↔ allowed) ∧
          (allowed → ∃ deleted inserted, other.1 = .ok [answer deleted inserted] ∧
            s.content.Modified D I other.2.content deleted inserted)) := by
  intro D I op allowed answer
  obtain ⟨honly, hthen⟩ := execute_modify hlooks hfaults hs.valid call actor hsolve
  have hsucceeds : allowed → ∃ changes, (s.execute env call [op]).1 = .ok changes := fun h => by
    obtain ⟨deleted, inserted, houtcome, -⟩ := hthen h
    exact ⟨_, houtcome⟩
  refine ⟨⟨honly, hsucceeds⟩, hthen, ?_⟩
  intro hblanks e S' he hsolve' hS other
  have hD : m.Deletes S' = D := funext fun q => propext (Modify.Deletes.congr hS)
  have hI : m.Inserts s.journal.nextNode S' = I :=
    funext fun q => propext (Modify.Inserts.congr hblanks hS)
  have hother := @execute_modify { env with evaluator := e } he hfaults s hs.valid call actor m S'
    hsolve'
  rw [hD, hI] at hother
  obtain ⟨honly', hthen'⟩ := hother
  refine ⟨⟨honly', fun h => ?_⟩, hthen'⟩
  obtain ⟨deleted, inserted, houtcome, -⟩ := hthen' h
  exact ⟨_, houtcome⟩

end

/-- The edges of the default graph, turned round. -/
def reversing (edge : Iri) : Modify where
  delete := [⟨.var ⟨"s"⟩, .iri edge, .var ⟨"o"⟩, .default⟩]
  insert := [⟨.var ⟨"o"⟩, .iri edge, .var ⟨"s"⟩, .default⟩]
  pattern := .bgp [⟨.var ⟨"s"⟩, .iri edge, .var ⟨"o"⟩⟩]

/-- Between `a` and `b` there are edges both ways, which are deleted and inserted again; the one
from `b` to `c` is turned round.  An evaluator that answers in another order and repeats itself
makes no difference. -/
theorem modify_deletes_then_inserts_reversing :
    let edge (x y : String) : Quad := ⟨.iri ⟨x⟩, ⟨"edge"⟩, .iri ⟨y⟩, .default⟩
    let found (x y : String) : Binding :=
      (Binding.empty.insert ⟨"s"⟩ (.iri ⟨x⟩)).insert ⟨"o"⟩ (.iri ⟨y⟩)
    let c : Content :=
      { triples := [(edge "a" "b").triple, (edge "b" "a").triple, (edge "b" "c").triple] }
    let repeating : Evaluator :=
      .scripted [found "b" "c", found "b" "a", found "a" "b", found "b" "c"] none
    let ops : List Operation := [{ action := .modify (reversing ⟨"edge"⟩) }]
    let turned (result : Except UpdateError (List Change) × Session) : Prop :=
      ∃ deleted inserted, result.1 = .ok [⟨some deleted, some inserted⟩] ∧
        (edge "a" "b" ∈ deleted ∧ edge "a" "b" ∈ inserted ∧
          result.2.content.lists.Holds (edge "a" "b")) ∧
        (edge "b" "c" ∈ deleted ∧ edge "b" "c" ∉ inserted ∧
          ¬ result.2.content.lists.Holds (edge "b" "c"))
    turned (Session.execute { content := c } {} {} ops) ∧
      turned (Session.execute { content := c } { evaluator := repeating } {} ops) := by
  intro edge found c repeating ops turned
  let m : Modify := reversing ⟨"edge"⟩
  let S := [found "a" "b", found "b" "a", found "b" "c"]
  let S' := [found "b" "c", found "b" "a", found "a" "b", found "b" "c"]
  have hpublish : (TransactionStep.runAll (.start .empty)
      (c.triples.map TransactionStep.addToDefault)).publish .empty = some c := by decide +kernel
  have hreachable : c.Reachable := .transaction .empty hpublish
  have hscanning : ({} : Environment).Solves ({} : Options).defaultUser m none c S :=
    solves_scanning (fun _ _ => rfl) rfl (by rfl)
  have hrepeating : ({ evaluator := repeating } : Environment).Solves ({} : Options).defaultUser m
      none c S' := solves_scripted (fun _ _ => rfl) rfl
  have hsame : ∀ b, b ∈ S' ↔ b ∈ S := fun b =>
    ⟨fun hb => (by decide +kernel : S' ⊆ S) hb, fun hb => (by decide +kernel : S ⊆ S') hb⟩
  obtain ⟨-, hmodified, hother⟩ := @modify_deletes_then_inserts {} Evaluator.looks_scanning
    (fun _ _ => rfl) { content := c } hreachable {} none m S hscanning
  obtain ⟨-, hmodified'⟩ := hother (by decide +kernel) repeating S'
    (Evaluator.looks_scripted _ _) hrepeating hsame
  have hallowed : m.Allowed Policy.permitAll ({} : Options).defaultUser (m.Deletes S)
      (m.Inserts 0 S) :=
    ⟨fun _ _ _ _ => rfl, fun _ _ _ _ => rfl, fun _ _ => rfl, fun _ _ => rfl⟩
  generalize Session.execute { content := c } {} {} ops = result at hmodified ⊢
  generalize Session.execute { content := c } { evaluator := repeating } {} ops = result'
    at hmodified' ⊢
  have habD : m.Deletes S (edge "a" "b") := Modify.mem_deletions_iff.mp (by decide +kernel)
  have habI : m.Inserts 0 S (edge "a" "b") := Modify.mem_insertions_iff.mp (by decide +kernel)
  have hbcD : m.Deletes S (edge "b" "c") := Modify.mem_deletions_iff.mp (by decide +kernel)
  have hbcI : ¬ m.Inserts 0 S (edge "b" "c") := fun h =>
    absurd (Modify.mem_insertions_iff.mpr h) (by decide +kernel)
  have hturned : ∀ {result : Except UpdateError (List Change) × Session},
      (∃ deleted inserted, result.1 = .ok [⟨some deleted, some inserted⟩] ∧
        c.Modified (m.Deletes S) (m.Inserts 0 S) result.2.content deleted inserted) →
      turned result := by
    rintro result ⟨deleted, inserted, houtcome, h⟩
    refine ⟨deleted, inserted, houtcome, ⟨?_, ?_, ?_⟩, ?_, ?_, ?_⟩
    · exact (h.mem_deleted _).mpr ⟨habD, by decide +kernel⟩
    · exact (h.mem_inserted _).mpr ⟨habI, fun hleft => hleft.2 habD⟩
    · exact (h.holds_iff _).mpr (.inr habI)
    · exact (h.mem_deleted _).mpr ⟨hbcD, by decide +kernel⟩
    · exact fun hbc => hbcI ((h.mem_inserted _).mp hbc).1
    · exact fun hbc => ((h.holds_iff _).mp hbc).elim (fun hleft => hleft.2 hbcD) hbcI
  exact ⟨hturned (hmodified hallowed), hturned (hmodified' hallowed)⟩

end Session

end GraphStore
