/-
# `GraphStore.Proofs.Steps` — what each step does to the ledger

One lemma for each step of an operation: if it succeeds, the ledger it leaves is
the one before with a list of writes *attempted* in order.  An attempt that has no
effect leaves the ledger as it is, which is what the store answers with `false`.

`l.Reaches may l'` forgets which writes these were and keeps what they may have
been.  Stages of an operation are joined by its transitivity.  The side condition
of `reaches_attemptAll` is the one of `Ledger.Wrote`: a stage that takes quads out
has to know that the operation has not put them in.
-/
import Mathlib.Data.List.Basic
import GraphStore.Proofs.Ledger
import GraphStore.Proofs.Looks

namespace GraphStore

namespace Ledger

/-- The ledger after a write that is made if it has an effect. -/
def attempt (l : Ledger) (w : Write) : Ledger := if w.Effective l.content then l.write w else l

/-- The ledger after several attempts. -/
def attemptAll (l : Ledger) (ws : List Write) : Ledger := ws.foldl attempt l

/-- Writes that `may` allows lead from one ledger to the other. -/
def Reaches (may : Write → Prop) (l l' : Ledger) : Prop :=
  ∃ ws, l.Wrote ws l' ∧ ∀ w ∈ ws, may w

variable {may may' : Write → Prop} {l l' l'' : Ledger}

theorem Reaches.refl (may : Write → Prop) (l : Ledger) : l.Reaches may l :=
  ⟨[], .nil l, fun _ h => absurd h List.not_mem_nil⟩

theorem Reaches.trans (h : l.Reaches may l') (h' : l'.Reaches may l'') : l.Reaches may l'' := by
  obtain ⟨ws, hws, hmay⟩ := h
  obtain ⟨ws', hws', hmay'⟩ := h'
  refine ⟨ws ++ ws', hws.append hws', ?_⟩
  intro w hw
  rcases List.mem_append.mp hw with hw | hw
  · exact hmay w hw
  · exact hmay' w hw

theorem Reaches.mono (h : l.Reaches may l') (hmay : ∀ w, may w → may' w) : l.Reaches may' l' := by
  obtain ⟨ws, hws, hall⟩ := h
  exact ⟨ws, hws, fun w hw => hmay w (hall w hw)⟩

/-- What is noted as inserted was noted before or has been allowed. -/
theorem Reaches.mem_inserted (h : l.Reaches may l') {q : Quad} (hq : q ∈ l'.inserted) :
    q ∈ l.inserted ∨ may (.insert q) := by
  obtain ⟨ws, hws, hall⟩ := h
  rw [hws.inserted_eq] at hq
  rcases List.mem_append.mp hq with hq | hq
  · exact .inl hq
  · obtain ⟨w, hw, hqw⟩ := List.mem_flatMap.mp hq
    cases w with
    | insert x =>
        rw [List.mem_singleton.mp hqw]
        exact .inr (hall _ hw)
    | remove _ | register _ | unregister _ => exact absurd hqw List.not_mem_nil

theorem reaches_attempt (l : Ledger) {w : Write} (hfresh : ∀ q ∈ w.removed, q ∉ l.inserted) :
    l.Reaches (· = w) (l.attempt w) := by
  unfold attempt
  split
  · rename_i he
    exact ⟨[w], .one he hfresh, fun _ h => List.mem_singleton.mp h⟩
  · exact .refl _ _

/-- Attempts of which none takes out what is noted as inserted, or what another one puts in. -/
theorem reaches_attemptAll (l : Ledger) {ws : List Write}
    (hfresh : ∀ w ∈ ws, ∀ q ∈ w.removed, q ∉ l.inserted)
    (hapart : ∀ w ∈ ws, ∀ q ∈ w.removed, ∀ w' ∈ ws, q ∉ w'.added) :
    l.Reaches (· ∈ ws) (l.attemptAll ws) := by
  induction ws generalizing l with
  | nil => exact .refl _ _
  | cons w ws ih =>
      have hone := reaches_attempt l (hfresh w List.mem_cons_self)
      refine (hone.mono fun x hx => hx ▸ List.mem_cons_self).trans ?_
      refine (ih (l.attempt w) ?_ ?_).mono fun x hx => List.mem_cons_of_mem _ hx
      · intro x hx q hq hins
        rcases hone.mem_inserted hins with hins | hw
        · exact hfresh x (List.mem_cons_of_mem _ hx) q hq hins
        · exact hapart x (List.mem_cons_of_mem _ hx) q hq w List.mem_cons_self
            (hw ▸ List.mem_singleton.mpr rfl)
      · intro x hx q hq y hy
        exact hapart x (List.mem_cons_of_mem _ hx) q hq y (List.mem_cons_of_mem _ hy)

theorem reaches_inserts (l : Ledger) (qs : List Quad) :
    l.Reaches (fun w => ∃ q ∈ qs, w = .insert q) (l.attemptAll (qs.map .insert)) := by
  refine (reaches_attemptAll l ?_ ?_).mono fun w hw => ?_
  · intro w hw q hq
    obtain ⟨x, _, rfl⟩ := List.mem_map.mp hw
    exact absurd hq List.not_mem_nil
  · intro w hw q hq
    obtain ⟨x, _, rfl⟩ := List.mem_map.mp hw
    exact absurd hq List.not_mem_nil
  · obtain ⟨x, hx, rfl⟩ := List.mem_map.mp hw
    exact ⟨x, hx, rfl⟩

theorem reaches_removes (l : Ledger) {qs : List Quad} (hfresh : ∀ q ∈ qs, q ∉ l.inserted) :
    l.Reaches (fun w => ∃ q ∈ qs, w = .remove q) (l.attemptAll (qs.map .remove)) := by
  refine (reaches_attemptAll l ?_ ?_).mono fun w hw => ?_
  · intro w hw q hq
    obtain ⟨x, hx, rfl⟩ := List.mem_map.mp hw
    rw [List.mem_singleton.mp hq]
    exact hfresh x hx
  · intro w _ q _ y hy
    obtain ⟨z, _, rfl⟩ := List.mem_map.mp hy
    exact List.not_mem_nil
  · obtain ⟨x, hx, rfl⟩ := List.mem_map.mp hw
    exact ⟨x, hx, rfl⟩

end Ledger

/-! ## The quads of one graph

`c.within g` is what looking up a whole graph answers.  Taking these quads out one
after the other empties the graph, also if the lists hold something twice. -/

/-- The quads of a graph, in the order of the list that holds them. -/
def Content.within (c : Content) : GraphName → List Quad
  | .default => c.findDefault .any
  | .named g => c.findNamed g .any

namespace Content

variable {c : Content} {g : GraphName} {q : Quad}

theorem within_default (c : Content) :
    c.within .default = c.triples.map (·.inGraph .default) := by
  rw [within, findDefault, List.filter_eq_self.mpr fun t _ => TripleFilter.accepts_any t]

theorem within_named (c : Content) (g : Resource) :
    c.within (.named g) = c.quads.filter (·.graph == .named g) := by
  simp [within, findNamed]

theorem mem_within : q ∈ c.within g ↔ q.graph = g ∧ c.lists.Holds q := by
  unfold QuadLists.Holds
  cases g with
  | default =>
      rw [within_default, List.mem_map]
      constructor
      · rintro ⟨t, ht, rfl⟩
        exact ⟨rfl, ht⟩
      · rintro ⟨hg, ht⟩
        rw [hg] at ht
        exact ⟨q.triple, ht, by rw [← hg]; rfl⟩
  | named g =>
      rw [within_named, List.mem_filter, beq_iff_eq]
      constructor
      · rintro ⟨hq, hg⟩
        rw [hg]
        exact ⟨rfl, hq⟩
      · rintro ⟨hg, hq⟩
        rw [hg] at hq
        exact ⟨hq, hg⟩

/-- Taking a quad out of the store takes its first occurrence out of its graph. -/
theorem within_remove (c : Content) (q : Quad) :
    ((Write.remove q).apply c).within q.graph = (c.within q.graph).erase q := by
  have hinj : Function.Injective (Triple.inGraph · .default) :=
    fun _ _ => Triple.inGraph_injective
  cases hq : q.graph with
  | default =>
      have hqt : q.triple.inGraph .default = q := by rw [← hq]; rfl
      rw [within_default, within_default, ← hqt, ← List.map_erase hinj]
      simp [Write.apply, QuadLists.erase, Content.withLists, Content.lists]
  | named g =>
      rw [within_named, within_named, List.erase_filter]
      simp [Write.apply, QuadLists.erase, Content.withLists, Content.lists, hq]

end Content

theorem Ledger.within_attemptAll_removes {g : GraphName} {qs : List Quad} {l : Ledger}
    (h : l.content.within g = qs) : (l.attemptAll (qs.map .remove)).content.within g = [] := by
  induction qs generalizing l with
  | nil => exact h
  | cons q qs ih =>
      obtain ⟨hg, hq⟩ := Content.mem_within.mp (h ▸ List.mem_cons_self : q ∈ l.content.within g)
      refine ih ?_
      rw [attempt, if_pos (show Write.Effective l.content (.remove q) from hq)]
      show ((Write.remove q).apply l.content).within g = qs
      rw [← hg, Content.within_remove, hg, h, List.erase_cons_head]

/-! ## Lookups, questions and changes

`Batch.Vetted` is the invariant of the questions an operation asks: whatever it has
passed, the policy allows.  A question is put at most once, and a second one for the
same access is answered by what was passed before. -/

/-- The policy allows the user every access that the operation has passed. -/
def Batch.Vetted (b : Batch) (policy : Policy) (user : User) : Prop :=
  ∀ access ∈ b.passed, policy access.1 access.2 user = true

namespace Step

open BatchM

variable {env : Environment} {user : User} {b b' : Batch}

theorem ends_quadsOf {g : GraphName} {qs : List Quad} (h : Ends (quadsOf env g) b qs b') :
    qs = b.tx.content.within g ∧ ∃ j, b' = { b with journal := j } := by
  refine ⟨?_, ((Reader.looks_reader _ _).find _ _).ends h⟩
  cases g with
  | default => exact (Ends.of_call (ends_mapError.mp h)).1
  | named g => exact (Ends.of_call (ends_mapError.mp h)).1

theorem ends_containsGraph {g : Resource} {r : Bool}
    (h : Ends ((reader env).containsGraph g) b r b') :
    r = b.tx.content.containsGraph g ∧ ∃ j, b' = { b with journal := j } :=
  ⟨(Ends.of_call (ends_mapError.mp h)).1, ((Reader.looks_reader _ _).containsGraph g).ends h⟩

theorem ends_namedGraphs {gs : List Resource} (h : Ends (reader env).namedGraphs b gs b') :
    gs = b.tx.content.namedGraphs ∧ ∃ j, b' = { b with journal := j } :=
  ⟨(Ends.of_call (ends_mapError.mp h)).1, (Reader.looks_reader _ _).namedGraphs.ends h⟩

/-- The batch once a new question has been put. -/
def asked (user : User) (kind : AccessKind) (g : GraphName) (b : Batch) : Batch :=
  { b with
    passed := b.passed ++ [(kind, g)]
    journal := { b.journal with checks := b.journal.checks ++ [Check.mk kind g user] } }

/-- A question is put once, and refused with what the policy says. -/
theorem run_check {kind : AccessKind} {g : GraphName} (b : Batch) :
    (check env user kind g).run b =
    if (kind, g) ∈ b.passed then (.ok (), b)
    else ((env.policy.check kind g user).mapError .accessDenied, asked user kind g b) := by
  unfold check
  rw [run_get_bind]
  by_cases hpassed : (kind, g) ∈ b.passed
  · rw [if_pos hpassed, if_pos hpassed]
    rfl
  · rw [if_neg hpassed, if_neg hpassed]
    cases hpolicy : env.policy.check kind g user with
    | ok _ => rfl
    | error e => rfl

/-- A question that is passed was passed before, or the policy allows the access. -/
theorem ends_check_cases {kind : AccessKind} {g : GraphName} {u : Unit}
    (h : Ends (check env user kind g) b u b') :
    ((kind, g) ∈ b.passed ∧ b' = b) ∨
      ((kind, g) ∉ b.passed ∧ env.policy kind g user = true ∧ b' = asked user kind g b) := by
  unfold Ends at h
  rw [run_check] at h
  by_cases hpassed : (kind, g) ∈ b.passed
  · rw [if_pos hpassed] at h
    cases h
    exact .inl ⟨hpassed, rfl⟩
  · rw [if_neg hpassed] at h
    by_cases hallowed : env.policy kind g user = true
    · rw [Policy.check, if_pos hallowed] at h
      cases h
      exact .inr ⟨hpassed, hallowed, rfl⟩
    · rw [Policy.check, if_neg hallowed] at h
      cases h

/-- Questions change nothing that writes act on. -/
theorem ledger_of_ends_check {kind : AccessKind} {g : GraphName} {u : Unit}
    (h : Ends (check env user kind g) b u b') : b'.ledger = b.ledger := by
  rcases ends_check_cases h with ⟨-, rfl⟩ | ⟨-, -, rfl⟩ <;> rfl

theorem vetted_asked {policy : Policy} {kind : AccessKind} {g : GraphName}
    (hb : b.Vetted policy user) (hallowed : policy kind g user = true) :
    (asked user kind g b).Vetted policy user := by
  intro access hmem
  rcases List.mem_append.mp hmem with hmem | hmem
  · exact hb access hmem
  · rw [List.mem_singleton.mp hmem]
    exact hallowed

theorem ends_check {kind : AccessKind} {g : GraphName} {u : Unit}
    (h : Ends (check env user kind g) b u b') (hb : b.Vetted env.policy user) :
    b'.ledger = b.ledger ∧ b'.Vetted env.policy user ∧ env.policy kind g user = true := by
  refine ⟨ledger_of_ends_check h, ?_⟩
  rcases ends_check_cases h with ⟨hpassed, rfl⟩ | ⟨-, hallowed, rfl⟩
  · exact ⟨hb, hb _ hpassed⟩
  · exact ⟨vetted_asked hb hallowed, hallowed⟩

/-- Questions about the members of a list. -/
theorem ends_forM_check {α : Type} (kind : α → AccessKind) (g : α → GraphName) {xs : List α}
    {u : Unit} (h : Ends (xs.forM fun x => check env user (kind x) (g x)) b u b')
    (hb : b.Vetted env.policy user) :
    b'.ledger = b.ledger ∧ b'.Vetted env.policy user ∧
      ∀ x ∈ xs, env.policy (kind x) (g x) user = true := by
  induction xs generalizing b with
  | nil =>
      obtain rfl := ends_forM_nil.mp h
      exact ⟨rfl, hb, fun _ hx => absurd hx List.not_mem_nil⟩
  | cons x xs ih =>
      obtain ⟨b₁, hx, hxs⟩ := ends_forM_cons.mp h
      obtain ⟨hl₁, hb₁, hallowed⟩ := ends_check hx hb
      obtain ⟨hl, hb', hall⟩ := ih hxs hb₁
      exact ⟨hl.trans hl₁, hb', List.forall_mem_cons.mpr ⟨hallowed, hall⟩⟩

theorem ledger_of_ends_forM_check {α : Type} (kind : α → AccessKind) (g : α → GraphName)
    {xs : List α} {u : Unit} (h : Ends (xs.forM fun x => check env user (kind x) (g x)) b u b') :
    b'.ledger = b.ledger := by
  induction xs generalizing b with
  | nil => rw [ends_forM_nil.mp h]
  | cons x xs ih =>
      obtain ⟨b₁, hx, hxs⟩ := ends_forM_cons.mp h
      exact (ih hxs).trans (ledger_of_ends_check hx)

/-- Questions take no numbers for new blank nodes. -/
theorem nextNode_of_ends_check {kind : AccessKind} {g : GraphName} {u : Unit}
    (h : Ends (check env user kind g) b u b') : b'.journal.nextNode = b.journal.nextNode := by
  rcases ends_check_cases h with ⟨-, rfl⟩ | ⟨-, -, rfl⟩ <;> rfl

theorem nextNode_of_ends_forM_check {α : Type} {kind : α → AccessKind} {g : α → GraphName}
    {xs : List α} {u : Unit} (h : Ends (xs.forM fun x => check env user (kind x) (g x)) b u b') :
    b'.journal.nextNode = b.journal.nextNode := by
  induction xs generalizing b with
  | nil => rw [ends_forM_nil.mp h]
  | cons x xs ih =>
      obtain ⟨b₁, hx, hxs⟩ := ends_forM_cons.mp h
      rw [ih hxs, nextNode_of_ends_check hx]

/-- A store call that makes one write: its answer says whether the write had an effect. -/
theorem ends_write {act : Transaction → Bool × Transaction} {w : Write} {r : Bool}
    (hact : ∀ tx, act tx = tx.edit w.edit) (h : Ends (write env act) b r b') :
    r = decide (w.Effective b.tx.content) ∧ ∃ j, b' = { b with
      tx := if w.Effective b.tx.content then ⟨w.apply b.tx.content, b.tx.log ++ [w.edit]⟩ else b.tx
      journal := j } := by
  obtain ⟨hr, j, hb'⟩ := Ends.of_call (ends_mapError.mp h)
  rw [hact] at hr hb'
  by_cases he : w.Effective b.tx.content
  · rw [Transaction.edit_of_effective he] at hr hb'
    exact ⟨by simpa [he] using hr, j, by simpa [he] using hb'⟩
  · rw [Transaction.edit_of_not_effective he] at hr hb'
    exact ⟨by simpa [he] using hr, j, by simpa [he] using hb'⟩

theorem insert_eq_edit (q : Quad) (tx : Transaction) :
    tx.insert q = tx.edit (Write.insert q).edit := by
  cases hq : q.graph with
  | default =>
      simp only [Transaction.insert, Write.edit, hq]
      rfl
  | named g =>
      have hqg : q.triple.inGraph (.named g) = q := by rw [← hq]; rfl
      simp only [Transaction.insert, Write.edit, hq, Transaction.addToNamed, hqg]
      rfl

theorem remove_eq_edit (q : Quad) (tx : Transaction) :
    tx.remove q = tx.edit (Write.remove q).edit := by
  cases hq : q.graph with
  | default =>
      simp only [Transaction.remove, Write.edit, hq]
      rfl
  | named g =>
      have hqg : q.triple.inGraph (.named g) = q := by rw [← hq]; rfl
      simp only [Transaction.remove, Write.edit, hq, Transaction.removeFromNamed, hqg]
      rfl

theorem ends_insert {q : Quad} {u : Unit} (h : Ends (insert env q) b u b') :
    b'.ledger = b.ledger.attempt (.insert q) := by
  unfold insert at h
  obtain ⟨r, b₁, hwrite, h⟩ := ends_bind.mp h
  obtain ⟨hr, j, rfl⟩ := ends_write (insert_eq_edit q) hwrite
  by_cases he : (Write.insert q).Effective b.tx.content
  · rw [hr, decide_eq_true he, if_pos rfl, ends_modify] at h
    subst h
    simp [Ledger.attempt, Ledger.write, Batch.ledger, Write.removed, Write.added, he]
  · rw [hr, decide_eq_false he, if_neg Bool.false_ne_true, ends_pure] at h
    obtain ⟨-, rfl⟩ := h
    simp [Ledger.attempt, Batch.ledger, he]

theorem ends_remove {q : Quad} {u : Unit} (h : Ends (remove env q) b u b') :
    b'.ledger = b.ledger.attempt (.remove q) := by
  unfold remove at h
  obtain ⟨r, b₁, hwrite, h⟩ := ends_bind.mp h
  obtain ⟨hr, j, rfl⟩ := ends_write (remove_eq_edit q) hwrite
  by_cases he : (Write.remove q).Effective b.tx.content
  · rw [hr, decide_eq_true he, if_pos rfl, ends_modify] at h
    subst h
    simp [Ledger.attempt, Ledger.write, Batch.ledger, Write.removed, Write.added, he]
  · rw [hr, decide_eq_false he, if_neg Bool.false_ne_true, ends_pure] at h
    obtain ⟨-, rfl⟩ := h
    simp [Ledger.attempt, Batch.ledger, he]

theorem ends_insertGraph {g : Resource} {u : Unit} (h : Ends (insertGraph env g) b u b') :
    b'.ledger = b.ledger.attempt (.register g) := by
  unfold insertGraph at h
  obtain ⟨r, b₁, hwrite, h⟩ := ends_bind.mp h
  obtain ⟨hr, j, rfl⟩ := ends_write (w := .register g) (fun _ => rfl) hwrite
  obtain ⟨-, rfl⟩ := ends_pure.mp h
  by_cases he : (Write.register g).Effective b.tx.content <;>
    simp [Ledger.attempt, Ledger.write, Batch.ledger, Write.removed, Write.added, he]

/-- Removing a graph that holds no quads forgets its registration. -/
theorem ends_removeGraph {g : Resource} {u : Unit} (hempty : b.tx.content.within (.named g) = [])
    (h : Ends (removeGraph env (.named g)) b u b') :
    b'.ledger = b.ledger.attempt (.unregister g) := by
  unfold removeGraph at h
  obtain ⟨r, b₁, hwrite, h⟩ := ends_bind.mp h
  obtain ⟨-, j, rfl⟩ := Ends.of_call (ends_mapError.mp hwrite)
  obtain ⟨-, rfl⟩ := ends_pure.mp h
  have htx : (b.tx.removeGraph g).2 = (b.tx.edit (Write.unregister g).edit).2 := by
    rw [show (b.tx.removeGraph g).2 = _ from TransactionStep.run_eq_edits b.tx (.removeGraph g),
      TransactionStep.entries, show b.tx.content.findNamed g .any = [] from hempty]
    rfl
  rw [show Batch.ledger _ = _ from rfl, htx]
  by_cases he : (Write.unregister g).Effective b.tx.content
  · rw [Transaction.edit_of_effective he]
    simp [Ledger.attempt, Ledger.write, Batch.ledger, Write.removed, Write.added, he]
  · rw [Transaction.edit_of_not_effective he]
    simp [Ledger.attempt, Batch.ledger, he]

theorem ends_forM_attempt {α : Type} {f : α → Step Unit} {w : α → Write} {xs : List α} {u : Unit}
    (hf : ∀ x {b b' : Batch} {u : Unit}, Ends (f x) b u b' →
      b'.ledger = b.ledger.attempt (w x))
    (h : Ends (xs.forM f) b u b') : b'.ledger = b.ledger.attemptAll (xs.map w) := by
  induction xs generalizing b with
  | nil =>
      obtain rfl := ends_forM_nil.mp h
      rfl
  | cons x xs ih =>
      obtain ⟨b₁, hx, hxs⟩ := ends_forM_cons.mp h
      rw [ih hxs, hf x hx]
      rfl

theorem ends_forM_insert {qs : List Quad} {u : Unit} (h : Ends (qs.forM (insert env)) b u b') :
    b'.ledger = b.ledger.attemptAll (qs.map .insert) :=
  ends_forM_attempt (fun _ _ _ _ => ends_insert) h

theorem ends_forM_remove {qs : List Quad} {u : Unit} (h : Ends (qs.forM (remove env)) b u b') :
    b'.ledger = b.ledger.attemptAll (qs.map .remove) :=
  ends_forM_attempt (fun _ _ _ _ => ends_remove) h

/-- Clearing a graph takes all its quads out, in order, and leaves it empty. -/
theorem ends_clearGraph {g : GraphName} {u : Unit} (h : Ends (clearGraph env g) b u b') :
    b'.ledger = b.ledger.attemptAll ((b.tx.content.within g).map .remove) ∧
      b'.tx.content.within g = [] := by
  unfold clearGraph at h
  obtain ⟨qs, b₁, hqs, h⟩ := ends_bind.mp h
  obtain ⟨rfl, j, rfl⟩ := ends_quadsOf hqs
  have hb' := ends_forM_remove h
  refine ⟨hb', ?_⟩
  rw [show b'.tx.content = b'.ledger.content from rfl, hb']
  exact Ledger.within_attemptAll_removes rfl

end Step

end GraphStore
