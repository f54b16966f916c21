/-
# `GraphStore.Proofs.Effects` — what removing and copying graphs does

Two relations of contents say what becomes of the graphs, as sets: `Dropped` if a graph is
removed, and `Transferred` if the quads of a graph go to another one.

    ADD                    COPY                            MOVE
    src   dst              src   dst                       src   dst
    {a,b} {b,c}            {a,b} {b,c}                     {a,b} {b,c}
    {a,b} {a,b,c}          {a,b} {a,b}                     {}    {a,b}

They say nothing about the order of the lists, and nothing about the registration of the
destination, in which the ways of carrying out a transfer differ.  COPY is a removal of
the destination and then ADD (`Dropped.copied`), and MOVE is COPY and then a removal of the
source (`Transferred.moved`).  The writes that the operations attempt have these effects
(`dropped_removal`, `transferred_transferring`).
-/
import GraphStore.Proofs.Attempts
import GraphStore.Proofs.Repetitions

namespace GraphStore

/-! ## Attempts as sets -/

namespace Ledger

variable {l : Ledger} {q x : Quad} {qs : List Quad}

theorem valid_attempt (hl : l.content.Valid) (w : Write) : (l.attempt w).content.Valid := by
  unfold attempt
  split
  · rename_i he
    exact Write.valid_apply hl he
  · exact hl

theorem valid_attemptAll (hl : l.content.Valid) (ws : List Write) :
    (l.attemptAll ws).content.Valid := by
  induction ws generalizing l with
  | nil => exact hl
  | cons w ws ih => exact ih (valid_attempt hl w)

theorem holds_attempt_insert :
    (l.attempt (.insert x)).content.lists.Holds q ↔ l.content.lists.Holds q ∨ q = x := by
  unfold attempt
  split
  · exact QuadLists.holds_append
  · rename_i he
    have hx : l.content.lists.Holds x := not_not.mp he
    constructor
    · exact .inl
    · rintro (h | rfl)
      · exact h
      · exact hx

theorem holds_attempt_remove (hl : l.content.Valid) :
    (l.attempt (.remove x)).content.lists.Holds q ↔ l.content.lists.Holds q ∧ q ≠ x := by
  unfold attempt
  split
  · exact QuadLists.holds_erase ⟨hl.nodup_triples, hl.nodup_quads⟩
  · rename_i he
    constructor
    · intro h
      exact ⟨h, fun hq => he (hq ▸ h)⟩
    · exact And.left

theorem graphs_attempt_insert : (l.attempt (.insert x)).content.graphs = l.content.graphs := by
  unfold attempt
  split <;> rfl

theorem graphs_attempt_remove : (l.attempt (.remove x)).content.graphs = l.content.graphs := by
  unfold attempt
  split <;> rfl

/-- The quads that are noted as deleted and as inserted. -/
def notes (l : Ledger) : List Quad × List Quad := (l.deleted, l.inserted)

/-- A write that adds and removes no quad is not noted. -/
theorem notes_attempt {w : Write} (hremoved : w.removed = []) (hadded : w.added = []) :
    (l.attempt w).notes = l.notes := by
  unfold attempt
  split
  · show (l.deleted ++ w.removed, l.inserted ++ w.added) = _
    rw [hremoved, hadded, List.append_nil, List.append_nil]
    rfl
  · rfl

theorem lists_attempt_register {g : Resource} :
    (l.attempt (.register g)).content.lists = l.content.lists := by
  unfold attempt
  split <;> rfl

theorem lists_attempt_unregister {g : Resource} :
    (l.attempt (.unregister g)).content.lists = l.content.lists := by
  unfold attempt
  split <;> rfl

theorem mem_graphs_attempt_register {g r : Resource} (hr : r ≠ g) :
    r ∈ (l.attempt (.register g)).content.graphs ↔ r ∈ l.content.graphs := by
  unfold attempt
  split
  · show r ∈ l.content.graphs ++ [g] ↔ _
    rw [List.mem_append, List.mem_singleton]
    exact or_iff_left hr
  · exact Iff.rfl

theorem mem_graphs_attempt_unregister (hl : l.content.Valid) {g r : Resource} :
    r ∈ (l.attempt (.unregister g)).content.graphs ↔ r ∈ l.content.graphs ∧ r ≠ g := by
  unfold attempt
  split
  · show r ∈ l.content.graphs.erase g ↔ _
    rw [hl.nodup_graphs.mem_erase_iff, and_comm]
  · rename_i he
    constructor
    · intro hr
      exact ⟨hr, fun hg => he (hg ▸ hr)⟩
    · exact And.left

theorem holds_inserts : (l.attemptAll (qs.map .insert)).content.lists.Holds q ↔
    l.content.lists.Holds q ∨ q ∈ qs := by
  induction qs generalizing l with
  | nil => exact (or_iff_left List.not_mem_nil).symm
  | cons x qs ih =>
      rw [List.mem_cons, ← or_assoc, ← holds_attempt_insert]
      exact ih

theorem graphs_inserts :
    (l.attemptAll (qs.map .insert)).content.graphs = l.content.graphs := by
  induction qs generalizing l with
  | nil => rfl
  | cons x qs ih => exact ih.trans graphs_attempt_insert

theorem holds_removes (hl : l.content.Valid) :
    (l.attemptAll (qs.map .remove)).content.lists.Holds q ↔
      l.content.lists.Holds q ∧ q ∉ qs := by
  induction qs generalizing l with
  | nil => exact (and_iff_left List.not_mem_nil).symm
  | cons x qs ih =>
      rw [List.mem_cons, not_or, ← and_assoc, ← ne_eq, ← holds_attempt_remove hl]
      exact ih (valid_attempt hl _)

theorem graphs_removes :
    (l.attemptAll (qs.map .remove)).content.graphs = l.content.graphs := by
  induction qs generalizing l with
  | nil => rfl
  | cons x qs ih => exact ih.trans graphs_attempt_remove

theorem inserted_attemptAll {ws : List Write} (h : ∀ w ∈ ws, w.added = []) :
    (l.attemptAll ws).inserted = l.inserted := by
  induction ws generalizing l with
  | nil => rfl
  | cons w ws ih =>
      obtain ⟨hw, hws⟩ := List.forall_mem_cons.mp h
      refine (ih hws).trans ?_
      unfold attempt
      split
      · show l.inserted ++ w.added = l.inserted
        rw [hw, List.append_nil]
      · rfl

theorem deleted_attemptAll {ws : List Write} (h : ∀ w ∈ ws, w.removed = []) :
    (l.attemptAll ws).deleted = l.deleted := by
  induction ws generalizing l with
  | nil => rfl
  | cons w ws ih =>
      obtain ⟨hw, hws⟩ := List.forall_mem_cons.mp h
      refine (ih hws).trans ?_
      unfold attempt
      split
      · show l.deleted ++ w.removed = l.deleted
        rw [hw, List.append_nil]
      · rfl

theorem inserted_removes : (l.attemptAll (qs.map .remove)).inserted = l.inserted :=
  inserted_attemptAll (List.forall_mem_map.mpr fun _ _ => rfl)

theorem deleted_inserts : (l.attemptAll (qs.map .insert)).deleted = l.deleted :=
  deleted_attemptAll (List.forall_mem_map.mpr fun _ _ => rfl)

/-- A quad that is held, or comes again, is attempted in vain. -/
theorem attemptAll_inserts_eq_new (l : Ledger) (qs : List Quad) :
    l.attemptAll (qs.map .insert) =
      l.attemptAll ((qs.eraseDups.filter (¬ l.content.lists.Holds ·)).map .insert) := by
  induction qs generalizing l with
  | nil => rfl
  | cons q qs ih =>
      have hstep : l.attemptAll ((q :: qs).map .insert) =
          (l.attempt (.insert q)).attemptAll (qs.map .insert) := rfl
      -- behind its first appearance `q` is not new, be it that it was held or that it is now
      have hrest : qs.filter (¬ (l.attempt (.insert q)).content.lists.Holds ·) =
          (qs.filter (!· == q)).filter (¬ l.content.lists.Holds ·) := by
        rw [List.filter_filter]
        refine List.filter_congr fun x _ => ?_
        rw [Bool.eq_iff_iff, decide_eq_true_iff, holds_attempt_insert, not_or, Bool.and_eq_true,
          decide_eq_true_iff, Bool.not_eq_true', beq_eq_false_iff_ne]
      rw [hstep, ih, ← eraseDups_filter, hrest, eraseDups_filter, List.eraseDups_cons]
      by_cases hq : l.content.lists.Holds q
      · rw [List.filter_cons_of_neg (by simpa using hq),
          attempt_of_not_effective (w := .insert q) (not_not_intro hq)]
      · rw [List.filter_cons_of_pos (by simpa using hq)]
        rfl

/-- Different quads that are not held are all inserted. -/
theorem attemptAll_inserts_of_new (hqs : qs.Nodup) (hnew : ∀ q ∈ qs, ¬ l.content.lists.Holds q) :
    l.attemptAll (qs.map .insert) =
      ⟨l.content.withLists (qs.foldl .append l.content.lists),
        l.log ++ (qs.map .insert).map Write.edit, l.deleted, l.inserted ++ qs⟩ := by
  induction qs generalizing l with
  | nil => simp [attemptAll, Content.withLists, Content.lists]
  | cons q qs ih =>
      obtain ⟨hq, hqs⟩ := List.nodup_cons.mp hqs
      obtain ⟨hnewq, hnew⟩ := List.forall_mem_cons.mp hnew
      have hattempt : l.attempt (.insert q) = l.write (.insert q) := if_pos hnewq
      have hstep : l.attemptAll ((q :: qs).map .insert) =
          (l.write (.insert q)).attemptAll (qs.map .insert) := by
        rw [← hattempt]
        rfl
      rw [hstep, ih hqs fun x hx => ?_]
      · simp [write, Write.apply, Write.removed, Write.added, Content.withLists, Content.lists]
      · show ¬ (l.content.lists.append q).Holds x
        rw [QuadLists.holds_append, not_or]
        exact ⟨hnew x hx, fun hxq => hq (hxq ▸ hx)⟩

/-- Insertions one after the other append, note and log the new quads. -/
theorem attemptAll_inserts (l : Ledger) (qs : List Quad) :
    let new := qs.eraseDups.filter (¬ l.content.lists.Holds ·)
    l.attemptAll (qs.map .insert) =
      ⟨l.content.withLists (new.foldl .append l.content.lists),
        l.log ++ (new.map .insert).map Write.edit, l.deleted, l.inserted ++ new⟩ := by
  intro new
  rw [attemptAll_inserts_eq_new]
  refine attemptAll_inserts_of_new ((nodup_eraseDups qs).filter _) fun q hq => ?_
  exact of_decide_eq_true (List.mem_filter.mp hq).2

/-- What was there is noted as deleted, in the order of the attempts. -/
theorem deleted_removes (hl : l.content.Valid) (hqs : qs.Nodup) :
    (l.attemptAll (qs.map .remove)).deleted =
      l.deleted ++ qs.filter (l.content.lists.Holds ·) := by
  induction qs generalizing l with
  | nil => exact (List.append_nil _).symm
  | cons x qs ih =>
      obtain ⟨hx, hqs⟩ := List.nodup_cons.mp hqs
      have hrest : qs.filter ((l.attempt (.remove x)).content.lists.Holds ·) =
          qs.filter (l.content.lists.Holds ·) := by
        refine List.filter_congr fun q hq => decide_eq_decide.mpr ?_
        rw [holds_attempt_remove hl]
        exact and_iff_left fun hqx => hx (hqx ▸ hq)
      refine (ih (valid_attempt hl _) hqs).trans ?_
      rw [hrest]
      by_cases he : l.content.lists.Holds x
      · rw [List.filter_cons_of_pos (by simpa using he), attempt,
          if_pos (show (Write.remove x).Effective l.content from he)]
        exact List.append_assoc l.deleted [x] _
      · rw [List.filter_cons_of_neg (by simpa using he), attempt,
          if_neg (show ¬ (Write.remove x).Effective l.content from he)]

/-- What was not there is noted as inserted, in the order of the attempts. -/
theorem inserted_inserts (hqs : qs.Nodup) :
    (l.attemptAll (qs.map .insert)).inserted =
      l.inserted ++ qs.filter (¬ l.content.lists.Holds ·) := by
  rw [attemptAll_inserts, eraseDups_eq_self hqs]

/-- Taking out quads that are there. -/
theorem notes_removes (hl : l.content.Valid) (hqs : qs.Nodup)
    (hheld : ∀ q ∈ qs, l.content.lists.Holds q) :
    (l.attemptAll (qs.map .remove)).notes = (l.deleted ++ qs, l.inserted) := by
  refine Prod.ext ((deleted_removes hl hqs).trans ?_) inserted_removes
  rw [List.filter_eq_self.mpr fun q hq => decide_eq_true (hheld q hq)]

theorem notes_inserts (hqs : qs.Nodup) : (l.attemptAll (qs.map .insert)).notes =
    (l.deleted, l.inserted ++ qs.filter (¬ l.content.lists.Holds ·)) :=
  Prod.ext deleted_inserts (inserted_inserts hqs)

/-- What is noted as deleted is what was there. -/
theorem mem_deleted_removes (hl : l.content.Valid) :
    q ∈ (l.attemptAll (qs.map .remove)).deleted ↔
      q ∈ l.deleted ∨ q ∈ qs ∧ l.content.lists.Holds q := by
  induction qs generalizing l with
  | nil => simp [attemptAll]
  | cons x qs ih =>
      refine (ih (valid_attempt hl (.remove x))).trans ?_
      rw [holds_attempt_remove hl]
      have hnoted : q ∈ (l.attempt (.remove x)).deleted ↔
          q ∈ l.deleted ∨ q = x ∧ l.content.lists.Holds q := by
        unfold attempt
        split
        · rename_i he
          show q ∈ l.deleted ++ [x] ↔ _
          rw [List.mem_append, List.mem_singleton]
          exact or_congr_right ⟨fun h => ⟨h, h ▸ he⟩, And.left⟩
        · rename_i he
          refine (or_iff_left ?_).symm
          rintro ⟨rfl, h⟩
          exact he h
      rw [hnoted, List.mem_cons]
      by_cases hqx : q = x <;> simp [hqx]

/-- What is noted as inserted is what was not there. -/
theorem mem_inserted_inserts : q ∈ (l.attemptAll (qs.map .insert)).inserted ↔
    q ∈ l.inserted ∨ q ∈ qs ∧ ¬ l.content.lists.Holds q := by
  rw [attemptAll_inserts, List.mem_append, List.mem_filter, List.mem_eraseDups,
    decide_eq_true_iff]

theorem notes_placeholder {g : GraphName} :
    (l.attemptAll (Write.placeholder qs g)).notes = l.notes := by
  cases g with
  | default => rfl
  | named r =>
      cases qs with
      | nil => exact notes_attempt rfl rfl
      | cons q qs => rfl

theorem notes_forget {g : GraphName} : (l.attemptAll (Write.forget g)).notes = l.notes := by
  cases g with
  | default => rfl
  | named r => exact notes_attempt rfl rfl

theorem lists_placeholder {g : GraphName} :
    (l.attemptAll (Write.placeholder qs g)).content.lists = l.content.lists := by
  cases g with
  | default => rfl
  | named r =>
      cases qs with
      | nil => exact lists_attempt_register
      | cons q qs => rfl

theorem mem_graphs_placeholder {g : GraphName} {r : Resource} (hr : .named r ≠ g) :
    r ∈ (l.attemptAll (Write.placeholder qs g)).content.graphs ↔ r ∈ l.content.graphs := by
  cases g with
  | default => exact Iff.rfl
  | named r' =>
      cases qs with
      | nil => exact mem_graphs_attempt_register fun hrr => hr (congrArg GraphName.named hrr)
      | cons q qs => exact Iff.rfl

end Ledger

/-! ## Contents -/

namespace Content

/-- The quads of the source that the destination lacks, as quads of the destination. -/
def lacking (c : Content) (source destination : GraphName) : List Quad :=
  (c.copies source destination).filter (¬ c.lists.Holds ·)

/-- The graph has been removed. -/
structure Dropped (g : GraphName) (c c' : Content) : Prop where
  valid : c'.Valid
  holds_iff : ∀ q, c'.lists.Holds q ↔ c.lists.Holds q ∧ q.graph ≠ g
  graphs_iff : ∀ r, r ∈ c'.graphs ↔ r ∈ c.graphs ∧ .named r ≠ g

/-- The quads of the source have gone to the destination; what was there before is kept by ADD
only, and the source by all but MOVE. -/
structure Transferred (action : GraphAction) (source destination : GraphName) (c c' : Content) :
    Prop where
  valid : c'.Valid
  holds_iff : ∀ q, c'.lists.Holds q ↔
    (c.lists.Holds q ∧ (action ≠ .add → q.graph ≠ destination) ∧
      (action = .move → q.graph ≠ source)) ∨
    (q.graph = destination ∧ c.lists.Holds (q.triple.inGraph source))
  graphs_iff : ∀ r, .named r ≠ destination →
    (r ∈ c'.graphs ↔ r ∈ c.graphs ∧ (action = .move → .named r ≠ source))

variable {c c' c₁ c₂ : Content} {g source destination : GraphName} {action : GraphAction}

theorem mem_lacking {q : Quad} : q ∈ c.lacking source destination ↔
    (q.graph = destination ∧ c.lists.Holds (q.triple.inGraph source)) ∧ ¬ c.lists.Holds q := by
  rw [lacking, List.mem_filter, mem_copies, decide_eq_true_iff]

/-- A graph that does not exist is removed by doing nothing. -/
theorem dropped_of_not_has (hc : c.Valid) (h : ¬ c.Has g) : c.Dropped g c := by
  cases g with
  | default => exact absurd trivial h
  | named r =>
      have habsent := mt containsGraph_iff.mpr h
      rw [not_or] at habsent
      refine ⟨hc, fun q => ?_, fun r' => ?_⟩
      · exact ⟨fun hq => ⟨hq, fun hg => habsent.2 ⟨q, hg, hq⟩⟩, And.left⟩
      · refine ⟨fun hr => ⟨hr, ?_⟩, And.left⟩
        rintro ⟨rfl⟩
        exact habsent.1 hr

/-- Into an empty destination, ADD does the same as COPY. -/
theorem Dropped.copied (hdrop : c.Dropped destination c₁)
    (hadd : c₁.Transferred .add source destination c₂) (hne : source ≠ destination) :
    c.Transferred .copy source destination c₂ where
  valid := hadd.valid
  holds_iff q := by
    rw [hadd.holds_iff, hdrop.holds_iff, hdrop.holds_iff]
    simp [hne]
  graphs_iff r hr := by
    rw [hadd.graphs_iff r hr, hdrop.graphs_iff]
    simp [hr]

/-- COPY makes a MOVE if the source is removed after it. -/
theorem Transferred.moved (h : c.Transferred .copy source destination c₁)
    (hdrop : c₁.Dropped source c₂) (hne : source ≠ destination) :
    c.Transferred .move source destination c₂ where
  valid := hdrop.valid
  holds_iff q := by
    rw [hdrop.holds_iff, h.holds_iff]
    have hapart : q.graph = destination → q.graph ≠ source := fun hd hs => hne (hs.symm.trans hd)
    constructor
    · rintro ⟨⟨hq, hkeep, -⟩ | hcopied, hsource⟩
      · exact .inl ⟨hq, fun _ => hkeep GraphAction.noConfusion, fun _ => hsource⟩
      · exact .inr hcopied
    · rintro (⟨hq, hkeep, hsource⟩ | hcopied)
      · refine ⟨.inl ⟨hq, fun _ => hkeep GraphAction.noConfusion, ?_⟩, hsource rfl⟩
        exact GraphAction.noConfusion
      · exact ⟨.inr hcopied, hapart hcopied.1⟩
  graphs_iff r hr := by
    rw [hdrop.graphs_iff, h.graphs_iff r hr]
    simp

/-- The source of ADD or COPY still exists afterwards. -/
theorem Transferred.has_source (h : c.Transferred action source destination c')
    (hmove : action ≠ .move) (hne : source ≠ destination) (hsource : c.Has source) :
    c'.Has source := by
  cases source with
  | default => trivial
  | named r =>
      refine containsGraph_iff.mpr ((containsGraph_iff.mp hsource).imp ?_ ?_)
      · intro hr
        exact (h.graphs_iff r hne).mpr ⟨hr, fun hm => absurd hm hmove⟩
      · rintro ⟨q, hg, hq⟩
        refine ⟨q, hg, (h.holds_iff q).mpr (.inl ⟨hq, fun _ hd => ?_, fun hm => absurd hm hmove⟩)⟩
        exact hne (hg.symm.trans hd)

/-- Two ways of carrying out a transfer leave the same quads. -/
theorem Transferred.holds_congr (h₁ : c.Transferred action source destination c₁)
    (h₂ : c.Transferred action source destination c₂) (q : Quad) :
    c₁.lists.Holds q ↔ c₂.lists.Holds q :=
  (h₁.holds_iff q).trans (h₂.holds_iff q).symm

/-- Two ways of carrying out a transfer leave the same named graphs, but for the destination. -/
theorem Transferred.containsGraph_congr (h₁ : c.Transferred action source destination c₁)
    (h₂ : c.Transferred action source destination c₂) {r : Resource}
    (hr : .named r ≠ destination) : c₁.containsGraph r = c₂.containsGraph r := by
  rw [Bool.eq_iff_iff, containsGraph_iff, containsGraph_iff, h₁.graphs_iff r hr,
    h₂.graphs_iff r hr]
  simp only [h₁.holds_congr h₂]

/-- Putting the copies in is ADD. -/
theorem transferred_inserts {l : Ledger} (hl : l.content.Valid) (source destination : GraphName) :
    l.content.Transferred .add source destination
      (l.attemptAll ((l.content.copies source destination).map .insert)).content where
  valid := Ledger.valid_attemptAll hl _
  holds_iff q := by
    rw [Ledger.holds_inserts, mem_copies]
    simp
  graphs_iff r _ := by
    rw [Ledger.graphs_inserts]
    simp

/-! ## Writes -/

/-- Emptying a graph and forgetting it. -/
theorem dropped_removal {l : Ledger} (hl : l.content.Valid) (g : GraphName) :
    l.content.Dropped g (l.attemptAll (l.content.removal .drop g)).content := by
  rw [removal, Ledger.attemptAll_append, if_pos rfl]
  have hvalid := Ledger.valid_attemptAll hl ((l.content.within g).map .remove)
  have hholds : ∀ q, (l.attemptAll ((l.content.within g).map .remove)).content.lists.Holds q ↔
      l.content.lists.Holds q ∧ q.graph ≠ g := by
    intro q
    rw [Ledger.holds_removes hl, mem_within]
    refine and_congr_right fun hq => ?_
    rw [and_iff_left hq]
  have hgraphs : (l.attemptAll ((l.content.within g).map .remove)).content.graphs =
      l.content.graphs := Ledger.graphs_removes
  cases g with
  | default =>
      refine ⟨hvalid, hholds, fun r => ?_⟩
      show r ∈ (l.attemptAll ((l.content.within .default).map .remove)).content.graphs ↔ _
      rw [hgraphs]
      exact (and_iff_left GraphName.noConfusion).symm
  | named r =>
      refine ⟨Ledger.valid_attempt hvalid _, fun q => ?_, fun r' => ?_⟩
      · rw [← hholds q]
        exact Iff.of_eq (congrArg (QuadLists.Holds · q) Ledger.lists_attempt_unregister)
      · refine (Ledger.mem_graphs_attempt_unregister hvalid).trans ?_
        rw [hgraphs, ne_eq, ne_eq, GraphName.named.injEq]

/-- Putting in the copies, where a registration may have been left behind. -/
theorem transferred_fill {l : Ledger} (hl : l.content.Valid) (c : Content)
    (source destination : GraphName) :
    let l' := l.attemptAll (Write.placeholder (c.within source) destination ++
      (c.copies source destination).map .insert)
    l'.content.Valid ∧
      (∀ q, l'.content.lists.Holds q ↔
        l.content.lists.Holds q ∨ q ∈ c.copies source destination) ∧
      ∀ r, .named r ≠ destination → (r ∈ l'.content.graphs ↔ r ∈ l.content.graphs) := by
  intro l'
  refine ⟨Ledger.valid_attemptAll hl _, fun q => ?_, fun r hr => ?_⟩
  · show (l.attemptAll (_ ++ _)).content.lists.Holds q ↔ _
    rw [Ledger.attemptAll_append, Ledger.holds_inserts, Ledger.lists_placeholder]
  · show r ∈ (l.attemptAll (_ ++ _)).content.graphs ↔ _
    rw [Ledger.attemptAll_append, Ledger.graphs_inserts, Ledger.mem_graphs_placeholder hr]

theorem transferred_bringing_add {l : Ledger} (hl : l.content.Valid)
    (source destination : GraphName) : l.content.Transferred .add source destination
      (l.attemptAll (l.content.bringing .add source destination)).content := by
  obtain ⟨hvalid, hholds, hgraphs⟩ := transferred_fill hl l.content source destination
  refine ⟨hvalid, fun q => (hholds q).trans ?_, fun r hr => (hgraphs r hr).trans ?_⟩
  · rw [mem_copies]
    simp
  · simp

/-- Unless the action is ADD, what only the destination holds is taken out first. -/
theorem transferred_bringing_of_ne_add {l : Ledger} (hl : l.content.Valid) (hadd : action ≠ .add)
    (source destination : GraphName) : l.content.Transferred .copy source destination
      (l.attemptAll (l.content.bringing action source destination)).content := by
  rw [bringing, Ledger.attemptAll_append]
  have hvalid :=
    Ledger.valid_attemptAll hl ((l.content.stale action source destination).map .remove)
  obtain ⟨hvalid, hholds, hgraphs⟩ := transferred_fill hvalid l.content source destination
  refine ⟨hvalid, fun q => (hholds q).trans ?_, fun r hr => (hgraphs r hr).trans ?_⟩
  · rw [Ledger.holds_removes hl, mem_stale, mem_copies]
    by_cases hg : q.graph = destination <;> simp +contextual [hg, hadd]
  · rw [Ledger.graphs_removes]
    simp

/-- What a transfer attempts has the effect that its name says. -/
theorem transferred_transferring {l : Ledger} (hl : l.content.Valid)
    (haction : action.isTransfer = true) (hne : source ≠ destination) :
    l.content.Transferred action source destination
      (l.attemptAll (l.content.transferring action source destination)).content := by
  rw [transferring, Ledger.attemptAll_append]
  cases action with
  | add => exact transferred_bringing_add hl source destination
  | copy => exact transferred_bringing_of_ne_add hl GraphAction.noConfusion source destination
  | move =>
      have hcopied : l.content.Transferred .copy source destination _ :=
        transferred_bringing_of_ne_add hl (GraphAction.noConfusion : GraphAction.move ≠ .add)
          source destination
      have hsame : l.content.SameAt source
          (l.attemptAll (l.content.bringing .move source destination)).content :=
        Ledger.sameAt_attemptAll fun w hw hg => hne (hg.symm.trans (about_of_mem_bringing hw))
      rw [if_pos rfl, ← hsame.removal_eq .drop]
      exact hcopied.moved (dropped_removal hcopied.valid source) hne
  | drop | clear => cases haction

/-- Bringing quads notes what is stale and what was lacking. -/
theorem notes_bringing {l : Ledger} (hl : l.content.Valid) (action : GraphAction)
    (source destination : GraphName) :
    (l.attemptAll (l.content.bringing action source destination)).notes =
      (l.deleted ++ l.content.stale action source destination,
        l.inserted ++ l.content.lacking source destination) := by
  rw [bringing, Ledger.attemptAll_append, Ledger.attemptAll_append,
    Ledger.notes_inserts (nodup_copies hl source destination), Ledger.lists_placeholder]
  have hstale := Ledger.notes_removes hl (nodup_stale hl action source destination) fun q hq =>
    (mem_stale.mp hq).2.1.2
  obtain ⟨hdeleted, hinserted⟩ := Prod.mk.inj (Ledger.notes_placeholder.trans hstale)
  rw [hdeleted, hinserted]
  -- what is stale is no copy
  refine congrArg (fun qs => (_, l.inserted ++ qs)) (List.filter_congr fun q hq => ?_)
  refine decide_eq_decide.mpr (not_congr ?_)
  rw [Ledger.holds_removes hl]
  exact and_iff_left fun hstale => (mem_stale.mp hstale).2.2 (mem_copies.mp hq).2

/-- ADD notes what putting the copies in notes. -/
theorem notes_bringing_add {l : Ledger} (hl : l.content.Valid) (source destination : GraphName) :
    (l.attemptAll (l.content.bringing .add source destination)).notes =
      (l.attemptAll ((l.content.copies source destination).map .insert)).notes := by
  rw [notes_bringing hl, Ledger.notes_inserts (nodup_copies hl source destination), stale,
    if_pos rfl, List.append_nil]
  rfl

end Content

end GraphStore
