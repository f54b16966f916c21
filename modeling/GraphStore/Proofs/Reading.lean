/-
# `GraphStore.Proofs.Reading` — every lookup reads the same list of quads

A content can be looked up in several ways, and each of them goes to one of two lists or to
both.

    find (some .default)       the triples
    find (some (.named g))     the quads in g
    find none                  the triples, then the quads
    contains q                 the list of its graph, with all positions fixed
    size                       the lengths of both
    namedGraphs                the registered graphs, and those of the quads

`r.all` are the quads that a reader finds without any restriction, and `r.Coherent` says
that all its lookups are made from this one list.  The reader of a valid content is
coherent: the list of quads has none of the default graph, so that a lookup that leaves
one of the two lists out misses nothing (`Content.lookup_eq`).  A restricted reader is
coherent too, as the reader of a content that is valid with it.

`c.Switched q present changed c'` says what a write does to these answers: whether `q` is
contained is `present` from now on, `changed` tells whether this is new, and the answers
for all other quads stay.  It holds of adding and of removing a quad, in an open transaction
and in the store itself, because a quad that is contained is held by the list of its graph
(`Content.contains_reader`) and no list holds anything twice.
-/
import GraphStore.Proofs.Atomicity
import GraphStore.Proofs.HiddenGraphs
import GraphStore.Proofs.Integrity
import GraphStore.Proofs.Lookup

namespace GraphStore

/-! ## Coherent readers -/

namespace Reader

/-- All quads that the reader finds. -/
def all (r : Reader Id) : List Quad := (r.find none .any).run

/-- All lookups of the reader are made from one list. -/
structure Coherent (r : Reader Id) : Prop where
  find_graph : ∀ (g : GraphName) (f : TripleFilter),
    (r.find (some g) f).run = r.all.filter fun q => q.graph == g && f.accepts q.triple
  find_all : ∀ f : TripleFilter, (r.find none f).run = r.all.filter fun q => f.accepts q.triple
  contains_iff : ∀ q : Quad, (r.contains q).run = true ↔ q ∈ r.all
  size_eq : r.size.run = r.all.length
  mem_namedGraphs : ∀ q ∈ r.all, ∀ g : Resource, q.graph = .named g → g ∈ r.namedGraphs.run

end Reader

namespace Content

variable {c c' : Content} {policy : Policy} {user : User}

theorem find_none_reader (c : Content) (f : TripleFilter) :
    ((c.reader : Reader Id).find none f).run = c.allQuads.filter fun q => f.accepts q.triple := by
  show c.findDefault f ++ c.findAnyNamed f = _
  rw [allQuads, List.filter_append, List.filter_map]
  rfl

theorem all_reader (c : Content) : (c.reader : Reader Id).all = c.allQuads :=
  (c.find_none_reader .any).trans (List.filter_eq_self.mpr fun _ _ => rfl)

/-- A lookup in one graph goes to one of the two lists; the other has no quad of the graph. -/
theorem lookup_eq (hc : c.Valid) (g : GraphName) (f : TripleFilter) :
    c.lookup g f = c.allQuads.filter fun q => q.graph == g && f.accepts q.triple := by
  rw [allQuads, List.filter_append, List.filter_map]
  cases g with
  | default =>
      have hquads : c.quads.filter (fun q => q.graph == .default && f.accepts q.triple) = [] :=
        List.filter_eq_nil_iff.mpr fun q hq => by simp [hc.quads_named q hq]
      rw [hquads, List.append_nil]
      rfl
  | named g =>
      have htriples : c.triples.filter ((fun q : Quad => q.graph == .named g &&
          f.accepts q.triple) ∘ (·.inGraph .default)) = [] :=
        List.filter_eq_nil_iff.mpr fun t _ => by simp
      rw [htriples]
      rfl

theorem size_eq (c : Content) : c.size = c.allQuads.length := by
  rw [size, allQuads, List.length_append, List.length_map]

/-- The reader of a valid content is coherent. -/
theorem Valid.coherent (hc : c.Valid) : (c.reader : Reader Id).Coherent where
  find_graph g f := by
    rw [all_reader, find_reader, ← lookup_eq hc]
    rfl
  find_all f := by rw [all_reader, find_none_reader]
  contains_iff q := by
    rw [all_reader, Reader.contains, find_reader, lookup_eq hc]
    show (!(c.allQuads.filter _).isEmpty) = true ↔ _
    rw [Bool.not_eq_true', List.isEmpty_eq_false_iff_exists_mem]
    simp only [List.mem_filter, Bool.and_eq_true, beq_iff_eq, TripleFilter.accepts_exactly]
    constructor
    · rintro ⟨x, hx, hg, ht⟩
      rwa [QuadLists.eq_of_triple_eq ht hg.symm]
    · intro hq
      exact ⟨q, hq, rfl, rfl⟩
  size_eq := by rw [all_reader, ← size_eq, size_reader]; rfl
  mem_namedGraphs q hq g hg := by
    rw [all_reader, allQuads, List.mem_append] at hq
    refine mem_namedGraphs.mpr (.inr ⟨q, hq.resolve_left ?_, hg⟩)
    intro ht
    obtain ⟨t, -, rfl⟩ := List.mem_map.mp ht
    cases hg

/-- What a user may query of a valid content is valid. -/
theorem Valid.restrict (hc : c.Valid) : (c.restrict policy user).Valid where
  nodup_triples := by
    unfold Content.restrict
    split
    · exact hc.nodup_triples
    · exact .nil
  nodup_quads := hc.nodup_quads.filter _
  quads_named q hq := hc.quads_named q (List.mem_filter.mp hq).1
  nodup_graphs := hc.nodup_graphs.filter _

/-- A user finds the quads of the graphs that the user may query. -/
theorem allQuads_restrict (c : Content) (policy : Policy) (user : User) :
    (c.restrict policy user).allQuads =
      c.allQuads.filter fun q => policy .query q.graph user := by
  unfold allQuads restrict
  rw [List.filter_append, List.filter_map]
  congr 1
  split
  · rename_i hallowed
    exact congrArg _ (List.filter_eq_self.mpr fun _ _ => hallowed).symm
  · rename_i hhidden
    exact congrArg _ (List.filter_eq_nil_iff.mpr fun _ _ => hhidden).symm

/-- All readers of the content are coherent and find its quads, or those that the user may query;
the size of the content is the number of its quads. -/
structure ReadsAgree (c : Content) : Prop where
  reader : (c.reader : Reader Id).Coherent
  all_eq : (c.reader : Reader Id).all = c.allQuads
  restrict : ∀ (policy : Policy) (user : User), (c.reader.restrict policy user).Coherent
  all_restrict : ∀ (policy : Policy) (user : User), (c.reader.restrict policy user).all =
    c.allQuads.filter fun q => policy .query q.graph user
  size_eq : c.size = (c.reader : Reader Id).all.length

theorem Valid.readsAgree (hc : c.Valid) : c.ReadsAgree where
  reader := hc.coherent
  all_eq := c.all_reader
  restrict policy user := by
    rw [c.restrict_reader policy user]
    exact hc.restrict.coherent
  all_restrict policy user := by
    rw [c.restrict_reader policy user, all_reader, allQuads_restrict]
  size_eq := by rw [all_reader, size_eq]

/-! ## Writes between lookups -/

/-- A quad is contained if the list of its graph holds it. -/
theorem contains_reader (hc : c.Valid) (q : Quad) :
    ((c.reader : Reader Id).contains q).run = decide (c.lists.Holds q) := by
  rw [Bool.eq_iff_iff, decide_eq_true_iff, hc.coherent.contains_iff, all_reader]
  have hwithin : c.within q.graph = c.allQuads.filter (·.graph == q.graph) := by
    have hlookup : c.within q.graph = c.lookup q.graph .any := by cases q.graph <;> rfl
    simp only [hlookup, lookup_eq hc, TripleFilter.accepts_any, Bool.and_true]
  have hmem : q ∈ c.within q.graph ↔ q ∈ c.allQuads := by
    rw [hwithin, List.mem_filter, and_iff_left (beq_self_eq_true _)]
  rw [← hmem, mem_within, and_iff_right rfl]

/-- A write has made `q` present, or absent, and has answered whether this changed anything; all
other quads are contained as before. -/
structure Switched (c : Content) (q : Quad) (present changed : Bool) (c' : Content) : Prop where
  contains_self : ((c'.reader : Reader Id).contains q).run = present
  changed_iff : changed = true ↔
    ((c'.reader : Reader Id).contains q).run ≠ ((c.reader : Reader Id).contains q).run
  contains_other : ∀ x, x ≠ q →
    ((c'.reader : Reader Id).contains x).run = ((c.reader : Reader Id).contains x).run

/-- A write that finds `q` as it would leave it has no effect. -/
theorem switched_refl {q : Quad} {present : Bool} (hc : c.Valid)
    (hq : decide (c.lists.Holds q) = present) : c.Switched q present false c where
  contains_self := (contains_reader hc q).trans hq
  changed_iff := iff_of_false Bool.false_ne_true (not_not_intro rfl)
  contains_other _ _ := rfl

/-- A write that finds `q` otherwise, and does nothing to other quads. -/
theorem switched_of_holds {q : Quad} {present : Bool} (hc : c.Valid) (hc' : c'.Valid)
    (hbefore : decide (c.lists.Holds q) = !present) (hself : decide (c'.lists.Holds q) = present)
    (hother : ∀ x, x ≠ q → (c'.lists.Holds x ↔ c.lists.Holds x)) :
    c.Switched q present true c' where
  contains_self := (contains_reader hc' q).trans hself
  changed_iff := by
    rw [contains_reader hc, contains_reader hc', hbefore, hself]
    exact iff_of_true rfl (Bool.self_ne_not present)
  contains_other x hx := by
    rw [contains_reader hc, contains_reader hc', decide_eq_decide]
    exact hother x hx

end Content

namespace Transaction

variable {tx : Transaction}

theorem switched_insert (hc : tx.content.Valid) (q : Quad) :
    tx.content.Switched q true (tx.insert q).1 (tx.insert q).2.content := by
  rw [Step.insert_eq_edit]
  by_cases hw : (Write.insert q).Effective tx.content
  · rw [edit_of_effective hw]
    refine Content.switched_of_holds hc (Write.valid_apply hc hw) (decide_eq_false hw)
      (decide_eq_true (QuadLists.holds_append.mpr (.inr rfl))) fun x hx => ?_
    exact QuadLists.holds_append.trans (or_iff_left hx)
  · rw [edit_of_not_effective hw]
    exact Content.switched_refl hc (decide_eq_true (not_not.mp hw))

theorem switched_remove (hc : tx.content.Valid) (q : Quad) :
    tx.content.Switched q false (tx.remove q).1 (tx.remove q).2.content := by
  have hnodup : tx.content.lists.Nodup := ⟨hc.nodup_triples, hc.nodup_quads⟩
  rw [Step.remove_eq_edit]
  by_cases hw : (Write.remove q).Effective tx.content
  · rw [edit_of_effective hw]
    refine Content.switched_of_holds hc (Write.valid_apply hc hw) (decide_eq_true hw)
      (decide_eq_false fun hq => ((QuadLists.holds_erase hnodup).mp hq).2 rfl) fun x hx => ?_
    exact (QuadLists.holds_erase hnodup).trans (and_iff_left hx)
  · rw [edit_of_not_effective hw]
    exact Content.switched_refl hc (decide_eq_false hw)

end Transaction

/-! ## Single changes of a store -/

namespace Session

variable {tx : Transaction} {c : Content}

/-- A single change is made in a transaction of its own, which is committed. -/
theorem write_single_eq (s : Session) (act : Transaction → Bool × Transaction) :
    s.write Faults.none [act] = match commit ⟨s.content, { s.journal with
        calls := s.journal.calls ++ [.begin] ++ [.write] }⟩ Faults.none
        (act (.start s.content)).2 with
      | (.ok (), s') => (.ok ([(act (.start s.content)).1].count true), s')
      | (.error e, s') => (.error e, s') := rfl

theorem write_single (s : Session) (act : Transaction → Bool × Transaction) {changed : Bool}
    (hact : act (.start s.content) = (changed, tx)) (h : tx.publish s.content = some c) :
    ∃ s', s.write Faults.none [act] = (.ok ([changed].count true), s') ∧ s'.content = c := by
  rw [write_single_eq, hact]
  obtain ⟨s', hcommit, hcontent⟩ : ∃ s', commit ⟨s.content, { s.journal with
      calls := s.journal.calls ++ [.begin] ++ [.write] }⟩ Faults.none tx = (.ok (), s') ∧
        s'.content = c := commit_of_publish (fun _ => rfl) h
  refine ⟨s', ?_, hcontent⟩
  dsimp only
  rw [hcommit]

end Session

namespace Store

variable {s : Store}

/-- A change past the policy is one of a transaction of its own, which is committed. -/
theorem exists_change (s : Store) (step : TransactionStep) :
    ∃ s', s.change step = (.ok (step.run (.start s.content)).1, s') ∧
      s'.content = (step.run (.start s.content)).2.content := by
  have hpublish : (step.run (.start s.content)).2.publish s.content =
    some (step.run (.start s.content)).2.content := TransactionStep.publish_run rfl step
  cases hrun : step.run (.start s.content) with
  | mk changed tx =>
      rw [hrun] at hpublish
      obtain ⟨session, hwrite, hcontent⟩ :=
        s.session.write_single (fun tx => step.run tx) hrun hpublish
      refine ⟨{ s with session }, ?_, hcontent⟩
      have hchange : s.change step =
          let w := s.session.write Faults.none [fun tx => step.run tx]
          (w.1.map (· != 0), { s with session := w.2 }) := rfl
      rw [hchange, hwrite]
      cases changed <;> rfl

theorem switched_insert (hs : s.content.Valid) (q : Quad) :
    ∃ changed s', s.insert q = (.ok changed, s') ∧
      s.content.Switched q true changed s'.content := by
  obtain ⟨s', hchange, hcontent⟩ := s.exists_change (.insert q)
  refine ⟨_, s', (s.insert_eq_change q).trans hchange, ?_⟩
  rw [hcontent, TransactionStep.run_insert]
  exact Transaction.switched_insert (show (Transaction.start s.content).content.Valid from hs) q

theorem switched_remove (hs : s.content.Valid) (q : Quad) :
    ∃ changed s', s.remove q = (.ok changed, s') ∧
      s.content.Switched q false changed s'.content := by
  obtain ⟨s', hchange, hcontent⟩ := s.exists_change (.remove q)
  refine ⟨_, s', (s.remove_eq_change q).trans hchange, ?_⟩
  rw [hcontent, TransactionStep.run_remove]
  exact Transaction.switched_remove (show (Transaction.start s.content).content.Valid from hs) q

end Store

/-! ## The contents of a store -/

/-- Whatever a store that began empty has committed, and whatever the transactions opened on it
work on, is read alike by all lookups, restricted or not.  Adding or removing a quad, in such a
transaction or in the store itself, answers whether the quad is contained otherwise than before and
does nothing to other quads. -/
theorem reads_agree {c : Content} (h : Relation.ReflTransGen Content.Commits .empty c) :
    c.ReadsAgree ∧
      (∀ tx : Transaction, Transaction.OpenOn c tx → tx.content.ReadsAgree ∧ ∀ q,
        tx.content.Switched q true (tx.insert q).1 (tx.insert q).2.content ∧
        tx.content.Switched q false (tx.remove q).1 (tx.remove q).2.content) ∧
      ∀ s : Store, s.content = c → ∀ q,
        (∃ changed s', s.insert q = (.ok changed, s') ∧ c.Switched q true changed s'.content) ∧
        ∃ changed s', s.remove q = (.ok changed, s') ∧ c.Switched q false changed s'.content := by
  have hc : c.Valid := (Content.reachable_of_commits h).valid
  refine ⟨hc.readsAgree, fun tx hopen => ?_, fun s hs q => ?_⟩
  · obtain ⟨steps, rfl⟩ := hopen.exists_steps
    have htx := (TransactionStep.sound_runAll (Transaction.sound_start hc) steps).valid
    exact ⟨htx.readsAgree, fun q =>
      ⟨Transaction.switched_insert htx q, Transaction.switched_remove htx q⟩⟩
  · obtain rfl := hs
    exact ⟨Store.switched_insert hc q, Store.switched_remove hc q⟩

/-- A triple in the default graph and the same one in a named graph, which is then taken out of the
named graph in a transaction; the one in the default graph stays. -/
theorem reads_agree_removing :
    let t : Triple := ⟨.iri ⟨"s"⟩, ⟨"p"⟩, .iri ⟨"o"⟩⟩
    let q : Quad := t.inGraph (.named (.iri ⟨"g"⟩))
    let c : Content := { triples := [t], quads := [q] }
    Relation.ReflTransGen Content.Commits .empty c ∧ c.ReadsAgree ∧
      Transaction.OpenOn c (.start c) ∧
      c.Switched q false true ((Transaction.start c).remove q).2.content ∧
      ((((Transaction.start c).remove q).2.content.reader : Reader Id).contains
        (t.inGraph .default)).run = true := by
  intro t q c
  let added := Session.extend {} Faults.none [q, t.inGraph .default, q]
  have hextend : added = (.ok 2, added.2) := Session.eq_ok_of_toOption (by decide +kernel)
  have hcontent : added.2.content = c := by decide +kernel
  have hcommits : Relation.ReflTransGen Content.Commits .empty c := by
    rw [← hcontent]
    exact .tail .refl (.extend hextend)
  obtain ⟨hc, htransactions, -⟩ := reads_agree hcommits
  have hopen : Transaction.OpenOn c (.start c) := .changes c []
  have hremove := ((htransactions _ hopen).2 q).2
  have hchanged : ((Transaction.start c).remove q).1 = true := by decide +kernel
  rw [hchanged] at hremove
  exact ⟨hcommits, hc, hopen, hremove, by decide +kernel⟩

end GraphStore
