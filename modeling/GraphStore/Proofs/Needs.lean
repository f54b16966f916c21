/-
# `GraphStore.Proofs.Needs` — the accesses that an operation needs

Which accesses an operation needs is said, reason by reason, by `Action.Needs`.  The two lists of
questions in its plan are these accesses, whatever it finds (`asksFor_plan`).  So an operation that
succeeds has passed exactly what it needs (`ends_action_needs`), and one that nothing else stops
succeeds if it is allowed what it needs (`exists_ends_of_allowed`).
-/
import GraphStore.Proofs.Modification
import GraphStore.Proofs.Questions

namespace GraphStore

/-- The accesses that an action needs where it finds the content `c` and its pattern has the
solutions `S`. -/
inductive Action.Needs (c : Content) (S : List Binding) : Action → AccessKind → GraphName → Prop
  | create {r : Resource} {silent : Bool} : Needs c S (.create r silent) .create (.named r)
  | insertData {qs : List Quad} {q : Quad} : q ∈ qs → Needs c S (.insertData qs) .insertData q.graph
  | deleteData {qs : List Quad} {q : Quad} : q ∈ qs → Needs c S (.deleteData qs) .deleteData q.graph
  /-- DROP or CLEAR of one graph, be it there or not. -/
  | target {op : GraphOperation} {g : GraphName} : op.action.isTransfer = false →
      op.source.single? = some g → Needs c S (.graph op) (Step.removalKind op.action) g
  /-- DROP or CLEAR of several graphs: each one that there is. -/
  | targets {op : GraphOperation} {g : GraphName} : op.action.isTransfer = false →
      op.source.single? = none → op.source.Covers g → c.Has g →
      Needs c S (.graph op) (Step.removalKind op.action) g
  | source {op : GraphOperation} {g : GraphName} : op.action.isTransfer = true →
      op.source.single? = some g → Needs c S (.graph op) .query g
  | destination {op : GraphOperation} {g : GraphName} : op.action.isTransfer = true →
      op.destination = some g → Needs c S (.graph op) .update g
  /-- COPY and MOVE clear their destination. -/
  | replaced {op : GraphOperation} {g : GraphName} : op.action = .copy ∨ op.action = .move →
      op.destination = some g → Needs c S (.graph op) .clear g
  /-- MOVE drops its source. -/
  | moved {op : GraphOperation} {g : GraphName} : op.action = .move →
      op.source.single? = some g → Needs c S (.graph op) .drop g
  | deleteTemplate {m : Modify} {t : QuadPattern} {g : GraphName} : t ∈ m.delete →
      t.graph.constant? = some g → Needs c S (.modify m) .delete g
  | deletion {m : Modify} {q : Quad} : m.Deletes S q → Needs c S (.modify m) .delete q.graph
  | insertTemplate {m : Modify} {t : QuadPattern} {g : GraphName} : t ∈ m.insert →
      t.graph.constant? = some g → Needs c S (.modify m) .update g
  | insertion {m : Modify} {start : Nat} {q : Quad} : m.Inserts start S q →
      Needs c S (.modify m) .update q.graph

namespace Step

open BatchM

variable {env : Environment} {user : User} {b b' : Batch}
  {accesses : List (AccessKind × GraphName)}

/-! ## The accesses that an action needs -/

variable {c : Content} {S : List Binding} {kind : AccessKind} {g : GraphName}

theorem needs_transfer {op : GraphOperation} (haction : op.action.isTransfer = true)
    {source destination : GraphName} (hsource : op.source.single? = some source)
    (hdestination : op.destination = some destination) :
    (kind, g) ∈ transferChecks op.action source destination ↔
      (Action.graph op).Needs c S kind g := by
  unfold transferChecks
  simp only [List.mem_append, List.mem_singleton, List.mem_ite_nil_left, List.mem_ite_nil_right,
    Prod.mk.injEq]
  constructor
  · rintro (((⟨rfl, rfl⟩ | ⟨hadd, rfl, rfl⟩) | ⟨rfl, rfl⟩) | ⟨hmove, rfl, rfl⟩)
    · exact .source haction hsource
    · refine .replaced ?_ hdestination
      cases hop : op.action with
      | add => exact absurd hop hadd
      | copy => exact .inl rfl
      | move => exact .inr rfl
      | drop | clear =>
          rw [hop] at haction
          cases haction
    · exact .destination haction hdestination
    · exact .moved hmove hsource
  · intro h
    cases h with
    | target hremoval | targets hremoval =>
        rw [haction] at hremoval
        cases hremoval
    | source _ h =>
        obtain rfl := Option.some.inj (hsource.symm.trans h)
        simp
    | destination _ h =>
        obtain rfl := Option.some.inj (hdestination.symm.trans h)
        simp
    | replaced hop h =>
        obtain rfl := Option.some.inj (hdestination.symm.trans h)
        rcases hop with hop | hop <;> simp [hop]
    | moved hop h =>
        obtain rfl := Option.some.inj (hsource.symm.trans h)
        simp [hop]

theorem needs_removal {op : GraphOperation} (haction : op.action.isTransfer = false) :
    (Action.graph op).Needs c S kind g ↔ kind = removalKind op.action ∧
      (op.source.single? = some g ∨ op.source.single? = none ∧ op.source.Covers g ∧ c.Has g) := by
  constructor
  · intro h
    cases h with
    | target _ h => exact ⟨rfl, .inl h⟩
    | targets _ hsource hcovers hhas => exact ⟨rfl, .inr ⟨hsource, hcovers, hhas⟩⟩
    | source htransfer | destination htransfer =>
        rw [haction] at htransfer
        cases htransfer
    | replaced hop => rcases hop with hop | hop <;> simp [hop, GraphAction.isTransfer] at haction
    | moved hop => simp [hop, GraphAction.isTransfer] at haction
  · rintro ⟨rfl, hsource | ⟨hsource, hcovers, hhas⟩⟩
    · exact .target haction hsource
    · exact .targets haction hsource hcovers hhas

/-- Whatever is found, the accesses that are asked for have the property. -/
def Plan.AsksFor (p : Plan) (b : Batch) (Q : List (AccessKind × GraphName) → Prop) : Prop :=
  ∀ found b', Ends p.look b found b' → Q (p.first ++ p.second found)

theorem asksFor_direct {Q : List (AccessKind × GraphName) → Prop} {rest : Step Unit}
    (h : Q accesses) : (Plan.direct accesses rest).AsksFor b Q := by
  intro _ _ _
  show Q (accesses ++ [])
  rw [List.append_nil]
  exact h

theorem asksFor_removalPlan {op : GraphOperation} (haction : op.action.isTransfer = false) :
    (removalPlan env op).AsksFor b fun accesses => ∀ kind g, (kind, g) ∈ accesses ↔
      (Action.graph op).Needs b.tx.content S kind g := by
  -- each of the graphs that are found is asked for
  have hfound : ∀ gs : List GraphName, op.source.single? = none →
      gs = b.tx.content.targets op.source → ∀ kind g,
        (kind, g) ∈ [] ++ gs.map (removalKind op.action, ·) ↔
          (Action.graph op).Needs b.tx.content S kind g := by
    rintro gs hsource rfl kind g
    rw [needs_removal haction, hsource, ← Content.mem_targets, List.nil_append, List.mem_map]
    simp [and_comm, eq_comm]
  unfold removalPlan
  cases hop : op.source with
  | named r =>
      intro found b' _ kind g
      rw [needs_removal haction, hop]
      cases found <;> simp [GraphTarget.single?, eq_comm]
  | defaultGraph =>
      refine asksFor_direct fun kind g => ?_
      rw [needs_removal haction, hop]
      simp [GraphTarget.single?, eq_comm]
  | namedGraphs =>
      intro named b' hnamed
      obtain ⟨rfl, -⟩ := ends_namedGraphs hnamed
      exact hfound _ (by rw [hop]; rfl) (by rw [hop]; rfl)
  | allGraphs =>
      intro named b' hnamed
      obtain ⟨rfl, -⟩ := ends_namedGraphs hnamed
      exact hfound _ (by rw [hop]; rfl) (by rw [hop]; rfl)

end Step

/-! ## Pattern-driven updates -/

/-- Where one new node stands, another one can. -/
theorem TermPattern.Stands.renew {f : BlankNode → BlankNode} {s : Binding} {p : TermPattern}
    {t : Term} (h : p.Stands (fun n n' => f n = n') s t) (f' : BlankNode → BlankNode) :
    ∃ t', p.Stands (fun n n' => f' n = n') s t' ∧
      t'.toResource?.isSome = t.toResource?.isSome := by
  cases h with
  | iri i => exact ⟨.iri i, .iri i, rfl⟩
  | literal l => exact ⟨.literal l, .literal l, rfl⟩
  | @blank n _ _ => exact ⟨.blank (f' n), .blank rfl, rfl⟩
  | var hv => exact ⟨t, .var hv, rfl⟩

theorem QuadPattern.Instance.renew {f : BlankNode → BlankNode} {s : Binding} {t : QuadPattern}
    {q : Quad} (h : t.Instance (fun n n' => f n = n') s q) (f' : BlankNode → BlankNode) :
    ∃ q', t.Instance (fun n n' => f' n = n') s q' ∧ q'.graph = q.graph := by
  obtain ⟨x, hx, hresource⟩ := h.subject.renew f'
  rw [Resource.toResource?_toTerm] at hresource
  obtain ⟨r, hr⟩ := Option.isSome_iff_exists.mp hresource
  obtain ⟨o, ho, -⟩ := h.object.renew f'
  have hpredicate : t.predicate.toTermPattern.blanks = [] := by
    cases t.predicate <;> rfl
  refine ⟨⟨r, q.predicate, o, q.graph⟩, ⟨?_, h.predicate.of_no_blanks hpredicate, ho, h.graph⟩, rfl⟩
  rw [← Term.toResource?_eq_some.mp hr]
  exact hx

/-- The graphs of the insertions do not depend on the numbers of the new nodes. -/
theorem Modify.Inserts.renew {m : Modify} {S : List Binding} {start : Nat} {q : Quad}
    (h : m.Inserts start S q) (start' : Nat) :
    ∃ q', m.Inserts start' S q' ∧ q'.graph = q.graph := by
  obtain ⟨i, s, hs, t, ht, hinstance⟩ := h
  obtain ⟨q', hinstance', hgraph⟩ := hinstance.renew
    (freshNode (start' + i * (templateBlanks m.insert).length) (templateBlanks m.insert))
  exact ⟨q', ⟨i, s, hs, t, ht, hinstance'⟩, hgraph⟩

/-- `S` are solutions that are found for the action in a batch that stands at the transaction.  What
they are makes a difference to a pattern-driven update only. -/
def Action.Solved (env : Environment) (user : User) (input : Option Binding) (tx : Transaction)
    (S : List Binding) : Action → Prop
  | .modify m => ∃ b b', b.tx = tx ∧ BatchM.Ends (Step.solve env user m input) b S b'
  | _ => True

namespace Step

open BatchM

variable {env : Environment} {user : User} {input : Option Binding} {b : Batch}

theorem asksFor_modifyPlan (m : Modify) : (modifyPlan env user m input).AsksFor b fun accesses =>
    ∃ S, (Action.modify m).Solved env user input b.tx S ∧
      ∀ kind g, (kind, g) ∈ accesses ↔ (Action.modify m).Needs b.tx.content S kind g := by
  rintro ⟨S, start⟩ b' hlook
  obtain ⟨S', b₁, hsolve, hlook⟩ := ends_bind.mp hlook
  obtain ⟨start', b₂, -, hlook⟩ := ends_bind.mp hlook
  obtain ⟨hfound, -⟩ := ends_pure.mp hlook
  cases hfound
  refine ⟨S, ⟨b, b₁, rfl, hsolve⟩, fun kind g => ?_⟩
  simp only [modifyPlan, List.mem_append, List.mem_map, List.mem_filterMap,
    Prod.mk.injEq]
  constructor
  · rintro ((⟨_, ⟨t, ht, hg⟩, rfl, rfl⟩ | ⟨_, ⟨t, ht, hg⟩, rfl, rfl⟩) |
      ⟨q, hq, rfl, rfl⟩ | ⟨q, hq, rfl, rfl⟩)
    · exact .deleteTemplate ht hg
    · exact .insertTemplate ht hg
    · exact .deletion (Modify.mem_deletions_iff.mp hq)
    · exact .insertion (Modify.mem_insertions_iff.mp hq)
  · intro h
    cases h with
    | deleteTemplate ht hg => exact .inl (.inl ⟨g, ⟨_, ht, hg⟩, rfl, rfl⟩)
    | insertTemplate ht hg => exact .inl (.inr ⟨g, ⟨_, ht, hg⟩, rfl, rfl⟩)
    | deletion hq => exact .inr (.inl ⟨_, Modify.mem_deletions_iff.mpr hq, rfl, rfl⟩)
    | insertion hq =>
        obtain ⟨q', hq', hgraph⟩ := hq.renew start
        exact .inr (.inr ⟨q', Modify.mem_insertions_iff.mpr hq', rfl, hgraph⟩)

/-- An action that can succeed asks for what it needs, and for nothing else. -/
theorem asksFor_plan {a : Action} (hformed : a.Formed) :
    (plan env user input a).AsksFor b fun accesses =>
      ∃ S, a.Solved env user input b.tx S ∧
        ∀ kind g, (kind, g) ∈ accesses ↔ a.Needs b.tx.content S kind g := by
  cases a with
  | create r silent =>
      refine asksFor_direct ⟨[], trivial, fun kind g => ?_⟩
      rw [List.mem_singleton]
      constructor
      · rintro ⟨⟩
        exact .create
      · rintro ⟨⟩
        rfl
  | graph op =>
      have hmalformed : op.malformed? = none := hformed
      rcases wellFormed_cases hmalformed with ⟨haction, hdestination⟩ |
        ⟨haction, source, destination, hsource, hdestination⟩
      · have hplan : plan env user input (.graph op) = removalPlan env op := by
          simp only [plan, hmalformed, hdestination]
          cases op.source.single? <;> rfl
        rw [hplan]
        exact fun found b' hlook => ⟨[], trivial, asksFor_removalPlan haction found b' hlook⟩
      · have hplan : plan env user input (.graph op) =
            transferPlan env op.action source destination op.silent := by
          simp only [plan, hmalformed, hsource, hdestination]
        rw [hplan]
        exact asksFor_direct
          ⟨[], trivial, fun kind g => needs_transfer haction hsource hdestination⟩
  | insertData quads =>
      refine asksFor_direct ⟨[], trivial, fun kind g => ?_⟩
      simp only [List.mem_map, List.mem_eraseDups, Prod.mk.injEq]
      constructor
      · rintro ⟨_, ⟨q, hq, rfl⟩, rfl, rfl⟩
        exact .insertData hq
      · intro h
        cases h with
        | insertData hq => exact ⟨_, ⟨_, hq, rfl⟩, rfl, rfl⟩
  | deleteData quads =>
      refine asksFor_direct ⟨[], trivial, fun kind g => ?_⟩
      simp only [List.mem_map, List.mem_eraseDups, Prod.mk.injEq]
      constructor
      · rintro ⟨_, ⟨q, hq, rfl⟩, rfl, rfl⟩
        exact .deleteData hq
      · intro h
        cases h with
        | deleteData hq => exact ⟨_, ⟨_, hq, rfl⟩, rfl, rfl⟩
  | modify m => exact asksFor_modifyPlan m

theorem formed_of_ends {a : Action} {u : Unit} {b' : Batch}
    (h : Ends (action env user input a) b u b') : a.Formed := by
  cases a with
  | create _ _ | insertData _ | deleteData _ | modify _ => trivial
  | graph op =>
      have hop : Ends (graphOperation env user op) b u b' := h
      unfold graphOperation at hop
      cases hmalformed : op.malformed? with
      | none => exact hmalformed
      | some e =>
          rw [hmalformed] at hop
          exact absurd hop not_ends_throw

/-- An action that succeeds has passed what it needs. -/
theorem ends_action_needs (hdiscreet : env.evaluator.Discreet) {a : Action} {u : Unit} {b' : Batch}
    (h : Ends (action env user input a) b u b') :
    ∃ S, a.Solved env user input b.tx S ∧
      ∀ kind g, (kind, g) ∈ b'.passed ↔ (kind, g) ∈ b.passed ∨ a.Needs b.tx.content S kind g := by
  have hformed := formed_of_ends h
  rw [← steps_plan] at h
  obtain ⟨b₁, found, b₂, hledger, hlook, hmem⟩ := (sound_plan hdiscreet input a).mem_passed h
  obtain ⟨S, hsolved, hneeds⟩ := asksFor_plan hformed found b₂ hlook
  rw [Batch.tx_eq_of_ledger_eq hledger] at hsolved hneeds
  exact ⟨S, hsolved, fun kind g => (hmem (kind, g)).trans (or_congr_right (hneeds kind g))⟩

/-- So all of that has been allowed. -/
theorem ends_action_allowed (hdiscreet : env.evaluator.Discreet) {a : Action} {u : Unit}
    {b' : Batch} (h : Ends (action env user input a) b u b') (hb : b.passed = []) :
    ∃ S, a.Solved env user input b.tx S ∧
      ∀ kind g, a.Needs b.tx.content S kind g → env.policy kind g user = true := by
  have hasking : Asking env user (action env user input a) := by
    rw [← steps_plan]
    exact (sound_plan hdiscreet input a).asking
  obtain ⟨asked, hasks, hanswered⟩ := hasking b (hb ▸ List.nodup_nil)
  rw [show (action env user input a).run b = (.ok u, b') from h] at hasks hanswered
  obtain ⟨S, hsolved, hneeds⟩ := ends_action_needs hdiscreet h
  refine ⟨S, hsolved, fun kind g hneed => hanswered.of_ok (kind, g) ?_⟩
  have hpassed := (hneeds kind g).mpr (.inr hneed)
  rw [hasks.passed_eq, hb] at hpassed
  exact hpassed

/-- Nothing but a refusal stops an action that fits together, has no pattern and does not mind
graphs in the wrong state. -/
theorem exists_ends_of_allowed (hfaults : ∀ kind n, env.faults kind n = none) {a : Action}
    (hpatternless : a.Patternless) (hsilent : a.Silent) (hformed : a.Formed)
    (hallowed : ∀ S kind g, a.Needs b.tx.content S kind g → env.policy kind g user = true) :
    ∃ b', Ends (action env user input a) b () b' := by
  have hmade : (plan env user input a).Made fun _ x => x.Total := by
    refine (handling_total hfaults).made_plan (fun h => absurd hsilent h)
      (fun h => absurd hformed h) fun m hm => ?_
    rw [hm] at hpatternless
    exact hpatternless.elim
  have hasked : ∀ {b₁ found b₂}, b₁.tx = b.tx → Ends (plan env user input a).look b₁ found b₂ →
      ∀ c ∈ (plan env user input a).first ++ (plan env user input a).second found,
        env.policy c.1 c.2 user = true := by
    intro b₁ found b₂ htx hlook c hc
    obtain ⟨S, -, hneeds⟩ := asksFor_plan hformed found b₂ hlook
    rw [htx] at hneeds
    exact hallowed S c.1 c.2 ((hneeds c.1 c.2).mp hc)
  obtain ⟨_, _, hlook⟩ := hmade.look b
  obtain ⟨b₁, hfirst⟩ := exists_ends_forM_check Prod.fst Prod.snd
    (List.forall_mem_append.mp (hasked rfl hlook)).1 b
  have htx : b₁.tx = b.tx :=
    Batch.tx_eq_of_ledger_eq (ledger_of_ends_forM_check Prod.fst Prod.snd hfirst)
  obtain ⟨found, b₂, hlook⟩ := hmade.look b₁
  obtain ⟨b₃, hsecond⟩ := exists_ends_forM_check Prod.fst Prod.snd
    (List.forall_mem_append.mp (hasked htx hlook)).2 b₂
  obtain ⟨_, b', hrest⟩ := hmade.rest found b₃
  rw [← steps_plan, Plan.steps_eq]
  exact ⟨b', ends_bind.mpr ⟨_, b₁, hfirst, ends_bind.mpr ⟨found, b₂, hlook,
    ends_bind.mpr ⟨_, b₃, hsecond, hrest⟩⟩⟩⟩

end Step

end GraphStore
