/-
# `GraphStore.Proofs.Folding` — a transfer as one operation, or as what it stands for

ADD, COPY and MOVE can be carried out in two ways: by the operation on graphs that lowering
folds them into, or by the operations that the grammar gives for them.

    MOVE c TO d   one operation    checks · take stale quads of d out · put c in · remove c
                  rewritten        DROP SILENT d · copying update · DROP c

On a valid content and with nothing in the way, both succeed and have the same effect.
There is one lemma for each item of a stream: the transfer (`exists_item_transfer`), the
removal (`exists_item_dropping`) and the copying update (`exists_item_copying`).  Their effects are
relations of the contents before and after, and those of the removals and of the copying
update compose to that of the transfer.

The two ways differ in the registration of the destination: DROP forgets it, and an
operation on graphs that finds no quads to bring registers it.
-/
import GraphStore.Proofs.Atomicity
import GraphStore.Proofs.CopyingUpdate

namespace GraphStore

namespace Step

open BatchM

variable {env : Environment} {user : User} {b : Batch} {source destination : GraphName}

/-! ## One operation -/

/-- A transfer from a graph that exists. -/
theorem exists_transfer (henv : env.Unhindered) {action : GraphAction}
    (haction : action.isTransfer = true) (hne : source ≠ destination) (silent : Bool)
    (hb : b.tx.content.Valid) (hsource : b.tx.content.Has source) :
    ∃ b', Ends (transfer env user action source destination silent) b () b' ∧
      b.tx.content.Transferred action source destination b'.tx.content ∧
      (action = .add → b'.ledger.notes =
        (b.ledger.attemptAll ((b.tx.content.copies source destination).map .insert)).notes) := by
  have hadmitted : action.Admitted (env.May user) source destination :=
    admitted_iff_checks.mpr fun c _ => henv.permits c.1 c.2 user
  obtain ⟨b', htransfer⟩ := exists_ends_transfer henv.faultless hadmitted silent hsource
  have hledger := ends_transfer_attempts htransfer
  rw [if_pos ⟨hne, hsource⟩] at hledger
  refine ⟨b', htransfer, ?_, ?_⟩
  · rw [show b'.tx.content = b'.ledger.content from rfl, hledger]
    exact Content.transferred_transferring (l := b.ledger) hb haction hne
  · rintro rfl
    rw [hledger, Content.transferring, if_neg GraphAction.noConfusion, List.append_nil]
    exact Content.notes_bringing_add (l := b.ledger) hb source destination

/-- DROP of a graph that exists, or of any graph if it is silent. -/
theorem exists_dropOrClear_drop (henv : env.Unhindered) {g : GraphName} {silent : Bool}
    (hb : b.tx.content.Valid) (hg : silent = true ∨ b.tx.content.Has g) :
    ∃ b', Ends (dropOrClear env user ⟨.drop, .ofGraph g, none, silent⟩) b () b' ∧
      b.tx.content.Dropped g b'.tx.content := by
  have hsingle := GraphTarget.single?_ofGraph g
  have hends : ∃ b', Ends (dropOrClear env user ⟨.drop, .ofGraph g, none, silent⟩) b () b' := by
    refine exists_ends_dropOrClear henv.faultless (fun g' hg' => ?_) fun _ _ => henv.permits _ _ _
    obtain rfl := Option.some.inj (hsingle.symm.trans hg')
    exact ⟨henv.permits _ _ _, hg⟩
  obtain ⟨b', hdrop⟩ := hends
  refine ⟨b', hdrop, ?_⟩
  rw [show b'.tx.content = b'.ledger.content from rfl, ends_dropOrClear_attempts hb hdrop,
    Content.targets_of_single hsingle]
  by_cases hhas : b.tx.content.Has g
  · rw [if_pos hhas, List.flatMap_singleton]
    exact Content.dropped_removal (l := b.ledger) hb g
  · rw [if_neg hhas]
    exact Content.dropped_of_not_has hb hhas

/-! ## Items of a stream -/

variable {call : BatchCall}

/-- Without a dataset for the batch, operations run as they are. -/
theorem inScope_eq_self (hscope : call.scope = none) (op : Operation) : inScope call op = op := by
  obtain ⟨action, user⟩ := op
  unfold inScope
  rw [hscope]
  cases action with
  | modify m =>
      show Operation.mk (.modify { m with scope := m.scope.or none }) user = _
      rw [Option.or_none]
  | _ => rfl

/-- What is answered depends only on what is noted. -/
theorem answer_congr {l l' : Ledger} (h : l.notes = l'.notes) : answer env l = answer env l' := by
  obtain ⟨hdeleted, hinserted⟩ := Prod.mk.inj h
  rw [answer, answer, hdeleted, hinserted]

end Step

/-- The batch when its next operation begins. -/
def Batch.next (b : Batch) : Batch where
  tx := b.tx
  journal := { b.journal with pulled := b.journal.pulled + 1 }

/-- The operations that the grammar gives for the transfer, each lowered by itself. -/
def Transfer.rewritten (t : Transfer) : List Operation :=
  match t.action with
  | .copy => [t.destination.dropping true, t.copying]
  | .move => [t.destination.dropping true, t.copying, t.source.dropping t.silent]
  | _ => [t.copying]

theorem Transfer.lowerEach_requests (t : Transfer) (next : Nat) :
    Written.lowerEach next (t.requests.map .plain) = .ok (t.rewritten, next) := by
  rcases t.requests_cases with ⟨haction, hr⟩ | ⟨haction, hr⟩ | ⟨haction, hr⟩ <;>
    rw [hr, Transfer.rewritten, haction] <;> rfl

theorem Transfer.names_different (t : Transfer) : t.source.name ≠ t.destination.name :=
  fun h => t.different (GraphRef.name_injective h)

namespace Step

open BatchM

variable {env : Environment} {call : BatchCall} {b b' : Batch} {t : Transfer}

/-- An operation as an item of a stream. -/
theorem ends_item (hscope : call.scope = none) {op : Operation}
    (h : Ends (action env (op.user.getD (call.user.getD env.options.defaultUser)) call.input
      op.action) b.next () b') : Ends (item env call (.ok op)) b (answer env b'.ledger) b' := by
  refine ends_bind.mpr ⟨⟨⟩, _, ends_modify.mpr rfl, ?_⟩
  show Ends (operation env _ call.input (inScope call op)) _ _ b'
  rw [inScope_eq_self hscope]
  refine ends_bind.mpr ⟨⟨⟩, b.next, ends_modify.mpr rfl, ends_bind.mpr ⟨(), b', h, ?_⟩⟩
  exact ends_get_bind.mpr (ends_pure.mpr ⟨rfl, rfl⟩)

theorem exists_item_transfer (henv : env.Unhindered) (hscope : call.scope = none)
    (hb : b.tx.content.Valid) (hsource : b.tx.content.Has t.source.name) :
    ∃ b', Ends (item env call (.ok { action := .graph t.operation })) b
        (answer env b'.ledger) b' ∧
      b.tx.content.Transferred t.action t.source.name t.destination.name b'.tx.content ∧
      (t.action = .add → b'.ledger.notes = (b.next.ledger.attemptAll
        ((b.tx.content.copies t.source.name t.destination.name).map .insert)).notes) := by
  obtain ⟨b', htransfer, heffect⟩ := exists_transfer (b := b.next) henv t.isTransfer
    t.names_different t.silent hb hsource
  refine ⟨b', ends_item hscope ?_, heffect⟩
  have hsingle : t.operation.source.single? = some t.source.name :=
    GraphTarget.single?_ofGraph t.source.name
  show Ends (graphOperation env _ t.operation) b.next () b'
  rw [graphOperation_of_transfer t.isTransfer hsingle rfl]
  exact htransfer

theorem exists_item_dropping (henv : env.Unhindered) (hscope : call.scope = none)
    (g : GraphRef) (silent : Bool) (hb : b.tx.content.Valid)
    (hg : silent = true ∨ b.tx.content.Has g.name) :
    ∃ b', Ends (item env call (.ok (g.dropping silent))) b (answer env b'.ledger) b' ∧
      b.tx.content.Dropped g.name b'.tx.content := by
  obtain ⟨b', hdrop, heffect⟩ := exists_dropOrClear_drop (b := b.next) henv hb hg
  refine ⟨b', ends_item hscope ?_, heffect⟩
  cases g with
  | default => exact hdrop
  | iri i => exact hdrop

theorem exists_item_copying (henv : env.Unhindered) (hscan : env.evaluator = .scanning)
    (hscope : call.scope = none) (hinput : (call.input.getD .empty).LeavesTripleOpen)
    (t : Transfer) (hb : b.tx.content.Valid) :
    ∃ b', Ends (item env call (.ok t.copying)) b (answer env b'.ledger) b' ∧
      b.tx.content.Transferred .add t.source.name t.destination.name b'.tx.content ∧
      b'.ledger.notes = (b.next.ledger.attemptAll
        ((b.tx.content.copies t.source.name t.destination.name).map .insert)).notes := by
  obtain ⟨b', hmodify, hledger⟩ := exists_modify_copying (b := b.next) henv hscan t hinput hb
  refine ⟨b', ends_item hscope hmodify, ?_, congrArg Ledger.notes hledger⟩
  rw [show b'.tx.content = b'.ledger.content from rfl, hledger]
  exact Content.transferred_inserts (l := b.next.ledger) hb _ _

/-- The operations of a rewriting run one after the other, and come to the transfer. -/
theorem exists_runs_rewritten (henv : env.Unhindered) (hscan : env.evaluator = .scanning)
    (hscope : call.scope = none) (hinput : (call.input.getD .empty).LeavesTripleOpen)
    (t : Transfer) (hb : b.tx.content.Valid) (hsource : b.tx.content.Has t.source.name) :
    ∃ changes b', Runs env call b (t.rewritten.map .ok) changes b' ∧
      b.tx.content.Transferred t.action t.source.name t.destination.name b'.tx.content ∧
      (t.action = .add → changes = [answer env (b.next.ledger.attemptAll
        ((b.tx.content.copies t.source.name t.destination.name).map .insert))]) := by
  -- COPY and MOVE begin with a removal and the copying update
  have hcopy : ∃ change₁ change₂ b₁ b₂,
      Ends (item env call (.ok (t.destination.dropping true))) b change₁ b₁ ∧
      Ends (item env call (.ok t.copying)) b₁ change₂ b₂ ∧
      b.tx.content.Transferred .copy t.source.name t.destination.name b₂.tx.content := by
    obtain ⟨b₁, hdrop, hdropped⟩ :=
      exists_item_dropping henv hscope t.destination true hb (.inl rfl)
    obtain ⟨b₂, hcopying, hadded, -⟩ :=
      exists_item_copying henv hscan hscope hinput t hdropped.valid
    exact ⟨_, _, b₁, b₂, hdrop, hcopying, hdropped.copied hadded t.names_different⟩
  unfold Transfer.rewritten
  have htransfer := t.isTransfer
  cases haction : t.action with
  | add =>
      obtain ⟨b', hcopying, hadded, hnotes⟩ :=
        exists_item_copying henv hscan hscope hinput t hb
      refine ⟨_, b', .cons hcopying (.nil b'), hadded, fun _ => ?_⟩
      rw [answer_congr hnotes]
  | copy =>
      obtain ⟨_, _, b₁, b₂, hdrop, hcopying, hcopied⟩ := hcopy
      exact ⟨_, b₂, .cons hdrop (.cons hcopying (.nil b₂)), hcopied, GraphAction.noConfusion⟩
  | move =>
      obtain ⟨_, _, b₁, b₂, hdrop, hcopying, hcopied⟩ := hcopy
      have hsource₂ := hcopied.has_source GraphAction.noConfusion t.names_different hsource
      obtain ⟨b₃, hlast, hdropped⟩ :=
        exists_item_dropping henv hscope t.source t.silent hcopied.valid (.inr hsource₂)
      exact ⟨_, b₃, .cons hdrop (.cons hcopying (.cons hlast (.nil b₃))),
        hcopied.moved hdropped t.names_different, GraphAction.noConfusion⟩
  | drop | clear =>
      rw [haction] at htransfer
      cases htransfer

end Step

namespace Session

open BatchM

/-- A transfer from a graph that exists can be executed as one operation or as the operations that
it stands for, each lowered by itself.  If nothing stands in the way, both succeed and leave the
same quads, those that the transfer is about, and the same named graphs but for the destination.
An ADD answers the same.  A dataset or an input of the batch could keep triples from the pattern of
the copying update: there is no dataset, and the input binds none of its variables. -/
theorem folding_keeps_meaning {env : Environment} (henv : env.Unhindered)
    (hscan : env.evaluator = .scanning) {call : BatchCall} (hscope : call.scope = none)
    (hinput : (call.input.getD .empty).LeavesTripleOpen) {s : Session} (hs : s.content.Valid)
    {t : Transfer} (hsource : s.content.Has t.source.name) (next : Nat) :
    ∃ ops change changes s₁ s₂,
      Written.lowerEach next (t.requests.map .plain) = .ok (ops, next) ∧
      s.execute env call [{ action := .graph t.operation }] = (.ok [change], s₁) ∧
      s.execute env call ops = (.ok changes, s₂) ∧
      s.content.Transferred t.action t.source.name t.destination.name s₁.content ∧
      (∀ q, s₁.content.lists.Holds q ↔ s₂.content.lists.Holds q) ∧
      (∀ r, .named r ≠ t.destination.name →
        s₁.content.containsGraph r = s₂.content.containsGraph r) ∧
      (t.action = .add → changes = [change]) := by
  have hlooks : env.evaluator.Looks := hscan ▸ Evaluator.looks_scanning
  obtain ⟨b₁, hitem, htransferred₁, hnotes⟩ := Step.exists_item_transfer henv hscope
    (b := s.opened env.faults) hs hsource
  obtain ⟨changes, b₂, hruns, htransferred₂, hchanges⟩ := Step.exists_runs_rewritten henv hscan
    hscope hinput t (b := s.opened env.faults) hs hsource
  obtain ⟨s₁, hexecute₁, hs₁⟩ := executeStream_of_ends hlooks (henv.faultless .begin)
    (henv.faultless .commit) (Step.ends_operations_iff.mpr (.cons hitem (.nil b₁)))
  obtain ⟨s₂, hexecute₂, hs₂⟩ := executeStream_of_ends hlooks (henv.faultless .begin)
    (henv.faultless .commit) (Step.ends_operations_iff.mpr hruns)
  rw [← hs₁] at htransferred₁
  rw [← hs₂] at htransferred₂
  refine ⟨t.rewritten, _, changes, s₁, s₂, t.lowerEach_requests next, hexecute₁, hexecute₂,
    htransferred₁, htransferred₁.holds_congr htransferred₂,
    fun r => htransferred₁.containsGraph_congr htransferred₂, fun hadd => ?_⟩
  rw [hchanges hadd, Step.answer_congr (hnotes hadd)]

/-- A graph with a blank node and a literal is moved into one that holds one of its triples
already; the operations of the rewriting find the triples through variables. -/
theorem folding_keeps_meaning_overlap :
    let a : Iri := ⟨"a"⟩
    let b : Iri := ⟨"b"⟩
    let shared : Triple := ⟨.blank (.label "n"), ⟨"p"⟩, .literal (.simple "s")⟩
    let only : Triple := ⟨.iri ⟨"x"⟩, ⟨"p"⟩, .blank (.label "n")⟩
    let stale : Triple := ⟨.iri ⟨"x"⟩, ⟨"p"⟩, .literal (.tagged "s" "en")⟩
    let s : Session := { content := { quads :=
      [stale.inGraph b.graph, shared.inGraph b.graph, only.inGraph a.graph,
        shared.inGraph a.graph] } }
    let move : Transfer := ⟨.move, false, .iri a, .iri b, rfl, by decide⟩
    ∃ ops change changes s₁ s₂,
      Written.lowerEach 0 (move.requests.map .plain) = .ok (ops, 0) ∧ ops.length = 3 ∧
      s.execute {} {} [{ action := .graph move.operation }] = (.ok [change], s₁) ∧
      s.execute {} {} ops = (.ok changes, s₂) ∧
      s₁.content = { quads := [shared.inGraph b.graph, only.inGraph b.graph] } ∧
      ∀ q, s₁.content.lists.Holds q ↔ s₂.content.lists.Holds q := by
  intro a b shared only stale s move
  have henv : ({} : Environment).Unhindered := ⟨fun _ _ _ => rfl, fun _ _ => rfl⟩
  have hvalid : s.content.Valid := by
    constructor <;> decide +kernel
  have hscope : ({} : BatchCall).scope = none := rfl
  have hsource : s.content.containsGraph (.iri a) = true := by decide +kernel
  obtain ⟨ops, change, changes, s₁, s₂, hops, hexecute₁, hexecute₂, -, hholds, -, -⟩ :=
    folding_keeps_meaning henv rfl hscope ⟨rfl, rfl, rfl⟩ hvalid (t := move) hsource 0
  refine ⟨ops, change, changes, s₁, s₂, hops, ?_, hexecute₁, hexecute₂, ?_, hholds⟩
  · have hrewritten := (move.lowerEach_requests 0).symm.trans hops
    obtain rfl := (Prod.mk.inj (Except.ok.inj hrewritten)).1
    rfl
  · have hcontent : (s.execute {} {} [{ action := .graph move.operation }]).2.content =
        { quads := [shared.inGraph b.graph, only.inGraph b.graph] } := by decide +kernel
    rw [hexecute₁] at hcontent
    exact hcontent

/-- Copying an empty graph leaves the destination registered, or gone. -/
example :
    let b : Iri := ⟨"b"⟩
    let q : Quad := ⟨.iri ⟨"s"⟩, ⟨"p"⟩, .iri ⟨"o"⟩, b.graph⟩
    let s : Session := { content := { quads := [q] } }
    let copy : Transfer := ⟨.copy, false, .default, .iri b, rfl, by decide⟩
    (s.execute {} {} [{ action := .graph copy.operation }]).2.content = { graphs := [.iri b] } ∧
      (s.execute {} {} copy.rewritten).2.content = {} := by
  decide +kernel

end Session

end GraphStore
