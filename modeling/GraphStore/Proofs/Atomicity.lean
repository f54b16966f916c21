/-
# `GraphStore.Proofs.Atomicity` — all of a batch or nothing

The items of a stream are run one after the other in one transaction, up to the first
that fails: an operation that fails, or an item that is an error itself.

    items        i₁      i₂      i₃
    batch     b₀ ──▶ b₁ ──▶ b₂ ──✗ e
    committed c      c      c      c

`Step.item` is what one item does and `Step.Runs` a run of items that all succeed.  Every
stream either runs or has a first item that fails behind a run (`ends_operations_iff`,
`fails_operations_iff`).  The committed content is no part of the open batch, so
nothing that `b₁` and `b₂` hold is seen when the batch is aborted; if it is committed, the log
of the transaction replays to the content that the last item has left.
-/
import GraphStore.Proofs.Run

namespace GraphStore

namespace BatchM

variable {ε α β : Type}

/-- Started on `b`, the steps fail with `e`. -/
def Fails (x : BatchM ε α) (b : Batch) (e : ε) : Prop :=
  ∃ b', x.run b = (.error e, b')

theorem ends_or_fails (x : BatchM ε α) (b : Batch) :
    (∃ a b', Ends x b a b') ∨ ∃ e, Fails x b e := by
  cases h : x.run b with
  | mk r b' =>
      cases r with
      | ok a => exact .inl ⟨a, b', h⟩
      | error e => exact .inr ⟨e, b', h⟩

/-- A sequence fails in its first part, or in its second one behind the first. -/
theorem fails_bind {x : BatchM ε α} {f : α → BatchM ε β} {b : Batch} {e : ε} :
    Fails (x >>= f) b e ↔ Fails x b e ∨ ∃ a b₁, Ends x b a b₁ ∧ Fails (f a) b₁ e := by
  unfold Fails Ends
  rw [run_bind]
  cases x.run b with
  | mk r b₁ =>
      cases r with
      | ok a =>
          constructor
          · exact fun h => .inr ⟨a, b₁, rfl, h⟩
          · rintro (⟨_, h⟩ | ⟨a', b₂, h, hf⟩)
            · cases h
            · cases h
              exact hf
      | error e' =>
          constructor
          · rintro ⟨_, h⟩
            cases h
            exact .inl ⟨b₁, rfl⟩
          · rintro (⟨_, h⟩ | ⟨a', b₂, h, -⟩)
            · cases h
              exact ⟨b₁, rfl⟩
            · cases h

@[simp] theorem not_fails_pure {a : α} {b : Batch} {e : ε} :
    ¬ Fails (pure a : BatchM ε α) b e := by
  rintro ⟨b', h⟩
  cases h

end BatchM

namespace Step

open BatchM

variable {env : Environment} {call : BatchCall} {b b' : Batch}
  {items : List (Except UpdateError Operation)} {changes : List Change} {e : UpdateError}

/-- The items are run in order and all succeed; each answers once. -/
inductive Runs (env : Environment) (call : BatchCall) :
    Batch → List (Except UpdateError Operation) → List Change → Batch → Prop
  | nil (b : Batch) : Runs env call b [] [] b
  | cons {b b₁ b' : Batch} {i : Except UpdateError Operation} {change : Change}
      {items : List (Except UpdateError Operation)} {changes : List Change} :
      Ends (item env call i) b change b₁ → Runs env call b₁ items changes b' →
      Runs env call b (i :: items) (change :: changes) b'

theorem Runs.length_eq (h : Runs env call b items changes b') :
    changes.length = items.length := by
  induction h with
  | nil b => rfl
  | cons _ _ ih => rw [List.length_cons, List.length_cons, ih]

/-- A stream succeeds exactly if its items run. -/
theorem ends_operations_iff :
    Ends (operations env call items) b changes b' ↔ Runs env call b items changes b' := by
  induction items generalizing b changes with
  | nil =>
      rw [ends_operations_nil]
      constructor
      · rintro ⟨rfl, rfl⟩
        exact .nil _
      · intro h
        cases h
        exact ⟨rfl, rfl⟩
  | cons i items ih =>
      rw [operations_cons]
      constructor
      · intro h
        obtain ⟨change, b₁, hitem, h⟩ := ends_bind.mp h
        obtain ⟨rest, b₂, hrest, h⟩ := ends_bind.mp h
        obtain ⟨rfl, rfl⟩ := ends_pure.mp h
        exact .cons hitem (ih.mp hrest)
      · intro h
        cases h with
        | cons hitem hrest =>
            refine ends_bind.mpr ⟨_, _, hitem, ?_⟩
            exact ends_bind.mpr ⟨_, _, ih.mpr hrest, ends_pure.mpr ⟨rfl, rfl⟩⟩

/-- A stream fails exactly if an item behind a run of the items before it does. -/
theorem fails_operations_iff :
    Fails (operations env call items) b e ↔
      ∃ before i rest changes b₁, items = before ++ i :: rest ∧
        Runs env call b before changes b₁ ∧ Fails (item env call i) b₁ e := by
  induction items generalizing b with
  | nil =>
      constructor
      · intro h
        exact absurd h not_fails_pure
      · rintro ⟨before, i, rest, changes, b₁, hitems, -, -⟩
        exact absurd hitems.symm (List.append_ne_nil_of_right_ne_nil _ (List.cons_ne_nil _ _))
  | cons i items ih =>
      rw [operations_cons, fails_bind]
      constructor
      · rintro (hitem | ⟨change, b₁, hitem, h⟩)
        · exact ⟨[], i, items, [], b, rfl, .nil b, hitem⟩
        · obtain hrest | ⟨_, _, -, h⟩ := fails_bind.mp h
          · obtain ⟨before, j, rest, changes, b₂, rfl, hruns, hfails⟩ := ih.mp hrest
            exact ⟨i :: before, j, rest, change :: changes, b₂, rfl, .cons hitem hruns, hfails⟩
          · exact absurd h not_fails_pure
      · rintro ⟨before, j, rest, changes, b₁, hitems, hruns, hfails⟩
        cases hruns with
        | nil =>
            obtain ⟨rfl, rfl⟩ := List.cons.inj hitems
            exact .inl hfails
        | cons hitem hruns =>
            obtain ⟨rfl, rfl⟩ := List.cons.inj hitems
            refine .inr ⟨_, _, hitem, fails_bind.mpr (.inl (ih.mpr ?_))⟩
            exact ⟨_, j, rest, _, b₁, rfl, hruns, hfails⟩

end Step

namespace Session

open BatchM

variable {s : Session} {env : Environment} {faults : Faults}

theorem call_eq_ok {kind : CallKind} (hkind : ∀ n, faults kind n = none) (s : Session) :
    s.call faults kind = (.ok (), (s.call faults kind).2) := by
  unfold call
  rw [s.journal.call_of_faultless hkind]

/-- A transaction that could be opened ends with its steps: they are committed or aborted. -/
theorem transact_opened {α : Type} (hbegin : faults .begin (s.journal.calls.count .begin) = none)
    (steps : Step α) : s.transact faults steps = match steps.run (s.opened faults) with
      | (.ok a, b) => match commit ⟨s.content, b.journal⟩ faults b.tx with
        | (.ok (), s') => (.ok a, s')
        | (.error e, s') => (.error (.storage e), s')
      | (.error e, b) => (.error e, (call ⟨s.content, b.journal⟩ faults .abort).2) := by
  have hcall : (s.call faults .begin).1 = .ok () := by
    unfold call Journal.call
    rw [hbegin]
  refine (transact_eq s faults steps).trans ?_
  cases houtcome : (s.call faults .begin).1 with
  | ok _ => rfl
  | error e =>
      rw [hcall] at houtcome
      cases houtcome

theorem commit_of_publish {tx : Transaction} {c : Content}
    (hcommit : ∀ n, faults .commit n = none) (hpublish : tx.publish s.content = some c) :
    ∃ s', s.commit faults tx = (.ok (), s') ∧ s'.content = c := by
  unfold commit
  rw [call_eq_ok hcommit]
  dsimp only
  rw [call_content, hpublish]
  exact ⟨_, rfl, rfl⟩

/-- Steps that fail are aborted, and the committed content stays. -/
theorem transact_of_fails {α : Type} {steps : Step α} {e : UpdateError}
    (hbegin : ∀ n, faults .begin n = none) (h : Fails steps (s.opened faults) e) :
    ∃ s', s.transact faults steps = (.error e, s') ∧ s'.content = s.content := by
  obtain ⟨b, hrun⟩ := h
  rw [transact_opened (hbegin _), hrun]
  exact ⟨_, rfl, rfl⟩

/-- Steps that succeed are committed, if their log can be replayed. -/
theorem transact_of_ends {α : Type} {steps : Step α} {a : α} {b : Batch} {c : Content}
    (hbegin : ∀ n, faults .begin n = none) (hcommit : ∀ n, faults .commit n = none)
    (h : Ends steps (s.opened faults) a b) (hpublish : b.tx.publish s.content = some c) :
    ∃ s', s.transact faults steps = (.ok a, s') ∧ s'.content = c := by
  have hrun : steps.run (s.opened faults) = (.ok a, b) := h
  obtain ⟨s', hcommitted, hcontent⟩ :=
    commit_of_publish (s := ⟨s.content, b.journal⟩) hcommit hpublish
  refine ⟨s', ?_, hcontent⟩
  rw [transact_opened (hbegin _), hrun]
  dsimp only
  rw [hcommitted]

/-- Operations that succeed one after the other are executed, and their content is published. -/
theorem executeStream_of_ends (hlooks : env.evaluator.Looks)
    (hbegin : ∀ n, env.faults .begin n = none) (hcommit : ∀ n, env.faults .commit n = none)
    {call : BatchCall} {items : List (Except UpdateError Operation)} {changes : List Change}
    {b : Batch} (h : Ends (Step.operations env call items) (s.opened env.faults) changes b) :
    ∃ s', s.executeStream env call items = (.ok changes, s') ∧ s'.content = b.tx.content :=
  transact_of_ends hbegin hcommit h (Step.operations_replay hlooks h rfl)

/-- A stream whose items all succeed answers once for each of them and publishes the content that
the last has left.  Any other stream fails with the error of the first item that does not succeed,
and leaves the committed content as it is. -/
theorem executeStream_atomic (hlooks : env.evaluator.Looks)
    (hbegin : ∀ n, env.faults .begin n = none) (hcommit : ∀ n, env.faults .commit n = none)
    (s : Session) (call : BatchCall) (items : List (Except UpdateError Operation)) :
    (∃ changes b s', Step.Runs env call (s.opened env.faults) items changes b ∧
        s.executeStream env call items = (.ok changes, s') ∧
        changes.length = items.length ∧ s'.content = b.tx.content) ∨
      ∃ before i rest changes b e s', items = before ++ i :: rest ∧
        Step.Runs env call (s.opened env.faults) before changes b ∧
        Fails (Step.item env call i) b e ∧
        s.executeStream env call items = (.error e, s') ∧ s'.content = s.content := by
  obtain ⟨changes, b, hends⟩ | ⟨e, hfails⟩ :=
    ends_or_fails (Step.operations env call items) (s.opened env.faults)
  · have hruns := Step.ends_operations_iff.mp hends
    obtain ⟨s', hexecute, hcontent⟩ := executeStream_of_ends hlooks hbegin hcommit hends
    exact .inl ⟨changes, b, s', hruns, hexecute, hruns.length_eq, hcontent⟩
  · obtain ⟨before, i, rest, changes, b, hitems, hruns, hitem⟩ :=
      Step.fails_operations_iff.mp hfails
    obtain ⟨s', hexecute, hcontent⟩ := transact_of_fails hbegin hfails
    exact .inr ⟨before, i, rest, changes, b, e, s', hitems, hruns, hitem, hexecute, hcontent⟩

/-- A graph is dropped and created again. -/
def recreate (g : Resource) : List Operation :=
  [{ action := .graph ⟨.drop, .named g, none, false⟩ }, { action := .create g false }]

/-- When the stream breaks off, the quad is back and the registration is gone. -/
theorem executeStream_atomic_recreate :
    let g : Resource := .iri ⟨"g"⟩
    let q : Quad := ⟨.iri ⟨"s"⟩, ⟨"p"⟩, .iri ⟨"o"⟩, .named g⟩
    let s : Session := { content := { quads := [q] } }
    let e : UpdateError := .structural (.graphDoesNotExist g)
    (s.progress {} {} (recreate g)).2.tx.content = { graphs := [g] } ∧
      ∃ s', s.executeStream {} {} ((recreate g).map .ok ++ [.error e]) = (.error e, s') ∧
        s'.content = s.content := by
  intro g q s e
  have hfirst : (match (s.executeStream {} {} ((recreate g).map .ok ++ [.error e])).1 with
      | .error (.structural e) => some e
      | _ => none) = some (.graphDoesNotExist g) := by decide +kernel
  have hlooks : ({} : Environment).evaluator.Looks := Evaluator.looks_scanning
  refine ⟨by decide +kernel, ?_⟩
  obtain ⟨changes, b, s', -, hexecute, -⟩ | ⟨_, _, _, _, _, e', s', -, -, -, hexecute, hcontent⟩ :=
    executeStream_atomic hlooks (fun _ => rfl) (fun _ => rfl) s {}
      ((recreate g).map .ok ++ [.error e])
  · rw [hexecute] at hfirst
    cases hfirst
  · rw [hexecute] at hfirst
    cases e' with
    | structural e' =>
        obtain rfl := Option.some.inj hfirst
        exact ⟨s', hexecute, hcontent⟩
    | _ => cases hfirst

end Session

end GraphStore
