/-
# `GraphStore.Proofs.Batch` — how the steps of a batch end

A step of a batch is a function from the open batch to an outcome and the batch
it leaves.  The proofs about steps use one relation of it: `x.Ends b a b'`,
started on `b` the steps `x` succeed with `a` and leave `b'`.

Every combinator has one lemma.  The one for sequencing is an equivalence, so
that a run of several steps is taken apart from the front, and a proof about an
operation names the batch in front of each of its steps.

`Ends` speaks of success only.  A step that fails ends the whole batch, and
nothing of it is published.  What steps leave behind however they come out is said by
`x.Leads Q`: a relation `Q` between the batch they start on and the one they leave, which
sequencing keeps if `Q` is transitive.
-/
import GraphStore.Execution

namespace GraphStore

theorem Journal.call_of_faultless {faults : Faults} {kind : CallKind}
    (hkind : ∀ n, faults kind n = none) (j : Journal) :
    j.call faults kind = (.ok (), (j.call faults kind).2) := by
  unfold call
  rw [hkind]

namespace BatchM

variable {ε δ α β : Type}

/-- Started on `b`, the steps succeed with `a` and leave `b'`. -/
def Ends (x : BatchM ε α) (b : Batch) (a : α) (b' : Batch) : Prop :=
  x.run b = (.ok a, b')

/-! ## Taking a successful run apart -/

@[simp] theorem ends_pure {a a' : α} {b b' : Batch} :
    Ends (pure a : BatchM ε α) b a' b' ↔ a' = a ∧ b' = b := by
  constructor
  · intro h
    cases h
    exact ⟨rfl, rfl⟩
  · rintro ⟨rfl, rfl⟩
    rfl

theorem run_bind (x : BatchM ε α) (f : α → BatchM ε β) (b : Batch) :
    (x >>= f).run b = match x.run b with
      | (.ok a, b₁) => (f a).run b₁
      | (.error e, b₁) => (.error e, b₁) := by
  show ExceptT.bindCont f (x.run b).1 (x.run b).2 = _
  cases h : x.run b with
  | mk r b₁ => cases r <;> rfl

theorem run_get_bind (f : Batch → BatchM ε α) (b : Batch) : (get >>= f).run b = (f b).run b := rfl

/-- A sequence succeeds exactly when its two parts do, one after the other. -/
theorem ends_bind {x : BatchM ε α} {f : α → BatchM ε β} {b b' : Batch} {c : β} :
    Ends (x >>= f) b c b' ↔ ∃ a b₁, Ends x b a b₁ ∧ Ends (f a) b₁ c b' := by
  unfold Ends
  rw [run_bind]
  cases x.run b with
  | mk r b₁ =>
      cases r with
      | ok a =>
          constructor
          · intro h
            exact ⟨a, b₁, rfl, h⟩
          · rintro ⟨a', b₂, h, hf⟩
            cases h
            exact hf
      | error e =>
          constructor
          · intro h
            cases h
          · rintro ⟨a', b₂, h, _⟩
            cases h

/-- Steps that begin by reading the batch go on with it. -/
theorem ends_get_bind {f : Batch → BatchM ε α} {b b' : Batch} {a : α} :
    Ends (get >>= f) b a b' ↔ Ends (f b) b a b' := by
  rw [ends_bind]
  constructor
  · rintro ⟨_, _, h, hf⟩
    cases h
    exact hf
  · exact fun h => ⟨b, b, rfl, h⟩

@[simp] theorem ends_set {s b b' : Batch} {a : PUnit} :
    Ends (set s : BatchM ε PUnit) b a b' ↔ b' = s := by
  constructor
  · intro h
    cases h
    rfl
  · rintro rfl
    rfl

@[simp] theorem ends_modify {f : Batch → Batch} {b b' : Batch} {a : PUnit} :
    Ends (modify f : BatchM ε PUnit) b a b' ↔ b' = f b := by
  constructor
  · intro h
    cases h
    rfl
  · rintro rfl
    rfl

@[simp] theorem not_ends_throw {e : ε} {b b' : Batch} {a : α} :
    ¬ Ends (throw e : BatchM ε α) b a b' := by
  intro h
  cases h

@[simp] theorem ends_mapError {f : ε → δ} {x : BatchM ε α} {b b' : Batch} {a : α} :
    Ends (mapError f x) b a b' ↔ Ends x b a b' := by
  show ((x.run b).1.mapError f, (x.run b).2) = (Except.ok a, b') ↔ x.run b = _
  cases x.run b with
  | mk r b₁ =>
      cases r with
      | ok a' =>
          constructor
          · intro h
            cases h
            rfl
          · intro h
            cases h
            rfl
      | error e =>
          constructor
          · intro h
            cases h
          · intro h
            cases h

theorem run_call (faults : Faults) (kind : CallKind) (act : Transaction → α × Transaction)
    (b : Batch) :
    (call faults kind act).run b = match b.journal.call faults kind with
      | (.ok _, j) => (.ok (act b.tx).1, { b with tx := (act b.tx).2, journal := j })
      | (.error e, j) => (.error e, { b with journal := j }) := by
  unfold call
  rw [run_bind, show (get : BatchM StorageError Batch).run b = (.ok b, b) from rfl]
  dsimp only
  cases b.journal.call faults kind with
  | mk outcome j => cases outcome <;> rfl

/-- A store call that no schedule lets fail. -/
theorem run_call_of_faultless {faults : Faults} {kind : CallKind}
    (hkind : ∀ n, faults kind n = none) (act : Transaction → α × Transaction) (b : Batch) :
    (call faults kind act).run b = (.ok (act b.tx).1,
      { b with tx := (act b.tx).2, journal := (b.journal.call faults kind).2 }) := by
  rw [run_call, b.journal.call_of_faultless hkind]

/-- A store call that succeeds has acted on the transaction, and only on it. -/
theorem Ends.of_call {faults : Faults} {kind : CallKind}
    {act : Transaction → α × Transaction} {b b' : Batch} {a : α}
    (h : Ends (call faults kind act) b a b') :
    a = (act b.tx).1 ∧ ∃ j, b' = { b with tx := (act b.tx).2, journal := j } := by
  unfold Ends at h
  rw [run_call] at h
  cases hcall : b.journal.call faults kind with
  | mk outcome j =>
      rw [hcall] at h
      cases outcome with
      | ok u =>
          cases h
          exact ⟨rfl, j, rfl⟩
      | error e => cases h

/-- The steps for the members of a list, one after the other. -/
theorem ends_forM_cons {x : α} {xs : List α} {f : α → BatchM ε PUnit} {b b' : Batch}
    {u : PUnit} :
    Ends ((x :: xs).forM f) b u b' ↔ ∃ b₁, Ends (f x) b ⟨⟩ b₁ ∧ Ends (xs.forM f) b₁ u b' := by
  show Ends (f x >>= fun _ => xs.forM f) b u b' ↔ _
  rw [ends_bind]
  exact ⟨fun ⟨_, b₁, h⟩ => ⟨b₁, h⟩, fun ⟨b₁, h⟩ => ⟨⟨⟩, b₁, h⟩⟩

@[simp] theorem ends_forM_nil {f : α → BatchM ε PUnit} {b b' : Batch} {u : PUnit} :
    Ends (([] : List α).forM f) b u b' ↔ b' = b := by
  show Ends (pure ⟨⟩ : BatchM ε PUnit) b u b' ↔ _
  rw [ends_pure]
  exact ⟨fun h => h.2, fun h => ⟨rfl, h⟩⟩

/-! ## Runs that may fail -/

/-- However the steps come out, `Q` relates the batch they start on to the one they leave. -/
def Leads (Q : Batch → Batch → Prop) (x : BatchM ε α) : Prop := ∀ b, Q b (x.run b).2

variable {Q : Batch → Batch → Prop}

theorem Leads.bind (htrans : ∀ b b₁ b₂, Q b b₁ → Q b₁ b₂ → Q b b₂) {x : BatchM ε α}
    {f : α → BatchM ε β} (hx : x.Leads Q) (hf : ∀ a, (f a).Leads Q) : (x >>= f).Leads Q := by
  intro b
  have hfirst := hx b
  rw [run_bind]
  cases hrun : x.run b with
  | mk r b₁ =>
      rw [hrun] at hfirst
      cases r with
      | ok a => exact htrans b b₁ _ hfirst (hf a b₁)
      | error e => exact hfirst

end BatchM

end GraphStore
