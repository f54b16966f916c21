/-
# `GraphStore.Proofs.Outcome` — steps that succeed and steps that fail

A query is evaluated by steps that can fail, one after the other and over lists.
Each form comes with two lemmas: it succeeds if its steps do, and if it succeeds
then so did its steps, with results that determine its own.  A third one says that it
fails for what one of its steps fails for.
-/
import Mathlib.Data.Multiset.Bind

namespace GraphStore

variable {ε α β : Type}

theorem bind_eq_ok {x : Except ε α} {f : α → Except ε β} {b : β} :
    x >>= f = .ok b ↔ ∃ a, x = .ok a ∧ f a = .ok b := by
  cases x with
  | error e =>
      refine iff_of_false (fun h => by cases h) ?_
      rintro ⟨a, h, -⟩
      cases h
  | ok a =>
      constructor
      · exact fun h => ⟨a, rfl, h⟩
      · rintro ⟨a', h, hf⟩
        rw [Except.ok.inj h]
        exact hf

theorem bind_ok {x : Except ε α} {f : α → Except ε β} {a : α} {b : β} (hx : x = .ok a)
    (hf : f a = .ok b) : x >>= f = .ok b :=
  bind_eq_ok.mpr ⟨a, hx, hf⟩

/-- After a step whose result is known the others go on with it. -/
theorem bind_of_ok {x : Except ε α} {a : α} (hx : x = .ok a) (f : α → Except ε β) :
    x >>= f = f a := by
  rw [hx]
  rfl

theorem bind_eq_error {x : Except ε α} {f : α → Except ε β} {e : ε}
    (h : x >>= f = .error e) : x = .error e ∨ ∃ a, x = .ok a ∧ f a = .error e := by
  cases x with
  | error e' =>
      cases h
      exact .inl rfl
  | ok a => exact .inr ⟨a, rfl, h⟩

/-! ## Lists of steps -/

theorem mapM_cons_eq_ok {f : α → Except ε β} {x : α} {xs : List α} {ys : List β} :
    (x :: xs).mapM f = .ok ys ↔ ∃ y rest, f x = .ok y ∧ xs.mapM f = .ok rest ∧ y :: rest = ys := by
  rw [List.mapM_cons, bind_eq_ok]
  constructor
  · rintro ⟨y, hy, h⟩
    obtain ⟨rest, hrest, h⟩ := bind_eq_ok.mp h
    exact ⟨y, rest, hy, hrest, Except.ok.inj h⟩
  · rintro ⟨y, rest, hy, hrest, rfl⟩
    exact ⟨y, hy, bind_ok hrest rfl⟩

theorem mapM_ok {f : α → Except ε β} {xs : List α} (h : ∀ x ∈ xs, ∃ y, f x = .ok y) :
    ∃ ys, xs.mapM f = .ok ys := by
  induction xs with
  | nil => exact ⟨[], rfl⟩
  | cons x xs ih =>
      obtain ⟨y, hy⟩ := h x List.mem_cons_self
      obtain ⟨ys, hys⟩ := ih fun z hz => h z (List.mem_cons_of_mem _ hz)
      exact ⟨y :: ys, mapM_cons_eq_ok.mpr ⟨y, ys, hy, hys, rfl⟩⟩

/-- Of steps that succeed as a whole, each has succeeded. -/
theorem ok_of_mapM {f : α → Except ε β} {xs : List α} {ys : List β} (h : xs.mapM f = .ok ys) :
    ∀ x ∈ xs, ∃ y, f x = .ok y := by
  induction xs generalizing ys with
  | nil => exact fun x hx => absurd hx List.not_mem_nil
  | cons x xs ih =>
      obtain ⟨y, rest, hy, hrest, -⟩ := mapM_cons_eq_ok.mp h
      exact List.forall_mem_cons.mpr ⟨⟨y, hy⟩, ih hrest⟩

/-- Steps fail as a whole because one of them fails. -/
theorem mapM_eq_error {f : α → Except ε β} {xs : List α} {e : ε} (h : xs.mapM f = .error e) :
    ∃ x ∈ xs, f x = .error e := by
  induction xs with
  | nil => cases h
  | cons x xs ih =>
      rw [List.mapM_cons] at h
      rcases bind_eq_error h with hx | ⟨y, -, h⟩
      · exact ⟨x, List.mem_cons_self, hx⟩
      · rcases bind_eq_error h with hxs | ⟨rest, -, h⟩
        · obtain ⟨z, hz, hfail⟩ := ih hxs
          exact ⟨z, List.mem_cons_of_mem x hz, hfail⟩
        · cases h

/-- The results of steps whose results are known. -/
theorem map_eq_of_mapM {f : α → Except ε β} {F : α → β} {xs : List α} {ys : List β}
    (h : xs.mapM f = .ok ys) (hF : ∀ x y, f x = .ok y → y = F x) : ys = xs.map F := by
  induction xs generalizing ys with
  | nil => exact (Except.ok.inj h).symm
  | cons x xs ih =>
      obtain ⟨y, rest, hy, hrest, rfl⟩ := mapM_cons_eq_ok.mp h
      rw [hF x y hy, ih hrest]
      rfl

/-- The lists that steps result in, put together, if each is known up to its order. -/
theorem coe_flatten_of_mapM {f : α → Except ε (List β)} {F : α → Multiset β} {xs : List α}
    {parts : List (List β)} (h : xs.mapM f = .ok parts)
    (hF : ∀ x ∈ xs, ∀ ys, f x = .ok ys → (ys : Multiset β) = F x) :
    (parts.flatten : Multiset β) = (xs : Multiset α).bind F := by
  induction xs generalizing parts with
  | nil =>
      obtain rfl := Except.ok.inj h
      rfl
  | cons x xs ih =>
      obtain ⟨ys, rest, hys, hrest, rfl⟩ := mapM_cons_eq_ok.mp h
      have htail := ih hrest fun y hy => hF y (List.mem_cons_of_mem _ hy)
      rw [List.flatten_cons, ← Multiset.coe_add, hF x List.mem_cons_self ys hys, htail,
        ← Multiset.cons_coe, Multiset.cons_bind]

/-! ## Filters -/

theorem filterM_ok {p : α → Except ε Bool} (hp : ∀ x, ∃ r, p x = .ok r) (xs : List α) :
    ∃ ys, xs.filterM p = .ok ys := by
  have haux : ∀ xs acc : List α, ∃ ys, xs.filterAuxM p acc = Except.ok ys := by
    intro xs
    induction xs with
    | nil => exact fun acc => ⟨acc, rfl⟩
    | cons x xs ih =>
        intro acc
        obtain ⟨r, hr⟩ := hp x
        obtain ⟨ys, hys⟩ := ih (cond r (x :: acc) acc)
        exact ⟨ys, bind_ok hr hys⟩
  obtain ⟨ys, hys⟩ := haux xs []
  exact ⟨ys.reverse, bind_ok hys rfl⟩

/-- Of tests that succeed as a whole, each has succeeded. -/
theorem ok_of_filterM {p : α → Except ε Bool} {xs ys : List α} (h : xs.filterM p = .ok ys) :
    ∀ x ∈ xs, ∃ r, p x = .ok r := by
  have haux : ∀ {xs acc zs : List α}, xs.filterAuxM p acc = .ok zs → ∀ x ∈ xs, ∃ r, p x = .ok r := by
    intro xs
    induction xs with
    | nil => exact fun _ x hx => absurd hx List.not_mem_nil
    | cons x xs ih =>
        intro acc zs h
        obtain ⟨r, hr, h⟩ := bind_eq_ok.mp h
        exact List.forall_mem_cons.mpr ⟨⟨r, hr⟩, ih h⟩
  obtain ⟨zs, hzs, -⟩ := bind_eq_ok.mp h
  exact haux hzs

/-- Tests fail as a whole because one of them fails. -/
theorem filterM_eq_error {p : α → Except ε Bool} {xs : List α} {e : ε}
    (h : xs.filterM p = .error e) : ∃ x ∈ xs, p x = .error e := by
  have haux : ∀ {xs acc : List α}, xs.filterAuxM p acc = .error e → ∃ x ∈ xs, p x = .error e := by
    intro xs
    induction xs with
    | nil => exact fun h => by cases h
    | cons x xs ih =>
        intro acc h
        rcases bind_eq_error h with hx | ⟨r, -, h⟩
        · exact ⟨x, List.mem_cons_self, hx⟩
        · obtain ⟨y, hy, hfail⟩ := ih h
          exact ⟨y, List.mem_cons_of_mem x hy, hfail⟩
  rcases bind_eq_error h with h | ⟨zs, -, h⟩
  · exact haux h
  · cases h

theorem filter_eq_of_filterM {p : α → Except ε Bool} {q : α → Bool} {xs ys : List α}
    (h : xs.filterM p = .ok ys) (hq : ∀ x r, p x = .ok r → r = q x) : ys = xs.filter q := by
  have haux : ∀ {xs acc zs : List α}, xs.filterAuxM p acc = .ok zs →
      zs = (xs.filter q).reverse ++ acc := by
    intro xs
    induction xs with
    | nil =>
        intro acc zs h
        exact (Except.ok.inj h).symm
    | cons x xs ih =>
        intro acc zs h
        obtain ⟨r, hr, h⟩ := bind_eq_ok.mp h
        rw [ih h]
        have hqx := hq x r hr
        cases r with
        | true => rw [List.filter_cons_of_pos hqx.symm, List.reverse_cons, List.append_assoc]; rfl
        | false => rw [List.filter_cons_of_neg (by simp [← hqx])]; rfl
  obtain ⟨zs, hzs, h⟩ := bind_eq_ok.mp h
  rw [← Except.ok.inj h, haux hzs, List.append_nil, List.reverse_reverse]

/-! ## Failures and results apart -/

theorem ok_of_toOption {x : Except ε α} {a : α} (h : x.toOption = some a) : x = .ok a := by
  cases x with
  | ok a' => exact congrArg Except.ok (Option.some.inj h)
  | error e => cases h

end GraphStore
