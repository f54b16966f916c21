/-
Bindings: finite assignments of terms to variables.

A binding is a list of entries in strictly increasing order of the variable names, so that two
bindings are equal exactly when they bind the same variables to the same terms (`Binding.ext`).
Names are ordered by code points.
-/
import GraphStore.Term.Text

namespace GraphStore

/-- An assignment of one variable. -/
abbrev Entry := Variable × Term

namespace Entry

/-- The order of entries in a binding. -/
def Before (a b : Entry) : Prop := a.1.name < b.1.name

instance : DecidableRel Before := fun a b => inferInstanceAs (Decidable (a.1.name < b.1.name))

/-- The value of `v` in a list of entries. -/
def find (v : Variable) : List Entry → Option Term
  | [] => none
  | e :: es => if e.1 = v then some e.2 else find v es

/-- Sets `v` to `t`, keeping the entries in order. -/
def set (v : Variable) (t : Term) : List Entry → List Entry
  | [] => [(v, t)]
  | e :: es =>
    if e.1 = v then (v, t) :: es
    else if v.name < e.1.name then (v, t) :: e :: es
    else e :: set v t es

theorem mem_set {v : Variable} {t : Term} {es : List Entry} {a : Entry} (h : a ∈ set v t es) :
    a = (v, t) ∨ a ∈ es := by
  induction es with
  | nil => simpa [set] using h
  | cons e es ih =>
    simp only [set] at h
    split at h
    · rcases List.mem_cons.1 h with h | h
      · exact .inl h
      · exact .inr (List.mem_cons_of_mem _ h)
    · split at h
      · rcases List.mem_cons.1 h with h | h
        · exact .inl h
        · exact .inr h
      · rcases List.mem_cons.1 h with h | h
        · exact .inr (h ▸ List.mem_cons_self)
        · exact (ih h).imp_right (List.mem_cons_of_mem _)

theorem name_lt_of_not_lt {v w : Variable} (h : w ≠ v) (hlt : ¬ v.name < w.name) :
    w.name < v.name := by
  refine String.not_le.1 fun hle => h ?_
  have : v.name = w.name := String.le_antisymm hle (String.not_lt.1 hlt)
  cases v; cases w; simp_all

theorem pairwise_set (v : Variable) (t : Term) {es : List Entry} (h : es.Pairwise Before) :
    (set v t es).Pairwise Before := by
  induction es with
  | nil => simp [set]
  | cons e es ih =>
    have he := List.pairwise_cons.1 h
    simp only [set]
    split
    · rename_i hev
      exact List.pairwise_cons.2 ⟨fun a ha => by simpa [Before, hev] using he.1 a ha, he.2⟩
    · split
      · rename_i hlt
        refine List.pairwise_cons.2 ⟨fun a ha => ?_, h⟩
        rcases List.mem_cons.1 ha with rfl | ha
        · exact hlt
        · exact String.lt_trans hlt (he.1 a ha)
      · rename_i hne hlt
        refine List.pairwise_cons.2 ⟨fun a ha => ?_, ih he.2⟩
        rcases mem_set ha with rfl | ha
        · exact name_lt_of_not_lt hne hlt
        · exact he.1 a ha

theorem find_set (v w : Variable) (t : Term) (es : List Entry) (h : es.Pairwise Before) :
    find w (set v t es) = if v = w then some t else find w es := by
  induction es with
  | nil => simp [set, find]
  | cons e es ih =>
    have he := List.pairwise_cons.1 h
    simp only [set]
    split
    · rename_i hev
      by_cases hw : v = w <;> simp [find, hw, hev]
    · split
      · by_cases hw : v = w <;> simp [find, hw]
      · rename_i hne _
        simp only [find, ih he.2]
        by_cases hw : v = w
        · subst hw
          simp [hne]
        · simp [hw]

theorem find_eq_none_of_forall {v : Variable} {es : List Entry}
    (h : ∀ e ∈ es, v.name < e.1.name) :
    find v es = none := by
  induction es with
  | nil => rfl
  | cons e es ih =>
    have hne : e.1 ≠ v := fun hev => by
      have := h e List.mem_cons_self
      rw [hev] at this
      exact String.lt_irrefl _ this
    simp [find, hne, ih fun a ha => h a (List.mem_cons_of_mem _ ha)]

theorem eq_of_find_eq {es fs : List Entry} (he : es.Pairwise Before) (hf : fs.Pairwise Before)
    (h : ∀ v, find v es = find v fs) : es = fs := by
  induction es generalizing fs with
  | nil =>
    cases fs with
    | nil => rfl
    | cons f fs => simpa [find] using h f.1
  | cons e es ih =>
    cases fs with
    | nil => simpa [find] using h e.1
    | cons f fs =>
      have he' := List.pairwise_cons.1 he
      have hf' := List.pairwise_cons.1 hf
      have hef : e.1 = f.1 := by
        refine Classical.byContradiction fun hne => ?_
        by_cases hlt : e.1.name < f.1.name
        · have h1 := h e.1
          rw [find, if_pos rfl, @find_eq_none_of_forall e.1 (f :: fs)] at h1
          · simp at h1
          · intro a ha
            rcases List.mem_cons.1 ha with rfl | ha
            · exact hlt
            · exact String.lt_trans hlt (hf'.1 a ha)
        · have hlt' := name_lt_of_not_lt (fun h => hne h.symm) hlt
          have h1 := h f.1
          rw [@find_eq_none_of_forall f.1 (e :: es), find, if_pos rfl] at h1
          · simp at h1
          · intro a ha
            rcases List.mem_cons.1 ha with rfl | ha
            · exact hlt'
            · exact String.lt_trans hlt' (he'.1 a ha)
      have hval : e.2 = f.2 := by simpa [find, hef] using h e.1
      have htail : es = fs := by
        refine ih he'.2 hf'.2 fun v => ?_
        by_cases hv : e.1 = v
        · rw [find_eq_none_of_forall (fun a ha => ?_), find_eq_none_of_forall (fun a ha => ?_)]
          · rw [← hv, hef]; exact hf'.1 a ha
          · rw [← hv]; exact he'.1 a ha
        · simpa [find, hv, hef ▸ hv] using h v
      cases e; cases f; simp_all

end Entry

/-- A finite assignment of terms to variables. -/
structure Binding where
  entries : List Entry
  ordered : entries.Pairwise Entry.Before
deriving DecidableEq

namespace Binding

/-- The binding without variables. -/
def empty : Binding := ⟨[], .nil⟩

instance : Inhabited Binding := ⟨empty⟩

/-- The term that `v` is bound to. -/
def get? (b : Binding) (v : Variable) : Option Term := Entry.find v b.entries

/-- Whether `v` is bound. -/
def contains (b : Binding) (v : Variable) : Bool := (b.get? v).isSome

/-- Binds `v` to `t`, in place of what `v` was bound to before. -/
def insert (b : Binding) (v : Variable) (t : Term) : Binding :=
  ⟨Entry.set v t b.entries, Entry.pairwise_set v t b.ordered⟩

/-- The number of bound variables. -/
def size (b : Binding) : Nat := b.entries.length

/-- Whether no variable is bound. -/
def isEmpty (b : Binding) : Bool := b.entries.isEmpty

/-- The binding of a list of entries; a later entry replaces an earlier one. -/
def ofList (es : List Entry) : Binding := es.foldl (fun b e => b.insert e.1 e.2) empty

/-- Every variable bound in both is bound to the same term. -/
def compatible (a b : Binding) : Bool := a.entries.all fun e => (b.get? e.1).all (· == e.2)

/-- The union of two compatible bindings. -/
def merge? (a b : Binding) : Option Binding :=
  if a.compatible b then some (b.entries.foldl (fun c e => c.insert e.1 e.2) a) else none

/-- The restriction to the listed variables. -/
def project (b : Binding) (vs : List Variable) : Binding :=
  vs.foldl (fun c v => match b.get? v with
    | some t => c.insert v t
    | none => c) empty

/-- The binding as text, in the order of the names. -/
def render (b : Binding) : String :=
  "\x7b" ++ ", ".intercalate (b.entries.map fun e => e.1.render ++ " -> " ++ e.2.render) ++ "\x7d"

@[simp] theorem get?_empty (v : Variable) : empty.get? v = none := rfl

/-- After binding `v`, it has the new term and every other variable its old one. -/
theorem get?_insert (b : Binding) (v w : Variable) (t : Term) :
    (b.insert v t).get? w = if v = w then some t else b.get? w :=
  Entry.find_set v w t b.entries b.ordered

/-- Bindings that agree on every variable are equal. -/
@[ext] theorem ext {a b : Binding} (h : ∀ v, a.get? v = b.get? v) : a = b := by
  cases a; cases b
  simpa using Entry.eq_of_find_eq ‹_› ‹_› h

end Binding

end GraphStore
