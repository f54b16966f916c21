/-
# `GraphStore.Proofs.Repetitions` — lists that hold nothing twice

The lists of a store are kept free of repetitions in two ways: `eraseDups` keeps the
first of what is repeated in one list, `Content.addMissing` appends to a list what it does
not hold yet.  Both keep the order, and both can be exchanged with a selection:

    xs  ────eraseDups────▶  xs.eraseDups
     │                            │
  filterMap f                filterMap f
     ▼                            ▼
     ·  ────eraseDups────▶        ·

This square commutes if `f` keeps apart what it keeps (`eraseDups_filterMap`).  Filters
and injective maps are the two cases that lookups are made of.
-/
import Mathlib.Data.List.Nodup
import GraphStore.Content

namespace GraphStore

variable {α β : Type} [BEq α] [LawfulBEq α]

theorem nodup_eraseDups (xs : List α) : xs.eraseDups.Nodup := by
  -- the tail is shorter once the head has been taken out of it
  induction hn : xs.length using Nat.strongRecOn generalizing xs with
  | ind n ih =>
      cases xs with
      | nil => exact List.nodup_nil
      | cons x xs =>
          rw [List.eraseDups_cons]
          refine List.nodup_cons.mpr ⟨?_, ?_⟩
          · rw [List.mem_eraseDups, List.mem_filter]
            simp
          · refine ih _ ?_ _ rfl
            rw [← hn]
            exact Nat.lt_succ_of_le (List.length_filter_le _ _)

theorem eraseDups_eq_self {xs : List α} (h : xs.Nodup) : xs.eraseDups = xs := by
  induction xs with
  | nil => rfl
  | cons x xs ih =>
      obtain ⟨hx, hxs⟩ := List.nodup_cons.mp h
      have hfilter : xs.filter (fun y => !y == x) = xs := List.filter_eq_self.mpr fun y hy => by
        have hne : y ≠ x := fun he => hx (he ▸ hy)
        simp [hne]
      rw [List.eraseDups_cons, hfilter, ih hxs]

/-- Dropping repetitions before or after a partial function that keeps elements apart. -/
theorem eraseDups_filterMap [BEq β] [LawfulBEq β] {f : α → Option β} (own : List α)
    (hf : ∀ x ∈ own, ∀ x' ∈ own, ∀ n, f x = some n → f x' = some n → x = x') :
    (own.filterMap f).eraseDups = own.eraseDups.filterMap f := by
  -- the tail is shorter once the head has been taken out of it
  induction hlength : own.length using Nat.strongRecOn generalizing own with
  | ind k ih =>
      cases own with
      | nil => rfl
      | cons x own =>
          have hrest : ((own.filter (!· == x)).filterMap f).eraseDups =
              (own.filter (!· == x)).eraseDups.filterMap f := by
            refine ih _ ?_ _ (fun y hy z hz => ?_) rfl
            · rw [← hlength]
              exact Nat.lt_succ_of_le (List.length_filter_le _ _)
            · exact hf y (List.mem_cons_of_mem _ (List.mem_filter.mp hy).1) z
                (List.mem_cons_of_mem _ (List.mem_filter.mp hz).1)
          rw [List.eraseDups_cons]
          cases hx : f x with
          | none =>
              have hskip : (own.filter (!· == x)).filterMap f = own.filterMap f := by
                rw [List.filterMap_filter]
                refine List.filterMap_congr fun y _ => ?_
                by_cases hyx : y = x
                · simp [hyx, hx]
                · simp [hyx]
              rw [List.filterMap_cons_none hx, List.filterMap_cons_none hx, ← hskip, hrest]
          | some n =>
              have htake : (own.filterMap f).filter (!· == n) =
                  (own.filter (!· == x)).filterMap f := by
                rw [List.filter_filterMap, List.filterMap_filter]
                refine List.filterMap_congr fun y hy => ?_
                by_cases hyx : y = x
                · simp [hyx, hx, Option.filter]
                · cases hfy : f y with
                  | none => simp
                  | some p =>
                      have hpn : p ≠ n := by
                        rintro rfl
                        exact hyx (hf y (List.mem_cons_of_mem _ hy) x List.mem_cons_self p hfy hx)
                      simp [hyx, hpn, Option.filter]
              rw [List.filterMap_cons_some hx, List.eraseDups_cons, htake, hrest,
                List.filterMap_cons_some hx]

theorem eraseDups_filter (p : α → Bool) (xs : List α) :
    (xs.filter p).eraseDups = xs.eraseDups.filter p := by
  have hp : ∀ ys : List α, ys.filter p = ys.filterMap (Option.guard p) := fun ys => by
    rw [List.filterMap_eq_filter]
  rw [hp, hp]
  refine eraseDups_filterMap xs fun x _ x' _ n hn hn' => ?_
  exact (Option.guard_eq_some_iff.mp hn).1.trans (Option.guard_eq_some_iff.mp hn').1.symm

theorem eraseDups_map [BEq β] [LawfulBEq β] {f : α → β} (hf : Function.Injective f)
    (xs : List α) : (xs.map f).eraseDups = xs.eraseDups.map f := by
  simp only [← List.filterMap_eq_map]
  refine eraseDups_filterMap xs fun x _ x' _ n hn hn' => hf ?_
  exact Option.some.inj (hn.trans hn'.symm)

namespace Content

theorem mem_addMissing {x : α} {seen xs : List α} :
    x ∈ addMissing seen xs ↔ x ∈ seen ∨ x ∈ xs := by
  induction xs generalizing seen with
  | nil => simp [addMissing]
  | cons y xs ih =>
      show x ∈ addMissing (if seen.contains y then seen else seen ++ [y]) xs ↔ _
      rw [ih]
      split
      · rename_i hy
        have hy' : y ∈ seen := by simpa using hy
        rw [List.mem_cons]
        constructor
        · rintro (h | h)
          · exact .inl h
          · exact .inr (.inr h)
        · rintro (h | rfl | h)
          · exact .inl h
          · exact .inl hy'
          · exact .inr h
      · rw [List.mem_append, List.mem_singleton, List.mem_cons, or_assoc]

theorem nodup_addMissing {seen : List α} (h : seen.Nodup) (xs : List α) :
    (addMissing seen xs).Nodup := by
  induction xs generalizing seen with
  | nil => exact h
  | cons y xs ih =>
      show (addMissing (if seen.contains y then seen else seen ++ [y]) xs).Nodup
      refine ih ?_
      split
      · exact h
      · rename_i hy
        have hy' : y ∉ seen := by simpa using hy
        rw [← List.concat_eq_append]
        exact List.Nodup.concat hy' h

/-- What is appended are the missing elements, without their repetitions. -/
theorem addMissing_eq_append (seen xs : List α) :
    addMissing seen xs = seen ++ (xs.filter (!seen.contains ·)).eraseDups := by
  induction xs generalizing seen with
  | nil => exact (List.append_nil seen).symm
  | cons y xs ih =>
      show addMissing (if seen.contains y then seen else seen ++ [y]) xs = _
      split
      · rename_i hy
        have hy' : y ∈ seen := by simpa using hy
        rw [ih, List.filter_cons_of_neg (by simp [hy'])]
      · rename_i hy
        have hy' : y ∉ seen := by simpa using hy
        have hrest : xs.filter (!(seen ++ [y]).contains ·) =
            (xs.filter (!seen.contains ·)).filter (!· == y) := by
          rw [List.filter_filter]
          refine List.filter_congr fun x _ => ?_
          rw [List.contains_append, Bool.not_or, Bool.and_comm]
          simp
        rw [ih, List.filter_cons_of_pos (by simp [hy']), List.eraseDups_cons, hrest,
          List.append_assoc, List.singleton_append]

/-- Where nothing is missing, nothing is appended. -/
theorem addMissing_eq_self {seen xs : List α} (h : xs ⊆ seen) : addMissing seen xs = seen := by
  induction xs with
  | nil => rfl
  | cons y xs ih =>
      obtain ⟨hy, hxs⟩ := List.cons_subset.mp h
      show addMissing (if seen.contains y then seen else seen ++ [y]) xs = seen
      rw [if_pos (List.contains_iff_mem.mpr hy)]
      exact ih hxs

/-- Filtering commutes with appending what is missing. -/
theorem addMissing_filter (p : α → Bool) (seen xs : List α) :
    (addMissing seen xs).filter p = addMissing (seen.filter p) (xs.filter p) := by
  induction xs generalizing seen with
  | nil => rfl
  | cons x xs ih =>
      have hstep : addMissing seen (x :: xs) =
        addMissing (if seen.contains x then seen else seen ++ [x]) xs := rfl
      rw [hstep, ih]
      cases hx : p x with
      | false =>
          -- what the filter drops is in neither list
          have hdrop : (if seen.contains x then seen else seen ++ [x]).filter p =
              seen.filter p := by
            split
            · rfl
            · simp [hx]
          rw [hdrop, List.filter_cons_of_neg (by simp [hx])]
      | true =>
          have hmem : (seen.filter p).contains x = seen.contains x := by
            rw [Bool.eq_iff_iff, List.contains_iff_mem, List.contains_iff_mem, List.mem_filter]
            exact ⟨And.left, fun h => ⟨h, hx⟩⟩
          rw [List.filter_cons_of_pos hx]
          show _ = addMissing (if (seen.filter p).contains x then _ else _) _
          rw [hmem]
          split
          · rfl
          · simp [hx]

end Content

end GraphStore
