/-
Stable sorting by merging, and the first elements of it.

`List.insertionSort` is stable. The sort of two lists put one after the other is the merge
of their sorts, with ties taken from the left (`insertionSort_append`), and for its first
`n` elements the first `n` of either side are enough (`take_merge_take`). So an accumulator
that keeps `n` elements can be run on the parts of an input.
-/
import Mathlib.Data.List.Sort

namespace StableMerge

open List

variable {α : Type*} (r : α → α → Prop) [DecidableRel r]

/-- The merge of two lists; an element of the right list waits for the
elements of the left list that are not above it. -/
def merge (xs ys : List α) : List α := List.merge xs ys fun a b => decide (r a b)

@[simp] theorem merge_nil (xs : List α) : merge r xs [] = xs := by
  simp [merge]

@[simp] theorem nil_merge (ys : List α) : merge r [] ys = ys := by
  simp [merge]

theorem merge_cons_cons (x y : α) (xs ys : List α) : merge r (x :: xs) (y :: ys)
      = if r x y then x :: merge r xs (y :: ys)
        else y :: merge r (x :: xs) ys := by
  simp [merge, cons_merge_cons]

@[simp] theorem length_merge (xs ys : List α) : (merge r xs ys).length = xs.length + ys.length := by
  rw [merge, (merge_perm_append _).length_eq, length_append]

theorem merge_cons (x : α) (xs ys : List α) :
    merge r xs (x :: ys) = xs.takeWhile (r · x) ++ x :: merge r (xs.dropWhile (r · x)) ys := by
  induction xs with
  | nil => simp
  | cons a xs ih =>
    rw [merge_cons_cons]
    by_cases h : r a x
    · simp [h, ih]
    · simp [h]

-- ==== sorting

section Sorting

variable [Std.Total r] [IsTrans α r]

theorem orderedInsert_merge (a : α) (xs ys : List α) :
    (merge r xs ys).orderedInsert r a = merge r (xs.orderedInsert r a) ys := by
  induction xs generalizing ys with
  | nil =>
    induction ys with
    | nil => rw [nil_merge, merge_nil]
    | cons y ys ih =>
      rw [nil_merge] at ih ⊢
      rw [orderedInsert_cons, orderedInsert_nil, merge_cons_cons, ih, orderedInsert_nil, nil_merge]
  | cons x xs ihx =>
    induction ys with
    | nil => rw [merge_nil, merge_nil]
    | cons y ys ihy =>
      rw [orderedInsert_cons] at ihy ⊢
      rw [merge_cons_cons]
      by_cases hxy : r x y
      · rw [if_pos hxy, orderedInsert_cons]
        by_cases hax : r a x
        · have hay : r a y := IsTrans.trans _ _ _ hax hxy
          rw [if_pos hax, if_pos hax, merge_cons_cons, if_pos hay, merge_cons_cons, if_pos hxy]
        · rw [if_neg hax, if_neg hax, merge_cons_cons, if_pos hxy, ihx]
      · rw [if_neg hxy, orderedInsert_cons]
        by_cases hay : r a y
        · -- `y` is below `x`, hence so is `a`
          have hax : r a x := IsTrans.trans _ _ _ hay ((total_of r x y).resolve_left hxy)
          rw [if_pos hay, if_pos hax, merge_cons_cons, if_pos hay, merge_cons_cons, if_neg hxy]
        · rw [if_neg hay, ihy]
          by_cases hax : r a x
          · rw [if_pos hax, merge_cons_cons, if_neg hay]
          · rw [if_neg hax, merge_cons_cons, if_neg hxy]

theorem insertionSort_append (xs ys : List α) :
    (xs ++ ys).insertionSort r = merge r (xs.insertionSort r) (ys.insertionSort r) := by
  induction xs with
  | nil => simp
  | cons x xs ih =>
    rw [cons_append, insertionSort_cons, ih, orderedInsert_merge, insertionSort_cons]

omit [Std.Total r] in
theorem not_rel_of_mem_dropWhile {x : α} {xs : List α}
    (h : xs.Pairwise r) {y : α} (hy : y ∈ xs.dropWhile (r · x)) : ¬r y x := by
  induction xs with
  | nil => simp at hy
  | cons a xs ih =>
    obtain ⟨ha, hxs⟩ := pairwise_cons.1 h
    by_cases hax : r a x
    · rw [dropWhile_cons_of_pos (by simpa using hax)] at hy
      exact ih hxs hy
    · rw [dropWhile_cons_of_neg (by simpa using hax)] at hy
      rcases mem_cons.1 hy with rfl | hmem
      · exact hax
      · exact fun hyx => hax (IsTrans.trans _ _ _ (ha y hmem) hyx)

end Sorting

-- ==== the first elements

theorem take_merge_take {n m k : Nat} (hm : n ≤ m) (hk : n ≤ k) (xs ys : List α) :
    (merge r (xs.take m) (ys.take k)).take n = (merge r xs ys).take n := by
  induction n generalizing m k xs ys with
  | zero => simp
  | succ n ih =>
    obtain ⟨m, rfl⟩ : ∃ m', m = m' + 1 := ⟨m - 1, by omega⟩
    obtain ⟨k, rfl⟩ : ∃ k', k = k' + 1 := ⟨k - 1, by omega⟩
    cases xs with
    | nil =>
      rw [take_nil, nil_merge, nil_merge, take_take, Nat.min_eq_left hk]
    | cons x xs =>
      cases ys with
      | nil =>
        rw [take_nil, merge_nil, merge_nil, take_take, Nat.min_eq_left hm]
      | cons y ys =>
        have hx := ih (m := m) (k := k + 1) (by omega) (by omega) xs (y :: ys)
        have hy := ih (m := m + 1) (k := k) (by omega) (by omega) (x :: xs) ys
        rw [take_succ_cons] at hx hy
        rw [take_succ_cons, take_succ_cons, merge_cons_cons, merge_cons_cons]
        split_ifs
        · rw [take_succ_cons, take_succ_cons, hx]
        · rw [take_succ_cons, take_succ_cons, hy]

theorem take_merge_take_left (n : Nat) (xs ys : List α) :
    (merge r (xs.take n) ys).take n = (merge r xs ys).take n := by
  have h := take_merge_take r (le_refl n) (le_max_left n ys.length) xs ys
  rwa [take_of_length_le (le_max_right _ _)] at h

end StableMerge
