/-
Ordered maps as lists of pairs.

A key keeps the place it got first: storing at a key that is there changes
the pair in place, storing at a new key adds a pair at the end. This is how a
linked list of named children behaves that is searched before every
insertion.
-/
import Mathlib.Data.List.Induction
import Mathlib.Data.List.Perm.Basic

namespace Assoc

open List Prod

variable {κ α : Type*} [DecidableEq κ]

def get (k : κ) : List (κ × α) → Option α
  | [] => none
  | (k', a) :: l => if k' = k then some a else get k l

def set (k : κ) (a : α) : List (κ × α) → List (κ × α)
  | [] => [(k, a)]
  | (k', a') :: l => if k' = k then (k, a) :: l else (k', a') :: set k a l

@[simp]
theorem get_nil (k : κ) : get k ([] : List (κ × α)) = none := rfl

theorem get_cons (k k' : κ) (a : α) (l : List (κ × α)) :
    get k ((k', a) :: l) = if k' = k then some a else get k l := rfl

variable {k : κ} {l : List (κ × α)} {a : α}

theorem get_eq_none_iff : get k l = none ↔ k ∉ l.map Prod.fst := by
  induction l with
  | nil => simp
  | cons p l ih =>
    obtain ⟨k', a⟩ := p
    by_cases h : k' = k
    · simp [get_cons, h]
    · simp [get_cons, h, ih, Ne.symm h]

theorem mem_of_get (h : get k l = some a) : (k, a) ∈ l := by
  induction l with
  | nil => simp at h
  | cons p l ih =>
    obtain ⟨k', a'⟩ := p
    rw [get_cons] at h
    split_ifs at h with hk
    · simp [← hk, Option.some.inj h]
    · exact mem_cons_of_mem _ (ih h)

theorem get_of_mem (hl : (l.map Prod.fst).Nodup) (h : (k, a) ∈ l) : get k l = some a := by
  induction l with
  | nil => simp at h
  | cons p l ih =>
    obtain ⟨k', a'⟩ := p
    rw [map_cons, nodup_cons] at hl
    rcases mem_cons.1 h with heq | h
    · simp only [Prod.mk.injEq] at heq
      simp [get_cons, heq.1, heq.2]
    · have hne : k' ≠ k := by
        rintro rfl
        exact hl.1 (mem_map.2 ⟨(k', a), h, rfl⟩)
      rw [get_cons, if_neg hne, ih hl.2 h]

-- ==== storing

@[simp]
theorem get_set_self (k : κ) (a : α) (l : List (κ × α)) : get k (set k a l) = some a := by
  induction l with
  | nil => simp [set, get_cons]
  | cons p l ih =>
    obtain ⟨k', a'⟩ := p
    by_cases h : k' = k <;> simp [set, get_cons, h, ih]

theorem get_set_ne {k' : κ} (h : k' ≠ k) (a : α) (l : List (κ × α)) :
    get k' (set k a l) = get k' l := by
  induction l with
  | nil => simp [set, get_cons, h.symm]
  | cons p l ih =>
    obtain ⟨k'', a'⟩ := p
    by_cases hk : k'' = k
    · subst hk
      simp [set, get_cons, h.symm]
    · simp [set, get_cons, hk, ih]

theorem set_of_get_eq_none (h : get k l = none) (a : α) : set k a l = l ++ [(k, a)] := by
  induction l with
  | nil => rfl
  | cons p l ih =>
    obtain ⟨k', a'⟩ := p
    rw [get_cons] at h
    split_ifs at h with hk
    simp [set, hk, ih h]

theorem map_fst_set (h : k ∈ l.map Prod.fst) : (set k a l).map Prod.fst = l.map Prod.fst := by
  induction l with
  | nil => simp at h
  | cons p l ih =>
    obtain ⟨k', a'⟩ := p
    by_cases hk : k' = k
    · simp [set, hk]
    · have hmem : k ∈ l.map fst := by
        simpa [Ne.symm hk] using h
      simp [set, hk, ih hmem]

theorem nodup_set (hl : (l.map Prod.fst).Nodup) : ((set k a l).map Prod.fst).Nodup := by
  by_cases h : k ∈ l.map fst
  · rwa [map_fst_set h]
  · rw [set_of_get_eq_none (get_eq_none_iff.2 h), map_append]
    refine nodup_append.2 ⟨hl, by simp, ?_⟩
    rintro k' hk' k'' hk'' rfl
    obtain rfl : k' = k := by simpa using hk''
    exact h hk'

-- ==== many at a time

theorem get_perm {l' : List (κ × α)} (h : l.Perm l') (hl : (l.map Prod.fst).Nodup) :
    get k l = get k l' := by
  have hl' : (l'.map fst).Nodup := (h.map fst).nodup_iff.1 hl
  cases hget : get k l with
  | none =>
    rw [get_eq_none_iff, (h.map fst).mem_iff] at hget
    exact (get_eq_none_iff.2 hget).symm
  | some a => exact (get_of_mem hl' (h.mem_iff.1 (mem_of_get hget))).symm

theorem nodup_foldl_set {m : List (κ × α)} (hm : (m.map Prod.fst).Nodup) (l : List (κ × α)) :
    ((l.foldl (fun m p => set p.1 p.2 m) m).map Prod.fst).Nodup := by
  induction l generalizing m with
  | nil => exact hm
  | cons p l ih => exact ih (nodup_set hm)

theorem get_foldl_set_reverse (k : κ) (l m : List (κ × α)) :
    get k (l.foldl (fun m p => set p.1 p.2 m) m) = (get k l.reverse).or (get k m) := by
  induction l using reverseRecOn with
  | nil => rfl
  | append_singleton l p ih =>
    obtain ⟨k', a⟩ := p
    rw [foldl_concat, reverse_concat, get_cons]
    by_cases hk : k' = k
    · rw [if_pos hk, hk, get_set_self]
      rfl
    · rw [if_neg hk, get_set_ne (Ne.symm hk), ih]

theorem get_foldl_set {m : List (κ × α)} (hl : (l.map Prod.fst).Nodup) :
    get k (l.foldl (fun m p => set p.1 p.2 m) m) = (get k l).or (get k m) := by
  rw [get_foldl_set_reverse, get_perm l.reverse_perm.symm hl]

-- ==== keys that repeat

theorem mem_set {p : κ × α} (h : p ∈ set k a l) : p = (k, a) ∨ p ∈ l := by
  induction l with
  | nil => exact Or.inl (by simpa [set] using h)
  | cons q l ih =>
    rw [set] at h
    split_ifs at h with hk
    · exact (mem_cons.1 h).imp_right (mem_cons_of_mem q)
    · rcases mem_cons.1 h with rfl | h
      · exact Or.inr mem_cons_self
      · exact (ih h).imp_right (mem_cons_of_mem q)

theorem mem_foldl_set {p : κ × α} (h : p ∈ l.foldl (fun m p => set p.1 p.2 m) []) : p ∈ l := by
  induction l using reverseRecOn with
  | nil => exact h
  | append_singleton l q ih =>
    rw [foldl_concat] at h
    rcases mem_set h with rfl | h
    · simp
    · exact mem_append_left _ (ih h)

theorem map_fst_foldl_set [BEq κ] [LawfulBEq κ] (l : List (κ × α)) :
    (l.foldl (fun m p => set p.1 p.2 m) []).map Prod.fst = (l.map Prod.fst).eraseDups := by
  induction l using reverseRecOn with
  | nil => rfl
  | append_singleton l p ih =>
    have hmem : p.1 ∈ (l.foldl (fun m p => set p.1 p.2 m) []).map fst ↔ p.1 ∈ l.map fst := by
      rw [ih, mem_eraseDups]
    rw [foldl_concat, map_append, eraseDups_append, ← ih]
    by_cases h : p.1 ∈ l.map fst
    · simp [map_fst_set (hmem.2 h), removeAll, h]
    · rw [set_of_get_eq_none (get_eq_none_iff.2 (mt hmem.1 h))]
      simp [removeAll, h, eraseDups_cons]

theorem foldl_set_of_nodup (h : (l.map Prod.fst).Nodup) :
    l.foldl (fun m p => set p.1 p.2 m) [] = l := by
  induction l using reverseRecOn with
  | nil => rfl
  | append_singleton l p ih =>
    rw [map_append, nodup_append] at h
    have hnew : p.1 ∉ l.map fst := fun hp => h.2.2 p.1 hp p.1 (by simp) rfl
    rw [foldl_concat, ih h.1, set_of_get_eq_none (get_eq_none_iff.2 hnew)]

end Assoc
