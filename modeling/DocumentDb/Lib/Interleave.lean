/-
Lists that are read as one.

Several lists, each with a name, arrive interleaved: one list of named elements
in which the elements of every name stand in their order (`Interleaves`). The
projections to the names split with the list (`proj_append`), and together they
are all of its elements (`perm_flatMap_proj`).
-/
import Mathlib.Data.List.Perm.Basic

namespace Interleave

open List

variable {ι α : Type*} [DecidableEq ι]

def proj (i : ι) : List (ι × α) → List α
  | [] => []
  | (j, a) :: m => if j = i then a :: proj i m else proj i m

theorem proj_cons (i j : ι) (a : α) (m : List (ι × α)) :
    proj i ((j, a) :: m) = if j = i then a :: proj i m else proj i m := rfl

theorem proj_append (i : ι) (m m' : List (ι × α)) : proj i (m ++ m') = proj i m ++ proj i m' := by
  induction m with
  | nil => rfl
  | cons p m ih =>
    obtain ⟨j, a⟩ := p
    rw [cons_append, proj_cons, proj_cons, ih]
    split
    · rfl
    · rfl

theorem proj_eq_nil {i : ι} {m : List (ι × α)} (h : ∀ p ∈ m, p.1 ≠ i) : proj i m = [] := by
  induction m with
  | nil => rfl
  | cons p m ih =>
    obtain ⟨hp, hm⟩ := forall_mem_cons.1 h
    rw [proj_cons, if_neg hp, ih hm]

theorem proj_map_self (i : ι) (l : List α) : proj i (l.map fun a => (i, a)) = l := by
  induction l with
  | nil => rfl
  | cons a l ih => rw [map_cons, proj_cons, if_pos rfl, ih]

theorem proj_sublist (i : ι) (m : List (ι × α)) : (proj i m).Sublist (m.map Prod.snd) := by
  induction m with
  | nil => exact .refl _
  | cons p m ih =>
    obtain ⟨j, a⟩ := p
    rw [proj_cons, map_cons]
    split
    · exact ih.cons_cons a
    · exact ih.cons a

theorem flatMap_proj_cons {is : List ι} (his : is.Nodup) {j : ι} (hj : j ∈ is)
    (a : α) (m : List (ι × α)) :
    (is.flatMap fun i => proj i ((j, a) :: m)).Perm (a :: is.flatMap fun i => proj i m) := by
  induction is with
  | nil => cases hj
  | cons i is ih =>
    obtain ⟨hi, his⟩ := nodup_cons.1 his
    rw [flatMap_cons, flatMap_cons]
    by_cases hji : j = i
    · have hrest : (is.flatMap fun i => proj i ((j, a) :: m)) = is.flatMap fun i => proj i m := by
        refine flatMap_congr fun k hk => ?_
        rw [proj_cons, if_neg]
        intro hjk
        exact hi (hji ▸ hjk ▸ hk)
      rw [hrest, proj_cons, if_pos hji]
      exact .refl _
    · have hmem : j ∈ is := (mem_cons.1 hj).resolve_left hji
      rw [proj_cons, if_neg hji]
      calc (proj i m ++ is.flatMap fun i => proj i ((j, a) :: m)).Perm
            (proj i m ++ a :: is.flatMap fun i => proj i m) :=
          (ih his hmem).append_left _
        Perm _ (a :: (proj i m ++ is.flatMap fun i => proj i m)) := perm_middle

theorem perm_flatMap_proj {is : List ι} (his : is.Nodup) {m : List (ι × α)}
    (hm : ∀ p ∈ m, p.1 ∈ is) : (is.flatMap fun i => proj i m).Perm (m.map Prod.snd) := by
  induction m with
  | nil =>
    have hnil : (is.flatMap fun i => proj i ([] : List (ι × α))) = [] :=
      flatMap_eq_nil_iff.2 fun _ _ => rfl
    rw [hnil]
    exact .refl _
  | cons p m ih =>
    obtain ⟨j, a⟩ := p
    obtain ⟨hj, hm⟩ := forall_mem_cons.1 hm
    exact (flatMap_proj_cons his hj a m).trans ((ih hm).cons a)

/-- The named elements are an interleaving of named lists. -/
structure Interleaves (lists : List (ι × List α)) (m : List (ι × α)) : Prop where
  proj_eq : ∀ l ∈ lists, proj l.1 m = l.2
  mem_names : ∀ p ∈ m, p.1 ∈ lists.map Prod.fst

theorem interleaves_flatMap {lists : List (ι × List α)} (h : (lists.map Prod.fst).Nodup) :
    Interleaves lists (lists.flatMap fun l => l.2.map fun a => (l.1, a)) := by
  have hnames (lists : List (ι × List α)) :
      ∀ p ∈ lists.flatMap fun l => l.2.map fun a => (l.1, a), p.1 ∈ lists.map Prod.fst := by
    intro p hp
    obtain ⟨l, hl, hp⟩ := mem_flatMap.1 hp
    obtain ⟨a, -, rfl⟩ := mem_map.1 hp
    exact mem_map_of_mem hl
  refine ⟨?_, hnames lists⟩
  induction lists with
  | nil => exact nofun
  | cons l lists ih =>
    rw [map_cons, nodup_cons] at h
    intro l' hl'
    rw [flatMap_cons, proj_append]
    rcases mem_cons.1 hl' with rfl | hl'
    · rw [proj_map_self, proj_eq_nil, append_nil]
      intro p hp heq
      exact h.1 (heq ▸ hnames lists p hp)
    · rw [proj_eq_nil, nil_append, ih h.2 l' hl']
      intro p hp heq
      obtain ⟨a, -, rfl⟩ := mem_map.1 hp
      have hname : l.1 = l'.1 := heq
      exact h.1 (hname ▸ mem_map_of_mem hl')

end Interleave
