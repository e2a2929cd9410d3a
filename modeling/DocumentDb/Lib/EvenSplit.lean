/-
Splitting a sorted list into runs of about the same length.

A run takes `quota` items, and one more as long as there is a surplus. It is continued over
the items that compare equal to its last one, and what it takes in this way is taken off the
surplus. Its bound is the first item of the next run, and for the last run an item of its
own. A list of `n * quota + surplus` items with `surplus ≤ n` has at most `n` runs
(`length_split`), since each takes at least its quota.
-/
import DocumentDb.Lib.ThreeWay
import Mathlib.Algebra.Group.Nat.Defs
import Mathlib.Data.List.Chain

namespace EvenSplit

open ThreeWay List

variable {α : Type*}

-- ==== runs

structure Run (α : Type*) where
  first : α
  others : List α
  bound : α

def Run.items (run : Run α) : List α := run.first :: run.others

variable (cmp : α → α → Int) (quota surplus : Nat) (first : α) (tail : List α)

/-- How many items follow the first one, before the items that compare equal. -/
def followers : Nat := quota - 1 + if 0 < surplus then 1 else 0

/-- The item that ends a run, before the items that compare equal. -/
def lastItem : α :=
  (tail.take (followers quota surplus)).getLastD first

def ties : List α :=
  (tail.drop (followers quota surplus)).takeWhile fun item =>
    cmp (lastItem quota surplus first tail) item = 0

def rest : List α :=
  (tail.drop (followers quota surplus)).dropWhile fun item =>
    cmp (lastItem quota surplus first tail) item = 0

def head : Run α where
  first := first
  others := tail.take (followers quota surplus) ++ ties cmp quota surplus first tail
  bound := (rest cmp quota surplus first tail).head?.getD (lastItem quota surplus first tail)

theorem length_rest_le : (rest cmp quota surplus first tail).length ≤ tail.length := by
  have hdrop := (dropWhile_sublist (l := tail.drop (followers quota surplus))
    fun item => cmp (lastItem quota surplus first tail) item = 0).length_le
  rw [length_drop] at hdrop
  unfold rest
  omega

def split (cmp : α → α → Int) (quota surplus : Nat) : List α → List (Run α)
  | [] => []
  | first :: tail =>
    head cmp quota surplus first tail
      :: split cmp quota (surplus - 1 - (ties cmp quota surplus first tail).length)
        (rest cmp quota surplus first tail)
termination_by items => items.length
decreasing_by
  have := length_rest_le cmp quota surplus first tail
  simp only [List.length_cons]
  omega

theorem head_append_rest :
    (head cmp quota surplus first tail).items ++ rest cmp quota surplus first tail
      = first :: tail := by
  show first :: (_ ++ ties cmp quota surplus first tail) ++ _ = _
  rw [cons_append, append_assoc]
  unfold ties rest
  rw [takeWhile_append_dropWhile, take_append_drop]

theorem length_head :
    (head cmp quota surplus first tail).items.length = 1 + min (followers quota surplus) tail.length
        + (ties cmp quota surplus first tail).length := by
  show (_ :: (_ ++ _)).length = _
  rw [length_cons, length_append, length_take]
  omega

theorem exists_init : ∃ init, first :: tail.take (followers quota surplus)
      = init ++ [lastItem quota surplus first tail] := by
  have hne : first :: tail.take (followers quota surplus) ≠ [] := cons_ne_nil _ _
  have hlast : (first :: tail.take (followers quota surplus)).getLast hne
      = lastItem quota surplus first tail := by
    unfold lastItem
    rw [getLast_eq_iff_getLast?_eq_some, getLast?_cons, getLastD_eq_getLast?]
  rw [← hlast]
  exact ⟨_, (dropLast_concat_getLast hne).symm⟩

variable {cmp quota surplus first tail} {items : List α}

theorem split_nil : split cmp quota surplus [] = [] := by
  rw [split]

theorem split_cons : split cmp quota surplus (first :: tail) = head cmp quota surplus first tail
      :: split cmp quota (surplus - 1 - (ties cmp quota surplus first tail).length)
        (rest cmp quota surplus first tail) := by
  rw [split]

-- ==== the first run

theorem followers_le_of_rest (h : rest cmp quota surplus first tail ≠ []) :
    followers quota surplus < tail.length := by
  by_contra hle
  apply h
  unfold rest
  rw [drop_eq_nil_of_le (Nat.le_of_not_lt hle), dropWhile_nil]

-- ==== the runs

theorem flatMap_split (cmp : α → α → Int) (quota surplus : Nat) (items : List α) :
    (split cmp quota surplus items).flatMap Run.items = items := by
  induction surplus, items using split.induct cmp quota with
  | case1 surplus => rw [split_nil, flatMap_nil]
  | case2 surplus first tail ih =>
    rw [split_cons, flatMap_cons, ih, head_append_rest]

theorem length_split {n : Nat} (hquota : 1 ≤ quota) (hsurplus : surplus ≤ n)
    (hitems : items.length ≤ n * quota + surplus) : (split cmp quota surplus items).length ≤ n := by
  induction surplus, items using split.induct cmp quota generalizing n with
  | case1 surplus =>
    rw [split_nil]
    exact Nat.zero_le n
  | case2 surplus first tail ih =>
    rw [split_cons, length_cons]
    rw [length_cons] at hitems
    cases n with
    | zero => omega
    | succ n =>
      apply Nat.succ_le_succ
      apply ih
      · omega
      · by_cases hrest : rest cmp quota surplus first tail = []
        · rw [hrest]
          exact Nat.zero_le _
        have hfull := followers_le_of_rest hrest
        have hlength := congrArg length (head_append_rest cmp quota surplus first tail)
        rw [length_append, length_head, length_cons] at hlength
        rw [Nat.succ_mul] at hitems
        unfold followers at hfull hlength
        split at hlength
        · rename_i hpos
          omega
        · rename_i hpos
          omega

theorem quota_le_length {run : Run α} (hquota : 1 ≤ quota)
    (h : run ∈ (split cmp quota surplus items).dropLast) : quota ≤ run.items.length := by
  induction surplus, items using split.induct cmp quota with
  | case1 surplus =>
    rw [split_nil] at h
    cases h
  | case2 surplus first tail ih =>
    rw [split_cons] at h
    by_cases hrest : rest cmp quota surplus first tail = []
    · rw [hrest, split_nil] at h
      cases h
    rw [dropLast_cons_of_ne_nil] at h
    · rcases mem_cons.1 h with rfl | h
      · have hfull := followers_le_of_rest hrest
        rw [length_head]
        unfold followers at hfull ⊢
        omega
      · exact ih h
    · intro hnil
      apply hrest
      rw [← flatMap_split cmp quota _ (rest cmp quota surplus first tail), hnil]
      rfl

-- ==== sorted lists

theorem cmp_lastItem_le (order : TotalPreorder cmp)
    (hsorted : (first :: tail).Pairwise fun x y => cmp x y ≤ 0) :
    ∀ x ∈ (head cmp quota surplus first tail).items,
      cmp x (lastItem quota surplus first tail) ≤ 0 := by
  obtain ⟨init, hinit⟩ := exists_init quota surplus first tail
  intro x hx
  have hx : x ∈ (first :: tail.take (followers quota surplus))
      ++ ties cmp quota surplus first tail := hx
  rw [hinit, append_assoc, mem_append, singleton_append, mem_cons] at hx
  rcases hx with hx | rfl | hx
  · rw [← take_append_drop (followers quota surplus) tail, ← cons_append,
      hinit, append_assoc] at hsorted
    exact (pairwise_append.1 hsorted).2.2 x hx _ (mem_cons_self ..)
  · exact (order.refl _).le
  · have htie := mem_takeWhile_imp hx
    exact ((order.flip _ _).eq_zero.1 (of_decide_eq_true htie)).le

theorem cmp_rest_lt (order : TotalPreorder cmp)
    (hsorted : (first :: tail).Pairwise fun x y => cmp x y ≤ 0) :
    ∀ x ∈ (head cmp quota surplus first tail).items,
      ∀ y ∈ rest cmp quota surplus first tail, cmp x y < 0 := by
  intro x hx y hy
  have hle := cmp_lastItem_le order hsorted x hx
  apply (order.trans x (lastItem quota surplus first tail) y).lt_of_le hle
  obtain ⟨init, hinit⟩ := exists_init quota surplus first tail
  rw [← take_append_drop (followers quota surplus) tail, ← cons_append,
    hinit, append_assoc, singleton_append] at hsorted
  have hbehind := (pairwise_append.1 hsorted).2.1
  rw [pairwise_cons] at hbehind
  -- the first item that is left is greater, and the others follow it
  have hsuffix : rest cmp quota surplus first tail
      <:+ tail.drop (followers quota surplus) := dropWhile_suffix _
  obtain ⟨z, zs, hrest⟩ := exists_cons_of_ne_nil (ne_nil_of_mem hy)
  have hz : cmp (lastItem quota surplus first tail) z < 0 := by
    have hnot : ¬ cmp (lastItem quota surplus first tail) z = 0 := by
      have hhead := head_dropWhile_not
        (fun item => decide (cmp (lastItem quota surplus first tail) item = 0))
        (ne_nil_of_mem hy)
      have hz : (rest cmp quota surplus first tail).head (ne_nil_of_mem hy) = z := by
        simp only [hrest, head_cons]
      rw [← hz]
      exact of_decide_eq_false hhead
    have hzle := hbehind.1 z (hsuffix.mem (hrest ▸ mem_cons_self ..))
    omega
  rw [hrest] at hy hsuffix
  rcases mem_cons.1 hy with rfl | hy
  · exact hz
  · have hzy := (pairwise_cons.1 (hbehind.2.sublist hsuffix.sublist)).1 y hy
    exact (order.trans _ z y).lt_of_lt hz hzy

theorem separate_split (order : TotalPreorder cmp)
    (hsorted : items.Pairwise fun x y => cmp x y ≤ 0) :
    (split cmp quota surplus items).Pairwise fun b c =>
      ∀ x ∈ b.items, ∀ y ∈ c.items, cmp x y < 0 := by
  induction surplus, items using split.induct cmp quota with
  | case1 surplus =>
    rw [split_nil]
    exact List.Pairwise.nil
  | case2 surplus first tail ih =>
    have hrest : (rest cmp quota surplus first tail).Pairwise fun x y => cmp x y ≤ 0 := by
      rw [← head_append_rest cmp quota surplus first tail] at hsorted
      exact (pairwise_append.1 hsorted).2.1
    rw [split_cons]
    refine List.Pairwise.cons ?_ (ih hrest)
    intro c hc x hx y hy
    apply cmp_rest_lt order hsorted x hx
    rw [← flatMap_split cmp quota _ (rest cmp quota surplus first tail)]
    exact mem_flatMap.2 ⟨c, hc, hy⟩

theorem bound_split : (split cmp quota surplus items).IsChain fun b c => b.bound = c.first := by
  induction surplus, items using split.induct cmp quota with
  | case1 surplus =>
    rw [split_nil]
    exact List.IsChain.nil
  | case2 surplus first tail ih =>
    rw [split_cons]
    refine isChain_cons.2 ⟨?_, ih⟩
    intro c hc
    show (rest cmp quota surplus first tail).head?.getD _ = _
    cases hrest : rest cmp quota surplus first tail with
    | nil =>
      rw [hrest, split_nil] at hc
      cases hc
    | cons z zs =>
      rw [hrest, split_cons] at hc
      cases hc
      rfl

theorem cmp_lastItem_eq (order : TotalPreorder cmp) :
    ∀ x ∈ (head cmp quota surplus first tail).items.getLast?,
      cmp (lastItem quota surplus first tail) x = 0 := by
  intro x hx
  obtain ⟨init, hinit⟩ := exists_init quota surplus first tail
  have hitems : (head cmp quota surplus first tail).items
      = init ++ [lastItem quota surplus first tail] ++ ties cmp quota surplus first tail := by
    rw [← hinit]
    rfl
  rw [hitems, getLast?_append] at hx
  cases hties : (ties cmp quota surplus first tail).getLast? with
  | none =>
    rw [hties, Option.none_or, getLast?_concat] at hx
    cases hx
    exact order.refl _
  | some y =>
    rw [hties, Option.some_or] at hx
    cases hx
    have htie := mem_takeWhile_imp (mem_of_getLast? hties)
    exact of_decide_eq_true htie

theorem last_bound_split (order : TotalPreorder cmp) :
    ∀ b ∈ (split cmp quota surplus items).getLast?, ∀ x ∈ b.items.getLast?, cmp b.bound x = 0 := by
  induction surplus, items using split.induct cmp quota with
  | case1 surplus =>
    rw [split_nil]
    exact nofun
  | case2 surplus first tail ih =>
    intro b hb x hx
    rw [split_cons, getLast?_cons] at hb
    cases hrest : rest cmp quota surplus first tail with
    | nil =>
      rw [hrest, split_nil] at hb
      cases hb
      show cmp ((rest cmp quota surplus first tail).head?.getD _) x = 0
      rw [hrest]
      exact cmp_lastItem_eq order x hx
    | cons z zs =>
      apply ih b _ x hx
      rw [hrest, split_cons, getLast?_cons] at hb ⊢
      exact hb

-- ==== even partitions

/-- The runs are an even partition of the items into at most `n` parts. -/
structure IsEven (cmp : α → α → Int) (n : Nat) (items : List α) (runs : List (Run α)) : Prop where
  covers : runs.flatMap Run.items = items
  count : runs.length ≤ n
  separate : runs.Pairwise fun b c => ∀ x ∈ b.items, ∀ y ∈ c.items, cmp x y < 0
  quota : ∀ b ∈ runs.dropLast, items.length / n ≤ b.items.length
  bound : runs.IsChain fun b c => b.bound = c.first
  last_bound : ∀ b ∈ runs.getLast?, ∀ x ∈ b.items.getLast?, cmp b.bound x = 0

theorem isEven_split {n : Nat} (order : TotalPreorder cmp)
    (hsorted : items.Pairwise fun x y => cmp x y ≤ 0) (hquota : 1 ≤ quota)
    (hle : items.length / n ≤ quota) (hsurplus : surplus ≤ n)
    (hitems : items.length ≤ n * quota + surplus) :
    IsEven cmp n items (split cmp quota surplus items) where
  covers := flatMap_split cmp quota surplus items
  count := length_split hquota hsurplus hitems
  separate := separate_split order hsorted
  quota _ hb := hle.trans (quota_le_length hquota hb)
  bound := bound_split
  last_bound := last_bound_split order

end EvenSplit
