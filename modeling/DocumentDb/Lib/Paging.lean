/-
Reading a list in pages.

`cut` is how a list falls into pages when each starts where the one before ended. A reader
that only remembers the last element may drop elements when it finds the place again
(`resume`): `readPages` is what it returns. That is a sublist, and the whole list exactly if
no page of `cut` starts with an element that is dropped behind the page before it
(`flatten_readPages_eq_iff`). A page is not empty as long as something is left, so as many
pages as elements are enough.
-/
import Mathlib.Data.List.Basic

namespace Paging

open List Option Nat

variable {α : Type}

/-- How pages are taken: from the front, and as long as anything is left. -/
structure IsPage (page : Nat → List α → List α) : Prop where
  front : ∀ i left, page i left <+: left
  ne_nil : ∀ i {left}, left ≠ [] → page i left ≠ []

def cut (page : Nat → List α → List α) : Nat → Nat → List α → List (List α)
  | 0, _, _ => []
  | n + 1, i, left =>
    page i left :: cut page n (i + 1) (left.drop (page i left).length)

/-- What is left for a reader behind the last element it returned. -/
def resume (dropped : α → α → Bool) : Option α → List α → List α
  | none, left => left
  | some last, left => left.dropWhile (dropped last)

def readPages (page : Nat → List α → List α) (dropped : α → α → Bool) :
    Nat → Nat → Option α → List α → List (List α)
  | 0, _, _, _ => []
  | n + 1, i, last, left =>
    page i (resume dropped last left)
      :: readPages page dropped n (i + 1) ((page i (resume dropped last left)).getLast?.or last)
          ((resume dropped last left).drop (page i (resume dropped last left)).length)

/-- No page starts with an element that is dropped behind the page before. -/
def Resumes (dropped : α → α → Bool) : Option α → List (List α) → Prop
  | _, [] => True
  | last, page :: pages =>
    (∀ a ∈ last, ∀ b ∈ page.head?, dropped a b = false)
      ∧ Resumes dropped (page.getLast?.or last) pages

variable {page : Nat → List α → List α} {dropped : α → α → Bool}

-- ==== one page

theorem resume_sublist (dropped : α → α → Bool) (last : Option α)
    (left : List α) : (resume dropped last left).Sublist left := by
  cases last with
  | none => exact Sublist.refl left
  | some last => exact dropWhile_sublist _

variable {last : Option α} {left : List α} {n : Nat}

theorem resume_eq_self
    (h : ∀ a ∈ last, ∀ b ∈ left.head?, dropped a b = false) : resume dropped last left = left := by
  cases last with
  | none => rfl
  | some a =>
    cases left with
    | nil => rfl
    | cons b left =>
      show (b :: left).dropWhile (dropped a) = b :: left
      rw [dropWhile_cons_of_neg]
      rw [h a rfl b rfl]
      exact Bool.false_ne_true

theorem length_resume_lt {a b : α} (h : dropped a b) :
    (resume dropped (some a) (b :: left)).length < (b :: left).length := by
  show ((b :: left).dropWhile (dropped a)).length < _
  rw [dropWhile_cons_of_pos h, length_cons]
  exact lt_succ_of_le (dropWhile_sublist _).length_le

namespace IsPage

theorem append_drop (h : IsPage page) (i : Nat) (left : List α) :
    page i left ++ left.drop (page i left).length = left := by
  have htake : left.take (page i left).length = page i left :=
    (prefix_iff_eq_take.1 (h.front i left)).symm
  calc page i left ++ left.drop (page i left).length
      = left.take (page i left).length ++ left.drop (page i left).length := by
        rw [htake]
    _ = left := take_append_drop _ _

theorem head?_eq (h : IsPage page) (i : Nat) (left : List α) :
    (page i left).head? = left.head? := by
  obtain ⟨rest, hrest⟩ := h.front i left
  cases hleft : left with
  | nil =>
    rw [hleft] at hrest
    rw [(append_eq_nil_iff.1 hrest).1]
  | cons b left =>
    have hne := h.ne_nil i (hleft ▸ cons_ne_nil b left)
    rw [← hleft]
    conv_rhs => rw [← hrest]
    exact (head?_append_of_ne_nil _ hne).symm

theorem length_drop_le (h : IsPage page) (i : Nat)
    (hn : left.length ≤ n + 1) : (left.drop (page i left).length).length ≤ n := by
  cases left with
  | nil =>
    rw [drop_nil]
    exact Nat.zero_le n
  | cons b left =>
    have hpos := length_pos_iff.2 (h.ne_nil i (cons_ne_nil b left))
    rw [length_drop]
    omega

end IsPage

-- ==== all pages

theorem flatten_readPages_sublist_resume (h : IsPage page) (dropped : α → α → Bool)
    (n i : Nat) (last : Option α) (left : List α) :
    (readPages page dropped n i last left).flatten.Sublist (resume dropped last left) := by
  induction n generalizing i last left with
  | zero => exact nil_sublist _
  | succ n ih =>
    have hrest := (ih (i + 1) ((page i (resume dropped last left)).getLast?.or last)
      ((resume dropped last left).drop (page i (resume dropped last left)).length)).trans
      (resume_sublist dropped _ _)
    have hall := hrest.append_left (page i (resume dropped last left))
    rw [h.append_drop] at hall
    exact hall

theorem flatten_readPages_sublist (h : IsPage page) (dropped : α → α → Bool)
    (n i : Nat) (last : Option α) (left : List α) :
    (readPages page dropped n i last left).flatten.Sublist left :=
  (flatten_readPages_sublist_resume h dropped n i last left).trans
    (resume_sublist dropped last left)

theorem readPages_eq_replicate (h : IsPage page) (n i : Nat)
    (hnil : resume dropped last left = []) :
    readPages page dropped n i last left = List.replicate n [] := by
  induction n generalizing i left with
  | zero => rfl
  | succ n ih =>
    have hpage : page i [] = [] := prefix_nil.1 (h.front i [])
    have hresume : resume dropped last ([] : List α) = [] :=
      sublist_nil.1 (resume_sublist dropped last [])
    rw [readPages, hnil, hpage]
    exact congrArg ([] :: ·) (ih (i + 1) hresume)

theorem flatten_readPages_eq_iff (h : IsPage page) (i : Nat)
    (last : Option α) (hn : left.length ≤ n) : (readPages page dropped n i last left).flatten = left
      ↔ Resumes dropped last (cut page n i left) := by
  induction n generalizing i last left with
  | zero =>
    rw [length_eq_zero_iff.1 (le_zero.1 hn)]
    exact iff_of_true rfl trivial
  | succ n ih =>
    rw [cut, Resumes, h.head?_eq]
    by_cases hfirst : ∀ a ∈ last, ∀ b ∈ left.head?, dropped a b = false
    · rw [readPages, resume_eq_self hfirst, flatten_cons]
      rw [and_iff_right hfirst, ← ih _ _ (h.length_drop_le i hn)]
      conv_lhs => rhs; rw [← h.append_drop i left]
      exact append_right_inj _
    · refine iff_of_false ?_ (fun hresumes => hfirst hresumes.1)
      obtain ⟨a, ha, b, hb, hdropped⟩ : ∃ a ∈ last, ∃ b ∈ left.head?, dropped a b := by
        simpa using hfirst
      obtain rfl : last = some a := ha
      cases left with
      | nil => cases hb
      | cons b' left =>
        obtain rfl : b' = b := some.inj hb
        intro hall
        have hsub := (flatten_readPages_sublist_resume h dropped (n + 1) i
          (some a) (b' :: left)).length_le
        rw [hall] at hsub
        exact Nat.not_lt.2 hsub (length_resume_lt hdropped)

theorem Resumes.cut_of_le {m : Nat} (hle : n ≤ m) {i : Nat}
    (h : Resumes dropped last (cut page m i left)) : Resumes dropped last (cut page n i left) := by
  induction n generalizing m i last left with
  | zero => exact trivial
  | succ n ih =>
    cases m with
    | zero => exact absurd hle (not_succ_le_zero n)
    | succ m => exact ⟨h.1, ih (le_of_succ_le_succ hle) h.2⟩

theorem resumes_of_pairwise (h : IsPage page)
    (hpair : (last.toList ++ left).Pairwise fun a b => dropped a b = false)
    (n i : Nat) : Resumes dropped last (cut page n i left) := by
  induction n generalizing i last left with
  | zero => exact trivial
  | succ n ih =>
    rw [cut, Resumes, h.head?_eq]
    have hpair' := hpair
    rw [← h.append_drop i left, ← append_assoc] at hpair'
    constructor
    · intro a ha b hb
      refine (pairwise_append.1 hpair).2.2 a ?_ b ?_
      · exact mem_toList.2 ha
      · exact mem_of_mem_head? hb
    · apply ih
      refine hpair'.sublist (Sublist.append_right ?_ _)
      cases hlast : (page i left).getLast? with
      | none =>
        exact sublist_append_left _ _
      | some a =>
        have hmem := mem_of_getLast? hlast
        exact (singleton_sublist.2 hmem).trans (sublist_append_right _ _)

theorem isChain_of_resumes (hone : ∀ i left, page i left = left.take 1) (i : Nat)
    (hn : left.length ≤ n) (h : Resumes dropped last (cut page n i left)) :
    (last.toList ++ left).IsChain fun a b => dropped a b = false := by
  have hshort (last : Option α) : last.toList.IsChain fun a b => dropped a b = false := by
    cases last with
    | none => exact .nil
    | some a => exact .singleton a
  induction n generalizing i last left with
  | zero =>
    rw [length_eq_zero_iff.1 (le_zero.1 hn), append_nil]
    exact hshort last
  | succ n ih =>
    cases left with
    | nil =>
      rw [append_nil]
      exact hshort last
    | cons b left =>
      rw [cut, hone] at h
      have hrest : (b :: left).IsChain fun a b => dropped a b = false :=
        ih (i + 1) (le_of_succ_le_succ hn) h.2
      cases last with
      | none => exact hrest
      | some a => exact isChain_cons_cons.2 ⟨h.1 a rfl b rfl, hrest⟩

end Paging
