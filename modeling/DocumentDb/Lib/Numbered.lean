/-
The elements of a list that are kept, and their numbers.

A list is filtered and its elements are then worked on by number. The number of
a kept element is at most its position in the list, and the same exactly where
every element before it is kept (`getElem_kept`). What is reported by number is
therefore reported by position exactly where nothing is left out before an
element that is reported (`byNumber_eq_byPosition_iff`).
-/
import Mathlib.Data.List.Basic

namespace Numbered

open List

variable {α β γ ε ω : Type*}

-- ==== what is kept

section Kept

variable (keep? : α → Option β)

/-- What is kept of a list, with its positions. The first element of the list
is at the given position. -/
def kept (l : List α) (first : Nat) : List (Nat × β) :=
  (l.zipIdx first).filterMap fun e => (keep? e.1).map (e.2, ·)

variable {keep?} {a : α} {b : β} {l : List α} {first k p : Nat}

theorem kept_cons_some (h : keep? a = some b) (l : List α) (first : Nat) :
    kept keep? (a :: l) first = (first, b) :: kept keep? l (first + 1) := by
  unfold kept
  rw [zipIdx_cons, filterMap_cons, h]
  rfl

theorem kept_cons_none (h : keep? a = none) (l : List α) (first : Nat) :
    kept keep? (a :: l) first = kept keep? l (first + 1) := by
  unfold kept
  rw [zipIdx_cons, filterMap_cons, h]
  rfl

theorem map_snd_kept (l : List α) (first : Nat) :
    (kept keep? l first).map Prod.snd = l.filterMap keep? := by
  induction l generalizing first with
  | nil => rfl
  | cons a l ih =>
    cases ha : keep? a with
    | none =>
      rw [kept_cons_none ha, filterMap_cons, ha]
      exact ih (first + 1)
    | some b =>
      rw [kept_cons_some ha, filterMap_cons, ha, map_cons, ih]

theorem getElem_kept (h : (kept keep? l first)[k]? = some (p, b)) :
    first + k ≤ p ∧ (p = first + k ↔ ∀ a ∈ l.take (p - first), (keep? a).isSome) := by
  induction l generalizing first k with
  | nil => cases h
  | cons a l ih =>
    cases ha : keep? a with
    | none =>
      rw [kept_cons_none ha] at h
      obtain ⟨hle, -⟩ := ih h
      -- the element itself stands before the one that is kept
      have hmem : a ∈ (a :: l).take (p - first) := by
        rw [show p - first = (p - first - 1) + 1 by omega, take_succ_cons]
        exact mem_cons_self
      refine ⟨by omega, fun heq => absurd heq (by omega), fun hall => ?_⟩
      have hkept := hall a hmem
      rw [ha] at hkept
      cases hkept
    | some c =>
      rw [kept_cons_some ha] at h
      cases k with
      | zero =>
        cases h
        refine ⟨Nat.le_refl _, fun _ e he => ?_, fun _ => rfl⟩
        rw [Nat.sub_self, take_zero] at he
        cases he
      | succ k =>
        rw [getElem?_cons_succ] at h
        obtain ⟨hle, hiff⟩ := ih h
        refine ⟨by omega, ?_⟩
        rw [show p - first = (p - (first + 1)) + 1 by omega, take_succ_cons,
          forall_mem_cons, ha, and_iff_right (show (some c).isSome from rfl), ← hiff]
        omega

theorem kept_take (h : (kept keep? l first)[k]? = some (p, b)) :
    kept keep? (l.take (p - first)) first = (kept keep? l first).take k := by
  induction l generalizing first k with
  | nil => cases h
  | cons a l ih =>
    have hle := (getElem_kept h).1
    cases ha : keep? a with
    | none =>
      rw [kept_cons_none ha] at h ⊢
      have hlater := (getElem_kept h).1
      rw [show p - first = (p - (first + 1)) + 1 by omega, take_succ_cons, kept_cons_none ha]
      exact ih h
    | some c =>
      rw [kept_cons_some ha] at h ⊢
      cases k with
      | zero =>
        cases h
        rw [Nat.sub_self]
        rfl
      | succ k =>
        rw [getElem?_cons_succ] at h
        rw [show p - first = (p - (first + 1)) + 1 by omega, take_succ_cons, kept_cons_some ha,
          take_succ_cons, ih h]

end Kept

-- ==== what is reported

section Reports

variable (report : Nat → ε → ω) (position : γ → Nat) (error? : γ → Option ε) (log : List γ)

def byNumber (first : Nat) : List ω :=
  (log.zipIdx first).filterMap fun e => (error? e.1).map (report e.2)

def byPosition : List ω :=
  log.filterMap fun e => (error? e).map (report (position e))

variable {report position error?}

theorem byNumber_cons (entry : γ) (log : List γ) (first : Nat) :
    byNumber report error? (entry :: log) first
      = ((error? entry).map (report first)).toList ++ byNumber report error? log (first + 1) := by
  unfold byNumber
  rw [zipIdx_cons, filterMap_cons]
  cases error? entry <;> rfl

theorem byPosition_cons (entry : γ) (log : List γ) :
    byPosition report position error? (entry :: log)
      = ((error? entry).map (report (position entry))).toList
        ++ byPosition report position error? log := by
  unfold byPosition
  rw [filterMap_cons]
  cases error? entry <;> rfl

theorem mem_byNumber {log : List γ} {first : Nat} {w : ω}
    (h : w ∈ byNumber report error? log first) :
    ∃ k entry e, log[k]? = some entry ∧ error? entry = some e ∧ w = report (first + k) e := by
  obtain ⟨⟨entry, i⟩, hentry, hreport⟩ := mem_filterMap.1 h
  obtain ⟨e, he, rfl⟩ := Option.map_eq_some_iff.1 hreport
  obtain ⟨hle, -, hget⟩ := mem_zipIdx hentry
  refine ⟨i - first, entry, e, ?_, he, ?_⟩
  · rw [hget]
    exact getElem?_eq_getElem _
  · rw [Nat.add_sub_of_le hle]

/-- The numbers of the errors are the positions exactly where every entry with
an error has its position as its number. -/
theorem byNumber_eq_byPosition_iff
    (hreport : ∀ i j e, report i e = report j e → i = j) (log : List γ) (first : Nat) :
    byNumber report error? log first = byPosition report position error? log
      ↔ ∀ k entry, log[k]? = some entry → (error? entry).isSome → position entry = first + k := by
  induction log generalizing first with
  | nil =>
    refine ⟨fun _ k entry h => ?_, fun _ => rfl⟩
    cases h
  | cons head log ih =>
    rw [byNumber_cons, byPosition_cons]
    have hlength : ((error? head).map (report first)).toList.length
        = ((error? head).map (report (position head))).toList.length := by
      cases error? head <;> rfl
    constructor
    · intro h k entry hentry hfails
      obtain ⟨hhead, hlog⟩ := append_inj h hlength
      cases k with
      | zero =>
        cases hentry
        obtain ⟨e, he⟩ := Option.isSome_iff_exists.1 hfails
        rw [he] at hhead
        exact (hreport _ _ e (List.cons.inj hhead).1).symm
      | succ k =>
        rw [(ih (first + 1)).1 hlog k entry hentry hfails]
        omega
    · intro h
      have hlog := (ih (first + 1)).2 fun k entry hentry hfails => by
        rw [h (k + 1) entry hentry hfails]
        omega
      rw [hlog]
      cases he : error? head with
      | none => rfl
      | some e =>
        rw [h 0 head rfl (by rw [he]; rfl)]
        rfl

end Reports

end Numbered
