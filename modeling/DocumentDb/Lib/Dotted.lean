/-
Dotted paths.

A path is a list of letters, cut at a separator into segments. A walk over a
tree builds the path of where it is one segment at a time (`extend`) and
compares it with a fixed path as a string. The lemmas here say what that
tells about the segments, provided that no segment holds the separator or is
empty. Of joined texts, `AgreeUpTo` says when their first letters are the
same.
-/
import Mathlib.Data.List.TakeWhile

namespace Dotted

open List

variable {α : Type*}

section Segments

variable [DecidableEq α] (sep : α)

def segments (path : List α) : List (List α) := path.splitOn sep

def join (segs : List (List α)) : List α := [sep].intercalate segs

/-- A path with one segment more; the empty path stands for no segment. -/
def extend (base key : List α) : List α := if base = [] then key else base ++ sep :: key

-- ==== cutting a path

theorem join_segments (path : List α) : join sep (segments sep path) = path :=
  intercalate_splitOn sep

theorem segments_join {segs : List (List α)} (hne : segs ≠ [])
    (hsep : ∀ s ∈ segs, sep ∉ s) : segments sep (join sep segs) = segs :=
  splitOn_intercalate sep hsep hne

variable {path : List α}

theorem segments_of_notMem (h : sep ∉ path) : segments sep path = [path] := by
  refine splitOnP_eq_singleton fun x hx => ?_
  simpa using fun heq : x = sep => h (heq ▸ hx)

theorem split_of_mem (h : sep ∈ path) : path = path.takeWhile (· ≠ sep)
      ++ sep :: path.drop ((path.takeWhile (· ≠ sep)).length + 1) := by
  induction path with
  | nil => simp at h
  | cons x path ih =>
    by_cases hx : x = sep
    · simp [hx]
    · have hmem : sep ∈ path := by
        rcases mem_cons.1 h with heq | hmem
        · exact absurd heq.symm hx
        · exact hmem
      simpa [hx] using ih hmem

theorem segments_of_mem (h : sep ∈ path) : segments sep path = path.takeWhile (· ≠ sep)
        :: segments sep (path.drop ((path.takeWhile (· ≠ sep)).length + 1)) := by
  have hfirst : ∀ x ∈ path.takeWhile (· ≠ sep), (x == sep) = false := by
    intro x hx
    simpa using mem_takeWhile_imp hx
  calc segments sep path = segments sep (path.takeWhile (· ≠ sep)
          ++ sep :: path.drop ((path.takeWhile (· ≠ sep)).length + 1)) := by
        rw [← split_of_mem sep h]
    _ = _ := splitOnP_append_cons_of_forall_mem hfirst sep (by simp) _

end Segments

-- ==== building a path

section Join

variable {sep : α}

variable {segs : List (List α)}

theorem join_ne_nil (hne : segs ≠ []) (hseg : ∀ s ∈ segs, s ≠ []) : join sep segs ≠ [] := by
  cases segs with
  | nil => exact absurd rfl hne
  | cons s segs =>
    have hs := hseg s (by simp)
    cases segs with
    | nil => simpa [join] using hs
    | cons t segs => simp [join, intercalate_cons_cons]

theorem mem_join {x : α} (h : x ∈ join sep segs) : x = sep ∨ ∃ s ∈ segs, x ∈ s := by
  induction segs with
  | nil => simp [join] at h
  | cons s segs ih =>
    cases segs with
    | nil => exact Or.inr ⟨s, by simp, by simpa [join] using h⟩
    | cons t segs =>
      rw [join, intercalate_cons_cons, mem_append, mem_append, mem_singleton] at h
      rcases h with (h | h) | h
      · exact Or.inr ⟨s, by simp, h⟩
      · exact Or.inl h
      · rcases ih h with h | ⟨s', hs', h⟩
        · exact Or.inl h
        · exact Or.inr ⟨s', by simp [hs'], h⟩

theorem join_append_singleton (hne : segs ≠ []) (key : List α) :
    join sep (segs ++ [key]) = join sep segs ++ sep :: key := by
  induction segs with
  | nil => exact absurd rfl hne
  | cons s segs ih =>
    cases segs with
    | nil => simp [join]
    | cons t segs =>
      have := ih (by simp)
      simp only [join, cons_append] at this ⊢
      rw [intercalate_cons_cons, this, intercalate_cons_cons]
      simp

theorem extend_join [DecidableEq α] (hseg : ∀ s ∈ segs, s ≠ []) (key : List α) :
    extend sep (join sep segs) key = join sep (segs ++ [key]) := by
  unfold extend
  split_ifs with hnil
  · have : segs = [] := by
      by_contra hne
      exact join_ne_nil hne hseg hnil
    subst this
    simp [join]
  · rw [join_append_singleton]
    rintro rfl
    exact hnil rfl

theorem join_isPrefix (segs rest : List (List α)) : join sep segs <+: join sep (segs ++ rest) := by
  induction segs with
  | nil => exact nil_prefix
  | cons s segs ih =>
    cases segs with
    | nil =>
      cases rest with
      | nil => exact prefix_rfl
      | cons t rest =>
        refine ⟨sep :: join sep (t :: rest), ?_⟩
        simp [join, intercalate_cons_cons]
    | cons t segs =>
      obtain ⟨tail, htail⟩ := ih
      refine ⟨tail, ?_⟩
      simp only [join, cons_append] at htail ⊢
      rw [intercalate_cons_cons, intercalate_cons_cons, ← htail]
      simp

end Join

-- ==== comparing the starts of joined texts

/-- Two sequences of texts agree, joined with separators, in their first `n` letters: text by
text, where a separator of the one may stand in a text of the other. -/
inductive AgreeUpTo (sep : α) : Nat → List (List α) → List (List α) → Prop
  /-- The letters end within two texts. -/
  | cut {n p q ps qs} (hp : n ≤ p.length) (hq : n ≤ q.length) (h : p.take n = q.take n) :
      AgreeUpTo sep n (p :: ps) (q :: qs)
  | last {n p} : AgreeUpTo sep n [p] [p]
  | next {n p ps qs} (h : AgreeUpTo sep n ps qs) :
      AgreeUpTo sep (p.length + 1 + n) (p :: ps) (p :: qs)
  | sepLeft {n p q ps qs} (h : AgreeUpTo sep n ps (q :: qs)) :
      AgreeUpTo sep (p.length + 1 + n) (p :: ps) ((p ++ sep :: q) :: qs)
  | sepRight {n p q ps qs} (h : AgreeUpTo sep n (q :: ps) qs) :
      AgreeUpTo sep (p.length + 1 + n) ((p ++ sep :: q) :: ps) (p :: qs)

section Agree

variable {sep : α} {n : Nat} {p q : List α} {ps qs : List (List α)}

theorem join_cons (hne : ps ≠ []) : join sep (p :: ps) = p ++ sep :: join sep ps := by
  cases ps with
  | nil => exact absurd rfl hne
  | cons q ps => simp [join, intercalate_cons_cons]

/-- A text in front that ends at a separator. -/
theorem join_append_cons : join sep ((p ++ sep :: q) :: ps) = p ++ sep :: join sep (q :: ps) := by
  cases ps with
  | nil => simp [join]
  | cons r ps => simp [join, intercalate_cons_cons]

theorem AgreeUpTo.ne_nil (h : AgreeUpTo sep n ps qs) : ps ≠ [] ∧ qs ≠ [] := by
  cases h <;> exact ⟨cons_ne_nil _ _, cons_ne_nil _ _⟩

theorem take_join_cons (hn : n ≤ p.length) : (join sep (p :: ps)).take n = p.take n := by
  cases ps with
  | nil => simp [join]
  | cons q ps =>
    rw [join_cons (cons_ne_nil _ _)]
    exact take_append_of_le_length hn

theorem take_append_cons (t : List α) :
    (p ++ sep :: t).take (p.length + 1 + n) = p ++ sep :: t.take n := by
  rw [Nat.add_assoc, take_length_add_append, Nat.add_comm 1, take_succ_cons]

theorem AgreeUpTo.take_eq (h : AgreeUpTo sep n ps qs) :
    (join sep ps).take n = (join sep qs).take n := by
  induction h with
  | cut hp hq h => rw [take_join_cons hp, take_join_cons hq, h]
  | last => rfl
  | next h ih =>
    rw [join_cons h.ne_nil.1, join_cons h.ne_nil.2, take_append_cons, take_append_cons, ih]
  | sepLeft h ih => rw [join_cons h.ne_nil.1, join_append_cons, take_append_cons, take_append_cons, ih]
  | sepRight h ih =>
    rw [join_append_cons, join_cons h.ne_nil.2, take_append_cons, take_append_cons, ih]

theorem length_le_join : p.length ≤ (join sep (p :: ps)).length := by
  cases ps with
  | nil => simp [join]
  | cons q ps =>
    rw [join_cons (cons_ne_nil _ _), length_append]
    omega

/-- A shorter text that is followed by something within the letters is followed by a separator. -/
theorem of_take_eq_of_lt {m : Nat} (hlt : p.length < q.length) (hn : n = p.length + 1 + m)
    (h : (join sep (p :: ps)).take n = (join sep (q :: qs)).take n) :
    ps ≠ [] ∧ ∃ q', q = p ++ sep :: q'
      ∧ (join sep ps).take m = (join sep (q' :: qs)).take m := by
  have hps : ps ≠ [] := by
    rintro rfl
    have hlength := congrArg length h
    have hlong : q.length ≤ (join sep (q :: qs)).length := length_le_join
    have hshort : (join sep [p]).length = p.length := by simp [join]
    rw [length_take, length_take, hshort] at hlength
    omega
  refine ⟨hps, ?_⟩
  rw [hn, join_cons hps, take_append_cons] at h
  have hhead : q.take (p.length + 1) = p ++ [sep] := by
    have hboth := congrArg (take (p.length + 1)) h
    rw [take_take, Nat.min_eq_left (Nat.le_add_right _ _), take_join_cons hlt] at hboth
    rw [← hboth, take_length_add_append]
    rfl
  have hq : q = p ++ sep :: q.drop (p.length + 1) :=
    calc q = q.take (p.length + 1) ++ q.drop (p.length + 1) := (take_append_drop _ _).symm
      _ = p ++ sep :: q.drop (p.length + 1) := by rw [hhead, append_assoc, singleton_append]
  refine ⟨_, hq, ?_⟩
  rw [hq, join_append_cons, take_append_cons, append_cancel_left_eq, cons_inj_right] at h
  exact h

/-- A text that is the last one is not followed by a separator. -/
theorem take_join_single {m : Nat}
    (h : (join sep [p]).take (p.length + 1 + m) = (join sep (p :: qs)).take (p.length + 1 + m))
    (hqs : qs ≠ []) : False := by
  rw [join_cons hqs, take_append_cons] at h
  have hlength := congrArg length h
  have hshort : (join sep [p]).length = p.length := by simp [join]
  rw [length_take, hshort, length_append, length_cons] at hlength
  omega

theorem agreeUpTo_of_take_eq (hps : ps ≠ []) (hqs : qs ≠ [])
    (h : (join sep ps).take n = (join sep qs).take n) : AgreeUpTo sep n ps qs := by
  induction n using Nat.strong_induction_on generalizing ps qs with
  | _ n ih =>
    obtain ⟨p, ps, rfl⟩ := exists_cons_of_ne_nil hps
    obtain ⟨q, qs, rfl⟩ := exists_cons_of_ne_nil hqs
    by_cases hcut : n ≤ p.length ∧ n ≤ q.length
    · apply AgreeUpTo.cut hcut.1 hcut.2
      have hp : (join sep (p :: ps)).take n = p.take n := take_join_cons hcut.1
      rw [← hp, h, take_join_cons hcut.2]
    rcases Nat.lt_trichotomy p.length q.length with hlt | heq | hlt
    · obtain ⟨m, hm⟩ := Nat.exists_eq_add_of_le (show p.length + 1 ≤ n by omega)
      obtain ⟨hne, q', rfl, hrest⟩ := of_take_eq_of_lt hlt hm h
      rw [hm]
      exact .sepLeft (ih m (by omega) hne (cons_ne_nil _ _) hrest)
    · obtain ⟨m, rfl⟩ := Nat.exists_eq_add_of_le (show p.length + 1 ≤ n by omega)
      obtain rfl : p = q := by
        have hboth := congrArg (take p.length) h
        rwa [take_take, take_take, Nat.min_eq_left (by omega), take_join_cons (Nat.le_refl _),
          take_join_cons heq.le, take_length, heq, take_length] at hboth
      rcases eq_or_ne ps [] with rfl | hne
      · rcases eq_or_ne qs [] with rfl | hne'
        · exact .last
        · exact absurd (take_join_single h hne') id
      · rcases eq_or_ne qs [] with rfl | hne'
        · exact absurd (take_join_single h.symm hne) id
        · rw [join_cons hne, join_cons hne', take_append_cons, take_append_cons,
            append_cancel_left_eq, cons_inj_right] at h
          exact .next (ih m (by omega) hne hne' h)
    · obtain ⟨m, hm⟩ := Nat.exists_eq_add_of_le (show q.length + 1 ≤ n by omega)
      obtain ⟨hne, p', rfl, hrest⟩ := of_take_eq_of_lt hlt hm h.symm
      rw [hm]
      exact .sepRight (ih m (by omega) (cons_ne_nil _ _) hne hrest.symm)

/-- The first letters of two joined texts are the same exactly if the texts agree. -/
theorem agreeUpTo_iff (hps : ps ≠ []) (hqs : qs ≠ []) :
    AgreeUpTo sep n ps qs ↔ (join sep ps).take n = (join sep qs).take n :=
  ⟨AgreeUpTo.take_eq, agreeUpTo_of_take_eq hps hqs⟩

end Agree

end Dotted
