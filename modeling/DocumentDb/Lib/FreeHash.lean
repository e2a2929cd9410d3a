/-
Hashing a structure with functions nothing is known about.

A hash of nested data is built from a function on the leaves, one that combines two hashes
and a start value. `Term` is the computation itself, and `eval` runs it. Two terms have
equal hashes for all functions only if they are the same, also when hashes have a fixed
width, as long as there is a hash for every subterm (`eq_of_eval`): let the functions
compute names of the subterms.
-/
import Mathlib.Data.List.Nodup
import Mathlib.Tactic.Ring

namespace FreeHash

open List

structure Hasher (α H : Type*) where
  leaf : α → H
  combine : H → H → H
  init : H

/-- A hash computation. -/
inductive Term (α : Type*) where
  | init
  | leaf (a : α)
  | combine (left right : Term α)
  deriving DecidableEq

namespace Term

variable {α H : Type*}

def hasher : Hasher α (Term α) where
  leaf := leaf
  combine := combine
  init := init

def eval (F : Hasher α H) : Term α → H
  | init => F.init
  | leaf a => F.leaf a
  | combine l r => F.combine (l.eval F) (r.eval F)

def subterms : Term α → List (Term α)
  | init => [init]
  | leaf a => [leaf a]
  | combine l r => combine l r :: (l.subterms ++ r.subterms)

def size : Term α → Nat
  | init => 1
  | leaf _ => 1
  | combine l r => 1 + l.size + r.size

theorem length_subterms (t : Term α) : t.subterms.length = t.size := by
  induction t with
  | init | leaf a => rfl
  | combine l r ihl ihr =>
    simp only [subterms, length_cons, length_append, ihl, ihr, size]
    ring

theorem mem_subterms_self (t : Term α) : t ∈ t.subterms := by
  cases t <;> simp [subterms]

-- ==== chains

/-- The computation that takes a list of leaves in, one after the other. -/
def chain (l : List α) : Term α := l.foldl (fun t a => combine t (leaf a)) init

theorem size_foldl (l : List α) (t : Term α) :
    (l.foldl (fun t a => combine t (leaf a)) t).size = t.size + 2 * l.length := by
  induction l generalizing t with
  | nil => rfl
  | cons a l ih =>
    rw [foldl_cons, ih, size, size, length_cons]
    omega

def links : Term α → List α
  | combine t (leaf a) => a :: t.links
  | _ => []

theorem links_foldl (l : List α) (t : Term α) :
    (l.foldl (fun t a => combine t (leaf a)) t).links = l.reverse ++ t.links := by
  induction l generalizing t with
  | nil => rfl
  | cons a l ih =>
    rw [foldl_cons, ih, links, reverse_cons, append_assoc]
    rfl

theorem chain_injective : Function.Injective (chain : List α → Term α) := by
  intro l l' h
  have := congrArg links h
  simpa [chain, links_foldl] using this

-- ==== naming

variable [DecidableEq α] (ts : List (Term α))

/-- The name of a subterm in a list: zero for the start value, the position
counted from one otherwise. -/
def name (t : Term α) : Nat := if t = init then 0 else ts.idxOf t + 1

def ofName (n : Nat) : Term α := if n = 0 then init else ts.getD (n - 1) init

theorem ofName_name {ts : List (Term α)} {t : Term α} (ht : t ∈ ts) :
    ofName ts (name ts t) = t := by
  unfold ofName name
  by_cases hi : t = init
  · simp [hi]
  · have hlt : ts.idxOf t < ts.length := idxOf_lt_length_of_mem ht
    simp [hi, hlt]

theorem name_le (t : Term α) : name ts t ≤ ts.length + 1 := by
  unfold name
  split_ifs
  · omega
  · have := idxOf_le_length (l := ts) (a := t)
    omega

/-- The functions that compute names, with names as 64-bit numbers. -/
def naming : Hasher α UInt64 where
  leaf a := UInt64.ofNat (name ts (leaf a))
  combine x y := UInt64.ofNat (name ts (combine (ofName ts x.toNat) (ofName ts y.toNat)))
  init := 0

theorem eval_naming {ts : List (Term α)} (hts : ts.length + 1 < 2 ^ 64)
    (t : Term α) (ht : t.subterms ⊆ ts) : t.eval (naming ts) = UInt64.ofNat (name ts t) := by
  induction t with
  | init => simp [eval, naming, name]
  | leaf a => rfl
  | combine l r ihl ihr =>
    simp only [subterms, cons_subset, append_subset] at ht
    have hl : l ∈ ts := ht.2.1 (mem_subterms_self l)
    have hr : r ∈ ts := ht.2.2 (mem_subterms_self r)
    have hnat : ∀ s : Term α, (UInt64.ofNat (name ts s)).toNat = name ts s := by
      intro s
      have := name_le ts s
      rw [UInt64.toNat_ofNat']
      exact Nat.mod_eq_of_lt (by omega)
    rw [eval, ihl ht.2.1, ihr ht.2.2]
    simp only [naming, hnat, ofName_name hl, ofName_name hr]

theorem eq_of_eval {s t : Term α} (hs : s.size + t.size + 1 < 2 ^ 64)
    (h : ∀ F : Hasher α UInt64, F.init = 0 → s.eval F = t.eval F) : s = t := by
  set ts := s.subterms ++ t.subterms with hdef
  have hlen : ts.length + 1 < 2 ^ 64 := by
    rw [hdef, length_append, length_subterms, length_subterms]
    exact hs
  have hsub : s.subterms ⊆ ts := subset_append_left _ _
  have htsub : t.subterms ⊆ ts := subset_append_right _ _
  have hev := h (naming ts) rfl
  rw [eval_naming hlen s hsub, eval_naming hlen t htsub] at hev
  have hname : name ts s = name ts t := by
    have h₁ := name_le ts s
    have h₂ := name_le ts t
    have := congrArg UInt64.toNat hev
    rw [UInt64.toNat_ofNat', UInt64.toNat_ofNat'] at this
    omega
  rw [← ofName_name (hsub (mem_subterms_self s)), hname, ofName_name (htsub (mem_subterms_self t))]

theorem eq_of_foldl {l l' : List α} (hlen : 2 * (l.length + l'.length) + 3 < 2 ^ 64)
    (h : ∀ step : UInt64 → α → UInt64, l.foldl step 0 = l'.foldl step 0) : l = l' := by
  have heval : ∀ (F : Hasher α UInt64) (l : List α) (t : Term α),
      (l.foldl (fun t a => combine t (leaf a)) t).eval F
        = l.foldl (fun s a => F.combine s (F.leaf a)) (t.eval F) := by
    intro F l
    induction l with
    | nil => exact fun _ => rfl
    | cons a l ih => exact fun t => ih _
  refine chain_injective (eq_of_eval ?_ fun F hF => ?_)
  · rw [chain, chain, size_foldl, size_foldl]
    simp only [size]
    omega
  · rw [chain, chain, heval, heval, eval, hF]
    exact h _

end Term

end FreeHash
