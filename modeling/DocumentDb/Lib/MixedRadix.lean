/-
The product of some lists, counted through in a mixed radix.

A number names one element of each list: its remainder by the length of the
first list, then the quotient goes on with the next one (`pick`). The numbers
below the product of the lengths name every choice (`exists_pick`).
-/
import Mathlib.Algebra.BigOperators.Group.List.Basic

namespace MixedRadix

open List Nat

variable {α : Type*}

def pick (i : Nat) : List (List α) → List (Option α)
  | [] => []
  | xs :: rest => xs[i % xs.length]? :: pick (i / xs.length) rest

theorem exists_pick {lists : List (List α)} {choice : List α}
    (h : List.Forall₂ (fun x xs => x ∈ xs) choice lists) :
    ∃ i < (lists.map List.length).prod, pick i lists = choice.map some := by
  induction h with
  | nil => exact ⟨0, Nat.zero_lt_one, rfl⟩
  | @cons x xs choice lists hx _ ih =>
    obtain ⟨j, hj, hpick⟩ := ih
    obtain ⟨k, hk, hxk⟩ := getElem_of_mem hx
    have hpos : 0 < xs.length := zero_lt_of_lt hk
    refine ⟨k + xs.length * j, ?_, ?_⟩
    · rw [map_cons, prod_cons]
      calc k + xs.length * j < xs.length + xs.length * j := by omega
        _ = xs.length * (j + 1) := by rw [mul_succ, Nat.add_comm]
        _ ≤ xs.length * (lists.map length).prod :=
          Nat.mul_le_mul_left _ hj
    · rw [pick, add_mul_mod_self_left, mod_eq_of_lt hk, add_mul_div_left _ _ hpos,
        div_eq_of_lt hk, Nat.zero_add, hpick, map_cons, getElem?_eq_getElem hk, hxk]

end MixedRadix
