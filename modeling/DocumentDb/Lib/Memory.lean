/-
Copies into and out of a buffer of a fixed length.

A copy that would leave the buffer has no result. What is read back after a copy
is what was copied where it was copied to, and what was there before elsewhere.
-/
import Mathlib.Data.List.Basic

namespace Memory

open List

variable {α : Type*}

def load (m : List α) (pos n : Nat) : Option (List α) :=
  if pos + n ≤ m.length then some ((m.drop pos).take n) else none

def store (m : List α) (pos : Nat) (data : List α) : Option (List α) :=
  if pos + data.length ≤ m.length then
    some (m.take pos ++ data ++ m.drop (pos + data.length))
  else none

variable {m m' data : List α} {pos n : Nat}

theorem load_of_le (h : pos + n ≤ m.length) : load m pos n = some ((m.drop pos).take n) := by
  rw [load, if_pos h]

theorem le_of_load (h : load m pos n = some data) : pos + n ≤ m.length := by
  unfold load at h
  split at h
  · assumption
  · cases h

theorem load_zero (h : n ≤ m.length) : load m 0 n = some (m.take n) :=
  load_of_le (by rwa [Nat.zero_add])

theorem exists_store (h : pos + data.length ≤ m.length) : ∃ m', store m pos data = some m' := by
  rw [store, if_pos h]
  exact ⟨_, rfl⟩

theorem store_eq (h : store m pos data = some m') :
    pos + data.length ≤ m.length ∧ m' = m.take pos ++ data ++ m.drop (pos + data.length) := by
  unfold store at h
  split at h
  · exact ⟨by assumption, (Option.some.inj h).symm⟩
  · cases h

theorem length_store (h : store m pos data = some m') : m'.length = m.length := by
  obtain ⟨hle, rfl⟩ := store_eq h
  simp only [length_append, length_take, length_drop]
  omega

theorem take_store (h : store m pos data = some m') :
    m'.take (pos + data.length) = m.take pos ++ data := by
  obtain ⟨hle, rfl⟩ := store_eq h
  rw [take_append_of_le_length, take_of_length_le]
  all_goals
    simp only [length_append, length_take]
    omega

end Memory
