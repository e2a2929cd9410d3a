/-
A list of operations, each in a sub-transaction of its own.

A failed operation leaves the state alone, apart from a note of the error; an ordered run
ends there (`run`). Several operations can share one sub-transaction, which fails as a whole
(`batch`): where it succeeds it does what the run would do (`run_append_of_batch`).

What a run is for says `oneByOne`: the outcome of each operation and the state at the end. A
run that keeps a record ends there, with the record of the outcomes (`run_eq_oneByOne`).
-/
import Mathlib.Data.List.Basic

namespace SubTransaction

open List

variable {α σ ε : Type*} (exec : Nat → α → σ → Except ε σ) (note : Nat → ε → σ → σ)

/-- The operations one by one, numbered from an index on. -/
def run (ordered : Bool) : List α → Nat → σ → σ
  | [], _, s => s
  | a :: as, i, s =>
    match exec i a s with
    | .ok s' => run ordered as (i + 1) s'
    | .error e =>
      if ordered then note i e s else run ordered as (i + 1) (note i e s)

def batch : List α → Nat → σ → Except ε σ
  | [], _, s => .ok s
  | a :: as, i, s =>
    match exec i a s with
    | .ok s' => batch as (i + 1) s'
    | .error e => .error e

variable {exec note}

variable {as : List α} {i : Nat} {ordered : Bool} {s s' : σ}

theorem run_cons_of_ok {a : α} (h : exec i a s = .ok s') :
    run exec note ordered (a :: as) i s = run exec note ordered as (i + 1) s' := by
  rw [run, h]

theorem run_cons_of_error {a : α} {e : ε} (h : exec i a s = .error e) :
    run exec note ordered (a :: as) i s = if ordered then note i e s
        else run exec note ordered as (i + 1) (note i e s) := by
  rw [run, h]

theorem run_append_of_batch (bs : List α) (h : batch exec as i s = .ok s') :
    run exec note ordered (as ++ bs) i s = run exec note ordered bs (i + as.length) s' := by
  induction as generalizing i s with
  | nil =>
    cases h
    rfl
  | cons a as ih =>
    unfold batch at h
    rw [cons_append, run]
    cases hexec : exec i a s with
    | ok s₁ =>
      rw [hexec] at h
      rw [length_cons, Nat.add_comm as.length, ← Nat.add_assoc]
      exact ih h
    | error e =>
      rw [hexec] at h
      cases h

theorem run_drop_of_batch {n : Nat} (h : batch exec ((as.drop i).take n) i s = .ok s') :
    run exec note ordered (as.drop i) i s
      = run exec note ordered (as.drop (i + ((as.drop i).take n).length))
          (i + ((as.drop i).take n).length) s' := by
  have hparts : (as.drop i).take n ++ (as.drop i).drop ((as.drop i).take n).length = as.drop i := by
    rw [length_take]
    rcases Nat.le_total n (as.drop i).length with h | h
    · rw [Nat.min_eq_left h, take_append_drop]
    · rw [Nat.min_eq_right h, drop_length, take_of_length_le h, append_nil]
  rw [← drop_drop, ← run_append_of_batch _ h, hparts]

-- ==== the outcomes

section Outcomes

variable {ρ β : Type*} (op : α → σ → Except ε (ρ × σ))

/-- The outcomes of the operations done one by one, and the state that they leave. A failed
operation leaves the state alone, and is the last one if they are ordered. -/
def oneByOne (ordered : Bool) : List α → σ → List (Except ε ρ) × σ
  | [], s => ([], s)
  | a :: as, s =>
    match op a s with
    | .ok (r, s') =>
      let rest := oneByOne ordered as s'
      (.ok r :: rest.1, rest.2)
    | .error e =>
      if ordered then ([.error e], s)
      else
        let rest := oneByOne ordered as s
        (.error e :: rest.1, rest.2)

variable {op} {exec : Nat → α → σ × β → Except ε (σ × β)} {note : Nat → ε → σ × β → σ × β}
  {record : β → Except ε ρ × Nat → β}

/-- A run that records every outcome ends with the record of the outcomes. -/
theorem run_eq_oneByOne
    (hexec : ∀ i a s b, exec i a (s, b) = (op a s).map fun r => (r.2, record b (.ok r.1, i)))
    (hnote : ∀ i e s b, note i e (s, b) = (s, record b (.error e, i)))
    (ordered : Bool) (as : List α) (i : Nat) (s : σ) (b : β) : run exec note ordered as i (s, b)
      = ((oneByOne op ordered as s).2,
          ((oneByOne op ordered as s).1.zipIdx i).foldl record b) := by
  induction as generalizing i s b with
  | nil => rfl
  | cons a as ih =>
    rw [run, hexec, oneByOne]
    cases op a s with
    | ok r => exact ih (i + 1) r.2 (record b (.ok r.1, i))
    | error e =>
      simp only [Except.map, hnote]
      cases ordered with
      | true => rfl
      | false => exact ih (i + 1) s (record b (.error e, i))

end Outcomes

-- ==== loops that try batches

/-- How many passes a loop over operations can still make from an index, the last one
apart: a failed batch costs a pass and leaves the index. -/
def passes (length index : Nat) (failed : Bool) : Nat :=
  2 * (length - index) + if failed then 0 else 1

variable {length index index' : Nat} {failed failed' : Bool}

theorem passes_of_index_lt (hlt : index < length) (h : index < index') :
    passes length index' failed' < passes length index failed := by
  unfold passes
  split <;> omega

theorem passes_of_failed (h : failed = false) (hindex : index' = index) (h' : failed') :
    passes length index' failed' < passes length index failed := by
  simp [passes, hindex, h, h']

end SubTransaction
