/-
Sessions that act on a shared state.

Each session is at a stage of its own. An action of a session reads and changes the
shared state and its own stage, and no other stage. So what an action does is said
of the two alone, and holds of every interleaving: a quantity of the shared state
and the stages that each action changes by what it gains and loses is, at the end of
a run, changed by the totals (`run_balance`).
-/
import DocumentDb.Lib.Runs
import Mathlib.Algebra.BigOperators.Group.Finset.Piecewise
import Mathlib.Data.Fintype.Basic

namespace Sessions

variable {ι α σ τ : Type*}

structure State (ι σ τ : Type*) where
  shared : σ
  stages : ι → τ

variable [DecidableEq ι] (act : α → σ → τ → Option (σ × τ))

def step (e : ι × α) (s : State ι σ τ) : Option (State ι σ τ) :=
  (act e.2 s.shared (s.stages e.1)).map fun next =>
    ⟨next.1, Function.update s.stages e.1 next.2⟩

variable {act} {s s' : State ι σ τ} {i : ι} {value : σ → Int} {weight : τ → Int}

theorem of_step {a : α} (h : step act (i, a) s = some s') :
    ∃ shared stage, act a s.shared (s.stages i) = some (shared, stage)
      ∧ s' = ⟨shared, Function.update s.stages i stage⟩ := by
  obtain ⟨⟨shared, stage⟩, hact, rfl⟩ := Option.map_eq_some_iff.1 h
  exact ⟨shared, stage, hact, rfl⟩

theorem stages_self (shared : σ) (stages : ι → τ) (stage : τ) :
    (State.mk shared (Function.update stages i stage)).stages i = stage :=
  Function.update_self i stage stages

def total (act : α → σ → τ → Option (σ × τ)) (cost : α → σ → τ → Nat) :
    List (ι × α) → State ι σ τ → Nat
  | [], _ => 0
  | e :: es, s =>
    cost e.2 s.shared (s.stages e.1) + match step act e s with
        | none => 0
        | some s' => total act cost es s'

theorem total_cons {cost : α → σ → τ → Nat} {e : ι × α}
    (h : step act e s = some s') (es : List (ι × α)) :
    total act cost (e :: es) s = cost e.2 s.shared (s.stages e.1) + total act cost es s' := by
  conv_lhs => unfold total
  rw [h]

variable [Fintype ι]

def balance (value : σ → Int) (weight : τ → Int) (s : State ι σ τ) : Int :=
  value s.shared + ∑ i, weight (s.stages i)

theorem step_balance {change : Int} {shared : σ} {stage : τ}
    (h : value shared + weight stage = value s.shared + weight (s.stages i) + change) :
    balance value weight ⟨shared, Function.update s.stages i stage⟩
      = balance value weight s + change := by
  have hweights : (fun j => weight (Function.update s.stages i stage j))
      = Function.update (fun j => weight (s.stages j)) i (weight stage) :=
    Function.comp_update weight s.stages i stage
  have hsum := Finset.sum_update_of_mem (Finset.mem_univ i)
    (fun j => weight (s.stages j)) (weight stage)
  have hrest := Finset.add_sum_erase Finset.univ (fun j => weight (s.stages j)) (Finset.mem_univ i)
  rw [← hweights, Finset.sdiff_singleton_eq_erase] at hsum
  dsimp only at hsum
  show value shared + ∑ j, weight (Function.update s.stages i stage j) = _
  unfold balance
  omega

theorem run_balance {gain loss : α → σ → τ → Nat}
    (h : ∀ {a shared stage shared' stage'}, act a shared stage = some (shared', stage') →
      value shared' + weight stage' = value shared + weight stage
        + (gain a shared stage - loss a shared stage))
    {es : List (ι × α)} (hrun : Runs.run (step act) es s = some s') :
    balance value weight s' = balance value weight s
      + (total act gain es s - total act loss es s) := by
  induction es generalizing s with
  | nil =>
    cases hrun
    show _ = _ + (((0 : Nat) : Int) - ((0 : Nat) : Int))
    omega
  | cons e es ih =>
    obtain ⟨t, hstep, hrest⟩ := Option.bind_eq_some_iff.1 hrun
    obtain ⟨i, a⟩ := e
    have htail := ih hrest
    rw [total_cons hstep, total_cons hstep]
    obtain ⟨shared, stage, hact, rfl⟩ := of_step hstep
    have hhead := step_balance (h hact)
    push_cast
    omega

end Sessions
