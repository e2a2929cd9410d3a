/-
Runs of a machine whose actions are not always possible.

A run does a list of actions one after the other, if all of them are possible. What
every step keeps holds in the end (`invariant`). What holds in the end and not in
the beginning has come about in one of the steps and held since then
(`exists_last_step`). A condition on the steps themselves is asked of each in the
state that it is taken in (`Allowed`).
-/
import Mathlib.Data.List.Induction
import Mathlib.Data.Option.Basic

namespace Runs

open List Option

variable {α σ : Type*} (step : α → σ → Option σ)

def run : List α → σ → Option σ
  | [], s => some s
  | a :: as, s => (step a s).bind (run as)

variable {step} {s s' : σ}

theorem run_cons {a : α} (hstep : step a s = some s') (as : List α) :
    run step (a :: as) s = run step as s' := by
  show (step a s).bind (run step as) = _
  rw [hstep]
  rfl

theorem run_append (before after : List α) (s : σ) :
    run step (before ++ after) s = (run step before s).bind (run step after) := by
  induction before generalizing s with
  | nil => rfl
  | cons a before ih =>
    show (step a s).bind (run step (before ++ after)) = _
    rw [funext ih]
    exact (bind_assoc _ _ _).symm

theorem of_run_append {before after : List α} (hrun : run step (before ++ after) s = some s') :
    ∃ t, run step before s = some t ∧ run step after t = some s' := by
  rw [run_append] at hrun
  exact bind_eq_some_iff.1 hrun

variable {P : σ → Prop} {as : List α}

theorem invariant {Q : α → Prop} (hP : ∀ {a t t'}, Q a → P t → step a t = some t' → P t')
    (hQ : ∀ a ∈ as, Q a) (hrun : run step as s = some s') (hs : P s) : P s' := by
  induction as generalizing s with
  | nil =>
    cases hrun
    exact hs
  | cons a as ih =>
    obtain ⟨t, hstep, hrest⟩ := bind_eq_some_iff.1 hrun
    obtain ⟨ha, has⟩ := forall_mem_cons.1 hQ
    exact ih has hrest (hP ha hs hstep)

/-- Every step of a run is taken in a state in which a condition allows it. -/
def Allowed (step : α → σ → Option σ) (Q : α → σ → Prop) : List α → σ → Prop
  | [], _ => True
  | a :: as, s => Q a s ∧ ∀ s', step a s = some s' → Allowed step Q as s'

theorem Allowed.cons {Q : α → σ → Prop} {a : α} (ha : Q a s) (hstep : step a s = some s')
    (h : Allowed step Q as s') : Allowed step Q (a :: as) s := by
  refine ⟨ha, fun t ht => ?_⟩
  rw [hstep] at ht
  cases ht
  exact h

/-- What the allowed steps keep holds at the end of a run of allowed steps. -/
theorem Allowed.invariant {Q : α → σ → Prop} (h : Allowed step Q as s)
    (hP : ∀ {a t t'}, Q a t → P t → step a t = some t' → P t')
    (hrun : run step as s = some s') (hs : P s) : P s' := by
  induction as generalizing s with
  | nil =>
    cases hrun
    exact hs
  | cons a as ih =>
    obtain ⟨t, hstep, hrest⟩ := bind_eq_some_iff.1 hrun
    exact ih (h.2 t hstep) hrest (hP h.1 hs hstep)

/-- Every step of a run starts and ends where a property holds. -/
def Throughout (step : α → σ → Option σ) (P : σ → Prop) (as : List α) (s : σ) : Prop :=
  ∀ first a rest t t', as = first ++ a :: rest → run step first s = some t →
    step a t = some t' → P t ∧ P t'

theorem Throughout.concat {b : α} {t : σ}
    (h : Throughout step P as s) (hrun : run step as s = some t)
    (hb : step b t = some s') (ht : P t) (hs' : P s') : Throughout step P (as ++ [b]) s := by
  intro first a rest u u' heq hfirst ha
  rcases eq_nil_or_concat rest with rfl | ⟨rest', c, rfl⟩
  · obtain ⟨rfl, hlast⟩ := append_inj' heq rfl
    obtain rfl := head_eq_of_cons_eq hlast
    cases hrun.symm.trans hfirst
    cases hb.symm.trans ha
    exact ⟨ht, hs'⟩
  · rw [concat_eq_append, ← cons_append, ← append_assoc] at heq
    obtain ⟨rfl, -⟩ := append_inj' heq rfl
    exact h first a rest' u u' rfl hfirst ha

theorem exists_last_step (hrun : run step as s = some s') (hs : ¬ P s) (hs' : P s') :
    ∃ before a after t t', as = before ++ a :: after
      ∧ run step before s = some t ∧ step a t = some t' ∧ ¬ P t ∧ P t'
      ∧ run step after t' = some s' ∧ Throughout step P after t' := by
  induction as using reverseRecOn generalizing s' with
  | nil =>
    cases hrun
    exact absurd hs' hs
  | append_singleton as b ih =>
    obtain ⟨t, hrun, hlast⟩ := of_run_append hrun
    have hb : step b t = some s' := by
      obtain ⟨u, hu, hnil⟩ := bind_eq_some_iff.1 hlast
      rw [hu]
      exact hnil
    by_cases ht : P t
    · obtain ⟨before, a, after, u, u', rfl, hbefore, ha, hu, hu', hafter, hthrough⟩ := ih hrun ht
      refine ⟨before, a, after ++ [b], u, u', ?_, hbefore, ha, hu, hu', ?_, ?_⟩
      · rw [append_assoc, cons_append]
      · rw [run_append, hafter]
        exact hlast
      · exact hthrough.concat hafter hb ht hs'
    · refine ⟨as, b, [], t, s', rfl, hrun, hb, ht, hs', rfl, ?_⟩
      intro first a rest u u' heq
      cases append_ne_nil_of_right_ne_nil first (cons_ne_nil a rest) heq.symm

end Runs
