/-
Does the builder give back the locks of the collections?

A stage tells which lock the session has taken (`lockOf`). A transition takes a lock, gives
it back, or keeps it, with two exceptions: when the attempts of the picked request are used
up, or it is skippable, the call returns and the lock stays with the session. So the locks
that a session has besides that of its stage never decrease, and increase there
(`spare_step`).
-/
import DocumentDb.IndexBuild.Builder

namespace DocumentDb.IndexBuild

variable {ι : Type} {cfg : Settings} {i j : ι} {a : Action ι} {c : Nat}
  {shared shared' : Shared ι} {stage stage' : Stage ι}

-- ==== the lock of a stage

def Stage.lockOf : Stage ι → Option Nat
  | .pruneLocked _ request | .picked request | .building request | .built request =>
    some request.row.collectionId
  | .locked _ _ collectionId | .nothing _ _ collectionId | .failed collectionId =>
    some collectionId
  | .idle | .prune _ _ | .pruneFound _ _ _ | .pruneCommit _ _ | .list _ | .scan _ _
  | .committing _ | .ended => none

/-- How many times a stage needs the lock of a collection. -/
def Stage.keeps (stage : Stage ι) (c : Nat) : Nat := if stage.lockOf = some c then 1 else 0

theorem Stage.keeps_none (h : stage.lockOf = none) : stage.keeps c = 0 := by
  rw [Stage.keeps, h, if_neg nofun]

theorem Stage.keeps_some {c' : Nat} (h : stage.lockOf = some c') :
    stage.keeps c = if c = c' then 1 else 0 := by
  rw [Stage.keeps, h]
  by_cases hc : c = c'
  · rw [if_pos hc, if_pos (congrArg some hc.symm)]
  · rw [if_neg hc, if_neg fun heq => hc (Option.some.inj heq).symm]

/-- A request with which the call returns before the build. -/
def Abandoned (cfg : Settings) (request : IndexCmdRequest ι) : Prop :=
  cfg.maxIndexBuildAttempts ≤ request.row.attemptCount ∨ request.row.status = .skippable

instance (cfg : Settings) (request : IndexCmdRequest ι) : Decidable (Abandoned cfg request) :=
  inferInstanceAs (Decidable (_ ∨ _))

/-- How many times the lock of a collection is lost by an action. -/
def loses (cfg : Settings) : Action ι → Stage ι → Nat → Nat
  | .handle, .picked request, c =>
    if Abandoned cfg request ∧ request.row.collectionId = c then 1 else 0
  | _, _, _ => 0

theorem of_loses (h : loses cfg a stage c ≠ 0) :
    ∃ request, a = .handle ∧ stage = .picked request ∧ Abandoned cfg request
      ∧ request.row.collectionId = c := by
  unfold loses at h
  split at h
  · rename_i request
    refine ⟨request, rfl, rfl, ?_⟩
    by_contra hnot
    exact h (if_neg hnot)
  · exact absurd rfl h

-- ==== no change

variable [DecidableEq ι]

theorem held_congr (h : shared'.locks = shared.locks) (i : ι) (c : Nat) :
    held i c shared' = held i c shared := by
  unfold held
  rw [h]

theorem held_eq_zero_of_acquireLock (h : acquireLock i c shared = none) : held i c shared = 0 := by
  unfold acquireLock at h
  unfold held
  rcases Lock.cases i (shared.locks c) with ⟨hzero, -⟩ | ⟨more, hlock⟩
  · exact hzero
  · rw [hlock] at h
    dsimp only at h
    rw [if_pos rfl] at h
    cases h

-- ==== transitions

/-- The effect of a transition on the locks. -/
inductive LockEffect (cfg : Settings) (i : ι) (a : Action ι)
    (shared shared' : Shared ι) (stage stage' : Stage ι) : Prop
  | same (h : shared'.locks = shared.locks) (hstage : stage'.lockOf = stage.lockOf)
      (hloses : ∀ c, loses cfg a stage c = 0)
  | taken (c : Nat) (h : acquireLock i c shared = some shared')
      (hstage : stage.lockOf = none) (hstage' : stage'.lockOf = some c)
      (hloses : ∀ c, loses cfg a stage c = 0)
  | given (c : Nat) (h : shared' = releaseLock i c shared)
      (hstage : stage.lockOf = some c) (hstage' : stage'.lockOf = none)
      (hloses : ∀ c, loses cfg a stage c = 0)
  | notHeld (c : Nat) (h : shared' = releaseLock i c shared)
      (hfree : held i c shared = 0) (hstage : stage'.lockOf = stage.lockOf)
      (hloses : ∀ c, loses cfg a stage c = 0)
  | lost (request : IndexCmdRequest ι) (h : shared'.locks = shared.locks)
      (ha : a = .handle) (hstage : stage = .picked request)
      (habandoned : Abandoned cfg request) (hstage' : stage'.lockOf = none)
  | ended (h : shared'.locks = (releaseAll i shared).locks) (ha : a = .terminate)

theorem handleRequest_lockEffect (request : IndexCmdRequest ι) :
    LockEffect cfg i .handle shared (handleRequest cfg i request shared).1
      (.picked request) (handleRequest cfg i request shared).2 := by
  have hlocks : (handleRequest cfg i request shared).1.locks = shared.locks :=
    (handleRequest_sameRest request).locks
  by_cases habandoned : Abandoned cfg request
  · refine .lost request hlocks rfl rfl habandoned ?_
    unfold handleRequest
    split
    · rfl
    · rename_i hattempts
      rw [if_pos (habandoned.resolve_left hattempts)]
      rfl
  · refine .same hlocks ?_ fun c => if_neg fun h => habandoned h.1
    obtain ⟨hattempts, hstatus⟩ := not_or.1 habandoned
    unfold handleRequest
    rw [if_neg hattempts, if_neg hstatus]
    rfl

theorem Moves.lockEffect (h : Moves cfg i shared a stage shared' stage') :
    LockEffect cfg i a shared shared' stage stage' := by
  cases h with
  | lockToPrune h | lock h => exact .taken _ h rfl rfl fun _ => rfl
  | cannotPrune h =>
    exact .notHeld _ rfl (held_eq_zero_of_acquireLock h) rfl fun _ => rfl
  | unlockPruned | unlockNothing | unlockBuilt | unlockFailed =>
    exact .given _ rfl rfl rfl fun _ => rfl
  | @pick exclude collectionIds collectionId request h =>
    -- the request that was picked is one of the collection
    have hcollection : request.row.collectionId = collectionId :=
      (of_decide_eq_true (List.mem_filter.1 h).2).1
    exact .same rfl (congrArg some hcollection) fun _ => rfl
  | commitPruned => exact .same (removeRequest_sameRest _).locks rfl fun _ => rfl
  | handle => exact handleRequest_lockEffect _
  | fail => exact .same (recordFailure_sameRest _ _ _).locks rfl fun _ => rfl
  | commitBuilt =>
    exact .same (commitBuild_sameRest _).locks rfl fun _ => rfl
  | tick => exact .same rfl rfl fun _ => by cases stage <;> rfl
  | terminate => exact .ended rfl rfl
  | _ => exact .same rfl rfl fun _ => rfl

theorem LockEffect.held_other (h : LockEffect cfg i a shared shared' stage stage')
    (hne : j ≠ i) (c : Nat) : held j c shared' = held j c shared := by
  cases h with
  | same h | lost _ h => exact held_congr h j c
  | taken c' h => rw [held_acquireLock h, if_neg fun hboth => hne hboth.1, Nat.add_zero]
  | given c' h | notHeld c' h =>
    subst h
    rw [held_releaseLock, if_neg fun hboth => hne hboth.1, Nat.sub_zero]
  | ended h =>
    exact (held_congr h j c).trans (held_releaseAll hne)

theorem LockEffect.held_self (h : LockEffect cfg i a shared shared' stage stage')
    (ha : a ≠ .terminate) {n : Nat} (hheld : held i c shared = n + stage.keeps c) :
    held i c shared' = n + loses cfg a stage c + stage'.keeps c := by
  cases h with
  | same h hstage hloses =>
    have hkeeps : stage'.keeps c = stage.keeps c := by
      rw [Stage.keeps, Stage.keeps, hstage]
    rw [held_congr h, hheld, hkeeps, hloses, Nat.add_zero]
  | taken c' h hstage hstage' hloses =>
    have htaken := @held_acquireLock _ _ i i c' c _ _ h
    simp only [true_and] at htaken
    rw [htaken, hheld, Stage.keeps_none hstage, Stage.keeps_some hstage', hloses]
  | given c' h hstage hstage' hloses =>
    have hgiven := @held_releaseLock _ _ i i c' c shared
    simp only [true_and] at hgiven
    rw [h, hgiven, hheld, Stage.keeps_some hstage, Stage.keeps_none hstage', hloses]
    exact Nat.add_sub_cancel _ _
  | notHeld c' h hfree hstage hloses =>
    have hkeeps : stage'.keeps c = stage.keeps c := by
      rw [Stage.keeps, Stage.keeps, hstage]
    rw [h, held_releaseLock, hkeeps, hloses, Nat.add_zero, ← hheld]
    by_cases hc : c = c'
    · subst hc
      rw [hfree, Nat.zero_sub]
    · rw [if_neg fun hboth => hc hboth.2, Nat.sub_zero]
  | lost request h ha' hstage habandoned hstage' =>
    subst ha' hstage
    have hloses : loses cfg .handle (.picked request) c = (Stage.picked request).keeps c := by
      rw [Stage.keeps_some rfl]
      show (if _ ∧ _ then 1 else 0) = _
      by_cases hc : c = request.row.collectionId
      · rw [if_pos hc, if_pos ⟨habandoned, hc.symm⟩]
      · rw [if_neg hc, if_neg fun hboth => hc hboth.2.symm]
    rw [held_congr h, hheld, hloses, Stage.keeps_none hstage']
    rfl
  | ended h ha' => exact absurd ha' ha

-- ==== calls

section Calls

variable {s s' : Server ι}

/-- Besides the lock of its stage, the session has the lock a number of times. -/
def Spare (i : ι) (c n : Nat) (s : Server ι) : Prop := held i c s.shared = n + (s.stages i).keeps c

variable {n : Nat} {e : ι × Action ι} {events : List (ι × Action ι)}

theorem spare_step (h : Spare i c n s)
    (hstep : step cfg e s = some s') (halive : e ≠ (i, .terminate)) :
    Spare i c (n + if e.1 = i then loses cfg e.2 (s.stages i) c else 0) s' := by
  obtain ⟨j, a⟩ := e
  obtain ⟨shared, stage, hact, rfl⟩ := of_step hstep
  have heffect := (moves_of_act hact).lockEffect
  unfold Spare
  by_cases hj : j = i
  · subst hj
    rw [Sessions.stages_self, if_pos rfl]
    exact heffect.held_self (fun ha => halive (congrArg _ ha)) h
  · rw [if_neg hj, Nat.add_zero]
    show held i c shared = n + (Function.update s.stages j stage i).keeps c
    rw [Function.update_of_ne (Ne.symm hj), heffect.held_other (Ne.symm hj)]
    exact h

/-- Some call of the session has picked a request with which it returns before the
build. -/
def LosesLock (cfg : Settings) (i : ι) (events : List (ι × Action ι))
    (s : Server ι) (c : Nat) : Prop :=
  ∃ before after t request, events = before ++ (i, .handle) :: after
    ∧ Runs.run (step cfg) before s = some t ∧ t.stages i = .picked request
    ∧ Abandoned cfg request ∧ request.row.collectionId = c

theorem losesLock_cons (hstep : step cfg e s = some s') : LosesLock cfg i (e :: events) s c
      ↔ (e.1 = i ∧ loses cfg e.2 (s.stages i) c ≠ 0) ∨ LosesLock cfg i events s' c := by
  constructor
  · rintro ⟨before, after, t, request, hsplit, hbefore, hstage, habandoned, hc⟩
    cases before with
    | nil =>
      obtain ⟨rfl, -⟩ := List.cons.inj hsplit
      cases hbefore
      refine Or.inl ⟨rfl, ?_⟩
      rw [hstage]
      show (if _ ∧ _ then 1 else 0) ≠ 0
      rw [if_pos ⟨habandoned, hc⟩]
      exact Nat.one_ne_zero
    | cons first before =>
      obtain ⟨rfl, hrest⟩ := List.cons.inj hsplit
      rw [Runs.run_cons hstep] at hbefore
      exact Or.inr ⟨before, after, t, request, hrest, hbefore, hstage, habandoned, hc⟩
  · rintro (⟨hi, hloses⟩ | ⟨before, after, t, request, rfl, hbefore, hrest⟩)
    · obtain ⟨request, ha, hstage, hboth⟩ := of_loses hloses
      refine ⟨[], events, s, request, ?_, rfl, hstage, hboth⟩
      exact congrArg (· :: events) (Prod.ext hi ha)
    · refine ⟨e :: before, after, t, request, rfl, ?_, hrest⟩
      rw [Runs.run_cons hstep]
      exact hbefore

theorem spare_run (h : Spare i c n s)
    (hrun : Runs.run (step cfg) events s = some s') (halive : (i, .terminate) ∉ events) :
    ∃ m, Spare i c (n + m) s' ∧ (m = 0 ↔ ¬ LosesLock cfg i events s c) := by
  induction events generalizing s n with
  | nil =>
    cases hrun
    refine ⟨0, h, fun _ => ?_, fun _ => rfl⟩
    rintro ⟨before, after, t, request, hsplit, -⟩
    exact List.append_ne_nil_of_right_ne_nil before (List.cons_ne_nil _ _) hsplit.symm
  | cons e events ih =>
    obtain ⟨t, hstep, hrest⟩ := Option.bind_eq_some_iff.1 hrun
    rw [List.mem_cons, not_or] at halive
    obtain ⟨hfirst, halive⟩ := halive
    obtain ⟨m, hspare, hzero⟩ := ih (spare_step h hstep (Ne.symm hfirst)) hrest halive
    rw [Nat.add_assoc] at hspare
    refine ⟨_, hspare, ?_⟩
    rw [losesLock_cons hstep, not_or, ← hzero, Nat.add_eq_zero_iff]
    by_cases hi : e.1 = i
    · rw [if_pos hi]
      exact and_congr_left fun _ => ⟨fun h hcon => hcon.2 h,
        fun h => by_contra fun hcon => h ⟨hi, hcon⟩⟩
    · rw [if_neg hi]
      exact and_congr_left fun _ => ⟨fun _ hcon => hi hcon.1, fun _ => rfl⟩

/-- A run in which a session calls the builder and returns, once or several times. Of
the other sessions nothing is assumed, nor of the queue and the locks at its
beginning. -/
structure Calls (cfg : Settings) (i : ι) where
  events : List (ι × Action ι)
  first : Server ι
  last : Server ι
  run_eq : Runs.run (step cfg) events first = some last
  called : first.stages i = .idle
  returned : last.stages i = .idle
  alive : (i, .terminate) ∉ events

variable (r : Calls cfg i)

/-- After the run the session has no lock that it did not have before, and whenever it
builds an index it has the lock of the collection. -/
def Calls.GivesBack : Prop :=
  (∀ c, held i c r.last.shared ≤ held i c r.first.shared)
  ∧ ∀ before after t request, r.events = before ++ after →
    Runs.run (step cfg) before r.first = some t →
    t.stages i = .building request → 0 < held i request.row.collectionId t.shared

theorem Calls.spare_first (c : Nat) : Spare i c (held i c r.first.shared) r.first := by
  unfold Spare
  rw [r.called]
  rfl

theorem Calls.held_building {before after : List (ι × Action ι)}
    {t : Server ι} {request : IndexCmdRequest ι} (hsplit : r.events = before ++ after)
    (hrun : Runs.run (step cfg) before r.first = some t) (hstage : t.stages i = .building request) :
    0 < held i request.row.collectionId t.shared := by
  have halive : (i, .terminate) ∉ before := by
    intro hmem
    apply r.alive
    rw [hsplit]
    exact List.mem_append_left _ hmem
  obtain ⟨m, hspare, -⟩ := spare_run (r.spare_first _) hrun halive
  unfold Spare at hspare
  rw [hspare, hstage, Stage.keeps_some rfl, if_pos rfl]
  exact Nat.succ_pos _

theorem Calls.held_last (c : Nat) : ∃ m, held i c r.last.shared = held i c r.first.shared + m
      ∧ (m = 0 ↔ ¬ LosesLock cfg i r.events r.first c) := by
  obtain ⟨m, hspare, hzero⟩ := spare_run (r.spare_first c) r.run_eq r.alive
  unfold Spare at hspare
  rw [r.returned, Stage.keeps_none rfl, Nat.add_zero] at hspare
  exact ⟨m, hspare, hzero⟩

/-- The locks are given back exactly if no call has picked a request whose attempts
are used up, or that is skippable. -/
theorem givesBack_iff : r.GivesBack ↔ ∀ c, ¬ LosesLock cfg i r.events r.first c := by
  constructor
  · rintro ⟨hlocks, -⟩ c
    obtain ⟨m, hlast, hzero⟩ := r.held_last c
    apply hzero.1
    have hle := hlocks c
    omega
  · intro hnot
    refine ⟨fun c => ?_, fun before after t request hsplit hrun hstage =>
      r.held_building hsplit hrun hstage⟩
    obtain ⟨m, hlast, hzero⟩ := r.held_last c
    rw [hlast, hzero.2 (hnot c)]
    exact Nat.le_refl _

end Calls

/-- A request of collection 5 that has failed three times. -/
def failedRequest : IndexCmdRequest Unit := ⟨7, 5, .failed, 3, none, 0, none⟩

/-- The builder is called with this request in the queue. -/
def abandoningCall : Calls {} () where
  events := [((), .call), ((), .getSkippable none),
    ((), .getCollectionIds [failedRequest]), ((), .acquire),
    ((), .getRequest (some failedRequest)), ((), .handle)]
  first := ⟨{ queue := AList.singleton 7 failedRequest.row }, fun _ => .idle⟩
  last := ⟨giveUp failedRequest none
      { queue := AList.singleton 7 failedRequest.row
        locks := Function.update (fun _ => none) 5 (some ⟨(), 0⟩) },
    fun _ => .idle⟩
  run_eq := by
    refine congrArg (fun stages => some (⟨giveUp failedRequest none
      { queue := AList.singleton 7 failedRequest.row
        locks := Function.update (fun _ => none) 5 (some ⟨(), 0⟩) }, stages⟩ :
        Server Unit)) (funext fun i => ?_)
    rw [Subsingleton.elim i ()]
    rfl
  called := rfl
  returned := rfl
  alive := nofun

/-- The call returns with the lock of the collection. -/
theorem lock_not_given_back : ¬ abandoningCall.GivesBack := by
  rintro ⟨hlocks, -⟩
  exact absurd (hlocks 5) (by decide)

end DocumentDb.IndexBuild
