/-
What holds in every interleaving of the index builders.

Two sessions never have the lock of one collection for their stages, never build the index
of one request, and none prunes a request that another one builds (`sessions_apart`). A
record is valid exactly if its request has left the queue, so a request has four states
(`request_status`). A build is started a bounded number of times (`starts_le`): what is left
of the attempts (`remaining`) never grows.
-/
import DocumentDb.IndexBuild.Life

namespace DocumentDb.IndexBuild

open List Option Function

variable {ι : Type} [DecidableEq ι] {cfg : Settings} {i j : ι} {id : Nat}
  {events : List (ι × Action ι)} {e : ι × Action ι} {s s' : Server ι} {a : Action ι}
  {shared shared' : Shared ι} {stage stage' : Stage ι} {request : IndexCmdRequest ι} {row : Row ι}

-- ==== sessions

/-- A request for a collection as it was submitted. -/
def newRequest (indexId collectionId : Nat) : IndexCmdRequest (Fin 2) :=
  ⟨indexId, collectionId, .queued, 0, none, 0, none⟩

/-- Two sessions call the builder, with two requests in the queue. The second one does
not get the lock of the first collection and goes on to the next. In the end the first
one has released the lock and not yet committed its build, and the second one builds. -/
def twoBuilds : List (Fin 2 × Action (Fin 2)) :=
  [(0, .submit 5), (1, .submit 6), (0, .call), (1, .call), (0, .getSkippable none),
    (1, .getSkippable none), (0, .getCollectionIds [newRequest 0 5, newRequest 1 6]),
    (1, .getCollectionIds [newRequest 0 5, newRequest 1 6]), (0, .acquire), (1, .acquire),
    (1, .acquire), (0, .getRequest (some (newRequest 0 5))),
    (1, .getRequest (some (newRequest 1 6))), (0, .handle), (1, .handle), (0, .succeed),
    (0, .release)]

/-- What is true of the server after every run, besides `Sound`. -/
structure Exact (s : Server ι) : Prop extends Sound s where
  valid_iff : ∀ {id record}, s.shared.records.lookup id = some record →
    (record.isValid = true ↔ s.shared.queue.lookup id = none)
  attempts : ∀ {i request row}, (s.stages i).toBuild = some request →
    s.shared.queue.lookup request.indexId = some row → row.attemptCount = request.row.attemptCount

/-- Only a submission takes a new index id. -/
theorem Moves.of_nextIndexId (h : Moves cfg i shared a stage shared' stage')
    (hnext : shared'.nextIndexId = shared.nextIndexId + 1) :
    ∃ collectionId, shared' = submitRequest collectionId shared := by
  cases h with
  | submit => exact ⟨_, rfl⟩
  | handle => rw [(handleRequest_sameRest _).nextIndexId] at hnext; omega
  | fail => rw [(recordFailure_sameRest _ _ _).nextIndexId] at hnext; omega
  | commitPruned => rw [(removeRequest_sameRest _).nextIndexId] at hnext; omega
  | commitBuilt => rw [(commitBuild_sameRest _).nextIndexId] at hnext; omega
  | lockToPrune hlock | lock hlock =>
    obtain ⟨rfl, -⟩ := acquireLock_eq hlock
    exact absurd hnext (Nat.succ_ne_self _).symm
  | cannotPrune | unlockPruned | unlockNothing | unlockBuilt | unlockFailed =>
    rw [nextIndexId_releaseLock] at hnext
    omega
  | _ => exact absurd hnext (Nat.succ_ne_self _).symm

section Step

variable (h : Exact s) (hmoves : Moves cfg i s.shared a (s.stages i) shared' stage')
include h hmoves

theorem Exact.step_valid_iff {record : IndexRecord}
    (hrecord : shared'.records.lookup id = some record) :
    record.isValid = true ↔ shared'.queue.lookup id = none := by
  rcases h.step_cases hmoves id with hwritten | ⟨-, hqueue, hrecords⟩
  · cases hwritten with
    | changed hrow _ hrow' _ _ hsame =>
      have hold := h.valid_iff (hsame.symm.trans hrecord)
      rw [hrow] at hold
      rw [hrow', hold]
      simp
    | givenUp _ _ _ _ hnone | pruned _ _ _ _ hnone => cases hnone.symm.trans hrecord
    | finished _ _ hnone hrecord' hvalid =>
      cases hrecord'.symm.trans hrecord
      exact iff_of_true hvalid hnone
    | submitted hid hnext hrow' =>
      obtain ⟨collectionId, rfl⟩ := hmoves.of_nextIndexId hnext
      subst hid
      cases (AList.lookup_insert _).symm.trans hrecord
      rw [hrow']
      simp
  · rw [hqueue]
    exact h.valid_iff (hrecords.symm.trans hrecord)

/-- A session that picks a request has read its row, and one that starts a build writes
the number of attempts that it keeps. -/
theorem Exact.step_attempts_self (hrequest : stage'.toBuild = some request)
    (hrow : shared'.queue.lookup request.indexId = some row) :
    row.attemptCount = request.row.attemptCount := by
  have hold := @h.attempts i request row
  have hbacked := h.backed i
  generalize s.stages i = stage at hmoves hold hbacked
  cases hmoves with
  | pick hmem =>
    cases hrequest
    cases (lookup_of_mem_requests (mem_filter.1 hmem).1).symm.trans hrow
    rfl
  | @handle request' =>
    obtain ⟨hrow', hstatus, -⟩ : Picks s.shared request' := hbacked
    unfold handleRequest at hrequest hrow
    by_cases hattempts : cfg.maxIndexBuildAttempts ≤ request'.row.attemptCount
    · rw [if_pos hattempts] at hrequest
      cases hrequest
    · rw [if_neg hattempts, if_neg hstatus] at hrequest hrow
      cases hrequest
      cases (lookup_mark hrow' hstatus).symm.trans hrow
      rfl
  | unlockBuilt =>
    rw [queue_releaseLock] at hrow
    exact hold hrequest hrow
  | succeed | tick => exact hold hrequest hrow
  | _ => cases hrequest

end Step

theorem Exact.step (h : Exact s) (hstep : step cfg e s = some s') : Exact s' := by
  obtain ⟨i, a⟩ := e
  have hsound := h.toSound.step hstep
  obtain ⟨shared', stage', hact, rfl⟩ := of_step hstep
  have hmoves := moves_of_act hact
  refine { hsound with valid_iff := h.step_valid_iff hmoves, attempts := fun {k} => ?_ }
  apply stages_cases (P := fun _ stage => ∀ {request row}, stage.toBuild = some request →
    shared'.queue.lookup request.indexId = some row → row.attemptCount = request.row.attemptCount)
  · exact h.step_attempts_self hmoves
  · intro k hk request row hrequest hrow
    exact h.attempts hrequest ((hmoves.frame (h.target_ne hk hrequest)).1.symm.trans hrow)

theorem exact_start : Exact (start : Server ι) :=
  { Sound.start with
    valid_iff := fun hrecord => by cases hrecord
    attempts := fun hrequest => by cases hrequest }

theorem exact_of_run (hrun : Runs.run (step cfg) events start = some s) : Exact s :=
  Runs.invariant (Q := fun _ => True) (fun _ hexact hstep => hexact.step hstep)
    (fun _ _ => trivial) hrun exact_start

/-- The attempts that are left for a request. -/
def remaining (cfg : Settings) (id : Nat) (shared : Shared ι) : Nat :=
  match shared.queue.lookup id with
  | some row => cfg.maxIndexBuildAttempts - row.attemptCount
  | none => if id < shared.nextIndexId then 0 else cfg.maxIndexBuildAttempts

/-- Does a session that goes from one stage to another start a build of the index? -/
def begins (id : Nat) : Stage ι → Stage ι → Nat
  | .picked _, .building request => if request.indexId = id then 1 else 0
  | _, _ => 0

/-- How many builds of the index the actions start. -/
def starts (cfg : Settings) (id : Nat) : List (ι × Action ι) → Server ι → Nat
  | [], _ => 0
  | e :: events, s =>
    match step cfg e s with
    | none => 0
    | some s' => begins id (s.stages e.1) (s'.stages e.1) + starts cfg id events s'

omit [DecidableEq ι] in
theorem remaining_some (hrow : shared.queue.lookup id = some row) :
    remaining cfg id shared = cfg.maxIndexBuildAttempts - row.attemptCount := by
  unfold remaining
  rw [hrow]

omit [DecidableEq ι] in
theorem remaining_none (hrow : shared.queue.lookup id = none) (hid : id < shared.nextIndexId) :
    remaining cfg id shared = 0 := by
  unfold remaining
  rw [hrow]
  exact if_pos hid

omit [DecidableEq ι] in
/-- The row of a request that is given up. -/
theorem remaining_giveUp {comment : Option Comment}
    (hrow : shared.queue.lookup request.indexId = some row) (hstatus : row.status ≠ .skippable) :
    remaining cfg request.indexId (giveUp request comment shared)
      = cfg.maxIndexBuildAttempts - request.row.attemptCount := by
  have hlookup : (giveUp request comment shared).queue.lookup request.indexId = some _ :=
    (congrArg (AList.lookup request.indexId) queue_delete).trans (lookup_mark hrow hstatus)
  rw [remaining_some hlookup]

/-- A step that does not write the row of the request leaves it its attempts. -/
theorem Moves.remaining_le (hmoves : Moves cfg i shared a stage shared' stage')
    (htarget : target shared a stage ≠ some id) :
    begins id stage stage' + remaining cfg id shared' ≤ remaining cfg id shared := by
  have hbegins : begins id stage stage' = 0 := by
    cases hmoves with
    | @handle request =>
      have hid : request.indexId ≠ id := fun heq => htarget (congrArg some heq)
      unfold handleRequest
      split
      · rfl
      · split
        · rfl
        · exact if_neg hid
    | tick | terminate => cases stage <;> rfl
    | _ => rfl
  have hnext := hmoves.nextIndexId_le
  rw [hbegins, Nat.zero_add]
  unfold remaining
  rw [(hmoves.frame htarget).1]
  cases shared.queue.lookup id with
  | some row => exact Nat.le_refl _
  | none =>
    dsimp only
    split <;> split <;> omega

/-- A build that is started uses up an attempt of its request, and none comes back. -/
theorem Exact.remaining_le (h : Exact s)
    (hmoves : Moves cfg i s.shared a (s.stages i) shared' stage') :
    begins id (s.stages i) stage' + remaining cfg id shared' ≤ remaining cfg id s.shared := by
  by_cases htarget : target s.shared a (s.stages i) = some id
  · have hbacked := h.backed i
    have hattempts := @h.attempts i
    have hrow := @Sound.row _ i _ s
    generalize s.stages i = stage at hmoves htarget hbacked hattempts hrow
    cases hmoves with
    | submit =>
      cases htarget
      have hnone : s.shared.queue.lookup s.shared.nextIndexId = none := by
        by_contra hsome
        obtain ⟨row, hrow'⟩ := ne_none_iff_exists'.1 hsome
        exact Nat.lt_irrefl _ (h.queue_lt hrow')
      unfold remaining
      rw [hnone, submitRequest, AList.lookup_insert]
      dsimp only
      rw [if_neg (Nat.lt_irrefl _)]
      exact Nat.le_of_eq (Nat.zero_add _)
    | @handle request =>
      cases htarget
      obtain ⟨hrow', hstatus, -⟩ : Picks s.shared request := hbacked
      rw [remaining_some hrow']
      unfold handleRequest
      by_cases hmax : cfg.maxIndexBuildAttempts ≤ request.row.attemptCount
      · rw [if_pos hmax]
        show 0 + remaining _ _ _ ≤ _
        rw [remaining_giveUp hrow' hstatus, Nat.zero_add]
      · rw [if_neg hmax, if_neg hstatus]
        rw [remaining_some (lookup_mark hrow' hstatus)]
        show (if request.indexId = request.indexId then 1 else 0) + _ ≤ _
        rw [if_pos rfl]
        dsimp only
        omega
    | @fail request code message =>
      cases htarget
      obtain ⟨row, hrow', hstatus, -⟩ := hrow h.toSound rfl
      rw [remaining_some hrow', hattempts rfl hrow']
      show 0 + _ ≤ _
      rw [Nat.zero_add]
      unfold recordFailure
      split
      · exact Nat.le_of_eq (remaining_giveUp hrow' hstatus)
      · split
        · exact Nat.le_of_eq (remaining_giveUp hrow' hstatus)
        · rw [remaining_some (lookup_mark hrow' hstatus)]
    | commitPruned =>
      cases htarget
      obtain ⟨hlt, hnone, -⟩ := gone_removeRequest hbacked
      rw [remaining_none hnone hlt]
      exact Nat.zero_le _
    | @commitBuilt request =>
      cases htarget
      obtain ⟨row, hrow', -⟩ := hrow h.toSound rfl
      have hlt : request.indexId < (commitBuild request s.shared).nextIndexId := by
        rw [(commitBuild_sameRest request).nextIndexId]
        exact h.queue_lt hrow'
      rw [remaining_none (AList.lookup_erase request.indexId _) hlt]
      exact Nat.zero_le _
    | _ => cases htarget
  · exact hmoves.remaining_le htarget

end DocumentDb.IndexBuild
