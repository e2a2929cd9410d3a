/-
The background index builder, as a machine of sessions.

A call of `build_index_concurrently_from_indexqueue_core` goes through these stages:

  - `prune` ... `pruneCommit`: old skippable requests are removed, each under the lock of
    its collection;
  - `list` and `scan`: the collections of the queue are tried in turn, without those that
    are locked or have no request;
  - `picked`: a request was found, and the lock of its collection is kept;
  - `building`: the request is in progress, and the index is created;
  - `built` and `committing`: the lock is released before the commit that makes the index
    valid;
  - `failed`: the failure was recorded, and the lock is released.

A stage is left by one action, with the answers of its statements. In between other sessions
act, and the session can end, which releases its locks and rolls back. The clean-up of an
index that a killed build has left is assumed not to fail.
-/
import DocumentDb.IndexBuild.Queue
import DocumentDb.Lib.Sessions

namespace DocumentDb.IndexBuild

-- ==== stages

/-- Where a session is. -/
inductive Stage (ι : Type) where
  | idle
  /-- `PruneSkippableIndexes` asks for the next request. -/
  | prune (excludeCollectionIds : List Nat) (prunedIndexes : Bool)
  | pruneFound (excludeCollectionIds : List Nat) (prunedIndexes : Bool)
      (request : IndexCmdRequest ι)
  | pruneLocked (excludeCollectionIds : List Nat) (request : IndexCmdRequest ι)
  /-- The request is deleted and the lock released, the commit follows. -/
  | pruneCommit (excludeCollectionIds : List Nat) (request : IndexCmdRequest ι)
  /-- `GetCollectionIdsForIndexBuild` is called next. -/
  | list (excludeCollectionIds : List Nat)
  | scan (excludeCollectionIds collectionIds : List Nat)
  | locked (excludeCollectionIds collectionIds : List Nat) (collectionId : Nat)
  /-- The collection has no request. -/
  | nothing (excludeCollectionIds collectionIds : List Nat) (collectionId : Nat)
  | picked (request : IndexCmdRequest ι)
  | building (request : IndexCmdRequest ι)
  | built (request : IndexCmdRequest ι)
  | committing (request : IndexCmdRequest ι)
  | failed (collectionId : Nat)
  /-- The session has ended. -/
  | ended

/-- What a session does next. -/
inductive Action (ι : Type) where
  | submit (collectionId : Nat)
  | call
  | getSkippable (choice : Option (IndexCmdRequest ι))
  | acquire
  | release
  | commit
  | getCollectionIds (order : List (IndexCmdRequest ι))
  | nextRound
  | getRequest (choice : Option (IndexCmdRequest ι))
  | handle
  | succeed
  | fail (errorCode : Int) (errorMessage : String)
  | tick (seconds : Nat)
  | terminate

variable {ι : Type} [DecidableEq ι]

-- ==== actions

/-- A request that is given up: it stays in the queue as skippable, and the record of
its index is deleted. -/
def giveUp (request : IndexCmdRequest ι) (comment : Option Comment)
    (shared : Shared ι) : Shared ι :=
  deleteCollectionIndexRecord request.row.collectionId request.indexId
    (markIndexRequestStatus request.indexId .skippable comment none request.row.attemptCount shared)

def removeRequest (request : IndexCmdRequest ι) (shared : Shared ι) : Shared ι :=
  deleteCollectionIndexRecord request.row.collectionId request.indexId
    (removeRequestFromIndexQueue request.indexId shared)

variable (cfg : Settings)

/-- The part between the search and the build. Two of the three ways end the call. -/
def handleRequest (i : ι) (request : IndexCmdRequest ι) (shared : Shared ι) : Shared ι × Stage ι :=
  if cfg.maxIndexBuildAttempts ≤ request.row.attemptCount then
    (giveUp request none shared, .idle)
  else if request.row.status = .skippable then
    (if request.row.updateTime + cfg.indexQueueEvictionIntervalInSec ≤ shared.now
      then removeRequest request shared else shared, .idle)
  else
    let attemptCount := request.row.attemptCount + 1
    (markIndexRequestStatus request.indexId .inprogress (some ⟨none, none⟩) (some i)
        attemptCount shared,
      .building { request with row := { request.row with
        attemptCount := attemptCount } })

def recordFailure (request : IndexCmdRequest ι) (errorCode : Int)
    (errorMessage : String) (shared : Shared ι) : Shared ι :=
  let newComment := some ⟨some errorMessage, some errorCode⟩
  if cfg.maxIndexBuildAttempts < request.row.attemptCount then
    giveUp request newComment shared
  else if isSkippableError errorCode errorMessage then
    giveUp request newComment shared
  else
    markIndexRequestStatus request.indexId .failed newComment none request.row.attemptCount shared

/-- A request is queued, and the record of its index inserted. -/
def submitRequest (collectionId : Nat) (shared : Shared ι) : Shared ι :=
  { shared with
    queue := shared.queue.insert shared.nextIndexId
      ⟨collectionId, .queued, 0, none, shared.now, none⟩
    records := shared.records.insert shared.nextIndexId ⟨collectionId, false⟩
    nextIndexId := shared.nextIndexId + 1 }

def commitBuild (request : IndexCmdRequest ι) (shared : Shared ι) : Shared ι :=
  removeRequestFromIndexQueue request.indexId (markIndexAsValid request.indexId shared)

/-- What an action does to the shared state and the stage of its session, if the
session can do it. -/
def act : ι × Action ι → Shared ι → Stage ι → Option (Shared ι × Stage ι)
  | (_, .submit collectionId), shared, .idle =>
    some (submitRequest collectionId shared, .idle)
  | (_, .call), shared, .idle => some (shared, .prune [] false)
  | (_, .getSkippable choice), shared, .prune exclude pruned =>
    if IsFirst (·.row.updateTime)
        (skippableRequests cfg.indexQueueEvictionIntervalInSec exclude shared)
        choice then
      match choice with
      | some request => some (shared, .pruneFound exclude pruned request)
      | none => some (shared, if pruned then .idle else .list [])
    else none
  | (i, .acquire), shared, .pruneFound exclude pruned request =>
    match acquireLock i request.row.collectionId shared with
    | some shared => some (shared, .pruneLocked exclude request)
    -- the source releases the lock here, too
    | none => some (releaseLock i request.row.collectionId shared,
        .prune (exclude ++ [request.row.collectionId]) pruned)
  | (i, .release), shared, .pruneLocked exclude request =>
    some (releaseLock i request.row.collectionId shared, .pruneCommit exclude request)
  | (_, .commit), shared, .pruneCommit exclude request =>
    some (removeRequest request shared, .prune exclude true)
  | (_, .getCollectionIds order), shared, .list exclude =>
    if IsListing exclude shared order then
      -- the array ends with a zero
      match ((order.take cfg.maxNumActiveUsersIndexBuilds).map
          (·.row.collectionId)).takeWhile (· ≠ 0) with
      | [] => some (shared, .idle)
      | collectionIds => some (shared, .scan exclude collectionIds)
    else none
  | (_, .nextRound), shared, .scan exclude [] => some (shared, .list exclude)
  | (i, .acquire), shared, .scan exclude (collectionId :: collectionIds) =>
    match acquireLock i collectionId shared with
    | some shared => some (shared, .locked exclude collectionIds collectionId)
    | none => some (shared, .scan (exclude ++ [collectionId]) collectionIds)
  | (_, .getRequest choice), shared, .locked exclude collectionIds collectionId =>
    if IsFirst (·.row.status.toNat) (eligibleRequests collectionId shared) choice then
      match choice with
      | some request => some (shared, .picked request)
      | none => some (shared, .nothing exclude collectionIds collectionId)
    else none
  | (i, .release), shared, .nothing exclude collectionIds collectionId =>
    some (releaseLock i collectionId shared, .scan (exclude ++ [collectionId]) collectionIds)
  | (i, .handle), shared, .picked request => some (handleRequest cfg i request shared)
  | (_, .succeed), shared, .building request => some (shared, .built request)
  | (_, .fail errorCode errorMessage), shared, .building request =>
    some (recordFailure cfg request errorCode errorMessage shared, .failed request.row.collectionId)
  | (i, .release), shared, .built request =>
    some (releaseLock i request.row.collectionId shared, .committing request)
  | (_, .commit), shared, .committing request =>
    some (commitBuild request shared, .idle)
  | (i, .release), shared, .failed collectionId =>
    some (releaseLock i collectionId shared, .idle)
  | (_, .tick seconds), shared, stage =>
    some ({ shared with now := shared.now + seconds }, stage)
  | (_, .terminate), _, .ended => none
  | (i, .terminate), shared, _ =>
    some ({ releaseAll i shared with ended := i :: shared.ended }, .ended)
  | _, _, _ => none

/-- The sessions and what they share. -/
abbrev Server (ι : Type) := Sessions.State ι (Shared ι) (Stage ι)

def start : Server ι where
  shared := {}
  stages := fun _ => .idle

def step (e : ι × Action ι) (s : Server ι) : Option (Server ι) :=
  Sessions.step (act cfg) (e.1, e) s

theorem of_step {cfg : Settings} {i : ι} {a : Action ι} {s s' : Server ι}
    (h : step cfg (i, a) s = some s') :
    ∃ shared stage, act cfg (i, a) s.shared (s.stages i) = some (shared, stage)
      ∧ s' = ⟨shared, Function.update s.stages i stage⟩ :=
  Sessions.of_step h

-- ==== the rest of the shared state

structure SameRest (shared shared' : Shared ι) : Prop where
  locks : shared'.locks = shared.locks
  nextIndexId : shared'.nextIndexId = shared.nextIndexId
  ended : shared'.ended = shared.ended

section SameRest

variable {ι : Type} {cfg : Settings} {i : ι} {shared shared' shared'' : Shared ι}

theorem SameRest.refl (shared : Shared ι) : SameRest shared shared := ⟨rfl, rfl, rfl⟩

theorem SameRest.trans (h : SameRest shared shared') (h' : SameRest shared' shared'') :
    SameRest shared shared'' :=
  ⟨h'.locks.trans h.locks, h'.nextIndexId.trans h.nextIndexId, h'.ended.trans h.ended⟩

theorem markIndexRequestStatus_sameRest (indexId : Nat) (status : IndexCmdStatus)
    (comment : Option Comment) (opId : Option ι) (attemptCount : Nat) :
    SameRest shared (markIndexRequestStatus indexId status comment opId attemptCount shared) := by
  unfold markIndexRequestStatus
  split
  · exact .refl shared
  · split
    · exact ⟨rfl, rfl, rfl⟩
    · exact .refl shared

theorem deleteCollectionIndexRecord_sameRest (cid indexId : Nat) :
    SameRest shared (deleteCollectionIndexRecord cid indexId shared) := by
  unfold deleteCollectionIndexRecord
  split
  · exact .refl shared
  · split
    · exact ⟨rfl, rfl, rfl⟩
    · exact .refl shared

theorem markIndexAsValid_sameRest (indexId : Nat) :
    SameRest shared (markIndexAsValid indexId shared) := by
  unfold markIndexAsValid
  split
  · exact .refl shared
  · exact ⟨rfl, rfl, rfl⟩

theorem removeRequestFromIndexQueue_sameRest (indexId : Nat) :
    SameRest shared (removeRequestFromIndexQueue indexId shared) :=
  ⟨rfl, rfl, rfl⟩

variable (request : IndexCmdRequest ι)

theorem giveUp_sameRest (comment : Option Comment) :
    SameRest shared (giveUp request comment shared) :=
  (markIndexRequestStatus_sameRest _ _ _ _ _).trans (deleteCollectionIndexRecord_sameRest _ _)

theorem removeRequest_sameRest : SameRest shared (removeRequest request shared) :=
  (removeRequestFromIndexQueue_sameRest _).trans (deleteCollectionIndexRecord_sameRest _ _)

theorem commitBuild_sameRest : SameRest shared (commitBuild request shared) :=
  (markIndexAsValid_sameRest _).trans (removeRequestFromIndexQueue_sameRest _)

theorem recordFailure_sameRest (code : Int) (message : String) :
    SameRest shared (recordFailure cfg request code message shared) := by
  unfold recordFailure
  split
  · exact giveUp_sameRest _ _
  · split
    · exact giveUp_sameRest _ _
    · exact markIndexRequestStatus_sameRest _ _ _ _ _

theorem handleRequest_sameRest : SameRest shared (handleRequest cfg i request shared).1 := by
  unfold handleRequest
  split
  · exact giveUp_sameRest _ _
  · split
    · dsimp only
      split
      · exact removeRequest_sameRest _
      · exact .refl shared
    · exact markIndexRequestStatus_sameRest _ _ _ _ _

end SameRest

-- ==== transitions

/-- The transitions of a session. -/
inductive Moves (cfg : Settings) (i : ι) (shared : Shared ι) :
    Action ι → Stage ι → Shared ι → Stage ι → Prop
  | submit {collectionId} :
      Moves cfg i shared (.submit collectionId) .idle (submitRequest collectionId shared) .idle
  | call : Moves cfg i shared .call .idle shared (.prune [] false)
  | found {exclude pruned request}
      (h : request ∈ skippableRequests cfg.indexQueueEvictionIntervalInSec exclude shared) :
      Moves cfg i shared (.getSkippable (some request)) (.prune exclude pruned) shared
        (.pruneFound exclude pruned request)
  | pruned {exclude} :
      Moves cfg i shared (.getSkippable none) (.prune exclude true) shared .idle
  | nothingToPrune {exclude} :
      Moves cfg i shared (.getSkippable none) (.prune exclude false) shared (.list [])
  | lockToPrune {exclude pruned request shared'}
      (h : acquireLock i request.row.collectionId shared = some shared') :
      Moves cfg i shared .acquire (.pruneFound exclude pruned request) shared'
        (.pruneLocked exclude request)
  | cannotPrune {exclude pruned request}
      (h : acquireLock i request.row.collectionId shared = none) :
      Moves cfg i shared .acquire (.pruneFound exclude pruned request)
        (releaseLock i request.row.collectionId shared)
        (.prune (exclude ++ [request.row.collectionId]) pruned)
  | unlockPruned {exclude request} :
      Moves cfg i shared .release (.pruneLocked exclude request)
        (releaseLock i request.row.collectionId shared) (.pruneCommit exclude request)
  | commitPruned {exclude request} :
      Moves cfg i shared .commit (.pruneCommit exclude request)
        (removeRequest request shared) (.prune exclude true)
  | noCollection {exclude order} :
      Moves cfg i shared (.getCollectionIds order) (.list exclude) shared .idle
  | collections {exclude order collectionIds} :
      Moves cfg i shared (.getCollectionIds order) (.list exclude) shared
        (.scan exclude collectionIds)
  | nextRound {exclude} :
      Moves cfg i shared .nextRound (.scan exclude []) shared (.list exclude)
  | lock {exclude collectionId collectionIds shared'}
      (h : acquireLock i collectionId shared = some shared') :
      Moves cfg i shared .acquire (.scan exclude (collectionId :: collectionIds))
        shared' (.locked exclude collectionIds collectionId)
  | cannotLock {exclude collectionId collectionIds}
      (h : acquireLock i collectionId shared = none) :
      Moves cfg i shared .acquire (.scan exclude (collectionId :: collectionIds))
        shared (.scan (exclude ++ [collectionId]) collectionIds)
  | pick {exclude collectionIds collectionId request}
      (h : request ∈ eligibleRequests collectionId shared) :
      Moves cfg i shared (.getRequest (some request))
        (.locked exclude collectionIds collectionId) shared (.picked request)
  | noRequest {exclude collectionIds collectionId} :
      Moves cfg i shared (.getRequest none) (.locked exclude collectionIds collectionId) shared
        (.nothing exclude collectionIds collectionId)
  | unlockNothing {exclude collectionIds collectionId} :
      Moves cfg i shared .release (.nothing exclude collectionIds collectionId)
        (releaseLock i collectionId shared)
        (.scan (exclude ++ [collectionId]) collectionIds)
  | handle {request} :
      Moves cfg i shared .handle (.picked request)
        (handleRequest cfg i request shared).1 (handleRequest cfg i request shared).2
  | succeed {request} :
      Moves cfg i shared .succeed (.building request) shared (.built request)
  | fail {request errorCode errorMessage} :
      Moves cfg i shared (.fail errorCode errorMessage) (.building request)
        (recordFailure cfg request errorCode errorMessage shared)
        (.failed request.row.collectionId)
  | unlockBuilt {request} :
      Moves cfg i shared .release (.built request)
        (releaseLock i request.row.collectionId shared) (.committing request)
  | commitBuilt {request} :
      Moves cfg i shared .commit (.committing request) (commitBuild request shared) .idle
  | unlockFailed {collectionId} :
      Moves cfg i shared .release (.failed collectionId) (releaseLock i collectionId shared) .idle
  | tick {seconds stage} :
      Moves cfg i shared (.tick seconds) stage { shared with now := shared.now + seconds } stage
  | terminate {stage} :
      Moves cfg i shared .terminate stage
        { releaseAll i shared with ended := i :: shared.ended } .ended

theorem moves_of_act {cfg : Settings} {i : ι} {a : Action ι} {shared shared' : Shared ι}
    {stage stage' : Stage ι} (h : act cfg (i, a) shared stage = some (shared', stage')) :
    Moves cfg i shared a stage shared' stage' := by
  unfold act at h
  split at h
  next heq => cases heq; cases h; exact .submit
  next heq => cases heq; cases h; exact .call
  next heq =>
    cases heq
    split at h
    · rename_i hfirst
      split at h
      · cases h
        exact .found hfirst.1
      · cases h
        split
        · rename_i hpruned
          subst hpruned
          exact .pruned
        · rename_i hpruned
          rw [Bool.not_eq_true] at hpruned
          subst hpruned
          exact .nothingToPrune
    · cases h
  next heq =>
    cases heq
    split at h
    · cases h
      exact .lockToPrune (by assumption)
    · cases h
      exact .cannotPrune (by assumption)
  next heq => cases heq; cases h; exact .unlockPruned
  next heq => cases heq; cases h; exact .commitPruned
  next heq =>
    cases heq
    split at h
    · split at h
      · cases h
        exact .noCollection
      · cases h
        exact .collections
    · cases h
  next heq => cases heq; cases h; exact .nextRound
  next heq =>
    cases heq
    split at h
    · cases h
      exact .lock (by assumption)
    · cases h
      exact .cannotLock (by assumption)
  next heq =>
    cases heq
    split at h
    · rename_i hfirst
      split at h
      · cases h
        exact .pick hfirst.1
      · cases h
        exact .noRequest
    · cases h
  next heq => cases heq; cases h; exact .unlockNothing
  next heq =>
    cases heq
    have hpair := Option.some.inj h
    obtain rfl := congrArg Prod.fst hpair
    obtain rfl := congrArg Prod.snd hpair
    exact .handle
  next heq => cases heq; cases h; exact .succeed
  next heq => cases heq; cases h; exact .fail
  next heq => cases heq; cases h; exact .unlockBuilt
  next heq => cases heq; cases h; exact .commitBuilt
  next heq => cases heq; cases h; exact .unlockFailed
  next heq => cases heq; cases h; exact .tick
  next heq => cases h
  next heq _ => cases heq; cases h; exact .terminate
  next heq => cases h

end DocumentDb.IndexBuild
