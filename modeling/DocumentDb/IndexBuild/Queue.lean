/-
Index builds in the background: the queue, the metadata and the locks.

A request is in the queue until its index is built or it is pruned, and its index has a
record in the metadata, valid or not. The functions here are the statements of the builder,
each in one transaction. Sessions exclude each other from a collection by an advisory lock
of the session, which is counted and outlives transactions. The queue has requests to create
an index only.
-/
import DocumentDb.Lib.Runs
import Mathlib.Data.List.AList
import Mathlib.Data.List.Perm.Basic

namespace DocumentDb.IndexBuild

-- ==== requests

inductive IndexCmdStatus where
  | unknown
  | queued
  | inprogress
  | failed
  | skippable
  deriving DecidableEq

def IndexCmdStatus.toNat : IndexCmdStatus → Nat
  | .unknown => 0
  | .queued => 1
  | .inprogress => 2
  | .failed => 3
  | .skippable => 4

/-- The comment of a request: a document with the last error, or an empty one. -/
structure Comment where
  errmsg : Option String
  errcode : Option Int
  deriving DecidableEq

/-- A row of the index queue, for an index. The process of a build is that of its
session. -/
structure Row (ι : Type) where
  collectionId : Nat
  status : IndexCmdStatus
  attemptCount : Nat
  comment : Option Comment
  updateTime : Nat
  globalPid : Option ι
  deriving DecidableEq

/-- A row that was read. -/
structure IndexCmdRequest (ι : Type) where
  indexId : Nat
  row : Row ι
  deriving DecidableEq

/-- A row of `collection_indexes`, for an index. -/
structure IndexRecord where
  collectionId : Nat
  isValid : Bool
  deriving DecidableEq

/-- The lock of a collection: who has it, and how many times more than once. -/
structure Lock (ι : Type) where
  owner : ι
  more : Nat
  deriving DecidableEq

structure Shared (ι : Type) where
  queue : AList (fun _ : Nat => Row ι) := ∅
  records : AList (fun _ : Nat => IndexRecord) := ∅
  locks : Nat → Option (Lock ι) := fun _ => none
  now : Nat := 0
  nextIndexId : Nat := 0
  /-- The sessions that are not in `pg_stat_activity` any more. -/
  ended : List ι := []

structure Settings where
  maxIndexBuildAttempts : Nat := 3
  maxNumActiveUsersIndexBuilds : Nat := 2
  indexQueueEvictionIntervalInSec : Nat := 1200

-- ==== errors

/-- With six bits for a character. -/
def makeSqlstate (chars : List Char) : Int :=
  chars.foldr (fun c code => (c.toNat - '0'.toNat) % 64 + 64 * code) 0

def ereportCodeIsDocumentDBError (code : Int) : Bool := code % 64 = 'M'.toNat - '0'.toNat

def skippableErrors : List (Int × Option String) :=
  [(16908482, none), (makeSqlstate ['M', '0', '0', '1', 'C'], none),
   (261, some "column cannot have more than "),
   (261, some "vector cannot have more than "),
   (2600, some "vector dimension cannot be larger than "),
   (makeSqlstate ['2', '2', '0', '0', '3'], some "is out of range for type halfvec"),
   (261, some "index row size "),
   (261, some "memory required is "),
   (makeSqlstate ['M', '0', '0', '0', 'N'], some "unsupported language: "),
   (687882611, some "Can't extract geo keys")]

def isSkippableError (targetErrorCode : Int) (errMsg : String) : Bool :=
  if targetErrorCode ≠ -1 then
    if ereportCodeIsDocumentDBError targetErrorCode
        ∧ targetErrorCode ≠ makeSqlstate ['M', '0', '0', '0', '0'] then true
    else skippableErrors.any fun e =>
      e.1 = targetErrorCode && (match e.2 with
        | none => true
        | some text => text.toList.isPrefixOf errMsg.toList)
  else false

-- ==== statements

section Statements

variable {ι : Type} (indexId : Nat)

/-- A request that is skippable stays as it is. -/
def markIndexRequestStatus (status : IndexCmdStatus)
    (comment : Option Comment) (opId : Option ι) (attemptCount : Nat)
    (shared : Shared ι) : Shared ι :=
  match shared.queue.lookup indexId with
  | none => shared
  | some row =>
    if row.status.toNat < IndexCmdStatus.skippable.toNat then
      { shared with
        queue := shared.queue.insert indexId { row with
          status := status
          comment := comment.or row.comment
          updateTime := shared.now
          attemptCount := attemptCount
          globalPid := opId.or row.globalPid } }
    else shared

def removeRequestFromIndexQueue (shared : Shared ι) : Shared ι :=
  { shared with queue := shared.queue.erase indexId }

def deleteCollectionIndexRecord (collectionId indexId : Nat) (shared : Shared ι) : Shared ι :=
  match shared.records.lookup indexId with
  | none => shared
  | some record =>
    if record.collectionId = collectionId then
      { shared with records := shared.records.erase indexId }
    else shared

def markIndexAsValid (shared : Shared ι) : Shared ι :=
  match shared.records.lookup indexId with
  | none => shared
  | some record =>
    { shared with
      records := shared.records.insert indexId { record with isValid := true } }

def Shared.requests (shared : Shared ι) : List (IndexCmdRequest ι) :=
  shared.queue.entries.map fun entry => ⟨entry.1, entry.2⟩

/-- The answer to a query with `ORDER BY` and `LIMIT 1`: one of the first requests,
or nothing if there are none. -/
def IsFirst [DecidableEq ι] (key : IndexCmdRequest ι → Nat)
    (requests : List (IndexCmdRequest ι)) : Option (IndexCmdRequest ι) → Prop
  | none => requests = []
  | some request => request ∈ requests ∧ ∀ other ∈ requests, key request ≤ key other

instance [DecidableEq ι] (key : IndexCmdRequest ι → Nat)
    (requests : List (IndexCmdRequest ι)) (choice : Option (IndexCmdRequest ι)) :
    Decidable (IsFirst key requests choice) :=
  match choice with
  | none => inferInstanceAs (Decidable (requests = []))
  | some _ => inferInstanceAs (Decidable (_ ∧ _))

/-- The requests for `GetSkippableRequestFromIndexQueue`. -/
def skippableRequests (expireTimeInSeconds : Nat) (skipCollections : List Nat)
    (shared : Shared ι) : List (IndexCmdRequest ι) :=
  shared.requests.filter fun request =>
    request.row.status = .skippable ∧ request.row.updateTime + expireTimeInSeconds < shared.now
      ∧ request.row.collectionId ∉ skipCollections

/-- The requests for `GetRequestFromIndexQueue`: those of the collection that are not
being built, or whose build has no process any more. -/
def eligibleRequests [DecidableEq ι] (collectionId : Nat) (shared : Shared ι) :
    List (IndexCmdRequest ι) :=
  shared.requests.filter fun request =>
    request.row.collectionId = collectionId
      ∧ ((request.row.status ≠ .inprogress ∧ request.row.status ≠ .skippable)
        ∨ (request.row.status = .inprogress
          ∧ ∃ pid ∈ shared.ended, request.row.globalPid = some pid))

/-- An answer to the query of `GetCollectionIdsForIndexBuild`, before the limit. -/
def IsListing (excludeCollectionIds : List Nat) (shared : Shared ι)
    (order : List (IndexCmdRequest ι)) : Prop :=
  order.Perm (shared.requests.filter fun request =>
    request.row.collectionId ∉ excludeCollectionIds)
  ∧ order.Pairwise fun a b => a.row.status.toNat ≤ b.row.status.toNat

instance [DecidableEq ι] (excludeCollectionIds : List Nat) (shared : Shared ι)
    (order : List (IndexCmdRequest ι)) : Decidable (IsListing excludeCollectionIds shared order) :=
  inferInstanceAs (Decidable (_ ∧ _))

-- ---- what a statement changes

section Lookup

variable {shared : Shared ι} {indexId other : Nat} {row : Row ι}
  {status : IndexCmdStatus} {comment : Option Comment} {opId : Option ι}
  {attemptCount collectionId : Nat}

theorem lookup_mark_of_ne (h : other ≠ indexId) :
    (markIndexRequestStatus indexId status comment opId attemptCount
      shared).queue.lookup other = shared.queue.lookup other := by
  unfold markIndexRequestStatus
  split
  · rfl
  · split
    · exact AList.lookup_insert_ne h
    · rfl

theorem lookup_mark (h : shared.queue.lookup indexId = some row)
    (hstatus : row.status ≠ .skippable) :
    (markIndexRequestStatus indexId status comment opId attemptCount
      shared).queue.lookup indexId = some { row with
        status := status
        comment := comment.or row.comment
        updateTime := shared.now
        attemptCount := attemptCount
        globalPid := opId.or row.globalPid } := by
  have hlt : row.status.toNat < IndexCmdStatus.skippable.toNat := by
    cases hrow : row.status with
    | skippable => exact absurd hrow hstatus
    | _ => decide
  unfold markIndexRequestStatus
  rw [h]
  dsimp only
  rw [if_pos hlt]
  exact AList.lookup_insert _

theorem records_mark : (markIndexRequestStatus indexId status comment opId attemptCount
      shared).records = shared.records := by
  unfold markIndexRequestStatus
  split
  · rfl
  · split
    · rfl
    · rfl

theorem queue_delete :
    (deleteCollectionIndexRecord collectionId indexId shared).queue = shared.queue := by
  unfold deleteCollectionIndexRecord
  split
  · rfl
  · split
    · rfl
    · rfl

theorem lookup_delete_of_ne (h : other ≠ indexId) :
    (deleteCollectionIndexRecord collectionId indexId shared).records.lookup other
      = shared.records.lookup other := by
  unfold deleteCollectionIndexRecord
  split
  · rfl
  · split
    · exact AList.lookup_erase_ne h
    · rfl

theorem lookup_delete (h : ∀ record, shared.records.lookup indexId = some record →
      record.collectionId = collectionId) :
    (deleteCollectionIndexRecord collectionId indexId shared).records.lookup indexId = none := by
  unfold deleteCollectionIndexRecord
  cases hrecord : shared.records.lookup indexId with
  | none => exact hrecord
  | some record =>
    dsimp only
    rw [if_pos (h record hrecord)]
    exact AList.lookup_erase indexId shared.records

theorem queue_markIndexAsValid : (markIndexAsValid indexId shared).queue = shared.queue := by
  unfold markIndexAsValid
  split
  · rfl
  · rfl

theorem lookup_markIndexAsValid_of_ne (h : other ≠ indexId) :
    (markIndexAsValid indexId shared).records.lookup other = shared.records.lookup other := by
  unfold markIndexAsValid
  split
  · rfl
  · exact AList.lookup_insert_ne h

theorem lookup_markIndexAsValid {record : IndexRecord}
    (h : shared.records.lookup indexId = some record) :
    (markIndexAsValid indexId shared).records.lookup indexId
      = some { record with isValid := true } := by
  unfold markIndexAsValid
  rw [h]
  exact AList.lookup_insert _

theorem lookup_of_mem_requests {request : IndexCmdRequest ι} (h : request ∈ shared.requests) :
    shared.queue.lookup request.indexId = some request.row := by
  obtain ⟨entry, hentry, rfl⟩ := List.mem_map.1 h
  exact AList.mem_lookup_iff.2 hentry

end Lookup

end Statements

-- ==== locks

section Locks

variable {ι : Type} [DecidableEq ι]

/-- `AcquireAdvisoryExclusiveSessionLockForCreateIndexBackground`, by a session. It
does not wait: there is no result if another session has the lock. -/
def acquireLock (i : ι) (collectionId : Nat) (shared : Shared ι) : Option (Shared ι) :=
  match shared.locks collectionId with
  | none => some { shared with
      locks := Function.update shared.locks collectionId (some ⟨i, 0⟩) }
  | some lock =>
    if lock.owner = i then some { shared with
      locks := Function.update shared.locks collectionId
        (some ⟨i, lock.more + 1⟩) }
    else none

/-- `ReleaseAdvisoryExclusiveSessionLockForCreateIndexBackground`. Without the lock
there is a warning. -/
def releaseLock (i : ι) (collectionId : Nat) (shared : Shared ι) : Shared ι :=
  match shared.locks collectionId with
  | none => shared
  | some lock =>
    if lock.owner = i then { shared with
      locks := Function.update shared.locks collectionId (match lock.more with
          | 0 => none
          | more + 1 => some ⟨i, more⟩) }
    else shared

def releaseAll (i : ι) (shared : Shared ι) : Shared ι :=
  { shared with
    locks := fun collectionId => (shared.locks collectionId).filter (·.owner ≠ i) }

def Lock.count (i : ι) : Option (Lock ι) → Nat
  | none => 0
  | some lock => if lock.owner = i then lock.more + 1 else 0

/-- How many times a session has the lock of a collection. -/
def held (i : ι) (collectionId : Nat) (shared : Shared ι) : Nat :=
  Lock.count i (shared.locks collectionId)

variable {i j : ι} {c c' : Nat} {shared shared' : Shared ι}

theorem Lock.count_self (i : ι) (more : Nat) : Lock.count i (some ⟨i, more⟩) = more + 1 :=
  if_pos rfl

theorem Lock.count_other (h : j ≠ i) (more : Nat) : Lock.count j (some ⟨i, more⟩) = 0 :=
  if_neg fun heq => h heq.symm

theorem Lock.cases (i : ι) (lock : Option (Lock ι)) :
    (Lock.count i lock = 0 ∧ (lock = none ∨ ∃ k more, k ≠ i ∧ lock = some ⟨k, more⟩))
    ∨ ∃ more, lock = some ⟨i, more⟩ := by
  cases lock with
  | none => exact Or.inl ⟨rfl, Or.inl rfl⟩
  | some lock =>
    by_cases howner : lock.owner = i
    · subst howner
      exact Or.inr ⟨lock.more, rfl⟩
    · exact Or.inl ⟨if_neg howner, Or.inr ⟨lock.owner, lock.more, howner, rfl⟩⟩

theorem held_exclusive (hi : 0 < held i c shared) (hj : 0 < held j c shared) : i = j := by
  rcases Lock.cases i (shared.locks c) with ⟨hzero, -⟩ | ⟨more, hlock⟩
  · exact absurd hi (by rw [held, hzero]; exact Nat.lt_irrefl 0)
  · by_contra hne
    rw [held, hlock, Lock.count_other (Ne.symm hne)] at hj
    exact Nat.lt_irrefl 0 hj

theorem held_update (lock : Option (Lock ι)) :
    held j c' { shared with locks := Function.update shared.locks c lock }
      = if c' = c then Lock.count j lock else held j c' shared := by
  show Lock.count j (Function.update shared.locks c lock c') = _
  by_cases hc : c' = c
  · subst hc
    rw [if_pos rfl, Function.update_self]
  · rw [if_neg hc, Function.update_of_ne hc]
    rfl

theorem acquireLock_eq (h : acquireLock i c shared = some shared') : shared' = { shared with
        locks := Function.update shared.locks c (some ⟨i, held i c shared⟩) }
      ∧ ∀ k, k ≠ i → held k c shared = 0 := by
  unfold acquireLock at h
  unfold held
  rcases Lock.cases i (shared.locks c) with ⟨-, hlock | ⟨k, more, hk, hlock⟩⟩
    | ⟨more, hlock⟩
  · rw [hlock] at h ⊢
    cases h
    exact ⟨rfl, fun _ _ => rfl⟩
  · rw [hlock] at h
    dsimp only at h
    rw [if_neg hk] at h
    cases h
  · rw [hlock] at h ⊢
    dsimp only at h
    rw [if_pos rfl] at h
    cases h
    rw [Lock.count_self]
    exact ⟨rfl, fun k hk => Lock.count_other hk more⟩

theorem held_acquireLock (h : acquireLock i c shared = some shared') :
    held j c' shared' = held j c' shared + if j = i ∧ c' = c then 1 else 0 := by
  obtain ⟨rfl, hothers⟩ := acquireLock_eq h
  rw [held_update]
  by_cases hc : c' = c
  · subst hc
    rw [if_pos rfl]
    by_cases hj : j = i
    · subst hj
      rw [Lock.count_self, if_pos ⟨rfl, rfl⟩]
    · rw [Lock.count_other hj, hothers j hj, if_neg fun hboth => hj hboth.1]
  · rw [if_neg hc, if_neg fun hboth => hc hboth.2, Nat.add_zero]

theorem releaseLock_eq (i : ι) (c : Nat) (shared : Shared ι) :
    ∃ locks, releaseLock i c shared = { shared with locks := locks } := by
  unfold releaseLock
  split
  · exact ⟨shared.locks, rfl⟩
  · split
    · exact ⟨_, rfl⟩
    · exact ⟨shared.locks, rfl⟩

theorem queue_releaseLock : (releaseLock i c shared).queue = shared.queue := by
  obtain ⟨locks, heq⟩ := releaseLock_eq i c shared
  rw [heq]

theorem records_releaseLock : (releaseLock i c shared).records = shared.records := by
  obtain ⟨locks, heq⟩ := releaseLock_eq i c shared
  rw [heq]

theorem nextIndexId_releaseLock : (releaseLock i c shared).nextIndexId = shared.nextIndexId := by
  obtain ⟨locks, heq⟩ := releaseLock_eq i c shared
  rw [heq]

theorem ended_releaseLock : (releaseLock i c shared).ended = shared.ended := by
  obtain ⟨locks, heq⟩ := releaseLock_eq i c shared
  rw [heq]

theorem held_releaseLock :
    held j c' (releaseLock i c shared) = held j c' shared - if j = i ∧ c' = c then 1 else 0 := by
  -- without the lock nothing changes
  have hfree : Lock.count i (shared.locks c) = 0 → held j c' shared
      = held j c' shared - if j = i ∧ c' = c then 1 else 0 := by
    intro hzero
    by_cases hboth : j = i ∧ c' = c
    · obtain ⟨rfl, rfl⟩ := hboth
      rw [held, hzero, Nat.zero_sub]
    · rw [if_neg hboth, Nat.sub_zero]
  unfold releaseLock
  rcases Lock.cases i (shared.locks c) with ⟨hzero, hlock | ⟨k, more, hk, hlock⟩⟩
    | ⟨more, hlock⟩
  · rw [hlock]
    exact hfree hzero
  · rw [hlock]
    dsimp only
    rw [if_neg hk]
    exact hfree hzero
  · rw [hlock]
    dsimp only
    rw [if_pos rfl, held_update]
    by_cases hc : c' = c
    · subst hc
      rw [if_pos rfl, held, hlock]
      by_cases hj : j = i
      · subst hj
        rw [Lock.count_self, if_pos ⟨rfl, rfl⟩]
        cases more with
        | zero => rfl
        | succ more => exact Lock.count_self j more
      · rw [Lock.count_other hj, if_neg fun hboth => hj hboth.1]
        cases more with
        | zero => rfl
        | succ more => exact Lock.count_other hj more
    · rw [if_neg hc, if_neg fun hboth => hc hboth.2, Nat.sub_zero]

theorem held_releaseAll (hj : j ≠ i) : held j c (releaseAll i shared) = held j c shared := by
  show Lock.count j ((shared.locks c).filter (·.owner ≠ i)) = _
  unfold held
  rcases Lock.cases i (shared.locks c) with ⟨-, hlock | ⟨k, more, hk, hlock⟩⟩
    | ⟨more, hlock⟩
  · rw [hlock]
    rfl
  · rw [hlock, Option.filter_some, if_pos (decide_eq_true hk)]
  · rw [hlock, Option.filter_some, if_neg (by simp), Lock.count_other hj]
    rfl

end Locks

end DocumentDb.IndexBuild
