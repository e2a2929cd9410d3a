/-
Single writes by `_id` on a collection that is sharded by another key.

The shard of the document is looked up, and the write is done there. In between other
writers may change the document; a write that finds nothing is tried again, five times at
most. With a transaction id a try that finds nothing leaves a record, from which the next
one in the same shard is answered. So the tries of one shard write and are answered in turn
(`startOf_iff`), and a document that is there at an answered try is not written.
-/
import DocumentDb.Commands.DeleteOne
import Mathlib.Algebra.Ring.Parity

namespace DocumentDb

open List Option Nat

/-- The rows that the statements of a command see, with what other writers have
committed. The command itself writes nothing before it ends. -/
structure Schedule (Document ObjectId : Type) where
  /-- The rows at the lookup of a try. -/
  atLookup : Nat → List (CollectionRow Document ObjectId)
  /-- The rows at the write of a try. -/
  atWrite : Nat → List (CollectionRow Document ObjectId)

def maxTries : Nat := 5

section Tries

variable {Result Document ObjectId TransactionId Error : Type} [DecidableEq TransactionId]
  -- `FindShardKeyValueForDocumentId`
  (find : List (CollectionRow Document ObjectId) → Except Error (Option UInt64))
  -- the write in one shard, on the result of the try before
  (call : UInt64 → Result → UpdateState TransactionId Document ObjectId →
    Except Error (Result × UpdateState TransactionId Document ObjectId))
  (isDone : Result → Bool) (accept : Result → Except Error Unit)
  (failedToWrite : Error) (schedule : Schedule Document ObjectId)

/-- The loop of `UpdateOneObjectId` and `DeleteOneObjectId`. -/
def tries : (left tryNumber : Nat) → Result → RetryTable TransactionId ObjectId Document →
      Except Error (Result × UpdateState TransactionId Document ObjectId)
  | 0, _, _, _ => .error failedToWrite
  | left + 1, tryNumber, result, retryTable =>
    match find (schedule.atLookup tryNumber) with
    | .error e => .error e
    | .ok none => .ok (result, ⟨schedule.atLookup tryNumber, retryTable⟩)
    | .ok (some shardKeyValue) =>
      match call shardKeyValue result ⟨schedule.atWrite tryNumber, retryTable⟩ with
      | .error e => .error e
      | .ok (result, s) =>
        if isDone result then
          match accept result with
          | .error e => .error e
          | .ok () => .ok (result, s)
        else tries left (tryNumber + 1) result s.retryTable

end Tries

section Commands

variable {BsonValue Document ObjectId TransactionId Error : Type} [DecidableEq TransactionId]

def UpdateOneResult.isDone (result : UpdateOneResult Document ObjectId) : Bool :=
  result.isRowUpdated || result.updateSkipped

def updateOneObjectId (calls : UpdateCalls BsonValue Document ObjectId Error)
    (updateOneParams : UpdateOneParams BsonValue)
    (findShardKeyValueForDocumentId : List (CollectionRow Document ObjectId) →
      Except Error (Option UInt64))
    (shardKeyUpdateNotSupported failedToUpdate : Error) (transactionId : Option TransactionId)
    (schedule : Schedule Document ObjectId)
    (retryTable : RetryTable TransactionId ObjectId Document) :
    Except Error (UpdateOneResult Document ObjectId
      × UpdateState TransactionId Document ObjectId) :=
  match transactionId.bind (findRetryRecordInAnyShard · retryTable) with
  | some writeResult =>
    .ok ({ isRetry := true, isRowUpdated := writeResult.rowsAffected },
      ⟨schedule.atLookup 0, retryTable⟩)
  | none =>
    tries findShardKeyValueForDocumentId
      (fun shardKeyValue => callUpdateOne calls updateOneParams shardKeyValue transactionId)
      UpdateOneResult.isDone
      (fun result =>
        if result.reinsertDocument.isSome then
          .error shardKeyUpdateNotSupported
        else .ok ())
      failedToUpdate schedule maxTries 0 {} retryTable

def deleteOneObjectId (select : SelectForDelete BsonValue Document ObjectId Error)
    (query : BsonValue) (findShardKeyValueForDocumentId : List (CollectionRow Document ObjectId) →
      Except Error (Option UInt64)) (failedToDelete : Error) (transactionId : Option TransactionId)
    (schedule : Schedule Document ObjectId)
    (retryTable : RetryTable TransactionId ObjectId Document) :
    Except Error (DeleteOneResult Document ObjectId
      × UpdateState TransactionId Document ObjectId) :=
  match transactionId.bind (findRetryRecordInAnyShard · retryTable) with
  | some writeResult =>
    .ok (⟨writeResult.rowsAffected, none, none⟩, ⟨schedule.atLookup 0, retryTable⟩)
  | none =>
    tries findShardKeyValueForDocumentId
      (fun shardKeyValue _ => callDeleteOne select shardKeyValue query transactionId)
      DeleteOneResult.isRowDeleted (fun _ => .ok ()) failedToDelete schedule
      maxTries 0 ⟨false, none, none⟩ retryTable

end Commands

-- ==== what a try should do

/-- A query by `_id`: the documents that have it and match the rest of the
query. -/
structure ObjectIdQuery (Document ObjectId : Type) where
  objectId : ObjectId
  isMatch : Document → Bool

structure ObjectIdQuery.IsDocument {Document ObjectId : Type}
    (q : ObjectIdQuery Document ObjectId) (shardKeyValue : UInt64)
    (row : CollectionRow Document ObjectId) : Prop where
  shardKeyValue : row.shardKeyValue = shardKeyValue
  objectId : row.objectId = q.objectId
  isMatch : q.isMatch row.document = true

section Records

variable {Result Document ObjectId TransactionId Error : Type} [DecidableEq TransactionId]
  (find : List (CollectionRow Document ObjectId) → Except Error (Option UInt64))
  (call : UInt64 → Result → UpdateState TransactionId Document ObjectId →
    Except Error (Result × UpdateState TransactionId Document ObjectId))
  -- the write in one shard, without records
  (write : UInt64 → List (CollectionRow Document ObjectId) →
    Except Error (Result × List (CollectionRow Document ObjectId)))
  (isDone : Result → Bool) (schedule : Schedule Document ObjectId)
  (q : ObjectIdQuery Document ObjectId)

/-- The document is found by the lookup of a try, and is there unchanged at
its write. -/
structure StaysFound (tryNumber : Nat) (shardKeyValue : UInt64) : Prop where
  found : find (schedule.atLookup tryNumber) = .ok (some shardKeyValue)
  stays : ∃ row, q.IsDocument shardKeyValue row
    ∧ row ∈ schedule.atLookup tryNumber ∧ row ∈ schedule.atWrite tryNumber

/-- What the loop goes on with after a try, where it goes on. -/
def nextTry (tryNumber : Nat) (start : Result × RetryTable TransactionId ObjectId Document) :
    Option (Result × RetryTable TransactionId ObjectId Document) :=
  match find (schedule.atLookup tryNumber) with
  | .ok (some shardKeyValue) =>
    match call shardKeyValue start.1 ⟨schedule.atWrite tryNumber, start.2⟩ with
    | .ok (result, s) =>
      if isDone result then none else some (result, s.retryTable)
    | .error _ => none
  | _ => none

/-- What the loop has at the start of a try, where it comes to it. -/
def startOf (start : Result × RetryTable TransactionId ObjectId Document) :
    Nat → Option (Result × RetryTable TransactionId ObjectId Document)
  | 0 => some start
  | tryNumber + 1 =>
    (startOf start tryNumber).bind (nextTry find call isDone schedule tryNumber)

/-- Every try whose document stays does the write, and the command ends with
what it returned. -/
def UsesEveryTry (start : Result × RetryTable TransactionId ObjectId Document)
    (outcome : Except Error (Result × UpdateState TransactionId Document ObjectId)) : Prop :=
  ∀ tryNumber < maxTries, ∀ x, startOf find call isDone schedule start tryNumber = some x →
      ∀ shardKeyValue, StaysFound find schedule q tryNumber shardKeyValue →
          ∃ result rows retryTable, write shardKeyValue (schedule.atWrite tryNumber)
                = .ok (result, rows)
              ∧ isDone result = true
              ∧ call shardKeyValue x.1 ⟨schedule.atWrite tryNumber, x.2⟩
                = .ok (result, ⟨rows, retryTable⟩)
              ∧ outcome = .ok (result, ⟨rows, retryTable⟩)

-- ==== the visits

variable (shardKeyValue : UInt64) (tryNumber : Nat)

def looksIn : Bool :=
  match find (schedule.atLookup tryNumber) with
  | .ok (some found) => found == shardKeyValue
  | _ => false

/-- How many of the tries before this one were in a shard. -/
def visits : Nat :=
  (List.range tryNumber).countP (looksIn find schedule shardKeyValue)

/-- The try is answered from a record, or finds nothing in the shard. -/
def Misses : Prop :=
  ∃ shardKeyValue, find (schedule.atLookup tryNumber) = .ok (some shardKeyValue)
    ∧ (Odd (visits find schedule shardKeyValue tryNumber)
      ∨ ∃ result rows, write shardKeyValue (schedule.atWrite tryNumber) = .ok (result, rows)
        ∧ isDone result = false)

/-- Every try whose document stays comes to its shard for the first time, or
for the third and so on, and its write has a result that is accepted. -/
def EveryTryIsFree (accept : Result → Except Error Unit) : Prop :=
  ∀ tryNumber < maxTries, (∀ m < tryNumber, Misses find write isDone schedule m) → ∀ shardKeyValue,
        StaysFound find schedule q tryNumber shardKeyValue →
          Even (visits find schedule shardKeyValue tryNumber)
            ∧ ∃ result rows, write shardKeyValue (schedule.atWrite tryNumber) = .ok (result, rows)
              ∧ accept result = .ok ()

/-- A write with a transaction id, by its record in the shard: it is answered
from a record without a row, and a write that finds nothing leaves one. -/
structure WritesByRecord (id : TransactionId) : Prop where
  answered : ∀ {shardKeyValue result rows retryTable record},
    (deleteRetryRecord shardKeyValue id retryTable).1 = some record →
      record.rowsAffected = false → isDone result = false → ∃ answer,
          call shardKeyValue result ⟨rows, retryTable⟩ = .ok (answer,
              ⟨rows, (deleteRetryRecord shardKeyValue id retryTable).2⟩)
            ∧ isDone answer = false
  fails : ∀ {shardKeyValue result rows retryTable e},
    (deleteRetryRecord shardKeyValue id retryTable).1 = none →
      write shardKeyValue rows = .error e → call shardKeyValue result ⟨rows, retryTable⟩ = .error e
  writes : ∀ {shardKeyValue result rows retryTable newResult newRows},
    (deleteRetryRecord shardKeyValue id retryTable).1 = none →
      write shardKeyValue rows = .ok (newResult, newRows) → ∃ newTable,
          call shardKeyValue result ⟨rows, retryTable⟩ = .ok (newResult, ⟨newRows, newTable⟩)
            ∧ (isDone newResult = false → ∃ objectId resultDocument,
              newTable = insertRetryRecord shardKeyValue id
                (deleteRetryRecord shardKeyValue id retryTable).2 objectId
                false resultDocument)

-- ==== the records

variable {find call write isDone schedule} {accept : Result → Except Error Unit}
  {failedToWrite : Error} {id : TransactionId} {k : Nat}
  {x y start : Result × RetryTable TransactionId ObjectId Document}

theorem visits_zero (shard : UInt64) : visits find schedule shard 0 = 0 := rfl

variable {shard : UInt64} {left : Nat}

theorem visits_of_found (h : find (schedule.atLookup k) = .ok (some shard)) (other : UInt64) :
    visits find schedule other (k + 1)
      = visits find schedule other k + if other = shard then 1 else 0 := by
  unfold visits
  rw [range_succ, countP_append, countP_singleton]
  unfold looksIn
  rw [h]
  by_cases hother : other = shard
  · simp [hother]
  · simp [hother, Ne.symm hother]

/-- At the start of a try: there is a record in a shard exactly where the
number of tries in it was odd, and it is one without a row. -/
structure RecordsByVisits (find : List (CollectionRow Document ObjectId) →
      Except Error (Option UInt64))
    (isDone : Result → Bool) (schedule : Schedule Document ObjectId)
    (id : TransactionId) (tryNumber : Nat)
    (x : Result × RetryTable TransactionId ObjectId Document) : Prop where
  notDone : isDone x.1 = false
  even : ∀ shardKeyValue, Even (visits find schedule shardKeyValue tryNumber) →
      (deleteRetryRecord shardKeyValue id x.2).1 = none
  odd : ∀ shardKeyValue, Odd (visits find schedule shardKeyValue tryNumber) →
      ∃ record, (deleteRetryRecord shardKeyValue id x.2).1 = some record
        ∧ record.rowsAffected = false

/-- The step: the records of other shards stay, and in the shard of the try there is
one exactly where there was none. -/
theorem RecordsByVisits.step (h : RecordsByVisits find isDone schedule id k x)
    (hfound : find (schedule.atLookup k) = .ok (some shard)) (hdone : isDone y.1 = false)
    (hothers : ∀ other ≠ shard, (deleteRetryRecord other id y.2).1
      = (deleteRetryRecord other id x.2).1)
    (hodd : Odd (visits find schedule shard k) → (deleteRetryRecord shard id y.2).1 = none)
    (heven : Even (visits find schedule shard k) →
      ∃ record, (deleteRetryRecord shard id y.2).1 = some record ∧ record.rowsAffected = false) :
    RecordsByVisits find isDone schedule id (k + 1) y := by
  refine ⟨hdone, fun other hvisits => ?_, fun other hvisits => ?_⟩
  all_goals
    rw [visits_of_found hfound] at hvisits
    by_cases hother : other = shard
  · rw [if_pos hother, hother, Nat.even_add_one, not_even_iff_odd] at hvisits
    exact hother ▸ hodd hvisits
  · rw [if_neg hother, Nat.add_zero] at hvisits
    exact (hothers other hother).trans (h.even other hvisits)
  · rw [if_pos hother, hother, Nat.odd_add_one, not_odd_iff_even] at hvisits
    exact hother ▸ heven hvisits
  · rw [if_neg hother, Nat.add_zero] at hvisits
    rw [hothers other hother]
    exact h.odd other hvisits

omit [DecidableEq TransactionId] in
theorem nextTry_eq_some : nextTry find call isDone schedule k x = some y ↔ ∃ shard result s,
      find (schedule.atLookup k) = .ok (some shard)
        ∧ call shard x.1 ⟨schedule.atWrite k, x.2⟩ = .ok (result, s)
        ∧ isDone result = false ∧ (result, s.retryTable) = y := by
  unfold nextTry
  rcases find (schedule.atLookup k) with e | _ | shard
  · simp
  · simp
  · rcases hcall : call shard x.1 ⟨schedule.atWrite k, x.2⟩ with e | ⟨r, s⟩
    · simp [hcall]
    · cases hdone : isDone r <;> simp [hcall, hdone]

theorem RecordsByVisits.next (hwrites : WritesByRecord call write isDone id)
    (h : RecordsByVisits find isDone schedule id k x) :
    (∀ y, nextTry find call isDone schedule k x = some y →
      Misses find write isDone schedule k ∧ RecordsByVisits find isDone schedule id (k + 1) y)
    ∧ (Misses find write isDone schedule k →
      ∃ y, nextTry find call isDone schedule k x = some y) := by
  constructor
  · intro y hy
    obtain ⟨shard, result, s, hfound, hcall, hdone, rfl⟩ := nextTry_eq_some.1 hy
    rcases even_or_odd (visits find schedule shard k) with heven | hodd
    · have hnone := h.even shard heven
      cases hwrite : write shard (schedule.atWrite k) with
      | error e =>
        rw [hwrites.fails hnone hwrite] at hcall
        cases hcall
      | ok written =>
        obtain ⟨table, hcall', htable⟩ := @WritesByRecord.writes _ _ _ _
          _ _ _ _ _ _ hwrites _ x.1 _ _ _ _ hnone hwrite
        rw [hcall'] at hcall
        cases hcall
        obtain ⟨objectId, resultDocument, rfl⟩ := htable hdone
        refine ⟨⟨shard, hfound, .inr ⟨_, _, hwrite, hdone⟩⟩,
          h.step hfound hdone (fun other hother => ?_)
            (fun hodd => absurd heven (not_even_iff_odd.2 hodd))
            fun _ => ⟨_, deleteRetryRecord_insert deleteRetryRecord_deleted, rfl⟩⟩
        rw [insertRetryRecord_other hother, deleteRetryRecord_other hother]
    · obtain ⟨record, hrecord, hrows⟩ := h.odd shard hodd
      obtain ⟨answer, hcall', hanswer⟩ := hwrites.answered hrecord hrows h.notDone
      rw [hcall'] at hcall
      cases hcall
      exact ⟨⟨shard, hfound, .inl hodd⟩,
        h.step hfound hanswer (fun other hother => deleteRetryRecord_other hother)
          (fun _ => deleteRetryRecord_deleted)
          fun heven => absurd heven (not_even_iff_odd.2 hodd)⟩
  · rintro ⟨shard, hfound, hmiss⟩
    rcases even_or_odd (visits find schedule shard k) with heven | hodd
    · obtain ⟨result, rows, hwrite, hdone⟩ :=
        hmiss.resolve_left (not_odd_iff_even.2 heven)
      obtain ⟨table, hcall, -⟩ := @WritesByRecord.writes _ _ _ _ _ _ _ _ _ _
        hwrites _ x.1 _ _ _ _ (h.even shard heven) hwrite
      exact ⟨_, nextTry_eq_some.2 ⟨_, _, _, hfound, hcall, hdone, rfl⟩⟩
    · obtain ⟨record, hrecord, hrows⟩ := h.odd shard hodd
      obtain ⟨answer, hcall, hanswer⟩ := hwrites.answered hrecord hrows h.notDone
      exact ⟨_, nextTry_eq_some.2 ⟨_, _, _, hfound, hcall, hanswer, rfl⟩⟩

theorem startOf_iff (hwrites : WritesByRecord call write isDone id)
    (h : RecordsByVisits find isDone schedule id 0 start) (attempt : Nat) :
    (∀ x, startOf find call isDone schedule start attempt = some x →
      (∀ m < attempt, Misses find write isDone schedule m)
        ∧ RecordsByVisits find isDone schedule id attempt x)
    ∧ ((∀ m < attempt, Misses find write isDone schedule m) →
      ∃ x, startOf find call isDone schedule start attempt = some x) := by
  induction attempt with
  | zero =>
    refine ⟨fun x hx => ?_, fun _ => ⟨start, rfl⟩⟩
    cases hx
    exact ⟨fun m hm => absurd hm (Nat.not_lt_zero m), h⟩
  | succ attempt ih =>
    refine ⟨fun y hy => ?_, fun hmisses => ?_⟩
    · obtain ⟨x, hx, hnext⟩ := bind_eq_some_iff.1 hy
      obtain ⟨hbefore, hrecords⟩ := ih.1 x hx
      obtain ⟨hmiss, hrecords'⟩ := (hrecords.next hwrites).1 y hnext
      refine ⟨fun m hm => ?_, hrecords'⟩
      rcases Nat.lt_succ_iff_lt_or_eq.1 hm with hlt | rfl
      · exact hbefore m hlt
      · exact hmiss
    · obtain ⟨x, hx⟩ := ih.2 fun m hm =>
        hmisses m (lt_succ_of_lt hm)
      obtain ⟨y, hy⟩ := ((ih.1 x hx).2.next hwrites).2 (hmisses attempt (lt_succ_self _))
      exact ⟨y, bind_eq_some_iff.2 ⟨x, hx, hy⟩⟩

omit [DecidableEq TransactionId] in
theorem tries_of_startOf (hle : k ≤ left)
    (hx : startOf find call isDone schedule start k = some x) :
    tries find call isDone accept failedToWrite schedule left 0 start.1 start.2
      = tries find call isDone accept failedToWrite schedule (left - k) k x.1 x.2 := by
  induction k generalizing x with
  | zero =>
    cases hx
    rfl
  | succ k ih =>
    obtain ⟨w, hw, hnext⟩ := bind_eq_some_iff.1 hx
    rw [ih (le_of_succ_le hle) hw, show left - k = (left - (k + 1)) + 1 by omega, tries]
    obtain ⟨shard, result, s, hfound, hcall, hdone, rfl⟩ := nextTry_eq_some.1 hnext
    simp only [hfound, hcall, hdone, Bool.false_eq_true, if_false]

omit [DecidableEq TransactionId] in
theorem tries_of_done (hlt : k < left)
    {result : Result} {s : UpdateState TransactionId Document ObjectId}
    (hx : startOf find call isDone schedule start k = some x)
    (hfound : find (schedule.atLookup k) = .ok (some shard))
    (hcall : call shard x.1 ⟨schedule.atWrite k, x.2⟩ = .ok (result, s)) (hdone : isDone result) :
    tries find call isDone accept failedToWrite schedule left 0 start.1 start.2
      = match accept result with
        | .error e => .error e
        | .ok () => .ok (result, s) := by
  rw [tries_of_startOf (Nat.le_of_lt hlt) hx,
    show left - k = (left - k - 1) + 1 by omega, tries, hfound]
  simp only [hcall, hdone, if_true]

theorem usesEveryTry_iff (hwrites : WritesByRecord call write isDone id)
    (h : RecordsByVisits find isDone schedule id 0 start) {q : ObjectIdQuery Document ObjectId}
    (hdone : ∀ shard rows result newRows, (∃ row ∈ rows, q.IsDocument shard row) →
        write shard rows = .ok (result, newRows) → isDone result) :
    UsesEveryTry find call write isDone schedule q start
        (tries find call isDone accept failedToWrite schedule maxTries 0 start.1 start.2)
      ↔ EveryTryIsFree find write isDone schedule q accept := by
  constructor
  · intro huses k hlt hmisses shard hstays
    obtain ⟨x, hx⟩ := (startOf_iff hwrites h k).2 hmisses
    obtain ⟨result, rows, table, hwrite, hresult, hcall, houtcome⟩ := huses k hlt x hx shard hstays
    have hrecords := ((startOf_iff hwrites h k).1 x hx).2
    refine ⟨?_, result, rows, hwrite, ?_⟩
    · -- a record would have answered
      rcases even_or_odd (visits find schedule shard k) with heven | hodd
      · exact heven
      · obtain ⟨record, hrecord, hrows⟩ := hrecords.odd shard hodd
        obtain ⟨answer, hanswered, hanswer⟩ := hwrites.answered hrecord hrows hrecords.notDone
        rw [hanswered] at hcall
        cases hcall
        rw [hresult] at hanswer
        cases hanswer
    · rw [tries_of_done hlt hx hstays.found hcall hresult] at houtcome
      cases haccept : accept result with
      | ok _ => rfl
      | error e =>
        rw [haccept] at houtcome
        cases houtcome
  · intro hfree k hlt x hx shard hstays
    obtain ⟨hmisses, hrecords⟩ := (startOf_iff hwrites h k).1 x hx
    obtain ⟨heven, result, rows, hwrite, haccept⟩ := hfree k hlt hmisses shard hstays
    obtain ⟨table, hcall, -⟩ := @WritesByRecord.writes _ _ _ _ _ _ _ _ _ _
      hwrites _ x.1 _ _ _ _ (hrecords.even shard heven) hwrite
    obtain ⟨row, hdocument, -, hrow⟩ := hstays.stays
    have hresult := hdone shard _ result rows ⟨row, hrow, hdocument⟩ hwrite
    refine ⟨result, rows, table, hwrite, hresult, hcall, ?_⟩
    rw [tries_of_done hlt hx hstays.found hcall hresult, haccept]

end Records

-- ==== updates and deletes

section Instances

variable {BsonValue Document ObjectId TransactionId Error : Type} [DecidableEq TransactionId]
  (calls : UpdateCalls BsonValue Document ObjectId Error)
  (updateOneParams : UpdateOneParams BsonValue)
  (select : SelectForDelete BsonValue Document ObjectId Error)
  (query : BsonValue) (id : TransactionId)

theorem callUpdateOne_writesByRecord : WritesByRecord
      (fun shard => callUpdateOne calls updateOneParams shard (some id))
      (updateOneInternal calls updateOneParams) (@UpdateOneResult.isDone Document ObjectId) id where
  answered := by
    intro shard result rows retryTable record hrecord hrows hresult
    refine ⟨_, callUpdateOne_answered hrecord, ?_⟩
    unfold UpdateOneResult.isDone at hresult ⊢
    rw [Bool.or_eq_false_iff] at hresult ⊢
    exact ⟨hrows, hresult.2⟩
  fails := by
    intro shard result rows retryTable e hnone hwrite
    exact (callUpdateOne_recorded hnone).trans (by rw [hwrite]; rfl)
  writes := by
    intro shard result rows retryTable newResult newRows hnone hwrite
    refine ⟨_, (callUpdateOne_recorded hnone).trans (by rw [hwrite]; rfl),
      fun hnot => ⟨if updateOneParams.isUpsert then
        newResult.upsertedObjectId else none, newResult.resultDocument, ?_⟩⟩
    show insertRetryRecord _ _ _ _ newResult.isRowUpdated _ = _
    rw [(Bool.or_eq_false_iff.1 hnot).1]

theorem callDeleteOne_writesByRecord :
    WritesByRecord (fun shard (_ : DeleteOneResult Document ObjectId) =>
        callDeleteOne select shard query (some id))
      (fun shard => deleteOneRow select shard query)
      DeleteOneResult.isRowDeleted id where
  answered := by
    intro shard result rows retryTable record hrecord hrows hresult
    exact ⟨_, callDeleteOne_answered hrecord, hrows⟩
  fails := by
    intro shard result rows retryTable e hnone hwrite
    exact (callDeleteOne_recorded hnone).trans (by rw [hwrite]; rfl)
  writes := by
    intro shard result rows retryTable newResult newRows hnone hwrite
    refine ⟨_, (callDeleteOne_recorded hnone).trans (by rw [hwrite]; rfl),
      fun hnot => ⟨newResult.objectId, newResult.resultDeletedDocument, ?_⟩⟩
    rw [hnot]

variable {calls updateOneParams select query}
  {q : ObjectIdQuery Document ObjectId} {shard : UInt64}
  {rows newRows : List (CollectionRow Document ObjectId)}

theorem updateOneInternal_isDone {result : UpdateOneResult Document ObjectId}
    (hselect : calls.selectRow shard updateOneParams.query updateOneParams.sort rows ≠ .ok none)
    (h : updateOneInternal calls updateOneParams shard rows
      = .ok (result, newRows)) : result.isDone := by
  obtain ⟨hnone, -⟩ | ⟨_, -, updatedDocument, -, hskipped, hupdated, -⟩ :=
    updateOneInternal_result h
  · exact absurd hnone hselect
  · unfold UpdateOneResult.isDone
    rw [hskipped, hupdated]
    cases updatedDocument <;> rfl

theorem deleteOneRow_isRowDeleted {result : DeleteOneResult Document ObjectId}
    (hselect : select shard query rows ≠ .ok none)
    (h : deleteOneRow select shard query rows = .ok (result, newRows)) : result.isRowDeleted := by
  unfold deleteOneRow at h
  obtain ⟨found, hfound, h⟩ := Except.bind_eq_ok h
  cases found with
  | none => exact absurd hfound hselect
  | some ctid =>
    cases h
    rfl

variable {id : TransactionId}
  {retryTable : RetryTable TransactionId ObjectId Document}

theorem recordsByVisits_start {Result : Type}
    {find : List (CollectionRow Document ObjectId) → Except Error (Option UInt64)}
    {isDone : Result → Bool} {schedule : Schedule Document ObjectId} {result : Result}
    (hresult : isDone result = false) (hnone : findRetryRecordInAnyShard id retryTable = none) :
    RecordsByVisits find isDone schedule id 0 (result, retryTable) := by
  refine ⟨hresult, fun shard _ => ?_, fun shard hodd => ?_⟩
  · exact deleteRetryRecord_of_findRetryRecordInAnyShard hnone shard
  · rw [visits_zero] at hodd
    exact absurd hodd (by decide)

variable (calls updateOneParams select query)
  (find : List (CollectionRow Document ObjectId) → Except Error (Option UInt64))
  (shardKeyUpdateNotSupported failedToWrite : Error) (id : TransactionId)
  (schedule : Schedule Document ObjectId)
  (retryTable : RetryTable TransactionId ObjectId Document)
  (q : ObjectIdQuery Document ObjectId)

/-- `UpdateOneObjectId` with a transaction id makes use of every try. With a
record from an earlier attempt of the command there are no tries. -/
def UpdateUsesEveryTry : Prop :=
  findRetryRecordInAnyShard id retryTable = none → UsesEveryTry find
      (fun shardKeyValue => callUpdateOne calls updateOneParams shardKeyValue (some id))
      (updateOneInternal calls updateOneParams) UpdateOneResult.isDone schedule
      q ({}, retryTable)
      (updateOneObjectId calls updateOneParams find shardKeyUpdateNotSupported
        failedToWrite (some id) schedule retryTable)

/-- `DeleteOneObjectId` with a transaction id makes use of every try. -/
def DeleteUsesEveryTry : Prop :=
  findRetryRecordInAnyShard id retryTable = none → UsesEveryTry find
      (fun shardKeyValue _ => callDeleteOne select shardKeyValue query (some id))
      (fun shardKeyValue => deleteOneRow select shardKeyValue query)
      DeleteOneResult.isRowDeleted schedule q (⟨false, none, none⟩, retryTable)
      (deleteOneObjectId select query find failedToWrite (some id) schedule retryTable)

/-- An update and a delete by `_id` make use of every try, for the rows that
other writers leave at each lookup and at each write, exactly where no try
whose document stays comes to a record of an earlier try in its shard, and the
write itself has a result: it raises no error, and an update keeps the shard
key value. -/
theorem objectIdWrites_useEveryTry_iff (hselectRow : ∀ shardKeyValue rows,
      (∃ row ∈ rows, q.IsDocument shardKeyValue row) →
        calls.selectRow shardKeyValue updateOneParams.query updateOneParams.sort rows ≠ .ok none)
    (hselect : ∀ shardKeyValue rows,
      (∃ row ∈ rows, q.IsDocument shardKeyValue row) → select shardKeyValue query rows ≠ .ok none) :
    (UpdateUsesEveryTry calls updateOneParams find shardKeyUpdateNotSupported
        failedToWrite id schedule retryTable q
      ↔ (findRetryRecordInAnyShard id retryTable = none →
          EveryTryIsFree find (updateOneInternal calls updateOneParams)
            UpdateOneResult.isDone schedule q fun result =>
              if result.reinsertDocument.isSome then
                .error shardKeyUpdateNotSupported
              else .ok ()))
    ∧ (DeleteUsesEveryTry select query find failedToWrite id schedule retryTable q
      ↔ (findRetryRecordInAnyShard id retryTable = none → EveryTryIsFree find
            (fun shardKeyValue => deleteOneRow select shardKeyValue query)
            DeleteOneResult.isRowDeleted schedule q fun _ => .ok ())) := by
  constructor
  · apply forall_congr'
    intro hnone
    unfold updateOneObjectId
    rw [show (some id).bind (findRetryRecordInAnyShard · retryTable) = none from hnone]
    apply usesEveryTry_iff (callUpdateOne_writesByRecord calls updateOneParams
      id) (recordsByVisits_start rfl hnone)
    intro shardKeyValue rows result newRows hrow hwrite
    exact updateOneInternal_isDone (hselectRow shardKeyValue rows hrow) hwrite
  · apply forall_congr'
    intro hnone
    unfold deleteOneObjectId
    rw [show (some id).bind (findRetryRecordInAnyShard · retryTable) = none from hnone]
    apply usesEveryTry_iff (callDeleteOne_writesByRecord select query id)
      (recordsByVisits_start rfl hnone)
    intro shardKeyValue rows result newRows hrow hwrite
    exact deleteOneRow_isRowDeleted (hselect shardKeyValue rows hrow) hwrite

end Instances

-- ==== two tries

/-- An update that sets the value of the document with id 1. -/
def setValueById : UpdateOneParams Nat :=
  { setValueOfOne 20 with isUpsert := false }

def findOne (rows : List (CollectionRow (Nat × Nat) Nat)) : Except Unit (Option UInt64) :=
  .ok ((rows.find? fun row => row.objectId == 1).map (·.shardKeyValue))

def documentOne : ObjectIdQuery (Nat × Nat) Nat where
  objectId := 1
  isMatch d := d.1 == 1

def selectOne : SelectForDelete Nat (Nat × Nat) Nat Unit :=
  fun shardKeyHash query rows => .ok (rows.findFinIdx? fun row =>
    row.shardKeyValue == shardKeyHash && row.document.1 == query)

def rowOne : CollectionRow (Nat × Nat) Nat := ⟨7, 1, (1, 10)⟩

theorem findFinIdx_ne_none {shard : UInt64} {rows : List (CollectionRow (Nat × Nat) Nat)}
    (h : ∃ row ∈ rows, documentOne.IsDocument shard row) : (rows.findFinIdx? fun row =>
      row.shardKeyValue == shard && row.document.1 == 1) ≠ none := by
  obtain ⟨row, hrow, hdocument⟩ := h
  intro hnone
  have hnot := findFinIdx?_eq_none_iff.1 hnone row hrow
  rw [hdocument.shardKeyValue, beq_self_eq_true, Bool.true_and] at hnot
  exact hnot hdocument.isMatch

/-- The document is never moved: the first try writes it. -/
theorem first_try_is_used : UpdateUsesEveryTry setValueCalls setValueById findOne () () "t"
      ⟨fun _ => [rowOne], fun _ => [rowOne]⟩ [] documentOne := by
  apply (objectIdWrites_useEveryTry_iff setValueCalls setValueById selectOne 1
    findOne () () "t" ⟨fun _ => [rowOne], fun _ => [rowOne]⟩ [] documentOne
    (fun k rows h hnone => findFinIdx_ne_none h (Except.ok.inj hnone))
    (fun k rows h hnone => findFinIdx_ne_none h (Except.ok.inj hnone))).1.2
  intro _ tryNumber hlt hmisses shardKeyValue hstays
  cases some.inj (Except.ok.inj hstays.found)
  cases tryNumber with
  | zero => exact ⟨Even.zero, _, _, rfl, rfl⟩
  | succ tryNumber =>
    -- the try before it did not miss
    obtain ⟨other, hother, hmiss⟩ := hmisses 0 (succ_pos _)
    cases some.inj (Except.ok.inj hother)
    rcases hmiss with hodd | ⟨result, rows, hwrite, hnot⟩
    · exact absurd hodd (by decide)
    · cases Except.ok.inj hwrite
      cases hnot

/-- The document is gone at the write of the first try, and there again at the
second: the second try is answered from the record of the first one. -/
theorem second_try_is_lost : ¬ UpdateUsesEveryTry setValueCalls setValueById findOne () () "t"
        ⟨fun tryNumber => if tryNumber < 2 then [rowOne] else [],
          fun tryNumber => if tryNumber = 1 then [rowOne] else []⟩ []
        documentOne := by
  intro h
  obtain ⟨result, rows, table, -, hdone, hcall, -⟩ := h rfl 1 (by decide) _ rfl
    7 ⟨rfl, rowOne, ⟨rfl, rfl, rfl⟩, mem_cons_self, mem_cons_self⟩
  cases hcall
  cases hdone

end DocumentDb
