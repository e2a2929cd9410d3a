/-
Batches of updates and inserts.

The operations of a command are tried several at a time in one sub-transaction. When one
fails, it is rolled back and they are done again one by one, so that the error can be told;
later (updates outside of a transaction) or never (inserts) batches are tried again. Both
loops end in the state of the run that does every operation in a sub-transaction of its own
(`Lib/SubTransaction`), and report what the outcomes amount to (`ofOutcomes`).
-/
import DocumentDb.Lib.SubTransaction
import Mathlib.Algebra.GroupWithZero.Nat
import Mathlib.Data.List.Induction
import Mathlib.Data.List.TakeDrop

namespace DocumentDb

open SubTransaction List Option

/-- `GetWriteErrorFromErrorData`: an error with the index of its
operation. -/
structure WriteError (Error : Type*) where
  index : Nat
  error : Error

-- ==== updates

structure UpdateResult (ObjectId : Type*) where
  rowsMatched : UInt64
  rowsModified : UInt64
  performedUpsert : Bool
  upsertedObjectId : Option ObjectId

structure UpsertResult (ObjectId : Type*) where
  index : Nat
  objectId : Option ObjectId

structure BatchUpdateResult (ObjectId Error : Type*) where
  rowsMatched : UInt64
  rowsModified : UInt64
  writeErrors : List (WriteError Error)
  upserted : List (UpsertResult ObjectId)

section Update

variable {Table UpdateSpec TransactionId ObjectId Error : Type*}

def BatchUpdateResult.empty : BatchUpdateResult ObjectId Error := ⟨0, 0, [], []⟩

variable (batchResult : BatchUpdateResult ObjectId Error)

def updateResultInBatch
    (updateResult : UpdateResult ObjectId) (updateIndex : Nat) : BatchUpdateResult ObjectId Error :=
  let batchResult := { batchResult with
    rowsMatched := batchResult.rowsMatched + updateResult.rowsMatched
    rowsModified := batchResult.rowsModified + updateResult.rowsModified }
  if updateResult.performedUpsert then
    { batchResult with
      rowsMatched := batchResult.rowsMatched + 1
      upserted := batchResult.upserted ++ [⟨updateIndex, updateResult.upsertedObjectId⟩] }
  else batchResult

def BatchUpdateResult.addError
    (updateIndex : Nat) (error : Error) : BatchUpdateResult ObjectId Error :=
  { batchResult with
    writeErrors := batchResult.writeErrors ++ [⟨updateIndex, error⟩] }

/-- The result of a sub-transaction added to that of the command, as the end
of `DoMultiUpdate` does it. -/
def BatchUpdateResult.merge (batchResult inner : BatchUpdateResult ObjectId Error) :
    BatchUpdateResult ObjectId Error :=
  { batchResult with
    rowsMatched := batchResult.rowsMatched + inner.rowsMatched
    rowsModified := batchResult.rowsModified + inner.rowsModified
    upserted := batchResult.upserted ++ inner.upserted }

variable (processUpdate : UpdateSpec → Option TransactionId → Table →
    Except Error (UpdateResult ObjectId × Table))
  (transactionId : Option TransactionId)

/-- The loop of `DoMultiUpdate` over the updates that are left; the first
argument is how many the sub-transaction still takes. -/
def multiUpdates : Nat → List UpdateSpec → (updateInnerIndex : Nat) →
    (updateCount : Nat) → Table → BatchUpdateResult ObjectId Error →
      Except Error (Table × BatchUpdateResult ObjectId Error × Nat)
  | 0, _, _, updateCount, table, inner => .ok (table, inner, updateCount)
  | _ + 1, [], _, updateCount, table, inner => .ok (table, inner, updateCount)
  | left + 1, spec :: updates, updateInnerIndex, updateCount, table, inner =>
    match processUpdate spec transactionId table with
    | .ok (updateResult, table) =>
      multiUpdates left updates (updateInnerIndex + 1) (updateCount + 1) table
        (updateResultInBatch inner updateResult updateInnerIndex)
    | .error e => .error e

/-- The table, the result, and how many updates were done. -/
def doMultiUpdate (batchWriteSubTransactionCount : Nat) (updates : List UpdateSpec)
    (updateIndex : Nat) (table : Table) (batchResult : BatchUpdateResult ObjectId Error) :
    Table × BatchUpdateResult ObjectId Error × Nat :=
  match multiUpdates processUpdate transactionId
      batchWriteSubTransactionCount (updates.drop updateIndex) updateIndex 0
      table .empty with
  | .ok (table, inner, updateCount) =>
    (table, batchResult.merge inner, updateCount)
  | .error _ => (table, batchResult, 0)

/-- The table, the result, and whether it succeeded. -/
def doSingleUpdate (updateSpec : UpdateSpec) (updateIndex : Nat)
    (table : Table) (batchResult : BatchUpdateResult ObjectId Error) :
    Table × BatchUpdateResult ObjectId Error × Bool :=
  match processUpdate updateSpec transactionId table with
  | .ok (updateResult, table) =>
    (table, updateResultInBatch batchResult updateResult updateIndex, true)
  | .error e => (table, batchResult.addError updateIndex e, false)

/-- The variables of the loop of `ProcessBatchUpdateCore`. -/
structure UpdateLoop (Table ObjectId Error : Type*) where
  updateIndex : Nat
  nextBatchAttemptIndex : Int32
  hasBatchUpdateFailed : Bool
  table : Table
  batchResult : BatchUpdateResult ObjectId Error

variable (batchWriteSubTransactionCount : Nat)
  (isOrdered isTransactional : Bool) (updates : List UpdateSpec)

/-- The loop of `ProcessBatchUpdateCore`; the fuel bounds the number of
passes. -/
def updateLoop : Nat → UpdateLoop Table ObjectId Error →
    Option (Table × BatchUpdateResult ObjectId Error)
  | 0, _ => none
  | fuel + 1, loop =>
    match updates[loop.updateIndex]? with
    | none => some (loop.table, loop.batchResult)
    | some updateSpec =>
      if 1 < updates.length ∧ loop.hasBatchUpdateFailed = false then
        let (table, batchResult, incrementCount) := doMultiUpdate
          processUpdate transactionId batchWriteSubTransactionCount updates
          loop.updateIndex loop.table loop.batchResult
        if incrementCount = 0 then
          -- if batch failed, retry batch after the current batch
          updateLoop fuel { loop with
            nextBatchAttemptIndex := Int32.ofInt (loop.updateIndex + batchWriteSubTransactionCount)
            hasBatchUpdateFailed := true }
        else
          updateLoop fuel { loop with
            updateIndex := loop.updateIndex + incrementCount
            table := table
            batchResult := batchResult }
      else
        let (table, batchResult, isSuccess) := doSingleUpdate processUpdate
          transactionId updateSpec loop.updateIndex loop.table
          loop.batchResult
        let updateIndex := loop.updateIndex + 1
        let retryBatch := loop.hasBatchUpdateFailed && !isTransactional
          && (loop.nextBatchAttemptIndex.toInt < updateIndex)
        if !isSuccess && isOrdered then some (table, batchResult)
        else
          updateLoop fuel {
            updateIndex := updateIndex
            nextBatchAttemptIndex := if retryBatch then -1 else loop.nextBatchAttemptIndex
            hasBatchUpdateFailed := if retryBatch then false else loop.hasBatchUpdateFailed
            table := table
            batchResult := batchResult }

/-- The transaction id an update gets: several updates must not be taken for
retries of each other. -/
def subTransactionId : Option TransactionId := if 1 < updates.length then none else transactionId

def processBatchUpdateCore (fuel : Nat) (table : Table) :
    Option (Table × BatchUpdateResult ObjectId Error) :=
  updateLoop processUpdate (subTransactionId transactionId updates)
    batchWriteSubTransactionCount isOrdered isTransactional updates fuel
    ⟨0, -1, false, table, .empty⟩

/-- One update in its sub-transaction, on the table and the result. -/
def execUpdate (updateIndex : Nat) (updateSpec : UpdateSpec)
    (s : Table × BatchUpdateResult ObjectId Error) :
    Except Error (Table × BatchUpdateResult ObjectId Error) :=
  match processUpdate updateSpec transactionId s.1 with
  | .ok (updateResult, table) =>
    .ok (table, updateResultInBatch s.2 updateResult updateIndex)
  | .error e => .error e

def noteUpdateError (updateIndex : Nat) (error : Error)
    (s : Table × BatchUpdateResult ObjectId Error) : Table × BatchUpdateResult ObjectId Error :=
  (s.1, s.2.addError updateIndex error)

/-- What outcomes of updates amount to: an upserted document counts as matched too, and
upserted ids and errors are told with the position of their update. -/
def BatchUpdateResult.ofOutcomes (outcomes : List (Except Error (UpdateResult ObjectId))) :
    BatchUpdateResult ObjectId Error where
  rowsMatched := UInt64.ofNat (outcomes.map fun
    | .ok r => r.rowsMatched.toNat + if r.performedUpsert then 1 else 0
    | .error _ => 0).sum
  rowsModified := UInt64.ofNat (outcomes.map fun
    | .ok r => r.rowsModified.toNat
    | .error _ => 0).sum
  writeErrors := outcomes.zipIdx.filterMap fun
    | (.error e, i) => some ⟨i, e⟩
    | (.ok _, _) => none
  upserted := outcomes.zipIdx.filterMap fun
    | (.ok r, i) => if r.performedUpsert then some ⟨i, r.upsertedObjectId⟩ else none
    | (.error _, _) => none

/-- The updates one by one, each in a sub-transaction of its own. -/
def updatesOneByOne (table : Table) : Table × BatchUpdateResult ObjectId Error :=
  let (outcomes, table) := oneByOne
    (fun updateSpec => processUpdate updateSpec (subTransactionId transactionId updates))
    isOrdered updates table
  (table, .ofOutcomes outcomes)

/-- An outcome in the result of the command. -/
def BatchUpdateResult.record :
    Except Error (UpdateResult ObjectId) × Nat → BatchUpdateResult ObjectId Error
  | (.ok updateResult, updateIndex) => updateResultInBatch batchResult updateResult updateIndex
  | (.error e, updateIndex) => batchResult.addError updateIndex e

theorem BatchUpdateResult.ofOutcomes_concat (outcomes : List (Except Error (UpdateResult ObjectId)))
    (outcome : Except Error (UpdateResult ObjectId)) : ofOutcomes (outcomes ++ [outcome])
      = (ofOutcomes outcomes).record (outcome, outcomes.length) := by
  cases outcome with
  | error e => simp [ofOutcomes, record, addError, zipIdx_append, filterMap_append]
  | ok r =>
    cases hupsert : r.performedUpsert with
    | true => simp [ofOutcomes, record, updateResultInBatch, hupsert, zipIdx_append,
        filterMap_append, UInt64.ofNat_add, UInt64.add_assoc]
    | false => simp [ofOutcomes, record, updateResultInBatch, hupsert, zipIdx_append,
        filterMap_append, UInt64.ofNat_add]

/-- The outcomes recorded one after the other are what they amount to. -/
theorem BatchUpdateResult.foldl_record (outcomes : List (Except Error (UpdateResult ObjectId))) :
    outcomes.zipIdx.foldl record empty = ofOutcomes outcomes := by
  induction outcomes using List.reverseRecOn with
  | nil => rfl
  | append_singleton outcomes outcome ih =>
    rw [zipIdx_append, foldl_append, ih, ofOutcomes_concat, Nat.zero_add]
    rfl

/-- The run over table and result is what the updates one by one amount to. -/
theorem run_execUpdate (table : Table) :
    run (execUpdate processUpdate (subTransactionId transactionId updates)) noteUpdateError
        isOrdered updates 0 (table, .empty)
      = updatesOneByOne processUpdate transactionId isOrdered updates table := by
  have hexec : ∀ i updateSpec table batchResult,
      execUpdate processUpdate (subTransactionId transactionId updates) i updateSpec
          (table, batchResult)
        = (processUpdate updateSpec (subTransactionId transactionId updates) table).map
            fun r => (r.2, BatchUpdateResult.record batchResult (.ok r.1, i)) := by
    intro i updateSpec table batchResult
    unfold execUpdate
    cases processUpdate updateSpec (subTransactionId transactionId updates) table <;> rfl
  have hnote : ∀ i e (table : Table) (batchResult : BatchUpdateResult ObjectId Error),
      noteUpdateError i e (table, batchResult) = (table, batchResult.record (.error e, i)) :=
    fun _ _ _ _ => rfl
  have hrun := run_eq_oneByOne hexec hnote isOrdered updates 0 table .empty
  rw [BatchUpdateResult.foldl_record] at hrun
  exact hrun

theorem BatchUpdateResult.merge_empty : batchResult.merge .empty = batchResult := by
  simp [merge, empty]

theorem updateResultInBatch_merge (result inner : BatchUpdateResult ObjectId Error)
    (updateResult : UpdateResult ObjectId) (updateIndex : Nat) :
    updateResultInBatch (result.merge inner) updateResult updateIndex
      = result.merge (updateResultInBatch inner updateResult updateIndex) := by
  unfold updateResultInBatch BatchUpdateResult.merge
  cases updateResult.performedUpsert <;> simp [UInt64.add_assoc]

variable {processUpdate transactionId}

theorem multiUpdates_eq (left : Nat) (us : List UpdateSpec) (i n : Nat)
    (table : Table) (outer inner : BatchUpdateResult ObjectId Error) :
    (multiUpdates processUpdate transactionId left us i n table inner).map
        (fun r => ((r.1, outer.merge r.2.1), r.2.2))
      = (batch (execUpdate processUpdate transactionId) (us.take left) i
          (table, outer.merge inner)).map (fun s => (s, n + (us.take left).length)) := by
  induction left generalizing us i n table inner with
  | zero => rfl
  | succ left ih =>
    cases us with
    | nil => rfl
    | cons spec us =>
      rw [take_succ_cons, batch, multiUpdates, execUpdate]
      cases processUpdate spec transactionId table with
      | error e => rfl
      | ok r =>
        have h := ih us (i + 1) (n + 1) r.2 (updateResultInBatch inner r.1 i)
        rw [← updateResultInBatch_merge] at h
        rw [Nat.add_right_comm n 1] at h
        exact h

theorem doMultiUpdate_eq (count : Nat) (us : List UpdateSpec) (i : Nat)
    (table : Table) (result : BatchUpdateResult ObjectId Error) :
    doMultiUpdate processUpdate transactionId count us i table result
      = match batch (execUpdate processUpdate transactionId)
          ((us.drop i).take count) i (table, result) with
        | .ok s => (s.1, s.2, ((us.drop i).take count).length)
        | .error _ => (table, result, 0) := by
  have h := @multiUpdates_eq _ _ _ _ _ processUpdate transactionId count
    (us.drop i) i 0 table result .empty
  rw [BatchUpdateResult.merge_empty, Nat.zero_add] at h
  unfold doMultiUpdate
  generalize multiUpdates processUpdate transactionId count (us.drop i) i 0 table .empty = m at h
  generalize batch (execUpdate processUpdate transactionId)
    ((us.drop i).take count) i (table, result) = b at h
  cases m with
  | error e =>
    cases b with
    | error e' => rfl
    | ok s => cases h
  | ok r =>
    cases b with
    | error e' => cases h
    | ok s =>
      obtain ⟨table, inner, updateCount⟩ := r
      cases h
      rfl

variable {batchCount : Nat}
  {isOrdered isTransactional : Bool} {updates : List UpdateSpec}

theorem updateLoop_eq (fuel : Nat) (loop : UpdateLoop Table ObjectId Error)
    (hfuel : passes updates.length loop.updateIndex loop.hasBatchUpdateFailed < fuel) :
    updateLoop processUpdate transactionId batchCount isOrdered isTransactional updates fuel loop
      = some (run (execUpdate processUpdate transactionId) noteUpdateError
          isOrdered (updates.drop loop.updateIndex) loop.updateIndex
          (loop.table, loop.batchResult)) := by
  induction fuel generalizing loop with
  | zero => omega
  | succ fuel ih =>
    have hfuel := Nat.le_of_lt_succ hfuel
    unfold updateLoop
    cases hspec : updates[loop.updateIndex]? with
    | none =>
      rw [drop_eq_nil_of_le (List.getElem?_eq_none_iff.1 hspec)]
      rfl
    | some spec =>
      obtain ⟨hlt, hget⟩ := List.getElem?_eq_some_iff.1 hspec
      show (if _ then _ else _) = _
      by_cases hbatch : 1 < updates.length ∧ loop.hasBatchUpdateFailed = false
      · rw [if_pos hbatch, doMultiUpdate_eq]
        cases hb : batch (execUpdate processUpdate transactionId)
            ((updates.drop loop.updateIndex).take batchCount) loop.updateIndex
            (loop.table, loop.batchResult) with
        | error e =>
          exact ih _ (Nat.lt_of_lt_of_le (passes_of_failed hbatch.2 rfl rfl) hfuel)
        | ok s =>
          show (if _ then _ else _) = _
          by_cases hzero : ((updates.drop loop.updateIndex).take batchCount).length = 0
          · rw [if_pos hzero]
            exact ih _ (Nat.lt_of_lt_of_le (passes_of_failed hbatch.2 rfl rfl) hfuel)
          · have hpos := Nat.lt_add_of_pos_right (n := loop.updateIndex) (Nat.pos_of_ne_zero hzero)
            rw [if_neg hzero, ih _ (Nat.lt_of_lt_of_le (passes_of_index_lt hlt hpos) hfuel)]
            exact congrArg some (run_drop_of_batch hb).symm
      · rw [if_neg hbatch, drop_eq_getElem_cons hlt, hget, run, execUpdate, doSingleUpdate]
        have hnext (failed : Bool) : passes updates.length (loop.updateIndex + 1) failed < fuel :=
          Nat.lt_of_lt_of_le (passes_of_index_lt hlt (Nat.lt_succ_self _)) hfuel
        cases processUpdate spec transactionId loop.table with
        | ok r => exact ih _ (hnext _)
        | error e =>
          cases isOrdered with
          | true => rfl
          | false => exact ih _ (hnext _)

end Update

-- ==== inserts

structure BatchInsertionResult (Error : Type*) where
  rowsInserted : UInt64
  writeErrors : List (WriteError Error)

/-- The INSERT of a list of rows, which gives the number of rows processed.
It succeeds exactly when the INSERTs of its rows, one after the other,
do. -/
structure InsertQuery (Row Table Error : Type*) where
  run : List Row → Table → Except Error (Table × Nat)
  run_nil : ∀ table, run [] table = .ok (table, 0)
  run_cons : ∀ row rows table,
    (run (row :: rows) table).toOption = (run [row] table).toOption.bind fun r =>
          (run rows r.1).toOption.map fun r' => (r'.1, r'.2 + 1)

section Insert

variable {Document Row Table Error : Type*} (preprocessInsertionDoc : Document → Except Error Row)
  (query : InsertQuery Row Table Error)

/-- Without a transaction id. -/
def processInsertion (document : Document) (table : Table) : Except Error (Table × Nat) :=
  match preprocessInsertionDoc document with
  | .ok insertDoc => query.run [insertDoc] table
  | .error e => .error e

/-- The table, the result, and how many documents were inserted. -/
def doMultiInsertWithoutTransactionId (batchWriteSubTransactionCount : Nat)
    (inserts : List Document) (insertIndex : Nat) (table : Table)
    (batchResult : BatchInsertionResult Error) : Table × BatchInsertionResult Error × Nat :=
  match ((inserts.drop insertIndex).take batchWriteSubTransactionCount).mapM
      preprocessInsertionDoc with
  | .error _ => (table, batchResult, 0)
  | .ok valuesList =>
    match query.run valuesList table with
    | .error _ => (table, batchResult, 0)
    | .ok (table, rowsProcessed) =>
      (table, { batchResult with rowsInserted :=
        batchResult.rowsInserted + UInt64.ofNat rowsProcessed }, rowsProcessed)

/-- The table, the result, and whether it succeeded. -/
def doSingleInsert (document : Document) (insertIndex : Nat) (table : Table)
    (batchResult : BatchInsertionResult Error) : Table × BatchInsertionResult Error × Bool :=
  match processInsertion preprocessInsertionDoc query document table with
  | .ok (table, numDocsInserted) =>
    (table, { batchResult with rowsInserted :=
      batchResult.rowsInserted + UInt64.ofNat numDocsInserted }, true)
  | .error e =>
    (table, { batchResult with writeErrors :=
      batchResult.writeErrors ++ [⟨insertIndex, e⟩] }, false)

/-- The variables of the loop of `DoBatchInsertNoTransactionId`. -/
structure InsertLoop (Table Error : Type*) where
  insertIndex : Nat
  hasBatchedInsertFailed : Bool
  table : Table
  batchResult : BatchInsertionResult Error

variable (batchWriteSubTransactionCount : Nat) (isOrdered : Bool) (insertions : List Document)

/-- The loop of `DoBatchInsertNoTransactionId`. -/
def insertLoop : Nat → InsertLoop Table Error → Option (Table × BatchInsertionResult Error)
  | 0, _ => none
  | fuel + 1, loop =>
    match insertions[loop.insertIndex]? with
    | none => some (loop.table, loop.batchResult)
    | some document =>
      if 1 < insertions.length ∧ loop.hasBatchedInsertFailed = false then
        let (table, batchResult, incrementCount) :=
          doMultiInsertWithoutTransactionId preprocessInsertionDoc query
            batchWriteSubTransactionCount insertions loop.insertIndex
            loop.table loop.batchResult
        insertLoop fuel {
          insertIndex := loop.insertIndex + incrementCount
          hasBatchedInsertFailed := incrementCount == 0
          table := table
          batchResult := batchResult }
      else
        let (table, batchResult, isSuccess) := doSingleInsert
          preprocessInsertionDoc query document loop.insertIndex loop.table
          loop.batchResult
        if !isSuccess && isOrdered then some (table, batchResult)
        else
          insertLoop fuel { loop with
            insertIndex := loop.insertIndex + 1
            table := table
            batchResult := batchResult }

/-- What it does outside of a transaction, to commit the work before each pass, leaves the
table as it is. -/
def doBatchInsertNoTransactionId (fuel : Nat) (table : Table) :
    Option (Table × BatchInsertionResult Error) :=
  insertLoop preprocessInsertionDoc query batchWriteSubTransactionCount
    isOrdered insertions fuel ⟨0, false, table, ⟨0, []⟩⟩

/-- One insert in its sub-transaction, on the table and the result. -/
def execInsert (_ : Nat) (document : Document) (s : Table × BatchInsertionResult Error) :
    Except Error (Table × BatchInsertionResult Error) :=
  match processInsertion preprocessInsertionDoc query document s.1 with
  | .ok (table, numDocsInserted) =>
    .ok (table, { s.2 with rowsInserted := s.2.rowsInserted + UInt64.ofNat numDocsInserted })
  | .error e => .error e

def noteInsertError (insertIndex : Nat) (error : Error) (s : Table × BatchInsertionResult Error) :
    Table × BatchInsertionResult Error :=
  (s.1, { s.2 with writeErrors := s.2.writeErrors ++ [⟨insertIndex, error⟩] })

/-- What outcomes of inserts amount to. -/
def BatchInsertionResult.ofOutcomes (outcomes : List (Except Error Nat)) :
    BatchInsertionResult Error where
  rowsInserted := UInt64.ofNat (outcomes.map fun
    | .ok numDocsInserted => numDocsInserted
    | .error _ => 0).sum
  writeErrors := outcomes.zipIdx.filterMap fun
    | (.error e, i) => some ⟨i, e⟩
    | (.ok _, _) => none

/-- The inserts one by one, each in a sub-transaction of its own. -/
def insertsOneByOne (table : Table) : Table × BatchInsertionResult Error :=
  let (outcomes, table) := oneByOne
    (fun document table =>
      (processInsertion preprocessInsertionDoc query document table).map Prod.swap)
    isOrdered insertions table
  (table, .ofOutcomes outcomes)

/-- An outcome in the result of the command. -/
def BatchInsertionResult.record (batchResult : BatchInsertionResult Error) :
    Except Error Nat × Nat → BatchInsertionResult Error
  | (.ok numDocsInserted, _) => { batchResult with
      rowsInserted := batchResult.rowsInserted + UInt64.ofNat numDocsInserted }
  | (.error e, insertIndex) => { batchResult with
      writeErrors := batchResult.writeErrors ++ [⟨insertIndex, e⟩] }

/-- The outcomes recorded one after the other are what they amount to. -/
theorem BatchInsertionResult.foldl_record (outcomes : List (Except Error Nat)) :
    outcomes.zipIdx.foldl record ⟨0, []⟩ = ofOutcomes outcomes := by
  induction outcomes using List.reverseRecOn with
  | nil => rfl
  | append_singleton outcomes outcome ih =>
    rw [zipIdx_append, foldl_append, ih]
    cases outcome <;> simp [ofOutcomes, record, zipIdx_append, filterMap_append, UInt64.ofNat_add]

/-- The run over table and result is what the inserts one by one amount to. -/
theorem run_execInsert (table : Table) :
    run (execInsert preprocessInsertionDoc query) noteInsertError isOrdered insertions 0
        (table, ⟨0, []⟩)
      = insertsOneByOne preprocessInsertionDoc query isOrdered insertions table := by
  have hexec : ∀ i document table batchResult,
      execInsert preprocessInsertionDoc query i document (table, batchResult)
        = ((processInsertion preprocessInsertionDoc query document table).map Prod.swap).map
            fun r => (r.2, BatchInsertionResult.record batchResult (.ok r.1, i)) := by
    intro i document table batchResult
    unfold execInsert
    cases processInsertion preprocessInsertionDoc query document table <;> rfl
  have hnote : ∀ i e (table : Table) (batchResult : BatchInsertionResult Error),
      noteInsertError i e (table, batchResult) = (table, batchResult.record (.error e, i)) :=
    fun _ _ _ _ => rfl
  have hrun := run_eq_oneByOne hexec hnote isOrdered insertions 0 table ⟨0, []⟩
  rw [BatchInsertionResult.foldl_record] at hrun
  exact hrun

def insertAll (documents : List Document) (table : Table) : Option (Table × Nat) :=
  (documents.mapM preprocessInsertionDoc).toOption.bind fun rows =>
    (query.run rows table).toOption

theorem insertAll_cons (doc : Document) (docs : List Document) (table : Table) :
    insertAll preprocessInsertionDoc query (doc :: docs) table
      = (processInsertion preprocessInsertionDoc query doc table).toOption.bind fun r =>
          (insertAll preprocessInsertionDoc query docs r.1).map fun r' => (r'.1, r'.2 + 1) := by
  unfold insertAll processInsertion
  rw [mapM_cons]
  cases preprocessInsertionDoc doc with
  | error e => rfl
  | ok row =>
    cases docs.mapM preprocessInsertionDoc with
    | error e =>
      show none = (query.run [row] table).toOption.bind fun _ => none
      rw [bind_fun_none]
    | ok rows => exact query.run_cons row rows table

variable {query} {preprocess : Document → Except Error Row}

theorem processInsertion_count {doc : Document} {table : Table} {r : Table × Nat}
    (h : processInsertion preprocess query doc table = .ok r) : r.2 = 1 := by
  unfold processInsertion at h
  cases hrow : preprocess doc with
  | error e =>
    rw [hrow] at h
    cases h
  | ok row =>
    rw [hrow] at h
    have hone := query.run_cons row [] table
    rw [show query.run [row] table = .ok r from h] at hone
    simp only [Except.toOption, bind_some, query.run_nil, map_some, some.injEq] at hone
    rw [hone]

theorem batch_execInsert (docs : List Document) (i : Nat)
    (table : Table) (result : BatchInsertionResult Error) :
    (batch (execInsert preprocess query) docs i (table, result)).toOption
      = (insertAll preprocess query docs table).map
          fun r => (r.1, { result with rowsInserted :=
            result.rowsInserted + UInt64.ofNat r.2 }) := by
  induction docs generalizing i table result with
  | nil =>
    unfold insertAll
    simp [batch, query.run_nil, Except.toOption, pure, Except.pure]
  | cons document docs ih =>
    rw [insertAll_cons, batch, execInsert]
    cases hd : processInsertion preprocess query document table with
    | error e => rfl
    | ok r =>
      have hcount := processInsertion_count hd
      rw [ih, hcount]
      simp only [Except.toOption, bind_some, Option.map_map]
      refine congrArg (Option.map · _) (funext fun r' => ?_)
      simp [UInt64.ofNat_add, UInt64.add_assoc, UInt64.add_comm]

theorem insertAll_count {docs : List Document} {table : Table} {r : Table × Nat}
    (h : insertAll preprocess query docs table = some r) : r.2 = docs.length := by
  induction docs generalizing table r with
  | nil =>
    unfold insertAll at h
    simp [query.run_nil, Except.toOption, pure, Except.pure] at h
    rw [← h]
    rfl
  | cons document docs ih =>
    rw [insertAll_cons] at h
    obtain ⟨r₁, -, h⟩ := bind_eq_some_iff.1 h
    obtain ⟨r₂, h₂, rfl⟩ := map_eq_some_iff.1 h
    rw [ih h₂, length_cons]

theorem doMultiInsertWithoutTransactionId_eq (count : Nat)
    (inserts : List Document) (i : Nat) (table : Table) (result : BatchInsertionResult Error) :
    doMultiInsertWithoutTransactionId preprocess query count inserts i table result
      = match batch (execInsert preprocess query)
          ((inserts.drop i).take count) i (table, result) with
        | .ok s => (s.1, s.2, ((inserts.drop i).take count).length)
        | .error _ => (table, result, 0) := by
  have h := @batch_execInsert _ _ _ _ query preprocess ((inserts.drop i).take count) i table result
  have hcount {r : Table × Nat} := @insertAll_count _ _ _ _
    query preprocess ((inserts.drop i).take count) table r
  unfold insertAll at h hcount
  unfold doMultiInsertWithoutTransactionId
  generalize (inserts.drop i).take count = documents at h hcount ⊢
  cases hb : batch (execInsert preprocess query) documents i (table, result) with
  | error e =>
    rw [hb] at h
    cases hrows : documents.mapM preprocess with
    | error e' => rfl
    | ok rows =>
      rw [hrows] at h
      cases hrun : query.run rows table with
      | error e' => simp [hrun]
      | ok r => simp [hrun, Except.toOption] at h
  | ok s =>
    rw [hb] at h
    cases hrows : documents.mapM preprocess with
    | error e' => simp [hrows, Except.toOption] at h
    | ok rows =>
      rw [hrows] at h hcount
      cases hrun : query.run rows table with
      | error e' => simp [hrun, Except.toOption] at h
      | ok r =>
        simp only [hrun, Except.toOption, bind_some, map_some, some.injEq] at h hcount
        simp [hrun, h, ← hcount rfl]

variable {batchCount : Nat} {isOrdered : Bool}
  {insertions : List Document}

theorem insertLoop_eq (fuel : Nat) (loop : InsertLoop Table Error)
    (hfuel : passes insertions.length loop.insertIndex loop.hasBatchedInsertFailed < fuel) :
    insertLoop preprocess query batchCount isOrdered insertions fuel loop
      = some (run (execInsert preprocess query) noteInsertError
          isOrdered (insertions.drop loop.insertIndex) loop.insertIndex
          (loop.table, loop.batchResult)) := by
  induction fuel generalizing loop with
  | zero => omega
  | succ fuel ih =>
    have hfuel := Nat.le_of_lt_succ hfuel
    unfold insertLoop
    cases hdoc : insertions[loop.insertIndex]? with
    | none =>
      rw [drop_eq_nil_of_le (List.getElem?_eq_none_iff.1 hdoc)]
      rfl
    | some document =>
      obtain ⟨hlt, hget⟩ := List.getElem?_eq_some_iff.1 hdoc
      show (if _ then _ else _) = _
      by_cases hbatch : 1 < insertions.length ∧ loop.hasBatchedInsertFailed = false
      · rw [if_pos hbatch, doMultiInsertWithoutTransactionId_eq]
        cases hb : batch (execInsert preprocess query)
            ((insertions.drop loop.insertIndex).take batchCount) loop.insertIndex
            (loop.table, loop.batchResult) with
        | error e =>
          exact ih _ (Nat.lt_of_lt_of_le (passes_of_failed hbatch.2 rfl rfl) hfuel)
        | ok s =>
          rw [run_drop_of_batch hb]
          refine ih _ (Nat.lt_of_lt_of_le ?_ hfuel)
          -- an empty batch is taken for a failed one
          by_cases hzero : ((insertions.drop loop.insertIndex).take batchCount).length = 0
          · apply passes_of_failed hbatch.2
            · show loop.insertIndex + _ = _
              rw [hzero, Nat.add_zero]
            · exact beq_iff_eq.2 hzero
          · apply passes_of_index_lt hlt
            exact Nat.lt_add_of_pos_right (Nat.pos_of_ne_zero hzero)
      · rw [if_neg hbatch, drop_eq_getElem_cons hlt, hget, run, execInsert, doSingleInsert]
        have hnext (failed : Bool) :
            passes insertions.length (loop.insertIndex + 1) failed < fuel :=
          Nat.lt_of_lt_of_le (passes_of_index_lt hlt (Nat.lt_succ_self _)) hfuel
        cases processInsertion preprocess query document loop.table with
        | ok r => exact ih _ (hnext _)
        | error e =>
          cases isOrdered with
          | true => rfl
          | false => exact ih _ (hnext _)

end Insert

/-- Batching is invisible: with every batch size, in a transaction or not,
ordered or not, a list of updates and a list of inserts end, after at most
two passes an operation and two more, with the table, the counts, the
upserted ids and the errors of the operations done one by one. -/
theorem batchWrites_eq_oneByOne {Table UpdateSpec TransactionId ObjectId Document Row Error : Type*}
    (processUpdate : UpdateSpec → Option TransactionId → Table →
      Except Error (UpdateResult ObjectId × Table))
    (preprocessInsertionDoc : Document → Except Error Row) (query : InsertQuery Row Table Error)
    (transactionId : Option TransactionId)
    (batchWriteSubTransactionCount : Nat) (isOrdered isTransactional : Bool)
    (updates : List UpdateSpec) (insertions : List Document) (table : Table) (more : Nat) :
    processBatchUpdateCore processUpdate transactionId
        batchWriteSubTransactionCount isOrdered isTransactional updates
        (2 * updates.length + 2 + more) table
      = some (updatesOneByOne processUpdate transactionId isOrdered updates table)
    ∧ doBatchInsertNoTransactionId preprocessInsertionDoc query
        batchWriteSubTransactionCount isOrdered insertions
        (2 * insertions.length + 2 + more) table
      = some (insertsOneByOne preprocessInsertionDoc query isOrdered insertions table) := by
  have hpasses (n : Nat) : passes n 0 false < 2 * n + 2 + more := by
    simp only [passes, Bool.false_eq_true, if_false]
    omega
  rw [← run_execUpdate, ← run_execInsert]
  exact ⟨updateLoop_eq _ _ (hpasses _), insertLoop_eq _ _ (hpasses _)⟩

end DocumentDb
