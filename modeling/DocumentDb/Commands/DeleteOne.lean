/-
A single delete on one shard key value, and its retry record.

The rows of a collection carry their shard key values. A delete selects one row
with the shard key value it is given and removes it. With a transaction id it
first looks for a retry record and answers from it.
-/
import DocumentDb.Commands.Delete
import DocumentDb.Commands.UpdateOne

namespace DocumentDb

/-- SELECT ctid … WHERE shard_key_value = … LIMIT 1. -/
abbrev SelectForDelete (BsonValue Document ObjectId Error : Type) :=
  UInt64 → (query : BsonValue) →
    (rows : List (CollectionRow Document ObjectId)) → Except Error (Option (Fin rows.length))

section

variable {BsonValue Document ObjectId TransactionId Error : Type} [DecidableEq TransactionId]
  (select : SelectForDelete BsonValue Document ObjectId Error)
  (shardKeyHash : UInt64) (query : BsonValue)

/-- `DeleteOneInternal` without a returned document. -/
def deleteOneRow (rows : List (CollectionRow Document ObjectId)) :
    Except Error (DeleteOneResult Document ObjectId × List (CollectionRow Document ObjectId)) := do
  match ← select shardKeyHash query rows with
  | some ctid =>
    return (⟨true, some (rows.get ctid).objectId, none⟩, rows.eraseIdx ctid)
  | none => return (⟨false, none, none⟩, rows)

/-- This is `DeleteOneInternalCore` where writes are done inline. -/
def callDeleteOne (transactionId : Option TransactionId)
    (s : UpdateState TransactionId Document ObjectId) :
    Except Error (DeleteOneResult Document ObjectId
      × UpdateState TransactionId Document ObjectId) :=
  match transactionId with
  | some transactionId =>
    match deleteRetryRecord shardKeyHash transactionId s.retryTable with
    | (some writeResult, retryTable) =>
      .ok (⟨writeResult.rowsAffected, none, writeResult.resultDocument⟩,
        { s with retryTable := retryTable })
    | (none, retryTable) => do
      let (result, rows) ← deleteOneRow select shardKeyHash query s.rows
      return (result, ⟨rows, insertRetryRecord shardKeyHash transactionId
        retryTable result.objectId result.isRowDeleted
        result.resultDeletedDocument⟩)
  | none => do
    let (result, rows) ← deleteOneRow select shardKeyHash query s.rows
    return (result, { s with rows := rows })

variable {select query} {shard : UInt64} {id : TransactionId}
  {s : UpdateState TransactionId Document ObjectId}

theorem callDeleteOne_answered {record : RetryRecord TransactionId ObjectId Document}
    (h : (deleteRetryRecord shard id s.retryTable).1 = some record) :
    callDeleteOne select shard query (some id) s
      = .ok (⟨record.rowsAffected, none, record.resultDocument⟩, { s with
          retryTable := (deleteRetryRecord shard id s.retryTable).2 }) := by
  unfold callDeleteOne
  simp only
  generalize deleteRetryRecord shard id s.retryTable = found at h ⊢
  obtain ⟨found, retryTable⟩ := found
  cases h
  rfl

theorem callDeleteOne_recorded (h : (deleteRetryRecord shard id s.retryTable).1 = none) :
    callDeleteOne select shard query (some id) s
      = (deleteOneRow select shard query s.rows).map fun done =>
          (done.1, ⟨done.2, insertRetryRecord shard id
            (deleteRetryRecord shard id s.retryTable).2 done.1.objectId
            done.1.isRowDeleted done.1.resultDeletedDocument⟩) := by
  unfold callDeleteOne
  simp only
  generalize deleteRetryRecord shard id s.retryTable = found at h ⊢
  obtain ⟨found, retryTable⟩ := found
  cases h
  cases deleteOneRow select shard query s.rows <;> rfl

end

end DocumentDb
