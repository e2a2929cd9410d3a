/-
The retry table of a collection.

A write with a transaction id leaves a record of what it did. The same write,
sent again, finds the record, takes it out and answers from it. A record has
the shard key value of the rows and the transaction id as its key.
-/
import Mathlib.Data.List.Basic

namespace DocumentDb

open List

structure RetryRecord (TransactionId ObjectId Document : Type*) where
  shardKeyValue : UInt64
  transactionId : TransactionId
  objectId : Option ObjectId
  rowsAffected : Bool
  resultDocument : Option Document

abbrev RetryTable (TransactionId ObjectId Document : Type*) :=
  List (RetryRecord TransactionId ObjectId Document)

variable {TransactionId ObjectId Document : Type*} [DecidableEq TransactionId]
  (shardKeyValue : UInt64) (transactionId : TransactionId)
  (retryTable : RetryTable TransactionId ObjectId Document)

def RetryRecord.hasKey (record : RetryRecord TransactionId ObjectId Document) : Bool :=
  record.shardKeyValue == shardKeyValue && decide (record.transactionId = transactionId)

/-- The record found, and the table without it. -/
def deleteRetryRecord : Option (RetryRecord TransactionId ObjectId Document)
      × RetryTable TransactionId ObjectId Document :=
  (retryTable.find? (·.hasKey shardKeyValue transactionId),
    retryTable.filter (!·.hasKey shardKeyValue transactionId))

def insertRetryRecord (objectId : Option ObjectId) (rowsAffected : Bool)
    (resultDocument : Option Document) : RetryTable TransactionId ObjectId Document :=
  retryTable ++ [⟨shardKeyValue, transactionId, objectId, rowsAffected, resultDocument⟩]

def findRetryRecordInAnyShard : Option (RetryRecord TransactionId ObjectId Document) :=
  retryTable.find? fun record => decide (record.transactionId = transactionId)

variable {shardKeyValue transactionId retryTable}

theorem deleteRetryRecord_deleted : (deleteRetryRecord shardKeyValue transactionId
      (deleteRetryRecord shardKeyValue transactionId retryTable).2).1 = none := by
  apply find?_eq_none.2
  intro record hrecord
  have hkey := (mem_filter.1 hrecord).2
  simpa using hkey

theorem deleteRetryRecord_insert {objectId : Option ObjectId}
    {affected : Bool} {resultDocument : Option Document}
    (hfresh : (deleteRetryRecord shardKeyValue transactionId retryTable).1 = none) :
    (deleteRetryRecord shardKeyValue transactionId
      (insertRetryRecord shardKeyValue transactionId retryTable objectId affected resultDocument)).1
      = some ⟨shardKeyValue, transactionId, objectId, affected, resultDocument⟩ := by
  have hnone : retryTable.find? (·.hasKey shardKeyValue transactionId) = none := hfresh
  show find? _ (retryTable ++ _) = _
  rw [find?_append, hnone]
  simp [RetryRecord.hasKey]

theorem deleteRetryRecord_of_fresh
    (h : ∀ record ∈ retryTable, record.transactionId ≠ transactionId) :
    (deleteRetryRecord shardKeyValue transactionId retryTable).1 = none := by
  apply find?_eq_none.2
  intro record hrecord
  simp [RetryRecord.hasKey, h record hrecord]

theorem deleteRetryRecord_of_findRetryRecordInAnyShard
    (h : findRetryRecordInAnyShard transactionId retryTable = none) (shard : UInt64) :
    (deleteRetryRecord shard transactionId retryTable).1 = none := by
  apply deleteRetryRecord_of_fresh
  simpa using find?_eq_none.1 h

theorem deleteRetryRecord_other {other : UInt64} (hne : other ≠ shardKeyValue) :
    (deleteRetryRecord other transactionId
      (deleteRetryRecord shardKeyValue transactionId retryTable).2).1
        = (deleteRetryRecord other transactionId retryTable).1 := by
  show find? _ (List.filter _ _) = find? _ _
  rw [find?_filter]
  congr 1
  funext record
  by_cases hkey : record.shardKeyValue = other
  · subst hkey
    simp [RetryRecord.hasKey, hne]
  · simp [RetryRecord.hasKey, hkey]

theorem insertRetryRecord_other {other : UInt64} (hne : other ≠ shardKeyValue)
    (objectId : Option ObjectId) (affected : Bool) (resultDocument : Option Document) :
    (deleteRetryRecord other transactionId
      (insertRetryRecord shardKeyValue transactionId retryTable objectId affected resultDocument)).1
        = (deleteRetryRecord other transactionId retryTable).1 := by
  show find? _ (retryTable ++ _) = find? _ _
  rw [find?_append]
  simp [RetryRecord.hasKey, hne.symm]

end DocumentDb
