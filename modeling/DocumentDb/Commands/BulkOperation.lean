/-
What the operations of a bulkWrite command execute.

An insert stores the document under the shard key value 0, or under its own where the
collection is sharded. Updates and deletes call the routines for a single document with the
shard key value 0, and an `updateMany` repeats this while it updates a row
(`updateManyLoop`, with fuel). The parameters of an update are pointers to the value of one
iterator, so that the filter becomes what is read after it (`bulkUpdateParams`).
-/
import DocumentDb.Commands.BulkWrite

namespace DocumentDb

/-- What the operations of a bulkWrite command call. A value that the
specification does not have is a null pointer. -/
structure BulkCalls (Document ObjectId Error : Type) where
  update : UpdateCalls (Option Value) Document ObjectId Error
  selectForDelete : SelectForDelete (Option Value) Document ObjectId Error
  /-- The specification of an operation is neither a document nor an array. -/
  notIterable : Error
  pgbsonInitFromDocumentBsonValue : Value → Except Error Document
  isSharded : Bool
  insertDocument : UInt64 → ObjectId → Document →
    List (CollectionRow Document ObjectId) → Except Error (List (CollectionRow Document ObjectId))
  /-- The rows that a `deleteMany` leaves, and how many it deletes. -/
  deleteMany : Option Value → List (CollectionRow Document ObjectId) →
    Except Error (Nat × List (CollectionRow Document ObjectId))

-- ==== specifications

/-- The key `document`. -/
def documentKey : Bytes := [100, 111, 99, 117, 109, 101, 110, 116]

/-- The key `filter`. -/
def filterKey : Bytes := [102, 105, 108, 116, 101, 114]

/-- The key `update`. -/
def updateKey : Bytes := [117, 112, 100, 97, 116, 101]

/-- The key `replacement`. -/
def replacementKey : Bytes := [114, 101, 112, 108, 97, 99, 101, 109, 101, 110, 116]

/-- The key `upsert`. -/
def upsertKey : Bytes := [117, 112, 115, 101, 114, 116]

/-- The key `arrayFilters`. -/
def arrayFiltersKey : Bytes := [97, 114, 114, 97, 121, 70, 105, 108, 116, 101, 114, 115]

/-- False for what is not a Boolean. -/
def bsonIterBool : Value → Bool
  | .bool b => b
  | _ => false

/-- The loop over the specification of an update. `bson_iter_value` returns a pointer to
the one value that the iterator has, so what is taken from it (`query`, `update`,
`arrayFilters`) is a null pointer or the value that was read last. -/
structure UpdateSpecIter where
  value : Option Value := none
  hasQuery : Bool := false
  hasUpdate : Bool := false
  hasArrayFilters : Bool := false
  isUpsert : Bool := false

def readUpdateField (iter : UpdateSpecIter) (field : Bytes × Value) : UpdateSpecIter :=
  if field.1 = filterKey then { iter with value := some field.2, hasQuery := true }
  else if field.1 = updateKey ∨ field.1 = replacementKey then
    { iter with value := some field.2, hasUpdate := true }
  else if field.1 = upsertKey then { iter with isUpsert := bsonIterBool field.2 }
  else if field.1 = arrayFiltersKey then
    { iter with value := some field.2, hasArrayFilters := true }
  else iter

def bulkUpdateParams (fields : Fields) : UpdateOneParams (Option Value) :=
  let iter := fields.foldl readUpdateField {}
  { query := if iter.hasQuery then iter.value else none
    update := if iter.hasUpdate then iter.value else none
    isUpsert := iter.isUpsert
    sort := none
    returnDocument := .none
    returnFields := none
    arrayFilters := if iter.hasArrayFilters then some iter.value else none }

def bulkDeleteQuery (fields : Fields) : Option Value :=
  fields.foldl (fun query field => if field.1 = filterKey then some field.2 else query) none

section

variable {Document ObjectId TransactionId Error : Type} [DecidableEq TransactionId]
  (calls : BulkCalls Document ObjectId Error)
  (transactionId : Option TransactionId)

def bsonValueInitIterator : Value → Except Error Fields
  | .document fields => .ok fields
  | .array elems => .ok (arrayFields elems)
  | _ => .error calls.notIterable

-- ==== inserts

/-- The shard key value that an insert stores a document under. -/
def bulkInsertShardKeyValue (document : Document) : Except Error UInt64 :=
  if calls.isSharded then calls.update.computeShardKeyHashForDocument document
  else .ok 0

/-- An `insertOne` of a document. -/
def bulkInsertDocument (value : Value) (s : UpdateState TransactionId Document ObjectId) :
    Except Error (BulkCounts × UpdateState TransactionId Document ObjectId) := do
  let documentBson ← calls.pgbsonInitFromDocumentBsonValue value
  let objectId := calls.update.pgbsonGetDocumentId documentBson
  let shardKeyValue ← bulkInsertShardKeyValue calls documentBson
  let rows ← calls.insertDocument shardKeyValue objectId documentBson s.rows
  return ({ insertedCount := 1 }, { s with rows := rows })

/-- An `insertOne`. Without a document it does nothing. -/
def bulkInsertOne (fields : Fields) (s : UpdateState TransactionId Document ObjectId) :
    Except Error (BulkCounts × UpdateState TransactionId Document ObjectId) :=
  match fields.find? (fun field => field.1 = documentKey) with
  | some field => bulkInsertDocument calls field.2 s
  | none => .ok ({}, s)

-- ==== updates

variable (result : UpdateOneResult Document ObjectId)

def upsertedCounts : BulkCounts :=
  { upsertedCount := if result.upsertedObjectId.isSome then 1 else 0 }

def updateOneCounts : BulkCounts :=
  { upsertedCounts result with
    matchedCount := if result.isRowUpdated then 1 else 0
    modifiedCount := if result.isRowUpdated && !result.updateSkipped then 1 else 0 }

/-- An `updateOne` or `replaceOne`. -/
def bulkUpdateOne (updateParams : UpdateOneParams (Option Value))
    (s : UpdateState TransactionId Document ObjectId) :
    Except Error (BulkCounts × UpdateState TransactionId Document ObjectId) := do
  let (result, s) ← updateOne calls.update updateParams 0 transactionId {} s
  return (updateOneCounts result, s)

/-- The local counters of an `updateMany`, of type `int`. -/
structure UpdateManyCounts where
  matchedCount : Int32 := 0
  modifiedCount : Int32 := 0

def UpdateManyCounts.next (counts : UpdateManyCounts)
    (result : UpdateOneResult Document ObjectId) : UpdateManyCounts :=
  if result.isRowUpdated then
    ⟨counts.matchedCount + 1, if result.updateSkipped then counts.modifiedCount
      else counts.modifiedCount + 1⟩
  else counts

/-- The loop of an `updateMany`. -/
def updateManyLoop (updateParams : UpdateOneParams (Option Value)) :
    Nat → UpdateManyCounts → UpdateState TransactionId Document ObjectId →
      Option (Except Error (UpdateManyCounts × UpdateOneResult Document ObjectId
        × UpdateState TransactionId Document ObjectId))
  | 0, _, _ => none
  | fuel + 1, counts, s =>
    match updateOne calls.update updateParams 0 transactionId {} s with
    | .error e => some (.error e)
    | .ok (result, s) =>
      if result.isRowUpdated && !updateParams.isUpsert then
        updateManyLoop updateParams fuel (counts.next result) s
      else some (.ok (counts.next result, result, s))

/-- The sum of an `int` and a `uint64` counter adds this to it. -/
def intToCount (n : Int32) : Nat := n.toInt64.toUInt64.toNat

/-- An `updateMany`. -/
def bulkUpdateMany (fuel : Nat) (updateParams : UpdateOneParams (Option Value))
    (s : UpdateState TransactionId Document ObjectId) :
    Option (Except Error (BulkCounts × UpdateState TransactionId Document ObjectId)) :=
  (updateManyLoop calls transactionId updateParams fuel {} s).map fun
    | .error e => .error e
    | .ok (counts, result, s) =>
      .ok ({ upsertedCounts result with
        matchedCount := intToCount counts.matchedCount
        modifiedCount := intToCount counts.modifiedCount }, s)

-- ==== deletes

/-- A `deleteOne`. -/
def bulkDeleteOne (query : Option Value) (s : UpdateState TransactionId Document ObjectId) :
    Except Error (BulkCounts × UpdateState TransactionId Document ObjectId) := do
  let (result, s) ← callDeleteOne calls.selectForDelete 0 query transactionId s
  return ({ deletedCount := if result.isRowDeleted then 1 else 0 }, s)

/-- A `deleteMany`. -/
def bulkDeleteMany (query : Option Value) (s : UpdateState TransactionId Document ObjectId) :
    Except Error (BulkCounts × UpdateState TransactionId Document ObjectId) := do
  let (deletedCount, rows) ← calls.deleteMany query s.rows
  return ({ deletedCount := deletedCount }, { s with rows := rows })

-- ==== dispatch

/-- What `ProcessSingleBulkOperation` executes in the sub-transaction. -/
def executeBulkOperation (fuel : Nat) (operation : BulkWriteOperation)
    (s : UpdateState TransactionId Document ObjectId) :
    Option (Except Error (BulkCounts × UpdateState TransactionId Document ObjectId)) :=
  match bsonValueInitIterator calls operation.operationSpec with
  | .error e => some (.error e)
  | .ok fields =>
    match operation.type with
    | .insertOne => some (bulkInsertOne calls fields s)
    | .updateOne | .replaceOne =>
      some (bulkUpdateOne calls transactionId (bulkUpdateParams fields) s)
    | .updateMany =>
      bulkUpdateMany calls transactionId fuel (bulkUpdateParams fields) s
    | .deleteOne =>
      some (bulkDeleteOne calls transactionId (bulkDeleteQuery fields) s)
    | .deleteMany => some (bulkDeleteMany calls (bulkDeleteQuery fields) s)

end

end DocumentDb
