/-
A single update and its retry.

An update with `multi: false` selects one row and writes the new document back, deletes the
row and asks for a reinsertion (its shard key value changed), upserts, or does nothing. With
a transaction id the upserted id and whether a row was updated are kept in a retry record.
The record tells all that a first attempt can report (`updateOneInternal_cases`) apart, but
for a matched document that the update leaves as it is.
-/
import DocumentDb.Commands.BatchWrite
import DocumentDb.Commands.RetryableWrites
import DocumentDb.Lib.Except

namespace DocumentDb

inductive UpdateReturnValue where
  | none
  | old
  | new
  deriving DecidableEq

structure UpdateOneParams (BsonValue : Type) where
  query : BsonValue
  update : BsonValue
  isUpsert : Bool
  sort : Option BsonValue
  returnDocument : UpdateReturnValue
  returnFields : Option BsonValue
  arrayFilters : Option BsonValue

/-- With the values that `UpdateOneInternal` starts from. -/
structure UpdateOneResult (Document ObjectId : Type) where
  isRowUpdated : Bool := false
  updateSkipped : Bool := false
  isRetry : Bool := false
  reinsertDocument : Option Document := none
  resultDocument : Option Document := none
  upsertedObjectId : Option ObjectId := none

structure CollectionRow (Document ObjectId : Type) where
  shardKeyValue : UInt64
  objectId : ObjectId
  document : Document

structure UpdateState (TransactionId Document ObjectId : Type) where
  rows : List (CollectionRow Document ObjectId)
  retryTable : RetryTable TransactionId ObjectId Document

/-- What an update of a collection calls. Where the collection has no
validator, the two schema validations accept everything. -/
structure UpdateCalls (BsonValue Document ObjectId Error : Type) where
  /-- SELECT … LIMIT 1 FOR UPDATE. -/
  selectRow : UInt64 → (query : BsonValue) → (sort : Option BsonValue) →
    (rows : List (CollectionRow Document ObjectId)) → Except Error (Option (Fin rows.length))
  hasOnlyObjectIdFilter : (query : BsonValue) → Bool
  needExistingDocForValidation : Bool
  emptyDocument : Document
  /-- The document after the update, where it changes. -/
  bsonUpdateDocument : Document → (update query : BsonValue) →
    (arrayFilters : Option BsonValue) → Except Error (Option Document)
  validateUpdateDocument : (update query : BsonValue) →
    (arrayFilters : Option BsonValue) → Except Error Unit
  pgbsonGetDocumentId : Document → ObjectId
  computeShardKeyHashForDocument : Document → Except Error UInt64
  validateSchemaOnDocumentInsert : Document → Except Error Unit
  validateSchemaOnDocumentUpdate : Option Document → Document → Except Error Unit
  doInsertForUpdate : UInt64 → ObjectId → Document → (hasOnlyObjectIdFilter : Bool) →
      List (CollectionRow Document ObjectId) → Except Error (List (CollectionRow Document ObjectId))
  projectDocument : (returnFields : BsonValue) → Document → Except Error Document
  /-- The document of an upsert is missing. -/
  noUpsertDocument : Error

section

variable {BsonValue Document ObjectId TransactionId Error : Type} [DecidableEq TransactionId]
  (calls : UpdateCalls BsonValue Document ObjectId Error)
  (updateOneParams : UpdateOneParams BsonValue) (shardKeyHash : UInt64)
  (rows : List (CollectionRow Document ObjectId))

/-- `UpdateOneInternal` where no document matched the query. -/
def updateNotFound :
    Except Error (UpdateOneResult Document ObjectId × List (CollectionRow Document ObjectId)) := do
  if updateOneParams.isUpsert then
    let some newDoc ← calls.bsonUpdateDocument calls.emptyDocument
      updateOneParams.update updateOneParams.query updateOneParams.arrayFilters
      | throw calls.noUpsertDocument
    let objectId := calls.pgbsonGetDocumentId newDoc
    let newShardKeyHash ← calls.computeShardKeyHashForDocument newDoc
    calls.validateSchemaOnDocumentInsert newDoc
    let resultDocument := if updateOneParams.returnDocument = .new then some newDoc else none
    if newShardKeyHash = shardKeyHash then
      let rows ← calls.doInsertForUpdate newShardKeyHash objectId newDoc
        (calls.hasOnlyObjectIdFilter updateOneParams.query) rows
      return ({
        resultDocument := resultDocument
        upsertedObjectId := some objectId }, rows)
    else
      -- shard key changed, reinsert via coordinator
      return ({
        reinsertDocument := some newDoc
        resultDocument := resultDocument
        upsertedObjectId := some objectId }, rows)
  else
    calls.validateUpdateDocument updateOneParams.update updateOneParams.query
      updateOneParams.arrayFilters
    return ({}, rows)

/-- `UpdateOneInternal` on the row that was found. -/
def updateFound (tid : Fin rows.length) :
    Except Error (UpdateOneResult Document ObjectId × List (CollectionRow Document ObjectId)) := do
  let row := rows.get tid
  let updatedDocument ← calls.bsonUpdateDocument row.document
    updateOneParams.update updateOneParams.query updateOneParams.arrayFilters
  let getExistingDoc := updateOneParams.returnDocument ≠ .none
    || updateOneParams.returnFields.isSome
    || calls.needExistingDocForValidation
  let originalDocument := if getExistingDoc then some row.document else none
  match updatedDocument with
  | some updatedPgbson =>
    let newShardKeyHash ← calls.computeShardKeyHashForDocument updatedPgbson
    calls.validateSchemaOnDocumentUpdate originalDocument updatedPgbson
    let resultDocument := match updateOneParams.returnDocument with
      | .new => some updatedPgbson
      | .old => originalDocument
      | .none => none
    if newShardKeyHash = shardKeyHash then
      return ({
        isRowUpdated := true
        resultDocument := resultDocument },
        rows.set tid { row with document := updatedPgbson })
    else
      -- delete the row and request reinsertion
      return ({
        isRowUpdated := true
        reinsertDocument := some updatedPgbson
        resultDocument := resultDocument }, rows.eraseIdx tid)
  | none =>
    return ({
      updateSkipped := true
      resultDocument := originalDocument }, rows)

/-- The projection of the result document, at the end of
`UpdateOneInternal`. -/
def projectResult (result : UpdateOneResult Document ObjectId) :
    Except Error (UpdateOneResult Document ObjectId) :=
  match updateOneParams.returnFields, result.resultDocument with
  | some returnFields, some document => do
    let projected ← calls.projectDocument returnFields document
    return { result with resultDocument := some projected }
  | _, _ => .ok result

def updateOneInternal :
    Except Error (UpdateOneResult Document ObjectId × List (CollectionRow Document ObjectId)) := do
  let (result, rows) ←
    match ← calls.selectRow shardKeyHash updateOneParams.query updateOneParams.sort rows with
    | none => updateNotFound calls updateOneParams shardKeyHash rows
    | some tid => updateFound calls updateOneParams shardKeyHash rows tid
  let result ← projectResult calls updateOneParams result
  return (result, rows)

/-- With the result that it is given. -/
def updateOneInternalWithRetryRecord (transactionId : TransactionId)
    (result : UpdateOneResult Document ObjectId) (s : UpdateState TransactionId Document ObjectId) :
    Except Error (UpdateOneResult Document ObjectId
      × UpdateState TransactionId Document ObjectId) :=
  match deleteRetryRecord shardKeyHash transactionId s.retryTable with
  | (some writeResult, retryTable) =>
    .ok ({ result with
      isRowUpdated := writeResult.rowsAffected
      reinsertDocument := none
      isRetry := true
      resultDocument := writeResult.resultDocument
      upsertedObjectId := writeResult.objectId },
      { s with retryTable := retryTable })
  | (none, retryTable) => do
    let (result, rows) ← updateOneInternal calls updateOneParams shardKeyHash s.rows
    let objectId := if updateOneParams.isUpsert then result.upsertedObjectId else none
    return (result, ⟨rows, insertRetryRecord shardKeyHash transactionId
      retryTable objectId result.isRowUpdated result.resultDocument⟩)

variable (transactionId : Option TransactionId) (result : UpdateOneResult Document ObjectId)
  (s : UpdateState TransactionId Document ObjectId)

def callUpdateOne : Except Error (UpdateOneResult Document ObjectId
      × UpdateState TransactionId Document ObjectId) :=
  match transactionId with
  | some transactionId => updateOneInternalWithRetryRecord calls
      updateOneParams shardKeyHash transactionId result s
  | none => do
    let (result, rows) ← updateOneInternal calls updateOneParams shardKeyHash s.rows
    return (result, { s with rows := rows })

def updateOne : Except Error (UpdateOneResult Document ObjectId
      × UpdateState TransactionId Document ObjectId) := do
  let (result, s) ← callUpdateOne calls updateOneParams shardKeyHash transactionId result s
  match result.reinsertDocument with
  | some reinsertDocument =>
    let newShardKeyHash ← calls.computeShardKeyHashForDocument reinsertDocument
    let rows ← calls.doInsertForUpdate newShardKeyHash
      (calls.pgbsonGetDocumentId reinsertDocument) reinsertDocument
      (calls.hasOnlyObjectIdFilter updateOneParams.query) s.rows
    return (result, { s with rows := rows })
  | none => return (result, s)

/-- `UpdateOne` on the rows alone, without a transaction id. -/
def updateOnRows :
    Except Error (UpdateOneResult Document ObjectId × List (CollectionRow Document ObjectId)) := do
  let (result, rows) ← updateOneInternal calls updateOneParams shardKeyHash rows
  match result.reinsertDocument with
  | some reinsertDocument =>
    let newShardKeyHash ← calls.computeShardKeyHashForDocument reinsertDocument
    let rows ← calls.doInsertForUpdate newShardKeyHash
      (calls.pgbsonGetDocumentId reinsertDocument) reinsertDocument
      (calls.hasOnlyObjectIdFilter updateOneParams.query) rows
    return (result, rows)
  | none => return (result, rows)

/-- What `ProcessUpdate` reports of a single update. -/
def updateOneReport (updateOneResult : UpdateOneResult Document ObjectId) : UpdateResult ObjectId :=
  let performedUpsert := updateOneParams.isUpsert
    && !updateOneResult.isRowUpdated && !updateOneResult.updateSkipped
  { rowsModified := if updateOneResult.isRowUpdated then 1 else 0
    rowsMatched :=
      if updateOneResult.isRowUpdated || updateOneResult.updateSkipped then 1
      else 0
    performedUpsert := performedUpsert
    upsertedObjectId := if performedUpsert then updateOneResult.upsertedObjectId else none }

/-- `ProcessUpdate` of an update with `multi: false` whose query filters by
the shard key value with the given hash. -/
def processUpdateOne :
    Except Error (UpdateResult ObjectId × UpdateState TransactionId Document ObjectId) := do
  let (updateOneResult, s) ← updateOne calls updateOneParams shardKeyHash transactionId {} s
  return (updateOneReport updateOneParams updateOneResult, s)

/-- `UpdateResultInBatch` copies the id of an upsert, which then has to be
there. -/
def UpdateResult.upsertHasId (updateResult : UpdateResult ObjectId) : Bool :=
  !updateResult.performedUpsert || updateResult.upsertedObjectId.isSome

/-- The update matches a document and leaves it as it is. -/
def UpdateIsNoop : Prop :=
  ∃ tid, calls.selectRow shardKeyHash updateOneParams.query
      updateOneParams.sort rows = .ok (some tid)
    ∧ calls.bsonUpdateDocument (rows.get tid).document updateOneParams.update
        updateOneParams.query updateOneParams.arrayFilters = .ok none

-- ==== first attempts

open Except (bind_eq_ok)

variable {calls} {params : UpdateOneParams BsonValue} {shard : UInt64}
  {rows rows' : List (CollectionRow Document ObjectId)}
  {result : UpdateOneResult Document ObjectId}

theorem updateNotFound_result (h : updateNotFound calls params shard rows = .ok (result, rows')) :
    result.updateSkipped = false ∧ result.isRowUpdated = false
      ∧ result.upsertedObjectId.isSome = params.isUpsert := by
  unfold updateNotFound at h
  cases hupsert : params.isUpsert with
  | true =>
    rw [if_pos hupsert] at h
    obtain ⟨newDoc, -, h⟩ := bind_eq_ok h
    cases newDoc with
    | none => cases h
    | some newDoc =>
      obtain ⟨newShardKeyHash, -, h⟩ := bind_eq_ok h
      obtain ⟨_, -, h⟩ := bind_eq_ok h
      by_cases hkey : newShardKeyHash = shard
      · rw [if_pos hkey] at h
        obtain ⟨_, -, h⟩ := bind_eq_ok h
        cases h
        exact ⟨rfl, rfl, rfl⟩
      · rw [if_neg hkey] at h
        cases h
        exact ⟨rfl, rfl, rfl⟩
  | false =>
    rw [if_neg (by rw [hupsert]; exact Bool.false_ne_true)] at h
    obtain ⟨_, -, h⟩ := bind_eq_ok h
    cases h
    exact ⟨rfl, rfl, rfl⟩

theorem updateFound_result {tid : Fin rows.length}
    (h : updateFound calls params shard rows tid = .ok (result, rows')) :
    ∃ updated, calls.bsonUpdateDocument (rows.get tid).document params.update
        params.query params.arrayFilters = .ok updated
      ∧ result.updateSkipped = updated.isNone
      ∧ result.isRowUpdated = updated.isSome
      ∧ result.upsertedObjectId = none := by
  unfold updateFound at h
  obtain ⟨updated, hupdate, h⟩ := bind_eq_ok h
  refine ⟨updated, hupdate, ?_⟩
  cases updated with
  | none =>
    cases h
    exact ⟨rfl, rfl, rfl⟩
  | some updatedPgbson =>
    obtain ⟨newShardKeyHash, -, h⟩ := bind_eq_ok h
    obtain ⟨_, -, h⟩ := bind_eq_ok h
    by_cases hkey : newShardKeyHash = shard
    · rw [if_pos hkey] at h
      cases h
      exact ⟨rfl, rfl, rfl⟩
    · rw [if_neg hkey] at h
      cases h
      exact ⟨rfl, rfl, rfl⟩

theorem projectResult_fields {projected : UpdateOneResult Document ObjectId}
    (h : projectResult calls params result = .ok projected) :
    projected.updateSkipped = result.updateSkipped ∧ projected.isRowUpdated = result.isRowUpdated
      ∧ projected.upsertedObjectId = result.upsertedObjectId := by
  unfold projectResult at h
  split at h
  · obtain ⟨_, -, h⟩ := bind_eq_ok h
    cases h
    exact ⟨rfl, rfl, rfl⟩
  · cases h
    exact ⟨rfl, rfl, rfl⟩

theorem updateOneInternal_result
    (h : updateOneInternal calls params shard rows = .ok (result, rows')) :
    (calls.selectRow shard params.query params.sort rows = .ok none
      ∧ result.updateSkipped = false ∧ result.isRowUpdated = false
      ∧ result.upsertedObjectId.isSome = params.isUpsert)
    ∨ ∃ tid, calls.selectRow shard params.query params.sort rows = .ok (some tid)
      ∧ ∃ updated, calls.bsonUpdateDocument (rows.get tid).document params.update params.query
          params.arrayFilters = .ok updated
        ∧ result.updateSkipped = updated.isNone
        ∧ result.isRowUpdated = updated.isSome
        ∧ result.upsertedObjectId = none := by
  unfold updateOneInternal at h
  obtain ⟨found, hselect, h⟩ := bind_eq_ok h
  cases found
  all_goals
    obtain ⟨⟨first, _⟩, hfirst, h⟩ := bind_eq_ok h
    obtain ⟨projected, hproject, h⟩ := bind_eq_ok h
    cases h
    obtain ⟨hskip, hupdated, hid⟩ := projectResult_fields hproject
    rw [hskip, hupdated, hid]
  case none => exact .inl ⟨hselect, updateNotFound_result hfirst⟩
  case some => exact .inr ⟨_, hselect, updateFound_result hfirst⟩

/-- What a first attempt reports: a document that was left as it is, or one
that was updated, or the id of an upsert, or nothing. -/
theorem updateOneInternal_cases
    (h : updateOneInternal calls params shard rows = .ok (result, rows')) :
    (UpdateIsNoop calls params shard rows ∧ result.updateSkipped ∧ result.isRowUpdated = false)
    ∨ (¬ UpdateIsNoop calls params shard rows ∧ result.updateSkipped = false
      ∧ (result.isRowUpdated ∨ result.upsertedObjectId.isSome = params.isUpsert)) := by
  obtain ⟨hselect, hskip, -, hid⟩
    | ⟨tid, hselect, updated, hupdate, hskip, hupdated, -⟩ :=
    updateOneInternal_result h
  · refine .inr ⟨?_, hskip, .inr hid⟩
    rintro ⟨tid, htid, -⟩
    rw [hselect] at htid
    cases htid
  cases updated with
  | none => exact .inl ⟨⟨tid, hselect, hupdate⟩, hskip, hupdated⟩
  | some updatedPgbson =>
    refine .inr ⟨?_, hskip, .inl hupdated⟩
    rintro ⟨tid', htid, hnone⟩
    rw [hselect] at htid
    cases htid
    rw [hupdate] at hnone
    cases hnone

-- ==== retries

variable {id : TransactionId}
  {s s' : UpdateState TransactionId Document ObjectId}
  {report : UpdateResult ObjectId}

/-- The retry table after an update that found no record. -/
def recordUpdate
    (id : TransactionId) (retryTable : RetryTable TransactionId ObjectId Document)
    (result : UpdateOneResult Document ObjectId) : RetryTable TransactionId ObjectId Document :=
  insertRetryRecord shardKeyHash id (deleteRetryRecord shardKeyHash id retryTable).2
    (if updateOneParams.isUpsert then result.upsertedObjectId else none)
    result.isRowUpdated result.resultDocument

variable {record : RetryRecord TransactionId ObjectId Document}

theorem callUpdateOne_answered (h : (deleteRetryRecord shard id s.retryTable).1 = some record) :
    callUpdateOne calls params shard (some id) result s = .ok ({ result with
          isRowUpdated := record.rowsAffected
          reinsertDocument := none
          isRetry := true
          resultDocument := record.resultDocument
          upsertedObjectId := record.objectId },
        { s with retryTable :=
          (deleteRetryRecord shard id s.retryTable).2 }) := by
  unfold callUpdateOne updateOneInternalWithRetryRecord
  simp only
  generalize deleteRetryRecord shard id s.retryTable = found at h ⊢
  obtain ⟨found, retryTable⟩ := found
  cases h
  rfl

theorem callUpdateOne_recorded (h : (deleteRetryRecord shard id s.retryTable).1 = none) :
    callUpdateOne calls params shard (some id) result s
      = (updateOneInternal calls params shard s.rows).map fun done =>
          (done.1, ⟨done.2, recordUpdate params shard id s.retryTable done.1⟩) := by
  unfold callUpdateOne updateOneInternalWithRetryRecord recordUpdate
  simp only
  generalize deleteRetryRecord shard id s.retryTable = found at h ⊢
  obtain ⟨found, retryTable⟩ := found
  cases h
  cases updateOneInternal calls params shard s.rows <;> rfl

theorem updateOne_of_callUpdateOne {txn : Option TransactionId}
    (table : UpdateOneResult Document ObjectId → RetryTable TransactionId ObjectId Document)
    (h : callUpdateOne calls params shard txn {} s
      = (updateOneInternal calls params shard s.rows).map fun done =>
          (done.1, ⟨done.2, table done.1⟩)) :
    updateOne calls params shard txn {} s = (updateOnRows calls params shard s.rows).map fun done =>
          (done.1, ⟨done.2, table done.1⟩) := by
  unfold updateOne updateOnRows
  rw [h]
  cases updateOneInternal calls params shard s.rows with
  | error e => rfl
  | ok done =>
    simp only [bind, Except.bind, pure, Except.pure, Except.map]
    cases done.1.reinsertDocument with
    | none => rfl
    | some document =>
      simp only
      cases calls.computeShardKeyHashForDocument document with
      | error e => rfl
      | ok newShardKeyHash =>
        simp only
        cases calls.doInsertForUpdate newShardKeyHash (calls.pgbsonGetDocumentId document) document
          (calls.hasOnlyObjectIdFilter params.query) done.2 <;> rfl

theorem updateOneInternal_of_updateOnRows
    (h : updateOnRows calls params shard rows = .ok (result, rows')) :
    ∃ written, updateOneInternal calls params shard rows = .ok (result, written) := by
  unfold updateOnRows at h
  obtain ⟨⟨first, written⟩, hfirst, h⟩ := bind_eq_ok h
  refine ⟨written, hfirst.trans ?_⟩
  simp only at h
  cases hreinsert : first.reinsertDocument with
  | none =>
    rw [hreinsert] at h
    cases h
    rfl
  | some document =>
    rw [hreinsert] at h
    obtain ⟨_, -, h⟩ := bind_eq_ok h
    obtain ⟨_, -, h⟩ := bind_eq_ok h
    cases h
    rfl

/-- A first attempt reports what the update did, and its record holds the
upserted id and whether a row was updated. -/
theorem processUpdateOne_first (hfresh : ∀ record ∈ s.retryTable, record.transactionId ≠ id)
    (h : processUpdateOne calls params shard (some id) s = .ok (report, s')) :
    ∃ result rows, updateOneInternal calls params shard s.rows = .ok (result, rows)
      ∧ report = updateOneReport params result
      ∧ (deleteRetryRecord shard id s'.retryTable).1
        = some ⟨shard, id, if params.isUpsert then result.upsertedObjectId
            else none, result.isRowUpdated, result.resultDocument⟩ := by
  unfold processUpdateOne at h
  rw [updateOne_of_callUpdateOne _
    (callUpdateOne_recorded (deleteRetryRecord_of_fresh hfresh))] at h
  obtain ⟨done, hdone, h⟩ := bind_eq_ok h
  obtain ⟨⟨result, rows⟩, hrows, rfl⟩ := Except.map_eq_ok hdone
  cases h
  obtain ⟨written, hinternal⟩ := updateOneInternal_of_updateOnRows hrows
  exact ⟨result, written, hinternal, rfl, deleteRetryRecord_insert deleteRetryRecord_deleted⟩

theorem processUpdateOne_retry (h : (deleteRetryRecord shard id s.retryTable).1 = some record) :
    processUpdateOne calls params shard (some id) s = .ok (updateOneReport params
            ({ isRowUpdated := record.rowsAffected
               upsertedObjectId := record.objectId } :
              UpdateOneResult Document ObjectId),
          { s with retryTable :=
            (deleteRetryRecord shard id s.retryTable).2 }) := by
  unfold processUpdateOne updateOne
  rw [callUpdateOne_answered h]
  rfl

end

/-- A single update that succeeded, sent again with its transaction id,
changes no document and reports the same, with the id of an upsert in its
place, exactly when the first attempt did not match a document that needed no
change. -/
theorem processUpdateOne_retry_iff {BsonValue Document ObjectId TransactionId Error : Type}
    [DecidableEq TransactionId] (calls : UpdateCalls BsonValue Document ObjectId Error)
    (updateOneParams : UpdateOneParams BsonValue) (shardKeyHash : UInt64)
    (id : TransactionId) (s s' : UpdateState TransactionId Document ObjectId)
    (report : UpdateResult ObjectId) (hfresh : ∀ record ∈ s.retryTable, record.transactionId ≠ id)
    (hfirst : processUpdateOne calls updateOneParams shardKeyHash (some id) s = .ok (report, s')) :
    (∃ retry s'',
      processUpdateOne calls updateOneParams shardKeyHash (some id) s' = .ok (retry, s'')
      ∧ s''.rows = s'.rows ∧ retry.upsertHasId = true ∧ retry = report)
    ↔ ¬ UpdateIsNoop calls updateOneParams shardKeyHash s.rows := by
  obtain ⟨result, rows, hresult, rfl, hrecord⟩ := processUpdateOne_first hfresh hfirst
  have hretry := @processUpdateOne_retry _ _ _ _ _ _ calls updateOneParams
    shardKeyHash id s' _ hrecord
  rw [hretry]
  constructor
  · rintro ⟨retry, s'', h, -, -, hreport⟩ hnoop
    cases h
    -- the record says that no row was updated, and not that one was matched
    obtain ⟨-, hskip, hupdated⟩ | ⟨hnot, -⟩ := updateOneInternal_cases hresult
    · have hmatched := congrArg UpdateResult.rowsMatched hreport
      simp [updateOneReport, hskip, hupdated] at hmatched
    · exact hnot hnoop
  · intro hnot
    obtain ⟨hnoop, -⟩ | ⟨-, hskip, hid⟩ := updateOneInternal_cases hresult
    · exact absurd hnoop hnot
    · refine ⟨_, _, rfl, rfl, ?_, ?_⟩
      · unfold UpdateResult.upsertHasId updateOneReport
        cases hu : updateOneParams.isUpsert <;> cases hr : result.isRowUpdated <;> simp_all
      · unfold updateOneReport
        cases hu : updateOneParams.isUpsert <;> cases hr : result.isRowUpdated <;> simp_all

/-- Documents with an id and a value, selected by id; an update sets the
value. -/
def setValueCalls : UpdateCalls Nat (Nat × Nat) Nat Unit where
  selectRow shardKeyHash query _ rows := .ok (rows.findFinIdx? fun row =>
    row.shardKeyValue == shardKeyHash && row.document.1 == query)
  hasOnlyObjectIdFilter _ := true
  needExistingDocForValidation := false
  emptyDocument := (0, 0)
  bsonUpdateDocument document update query _ :=
    .ok (if document.2 = update then none else some (query, update))
  validateUpdateDocument _ _ _ := .ok ()
  pgbsonGetDocumentId document := document.1
  computeShardKeyHashForDocument _ := .ok 7
  validateSchemaOnDocumentInsert _ := .ok ()
  validateSchemaOnDocumentUpdate _ _ := .ok ()
  doInsertForUpdate shardKeyHash objectId document _ rows :=
    .ok (rows ++ [⟨shardKeyHash, objectId, document⟩])
  projectDocument _ document := .ok document
  noUpsertDocument := ()

/-- An upsert that sets the value of the document with id 1. -/
def setValueOfOne (value : Nat) : UpdateOneParams Nat where
  query := 1
  update := value
  isUpsert := true
  sort := none
  returnDocument := .none
  returnFields := none
  arrayFilters := none

theorem changed_value_is_reported_again :
    let s : UpdateState String (Nat × Nat) Nat := ⟨[⟨7, 1, (1, 10)⟩], []⟩
    let s' : UpdateState String (Nat × Nat) Nat := ⟨[⟨7, 1, (1, 20)⟩], [⟨7, "t", none, true, none⟩]⟩
    processUpdateOne setValueCalls (setValueOfOne 20) 7 (some "t") s = .ok (⟨1, 1, false, none⟩, s')
    ∧ ∃ retry s'',
      processUpdateOne setValueCalls (setValueOfOne 20) 7 (some "t") s' = .ok (retry, s'')
      ∧ s''.rows = s'.rows ∧ retry.upsertHasId = true
      ∧ retry = ⟨1, 1, false, none⟩ := by
  intro s s'
  refine ⟨rfl, (processUpdateOne_retry_iff setValueCalls (setValueOfOne 20) 7
    "t" s s' ⟨1, 1, false, none⟩ (fun _ h => by cases h) rfl).2 ?_⟩
  rintro ⟨tid, -, h⟩
  have hzero : tid.val = 0 := Nat.lt_one_iff.1 tid.isLt
  have htid : tid = ⟨0, Nat.zero_lt_one⟩ := Fin.ext hzero
  rw [htid] at h
  cases h

theorem same_value_is_reported_as_upsert :
    let s : UpdateState String (Nat × Nat) Nat := ⟨[⟨7, 1, (1, 10)⟩], []⟩
    let s' : UpdateState String (Nat × Nat) Nat :=
      ⟨[⟨7, 1, (1, 10)⟩], [⟨7, "t", none, false, none⟩]⟩
    processUpdateOne setValueCalls (setValueOfOne 10) 7 (some "t") s = .ok (⟨1, 0, false, none⟩, s')
    ∧ ¬ ∃ retry s'',
      processUpdateOne setValueCalls (setValueOfOne 10) 7 (some "t") s' = .ok (retry, s'')
      ∧ s''.rows = s'.rows ∧ retry.upsertHasId = true
      ∧ retry = ⟨1, 0, false, none⟩ := by
  intro s s'
  refine ⟨rfl, ?_⟩
  rintro ⟨retry, s'', h, -, hid, -⟩
  cases h
  cases hid

end DocumentDb
