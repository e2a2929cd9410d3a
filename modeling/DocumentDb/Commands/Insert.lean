/-
The insert command.

The documents of the command, an array or a sequence, are copied into a list without those
whose first field is an `_id` of type undefined, and inserted. The errors carry the index in
that list, which is the position in the command only where nothing was left out before
(`Lib/Numbered`).
-/
import DocumentDb.Bson.Encode
import DocumentDb.Bson.Path
import DocumentDb.Lib.Except
import DocumentDb.Lib.Numbered
import DocumentDb.Commands.BatchWrite

namespace DocumentDb

open SubTransaction List

/-- The errors that refuse an insert command for its documents. -/
inductive InsertSpecError where
  /-- The field `insert.documents.<index>` is not a document. -/
  | typeMismatch (index : Nat) (type : BsonType)
  | documentTooLarge (size : Nat)
  | invalidLength (operations : Nat)
  deriving DecidableEq

-- ==== the list

/-- The document is left out: its first field is an `_id` of type
undefined. -/
def isSkipped : Fields → Bool
  | (path, .undefined) :: _ => path = idField
  | _ => false

def validateAndCheckShouldInsertDocument (docValue : Fields) : Except InsertSpecError Bool :=
  if isSkipped docValue then .ok false
  else if bsonMaxAllowedSize < (encodeDoc docValue).length then
    .error (.documentTooLarge (encodeDoc docValue).length)
  else .ok true

/-- The loop of `BuildInsertionList`. The index in its error is the length of
the list so far. -/
def buildInsertionListLoop : List Value → (documents : List Fields) → (hasSkippedDocuments : Bool) →
      Except InsertSpecError (List Fields × Bool)
  | [], documents, hasSkippedDocuments => .ok (documents, hasSkippedDocuments)
  | .document fields :: insertArray, documents, hasSkippedDocuments =>
    match validateAndCheckShouldInsertDocument fields with
    | .error e => .error e
    | .ok true =>
      buildInsertionListLoop insertArray (documents ++ [fields]) hasSkippedDocuments
    | .ok false => buildInsertionListLoop insertArray documents true
  | value :: _, documents, _ =>
    .error (.typeMismatch documents.length value.type)

/-- The documents to insert, and whether some were left out. -/
def buildInsertionList (insertArray : List Value) : Except InsertSpecError (List Fields × Bool) :=
  buildInsertionListLoop insertArray [] false

/-- The first loop of `BuildInsertionListFromPgbsonSequence`, which ends at the
first document that is left out. -/
def sequenceHasSkippedDocuments : List Fields → Except InsertSpecError Bool
  | [] => .ok false
  | docValue :: sequenceValues =>
    match validateAndCheckShouldInsertDocument docValue with
    | .error e => .error e
    | .ok true => sequenceHasSkippedDocuments sequenceValues
    | .ok false => .ok true

/-- The second loop of `BuildInsertionListFromPgbsonSequence`. -/
def sequenceDocuments :
    List Fields → (documents : List Fields) → Except InsertSpecError (List Fields)
  | [], documents => .ok documents
  | docValue :: sequenceValues, documents =>
    match validateAndCheckShouldInsertDocument docValue with
    | .error e => .error e
    | .ok true => sequenceDocuments sequenceValues (documents ++ [docValue])
    | .ok false => sequenceDocuments sequenceValues documents

def buildInsertionListFromPgbsonSequence (sequenceValues : List Fields) :
    Except InsertSpecError (List Fields × Bool) :=
  match sequenceHasSkippedDocuments sequenceValues with
  | .error e => .error e
  | .ok false => .ok (sequenceValues, false)
  | .ok true =>
    match sequenceDocuments sequenceValues [] with
    | .error e => .error e
    | .ok documents => .ok (documents, true)

/-- The documents of a command: the field `documents`, or a sequence next to
the command. -/
inductive InsertDocuments where
  | array (insertArray : List Value)
  | sequence (sequenceValues : List Fields)

def InsertDocuments.client : InsertDocuments → List Value
  | array insertArray => insertArray
  | sequence sequenceValues => sequenceValues.map .document

/-- The documents that `BuildBatchInsertionSpec` gives to be inserted. -/
def batchInsertionDocuments (maxWriteBatchSize : Nat)
    (documents : InsertDocuments) : Except InsertSpecError (List Fields) :=
  let built := match documents with
    | .array insertArray => buildInsertionList insertArray
    | .sequence sequenceValues =>
      buildInsertionListFromPgbsonSequence sequenceValues
  match built with
  | .error e => .error e
  | .ok (documents, hasSkippedDocuments) =>
    if (!hasSkippedDocuments && documents.length == 0)
        || decide (maxWriteBatchSize < documents.length) then
      .error (.invalidLength documents.length)
    else .ok documents

-- ==== the command

section Command

-- `processRetryableInsertion` is `ProcessInsertion` with a transaction id,
-- which looks for a retry record first.
variable {TransactionId Row Table Error : Type*}
  (preprocessInsertionDoc : Fields → Except Error Row)
  (query : InsertQuery Row Table Error)
  (processRetryableInsertion : TransactionId → Fields → Table → Except Error (Table × Nat))
  (batchWriteSubTransactionCount : Nat) (isOrdered : Bool)
  (transactionId : Option TransactionId)

/-- `DoSingleInsert` with a transaction id. -/
def doSingleRetryableInsert (transactionId : TransactionId)
    (document : Fields) (insertIndex : Nat) (table : Table)
    (batchResult : BatchInsertionResult Error) : Table × BatchInsertionResult Error :=
  match processRetryableInsertion transactionId document table with
  | .ok (table, numDocsInserted) =>
    (table, { batchResult with rowsInserted :=
      batchResult.rowsInserted + UInt64.ofNat numDocsInserted })
  | .error e =>
    (table, { batchResult with writeErrors := batchResult.writeErrors ++ [⟨insertIndex, e⟩] })

variable (documents : List Fields)

def processBatchInsertion (fuel : Nat)
    (table : Table) : Option (Table × BatchInsertionResult Error) :=
  match transactionId, documents with
  | some transactionId, [document] =>
    some (doSingleRetryableInsert processRetryableInsertion transactionId document 0 table ⟨0, []⟩)
  | _, _ =>
    doBatchInsertNoTransactionId preprocessInsertionDoc query
      batchWriteSubTransactionCount isOrdered documents fuel table

/-- The inserts of `CommandInsertCore`. -/
def commandInsert (fuel : Nat) (table : Table) : Option (Table × BatchInsertionResult Error) :=
  if documents.length = 0 then some (table, ⟨0, []⟩)
  else
    processBatchInsertion preprocessInsertionDoc query
      processRetryableInsertion batchWriteSubTransactionCount isOrdered
      transactionId documents fuel table

-- ==== the log

def singleInsertion (document : Fields) (table : Table) : Except Error (Table × Nat) :=
  match transactionId, documents with
  | some transactionId, [_] =>
    processRetryableInsertion transactionId document table
  | _, _ => processInsertion preprocessInsertionDoc query document table

end Command

def insertedFields? : Value → Option Fields
  | .document fields => if isSkipped fields then none else some fields
  | _ => none

/-- A document that was tried, with its position in the command. -/
structure InsertEntry (Error : Type*) where
  position : Nat
  document : Fields
  error? : Option Error

section Log

variable {Table Error : Type*}
  (insert : Fields → Table → Except Error (Table × Nat)) (isOrdered : Bool)

/-- The documents that are tried, each on the table that those before it left,
and the table at the end. -/
def insertLog : List (Nat × Fields) → Table → List (InsertEntry Error) × Table
  | [], table => ([], table)
  | (position, document) :: documents, table =>
    match insert document table with
    | .ok (table, _) =>
      let (log, table) := insertLog documents table
      (⟨position, document, none⟩ :: log, table)
    | .error e =>
      let entry : InsertEntry Error := ⟨position, document, some e⟩
      if isOrdered then ([entry], table)
      else
        let (log, table) := insertLog documents table
        (entry :: log, table)

def insertedAll (documents : List Fields) (table : Table) : Option Table :=
  documents.foldlM (fun table document =>
    (insert document table).toOption.map Prod.fst) table

/-- The log of a command, by the positions in the list of the client. -/
def clientLog (client : List Value) (table : Table) : List (InsertEntry Error) × Table :=
  insertLog insert isOrdered (Numbered.kept insertedFields? client 0) table

/-- The errors of a result carry the positions of the documents that failed in
the list of the client. Where the inserts are ordered, the documents before the
first position that is reported have been inserted, except those that are left
out, and no other. -/
structure NamesClientDocuments (client : List Value) (table newTable : Table)
    (batchResult : BatchInsertionResult Error) : Prop where
  errors : batchResult.writeErrors
    = Numbered.byPosition WriteError.mk InsertEntry.position InsertEntry.error?
        (clientLog insert isOrdered client table).1
  untilFailure : isOrdered = true → ∀ e ∈ batchResult.writeErrors.head?,
    insertedAll insert ((client.take e.index).filterMap insertedFields?) table = some newTable

end Log

-- ==== what is built

theorem validateAndCheckShouldInsertDocument_ok {docValue : Fields} {shouldInsert : Bool}
    (h : validateAndCheckShouldInsertDocument docValue = .ok shouldInsert) :
    insertedFields? (.document docValue) = if shouldInsert then some docValue else none := by
  unfold validateAndCheckShouldInsertDocument at h
  show (if isSkipped docValue then none else some docValue) = _
  cases hskipped : isSkipped docValue with
  | true =>
    rw [hskipped, if_pos rfl] at h
    cases h
    rfl
  | false =>
    rw [hskipped, if_neg Bool.false_ne_true] at h
    by_cases hsize : bsonMaxAllowedSize < (encodeDoc docValue).length
    · rw [if_pos hsize] at h
      cases h
    · rw [if_neg hsize] at h
      cases h
      rfl

variable {documents built seqs : List Fields}

theorem buildInsertionListLoop_ok {insertArray : List Value} {hasSkippedDocuments skipped : Bool}
    (h : buildInsertionListLoop insertArray documents hasSkippedDocuments
      = .ok (built, skipped)) : built = documents ++ insertArray.filterMap insertedFields? := by
  induction insertArray generalizing documents hasSkippedDocuments with
  | nil =>
    cases h
    rw [filterMap_nil, append_nil]
  | cons value insertArray ih =>
    cases value with
    | document fields =>
      rw [buildInsertionListLoop] at h
      cases hcheck : validateAndCheckShouldInsertDocument fields with
      | error e =>
        rw [hcheck] at h
        cases h
      | ok shouldInsert =>
        rw [hcheck] at h
        rw [filterMap_cons, validateAndCheckShouldInsertDocument_ok hcheck]
        cases shouldInsert with
        | true =>
          rw [ih h, append_assoc]
          rfl
        | false => exact ih h
    | _ => cases h

theorem sequenceHasSkippedDocuments_false (h : sequenceHasSkippedDocuments seqs = .ok false) :
    (seqs.map Value.document).filterMap insertedFields? = seqs := by
  induction seqs with
  | nil => rfl
  | cons docValue seqs ih =>
    rw [sequenceHasSkippedDocuments] at h
    cases hcheck : validateAndCheckShouldInsertDocument docValue with
    | error e =>
      rw [hcheck] at h
      cases h
    | ok shouldInsert =>
      rw [hcheck] at h
      cases shouldInsert with
      | false => cases h
      | true =>
        rw [map_cons, filterMap_cons, validateAndCheckShouldInsertDocument_ok hcheck,
          if_pos rfl, ih h]

theorem sequenceDocuments_ok (h : sequenceDocuments seqs documents = .ok built) :
    built = documents ++ (seqs.map Value.document).filterMap insertedFields? := by
  induction seqs generalizing documents with
  | nil =>
    cases h
    rw [map_nil, filterMap_nil, append_nil]
  | cons docValue seqs ih =>
    rw [sequenceDocuments] at h
    cases hcheck : validateAndCheckShouldInsertDocument docValue with
    | error e =>
      rw [hcheck] at h
      cases h
    | ok shouldInsert =>
      rw [hcheck] at h
      rw [map_cons, filterMap_cons, validateAndCheckShouldInsertDocument_ok hcheck]
      cases shouldInsert with
      | true =>
        rw [ih h, append_assoc]
        rfl
      | false => exact ih h

theorem batchInsertionDocuments_ok {maxWriteBatchSize : Nat} {source : InsertDocuments}
    (h : batchInsertionDocuments maxWriteBatchSize source = .ok documents) :
    documents = source.client.filterMap insertedFields? := by
  have hbuilt : ∃ built skipped, (match source with
        | .array insertArray => buildInsertionList insertArray
        | .sequence seqs =>
          buildInsertionListFromPgbsonSequence seqs)
        = .ok (built, skipped) ∧ documents = built := by
    unfold batchInsertionDocuments at h
    simp only at h
    split at h
    · cases h
    · next built skipped hok =>
        refine ⟨built, skipped, hok, ?_⟩
        split at h
        · cases h
        · cases h
          rfl
  obtain ⟨built, skipped, hok, rfl⟩ := hbuilt
  cases source with
  | array insertArray =>
    rw [buildInsertionListLoop_ok hok]
    rfl
  | sequence seqs =>
    unfold buildInsertionListFromPgbsonSequence at hok
    cases hskips : sequenceHasSkippedDocuments seqs with
    | error e =>
      simp only [hskips] at hok
      cases hok
    | ok hasSkipped =>
      simp only [hskips] at hok
      cases hasSkipped with
      | false =>
        cases hok
        exact (sequenceHasSkippedDocuments_false hskips).symm
      | true =>
        cases hkept : sequenceDocuments seqs [] with
        | error e =>
          simp only [hkept] at hok
          cases hok
        | ok kept =>
          simp only [hkept] at hok
          cases hok
          exact sequenceDocuments_ok hkept

-- ==== the loops

section Run

variable {TransactionId Row Table Error : Type*}
  {insert : Fields → Table → Except Error (Table × Nat)}
  {preprocess : Fields → Except Error Row}
  {query : InsertQuery Row Table Error}
  {retryInsert : TransactionId → Fields → Table → Except Error (Table × Nat)}
  {batchCount : Nat} {isOrdered : Bool}
  {transactionId : Option TransactionId}

theorem insertLog_isPrefix (ordered : Bool) (kept : List (Nat × Fields)) (table : Table) :
    (insertLog insert ordered kept table).1.map
        (fun entry => (entry.position, entry.document)) <+: kept := by
  induction kept generalizing table with
  | nil => exact nil_prefix
  | cons head kept ih =>
    obtain ⟨position, document⟩ := head
    rw [insertLog]
    cases insert document table with
    | ok inserted => exact cons_prefix_cons.2 ⟨rfl, ih inserted.1⟩
    | error e =>
      cases ordered with
      | true => exact cons_prefix_cons.2 ⟨rfl, nil_prefix⟩
      | false => exact cons_prefix_cons.2 ⟨rfl, ih table⟩

variable {table : Table} {k : Nat} {entry : InsertEntry Error}

theorem insertedAll_of_insertLog {kept : List (Nat × Fields)}
    (h : (insertLog insert true kept table).1[k]? = some entry) (hfails : entry.error?.isSome) :
    insertedAll insert ((kept.take k).map Prod.snd) table
      = some (insertLog insert true kept table).2 := by
  induction kept generalizing table k with
  | nil => cases h
  | cons head kept ih =>
    obtain ⟨position, document⟩ := head
    rw [insertLog] at h ⊢
    cases hinsert : insert document table with
    | ok inserted =>
      rw [hinsert] at h
      cases k with
      | zero =>
        cases h
        cases hfails
      | succ k =>
        have hrest := ih h
        unfold insertedAll at hrest ⊢
        rw [take_succ_cons, map_cons, foldlM_cons, hinsert]
        exact hrest
    | error e =>
      rw [hinsert] at h
      cases k with
      | zero => rfl
      | succ k => cases h

variable (kept : List (Nat × Fields))

/-- The step of a run by `SubTransaction`, and the run: it leaves the table of
the log, and reports its errors by number. -/
theorem run_execInsert_eq (first : Nat) (table : Table) (result : BatchInsertionResult Error) :
    ∃ inserted, run (execInsert preprocess query) noteInsertError isOrdered
          (kept.map Prod.snd) first (table, result)
        = ((insertLog (processInsertion preprocess query) isOrdered kept table).2,
            ⟨inserted, result.writeErrors ++ Numbered.byNumber WriteError.mk InsertEntry.error?
                (insertLog (processInsertion preprocess query) isOrdered kept table).1 first⟩) := by
  induction kept generalizing first table result with
  | nil => exact ⟨result.rowsInserted, by simp [run, insertLog, Numbered.byNumber]⟩
  | cons head kept ih =>
    obtain ⟨position, document⟩ := head
    rw [map_cons, run, insertLog, execInsert]
    cases processInsertion preprocess query document table with
    | ok inserted =>
      exact ih (first + 1) inserted.1 _
    | error e =>
      cases isOrdered with
      | true =>
        refine ⟨result.rowsInserted, ?_⟩
        simp [Numbered.byNumber, noteInsertError]
      | false =>
        obtain ⟨inserted, hrun⟩ := ih (first + 1) table (noteInsertError first e (table, result)).2
        refine ⟨inserted, ?_⟩
        simp only [Numbered.byNumber_cons, Option.map_some,
          Option.toList_some, Bool.false_eq_true, if_false]
        rw [← append_assoc]
        exact hrun

theorem doBatchInsertNoTransactionId_eq
    {fuel : Nat} (hfuel : 2 * kept.length + 2 ≤ fuel) (table : Table) : ∃ inserted,
      doBatchInsertNoTransactionId preprocess query batchCount isOrdered (kept.map Prod.snd) fuel
          table
        = some ((insertLog (processInsertion preprocess query) isOrdered kept table).2,
            ⟨inserted, Numbered.byNumber WriteError.mk InsertEntry.error?
              (insertLog (processInsertion preprocess query) isOrdered kept table).1 0⟩) := by
  obtain ⟨inserted, hrun⟩ := @run_execInsert_eq _ _ _
    preprocess query isOrdered kept 0 table ⟨0, []⟩
  refine ⟨inserted, ?_⟩
  unfold doBatchInsertNoTransactionId
  rw [insertLoop_eq]
  · rw [drop_zero, hrun, nil_append]
  · simp only [SubTransaction.passes, length_map, Bool.false_eq_true, if_false]
    omega

theorem commandInsert_eq {fuel : Nat} (hfuel : 2 * kept.length + 2 ≤ fuel) (table : Table) :
    ∃ inserted, commandInsert preprocess query retryInsert batchCount isOrdered transactionId
          (kept.map Prod.snd) fuel table
        = some ((insertLog (singleInsertion preprocess query
              retryInsert transactionId (kept.map Prod.snd))
              isOrdered kept table).2,
            ⟨inserted, Numbered.byNumber WriteError.mk InsertEntry.error?
              (insertLog (singleInsertion preprocess query
                retryInsert transactionId (kept.map Prod.snd))
                isOrdered kept table).1 0⟩) := by
  have hbatch := @doBatchInsertNoTransactionId_eq _ _ _ preprocess
    query batchCount isOrdered kept fuel hfuel table
  unfold commandInsert
  rcases kept with _ | ⟨head, _ | ⟨next, rest⟩⟩
  · exact ⟨0, rfl⟩
  · -- a single document with a transaction id has its own insert
    cases transactionId with
    | none => exact hbatch
    | some transactionId =>
      obtain ⟨position, document⟩ := head
      show ∃ inserted, some (doSingleRetryableInsert _ _ _ _ _ _) = _
      unfold doSingleRetryableInsert
      have hsingle : singleInsertion preprocess query retryInsert (some transactionId)
          ([(position, document)].map Prod.snd) document table
            = retryInsert transactionId document table := rfl
      simp only [insertLog, hsingle]
      cases retryInsert transactionId document table with
      | ok inserted => exact ⟨_, rfl⟩
      | error e => cases isOrdered <;> exact ⟨_, rfl⟩
  · cases transactionId <;> exact hbatch

theorem getElem_kept_of_clientLog {client : List Value}
    (h : (clientLog insert isOrdered client table).1[k]? = some entry) :
    (Numbered.kept insertedFields? client 0)[k]? = some (entry.position, entry.document) := by
  obtain ⟨rest, hrest⟩ := @insertLog_isPrefix _ _ insert isOrdered
    (Numbered.kept insertedFields? client 0) table
  have hlt := (List.getElem?_eq_some_iff.1 h).1
  rw [← hrest, getElem?_append_left (by rwa [length_map]), getElem?_map]
  exact congrArg (Option.map _) h

/-- The log, reported by number, names the documents of the client exactly
where nothing is left out before a document that fails. -/
theorem namesClientDocuments_iff (client : List Value) (table : Table) (inserted : UInt64) :
    NamesClientDocuments insert isOrdered client table (clientLog insert isOrdered client table).2
        ⟨inserted, Numbered.byNumber WriteError.mk InsertEntry.error?
          (clientLog insert isOrdered client table).1 0⟩
      ↔ ∀ entry ∈ (clientLog insert isOrdered client table).1, entry.error?.isSome →
            ∀ value ∈ client.take entry.position, (insertedFields? value).isSome := by
  have hnumber := @Numbered.byNumber_eq_byPosition_iff _ _ _ WriteError.mk
    InsertEntry.position (@InsertEntry.error? Error)
    (fun i j e h => congrArg WriteError.index h)
    (clientLog insert isOrdered client table).1 0
  constructor
  · intro h entry hentry hfails
    obtain ⟨k, hk⟩ := getElem?_of_mem hentry
    have hposition := hnumber.1 h.errors k entry hk hfails
    exact (Numbered.getElem_kept (getElem_kept_of_clientLog hk)).2.1 hposition
  · intro h
    have hposition : ∀ k entry, (clientLog insert isOrdered client table).1[k]? = some entry →
          entry.error?.isSome → entry.position = 0 + k := by
      intro k entry hk hfails
      apply (Numbered.getElem_kept (getElem_kept_of_clientLog hk)).2.2
      exact h entry (mem_of_getElem? hk) hfails
    refine ⟨hnumber.2 hposition, ?_⟩
    rintro rfl e he
    obtain ⟨k, entry, error, hk, herror, rfl⟩ := Numbered.mem_byNumber (mem_of_mem_head? he)
    have hfails : entry.error?.isSome := by
      rw [herror]
      rfl
    -- the reported index is the position, and what is kept before it is what
    -- was tried before it
    rw [← hposition k entry hk hfails, ← Numbered.map_snd_kept _ 0]
    rw [show client.take entry.position = client.take (entry.position - 0)
      from rfl, Numbered.kept_take (getElem_kept_of_clientLog hk)]
    exact insertedAll_of_insertLog hk hfails

end Run

-- ==== the command

/-- The errors of an insert command carry the positions of the documents in the
list of the client, in an array and in a sequence, with batches of every size,
ordered or not, exactly where no document that is left out stands before one
that fails. -/
theorem commandInsert_namesClientDocuments_iff {TransactionId Row Table Error : Type*}
    (preprocessInsertionDoc : Fields → Except Error Row) (query : InsertQuery Row Table Error)
    (processRetryableInsertion : TransactionId → Fields → Table → Except Error (Table × Nat))
    (maxWriteBatchSize batchWriteSubTransactionCount : Nat) (isOrdered : Bool)
    (transactionId : Option TransactionId) (source : InsertDocuments) (documents : List Fields)
    (hspec : batchInsertionDocuments maxWriteBatchSize source = .ok documents) (more : Nat)
    (table : Table) :
    (∃ newTable batchResult, commandInsert preprocessInsertionDoc query processRetryableInsertion
          batchWriteSubTransactionCount isOrdered transactionId documents
          (2 * documents.length + 2 + more) table
        = some (newTable, batchResult)
      ∧ NamesClientDocuments (singleInsertion preprocessInsertionDoc query
          processRetryableInsertion transactionId documents) isOrdered
          source.client table newTable batchResult)
    ↔ ∀ entry ∈ (clientLog (singleInsertion preprocessInsertionDoc query
          processRetryableInsertion transactionId documents) isOrdered
          source.client table).1,
        entry.error?.isSome →
          ∀ value ∈ source.client.take entry.position, (insertedFields? value).isSome := by
  have hkept : (Numbered.kept insertedFields? source.client 0).map Prod.snd = documents := by
    rw [Numbered.map_snd_kept, batchInsertionDocuments_ok hspec]
  obtain ⟨rowsInserted, hrun⟩ := @commandInsert_eq _ _ _ _
    preprocessInsertionDoc query processRetryableInsertion
    batchWriteSubTransactionCount isOrdered transactionId
    (Numbered.kept insertedFields? source.client 0)
    (2 * documents.length + 2 + more)
    (by rw [← hkept, length_map]; omega) table
  rw [hkept] at hrun
  rw [← namesClientDocuments_iff _ _ rowsInserted]
  constructor
  · intro h
    obtain ⟨newTable, batchResult, hresult, hnames⟩ := h
    rw [hrun] at hresult
    cases hresult
    exact hnames
  · intro h
    exact ⟨_, _, hrun, h⟩

def countRows : InsertQuery Unit Nat Unit where
  run rows table := .ok (table + rows.length, rows.length)
  run_nil _ := rfl
  run_cons row rows table := by
    show some (table + (rows.length + 1), rows.length + 1)
      = some (table + 1 + rows.length, rows.length + 1)
    rw [Nat.add_comm rows.length, Nat.add_assoc]

/-- Documents with an `_id` of null are refused. -/
def refuseNull : Fields → Except Unit Unit
  | (_, .null) :: _ => .error ()
  | _ => .ok ()

/-- `[{_id: 1}, {_id: null}, {_id: undefined}, {_id: 2}]`, unordered: the second one
fails and is reported at its position, the third one is left out. -/
theorem refused_document_is_named : ∃ newTable batchResult,
      commandInsert refuseNull countRows (fun _ : Unit => processInsertion
          refuseNull countRows) 25 false none
          [[(idField, .int32 1)], [(idField, .null)], [(idField, .int32 2)]] 8 0
        = some (newTable, batchResult)
      ∧ NamesClientDocuments (singleInsertion refuseNull countRows
          (fun _ : Unit => processInsertion refuseNull countRows) none
          [[(idField, .int32 1)], [(idField, .null)], [(idField, .int32 2)]]) false
          [.document [(idField, .int32 1)], .document [(idField, .null)],
            .document [(idField, .undefined)], .document [(idField, .int32 2)]] 0 newTable
          batchResult := by
  apply (commandInsert_namesClientDocuments_iff refuseNull countRows
    (fun _ : Unit => processInsertion refuseNull countRows) 25000 25 false none
    (.array [.document [(idField, .int32 1)], .document [(idField, .null)],
      .document [(idField, .undefined)], .document [(idField, .int32 2)]])
    [[(idField, .int32 1)], [(idField, .null)], [(idField, .int32 2)]] rfl 0 0).2
  intro entry hentry hfails value hvalue
  rcases mem_cons.1 hentry with rfl | hentry
  · cases hfails
  rcases mem_pair.1 hentry with rfl | rfl
  · rw [mem_singleton.1 hvalue]
    rfl
  · cases hfails

/-- `[{_id: undefined}, {_id: null}]`: the document at position 1 fails, and is
reported under the index 0. -/
theorem refused_document_is_misnamed :
    batchInsertionDocuments 25000 (.array [.document [(idField, .undefined)],
        .document [(idField, .null)]]) = .ok [[(idField, .null)]]
    ∧ ¬ ∃ newTable batchResult, commandInsert refuseNull countRows (fun _ : Unit => processInsertion
          refuseNull countRows) 25 true none [[(idField, .null)]] 4 0
        = some (newTable, batchResult)
      ∧ NamesClientDocuments (singleInsertion refuseNull countRows
          (fun _ : Unit => processInsertion refuseNull countRows) none
          [[(idField, .null)]]) true [.document [(idField, .undefined)],
            .document [(idField, .null)]] 0 newTable batchResult := by
  refine ⟨rfl, fun h => ?_⟩
  obtain ⟨newTable, batchResult, hresult, hnames⟩ := h
  cases hresult
  have hindex := congrArg (List.map WriteError.index) hnames.errors
  cases hindex

end DocumentDb
