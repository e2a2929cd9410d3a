/-
The updateMany of a bulkWrite command.

The filter is lost: it is a pointer to the value of the iterator, which reads the update
next. So the rounds look for documents that match the update, and one with operators is
refused as a query (`not_acceptsTopLevel`). No document is updated, which is right only
where none matches the filter (`updatesEachOnce_iff`).
-/
import DocumentDb.Commands.BulkOperation
import Mathlib.Data.List.Perm.Basic

namespace DocumentDb

open List

-- ==== queries and updates with operators

/-- The bytes of an ASCII text. -/
def asciiBytes (text : String) : Bytes := text.toList.map fun c => UInt8.ofNat c.toNat

/-- The operators that `CreateBoolExprFromLogicalExpression` accepts. -/
def topLevelOperators : List Bytes :=
  ["$and", "$or", "$nor", "$expr", "$text", "$alwaysTrue", "$alwaysFalse", "$sampleRate",
    "$jsonSchema", "$comment"].map asciiBytes

/-- A query is a document for which `CreateQualsFromQueryDocIterator` does not raise the
error for an unknown operator at its top. -/
def acceptsTopLevel : Value → Bool
  | .document fields => fields.all fun field =>
    field.1.head? ≠ some 36 || topLevelOperators.contains field.1
  | _ => false

/-- The names of the table `MongoUpdateOperators`. -/
def updateOperators : List Bytes :=
  ["$set", "$inc", "$min", "$max", "$unset", "$push", "$pop", "$rename", "$setOnInsert",
    "$pullAll", "$addToSet", "$mul", "$bit", "$currentDate", "$pull"].map asciiBytes

/-- An update whose first name is one of an operator. -/
def isOperatorUpdate : Value → Bool
  | .document ((name, _) :: _) => updateOperators.contains name
  | _ => false

/-- No operator of an update is one of a query. -/
theorem not_acceptsTopLevel {update : Value} (h : isOperatorUpdate update = true) :
    acceptsTopLevel update = false := by
  have hoperators : ∀ name ∈ updateOperators,
      (decide (name.head? ≠ some 36) || topLevelOperators.contains name) = false := by
    decide +kernel
  unfold isOperatorUpdate at h
  split at h
  · rename_i name value rest
    have hname := hoperators name (contains_iff_mem.1 h)
    exact all_eq_false.2 ⟨(name, value), mem_cons_self, Bool.not_eq_true _ ▸ hname⟩
  · cases h

-- ==== an updateMany

/-- The operation `{updateMany: {filter: ..., update: ...}}`. -/
def updateManyOperation (filter update : Value) (operationIndex : Nat) : BulkWriteOperation :=
  ⟨.updateMany, .document [(filterKey, filter), (updateKey, update)], operationIndex⟩

/-- What an update has in the place of its filter is the update. -/
theorem bulkUpdateParams_filter_update (filter update : Value) :
    bulkUpdateParams [(filterKey, filter), (updateKey, update)]
      = ⟨some update, some update, false, none, .none, none, none⟩ :=
  rfl

section

variable {Document ObjectId TransactionId Error : Type} [DecidableEq TransactionId]
  (calls : BulkCalls Document ObjectId Error)

/-- The statement that selects a row raises the error of a query that is refused. -/
def ChecksQueries : Prop :=
  ∀ {k query sort rows tid}, calls.update.selectRow k (some query) sort rows = .ok (some tid) →
    acceptsTopLevel query = true

variable (releaseCurrentSubTransaction : UpdateState TransactionId Document ObjectId →
    Except Error Unit)
  (operation : BulkWriteOperation) (operationIndex : Nat)
  (s : UpdateState TransactionId Document ObjectId) (bulkResult : BulkWriteResult Error)

/-- The operation terminates, updates every document once that its filter selects and no
other one, and counts those that are selected and those that change. The filter and the
update are functions on documents. -/
def UpdatesEachOnce [DecidableEq Document] (filter : Document → Bool)
    (update : Document → Document) : Prop :=
  ∃ fuel s' bulkResult' isSuccess,
    processSingleBulkOperation (executeBulkOperation calls (none : Option TransactionId) fuel)
      releaseCurrentSubTransaction operation operationIndex s bulkResult
        = some (s', bulkResult', isSuccess)
    ∧ (s'.rows.map CollectionRow.document).Perm (s.rows.map fun row =>
        if filter row.document then update row.document else row.document)
    ∧ bulkResult'.counts = bulkResult.counts.add
        { matchedCount := s.rows.countP fun row => filter row.document
          modifiedCount := s.rows.countP fun row =>
            filter row.document && update row.document ≠ row.document }

variable {calls} {params : UpdateOneParams (Option Value)}

/-- An update that finds no row and does not upsert does nothing, or it fails. -/
theorem updateOne_of_not_found (hupsert : params.isUpsert = false)
    (hfields : params.returnFields = none)
    (hnot : ∀ tid, calls.update.selectRow 0 params.query params.sort s.rows ≠ .ok (some tid)) :
    updateOne calls.update params 0 (none : Option TransactionId) {} s = .ok ({}, s)
      ∨ ∃ e, updateOne calls.update params 0 (none : Option TransactionId) {} s = .error e := by
  unfold updateOne callUpdateOne updateOneInternal
  cases hselect : calls.update.selectRow 0 params.query params.sort s.rows with
  | error e => exact Or.inr ⟨e, rfl⟩
  | ok found =>
    cases found with
    | some tid => exact absurd hselect (hnot tid)
    | none =>
      unfold updateNotFound projectResult
      rw [hupsert, hfields]
      cases calls.update.validateUpdateDocument params.update params.query params.arrayFilters with
      | error e => exact Or.inr ⟨e, rfl⟩
      | ok _ => exact Or.inl rfl

/-- The rounds end with the first one. -/
theorem updateManyLoop_of_not_found (hupsert : params.isUpsert = false)
    (hfields : params.returnFields = none)
    (hnot : ∀ tid, calls.update.selectRow 0 params.query params.sort s.rows ≠ .ok (some tid))
    (fuel : Nat) :
    updateManyLoop calls (none : Option TransactionId) params (fuel + 1) {} s = some (.ok ({}, {}, s))
      ∨ ∃ e, updateManyLoop calls (none : Option TransactionId) params (fuel + 1) {} s
        = some (.error e) := by
  unfold updateManyLoop
  rcases updateOne_of_not_found s hupsert hfields hnot with hok | ⟨e, herror⟩
  · rw [hok]
    exact Or.inl rfl
  · rw [herror]
    exact Or.inr ⟨e, rfl⟩

/-- An operator update of many documents leaves the rows and the counters, where it
returns. -/
theorem updateMany_idle (hchecks : ChecksQueries calls) {filter update : Value}
    (hupdate : isOperatorUpdate update = true) (fuel : Nat) : ∃ s' bulkResult' isSuccess,
      processSingleBulkOperation
        (executeBulkOperation calls (none : Option TransactionId) (fuel + 1))
        releaseCurrentSubTransaction (updateManyOperation filter update operationIndex)
        operationIndex s bulkResult = some (s', bulkResult', isSuccess)
      ∧ s'.rows = s.rows ∧ bulkResult'.counts = bulkResult.counts := by
  have hnot : ∀ tid, calls.update.selectRow 0 (some update) none s.rows ≠ .ok (some tid) := by
    intro tid hselect
    exact Bool.false_ne_true ((not_acceptsTopLevel hupdate).symm.trans (hchecks hselect))
  have hexecute : executeBulkOperation calls (none : Option TransactionId) (fuel + 1)
        (updateManyOperation filter update operationIndex) s = some (.ok ({}, s))
      ∨ ∃ e, executeBulkOperation calls (none : Option TransactionId) (fuel + 1)
        (updateManyOperation filter update operationIndex) s = some (.error e) := by
    show bulkUpdateMany calls none (fuel + 1) (bulkUpdateParams _) s = _
      ∨ ∃ e, bulkUpdateMany calls none (fuel + 1) (bulkUpdateParams _) s = some (.error e)
    rw [bulkUpdateParams_filter_update]
    unfold bulkUpdateMany
    rcases @updateManyLoop_of_not_found _ _ _ _ _ calls s ⟨some update, some update, _, _, _, _, _⟩
      rfl rfl hnot fuel with hok | ⟨e, herror⟩
    · rw [hok]
      exact Or.inl rfl
    · rw [herror]
      exact Or.inr ⟨e, rfl⟩
  unfold processSingleBulkOperation
  rcases hexecute with hok | ⟨e, herror⟩
  · rw [hok]
    have hcounts : bulkResult.counts.add {} = bulkResult.counts := BulkCounts.add_zero _
    unfold endSubTransaction
    dsimp only [Option.map_some]
    cases releaseCurrentSubTransaction s with
    | ok _ => exact ⟨_, _, _, rfl, rfl, hcounts⟩
    | error e => exact ⟨_, _, _, rfl, rfl, hcounts⟩
  · rw [herror]
    exact ⟨_, _, _, rfl, rfl, rfl⟩

/-- An operator update of many documents is done rightly exactly if no document matches
its filter. -/
theorem updatesEachOnce_iff [DecidableEq Document] (hchecks : ChecksQueries calls)
    {filter update : Value} (hupdate : isOperatorUpdate update = true) (filters : Document → Bool)
    (updates : Document → Document) : UpdatesEachOnce calls releaseCurrentSubTransaction
        (updateManyOperation filter update operationIndex) operationIndex s bulkResult
        filters updates
      ↔ ∀ row ∈ s.rows, filters row.document = false := by
  have hidle := fun fuel => @updateMany_idle _ _ _ _ _ calls releaseCurrentSubTransaction
    operationIndex s bulkResult hchecks filter update hupdate fuel
  constructor
  · rintro ⟨fuel, s', bulkResult', isSuccess, hrun, -, hcounts⟩ row hrow
    cases fuel with
    | zero => cases hrun
    | succ fuel =>
      obtain ⟨_, _, _, hrun', -, hsame⟩ := hidle fuel
      cases hrun.symm.trans hrun'
      have hmatched := congrArg BulkCounts.matchedCount (hsame.symm.trans hcounts)
      have hzero : s.rows.countP (fun row => filters row.document) = 0 :=
        Nat.left_eq_add.1 hmatched
      exact Bool.eq_false_iff.2 (countP_eq_zero.1 hzero row hrow)
  · intro hnone
    obtain ⟨s', bulkResult', isSuccess, hrun, hrows, hcounts⟩ := hidle 0
    refine ⟨1, s', bulkResult', isSuccess, hrun, ?_, ?_⟩
    · rw [hrows]
      refine Perm.of_eq (map_congr_left fun row hrow => ?_)
      rw [hnone row hrow]
      rfl
    · have hmatched : s.rows.countP (fun row => filters row.document) = 0 :=
        countP_eq_zero.2 fun row hrow => Bool.eq_false_iff.1 (hnone row hrow)
      have hmodified : s.rows.countP (fun row => filters row.document
          && updates row.document ≠ row.document) = 0 := by
        refine countP_eq_zero.2 fun row hrow => ?_
        rw [hnone row hrow]
        exact Bool.false_ne_true
      rw [hcounts, hmatched, hmodified]
      exact (BulkCounts.add_zero _).symm

end

-- ==== a collection of replaced documents

/-- The document `{_id: n}`. -/
def idDocument (n : Int32) : Value := .document [(idField, .int32 n)]

def idOf? : Value → Option Int32
  | .document [(name, .int32 n)] => if name = idField then some n else none
  | _ => none

/-- A collection with one shard key value. Of a document is modelled its id, and whether
it has been replaced by its id alone. A query is the id of a document, and a replacement
too. -/
def replacingCalls (shardKeyValue : UInt64) : BulkCalls (Int32 × Bool) Int32 Unit where
  update :=
    { selectRow := fun k query _ rows =>
        if query.any acceptsTopLevel then
          .ok ((query.bind idOf?).bind fun n =>
            rows.findFinIdx? fun row => row.shardKeyValue = k && row.objectId = n)
        else .error ()
      hasOnlyObjectIdFilter := fun query => (query.bind idOf?).isSome
      needExistingDocForValidation := false
      emptyDocument := (0, false)
      bsonUpdateDocument := fun document update _ _ =>
        match update.bind idOf? with
        | some n => .ok (if document = (n, true) then none else some (n, true))
        | none => .error ()
      validateUpdateDocument := fun _ _ _ => .ok ()
      pgbsonGetDocumentId := Prod.fst
      computeShardKeyHashForDocument := fun _ => .ok shardKeyValue
      validateSchemaOnDocumentInsert := fun _ => .ok ()
      validateSchemaOnDocumentUpdate := fun _ _ => .ok ()
      doInsertForUpdate := fun k id document _ rows => .ok (rows ++ [⟨k, id, document⟩])
      projectDocument := fun _ document => .ok document
      noUpsertDocument := () }
  selectForDelete := fun k query rows =>
    .ok ((query.bind idOf?).bind fun n =>
      rows.findFinIdx? fun row => row.shardKeyValue = k && row.objectId = n)
  notIterable := ()
  pgbsonInitFromDocumentBsonValue := fun value => ((idOf? value).map (·, true)).elim (.error ()) .ok
  isSharded := false
  insertDocument := fun k id document rows => .ok (rows ++ [⟨k, id, document⟩])
  deleteMany := fun _ rows => .ok (0, rows)

theorem replacingCalls_checksQueries (shardKeyValue : UInt64) :
    ChecksQueries (replacingCalls shardKeyValue) := by
  intro k query sort rows tid hselect
  unfold replacingCalls at hselect
  dsimp only at hselect
  split at hselect
  · assumption
  · cases hselect

/-- The update `{$set: {a: 1}}`. -/
def setA : Value := .document [(asciiBytes "$set", .document [(asciiBytes "a", .int32 1)])]

/-- Collection 7 with the documents 1 and 2. -/
def twoDocuments : UpdateState Unit (Int32 × Bool) Int32 where
  rows := [⟨7, 1, (1, false)⟩, ⟨7, 2, (2, false)⟩]
  retryTable := []

/-- An update of many documents, of which none has the id of the filter. -/
theorem none_to_update : UpdatesEachOnce (replacingCalls 7) (fun _ => .ok ())
    (updateManyOperation (idDocument 3) setA 0) 0 twoDocuments .empty
    (fun document => document.1 = 3) fun document => (document.1, true) := by
  refine (updatesEachOnce_iff _ 0 twoDocuments .empty (replacingCalls_checksQueries 7)
    rfl _ _).2 ?_
  decide

/-- The document with the id of the filter is not updated. -/
theorem matching_document_left : ¬ UpdatesEachOnce (replacingCalls 7) (fun _ => .ok ())
    (updateManyOperation (idDocument 1) setA 0) 0 twoDocuments .empty
    (fun document => document.1 = 1) fun document => (document.1, true) := by
  rintro ⟨fuel, s', bulkResult', isSuccess, hrun, -, hcounts⟩
  cases fuel with
  | zero => cases hrun
  | succ fuel =>
    obtain ⟨_, _, _, hrun', -, hsame⟩ := @updateMany_idle _ _ _ _ _ (replacingCalls 7)
      (fun _ => .ok ()) 0 twoDocuments .empty (replacingCalls_checksQueries 7) (idDocument 1) setA
      rfl fuel
    cases hrun.symm.trans hrun'
    exact absurd (hsame.symm.trans hcounts) (by decide)

end DocumentDb
