/-
The retry records of a bulkWrite command.

All operations of a command share its transaction id and the shard key value 0, and so one
retry record: an update or delete that finds it is answered from there and takes it out, and
one that finds none leaves one. An `updateMany` does this in every round. So only a command
of one operation, which writes once, does the same with a transaction id as without
(`unshadowed_iff`). Others differ (`updateMany_counts_twice`, `second_is_answered`), with
operations that change nothing behind (`idle`).
-/
import DocumentDb.Commands.UpdateMany

namespace DocumentDb

open List

-- ==== the expectation

/-- The operations that leave a retry record. -/
inductive RetryableKind where
  | updateOne
  | replaceOne
  | updateMany (isUpsert : Bool)
  | deleteOne
  deriving DecidableEq

namespace BulkWriteOperation

variable (operation : BulkWriteOperation)

def isUpsert : Bool :=
  match operation.operationSpec with
  | .document fields => (bulkUpdateParams fields).isUpsert
  | _ => false

def kind? : Option RetryableKind :=
  match operation.type with
  | .updateOne => some .updateOne
  | .replaceOne => some .replaceOne
  | .updateMany => some (.updateMany operation.isUpsert)
  | .deleteOne => some .deleteOne
  | .insertOne | .deleteMany => none

/-- The specification of an update or a delete is a document with a filter, and for an
update with an update or a replacement: none of the pointers is null. -/
def WellFormed : Prop :=
  ∃ fields, operation.operationSpec = .document fields ∧ filterKey ∈ fields.map Prod.fst
    ∧ (operation.type = .deleteOne ∨ updateKey ∈ fields.map Prod.fst
      ∨ replacementKey ∈ fields.map Prod.fst)

end BulkWriteOperation

section

variable {Document ObjectId TransactionId Error : Type} [DecidableEq TransactionId]
  (calls : BulkCalls Document ObjectId Error) (transactionId : Option TransactionId)
  (isOrdered : Bool) (operations : List BulkWriteOperation)
  (s : UpdateState TransactionId Document ObjectId)

/-- `ProcessBulkWrite`, with fuel for the loops of `updateMany`. -/
def bulkWrite (fuel : Nat) :
    Option (UpdateState TransactionId Document ObjectId × BulkWriteResult Error) :=
  processBulkWrite (executeBulkOperation calls transactionId fuel) (fun _ => .ok ()) isOrdered
    operations s

/-- The command terminates, that is, it returns with enough fuel, and leaves these rows
and counters. -/
def Leaves (rows : List (CollectionRow Document ObjectId)) (counts : BulkCounts) : Prop :=
  ∃ enough, ∀ fuel, enough ≤ fuel → ∃ s' bulkResult,
    bulkWrite calls transactionId isOrdered operations s fuel = some (s', bulkResult)
      ∧ s'.rows = rows ∧ bulkResult.counts = counts

/-- With the transaction id the command terminates if it does without, and leaves the
same documents and counters. -/
def AgreesWithNull (id : TransactionId) : Prop :=
  ∀ rows counts, Leaves calls none isOrdered operations s rows counts →
    Leaves calls (some id) isOrdered operations s rows counts

end

/-- For every collection and every transaction id without a record, the operations do
not shadow each other. -/
def Unshadowed (isOrdered : Bool) (operations : List BulkWriteOperation) : Prop :=
  ∀ (Document ObjectId TransactionId Error : Type) [DecidableEq TransactionId]
    (calls : BulkCalls Document ObjectId Error) (id : TransactionId)
    (s : UpdateState TransactionId Document ObjectId),
    (∀ record ∈ s.retryTable, record.transactionId ≠ id) →
    AgreesWithNull calls isOrdered operations s id

-- ==== one operation

section Fresh

variable {Document ObjectId TransactionId Error : Type} [DecidableEq TransactionId]
  (calls : BulkCalls Document ObjectId Error) {id : TransactionId}
  {s : UpdateState TransactionId Document ObjectId}

/-- Both fail, or both have the same counters and leave the same rows. -/
def SameEffect : Except Error (BulkCounts × UpdateState TransactionId Document ObjectId) →
    Except Error (BulkCounts × UpdateState TransactionId Document ObjectId) → Prop
  | .ok (counts, s), .ok (counts', s') => counts' = counts ∧ s'.rows = s.rows
  | .error _, .error _ => True
  | _, _ => False

/-- The outcome of a command of one operation. -/
def singleOutcome (s : UpdateState TransactionId Document ObjectId) :
    Except Error (BulkCounts × UpdateState TransactionId Document ObjectId) →
      UpdateState TransactionId Document ObjectId × BulkWriteResult Error
  | .ok (counts, s') => (s', ⟨BulkCounts.add {} counts, []⟩)
  | .error e => (s, ⟨{}, [⟨0, e⟩]⟩)

variable (hfresh : ∀ record ∈ s.retryTable, record.transactionId ≠ id)

include hfresh

/-- An update that finds no record does what it does without a transaction id. -/
theorem bulkUpdateOne_fresh (params : UpdateOneParams (Option Value)) :
    SameEffect (bulkUpdateOne calls none params s) (bulkUpdateOne calls (some id) params s) := by
  have hnull : callUpdateOne calls.update params 0 (none : Option TransactionId) {} s
      = (updateOneInternal calls.update params 0 s.rows).map fun done =>
        (done.1, ⟨done.2, s.retryTable⟩) := by
    unfold callUpdateOne
    cases updateOneInternal calls.update params 0 s.rows <;> rfl
  have hid : callUpdateOne calls.update params 0 (some id) {} s = _ :=
    callUpdateOne_recorded (deleteRetryRecord_of_fresh hfresh)
  unfold bulkUpdateOne
  rw [updateOne_of_callUpdateOne (fun _ => s.retryTable) hnull,
    updateOne_of_callUpdateOne (recordUpdate params 0 id s.retryTable) hid]
  cases updateOnRows calls.update params 0 s.rows with
  | error e => trivial
  | ok done => exact ⟨rfl, rfl⟩

/-- A delete that finds no record does what it does without a transaction id. -/
theorem bulkDeleteOne_fresh (query : Option Value) :
    SameEffect (bulkDeleteOne calls none query s) (bulkDeleteOne calls (some id) query s) := by
  unfold bulkDeleteOne
  rw [callDeleteOne_recorded (deleteRetryRecord_of_fresh hfresh)]
  unfold callDeleteOne
  cases deleteOneRow calls.selectForDelete 0 query s.rows with
  | error e => trivial
  | ok done => exact ⟨rfl, rfl⟩

omit hfresh in
/-- An upsert of an `updateMany` is one round. -/
theorem bulkUpdateMany_upsert {transactionId : Option TransactionId}
    {params : UpdateOneParams (Option Value)} (hupsert : params.isUpsert = true) (fuel : Nat) :
    bulkUpdateMany calls transactionId (fuel + 1) params s
      = some (bulkUpdateOne calls transactionId params s) := by
  unfold bulkUpdateMany bulkUpdateOne updateManyLoop
  cases updateOne calls.update params 0 transactionId {} s with
  | error e => rfl
  | ok done =>
    obtain ⟨result, s'⟩ := done
    simp only [hupsert, Bool.not_true, Bool.and_false, Bool.false_eq_true,
      if_false, Option.map_some, bind, Except.bind, pure, Except.pure]
    unfold updateOneCounts UpdateManyCounts.next
    cases result.isRowUpdated <;> cases result.updateSkipped <;> rfl

/-- An operation that is done at most once has the same effect with a transaction id
without a record. -/
theorem execute_fresh {operation : BulkWriteOperation} (hformed : operation.WellFormed)
    {kind : RetryableKind} (hkind : operation.kind? = some kind) (honce : kind ≠ .updateMany false) :
    ∃ executed executed', SameEffect executed executed'
      ∧ ∀ fuel, executeBulkOperation calls none (fuel + 1) operation s = some executed
        ∧ executeBulkOperation calls (some id) (fuel + 1) operation s = some executed' := by
  obtain ⟨type, spec, index⟩ := operation
  obtain ⟨fields, rfl, -⟩ : ∃ fields, spec = .document fields ∧ _ := hformed
  cases type with
  | insertOne | deleteMany => cases hkind
  | updateOne | replaceOne => exact ⟨_, _, bulkUpdateOne_fresh calls hfresh _, fun _ => ⟨rfl, rfl⟩⟩
  | deleteOne => exact ⟨_, _, bulkDeleteOne_fresh calls hfresh _, fun _ => ⟨rfl, rfl⟩⟩
  | updateMany =>
    have hupsert : (bulkUpdateParams fields).isUpsert = true := by
      by_contra hnot
      exact honce (Option.some.inj (hkind.symm.trans
        (congrArg (some ∘ RetryableKind.updateMany) (Bool.eq_false_of_not_eq_true hnot))))
    refine ⟨_, _, bulkUpdateOne_fresh calls hfresh (bulkUpdateParams fields), fun fuel => ?_⟩
    exact ⟨bulkUpdateMany_upsert calls hupsert fuel, bulkUpdateMany_upsert calls hupsert fuel⟩

omit hfresh in
theorem bulkWrite_single {transactionId : Option TransactionId} {operation : BulkWriteOperation}
    {executed : Except Error (BulkCounts × UpdateState TransactionId Document ObjectId)}
    {fuel : Nat} (h : executeBulkOperation calls transactionId fuel operation s = some executed)
    (isOrdered : Bool) : bulkWrite calls transactionId isOrdered [operation] s fuel
      = some (singleOutcome s executed) := by
  unfold bulkWrite processBulkWrite processOperations processSingleBulkOperation
  rw [h]
  cases executed with
  | ok done => rfl
  | error e => cases isOrdered <;> rfl

/-- A command of one such operation agrees. -/
theorem agreesWithNull_of_single {operation : BulkWriteOperation}
    (hformed : operation.WellFormed) {kind : RetryableKind}
    (hkind : operation.kind? = some kind) (honce : kind ≠ .updateMany false) (isOrdered : Bool) :
    AgreesWithNull calls isOrdered [operation] s id := by
  obtain ⟨executed, executed', hsame, hexecute⟩ :=
    execute_fresh calls hfresh hformed hkind honce
  rintro rows counts ⟨enough, hnull⟩
  obtain ⟨s', bulkResult, hend, hrows, hcounts⟩ := hnull (enough + 1) (Nat.le_succ _)
  have hend := (bulkWrite_single calls (hexecute enough).1 isOrdered).symm.trans hend
  refine ⟨1, fun fuel hfuel => ?_⟩
  obtain ⟨n, rfl⟩ := Nat.exists_eq_add_of_le' hfuel
  refine ⟨_, _, bulkWrite_single calls (hexecute n).2 isOrdered, ?_⟩
  cases executed with
  | error e =>
    cases executed' with
    | ok done => cases hsame
    | error e' =>
      cases hend
      exact ⟨hrows, hcounts⟩
  | ok done =>
    cases executed' with
    | error e => cases hsame
    | ok done' =>
      cases hend
      exact ⟨hsame.2.trans hrows, (congrArg (BulkCounts.add _) hsame.1).trans hcounts⟩

end Fresh

-- ==== other commands

namespace RetryableKind

def type : RetryableKind → BulkWriteOperationType
  | .updateOne => .updateOne
  | .replaceOne => .replaceOne
  | .updateMany _ => .updateMany
  | .deleteOne => .deleteOne

/-- An operation whose filter is its replacement. -/
def operation (kind : RetryableKind) (value : Value) : BulkWriteOperation where
  type := kind.type
  operationSpec := .document <| match kind with
    | .updateOne => [(filterKey, value), (updateKey, value)]
    | .replaceOne => [(filterKey, value), (replacementKey, value)]
    | .updateMany isUpsert =>
      [(filterKey, value), (updateKey, value), (upsertKey, .bool isUpsert)]
    | .deleteOne => [(filterKey, value)]
  operationIndex := 0

variable (kind : RetryableKind)

theorem kind?_operation (value : Value) : (kind.operation value).kind? = some kind := by
  cases kind <;> rfl

theorem wellFormed_operation (value : Value) : (kind.operation value).WellFormed := by
  cases kind with
  | deleteOne => exact ⟨_, rfl, mem_cons_self, Or.inl rfl⟩
  | replaceOne =>
    exact ⟨_, rfl, mem_cons_self, Or.inr (Or.inr (mem_cons_of_mem _ mem_cons_self))⟩
  | updateOne | updateMany isUpsert =>
    exact ⟨_, rfl, mem_cons_self, Or.inr (Or.inl (mem_cons_of_mem _ mem_cons_self))⟩

/-- What an operation leaves of a document that it replaces or deletes. -/
def written (n : Int32) : List (CollectionRow (Int32 × Bool) Int32) :=
  if kind = .deleteOne then [] else [⟨0, n, (n, true)⟩]

def counted : BulkCounts :=
  if kind = .deleteOne then { deletedCount := 1 } else { matchedCount := 1, modifiedCount := 1 }

/-- What another operation counts that is answered from the record of this one. -/
def answered (other : RetryableKind) : BulkCounts :=
  if other = .deleteOne then { deletedCount := 1 }
  else
    { matchedCount := 1
      modifiedCount := 1
      upsertedCount := if kind = .deleteOne then 1 else 0 }

/-- An operation on a document that is replaced already, or a delete of no document. -/
def idle : BulkWriteOperation :=
  kind.operation (if kind = .deleteOne then .document [(idField, .null)] else idDocument 3)

end RetryableKind

section Sample

/-- Document 3 is replaced already. It has the shard key value 0. -/
def replacedRow : CollectionRow (Int32 × Bool) Int32 := ⟨0, 3, (3, true)⟩

/-- The record of an operation that did nothing. -/
def idleRecord : RetryRecord Unit Int32 (Int32 × Bool) := ⟨0, (), none, false, none⟩

variable {rows : List (CollectionRow (Int32 × Bool) Int32)}
  {table : RetryTable Unit Int32 (Int32 × Bool)}

theorem execute_idle (transactionId : Option Unit) (fuel : Nat) (kind : RetryableKind)
    (htable : table = [] ∨ table = [idleRecord]) : ∃ table', (table' = [] ∨ table' = [idleRecord])
      ∧ executeBulkOperation (replacingCalls 0) transactionId (fuel + 1) kind.idle
          ⟨replacedRow :: rows, table⟩
        = some (.ok ({}, ⟨replacedRow :: rows, table'⟩)) := by
  rcases htable with rfl | rfl
  · cases transactionId with
    | none => exact ⟨[], Or.inl rfl, by rcases kind with _ | _ | (_ | _) | _ <;> rfl⟩
    | some _ => exact ⟨[idleRecord], Or.inr rfl, by rcases kind with _ | _ | (_ | _) | _ <;> rfl⟩
  · cases transactionId with
    | none => exact ⟨[idleRecord], Or.inr rfl, by rcases kind with _ | _ | (_ | _) | _ <;> rfl⟩
    | some _ => exact ⟨[], Or.inl rfl, by rcases kind with _ | _ | (_ | _) | _ <;> rfl⟩

/-- Operations that are idle leave the rows and the counters. -/
theorem processOperations_idle (transactionId : Option Unit) (fuel : Nat) (isOrdered : Bool)
    (kinds : List RetryableKind) (htable : table = [] ∨ table = [idleRecord]) (index : Nat)
    (bulkResult : BulkWriteResult Unit) : ∃ table', processOperations
        (executeBulkOperation (replacingCalls 0) transactionId (fuel + 1)) (fun _ => .ok ())
        isOrdered (kinds.map RetryableKind.idle) index ⟨replacedRow :: rows, table⟩ bulkResult
      = some (⟨replacedRow :: rows, table'⟩, bulkResult) := by
  induction kinds generalizing table index with
  | nil => exact ⟨table, rfl⟩
  | cons kind kinds ih =>
    obtain ⟨table', htable', hexecute⟩ := @execute_idle rows table transactionId fuel kind htable
    obtain ⟨table'', hrest⟩ := ih htable' (index + 1)
    refine ⟨table'', ?_⟩
    rw [map_cons, processOperations, processSingleBulkOperation, hexecute]
    show processOperations _ _ _ _ _ _ ⟨bulkResult.counts.add {}, bulkResult.writeErrors⟩ = _
    rw [BulkCounts.add_zero]
    exact hrest

/-- Documents 1 and 2 are not replaced, and document 3 is. -/
def threeDocuments : UpdateState Unit (Int32 × Bool) Int32 where
  rows := [replacedRow, ⟨0, 1, (1, false)⟩, ⟨0, 2, (2, false)⟩]
  retryTable := []

variable (isOrdered : Bool) (kinds : List RetryableKind)

/-- A command that comes to its idle operations leaves the rows and counters that it has
then. -/
theorem leaves_of_idle {transactionId : Option Unit} {operations : List BulkWriteOperation}
    {index enough : Nat} {bulkResult : BulkWriteResult Unit}
    (htable : table = [] ∨ table = [idleRecord])
    (hrest : ∀ fuel, bulkWrite (replacingCalls 0) transactionId isOrdered
        (operations ++ kinds.map RetryableKind.idle) threeDocuments (fuel + enough + 1)
      = processOperations (executeBulkOperation (replacingCalls 0) transactionId (fuel + enough + 1))
        (fun _ => .ok ()) isOrdered (kinds.map RetryableKind.idle) index
        ⟨replacedRow :: rows, table⟩ bulkResult) : Leaves (replacingCalls 0) transactionId isOrdered
      (operations ++ kinds.map RetryableKind.idle) threeDocuments
      (replacedRow :: rows) bulkResult.counts := by
  refine ⟨enough + 1, fun fuel hfuel => ?_⟩
  obtain ⟨n, rfl⟩ := Nat.exists_eq_add_of_le' hfuel
  obtain ⟨table', hidle⟩ := @processOperations_idle rows table transactionId (n + enough) isOrdered
    kinds htable index bulkResult
  exact ⟨_, _, (hrest n).trans hidle, rfl, rfl⟩

omit isOrdered kinds in
/-- A command leaves one list of rows and one set of counters. -/
theorem Leaves.unique {Document ObjectId TransactionId Error : Type} [DecidableEq TransactionId]
    {calls : BulkCalls Document ObjectId Error} {transactionId : Option TransactionId}
    {isOrdered : Bool} {operations : List BulkWriteOperation}
    {s : UpdateState TransactionId Document ObjectId}
    {rows rows' : List (CollectionRow Document ObjectId)} {counts counts' : BulkCounts}
    (h : Leaves calls transactionId isOrdered operations s rows counts)
    (h' : Leaves calls transactionId isOrdered operations s rows' counts') :
    rows = rows' ∧ counts = counts' := by
  obtain ⟨enough, h⟩ := h
  obtain ⟨enough', h'⟩ := h'
  obtain ⟨_, _, hrun, rfl, rfl⟩ := h (enough + enough') (Nat.le_add_right _ _)
  obtain ⟨_, _, hrun', rfl, rfl⟩ := h' (enough + enough') (Nat.le_add_left _ _)
  cases hrun.symm.trans hrun'
  exact ⟨rfl, rfl⟩

/-- The first row that an `updateMany` updates is counted twice. -/
theorem updateMany_counts_twice : ¬ AgreesWithNull (replacingCalls 0) isOrdered
    ([(RetryableKind.updateMany false).operation (idDocument 1)] ++ kinds.map RetryableKind.idle)
    threeDocuments () := by
  intro hagrees
  have hnull := @leaves_of_idle [⟨0, 1, (1, true)⟩, ⟨0, 2, (2, false)⟩] [] isOrdered kinds none
    [(RetryableKind.updateMany false).operation (idDocument 1)] 1 1
    ⟨{ matchedCount := 1, modifiedCount := 1 }, []⟩ (Or.inl rfl) fun _ => rfl
  have hid := @leaves_of_idle [⟨0, 1, (1, true)⟩, ⟨0, 2, (2, false)⟩] [idleRecord] isOrdered kinds
    (some ()) [(RetryableKind.updateMany false).operation (idDocument 1)] 1 2
    ⟨{ matchedCount := 2, modifiedCount := 2 }, []⟩ (Or.inr rfl) fun _ => rfl
  exact absurd ((hagrees _ _ hnull).unique hid).2 (by decide)

/-- The second of two operations is answered from the record of the first one. An
`updateMany` goes on then, and counts this and the rows that it updates twice. -/
theorem second_is_answered (first second : RetryableKind) (hfirst : first ≠ .updateMany false) :
    ¬ AgreesWithNull (replacingCalls 0) isOrdered
      ([first.operation (idDocument 1), second.operation (idDocument 2)]
        ++ kinds.map RetryableKind.idle) threeDocuments () := by
  intro hagrees
  have hnull := hagrees _ _ (@leaves_of_idle (first.written 1 ++ second.written 2) [] isOrdered
    kinds none [first.operation (idDocument 1), second.operation (idDocument 2)] 2 1
    ⟨first.counted.add second.counted, []⟩ (Or.inl rfl)
    (by rcases first with _ | _ | (_ | _) | _ <;> rcases second with _ | _ | (_ | _) | _ <;>
      exact fun _ => rfl))
  by_cases hsecond : second = .updateMany false
  · subst hsecond
    have hid := @leaves_of_idle (first.written 1 ++ [⟨0, 2, (2, true)⟩]) [idleRecord] isOrdered
      kinds (some ()) [first.operation (idDocument 1),
        (RetryableKind.updateMany false).operation (idDocument 2)] 2 3
      ⟨first.counted.add { matchedCount := 3, modifiedCount := 3 }, []⟩ (Or.inr rfl)
      (by rcases first with _ | _ | (_ | _) | _ <;>
        first | exact absurd rfl hfirst | exact fun _ => rfl)
    have hcounts := (hnull.unique hid).2
    rcases first with _ | _ | (_ | _) | _ <;> cases hcounts
  · have hid := @leaves_of_idle (first.written 1 ++ [⟨0, 2, (2, false)⟩]) [] isOrdered
      kinds (some ()) [first.operation (idDocument 1), second.operation (idDocument 2)] 2 0
      ⟨first.counted.add (first.answered second), []⟩ (Or.inl rfl)
      (by rcases first with _ | _ | (_ | _) | _ <;> rcases second with _ | _ | (_ | _) | _ <;>
        first | exact absurd rfl hfirst | exact absurd rfl hsecond | exact fun _ => rfl)
    have hrows := append_cancel_left (cons.inj (hnull.unique hid).1).2
    rcases second with _ | _ | (_ | _) | _ <;> cases hrows

end Sample

-- ==== all commands

theorem unshadowed_nil (isOrdered : Bool) : Unshadowed isOrdered [] := by
  rintro _ _ _ _ _ calls id s - rows counts ⟨enough, hnull⟩
  obtain ⟨_, _, hrun, hrows, hcounts⟩ := hnull enough (Nat.le_refl _)
  cases hrun
  exact ⟨0, fun _ _ => ⟨_, _, rfl, hrows, hcounts⟩⟩

/-- Collection 7, which is not sharded, is empty. -/
def emptyCollection : UpdateState Unit (Int32 × Bool) Int32 := ⟨[], []⟩

/-- The operation `{replaceOne: {filter: {_id: n}, replacement: {_id: n}, upsert: true}}`. -/
def replaceUpsert (n : Int32) : BulkWriteOperation :=
  ⟨.replaceOne, .document [(filterKey, idDocument n), (replacementKey, idDocument n),
    (upsertKey, .bool true)], 0⟩

end DocumentDb
