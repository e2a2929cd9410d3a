/-
Batches of deletes and their retry records.

Every delete of a command runs in a sub-transaction of its own, and all get the transaction
id of the command. In an unsharded collection they share one retry record, so the second
single-document delete of a command is answered from the record of the first one. Lists with
one such delete are done as without a transaction id (`run_deletions_eq`); in every other
list some filters show the difference (`sampleDeletions`).
-/
import DocumentDb.Commands.BatchWrite
import DocumentDb.Commands.RetryableWrites

namespace DocumentDb

open SubTransaction List Option Except

/-- With the fields that a plain delete sets. -/
structure DeletionSpec (Query : Type*) where
  query : Query
  limit : Int32

/-- What the database does with a query on the rows of a collection. -/
structure DeleteQueries (Query Document ObjectId Error : Type*) where
  /-- `TraverseQueryDocumentAndGetId`, for its errors. -/
  traverseQueryDocument : Query → Except Error Unit
  /-- SELECT ctid … LIMIT 1. -/
  selectOne : Query → (rows : List Document) → Except Error (Option (Fin rows.length))
  /-- DELETE … WHERE, with the rows that are left. -/
  deleteMatching : Query → (rows : List Document) →
    Except Error { rest : List Document // rest.Sublist rows }
  objectId : Document → ObjectId

structure DeleteOneResult (Document ObjectId : Type*) where
  isRowDeleted : Bool
  objectId : Option ObjectId
  resultDeletedDocument : Option Document

structure BatchDeletionResult (Error : Type*) where
  rowsDeleted : Nat
  writeErrors : List (WriteError Error)

/-- The rows of an unsharded collection and its retry table. -/
structure DeleteState (TransactionId Document ObjectId : Type*) where
  rows : List Document
  retryTable : RetryTable TransactionId ObjectId Document

variable {Query Document ObjectId TransactionId Error : Type*} [DecidableEq TransactionId]
  (queries : DeleteQueries Query Document ObjectId Error)
  (collectionId : UInt64) (transactionId : Option TransactionId)
  (isOrdered : Bool) (query : Query) (rows : List Document)

/-- The number of rows deleted, and those that are left. -/
def deleteAllMatchingDocuments : Except Error (Nat × List Document) :=
  match queries.deleteMatching query rows with
  | .ok rest => .ok (rows.length - rest.1.length, rest.1)
  | .error e => .error e

def deleteOneInternal : Except Error (DeleteOneResult Document ObjectId × List Document) :=
  match queries.selectOne query rows with
  | .ok (some ctid) =>
    .ok (⟨true, some (queries.objectId (rows.get ctid)), none⟩, rows.eraseIdx ctid)
  | .ok none => .ok (⟨false, none, none⟩, rows)
  | .error e => .error e

def deleteOneInternalCore (shardKeyHash : UInt64) (query : Query)
    (s : DeleteState TransactionId Document ObjectId) :
    Except Error (DeleteOneResult Document ObjectId
      × DeleteState TransactionId Document ObjectId) :=
  match transactionId with
  | some transactionId =>
    match deleteRetryRecord shardKeyHash transactionId s.retryTable with
    | (some writeResult, retryTable) =>
      .ok (⟨writeResult.rowsAffected, none, writeResult.resultDocument⟩,
        { s with retryTable := retryTable })
    | (none, retryTable) =>
      match deleteOneInternal queries query s.rows with
      | .ok (result, rows) =>
        .ok (result, ⟨rows, insertRetryRecord shardKeyHash transactionId
          retryTable result.objectId result.isRowDeleted
          result.resultDeletedDocument⟩)
      | .error e => .error e
  | none =>
    match deleteOneInternal queries query s.rows with
    | .ok (result, rows) => .ok (result, { s with rows := rows })
    | .error e => .error e

variable (deletionSpec : DeletionSpec Query)

/-- On an unsharded collection, where every row has the id of the collection as its shard
key value. -/
def processDeletion (s : DeleteState TransactionId Document ObjectId) :
    Except Error (Nat × DeleteState TransactionId Document ObjectId) :=
  match queries.traverseQueryDocument deletionSpec.query with
  | .error e => .error e
  | .ok _ =>
    if deletionSpec.limit = 0 then
      match deleteAllMatchingDocuments queries deletionSpec.query s.rows with
      | .ok (rowsDeleted, rows) => .ok (rowsDeleted, { s with rows := rows })
      | .error e => .error e
    else
      match deleteOneInternalCore queries transactionId collectionId deletionSpec.query s with
      | .ok (result, s) => .ok (if result.isRowDeleted then 1 else 0, s)
      | .error e => .error e

def execDeletion (_ : Nat) (deletionSpec : DeletionSpec Query)
    (s : DeleteState TransactionId Document ObjectId × BatchDeletionResult Error) :
    Except Error (DeleteState TransactionId Document ObjectId × BatchDeletionResult Error) :=
  match processDeletion queries collectionId transactionId deletionSpec s.1 with
  | .ok (rowsDeleted, state) =>
    .ok (state, { s.2 with rowsDeleted := s.2.rowsDeleted + rowsDeleted })
  | .error e => .error e

def noteDeletionError (deleteIndex : Nat) (error : Error)
    (s : DeleteState TransactionId Document ObjectId × BatchDeletionResult Error) :
    DeleteState TransactionId Document ObjectId × BatchDeletionResult Error :=
  (s.1, { s.2 with writeErrors := s.2.writeErrors ++ [⟨deleteIndex, error⟩] })

def processBatchDeletion (deletions : List (DeletionSpec Query))
    (state : DeleteState TransactionId Document ObjectId) :
    DeleteState TransactionId Document ObjectId × BatchDeletionResult Error :=
  run (execDeletion queries collectionId transactionId) noteDeletionError
    isOrdered deletions 0 (state, ⟨0, []⟩)

-- ==== deletes without records

def deleteFromRows (rows : List Document) : Except Error (Nat × List Document) :=
  match queries.traverseQueryDocument deletionSpec.query with
  | .error e => .error e
  | .ok _ =>
    if deletionSpec.limit = 0 then
      deleteAllMatchingDocuments queries deletionSpec.query rows
    else
      match deleteOneInternal queries deletionSpec.query rows with
      | .ok (result, rows) => .ok (if result.isRowDeleted then 1 else 0, rows)
      | .error e => .error e

variable {queries isOrdered} {cid : UInt64}

theorem processDeletion_none (deletion : DeletionSpec Query)
    (s : DeleteState TransactionId Document ObjectId) :
    processDeletion queries cid none deletion s = match deleteFromRows queries deletion s.rows with
        | .ok (rowsDeleted, rows) => .ok (rowsDeleted, { s with rows := rows })
        | .error e => .error e := by
  unfold processDeletion deleteFromRows deleteOneInternalCore
  cases queries.traverseQueryDocument deletion.query with
  | error e => rfl
  | ok _ =>
    by_cases hlimit : deletion.limit = 0
    · simp only [if_pos hlimit]
    · simp only [if_neg hlimit]
      cases deleteOneInternal queries deletion.query s.rows <;> rfl

variable {deletion : DeletionSpec Query} {s : DeleteState TransactionId Document ObjectId}

-- ==== deletes with records

/-- The answer that the retry table has for a transaction id. -/
def recorded (transactionId : TransactionId)
    (retryTable : RetryTable TransactionId ObjectId Document) : Option Bool :=
  (deleteRetryRecord collectionId transactionId retryTable).1.map (·.rowsAffected)

variable {id : TransactionId} {affected : Bool} {deletions : List (DeletionSpec Query)}
  {transactionId : Option TransactionId} {i : Nat}

/-- A single-document delete that finds a record takes its answer from there. -/
theorem processDeletion_answered (hquery : queries.traverseQueryDocument deletion.query = .ok ())
    (hlimit : deletion.limit ≠ 0) (hrecord : recorded cid id s.retryTable = some affected) :
    ∃ retryTable, processDeletion queries cid (some id) deletion s
      = .ok (if affected then 1 else 0, { s with retryTable := retryTable }) := by
  refine ⟨(deleteRetryRecord cid id s.retryTable).2, ?_⟩
  obtain ⟨record, hfound, rfl⟩ := map_eq_some_iff.1 hrecord
  unfold processDeletion deleteOneInternalCore
  rw [hquery]
  simp only [if_neg hlimit]
  generalize deleteRetryRecord cid id s.retryTable = found at hfound
  obtain ⟨found, retryTable⟩ := found
  cases hfound
  rfl

theorem deleteOneInternalCore_fresh {query : Query}
    (hfound : (deleteRetryRecord cid id s.retryTable).1 = none) :
    deleteOneInternalCore queries (some id) cid query s
      = match deleteOneInternal queries query s.rows with
        | .ok (result, rows) =>
          .ok (result, ⟨rows, insertRetryRecord cid id
            (deleteRetryRecord cid id s.retryTable).2 result.objectId
            result.isRowDeleted result.resultDeletedDocument⟩)
        | .error e => .error e := by
  unfold deleteOneInternalCore
  simp only
  generalize deleteRetryRecord cid id s.retryTable = found at hfound ⊢
  obtain ⟨found, retryTable⟩ := found
  cases hfound
  rfl

/-- Any other delete is done as without a transaction id. A single-document delete leaves
a record, and one of all documents leaves the retry table alone. -/
theorem processDeletion_done (h : deletion.limit = 0 ∨ recorded cid id s.retryTable = none) :
    match deleteFromRows queries deletion s.rows with
    | .error e => processDeletion queries cid (some id) deletion s = .error e
    | .ok (rowsDeleted, rows) =>
      ∃ retryTable, (deletion.limit = 0 → retryTable = s.retryTable)
        ∧ (deletion.limit ≠ 0 → recorded cid id retryTable = some (decide (rowsDeleted ≠ 0)))
        ∧ processDeletion queries cid (some id) deletion s
          = .ok (rowsDeleted, ⟨rows, retryTable⟩) := by
  unfold deleteFromRows processDeletion
  cases queries.traverseQueryDocument deletion.query with
  | error e => rfl
  | ok _ =>
    by_cases hlimit : deletion.limit = 0
    · simp only [if_pos hlimit]
      cases deleteAllMatchingDocuments queries deletion.query s.rows with
      | error e => rfl
      | ok r => exact ⟨s.retryTable, fun _ => rfl, fun hne => absurd hlimit hne, rfl⟩
    · have hfound : (deleteRetryRecord cid id s.retryTable).1 = none :=
        map_eq_none_iff.1 (h.resolve_left hlimit)
      have hgone := @deleteRetryRecord_deleted _ _ _ _ cid id s.retryTable
      simp only [if_neg hlimit]
      rw [deleteOneInternalCore_fresh hfound]
      cases deleteOneInternal queries deletion.query s.rows with
      | error e => rfl
      | ok r =>
        refine ⟨_, fun hzero => absurd hzero hlimit, fun _ => ?_, rfl⟩
        unfold recorded
        rw [deleteRetryRecord_insert hgone]
        cases r.1.isRowDeleted <;> rfl

variable (result : BatchDeletionResult Error)

theorem execDeletion_of_ok {r : Nat × DeleteState TransactionId Document ObjectId}
    (h : processDeletion queries cid transactionId deletion s = .ok r) :
    execDeletion queries cid transactionId i deletion (s, result) = .ok (r.2, { result with
          rowsDeleted := result.rowsDeleted + r.1 }) := by
  unfold execDeletion
  rw [h]

theorem execDeletion_of_error {e : Error}
    (h : processDeletion queries cid transactionId deletion s = .error e) :
    execDeletion queries cid transactionId i deletion (s, result) = .error e := by
  unfold execDeletion
  rw [h]

/-- The number of single-document deletes. -/
def singleCount (deletions : List (DeletionSpec Query)) : Nat :=
  deletions.countP fun deletion => deletion.limit ≠ 0

/-- Deletes of which at most one is of a single document and finds no record are done as
without a transaction id. -/
theorem run_deletions_eq (deletions : List (DeletionSpec Query)) (i : Nat)
    (s s' : DeleteState TransactionId Document ObjectId) (result : BatchDeletionResult Error)
    (hrows : s.rows = s'.rows) (hsingle : singleCount deletions = 0
      ∨ singleCount deletions ≤ 1 ∧ recorded cid id s.retryTable = none) :
    let withId := run (execDeletion queries cid (some id))
      noteDeletionError isOrdered deletions i (s, result)
    let without := run (execDeletion queries cid none)
      noteDeletionError isOrdered deletions i (s', result)
    withId.1.rows = without.1.rows ∧ withId.2 = without.2 := by
  induction deletions generalizing i s s' result with
  | nil => exact ⟨hrows, rfl⟩
  | cons deletion deletions ih =>
    have hcount : singleCount (deletion :: deletions)
        = singleCount deletions + if deletion.limit ≠ 0 then 1 else 0 := by
      unfold singleCount
      rw [countP_cons]
      simp only [decide_eq_true_eq]
    have hfirst : deletion.limit = 0 ∨ recorded cid id s.retryTable = none := by
      by_cases hlimit : deletion.limit = 0
      · exact Or.inl hlimit
      · rw [hcount, if_pos hlimit] at hsingle
        exact Or.inr (hsingle.resolve_left (Nat.succ_ne_zero _)).2
    -- after a single-document delete there is none left
    have hrest (retryTable) (hsame : deletion.limit = 0 → retryTable = s.retryTable) :
        singleCount deletions = 0
          ∨ singleCount deletions ≤ 1 ∧ recorded cid id retryTable = none := by
      by_cases hlimit : deletion.limit = 0
      · rw [hsame hlimit]
        rwa [hcount, if_neg (not_not.2 hlimit)] at hsingle
      · rw [hcount, if_pos hlimit] at hsingle
        omega
    have hprocess := @processDeletion_done _ _ _ _ _ _ queries _ _ _ _ hfirst
    have hnone := @processDeletion_none _ _ _ _ _ _ queries cid deletion s'
    rw [← hrows] at hnone
    cases hdelete : deleteFromRows queries deletion s.rows with
    | ok r =>
      rw [hdelete] at hprocess hnone
      obtain ⟨retryTable, hsame, -, hprocess⟩ := hprocess
      rw [run_cons_of_ok (execDeletion_of_ok result hprocess),
        run_cons_of_ok (execDeletion_of_ok result hnone)]
      exact ih _ _ _ _ rfl (hrest retryTable hsame)
    | error e =>
      rw [hdelete] at hprocess hnone
      rw [run_cons_of_error (execDeletion_of_error result hprocess),
        run_cons_of_error (execDeletion_of_error result hnone)]
      cases isOrdered with
      | true => exact ⟨hrows, rfl⟩
      | false => exact ih _ _ _ _ hrows (hrest _ fun _ => rfl)

/-- With the transaction id the same rows are left, and the same number is reported. -/
def DeletesAsWithout (queries : DeleteQueries Query Document ObjectId Error)
    (collectionId : UInt64) (id : TransactionId) (isOrdered : Bool)
    (deletions : List (DeletionSpec Query))
    (state : DeleteState TransactionId Document ObjectId) : Prop :=
  let withId := processBatchDeletion queries collectionId (some id) isOrdered deletions state
  let without := processBatchDeletion queries collectionId none isOrdered deletions state
  withId.1.rows = without.1.rows ∧ withId.2.rowsDeleted = without.2.rowsDeleted

-- ==== filters that show a second delete

/-- Filters that ask for one number. -/
def idQueries : DeleteQueries Nat Nat Nat Unit where
  traverseQueryDocument _ := .ok ()
  selectOne query rows := .ok (rows.findFinIdx? (· == query))
  deleteMatching query rows := .ok ⟨rows.filter (· != query), List.filter_sublist⟩
  objectId document := document

section Sample

variable {s : DeleteState TransactionId Nat Nat} {transactionId : Option TransactionId}

theorem deleteFromRows_zero (limit : Int32) {rows : List Nat} (h : 0 ∉ rows) :
    deleteFromRows idQueries ⟨0, limit⟩ rows = .ok (0, rows) := by
  have hne (row : Nat) (hrow : row ∈ rows) : row ≠ 0 := fun hzero => h (hzero ▸ hrow)
  unfold deleteFromRows
  show (if limit = 0 then _ else _) = _
  split_ifs
  · have hfilter : rows.filter (· != 0) = rows :=
      filter_eq_self.2 fun row hrow => bne_iff_ne.2 (hne row hrow)
    show Except.ok (rows.length - (rows.filter (· != 0)).length, rows.filter (· != 0)) = _
    rw [hfilter, Nat.sub_self]
  · have hfind : idQueries.selectOne 0 rows = .ok none :=
      congrArg Except.ok (findFinIdx?_eq_none_iff.2 fun row hrow => by simpa using hne row hrow)
    simp only [deleteOneInternal, hfind, Bool.false_eq_true, if_false]

theorem deleteFromRows_one {limit : Int32} (h : limit ≠ 0) :
    deleteFromRows idQueries ⟨1, limit⟩ [1] = .ok (1, []) := by
  unfold deleteFromRows
  show (if limit = 0 then _ else _) = _
  rw [if_neg h]
  rfl

/-- A filter that no row passes leaves the rows alone, and the records too unless it is of a
single-document delete. -/
theorem processDeletion_zero (limit : Int32) (h : 0 ∉ s.rows) :
    ∃ rowsDeleted retryTable, (limit = 0 → retryTable = s.retryTable)
      ∧ processDeletion idQueries cid transactionId ⟨0, limit⟩ s
        = .ok (rowsDeleted, { s with retryTable := retryTable }) := by
  have hdelete := deleteFromRows_zero limit h
  cases transactionId with
  | none =>
    refine ⟨0, s.retryTable, fun _ => rfl, ?_⟩
    rw [processDeletion_none, hdelete]
  | some id =>
    by_cases hfirst : limit = 0 ∨ recorded cid id s.retryTable = none
    · have hdone := @processDeletion_done _ _ _ _ _ _ idQueries cid ⟨0, limit⟩ s id hfirst
      rw [hdelete] at hdone
      obtain ⟨retryTable, hsame, -, hprocess⟩ := hdone
      exact ⟨0, retryTable, hsame, hprocess⟩
    · rw [not_or] at hfirst
      obtain ⟨affected, hrecord⟩ := ne_none_iff_exists'.1 hfirst.2
      obtain ⟨retryTable, hprocess⟩ := @processDeletion_answered _ _ _ _ _ _ idQueries cid
        ⟨0, limit⟩ s id affected rfl hfirst.1 hrecord
      exact ⟨_, retryTable, fun hzero => absurd hzero hfirst.1, hprocess⟩

theorem batch_zero (limits : List Int32) (i : Nat) (result : BatchDeletionResult Unit)
    (h : 0 ∉ s.rows) :
    ∃ retryTable result', ((∀ limit ∈ limits, limit = 0) → retryTable = s.retryTable)
      ∧ batch (execDeletion idQueries cid transactionId) (limits.map (⟨0, ·⟩)) i (s, result)
        = .ok ({ s with retryTable := retryTable }, result') := by
  induction limits generalizing i s result with
  | nil => exact ⟨s.retryTable, result, fun _ => rfl, rfl⟩
  | cons limit limits ih =>
    obtain ⟨rowsDeleted, retryTable, hsame, hprocess⟩ :=
      @processDeletion_zero _ _ cid s transactionId limit h
    obtain ⟨retryTable', result', hsame', hbatch⟩ :=
      @ih { s with retryTable := retryTable } (i + 1)
        { result with rowsDeleted := result.rowsDeleted + rowsDeleted } h
    refine ⟨retryTable', result', fun hzero => ?_, ?_⟩
    · rw [hsame' fun l hl => hzero l (mem_cons_of_mem _ hl), hsame (hzero limit mem_cons_self)]
    · rw [map_cons, batch, execDeletion_of_ok result hprocess]
      exact hbatch

/-- The first single-document delete leaves a record that says nothing was deleted. -/
theorem processDeletion_first {first : Int32} (hfirst : first ≠ 0) :
    ∃ retryTable, (∀ id, transactionId = some id → recorded cid id retryTable = some false)
      ∧ processDeletion idQueries cid transactionId ⟨0, first⟩
          (⟨[1], []⟩ : DeleteState TransactionId Nat Nat)
        = .ok (0, ⟨[1], retryTable⟩) := by
  have hdelete := @deleteFromRows_zero first [1] (by decide)
  cases transactionId with
  | none =>
    refine ⟨[], fun id hid => absurd hid.symm (some_ne_none id), ?_⟩
    rw [processDeletion_none, hdelete]
  | some id =>
    have hdone := @processDeletion_done _ _ _ _ _ _ idQueries cid ⟨0, first⟩
      (⟨[1], []⟩ : DeleteState TransactionId Nat Nat) id (Or.inr rfl)
    rw [hdelete] at hdone
    obtain ⟨retryTable, -, hrecorded, hprocess⟩ := hdone
    refine ⟨retryTable, fun id' hid => ?_, hprocess⟩
    cases hid
    exact hrecorded hfirst

/-- Only the second single-document delete asks for a document that is there. -/
def sampleDeletions (front : List Int32) (first : Int32) (between : List Int32) (second : Int32)
    (rest : List Int32) : List (DeletionSpec Nat) :=
  front.map (⟨0, ·⟩) ++ ⟨0, first⟩ :: (between.map (⟨0, ·⟩) ++ ⟨1, second⟩ :: rest.map (⟨0, ·⟩))

variable {front between rest : List Int32} {first second : Int32}

/-- The rows that are left of one row, by what the second single-document delete does. -/
theorem run_sampleDeletions {rows : List Nat} (hrows : 0 ∉ rows) (hfirst : first ≠ 0)
    (hfront : ∀ limit ∈ front, limit = 0) (hbetween : ∀ limit ∈ between, limit = 0)
    (hsecond : ∀ retryTable, (∀ id, transactionId = some id →
        recorded cid id retryTable = some false) →
      ∃ rowsDeleted retryTable', processDeletion idQueries cid transactionId ⟨1, second⟩
        ⟨[1], retryTable⟩ = .ok (rowsDeleted, ⟨rows, retryTable'⟩)) :
    (processBatchDeletion idQueries cid transactionId isOrdered
      (sampleDeletions front first between second rest) ⟨[1], []⟩).1.rows = rows := by
  have hone : 0 ∉ [1] := by decide
  unfold processBatchDeletion sampleDeletions
  obtain ⟨table₁, result₁, hsame, hbatch⟩ := @batch_zero _ _ cid ⟨[1], []⟩ transactionId front 0
    ⟨0, []⟩ hone
  rw [run_append_of_batch _ hbatch, hsame hfront]
  obtain ⟨table₂, hrecorded, hprocess⟩ := @processDeletion_first _ _ cid transactionId _ hfirst
  rw [run_cons_of_ok (execDeletion_of_ok result₁ hprocess)]
  obtain ⟨table₃, result₃, hsame, hbatch⟩ := @batch_zero _ _ cid ⟨[1], table₂⟩ transactionId
    between (0 + (front.map fun limit => (⟨0, limit⟩ : DeletionSpec Nat)).length + 1)
    { result₁ with rowsDeleted := result₁.rowsDeleted + 0 } hone
  rw [run_append_of_batch _ hbatch, hsame hbetween]
  obtain ⟨rowsDeleted, table₄, hprocess⟩ := hsecond table₂ hrecorded
  rw [run_cons_of_ok (execDeletion_of_ok result₃ hprocess)]
  generalize 0 + _ + 1 + _ + 1 = i
  obtain ⟨table₅, result₅, -, hbatch⟩ := @batch_zero _ _ cid ⟨rows, table₄⟩ transactionId
    rest i { result₃ with rowsDeleted := result₃.rowsDeleted + rowsDeleted } hrows
  rw [← append_nil (rest.map _), run_append_of_batch _ hbatch]
  rfl

end Sample

theorem exists_two_of_lt_countP {limits : List Int32} (h : 1 < limits.countP (· ≠ 0)) :
    ∃ front first between second rest, first ≠ 0 ∧ second ≠ 0 ∧ (∀ limit ∈ front, limit = 0)
      ∧ (∀ limit ∈ between, limit = 0)
      ∧ limits = front ++ first :: (between ++ second :: rest) := by
  rw [countP_eq_length_filter] at h
  match hfilter : limits.filter (· ≠ 0) with
  | [] | [_] =>
    rw [hfilter] at h
    simp at h
  | first :: second :: _ =>
    obtain ⟨front, tail, rfl, hfront, hfirst, htail⟩ := filter_eq_cons_iff.1 hfilter
    obtain ⟨between, rest, rfl, hbetween, hsecond, -⟩ := filter_eq_cons_iff.1 htail
    simp only [decide_eq_true_eq, not_not] at hfront hfirst hbetween hsecond
    exact ⟨front, first, between, second, rest, hfirst, hsecond, hfront, hbetween, rfl⟩

end DocumentDb
