/-
Streaming cursors that scan the primary key.

With `EnablePrimaryKeyCursorScan` the continuation has the key of the last row besides its
position. The index scan starts behind the key; but `ExtensionScanNext` still skips the rows
up to the first one whose position is behind the last one, so that rows with a greater key
and a smaller position that come first are lost.
-/
import DocumentDb.Bson.Order
import DocumentDb.Bson.Reference
import DocumentDb.Cursor.Streaming
import DocumentDb.Lib.Paging

namespace DocumentDb

open Paging List Option

section Keyed

variable [BidLib]

-- ==== the table

structure PrimaryKey where
  shardKeyValue : Int64
  objectId : Pgbson

/-- The order of the index, as `ROWCOMPARE_GT` compares two keys. -/
def PrimaryKey.compare (left right : PrimaryKey) : Int :=
  if left.shardKeyValue < right.shardKeyValue then -1
  else if right.shardKeyValue < left.shardKeyValue then 1
  else comparePgbson left.objectId right.objectId

/-- A table with the rows that match a query, in the order of the primary
key. The columns of the key are those of the row at a position. -/
structure KeyedTable where
  tableName : Bytes
  rows : List ShardRow
  columns : ItemPointer → PrimaryKey
  ordered : rows.Pairwise fun a b => (columns a.tid).compare (columns b.tid) < 0

variable (table : KeyedTable)

def KeyedTable.key (row : ShardRow) : PrimaryKey := table.columns row.tid

/-- The index scan: from the start, or with the clause of
`BuildPrimaryKeyIndexClauses`. -/
def KeyedTable.indexScan : Option PrimaryKey → List ShardRow
  | none => table.rows
  | some primaryKeyDatums =>
    table.rows.filter fun row => 0 < (table.key row).compare primaryKeyDatums

-- ==== the continuation

/-- `PrimaryKeyShardKey`: `pk`. -/
def primaryKeyShardKey : Bytes := [112, 107]

/-- `command_current_cursor_state`, of a row of the table. -/
def KeyedTable.currentCursorState (row : ShardRow) : Fields :=
  cursorStateFields table.tableName row.tid
    ++ [(primaryKeyShardKey, .array [.int64 (table.key row).shardKeyValue,
      .document (table.key row).objectId.fields])]

structure KeyContinuation extends SingleContinuation where
  primaryKeyBsonValue : Option Value := none

def KeyContinuation.read : Fields → KeyContinuation → Option KeyContinuation
  | [], entry => some entry
  | (key, value) :: fs, entry =>
    if key = cursorContinuationTableName then
      match value with
      | .utf8 tableName => read fs { entry with tableName := some tableName }
      | _ => none
    else if key = cursorContinuationValue then
      read fs { entry with continuationBinaryValue := some value }
    else if key = primaryKeyShardKey then
      read fs { entry with primaryKeyBsonValue := some value }
    else read fs entry

def bsonIterAsInt64 : Value → Int64
  | .bool b => bsonValueAsInt64 (.bool b)
  | .double bits => bsonValueAsInt64 (.double bits)
  | .int64 n => n
  | .int32 n => n.toInt64
  | _ => 0

/-- Of a value of a document. -/
def pgbsonInitFromDocumentBsonValue : Value → Option Pgbson
  | .document fs =>
    if h : namesOkFields fs = true ∧ (encodeDoc fs).length < 2 ^ 31 then
      some ⟨fs, h.1, h.2⟩
    else none
  | _ => none

/-- The key in an array of the continuation: exactly two values. -/
def primaryKeyOfElements : List Value → Option PrimaryKey
  | [shardKeyValue, objectId] => do
    let objectId ← pgbsonInitFromDocumentBsonValue objectId
    some ⟨bsonIterAsInt64 shardKeyValue, objectId⟩
  | _ => none

/-- `ExtensionScanState` with the continuation from the primary key. -/
structure KeyScanState extends ExtensionScanState where
  primaryKeyDatums : Option PrimaryKey := none

/-- The key of the continuation, if it has an array there. -/
def KeyScanState.readPrimaryKey (s : KeyScanState) : Option Value → Option KeyScanState
  | some (.array es) => do
    let key ← primaryKeyOfElements es
    some { s with primaryKeyDatums := some key }
  | _ => some s

/-- The loop over the elements of the continuation: the entry of the own table
is kept. -/
def parseKeyEntries (queryTableName : Bytes) : List Value → KeyScanState → Option KeyScanState
  | [], s => some s
  | .document fs :: es, s => do
    let entry ← KeyContinuation.read fs {}
    if entry.tableName = some queryTableName then
      let tid ← entry.continuationBinaryValue.bind itemPointerOfValue
      let s ← s.readPrimaryKey entry.primaryKeyBsonValue
      parseKeyEntries queryTableName es { s with userContinuationState := some tid }
    else parseKeyEntries queryTableName es s
  | _ :: _, _ => none

/-- `ParseContinuationState`, with `EnablePrimaryKeyCursorScan`. The fields for
the limits of a page are read as they are without it. -/
def parseKeyContinuationState (queryTableName : Bytes) : Fields → KeyScanState → Option KeyScanState
  | [], s => some s
  | (key, value) :: fs, s =>
    if key = continuationField then do
      let es ← value.elements?
      let s ← parseKeyEntries queryTableName es s
      parseKeyContinuationState queryTableName fs s
    else do
      let limits ← parseField queryTableName key value s.toExtensionScanState
      parseKeyContinuationState queryTableName fs { s with toExtensionScanState := limits }

/-- `ExtensionScanCreateCustomScanState`. -/
def createKeyScanState (queryTableName : Bytes) (continuation : Fields) : Option KeyScanState := do
  let s ← parseKeyContinuationState queryTableName continuation {}
  if xor (decide (0 < s.batchSizeHintBytes)) (decide (0 < s.contentTrackAttributeNumber)) then none
  else if 2 < s.contentTrackAttributeNumber then none
  else some s

-- ==== the pages

/-- The rows that a worker returns for a continuation. The path is a scan of
the primary key: from the key that was read, or from the start in place of a
sequential scan. -/
def KeyedTable.scan (continuation : Fields) : Option (List ShardRow) := do
  let s ← createKeyScanState table.tableName continuation
  let rows := table.indexScan s.primaryKeyDatums
  return extensionScanExecCustomScan (rows.length + 1) s.toExtensionScanState rows

/-- The continuation that a worker gets, for a table with at most one entry. -/
def continuationForWorker (cursorState : Option Fields)
    (batchSize maxWorkerCursorSize : Int32) : Fields :=
  [(continuationField, .array (cursorState.map Value.document).toList),
    (batchCountField, .int32 (workerBatchCount batchSize)),
    (batchSizeHintField, .int32 maxWorkerCursorSize),
    (batchSizeAttrField, .int32 1)]

/-- A request for a page: its batch size, and for how many documents there is
room in the response, at least for one. -/
structure PageRequest where
  batchSize : Int32
  room : Nat
  batchSize_pos : 0 < batchSize
  room_pos : 0 < room

/-- The number of rows that are taken of those that a worker returns. -/
def PageRequest.rowsTaken (request : PageRequest) : Nat :=
  min request.batchSize.toInt.toNat request.room

/-- The first pages of a cursor, from a number on. The continuation is that of
the last row that was taken. -/
def cursorPages (table : KeyedTable) (maxWorkerCursorSize : Int32)
    (requests : Nat → PageRequest) : Nat → Nat → Option Fields → Option (List (List ShardRow))
  | 0, _, _ => some []
  | n + 1, i, cursorState => do
    let rows ← table.scan (continuationForWorker cursorState
      (requests i).batchSize maxWorkerCursorSize)
    let page := rows.take (requests i).rowsTaken
    let pages ← cursorPages table maxWorkerCursorSize requests n (i + 1)
      ((page.getLast?.map table.currentCursorState).or cursorState)
    some (page :: pages)

-- ==== the index scan

theorem PrimaryKey.flip_compare (a b : PrimaryKey) : ThreeWay.Flip (a.compare b) (b.compare a) := by
  have hid : ThreeWay.Flip (comparePgbson a.objectId b.objectId)
      (comparePgbson b.objectId a.objectId) := by
    rw [comparePgbson_eq, comparePgbson_eq]
    exact flip_compareBsonIter _ _
  unfold PrimaryKey.compare
  simp only [Int64.lt_iff_toInt_lt]
  by_cases hlt : a.shardKeyValue.toInt < b.shardKeyValue.toInt
  · rw [if_pos hlt, if_neg (by omega), if_pos hlt]
    constructor <;> omega
  by_cases hgt : b.shardKeyValue.toInt < a.shardKeyValue.toInt
  · rw [if_neg hlt, if_pos hgt, if_pos hgt]
    constructor <;> omega
  · rw [if_neg hlt, if_neg hgt, if_neg hgt, if_neg hlt]
    exact hid

theorem PrimaryKey.compare_self (a : PrimaryKey) : a.compare a = 0 := by
  have h := (a.flip_compare a).neg_iff
  omega

section Resumed

variable {table : KeyedTable} {done left : List ShardRow} {last : ShardRow}

theorem KeyedTable.indexScan_behind (hrows : table.rows = done ++ last :: left) :
    table.indexScan (some (table.key last)) = left := by
  have hordered := table.ordered
  rw [hrows] at hordered
  obtain ⟨-, hbehind, hbefore⟩ := pairwise_append.1 hordered
  have hdone : done.filter (fun row =>
      decide (0 < (table.key row).compare (table.key last))) = [] := by
    refine filter_eq_nil_iff.2 fun row hrow => ?_
    have hlt : (table.key row).compare (table.key last) < 0 := hbefore row hrow last mem_cons_self
    simp only [decide_eq_true_eq]
    omega
  have hleft : left.filter (fun row =>
      decide (0 < (table.key row).compare (table.key last))) = left := by
    refine filter_eq_self.2 fun row hrow => decide_eq_true ?_
    exact ((table.key last).flip_compare (table.key row)).neg_iff.1
      ((pairwise_cons.1 hbehind).1 row hrow)
  have hself : ¬ 0 < (table.key last).compare (table.key last) := by
    rw [PrimaryKey.compare_self]
    exact Int.lt_irrefl 0
  show table.rows.filter _ = left
  rw [hrows, filter_append, hdone, nil_append, filter_cons,
    if_neg (by rwa [decide_eq_true_eq]), hleft]

theorem KeyedTable.tid_ne (hrows : table.rows = done ++ last :: left)
    {row : ShardRow} (hrow : row ∈ left) : row.tid ≠ last.tid := by
  have hordered := table.ordered
  rw [hrows] at hordered
  have hbehind := (pairwise_append.1 hordered).2.1
  have hlt := (pairwise_cons.1 hbehind).1 row hrow
  intro htid
  rw [htid, PrimaryKey.compare_self] at hlt
  exact Int.lt_irrefl 0 hlt

end Resumed

-- ==== the skipping

/-- A row that is skipped behind the last one: its position is smaller. -/
def isSkippedBehind (last row : ShardRow) : Bool := row.tid.compare last.tid < 0

omit [BidLib] in
theorem skipWithUserContinuation_absent {last : ShardRow} {rows : List ShardRow}
    (habsent : ∀ row ∈ rows, row.tid ≠ last.tid) :
    skipWithUserContinuation last.tid rows = match rows.dropWhile (isSkippedBehind last) with
        | [] => (none, false, [])
        | row :: left => (some row, false, left) := by
  induction rows with
  | nil => rfl
  | cons row rows ih =>
    obtain ⟨hrow, hrows⟩ := forall_mem_cons.1 habsent
    have hne : row.tid.compare last.tid ≠ 0 := fun h =>
      hrow (ItemPointer.eq_of_rank_eq ((ItemPointer.compare_spec _ _).2.1 h))
    rw [skipWithUserContinuation, if_neg hne]
    by_cases hskipped : row.tid.compare last.tid < 0
    · have hdrop : isSkippedBehind last row := decide_eq_true hskipped
      rw [if_neg (by omega), ih hrows, dropWhile_cons_of_pos hdrop]
    · have hkeep : ¬ isSkippedBehind last row := fun h =>
        hskipped (of_decide_eq_true h)
      rw [if_pos (by omega), dropWhile_cons_of_neg hkeep]

section Worker

variable {limit maxSize : Int32} (hbatch : 0 < limit) (hmax : 0 < maxSize)

omit [BidLib] in
include hbatch hmax in
theorem forPage_limits : 0 < (workerBatchCount limit).toInt64.toUInt64.toNat
    ∧ (workerBatchCount limit).toInt64.toUInt64.toNat = (workerBatchCount limit).toInt.toNat
    ∧ 0 < maxSize.toInt64.toUInt64.toNat
    ∧ maxSize.toInt64.toUInt64.toNat = maxSize.toInt.toNat := by
  have hcount : 0 < (workerBatchCount limit).toInt :=
    Int32.lt_iff_toInt_lt.1 (workerBatchCount_pos hbatch)
  have hsize : 0 < maxSize.toInt := Int32.lt_iff_toInt_lt.1 hmax
  have hcountNat := toNat_of_nonneg (Int32.le_of_lt (workerBatchCount_pos hbatch))
  have hsizeNat := toNat_of_nonneg (Int32.le_of_lt hmax)
  exact ⟨by omega, hcountNat, by omega, hsizeNat⟩

omit [BidLib] in
include hbatch hmax in
theorem extensionScanExecCustomScan_start (rows : List ShardRow) :
    extensionScanExecCustomScan (rows.length + 1) (.forPage limit maxSize none) rows
      = workerPage limit maxSize rows := by
  obtain ⟨hcount, hcountNat, hsize, hsizeNat⟩ := forPage_limits hbatch hmax
  have hscan := @extensionScanExecCustomScan_eq (rows.length + 1)
    (.forPage limit maxSize none) rows (Nat.lt_succ_self _) rfl
    hcount hsize Int.one_pos
  rw [hscan]
  show scanPage (workerBatchCount limit).toInt64.toUInt64.toNat
    maxSize.toInt64.toUInt64.toNat 0 0 rows = _
  rw [hcountNat, hsizeNat]
  rfl

omit [BidLib] in
include hbatch hmax in
/-- A scan from a position that no row has returns a page of the rows from the
first one with a greater position on. -/
theorem extensionScanExecCustomScan_behind {last : ShardRow}
    {rows : List ShardRow} (habsent : ∀ row ∈ rows, row.tid ≠ last.tid) :
    extensionScanExecCustomScan (rows.length + 1) (.forPage limit maxSize (some last.tid)) rows
      = workerPage limit maxSize (rows.dropWhile (isSkippedBehind last)) := by
  obtain ⟨hcount, hcountNat, hsize, hsizeNat⟩ := forPage_limits hbatch hmax
  have hlength := (dropWhile_sublist (l := rows) (isSkippedBehind last)).length_le
  have hskip := skipWithUserContinuation_absent habsent
  rw [extensionScanExecCustomScan]
  cases hdrop : rows.dropWhile (isSkippedBehind last) with
  | nil =>
    rw [hdrop] at hskip
    simp only [extensionScanNext, ExtensionScanState.forPage, hskip]
    rfl
  | cons row left =>
    rw [hdrop] at hskip hlength
    -- the first row is returned whatever the limits are
    have hnext : extensionScanNext (.forPage limit maxSize (some last.tid))
        rows = (some row, { ExtensionScanState.forPage limit maxSize none
          with currentTupleCount := 1 }, left) := by
      simp only [extensionScanNext, ExtensionScanState.forPage, hskip]
      rfl
    have hrest := @extensionScanExecCustomScan_eq rows.length
      { ExtensionScanState.forPage limit maxSize none with
        currentTupleCount := 1, currentEnumeratedSize := 0 + row.bsonSize }
      left hlength rfl hcount hsize Int.one_pos
    rw [hnext]
    show row :: extensionScanExecCustomScan rows.length
      { ExtensionScanState.forPage limit maxSize none with
        currentTupleCount := 1, currentEnumeratedSize := 0 + row.bsonSize }
      left = _
    rw [hrest, workerPage, scanPage, if_neg (by omega)]
    show row :: scanPage (workerBatchCount limit).toInt64.toUInt64.toNat
      maxSize.toInt64.toUInt64.toNat 1 (0 + row.bsonSize) left = _
    rw [hcountNat, hsizeNat]

end Worker

-- ==== one scan

omit [BidLib] in
theorem pgbsonInitFromDocumentBsonValue_fields (b : Pgbson) :
    pgbsonInitFromDocumentBsonValue (.document b.fields) = some b :=
  dif_pos ⟨b.namesOk, b.size_lt⟩

theorem KeyContinuation.read_currentCursorState (row : ShardRow) :
    KeyContinuation.read (table.currentCursorState row) {}
      = some ⟨⟨some table.tableName, some (.binary 0 row.tid.toBytes)⟩,
          some (.array [.int64 (table.key row).shardKeyValue,
            .document (table.key row).objectId.fields])⟩ := rfl

theorem parseKeyEntries_currentCursorState (last : Option ShardRow) :
    parseKeyEntries table.tableName
        ((last.map table.currentCursorState).map Value.document).toList {}
      = some ⟨{ userContinuationState := last.map ShardRow.tid }, last.map table.key⟩ := by
  cases last with
  | none => rfl
  | some row =>
    have htid : itemPointerOfValue (.binary 0 row.tid.toBytes)
        = some row.tid := ItemPointer.ofBytes?_toBytes row.tid
    have hkey : primaryKeyOfElements
        [.int64 (table.key row).shardKeyValue, .document (table.key row).objectId.fields]
        = some (table.key row) := by
      rw [primaryKeyOfElements, pgbsonInitFromDocumentBsonValue_fields]
      rfl
    show parseKeyEntries table.tableName [.document (table.currentCursorState row)] {} = _
    rw [parseKeyEntries, KeyContinuation.read_currentCursorState]
    simp only [bind_eq_bind, bind_some, if_true, htid, KeyScanState.readPrimaryKey, hkey]
    rfl

variable {maxSize : Int32} {table : KeyedTable}

theorem createKeyScanState_eq (table : KeyedTable) (last : Option ShardRow)
    (limit : Int32) (hmax : 0 < maxSize.toInt64.toUInt64.toNat) :
    createKeyScanState table.tableName (continuationForWorker
        (last.map table.currentCursorState) limit maxSize)
      = some ⟨.forPage limit maxSize (last.map ShardRow.tid), last.map table.key⟩ := by
  have hparse : parseKeyContinuationState table.tableName
      (continuationForWorker (last.map table.currentCursorState) limit maxSize) {}
      = some ⟨.forPage limit maxSize (last.map ShardRow.tid), last.map table.key⟩ := by
    have hentries := parseKeyEntries_currentCursorState table last
    rw [continuationForWorker, parseKeyContinuationState, if_pos rfl]
    simp only [Value.elements?, bind_eq_bind, bind_some, hentries]
    rfl
  have htracked : xor (decide (0 < maxSize.toInt64.toUInt64.toNat))
      (decide ((0 : Int) < 1)) = false := by
    rw [decide_eq_true hmax]
    rfl
  rw [createKeyScanState, hparse]
  show (if xor (decide (0 < maxSize.toInt64.toUInt64.toNat))
    (decide ((0 : Int) < 1)) then none else _) = _
  rw [htracked]
  rfl

/-- What is left of the table behind a row, up to what the scan skips anyway. -/
def KeyedTable.Behind (table : KeyedTable) : Option ShardRow → List ShardRow → Prop
  | none, left => left = table.rows
  | some last, left => ∃ done behind, table.rows = done ++ last :: behind
    ∧ behind.dropWhile (isSkippedBehind last) = left.dropWhile (isSkippedBehind last)

/-- A worker returns a page of what is left behind the last row, without the
rows at its front that have smaller positions. -/
theorem KeyedTable.scan_eq {last : Option ShardRow} {left : List ShardRow}
    (h : table.Behind last left) {limit : Int32} (hbatch : 0 < limit) (hmax : 0 < maxSize) :
    table.scan (continuationForWorker (last.map table.currentCursorState) limit maxSize)
      = some (workerPage limit maxSize (resume isSkippedBehind last left)) := by
  obtain ⟨-, -, hsize, -⟩ := forPage_limits hbatch hmax
  rw [KeyedTable.scan, createKeyScanState_eq table last limit hsize]
  cases last with
  | none =>
    obtain rfl : left = table.rows := h
    exact congrArg some (extensionScanExecCustomScan_start hbatch hmax _)
  | some last =>
    obtain ⟨done, behind, hrows, hdrop⟩ := h
    show some (extensionScanExecCustomScan ((table.indexScan (some (table.key last))).length + 1)
      (.forPage limit maxSize (some last.tid))
      (table.indexScan (some (table.key last)))) = _
    rw [KeyedTable.indexScan_behind hrows, extensionScanExecCustomScan_behind hbatch hmax
        (fun row hrow => KeyedTable.tid_ne hrows hrow), hdrop]
    rfl

-- ==== all the pages

def pageOf (maxWorkerCursorSize : Int32) (requests : Nat → PageRequest)
    (i : Nat) (left : List ShardRow) : List ShardRow :=
  (workerPage (requests i).batchSize maxWorkerCursorSize left).take (requests i).rowsTaken

section Pages

variable {table : KeyedTable} {maxSize : Int32} (hmax : 0 < maxSize)
  {requests : Nat → PageRequest}

omit [BidLib] in
theorem PageRequest.rowsTaken_pos (request : PageRequest) : 0 < request.rowsTaken := by
  have hbatch : 0 < request.batchSize.toInt := Int32.lt_iff_toInt_lt.1 request.batchSize_pos
  have hroom := request.room_pos
  unfold PageRequest.rowsTaken
  omega

omit [BidLib] in
include hmax in
theorem isPage_pageOf : IsPage (pageOf maxSize requests) where
  front i left := by
    obtain ⟨rest, hleft, -⟩ := workerPage_spec (requests i).batchSize maxSize left
    exact (List.take_prefix _ _).trans ⟨rest, hleft.symm⟩
  ne_nil i left hleft := by
    obtain ⟨hcount, hcountNat, hsize, hsizeNat⟩ := forPage_limits (requests i).batchSize_pos hmax
    have hpage : workerPage (requests i).batchSize maxSize left ≠ [] :=
      scanPage_ne_nil (by omega) (by omega) hleft
    intro hnil
    rcases take_eq_nil_iff.1 hnil with hzero | hempty
    · exact absurd hzero (Nat.ne_of_gt (requests i).rowsTaken_pos)
    · exact hpage hempty

include hmax in
theorem KeyedTable.Behind.step {last : Option ShardRow} {left : List ShardRow}
    (h : table.Behind last left) (i : Nat) :
    table.Behind ((pageOf maxSize requests i (resume isSkippedBehind last left)).getLast?.or last)
      ((resume isSkippedBehind last left).drop
        (pageOf maxSize requests i (resume isSkippedBehind last left)).length) := by
  have hpage := @isPage_pageOf _ hmax requests
  have hsplit := hpage.append_drop i (resume isSkippedBehind last left)
  generalize hp : pageOf maxSize requests i (resume isSkippedBehind last left) = page at hsplit ⊢
  generalize (resume isSkippedBehind last left).drop page.length = rest at hsplit ⊢
  rcases eq_nil_or_concat page with hnil | ⟨front, row, hconcat⟩
  · -- nothing was left, and nothing is
    have hnone : resume isSkippedBehind last left = [] := by
      by_contra hne
      exact hpage.ne_nil i hne (hp.trans hnil)
    rw [hnil, hnone, nil_append] at hsplit
    subst hnil hsplit
    cases last with
    | none =>
      obtain rfl : left = table.rows := h
      exact hnone.symm
    | some last =>
      obtain ⟨done, behind, hrows, hdrop⟩ := h
      exact ⟨done, behind, hrows, hdrop.trans hnone⟩
  · have hlast : page.getLast? = some row := by
      rw [hconcat, concat_eq_append, getLast?_concat]
    rw [hlast]
    rw [hconcat, concat_eq_append, append_assoc, singleton_append] at hsplit
    cases last with
    | none =>
      obtain rfl : left = table.rows := h
      exact ⟨front, rest, hsplit.symm, rfl⟩
    | some last =>
      obtain ⟨done, behind, hrows, hdrop⟩ := h
      have hbehind : behind = behind.takeWhile (isSkippedBehind last)
          ++ (front ++ row :: rest) := by
        rw [hsplit]
        show behind = _ ++ left.dropWhile (isSkippedBehind last)
        rw [← hdrop, takeWhile_append_dropWhile]
      refine ⟨done ++ last :: behind.takeWhile (isSkippedBehind last) ++ front, rest, ?_, rfl⟩
      rw [hrows, append_assoc, append_assoc, cons_append, ← hbehind]

include hmax in
theorem cursorPages_eq_readPages (n i : Nat) {last : Option ShardRow}
    {left : List ShardRow} (h : table.Behind last left) :
    cursorPages table maxSize requests n i (last.map table.currentCursorState)
      = some (readPages (pageOf maxSize requests) isSkippedBehind n i last left) := by
  induction n generalizing i last left with
  | zero => rfl
  | succ n ih =>
    have hstate : ((pageOf maxSize requests i
          (resume isSkippedBehind last left)).getLast?.map table.currentCursorState).or
          (last.map table.currentCursorState)
        = ((pageOf maxSize requests i (resume isSkippedBehind last left)).getLast?.or last).map
              table.currentCursorState := by
      cases (pageOf maxSize requests i (resume isSkippedBehind last left)).getLast? <;> rfl
    rw [cursorPages, KeyedTable.scan_eq h (requests i).batchSize_pos hmax]
    show (cursorPages table maxSize requests n (i + 1) (((pageOf maxSize requests i
          (resume isSkippedBehind last left)).getLast?.map table.currentCursorState).or
          (last.map table.currentCursorState))).bind _ = _
    rw [hstate, ih (i + 1) (h.step hmax i)]
    rfl

include hmax in
theorem cursorPages_start (n : Nat) : cursorPages table maxSize requests n 0 none
      = some (readPages (pageOf maxSize requests) isSkippedBehind n 0 none table.rows) :=
  @cursorPages_eq_readPages _ table maxSize hmax requests n 0 none table.rows rfl

def ReturnsEachRowOnce (table : KeyedTable) (maxWorkerCursorSize : Int32)
    (requests : Nat → PageRequest) : Prop :=
  ∃ n, ∀ m, n ≤ m → ∃ pages, cursorPages table maxWorkerCursorSize requests m 0 none = some pages
      ∧ pages.flatten.Perm table.rows

include hmax in
theorem returnsEachRowOnce_iff_resumes : ReturnsEachRowOnce table maxSize requests
      ↔ ∀ n, Resumes isSkippedBehind none (cut (pageOf maxSize requests) n 0 table.rows) := by
  have hpage := @isPage_pageOf _ hmax requests
  constructor
  · intro hreturns n
    obtain ⟨k, hall⟩ := hreturns
    have hn : n ≤ k + table.rows.length + n := by omega
    obtain ⟨pages, hsome, hperm⟩ := hall (k + table.rows.length + n) (by omega)
    rw [cursorPages_start hmax] at hsome
    cases hsome
    -- a sublist with as many elements is the whole list
    have heq := (flatten_readPages_sublist hpage isSkippedBehind _ 0 none
      table.rows).eq_of_length hperm.length_eq
    exact ((flatten_readPages_eq_iff hpage 0 none (by omega)).1 heq).cut_of_le hn
  · intro hresumes
    refine ⟨table.rows.length, fun m hm =>
      ⟨_, cursorPages_start hmax m, .of_eq ?_⟩⟩
    exact (flatten_readPages_eq_iff hpage 0 none hm).2 (hresumes m)

end Pages

-- ==== every sequence of pages

def oneToAPage : Nat → PageRequest := fun _ => ⟨1, 1, by decide, Nat.one_pos⟩

omit [BidLib] in
theorem pageOf_oneToAPage (hmax : 0 < maxSize) (i : Nat) (left : List ShardRow) :
    pageOf maxSize oneToAPage i left = left.take 1 := by
  cases left with
  | nil => rfl
  | cons row left =>
    obtain ⟨hcount, hcountNat, hsize, hsizeNat⟩ := forPage_limits (oneToAPage i).batchSize_pos hmax
    rw [pageOf, workerPage, scanPage, if_neg (by omega)]
    rfl

/-- A cursor returns every row exactly once for all sequences of batch sizes if
and only if the positions of the rows ascend with their keys. -/
theorem forall_returnsEachRowOnce_iff (hmax : 0 < maxSize) :
    (∀ requests, ReturnsEachRowOnce table maxSize requests)
      ↔ table.rows.Pairwise fun a b => a.tid.compare b.tid < 0 := by
  constructor
  · intro hall
    have hresumes := (returnsEachRowOnce_iff_resumes hmax).1 (hall oneToAPage)
    have hchain := isChain_of_resumes (pageOf_oneToAPage hmax) 0 (Nat.le_refl _)
      (hresumes table.rows.length)
    have hle : table.rows.IsChain fun a b => a.tid.rank ≤ b.tid.rank := by
      refine hchain.imp fun a b hkept => Nat.not_lt.1 fun hlt => ?_
      have hskipped : isSkippedBehind a b := decide_eq_true ((ItemPointer.compare_spec _ _).1.2 hlt)
      rw [hskipped] at hkept
      cases hkept
    have hpair : table.rows.Pairwise fun a b => a.tid.rank ≤ b.tid.rank := by
      exact hle.pairwise
    refine (hpair.and table.ordered).imp fun {a b} ⟨hrank, hkey⟩ => ?_
    rw [(ItemPointer.compare_spec _ _).1]
    refine Nat.lt_of_le_of_ne hrank fun heq => ?_
    rw [ItemPointer.eq_of_rank_eq heq, PrimaryKey.compare_self] at hkey
    exact Int.lt_irrefl 0 hkey
  · intro hascending requests
    refine (returnsEachRowOnce_iff_resumes hmax).2 fun n => ?_
    refine resumes_of_pairwise (isPage_pageOf hmax) ?_ n 0
    refine hascending.imp fun {a b} hlt => decide_eq_false fun hskipped => ?_
    rw [(ItemPointer.compare_spec _ _).1] at hlt hskipped
    exact Nat.lt_asymm hlt hskipped

/-- A cursor that scans the primary key returns every row exactly once if and
only if no page starts with a row whose position is smaller than that of the last
row of the page before. Here the pages are those that the rows, in the order of
their keys, fall into by the limits of the requests. -/
theorem primaryKeyCursor_exact_iff (table : KeyedTable)
    (maxWorkerCursorSize : Int32) (hmax : 1 ≤ maxWorkerCursorSize) (requests : Nat → PageRequest) :
    ReturnsEachRowOnce table maxWorkerCursorSize requests ↔ ∀ n, Resumes isSkippedBehind none
          (cut (pageOf maxWorkerCursorSize requests) n 0 table.rows) := by
  have hpos : 0 < maxWorkerCursorSize := by
    rw [Int32.lt_iff_toInt_lt]
    exact Int32.le_iff_toInt_le.1 hmax
  exact returnsEachRowOnce_iff_resumes hpos

def numberId (n : Int32) : Pgbson where
  fields := [([], .int32 n)]
  namesOk := rfl
  size_lt := by simp [encodeDoc, frame, encodeFields, encodeValue]

theorem comparePgbson_one_two : comparePgbson (numberId 1) (numberId 2) < 0 := by
  exact Int.negSucc_lt_zero 0

/-- Two rows with the ids 1 and 2, at different places of the first block. -/
def twoRows (first second : UInt16) (hne : second ≠ first) : KeyedTable where
  tableName := [97]
  rows := [shortRow first, shortRow second]
  columns tid := ⟨0, numberId (if tid.offsetNumber = first then 1 else 2)⟩
  ordered := by
    refine List.pairwise_pair.2 ?_
    show PrimaryKey.compare ⟨0, numberId (if first = first then 1 else 2)⟩
      ⟨0, numberId (if second = first then 1 else 2)⟩ < 0
    rw [if_pos rfl, if_neg hne]
    exact comparePgbson_one_two

/-- The second row is behind the first one in the table, but before it by its
position: the second page is empty, and so are all others. -/
theorem cursorPages_descending (n : Nat) :
    cursorPages (twoRows 2 1 (by decide)) 1 oneToAPage (n + 1) 0 none
      = some ([shortRow 2] :: List.replicate n []) := by
  have hmax : (0 : Int32) < 1 := by decide
  have hfirst : pageOf 1 oneToAPage 0 (twoRows 2 1 (by decide)).rows
      = [shortRow 2] := pageOf_oneToAPage hmax 0 _
  have hskipped : resume isSkippedBehind (some (shortRow 2)) [shortRow 1] = [] := by
    show [shortRow 1].dropWhile (isSkippedBehind (shortRow 2)) = []
    rfl
  rw [cursorPages_start hmax, readPages]
  exact congrArg (fun pages => some ([shortRow 2] :: pages))
    (readPages_eq_replicate (isPage_pageOf hmax) n 1 hskipped)

end Keyed

/-- Rows whose positions ascend with their ids are returned for all batch sizes. -/
theorem ascending_rows_are_returned : 0 < 1 ∧ ∀ requests, @ReturnsEachRowOnce BidLib.reference
    (@twoRows BidLib.reference 1 2 (by decide)) 1 requests :=
  ⟨by decide, (@forall_returnsEachRowOnce_iff BidLib.reference _ _ (by decide)).2
    (pairwise_pair.2 (by decide))⟩

/-- Two rows whose positions ascend with their ids, one to a page. -/
theorem rows_in_order_are_returned : @ReturnsEachRowOnce BidLib.reference
      (@twoRows BidLib.reference 1 2 (by decide)) 1 oneToAPage := by
  refine (@primaryKeyCursor_exact_iff BidLib.reference
    (@twoRows BidLib.reference 1 2 (by decide)) 1 (by decide)
    oneToAPage).2 fun n => ?_
  refine resumes_of_pairwise (isPage_pageOf (by decide)) ?_ n 0
  refine pairwise_pair.2 ?_
  decide

/-- The row with the id 1 is stored behind the one with the id 2. With one row
to a page, the second row is never returned. -/
theorem row_before_last_position_is_lost : (∀ n, @cursorPages BidLib.reference
        (@twoRows BidLib.reference 2 1 (by decide)) 1 oneToAPage (n + 1) 0 none
      = some ([shortRow 2] :: List.replicate n [])) ∧ ¬ @ReturnsEachRowOnce BidLib.reference
        (@twoRows BidLib.reference 2 1 (by decide)) 1 oneToAPage := by
  refine ⟨@cursorPages_descending BidLib.reference, fun hreturns => ?_⟩
  obtain ⟨n, hall⟩ := hreturns
  obtain ⟨pages, hpages, hperm⟩ := hall (n + 1) (Nat.le_succ n)
  rw [@cursorPages_descending BidLib.reference] at hpages
  cases hpages
  have hlength := hperm.length_eq
  rw [flatten_cons, flatten_replicate_nil] at hlength
  exact absurd hlength (by decide)

end DocumentDb
