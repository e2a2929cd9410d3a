/-
The scan of a worker from a continuation.

A worker skips the rows of its shard up to the position it finds, and returns rows until it
has as many as the limit says or as many bytes as the hint says. As the rows come in
ascending order of their positions, it starts with the first one that was not consumed
(`scanShard_eq`). All that the coordinator needs of its page: it is a prefix of the rows
that are left, not empty if there are any, and where it is not all of them a limit was
reached.
-/
import DocumentDb.Bson.Number
import DocumentDb.Commands.FileCursor
import DocumentDb.Cursor.Continuation

namespace DocumentDb

open List Option

-- ==== rows

/-- A row of a shard. No document is greater than insert and update allow. -/
structure ShardRow where
  tid : ItemPointer
  document : Pgbson
  size_le : document.size.toNat ≤ bsonMaxAllowedSize

/-- The size of the document of a row, as the scan tracks it. -/
def ShardRow.bsonSize (row : ShardRow) : Nat := row.document.size.toNat

/-- A shard with the rows that match a query, in the order they are scanned
in. -/
structure Shard where
  tableName : Bytes
  rows : List ShardRow
  ascending : rows.Pairwise fun a b => a.tid.compare b.tid < 0

-- ==== the continuation

/-- With the counters of its `ContinuationState`. -/
structure ExtensionScanState where
  batchCount : Nat := 0
  batchSizeHintBytes : Nat := 0
  contentTrackAttributeNumber : Int := 0
  userContinuationState : Option ItemPointer := none
  currentTupleCount : Nat := 0
  currentEnumeratedSize : Nat := 0

/-- The loop over the elements of the continuation: the entry of the own shard
is kept. -/
def parseEntries (queryTableName : Bytes) : List Value →
    ExtensionScanState → Option ExtensionScanState
  | [], s => some s
  | .document fs :: es, s => do
    let entry ← SingleContinuation.read fs {}
    if entry.tableName = some queryTableName then
      let tid ← entry.continuationBinaryValue.bind itemPointerOfValue
      parseEntries queryTableName es { s with userContinuationState := some tid }
    else parseEntries queryTableName es s
  | _ :: _, _ => none

/-- One field of `ParseContinuationState`. -/
def parseField (queryTableName key : Bytes) (value : Value)
    (s : ExtensionScanState) : Option ExtensionScanState :=
  if key = batchCountField then
    if value.isNumber = false ∨ 0 < s.batchCount then none
    else some { s with batchCount := (bsonValueAsInt64 value).toUInt64.toNat }
  else if key = batchSizeAttrField then
    if value.isNumber = false ∨ 0 < s.contentTrackAttributeNumber then none
    else some { s with
      contentTrackAttributeNumber := (bsonValueAsInt32 value).toInt16.toInt }
  else if key = batchSizeHintField then
    if value.isNumber = false ∨ 0 < s.batchSizeHintBytes then none
    else some { s with
      batchSizeHintBytes := (bsonValueAsInt32 value).toInt64.toUInt64.toNat }
  else if key = continuationField then
    value.elements?.bind fun es => parseEntries queryTableName es s
  else none

def parseContinuationState (queryTableName : Bytes) : Fields →
    ExtensionScanState → Option ExtensionScanState
  | [], s => some s
  | (key, value) :: fs, s => do
    let s ← parseField queryTableName key value s
    parseContinuationState queryTableName fs s

/-- `ExtensionScanCreateCustomScanState`; the rows are projected to the document
and the continuation. -/
def extensionScanCreateCustomScanState (queryTableName : Bytes)
    (continuation : Fields) : Option ExtensionScanState := do
  let s ← parseContinuationState queryTableName continuation {}
  if xor (decide (0 < s.batchSizeHintBytes)) (decide (0 < s.contentTrackAttributeNumber)) then none
  else if 2 < s.contentTrackAttributeNumber then none
  else some s

-- ==== the scan

/-- A row behind the continuation, whether the scan stopped at the continuation, and the
rows that are left to scan. -/
def skipWithUserContinuation (userContinuationState : ItemPointer) :
    List ShardRow → Option ShardRow × Bool × List ShardRow
  | [] => (none, false, [])
  | row :: rows =>
    if row.tid.compare userContinuationState = 0 then (none, true, rows)
    else if 0 < row.tid.compare userContinuationState then
      (some row, false, rows)
    else skipWithUserContinuation userContinuationState rows

variable (s : ExtensionScanState)

def ExtensionScanState.postProcessSlot : ExtensionScanState :=
  { s with currentTupleCount := s.currentTupleCount + 1 }

/-- `ExtensionScanNext` behind the continuation. -/
def ExtensionScanState.fetch : List ShardRow → Option ShardRow × ExtensionScanState × List ShardRow
  | [] => (none, s, [])
  | row :: rows =>
    -- the row is dropped if the page is full
    if 0 < s.batchCount ∧ s.batchCount ≤ s.currentTupleCount then
      (none, s, rows)
    else if 0 < s.batchSizeHintBytes
        ∧ s.batchSizeHintBytes ≤ s.currentEnumeratedSize then (none, s, rows)
    else (some row, s.postProcessSlot, rows)

def extensionScanNext (rows : List ShardRow) :
    Option ShardRow × ExtensionScanState × List ShardRow :=
  match s.userContinuationState with
  | none => s.fetch rows
  | some tid =>
    let s := { s with userContinuationState := none }
    match skipWithUserContinuation tid rows with
    | (some row, _, rows) => (some row, s.postProcessSlot, rows)
    | (none, false, rows) => (none, s, rows)
    | (none, true, rows) => s.fetch rows

/-- The size of a row that is returned counts where sizes are tracked. -/
def ExtensionScanState.trackSize (row : ShardRow) (s : ExtensionScanState) : ExtensionScanState :=
  if 0 < s.contentTrackAttributeNumber then
    { s with currentEnumeratedSize := s.currentEnumeratedSize + row.bsonSize }
  else s

/-- Until there is no row; the fuel bounds the number of rows. -/
def extensionScanExecCustomScan : Nat → ExtensionScanState → List ShardRow → List ShardRow
  | 0, _, _ => []
  | fuel + 1, s, rows =>
    match extensionScanNext s rows with
    | (none, _, _) => []
    | (some row, s, rows) =>
      row :: extensionScanExecCustomScan fuel (s.trackSize row) rows

def scanShard (continuation : Fields) (shard : Shard) : Option (List ShardRow) := do
  let s ← extensionScanCreateCustomScanState shard.tableName continuation
  return extensionScanExecCustomScan (shard.rows.length + 1) s shard.rows

-- ==== the page

/-- The rows of a page with given limits, from a state of the counters on. -/
def scanPage (batchCount hint : Nat) : (count size : Nat) → List ShardRow → List ShardRow
  | _, _, [] => []
  | count, size, row :: rows =>
    if batchCount ≤ count ∨ hint ≤ size then []
    else row :: scanPage batchCount hint (count + 1) (size + row.bsonSize) rows

def totalSize (rows : List ShardRow) : Nat := (rows.map ShardRow.bsonSize).sum

theorem totalSize_cons (row : ShardRow) (rows : List ShardRow) :
    totalSize (row :: rows) = row.bsonSize + totalSize rows := rfl

section Page

variable {batchCount hint : Nat}

theorem scanPage_spec (count size : Nat) (rows : List ShardRow) :
    ∃ rest, rows = scanPage batchCount hint count size rows ++ rest
      ∧ (rest ≠ [] → batchCount ≤ count + (scanPage batchCount hint count size rows).length
        ∨ hint ≤ size + totalSize (scanPage batchCount hint count size rows)) := by
  induction rows generalizing count size with
  | nil => exact ⟨[], rfl, fun h => absurd rfl h⟩
  | cons row rows ih =>
    rw [scanPage]
    by_cases hfull : batchCount ≤ count ∨ hint ≤ size
    · rw [if_pos hfull]
      exact ⟨row :: rows, rfl, fun _ => hfull⟩
    · rw [if_neg hfull]
      obtain ⟨rest, hrows, hlimit⟩ := ih (count + 1) (size + row.bsonSize)
      refine ⟨rest, ?_, ?_⟩
      · rw [cons_append, ← hrows]
      · intro hrest
        rw [length_cons, totalSize_cons]
        refine (hlimit hrest).imp ?_ ?_
        · intro h
          omega
        · intro h
          omega

theorem scanPage_ne_nil (hcount : 0 < batchCount) (hhint : 0 < hint)
    {rows : List ShardRow} (h : rows ≠ []) : scanPage batchCount hint 0 0 rows ≠ [] := by
  cases rows with
  | nil => exact absurd rfl h
  | cons row rows =>
    rw [scanPage, if_neg (by omega)]
    exact cons_ne_nil _ _

theorem extensionScanExecCustomScan_eq {fuel : Nat} {s : ExtensionScanState} {rows : List ShardRow}
    (hfuel : rows.length < fuel) (hcontinuation : s.userContinuationState = none)
    (hcount : 0 < s.batchCount) (hhint : 0 < s.batchSizeHintBytes)
    (hattr : 0 < s.contentTrackAttributeNumber) : extensionScanExecCustomScan fuel s rows
      = scanPage s.batchCount s.batchSizeHintBytes s.currentTupleCount
          s.currentEnumeratedSize rows := by
  induction rows generalizing fuel s with
  | nil =>
    cases fuel with
    | zero => rfl
    | succ fuel =>
      rw [extensionScanExecCustomScan, extensionScanNext, hcontinuation]
      rfl
  | cons row rows ih =>
    cases fuel with
    | zero => exact absurd hfuel (Nat.not_lt_zero _)
    | succ fuel =>
      rw [extensionScanExecCustomScan, extensionScanNext, hcontinuation]
      simp only [ExtensionScanState.fetch, scanPage]
      by_cases hfull : s.batchCount ≤ s.currentTupleCount
      · rw [if_pos ⟨hcount, hfull⟩, if_pos (Or.inl hfull)]
      by_cases hsize : s.batchSizeHintBytes ≤ s.currentEnumeratedSize
      · rw [if_neg (fun h => hfull h.2), if_pos ⟨hhint, hsize⟩, if_pos (Or.inr hsize)]
      · rw [if_neg (fun h => hfull h.2), if_neg (fun h => hsize h.2),
          if_neg (fun h => h.elim hfull hsize)]
        have htrack : s.postProcessSlot.trackSize row = { s with
            currentTupleCount := s.currentTupleCount + 1
            currentEnumeratedSize := s.currentEnumeratedSize + row.bsonSize } := if_pos hattr
        simp only [htrack]
        exact congrArg (row :: ·) (ih (Nat.lt_of_succ_lt_succ hfuel)
          hcontinuation hcount hhint hattr)

end Page

-- ==== skipping

variable {done left : List ShardRow} {entries : List (Bytes × ItemPointer)}
  {maxSize limit : Int32}

theorem skipWithUserContinuation_eq {last : ShardRow}
    (hascending : (done ++ left).Pairwise fun a b => a.tid.compare b.tid < 0)
    (hlast : done.getLast? = some last) :
    skipWithUserContinuation last.tid (done ++ left) = (none, true, left) := by
  induction done with
  | nil => cases hlast
  | cons row done ih =>
    rw [cons_append, pairwise_cons] at hascending
    rw [cons_append, skipWithUserContinuation]
    cases done with
    | nil =>
      obtain rfl : row = last := some.inj hlast
      rw [if_pos (ItemPointer.compare_self _)]
      rfl
    | cons row' done =>
      have hmem : last ∈ row' :: done ++ left := mem_append_left _ (mem_of_getLast? hlast)
      have hlt := hascending.1 last hmem
      rw [if_neg (by omega), if_neg (by omega)]
      exact ih hascending.2 hlast

-- ==== the whole scan

theorem toNat_of_nonneg {n : Int32} (h : 0 ≤ n) : n.toInt64.toUInt64.toNat = n.toInt.toNat := by
  have hwide : 0 ≤ n.toInt64 := by
    rw [Int64.le_iff_toInt_le, Int32.toInt_toInt64]
    exact Int32.le_iff_toInt_le.1 h
  rw [Int64.toNat_toUInt64_of_le hwide, Int64.toNatClampNeg, Int32.toInt_toInt64]

theorem parseEntries_serialize (table : Bytes) (entries : List (Bytes × ItemPointer))
    (hnodup : (entries.map Prod.fst).Nodup) (s : ExtensionScanState) :
    parseEntries table (entries.map fun entry =>
        .document (cursorStateFields entry.1 entry.2)) s
      = some { s with userContinuationState :=
          (Assoc.get table entries).or s.userContinuationState } := by
  induction entries generalizing s with
  | nil => rfl
  | cons entry entries ih =>
    obtain ⟨tableName, tid⟩ := entry
    rw [map_cons, nodup_cons] at hnodup
    have hvalue : itemPointerOfValue (.binary 0 tid.toBytes) = some tid :=
      ItemPointer.ofBytes?_toBytes tid
    rw [map_cons, parseEntries, SingleContinuation.read_cursorStateFields, Assoc.get_cons]
    by_cases hname : tableName = table
    · have hnone : Assoc.get table entries = none :=
        Assoc.get_eq_none_iff.2 (hname ▸ hnodup.1)
      simp only [bind_eq_bind, bind_some, hname, if_true, hvalue, ih hnodup.2, hnone]
      rfl
    · simp only [bind_eq_bind, bind_some, some.injEq, hname, if_false, ih hnodup.2]

/-- The state that a worker starts with: the limits and where to go on. -/
def ExtensionScanState.forPage (batchSize maxSize : Int32)
    (tid : Option ItemPointer) : ExtensionScanState where
  batchCount := (workerBatchCount batchSize).toInt64.toUInt64.toNat
  batchSizeHintBytes := maxSize.toInt64.toUInt64.toNat
  contentTrackAttributeNumber := 1
  userContinuationState := tid

theorem extensionScanCreateCustomScanState_eq (table : Bytes)
    (hnodup : (entries.map Prod.fst).Nodup) (limit : Int32)
    (hmax : 0 < maxSize.toInt64.toUInt64.toNat) :
    extensionScanCreateCustomScanState table (serializeContinuationForWorker entries limit maxSize)
      = some (.forPage limit maxSize (Assoc.get table entries)) := by
  have hentries : parseField table continuationField (serializeContinuations entries) {}
      = some (ExtensionScanState.mk 0 0 0 (Assoc.get table entries) 0 0) := by
    have h := parseEntries_serialize table entries hnodup {}
    rw [or_none] at h
    exact h
  have hparse : parseContinuationState table
      (serializeContinuationForWorker entries limit maxSize) {}
      = some (.forPage limit maxSize (Assoc.get table entries)) := by
    rw [serializeContinuationForWorker, parseContinuationState, hentries]
    rfl
  have htracked : xor (decide (0 < maxSize.toInt64.toUInt64.toNat))
      (decide ((0 : Int) < 1)) = false := by
    rw [decide_eq_true hmax]
    rfl
  rw [extensionScanCreateCustomScanState, hparse]
  show (if xor (decide (0 < maxSize.toInt64.toUInt64.toNat))
    (decide ((0 : Int) < 1)) then none else _) = _
  rw [htracked]
  rfl

theorem extensionScanExecCustomScan_skip {fuel : Nat} {tid : ItemPointer} {rows : List ShardRow}
    (hskip : skipWithUserContinuation tid rows = (none, true, left)) :
    extensionScanExecCustomScan (fuel + 1) (.forPage limit maxSize (some tid)) rows
      = extensionScanExecCustomScan (fuel + 1) (.forPage limit maxSize none) left := by
  have hnext : extensionScanNext (.forPage limit maxSize (some tid)) rows
      = extensionScanNext (.forPage limit maxSize none) left := by
    simp only [extensionScanNext, ExtensionScanState.forPage, hskip]
  rw [extensionScanExecCustomScan, hnext, extensionScanExecCustomScan]

theorem scanShard_eq (shard : Shard) (hrows : shard.rows = done ++ left)
    (hnodup : (entries.map Prod.fst).Nodup)
    (hget : Assoc.get shard.tableName entries = done.getLast?.map ShardRow.tid)
    (hbatch : 0 < limit) (hmax : 0 < maxSize) :
    scanShard (serializeContinuationForWorker entries limit maxSize) shard
      = some (scanPage (workerBatchCount limit).toInt.toNat maxSize.toInt.toNat 0 0 left) := by
  have hcountNat := toNat_of_nonneg (Int32.le_of_lt (workerBatchCount_pos hbatch))
  have hmaxNat := toNat_of_nonneg (Int32.le_of_lt hmax)
  have hcount : 0 < (workerBatchCount limit).toInt64.toUInt64.toNat := by
    have hpos : 0 < (workerBatchCount limit).toInt :=
      Int32.lt_iff_toInt_lt.1 (workerBatchCount_pos hbatch)
    omega
  have hhint : 0 < maxSize.toInt64.toUInt64.toNat := by
    have hpos : 0 < maxSize.toInt := Int32.lt_iff_toInt_lt.1 hmax
    omega
  have hpage {fuel : Nat} (hfuel : left.length < fuel) :
      extensionScanExecCustomScan fuel (.forPage limit maxSize none) left
        = scanPage (workerBatchCount limit).toInt.toNat maxSize.toInt.toNat 0 0 left := by
    rw [← hcountNat, ← hmaxNat]
    exact extensionScanExecCustomScan_eq hfuel rfl hcount hhint Int.one_pos
  rw [scanShard, extensionScanCreateCustomScanState_eq _ hnodup _ hhint, hget]
  show some (extensionScanExecCustomScan (shard.rows.length + 1) _ _) = _
  rw [hrows, length_append]
  cases hlast : done.getLast? with
  | none =>
    rw [getLast?_eq_none_iff.1 hlast, nil_append]
    exact congrArg some (hpage (by omega))
  | some last =>
    have hskip := skipWithUserContinuation_eq (hrows ▸ shard.ascending) hlast
    show some (extensionScanExecCustomScan _ (.forPage limit maxSize (some last.tid)) _) = _
    rw [extensionScanExecCustomScan_skip hskip]
    exact congrArg some (hpage (by omega))

end DocumentDb
