/-
Streaming cursors: the coordinator, and what the pages add up to.

A page is filled in rounds. All workers scan from the continuation, their rows arrive
interleaved, and the coordinator takes rows until the page is full; with every row the
position of its shard is set. A round in which all rows were taken and fewer bytes came than
one worker would return ends the cursor.

The log of the rows that were taken holds a prefix of every shard, and the map the position
of its last row (`Consumed`); a round appends a part of what arrived (`Arrives.consumed`). A
worker that stopped early has reached a limit, so the cursor does not end before all rows
are in the log (`done_of_completion`).
-/
import DocumentDb.Cursor.Scan
import DocumentDb.Lib.Except
import DocumentDb.Lib.Interleave

namespace DocumentDb

open Interleave List Option

-- ==== the rows

/-- A row as the coordinator fetches it: the document and the continuation. -/
structure PortalRow where
  documentValue : Option Pgbson
  continuation : Option Fields

/-- A row of a shard as its worker projects it, with the continuation of
`command_current_cursor_state`. -/
def portalRow (row : Bytes × ShardRow) : PortalRow where
  documentValue := some row.2.document
  continuation := some (cursorStateFields row.1 row.2.tid)

structure Cluster where
  shards : List Shard
  names_nodup : (shards.map Shard.tableName).Nodup

def Cluster.rows (cluster : Cluster) : List ShardRow := cluster.shards.flatMap Shard.rows

/-- How the rows of the workers arrive at the coordinator. -/
structure Gather where
  merge : List (Bytes × List ShardRow) → List (Bytes × ShardRow)
  interleaves : ∀ lists, (lists.map Prod.fst).Nodup → Interleaves lists (merge lists)

/-- The order in which `hash_seq_search` runs through a map. -/
structure HashSeq where
  entries : CursorMap → List (Bytes × ItemPointer)
  perm : ∀ cursorMap, (entries cursorMap).Perm cursorMap

-- ==== fetching rows

inductive TerminationReason where
  | cursorCompletion | batchSizeLimit | batchItemLimit
  deriving DecidableEq

/-- The page and the counters of `FetchCursorAndWriteUntilPageOrSize`. -/
structure FetchState where
  writer : List Pgbson
  accumulatedSize : UInt32
  cursorMap : CursorMap
  numRowsFetched : Nat
  currentAccumulatedSize : Nat

/-- The reason to stop, if there is one. There is no result when the document is too
large. -/
def processCursorResultRowDataAttribute (batchSize : Int32)
    (documentValue : Pgbson) (s : FetchState) : Option (Option TerminationReason × FetchState) :=
  let datumSize := documentValue.size
  if bsonMaxAllowedSize < datumSize.toNat then none
  else
    let currentAccumulatedSize := s.currentAccumulatedSize + datumSize.toNat
    let totalSize := s.accumulatedSize + datumSize + perDocOverhead
    -- at least one row is allowed per response
    if bsonMaxAllowedSize ≤ totalSize.toNat ∧ 0 < s.numRowsFetched then
      some (some .batchSizeLimit, { s with currentAccumulatedSize := currentAccumulatedSize })
    else if batchSize.toInt ≤ s.numRowsFetched then
      some (some .batchItemLimit, { s with currentAccumulatedSize := currentAccumulatedSize })
    else
      some (none, { s with
        writer := s.writer ++ [documentValue]
        accumulatedSize := s.accumulatedSize + (datumSize + perDocOverhead)
        numRowsFetched := s.numRowsFetched + 1
        currentAccumulatedSize := currentAccumulatedSize })

def processCursorResultRowContinuationAttribute (continuation : Option Fields)
    (s : FetchState) : Option FetchState :=
  match continuation with
  | none => some s
  | some fs => do
    let cursorMap ← updateCursorInContinuationMapCore fs s.cursorMap
    some { s with cursorMap := cursorMap }

/-- The loop of `FetchCursorAndWriteUntilPageOrSize`. -/
def fetchRows (batchSize : Int32) : List PortalRow → FetchState →
    Option (TerminationReason × FetchState)
  | [], s => some (.cursorCompletion, s)
  | row :: rows, s =>
    match row.documentValue with
    -- a row without data is passed over, its continuation too
    | none => fetchRows batchSize rows s
    | some documentValue => do
      match ← processCursorResultRowDataAttribute batchSize documentValue s with
      | (some reason, s) => some (reason, s)
      | (none, s) =>
        let s ← processCursorResultRowContinuationAttribute row.continuation s
        fetchRows batchSize rows s

def fetchCursorAndWriteUntilPageOrSize (batchSize : Int32)
    (rows : List PortalRow) (s : FetchState) : Option (TerminationReason × FetchState) :=
  if batchSize = 0 then some (.batchItemLimit, s)
  else fetchRows batchSize rows s

-- ==== a page

/-- The rows that arrive from the workers. -/
def planStreamingQuery (cluster : Cluster) (gather : Gather)
    (continuation : Fields) : Option (List PortalRow) := do
  let lists ← cluster.shards.mapM fun shard => do
    let rows ← scanShard continuation shard
    return (shard.tableName, rows)
  return (gather.merge lists).map portalRow

/-- A request for a page. In each round the rows may arrive in another way. -/
structure CursorRequest where
  batchSize : Int32
  accumulatedSize : UInt32
  gather : Nat → Gather

section Drain

variable (cluster : Cluster) (hashSeq : HashSeq) (maxWorkerCursorSize : Int32)

/-- The loop of `DrainStreamingQuery`: whether the query is fully drained, the
number of rounds and the page. The fuel bounds the rounds. -/
def drainStreamingQuery (request : CursorRequest) : Nat → Nat → FetchState →
    Option (Bool × Nat × FetchState)
  | 0, _, _ => none
  | fuel + 1, numIterations, s => do
    let continuation := serializeContinuationForWorker
      (hashSeq.entries s.cursorMap) request.batchSize maxWorkerCursorSize
    let rows ← planStreamingQuery cluster (request.gather numIterations) continuation
    let (reason, s) ← fetchCursorAndWriteUntilPageOrSize request.batchSize rows
      { s with currentAccumulatedSize := 0 }
    if reason = .cursorCompletion then
      if (s.currentAccumulatedSize : Int) < maxWorkerCursorSize.toInt then
        some (true, numIterations + 1, s)
      else drainStreamingQuery request fuel (numIterations + 1) s
    else some (false, numIterations + 1, s)

/-- The other fields of the document of a cursor: `qi`, `qp`, `qk` and `qc`,
and `sn`. -/
structure CursorInfo where
  cursorId : Int64
  queryKind : Int32
  querySpec : Fields
  nowValue : Option Value

def buildStreamingContinuationDocument (info : CursorInfo)
    (cursorMap : CursorMap) (numIterations : Nat) : Fields :=
  [([113, 105], .int64 info.cursorId), ([113, 112], .bool false),
      ([113, 107], .int32 info.queryKind),
      ([113, 99], .document info.querySpec)]
    ++ (continuationField, serializeContinuations (hashSeq.entries cursorMap))
      :: ([110, 117, 109, 73, 116, 101, 114, 115], .int32 (Int32.ofNat numIterations))
      :: (info.nowValue.map fun v => ([115, 110], v)).toList

/-- The pages of a cursor from a map on, until it is drained. Every request gets
its map from the document of the page before. The fuel bounds the pages, and
the rounds of each. -/
def streamingPages (info : CursorInfo) (requests : Nat → CursorRequest) :
    Nat → Nat → CursorMap → Option (List (List Pgbson))
  | 0, _, _ => none
  | fuel + 1, i, cursorMap => do
    let (queryFullyDrained, numIterations, s) ← drainStreamingQuery cluster
      hashSeq maxWorkerCursorSize (requests i) (fuel + 1) 0
      ⟨[], (requests i).accumulatedSize, cursorMap, 0, 0⟩
    if queryFullyDrained then some [s.writer]
    else
      let cursorMap ← buildContinuationMap
        (buildStreamingContinuationDocument hashSeq info s.cursorMap numIterations) []
      let pages ← streamingPages info requests fuel (i + 1) cursorMap
      some (s.writer :: pages)

end Drain

-- ==== one fetch

def advance (cursorMap : CursorMap) (taken : List (Bytes × ShardRow)) : CursorMap :=
  taken.foldl (fun m row => Assoc.set row.1 row.2.tid m) cursorMap

/-- The state after some rows were taken; the size counts what was fetched. -/
structure Took (batchSize : Int32) (taken : List (Bytes × ShardRow))
    (s s' : FetchState) : Prop where
  writer : s'.writer = s.writer ++ taken.map fun row => row.2.document
  cursorMap : s'.cursorMap = advance s.cursorMap taken
  numRows : s'.numRowsFetched = s.numRowsFetched + taken.length
  limit : (s.numRowsFetched : Int) ≤ batchSize.toInt → (s'.numRowsFetched : Int) ≤ batchSize.toInt

variable {limit : Int32} {cursorMap : CursorMap} {cluster : Cluster}
  {log : List (Bytes × ShardRow)}

theorem Took.nil {s s' : FetchState}
    (hwriter : s'.writer = s.writer) (hmap : s'.cursorMap = s.cursorMap)
    (hrows : s'.numRowsFetched = s.numRowsFetched) : Took limit [] s s' where
  writer := by
    rw [hwriter]
    exact (append_nil _).symm
  cursorMap := hmap
  numRows := hrows
  limit h := hrows ▸ h

variable {taken : List (Bytes × ShardRow)}

theorem Took.cons {row : Bytes × ShardRow} {s s₁ s' : FetchState}
    (hwriter : s₁.writer = s.writer ++ [row.2.document])
    (hmap : s₁.cursorMap = Assoc.set row.1 row.2.tid s.cursorMap)
    (hrows : s₁.numRowsFetched = s.numRowsFetched + 1)
    (hlimit : (s.numRowsFetched : Int) < limit.toInt)
    (h : Took limit taken s₁ s') : Took limit (row :: taken) s s' where
  writer := by
    rw [h.writer, hwriter, append_assoc]
    rfl
  cursorMap := by
    rw [h.cursorMap, hmap]
    rfl
  numRows := by
    rw [h.numRows, hrows, length_cons]
    omega
  limit _ := h.limit (by rw [hrows]; omega)

theorem processRow_cases (hbatch : 0 < limit.toInt) (row : ShardRow) (s : FetchState) :
    (∃ reason s', processCursorResultRowDataAttribute limit row.document s = some (some reason, s')
      ∧ reason ≠ .cursorCompletion ∧ 0 < s'.numRowsFetched
      ∧ Took limit [] s s')
    ∨ processCursorResultRowDataAttribute limit row.document s = some (none, { s with
          writer := s.writer ++ [row.document]
          accumulatedSize := s.accumulatedSize + (row.document.size + perDocOverhead)
          numRowsFetched := s.numRowsFetched + 1
          currentAccumulatedSize := s.currentAccumulatedSize + row.bsonSize })
      ∧ (s.numRowsFetched : Int) < limit.toInt := by
  unfold processCursorResultRowDataAttribute
  rw [if_neg (Nat.not_lt.2 row.size_le)]
  by_cases hfull : bsonMaxAllowedSize
      ≤ (s.accumulatedSize + row.document.size + perDocOverhead).toNat ∧ 0 < s.numRowsFetched
  · rw [if_pos hfull]
    exact Or.inl ⟨_, _, rfl, nofun, hfull.2, .nil rfl rfl rfl⟩
  by_cases hitems : limit.toInt ≤ s.numRowsFetched
  · rw [if_neg hfull, if_pos hitems]
    refine Or.inl ⟨_, _, rfl, nofun, ?_, .nil rfl rfl rfl⟩
    show 0 < s.numRowsFetched
    omega
  · rw [if_neg hfull, if_neg hitems]
    exact Or.inr ⟨rfl, by omega⟩

/-- The coordinator takes the rows up to the first one for which the page is
full, and there is one such row unless it takes all. The first row of a page is
always taken. -/
theorem fetchRows_spec (hbatch : 0 < limit) (arrived : List (Bytes × ShardRow)) (s : FetchState) :
    ∃ taken rest reason s', fetchRows limit (arrived.map portalRow) s = some (reason, s')
      ∧ arrived = taken ++ rest
      ∧ Took limit taken s s'
      ∧ (reason = .cursorCompletion → rest = []
        ∧ s'.currentAccumulatedSize = s.currentAccumulatedSize + totalSize (taken.map Prod.snd))
      ∧ (reason ≠ .cursorCompletion → rest ≠ [] ∧ 0 < s'.numRowsFetched) := by
  have hpos : 0 < limit.toInt := Int32.lt_iff_toInt_lt.1 hbatch
  induction arrived generalizing s with
  | nil =>
    refine ⟨[], [], .cursorCompletion, s, rfl, rfl, .nil rfl rfl rfl, ?_, ?_⟩
    · exact fun _ => ⟨rfl, rfl⟩
    · exact fun h => absurd rfl h
  | cons row arrived ih =>
    show ∃ taken rest reason s', (processCursorResultRowDataAttribute
      limit row.2.document s).bind _ = _ ∧ _
    rcases processRow_cases hpos row.2 s with
      ⟨reason, s', hstop, hreason, hrows, htook⟩ | ⟨hgo, hlimit⟩
    · rw [hstop]
      refine ⟨[], row :: arrived, reason, s', rfl, rfl, htook, ?_, ?_⟩
      · exact fun h => absurd h hreason
      · exact fun _ => ⟨cons_ne_nil _ _, hrows⟩
    · have hcontinue := updateCursorInContinuationMapCore_cursorStateFields
        row.1 row.2.tid s.cursorMap
      obtain ⟨taken, rest, reason, s', hfetch, rfl, htook, hall, hsome⟩ := ih
        ⟨s.writer ++ [row.2.document], s.accumulatedSize + (row.2.document.size + perDocOverhead),
          Assoc.set row.1 row.2.tid s.cursorMap, s.numRowsFetched + 1,
          s.currentAccumulatedSize + row.2.bsonSize⟩
      refine ⟨row :: taken, rest, reason, s', ?_, rfl, htook.cons rfl rfl rfl hlimit, ?_, hsome⟩
      · rw [hgo]
        simp only [bind_some, portalRow, processCursorResultRowContinuationAttribute,
          hcontinue, bind_eq_bind]
        exact hfetch
      · intro hreason
        obtain ⟨hrest, hsize⟩ := hall hreason
        refine ⟨hrest, ?_⟩
        rw [hsize, map_cons, totalSize_cons, Nat.add_assoc]

-- ==== the log

theorem get_advance (name : Bytes) (cursors : CursorMap) (taken : List (Bytes × ShardRow)) :
    Assoc.get name (advance cursors taken)
      = ((proj name taken).getLast?.map ShardRow.tid).or (Assoc.get name cursors) := by
  induction taken generalizing cursors with
  | nil => rfl
  | cons row taken ih =>
    obtain ⟨name', row⟩ := row
    show Assoc.get name (advance (Assoc.set name' row.tid cursors) taken) = _
    rw [ih, proj_cons]
    by_cases hname : name' = name
    · rw [if_pos hname, hname, Assoc.get_set_self, getLast?_cons]
      cases (proj name taken).getLast? <;> rfl
    · rw [if_neg hname, Assoc.get_set_ne (Ne.symm hname)]

theorem nodup_advance (h : (cursorMap.map Prod.fst).Nodup) (taken : List (Bytes × ShardRow)) :
    ((advance cursorMap taken).map Prod.fst).Nodup := by
  induction taken generalizing cursorMap with
  | nil => exact h
  | cons row taken ih => exact ih (Assoc.nodup_set h)

def leftRows (log : List (Bytes × ShardRow)) (shard : Shard) : List ShardRow :=
  shard.rows.drop (proj shard.tableName log).length

/-- The log of the rows that were taken holds a prefix of the rows of every
shard, and the map the position of the last of them. -/
structure Consumed (cluster : Cluster) (log : List (Bytes × ShardRow))
    (cursorMap : CursorMap) : Prop where
  nodup : (cursorMap.map Prod.fst).Nodup
  names : ∀ row ∈ log, row.1 ∈ cluster.shards.map Shard.tableName
  rows : ∀ shard ∈ cluster.shards, shard.rows = proj shard.tableName log ++ leftRows log shard
  tids : ∀ shard ∈ cluster.shards, Assoc.get shard.tableName cursorMap
    = (proj shard.tableName log).getLast?.map ShardRow.tid

theorem Consumed.nil (cluster : Cluster) : Consumed cluster [] [] where
  nodup := nodup_nil
  names := nofun
  rows _ _ := rfl
  tids _ _ := rfl

section Consumed

variable (h : Consumed cluster log cursorMap)

include h

theorem Consumed.of_get {cursors' : CursorMap} (hnodup : (cursors'.map Prod.fst).Nodup)
    (hget : ∀ name, Assoc.get name cursors' = Assoc.get name cursorMap) :
    Consumed cluster log cursors' where
  nodup := hnodup
  names := h.names
  rows := h.rows
  tids shard hshard := by rw [hget, h.tids shard hshard]

theorem Consumed.advance (hnames : ∀ row ∈ taken, row.1 ∈ cluster.shards.map Shard.tableName)
    (htaken : ∀ shard ∈ cluster.shards, proj shard.tableName taken <+: leftRows log shard) :
    Consumed cluster (log ++ taken) (advance cursorMap taken) where
  nodup := nodup_advance h.nodup taken
  names row hrow := (mem_append.1 hrow).elim (h.names row) (hnames row)
  rows shard hshard := by
    obtain ⟨rest, hrest⟩ := htaken shard hshard
    have hrows : shard.rows = proj shard.tableName (log ++ taken) ++ rest := by
      rw [proj_append, append_assoc, hrest]
      exact h.rows shard hshard
    have hleft : leftRows (log ++ taken) shard = rest := by
      rw [leftRows, hrows, drop_left]
    rw [hleft]
    exact hrows
  tids shard hshard := by
    rw [get_advance, h.tids shard hshard, proj_append, getLast?_append]
    cases (proj shard.tableName taken).getLast? <;> rfl

theorem Consumed.length_le : log.length ≤ cluster.rows.length := by
  have hperm := perm_flatMap_proj cluster.names_nodup h.names
  rw [← length_map Prod.snd, ← hperm.length_eq, flatMap_map,
    Cluster.rows, length_flatMap, length_flatMap]
  apply sum_le_sum
  intro shard hshard
  rw [h.rows shard hshard, length_append]
  omega

theorem Consumed.perm (hdone : ∀ shard ∈ cluster.shards, leftRows log shard = []) :
    (log.map Prod.snd).Perm cluster.rows := by
  have hperm := perm_flatMap_proj cluster.names_nodup h.names
  rw [flatMap_map] at hperm
  refine hperm.symm.trans (.of_eq ?_)
  refine flatMap_congr fun shard hshard => ?_
  have hrows := h.rows shard hshard
  rw [hdone shard hshard, append_nil] at hrows
  exact hrows.symm

end Consumed

-- ==== a round

theorem one_le_bsonSize (row : ShardRow) : 1 ≤ row.bsonSize := by
  have hlen : 5 ≤ row.document.data.length := by
    rw [Pgbson.data, encodeDoc, length_frame]
    omega
  have hlt := row.document.size_lt
  unfold ShardRow.bsonSize Pgbson.size
  rw [UInt32.toNat_ofNat']
  have hdata : row.document.data.length < 2 ^ 31 := hlt
  omega

theorem length_le_totalSize (rows : List ShardRow) : rows.length ≤ totalSize rows := by
  induction rows with
  | nil => exact Nat.le_refl 0
  | cons row rows ih =>
    have hone := one_le_bsonSize row
    rw [length_cons, totalSize_cons]
    omega

theorem totalSize_le_of_sublist {rows rows' : List ShardRow}
    (h : rows.Sublist rows') : totalSize rows ≤ totalSize rows' := by
  induction h with
  | slnil => exact Nat.le_refl _
  | cons row _ ih =>
    rw [totalSize_cons]
    omega
  | cons_cons row _ ih =>
    rw [totalSize_cons, totalSize_cons]
    omega

/-- The page that a worker returns of the rows that are left. -/
def workerPage (batchSize maxSize : Int32) (left : List ShardRow) : List ShardRow :=
  scanPage (workerBatchCount batchSize).toInt.toNat maxSize.toInt.toNat 0 0 left

section Round

variable {cluster : Cluster} {limit maxSize : Int32} (hbatch : 0 < limit) (hmax : 0 < maxSize)
  {log arrived : List (Bytes × ShardRow)} {cursorMap : CursorMap}

/-- What arrives from the workers in a round: of every shard a page of the rows
that are left. -/
structure Arrives (cluster : Cluster) (batchSize maxSize : Int32)
    (log arrived : List (Bytes × ShardRow)) : Prop where
  names : ∀ row ∈ arrived, row.1 ∈ cluster.shards.map Shard.tableName
  page : ∀ shard ∈ cluster.shards, proj shard.tableName arrived
    = workerPage batchSize maxSize (leftRows log shard)

include hbatch hmax in
theorem planStreamingQuery_spec (h : Consumed cluster log cursorMap)
    (hashSeq : HashSeq) (gather : Gather) : ∃ arrived, planStreamingQuery cluster gather
        (serializeContinuationForWorker (hashSeq.entries cursorMap) limit
          maxSize) = some (arrived.map portalRow)
      ∧ Arrives cluster limit maxSize log arrived := by
  have hperm := hashSeq.perm cursorMap
  have hnodup : ((hashSeq.entries cursorMap).map Prod.fst).Nodup :=
    (hperm.map Prod.fst).nodup_iff.2 h.nodup
  let page (shard : Shard) : Bytes × List ShardRow :=
    (shard.tableName, workerPage limit maxSize (leftRows log shard))
  have hlists : (cluster.shards.mapM fun shard => do
      let rows ← scanShard (serializeContinuationForWorker
        (hashSeq.entries cursorMap) limit maxSize) shard
      return (shard.tableName, rows)) = some (cluster.shards.map page) := by
    rw [mapM_eq_some_iff, List.map_map]
    refine map_congr_left fun shard hshard => ?_
    have hget := h.tids shard hshard
    rw [← Assoc.get_perm hperm hnodup] at hget
    rw [scanShard_eq shard (h.rows shard hshard) hnodup hget hbatch hmax]
    rfl
  have hmap : (cluster.shards.map page).map Prod.fst
      = cluster.shards.map Shard.tableName := List.map_map
  have hinter := gather.interleaves (cluster.shards.map page) (hmap ▸ cluster.names_nodup)
  refine ⟨gather.merge (cluster.shards.map page), ?_, ?_, ?_⟩
  · rw [planStreamingQuery, hlists]
    rfl
  · rw [← hmap]
    exact hinter.mem_names
  · intro shard hshard
    exact hinter.proj_eq (page shard) (List.mem_map_of_mem hshard)

theorem workerPage_spec (limit maxSize : Int32) (left : List ShardRow) :
    ∃ rest, left = workerPage limit maxSize left ++ rest
      ∧ (rest ≠ [] → (workerBatchCount limit).toInt.toNat ≤ (workerPage limit maxSize left).length
        ∨ maxSize.toInt.toNat ≤ totalSize (workerPage limit maxSize left)) := by
  have hspec := @scanPage_spec (workerBatchCount limit).toInt.toNat maxSize.toInt.toNat 0 0 left
  rw [Nat.zero_add, Nat.zero_add] at hspec
  exact hspec

section Taken

variable {rest taken : List (Bytes × ShardRow)} (h : Consumed cluster log cursorMap)
  (harrives : Arrives cluster limit maxSize log (taken ++ rest))

include h harrives

theorem Arrives.consumed : Consumed cluster (log ++ taken) (advance cursorMap taken) := by
  refine h.advance ?_ ?_
  · intro row hrow
    exact harrives.names row (mem_append_left _ hrow)
  · intro shard hshard
    obtain ⟨unread, hleft, -⟩ := workerPage_spec limit maxSize (leftRows log shard)
    rw [← harrives.page shard hshard, proj_append] at hleft
    exact ⟨proj shard.tableName rest ++ unread, by rw [← append_assoc]; exact hleft.symm⟩

theorem Arrives.leftRows_eq {shard : Shard} (hshard : shard ∈ cluster.shards) :
    leftRows log shard = proj shard.tableName taken ++ leftRows (log ++ taken) shard := by
  have hrows := h.rows shard hshard
  have hrows' := (Arrives.consumed h harrives).rows shard hshard
  rw [proj_append, append_assoc] at hrows'
  exact append_cancel_left (hrows.symm.trans hrows')

theorem Arrives.rest_eq_nil
    (hdone : ∀ shard ∈ cluster.shards, leftRows (log ++ taken) shard = []) : rest = [] := by
  cases rest with
  | nil => rfl
  | cons row rest =>
    have hname := harrives.names row (mem_append_right _ mem_cons_self)
    obtain ⟨shard, hshard, heq⟩ := List.mem_map.1 hname
    obtain ⟨unread, hleft, -⟩ := workerPage_spec limit maxSize (leftRows log shard)
    rw [← harrives.page shard hshard, proj_append, Arrives.leftRows_eq h harrives hshard,
      hdone shard hshard, heq, proj_cons, if_pos rfl] at hleft
    have hlen := congrArg length hleft
    simp only [length_append, length_cons, length_nil] at hlen
    omega

end Taken

include hbatch in
/-- When all rows that arrived were taken and they have fewer bytes than one
worker may return, no row is left: a worker that stopped early has returned that
many bytes, or more rows than fit on the page. -/
theorem done_of_completion (h : Consumed cluster log cursorMap)
    (harrives : Arrives cluster limit maxSize log arrived)
    (hsize : (totalSize (arrived.map Prod.snd) : Int) < maxSize.toInt)
    (hcount : (arrived.length : Int) ≤ limit.toInt) {shard : Shard}
    (hshard : shard ∈ cluster.shards) : leftRows (log ++ arrived) shard = [] := by
  have harrives' : Arrives cluster limit maxSize log (arrived ++ []) := by
    rw [append_nil]
    exact harrives
  have hpage := harrives.page shard hshard
  obtain ⟨rest, hleft, hlimit⟩ := workerPage_spec limit maxSize (leftRows log shard)
  rw [← hpage] at hleft hlimit
  have hrest : rest = leftRows (log ++ arrived) shard :=
    append_cancel_left (hleft.symm.trans (Arrives.leftRows_eq h harrives' hshard))
  rw [← hrest]
  by_contra hne
  have hsub := proj_sublist shard.tableName arrived
  have hbytes := totalSize_le_of_sublist hsub
  have hlen := hsub.length_le
  rw [length_map] at hlen
  have hmany := length_le_totalSize (proj shard.tableName arrived)
  have hspec := workerBatchCount_spec hbatch
  have hmaxlt := maxSize.toInt_lt
  rcases hlimit hne with hfull | hfull
  · omega
  · omega

end Round

-- ==== pages

/-- What a request did: it took some rows, and it is drained exactly if no row
is left; otherwise the page is not empty. -/
structure PageSpec (cluster : Cluster) (log taken : List (Bytes × ShardRow))
    (s s' : FetchState) (drained : Bool) : Prop where
  consumed : Consumed cluster (log ++ taken) s'.cursorMap
  writer : s'.writer = s.writer ++ taken.map fun row => row.2.document
  drained_iff : drained = true ↔ ∀ shard ∈ cluster.shards, leftRows (log ++ taken) shard = []
  numRows : s'.numRowsFetched = s.numRowsFetched + taken.length
  progress : drained = false → 0 < s'.numRowsFetched

section Pages

variable {cluster : Cluster} {hashSeq : HashSeq} {maxSize : Int32} (hmax : 0 < maxSize)

include hmax in
theorem drainStreamingQuery_spec {request : CursorRequest}
    (hbatch : 0 < request.batchSize) {fuel numIterations : Nat}
    {s : FetchState} {log : List (Bytes × ShardRow)} (h : Consumed cluster log s.cursorMap)
    (hrows : (s.numRowsFetched : Int) ≤ request.batchSize.toInt)
    (hfuel : cluster.rows.length < fuel + log.length) : ∃ drained rounds s' taken,
      drainStreamingQuery cluster hashSeq maxSize request fuel numIterations s
        = some (drained, rounds, s')
      ∧ PageSpec cluster log taken s s' drained := by
  induction fuel generalizing numIterations s log with
  | zero =>
    have hlen := h.length_le
    omega
  | succ fuel ih =>
    obtain ⟨arrived, hplan, harrives⟩ := planStreamingQuery_spec hbatch hmax h
      hashSeq (request.gather numIterations)
    obtain ⟨taken, rest, reason, s₁, hfetch, rfl, htook, hall, hsome⟩ :=
      fetchRows_spec hbatch arrived { s with currentAccumulatedSize := 0 }
    have hne : request.batchSize ≠ 0 := by
      intro h0
      rw [h0] at hbatch
      exact absurd hbatch (by decide)
    have hconsumed : Consumed cluster (log ++ taken) s₁.cursorMap := by
      rw [htook.cursorMap]
      exact Arrives.consumed h harrives
    have hlimit := htook.limit hrows
    have hnum := htook.numRows
    rw [drainStreamingQuery]
    simp only [hplan, bind_eq_bind, bind_some,
      fetchCursorAndWriteUntilPageOrSize, if_neg hne, hfetch]
    by_cases hreason : reason = .cursorCompletion
    · obtain ⟨rfl, hsize⟩ := hall hreason
      rw [append_nil] at harrives
      rw [if_pos hreason]
      by_cases hsmall : (s₁.currentAccumulatedSize : Int) < maxSize.toInt
      · -- fewer bytes than one worker returns: all rows are taken
        rw [if_pos hsmall]
        refine ⟨true, _, s₁, taken, rfl, hconsumed, htook.writer, ?_, hnum, nofun⟩
        refine iff_of_true rfl fun shard hshard => ?_
        refine done_of_completion hbatch h harrives ?_ ?_ hshard
        · rw [hsize, Nat.zero_add] at hsmall
          exact hsmall
        · have hrowsNow : s₁.numRowsFetched = s.numRowsFetched + taken.length := hnum
          omega
      · -- a round that took rows, so fewer are left for the next one
        rw [if_neg hsmall]
        have htaken : 0 < taken.length := by
          by_contra hzero
          have hnil : taken = [] := length_eq_zero_iff.1 (by omega)
          rw [hnil] at hsize
          have hpos : 0 < maxSize.toInt := Int32.lt_iff_toInt_lt.1 hmax
          have hnone : s₁.currentAccumulatedSize = 0 := hsize
          omega
        obtain ⟨drained, rounds, s', more, hdrain, hspec⟩ :=
          ih hconsumed hlimit (by rw [length_append]; omega)
        refine ⟨drained, rounds, s', taken ++ more, hdrain, ?_⟩
        refine ⟨?_, ?_, ?_, ?_, hspec.progress⟩
        · rw [← append_assoc]
          exact hspec.consumed
        · rw [hspec.writer, htook.writer, map_append, append_assoc]
        · rw [← append_assoc]
          exact hspec.drained_iff
        · have hrowsNow : s₁.numRowsFetched = s.numRowsFetched + taken.length := hnum
          rw [hspec.numRows, length_append]
          omega
    · obtain ⟨hrest, hprogress⟩ := hsome hreason
      rw [if_neg hreason]
      refine ⟨false, _, s₁, taken, rfl, hconsumed, htook.writer, ?_, hnum, fun _ => hprogress⟩
      refine iff_of_false nofun fun hdone => ?_
      exact hrest (Arrives.rest_eq_nil h harrives hdone)

theorem Consumed.getMore {cursors : CursorMap}
    (h : Consumed cluster log cursors) (hashSeq : HashSeq) (info : CursorInfo) (rounds : Nat) :
    ∃ cursorMap', buildContinuationMap (buildStreamingContinuationDocument
        hashSeq info cursors rounds) [] = some cursorMap'
      ∧ Consumed cluster log cursorMap' := by
  have hheader : ∀ f ∈ ([([113, 105], .int64 info.cursorId),
      ([113, 112], .bool false), ([113, 107], .int32 info.queryKind),
      ([113, 99], .document info.querySpec)] : Fields),
      f.1 ≠ continuationField := by
    simp [continuationField]
  have htrailer : ∀ f ∈ (([110, 117, 109, 73, 116, 101, 114, 115], Value.int32 (Int32.ofNat rounds))
      :: (info.nowValue.map fun v => (([115, 110] : Bytes), v)).toList
        : Fields), f.1 ≠ continuationField := by
    cases info.nowValue <;> simp [continuationField]
  obtain ⟨cursorMap', hbuild, hnodup, hget⟩ := buildContinuationMap_serialize
    hheader htrailer h.nodup (hashSeq.perm cursors)
  exact ⟨cursorMap', hbuild, h.of_get hnodup hget⟩

include hmax in
theorem streamingPages_spec (info : CursorInfo)
    {requests : Nat → CursorRequest} (hbatch : ∀ i, 0 < (requests i).batchSize)
    {fuel i : Nat} {cursors : CursorMap} {log : List (Bytes × ShardRow)}
    (h : Consumed cluster log cursors) (hfuel : cluster.rows.length < fuel + log.length) :
    ∃ pages taken, streamingPages cluster hashSeq maxSize info requests fuel i cursors = some pages
      ∧ pages.flatten = taken.map (fun row => row.2.document)
      ∧ ((log ++ taken).map Prod.snd).Perm cluster.rows
      ∧ ∀ page ∈ pages.dropLast, page ≠ [] := by
  induction fuel generalizing i cursors log with
  | zero =>
    have hlen := h.length_le
    omega
  | succ fuel ih =>
    have hpos : 0 < (requests i).batchSize.toInt := Int32.lt_iff_toInt_lt.1 (hbatch i)
    obtain ⟨drained, rounds, s', taken, hdrain, hspec⟩ :=
      @drainStreamingQuery_spec cluster hashSeq maxSize hmax (requests i) (hbatch i) (fuel + 1) 0
        ⟨[], (requests i).accumulatedSize, cursors, 0, 0⟩ log h
        (Int.le_of_lt hpos) hfuel
    have hwriter : s'.writer = taken.map fun row => row.2.document := hspec.writer
    rw [streamingPages]
    simp only [hdrain, bind_eq_bind, bind_some]
    cases drained with
    | true =>
      refine ⟨[s'.writer], taken, rfl, ?_, ?_, nofun⟩
      · rw [flatten_singleton, hwriter]
      · exact hspec.consumed.perm (hspec.drained_iff.1 rfl)
    | false =>
      have htaken : 0 < taken.length := by
        have hrows := hspec.numRows
        have hprogress := hspec.progress rfl
        simp only [Nat.zero_add] at hrows
        omega
      obtain ⟨cursorMap', hbuild, hconsumed⟩ := hspec.consumed.getMore hashSeq info rounds
      obtain ⟨pages, more, hpages, hflat, hperm, hne⟩ :=
        @ih (i + 1) cursorMap' (log ++ taken) hconsumed (by rw [length_append]; omega)
      refine ⟨s'.writer :: pages, taken ++ more, ?_, ?_, ?_, ?_⟩
      · simp only [Bool.false_eq_true, if_false, hbuild, bind_some, hpages]
      · rw [flatten_cons, hwriter, hflat, map_append]
      · rw [← append_assoc]
        exact hperm
      · cases pages with
        | nil => exact nofun
        | cons page pages =>
          refine forall_mem_cons.2 ⟨?_, hne⟩
          rw [hwriter]
          intro hnil
          rw [map_eq_nil_iff.1 hnil] at htaken
          exact Nat.lt_irrefl 0 htaken

end Pages

/-- A streaming cursor returns every row exactly once. Whatever the batch sizes
and however the rows arrive, the requests end with one that is fully drained,
after at most as many as there are rows and one more. All pages together hold
every row of every shard once, and only the last one can be empty. -/
theorem streamingCursor_exact (cluster : Cluster) (hashSeq : HashSeq) (maxWorkerCursorSize : Int32)
    (hmax : 1 ≤ maxWorkerCursorSize) (info : CursorInfo) (requests : Nat → CursorRequest)
    (hbatch : ∀ i, 0 < (requests i).batchSize) :
    ∃ pages, streamingPages cluster hashSeq maxWorkerCursorSize info requests
        (cluster.rows.length + 1) 0 [] = some pages
      ∧ pages.flatten.Perm (cluster.rows.map ShardRow.document)
      ∧ ∀ page ∈ pages.dropLast, page ≠ [] := by
  have hpos : 0 < maxWorkerCursorSize := by
    rw [Int32.lt_iff_toInt_lt]
    exact Int32.le_iff_toInt_le.1 hmax
  obtain ⟨pages, taken, hpages, hflat, hperm, hne⟩ :=
    @streamingPages_spec cluster hashSeq maxWorkerCursorSize hpos info requests
      hbatch (cluster.rows.length + 1) 0 [] [] (.nil cluster)
      (Nat.lt_succ_self _)
  refine ⟨pages, hpages, ?_, hne⟩
  have hdocuments := hperm.map ShardRow.document
  rw [nil_append, List.map_map] at hdocuments
  rw [hflat]
  exact hdocuments

def oneByOne : Gather where
  merge lists := lists.flatMap fun l => l.2.map fun row => (l.1, row)
  interleaves _ h := interleaves_flatMap h

def shortRow (offsetNumber : UInt16) : ShardRow where
  tid := ⟨0, offsetNumber⟩
  document := shortDocument
  size_le := by
    rw [size_shortDocument]
    decide

def twoShards : Cluster where
  shards := [⟨[97], [shortRow 1, shortRow 2], by decide⟩, ⟨[98], [shortRow 1], by decide⟩]
  names_nodup := by decide

/-- Rows of two shards, one to a page. -/
theorem rows_of_two_shards_returned :
    ∃ pages, streamingPages twoShards ⟨id, .refl⟩ 1 ⟨7, 0, [], none⟩
        (fun _ => ⟨1, 0, fun _ => oneByOne⟩) 4 0 [] = some pages
      ∧ pages.flatten.Perm [shortDocument, shortDocument, shortDocument]
      ∧ ∀ page ∈ pages.dropLast, page ≠ [] :=
  streamingCursor_exact twoShards ⟨id, .refl⟩ 1 (by decide) ⟨7, 0, [], none⟩
    (fun _ => ⟨1, 0, fun _ => oneByOne⟩) (fun _ => by decide)

end DocumentDb
