/-
The continuation of a streaming cursor.

For every shard that a row has been returned from, the cursor map holds the
position (`ItemPointer`) of the last one. The map travels as a document: to the
client with each page and back with the next request, and to the workers with
the limits of a page. `buildContinuationMap_serialize` says that nothing gets
lost on the first way; what a worker reads is in `Cursor/Scan`.
-/
import DocumentDb.Bson.Value
import DocumentDb.Lib.Assoc
import DocumentDb.Lib.Bytes

namespace DocumentDb

open Wire List Option

-- ==== positions

/-- `ItemPointerData`: the block of a row and its place in it. -/
structure ItemPointer where
  blockNumber : UInt32
  offsetNumber : UInt16
  deriving DecidableEq

namespace ItemPointer

/-- `ItemPointerCompare`. -/
def compare (a b : ItemPointer) : Int :=
  if a.blockNumber < b.blockNumber then -1
  else if b.blockNumber < a.blockNumber then 1
  else if a.offsetNumber < b.offsetNumber then -1
  else if b.offsetNumber < a.offsetNumber then 1
  else 0

variable (p : ItemPointer)

/-- The bytes of the position: the high and the low half of the block number,
and the offset. -/
def toBytes : Bytes :=
  leBytes 2 (p.blockNumber.toNat / 65536) ++ leBytes 2 (p.blockNumber.toNat % 65536)
    ++ leBytes 2 p.offsetNumber.toNat

/-- The position with given bytes, if there are as many as it takes. -/
def ofBytes? (data : Bytes) : Option ItemPointer :=
  if data.length = 6 then
    some {
      blockNumber := UInt32.ofNat (leNat (data.take 2) * 65536 + leNat ((data.drop 2).take 2))
      offsetNumber := UInt16.ofNat (leNat (data.drop 4)) }
  else none

theorem ofBytes?_toBytes : ofBytes? p.toBytes = some p := by
  have hblock := p.blockNumber.toNat_lt
  have hoffset := p.offsetNumber.toNat_lt
  have hhigh : leNat (p.toBytes.take 2) = p.blockNumber.toNat / 65536 := by
    rw [toBytes, append_assoc, take_left' (length_leBytes 2 _), leNat_leBytes_of_lt]
    omega
  have hlow : leNat ((p.toBytes.drop 2).take 2) = p.blockNumber.toNat % 65536 := by
    rw [toBytes, append_assoc, drop_left' (length_leBytes 2 _),
      take_left' (length_leBytes 2 _), leNat_leBytes_of_lt]
    omega
  have hoff : leNat (p.toBytes.drop 4) = p.offsetNumber.toNat := by
    rw [toBytes, drop_left' (by simp), leNat_leBytes_of_lt]
    omega
  have hlen : p.toBytes.length = 6 := by simp [toBytes]
  rw [ofBytes?, if_pos hlen, hhigh, hlow, hoff]
  have hnumber : p.blockNumber.toNat / 65536 * 65536
      + p.blockNumber.toNat % 65536 = p.blockNumber.toNat := by omega
  rw [hnumber, UInt32.ofNat_toNat, UInt16.ofNat_toNat]

theorem compare_self : compare p p = 0 := by
  simp [compare]

def rank : Nat := p.blockNumber.toNat * 65536 + p.offsetNumber.toNat

theorem eq_of_rank_eq {a b : ItemPointer} (h : a.rank = b.rank) : a = b := by
  have ha := a.offsetNumber.toNat_lt
  have hb := b.offsetNumber.toNat_lt
  unfold rank at h
  have hblock : a.blockNumber = b.blockNumber := UInt32.toNat_inj.1 (by omega)
  have hoffset : a.offsetNumber = b.offsetNumber := UInt16.toNat_inj.1 (by omega)
  cases a
  cases b
  exact congrArg₂ ItemPointer.mk hblock hoffset

theorem compare_spec (a b : ItemPointer) :
    (compare a b < 0 ↔ a.rank < b.rank) ∧ (compare a b = 0 ↔ a.rank = b.rank) := by
  have ha := a.offsetNumber.toNat_lt
  have hb := b.offsetNumber.toNat_lt
  unfold compare rank
  simp only [UInt32.lt_iff_toNat_lt, UInt16.lt_iff_toNat_lt]
  split_ifs <;> grind

end ItemPointer

-- ==== names of the documents

/-- `CursorContinuationTableName`: `table_name`. -/
def cursorContinuationTableName : Bytes := [116, 97, 98, 108, 101, 95, 110, 97, 109, 101]

/-- `CursorContinuationValue`: `value`. -/
def cursorContinuationValue : Bytes := [118, 97, 108, 117, 101]

/-- `continuation`. -/
def continuationField : Bytes := [99, 111, 110, 116, 105, 110, 117, 97, 116, 105, 111, 110]

/-- `getpage_batchCount`. -/
def batchCountField : Bytes :=
  [103, 101, 116, 112, 97, 103, 101, 95, 98, 97, 116, 99, 104, 67, 111, 117, 110, 116]

/-- `getpage_batchSizeAttr`. -/
def batchSizeAttrField : Bytes :=
  [103, 101, 116, 112, 97, 103, 101, 95, 98, 97, 116, 99, 104, 83, 105, 122, 101, 65, 116, 116, 114]

/-- `getpage_batchSizeHint`. -/
def batchSizeHintField : Bytes :=
  [103, 101, 116, 112, 97, 103, 101, 95, 98, 97, 116, 99, 104, 83, 105, 122, 101, 72, 105, 110, 116]

-- ==== the cursor map

/-- The hash table of `CursorContinuationEntry`, by the name of the shard. -/
abbrev CursorMap := List (Bytes × ItemPointer)

variable (tableName : Bytes) (tid : ItemPointer)

def cursorStateFields : Fields :=
  [(cursorContinuationTableName, .utf8 tableName), (cursorContinuationValue, .binary 0 tid.toBytes)]

structure SingleContinuation where
  tableName : Option Bytes := none
  continuationBinaryValue : Option Value := none

/-- The loop over the fields of the document of a shard; there is no result
when the name is not a string. -/
def SingleContinuation.read : Fields → SingleContinuation → Option SingleContinuation
  | [], entry => some entry
  | (key, value) :: fs, entry =>
    if key = cursorContinuationTableName then
      match value with
      | .utf8 tableName => read fs { entry with tableName := some tableName }
      | _ => none
    else if key = cursorContinuationValue then
      read fs { entry with continuationBinaryValue := some value }
    else read fs entry

def itemPointerOfValue : Value → Option ItemPointer
  | .binary _ data => ItemPointer.ofBytes? data
  | _ => none

def updateCursorInContinuationMapCore (singleContinuationDoc : Fields)
    (cursorMap : CursorMap) : Option CursorMap := do
  let entry ← SingleContinuation.read singleContinuationDoc {}
  match entry.continuationBinaryValue with
  | none => some cursorMap
  | some value =>
    let tid ← itemPointerOfValue value
    some (Assoc.set (entry.tableName.getD []) tid cursorMap)

def updateCursors : List Value → CursorMap → Option CursorMap
  | [], cursorMap => some cursorMap
  | .document fs :: es, cursorMap => do
    let cursorMap ← updateCursorInContinuationMapCore fs cursorMap
    updateCursors es cursorMap
  | _ :: _, _ => none

def buildContinuationMap : Fields → CursorMap → Option CursorMap
  | [], cursorMap => some cursorMap
  | (key, value) :: fs, cursorMap =>
    if key = continuationField then do
      let es ← value.elements?
      let cursorMap ← updateCursors es cursorMap
      buildContinuationMap fs cursorMap
    else buildContinuationMap fs cursorMap

variable (entries : List (Bytes × ItemPointer))

/-- `SerializeContinuationsToWriter`, for the entries in the order of the hash
table. -/
def serializeContinuations : Value :=
  .array (entries.map fun entry =>
    .document (cursorStateFields entry.1 entry.2))

/-- The number of rows that a worker is asked for: twice the batch size, or the
greatest `int` where that is too much. -/
def workerBatchCount (batchSize : Int32) : Int32 :=
  let doubled := batchSize <<< 1
  if doubled < 0 then Int32.maxValue else doubled

theorem shiftLeft_one (n : Int32) : n <<< 1 = n + n := by
  apply Int32.toBitVec_inj.1
  rw [Int32.toBitVec_shiftLeft, Int32.toBitVec_add]
  have hone : (1 : Int32).toBitVec.smod 32 = 1#32 := by decide
  apply BitVec.eq_of_toNat_eq
  simp [BitVec.toNat_shiftLeft, Nat.shiftLeft_eq]
  omega

theorem workerBatchCount_spec {limit : Int32} (h : 0 < limit) :
    limit.toInt < (workerBatchCount limit).toInt ∨ (workerBatchCount limit).toInt = 2 ^ 31 - 1 := by
  have hpos : 0 < limit.toInt := Int32.lt_iff_toInt_lt.1 h
  have hlt := limit.toInt_lt
  have hdouble : (limit <<< 1).toInt = (limit.toInt + limit.toInt).bmod (2 ^ 32) := by
    rw [shiftLeft_one, Int32.toInt_add]
  unfold workerBatchCount
  simp only [Int32.lt_iff_toInt_lt, Int32.toInt_zero]
  by_cases hsmall : limit.toInt < 2 ^ 30
  · have hexact : (limit <<< 1).toInt = limit.toInt + limit.toInt := by
      rw [hdouble, Int.bmod_eq_of_le (by omega) (by omega)]
    rw [if_neg (by omega), hexact]
    exact Or.inl (by omega)
  · have hnegative : (limit <<< 1).toInt < 0 := by
      rw [hdouble, Int.bmod_neg_iff (by omega) (by omega)]
      exact Or.inr (by omega)
    rw [if_pos hnegative]
    exact Or.inr rfl

theorem workerBatchCount_pos {limit : Int32} (h : 0 < limit) : 0 < workerBatchCount limit := by
  have hpos : 0 < limit.toInt := Int32.lt_iff_toInt_lt.1 h
  rw [Int32.lt_iff_toInt_lt, Int32.toInt_zero]
  have hspec := workerBatchCount_spec h
  omega

def serializeContinuationForWorker (batchSize maxWorkerCursorSize : Int32) : Fields :=
  [(continuationField, serializeContinuations entries),
    (batchCountField, .int32 (workerBatchCount batchSize)),
    (batchSizeHintField, .int32 maxWorkerCursorSize),
    (batchSizeAttrField, .int32 1)]

-- ==== round trip

theorem SingleContinuation.read_cursorStateFields :
    SingleContinuation.read (cursorStateFields tableName tid) {}
      = some ⟨some tableName, some (.binary 0 tid.toBytes)⟩ := rfl

theorem updateCursorInContinuationMapCore_cursorStateFields (cursors : CursorMap) :
    updateCursorInContinuationMapCore (cursorStateFields tableName tid)
      cursors = some (Assoc.set tableName tid cursors) := by
  have hvalue : itemPointerOfValue (.binary 0 tid.toBytes) = some tid :=
    ItemPointer.ofBytes?_toBytes tid
  rw [updateCursorInContinuationMapCore, SingleContinuation.read_cursorStateFields]
  simp only [bind_eq_bind, bind_some, hvalue, getD_some]

theorem updateCursors_serialize (cursors : CursorMap) : updateCursors (entries.map fun entry =>
        .document (cursorStateFields entry.1 entry.2)) cursors
      = some (entries.foldl (fun m entry => Assoc.set entry.1 entry.2 m) cursors) := by
  induction entries generalizing cursors with
  | nil => rfl
  | cons entry entries ih =>
    rw [map_cons, updateCursors, updateCursorInContinuationMapCore_cursorStateFields]
    exact ih _

theorem buildContinuationMap_of_ne {fs rest : Fields} {cursorMap : CursorMap}
    (h : ∀ f ∈ fs, f.1 ≠ continuationField) :
    buildContinuationMap (fs ++ rest) cursorMap = buildContinuationMap rest cursorMap := by
  induction fs with
  | nil => rfl
  | cons f fs ih =>
    obtain ⟨hf, hfs⟩ := forall_mem_cons.1 h
    rw [cons_append, buildContinuationMap, if_neg hf, ih hfs]

/-- What is read back from the document of a cursor has the entries of the map,
in whatever order they were written. -/
theorem buildContinuationMap_serialize {header trailer : Fields}
    (hheader : ∀ f ∈ header, f.1 ≠ continuationField)
    (htrailer : ∀ f ∈ trailer, f.1 ≠ continuationField) {entries cursorMap : CursorMap}
    (hnodup : (cursorMap.map Prod.fst).Nodup) (hperm : entries.Perm cursorMap) :
    ∃ read, buildContinuationMap (header
        ++ (continuationField, serializeContinuations entries) :: trailer) []
        = some read
      ∧ (read.map Prod.fst).Nodup
      ∧ ∀ k, Assoc.get k read = Assoc.get k cursorMap := by
  have hkeys : (entries.map Prod.fst).Nodup := (hperm.map Prod.fst).nodup_iff.2 hnodup
  refine ⟨entries.foldl (fun m entry => Assoc.set entry.1 entry.2 m) [], ?_,
    Assoc.nodup_foldl_set (m := []) nodup_nil entries, ?_⟩
  · have htail := @buildContinuationMap_of_ne trailer []
      (entries.foldl (fun m entry => Assoc.set entry.1 entry.2 m) []) htrailer
    rw [append_nil] at htail
    rw [buildContinuationMap_of_ne hheader, buildContinuationMap, if_pos rfl]
    simp only [serializeContinuations, Value.elements?,
      updateCursors_serialize, bind_eq_bind, bind_some]
    exact htail
  · intro k
    rw [Assoc.get_foldl_set hkeys, Assoc.get_perm hperm hkeys, Assoc.get_nil, or_none]

end DocumentDb
