/-
File-based cursors: the first page and the pages read back.

A row of the query goes onto the page as long as the page has room for it, and into the
cursor file otherwise. Later requests read the file from where the last page ended up to the
first row that does not fit. So the file keeps the order and the first page does not: a
smaller row can still go onto the page behind one that was too large (`nothingFitsLate`).
The file is a reliable store here, whose offsets count documents.
-/
import DocumentDb.Bson.Encode
import Mathlib.Data.List.ReduceOption

namespace DocumentDb

open List

def perDocOverhead : UInt32 := 9

-- ==== the file

structure CursorFileState (Doc : Type*) where
  contents : List Doc
  fileOffset : Nat
  nextOffset : Nat
  isReadWrite : Bool
  cursorComplete : Bool

/-- The file and where to read on. -/
structure SerializedCursorState (Doc : Type*) where
  contents : List Doc
  fileOffset : Nat

namespace CursorFileState

variable {Doc : Type*}

/-- `CreateCursorFile`. -/
def create : CursorFileState Doc := ⟨[], 0, 0, true, false⟩

variable (state : CursorFileState Doc)

/-- `WriteToCursorFile`. -/
def write (document : Doc) : CursorFileState Doc :=
  { state with contents := state.contents ++ [document] }

/-- `DeserializeFileState`. -/
def deserialize (state : SerializedCursorState Doc) : CursorFileState Doc :=
  ⟨state.contents, state.fileOffset, state.fileOffset, false, false⟩

/-- `ReadFromCursorFile`: what was returned before counts as read now. -/
def read : Option Doc × CursorFileState Doc :=
  let state := { state with fileOffset := state.nextOffset }
  match state.contents[state.nextOffset]? with
  | none => (none, { state with cursorComplete := true })
  | some document =>
    (some document, { state with nextOffset := state.nextOffset + 1 })

/-- `CursorFileStateClose`. -/
def close : Option (SerializedCursorState Doc) :=
  if state.cursorComplete then none
  else
    some ⟨state.contents, if state.isReadWrite then 0 else state.fileOffset⟩

end CursorFileState

-- ==== the receiver

structure BsonStoreTupleDestReceiver (Doc : Type*) where
  writer : List Doc
  numRowsFetched : UInt32
  currentAccumulatedSize : UInt32
  batchSize : Int32
  closeCursor : Bool
  cursorFileState : Option (CursorFileState Doc)

/-- For a page that is empty. -/
def createBsonStoreTupleDestReceiver {Doc : Type*} (batchSize : Int32)
    (accumulatedSize : UInt32) (closeCursor : Bool) : BsonStoreTupleDestReceiver Doc where
  writer := []
  numRowsFetched := 0
  currentAccumulatedSize := accumulatedSize
  batchSize := batchSize
  closeCursor := closeCursor
  cursorFileState := none

section Receiver

variable {Doc : Type*} (datumSize : Doc → UInt32)

def fitsOnPage (batchSize : Int32)
    (numRowsFetched currentAccumulatedSize : UInt32) (document : Doc) : Bool :=
  let totalSize := currentAccumulatedSize + datumSize document + perDocOverhead
  -- at least one row is allowed per response
  let sizeLimitReached := bsonMaxAllowedSize ≤ totalSize.toNat && 0 < numRowsFetched
  !(sizeLimitReached || batchSize.toUInt32 ≤ numRowsFetched)

/-- Whether to go on. There is no result when the document is too large, or when a row
would have to be kept and file-based cursors are off. -/
def bsonStoreDestReceiveCore (useFileBasedPersistedCursors : Bool)
    (receiver : BsonStoreTupleDestReceiver Doc) (resultBson : Doc) :
    Option (Bool × BsonStoreTupleDestReceiver Doc) :=
  if bsonMaxAllowedSize < (datumSize resultBson).toNat then none
  else if fitsOnPage datumSize receiver.batchSize receiver.numRowsFetched
      receiver.currentAccumulatedSize resultBson then
    some (true, { receiver with
      writer := receiver.writer ++ [resultBson]
      numRowsFetched := receiver.numRowsFetched + 1
      currentAccumulatedSize := receiver.currentAccumulatedSize
        + (datumSize resultBson + perDocOverhead) })
  else if receiver.closeCursor then some (false, receiver)
  else if useFileBasedPersistedCursors then
    let file := receiver.cursorFileState.getD .create
    some (true, { receiver with
      cursorFileState := some (file.write resultBson) })
  else none

/-- `BsonStoreDestReceiverReceive` over the rows of a query; a null row is
skipped. -/
def receiveRows (useFileBasedPersistedCursors : Bool) (receiver : BsonStoreTupleDestReceiver Doc) :
    List (Option Doc) → Option (BsonStoreTupleDestReceiver Doc)
  | [] => some receiver
  | none :: rows => receiveRows useFileBasedPersistedCursors receiver rows
  | some resultBson :: rows => do
    let (continues, receiver) ← bsonStoreDestReceiveCore datumSize
      useFileBasedPersistedCursors receiver resultBson
    if continues then
      receiveRows useFileBasedPersistedCursors receiver rows
    else some receiver

/-- The first page, and the continuation. -/
def createAndDrainPersistedQueryWithFiles (batchSize : Int32)
    (accumulatedSize : UInt32) (closeCursor : Bool) (rows : List (Option Doc)) :
    Option (List Doc × Option (SerializedCursorState Doc)) := do
  let receiver ← receiveRows datumSize true
    (createBsonStoreTupleDestReceiver batchSize accumulatedSize closeCursor)
    rows
  some (receiver.writer, receiver.cursorFileState.bind (·.close))

/-- The loop of `DrainPersistedFileCursor`: the receiver, the file, and
whether the file came to its end. The fuel bounds the number of reads. -/
def drainLoop : Nat → BsonStoreTupleDestReceiver Doc → CursorFileState Doc →
    Option (BsonStoreTupleDestReceiver Doc × CursorFileState Doc × Bool)
  | 0, _, _ => none
  | fuel + 1, receiver, file =>
    match file.read with
    | (none, file) => some (receiver, file, true)
    | (some document, file) => do
      let (continues, receiver) ← bsonStoreDestReceiveCore datumSize true receiver document
      if continues then drainLoop fuel receiver file
      else some (receiver, file, false)

/-- The page, and the continuation. -/
def drainPersistedFileCursor (fuel : Nat) (batchSize : Int32)
    (accumulatedSize : UInt32) (state : SerializedCursorState Doc) :
    Option (List Doc × Option (SerializedCursorState Doc)) := do
  let (receiver, file, complete) ← drainLoop datumSize fuel
    (createBsonStoreTupleDestReceiver batchSize accumulatedSize true)
    (.deserialize state)
  some (receiver.writer, if complete then none else file.close)

/-- Requests for more, until there is no continuation. Each has its own
limits; the fuel bounds their number and the reads of each. -/
def drainAll (batchSizes : Nat → Int32) (accumulatedSizes : Nat → UInt32) :
    Nat → Nat → Option (SerializedCursorState Doc) → Option (List (List Doc))
  | _, _, none => some []
  | 0, _, some _ => none
  | fuel + 1, request, some state => do
    let (page, state) ← drainPersistedFileCursor datumSize (fuel + 1)
      (batchSizes request) (accumulatedSizes request) state
    let pages ← drainAll batchSizes accumulatedSizes fuel (request + 1) state
    some (page :: pages)

-- ==== the first page

/-- What goes onto the first page and what goes into the file, from a state
of the counters on. -/
def splitPage (batchSize : Int32) (numRowsFetched accumulated : UInt32) :
    List Doc → List Doc × List Doc
  | [] => ([], [])
  | d :: ds =>
    if fitsOnPage datumSize batchSize numRowsFetched accumulated d then
      let (page, file) := splitPage batchSize (numRowsFetched + 1)
        (accumulated + (datumSize d + perDocOverhead)) ds
      (d :: page, file)
    else
      let (page, file) := splitPage batchSize numRowsFetched accumulated ds
      (page, d :: file)

/-- No row fits onto the first page behind one that did not. -/
def nothingFitsLate (batchSize : Int32) (numRowsFetched accumulated : UInt32) : List Doc → Bool
  | [] => true
  | d :: ds =>
    if fitsOnPage datumSize batchSize numRowsFetched accumulated d then
      nothingFitsLate batchSize (numRowsFetched + 1)
        (accumulated + (datumSize d + perDocOverhead)) ds
    else
      ds.all fun e =>
        !fitsOnPage datumSize batchSize numRowsFetched accumulated e

variable {accumulated n : UInt32} {limit : Int32} {ds : List Doc}

theorem fitsOnPage_of_head {page : List Doc} {e : Doc}
    (h : (splitPage datumSize limit n accumulated ds).1 = e :: page) :
    fitsOnPage datumSize limit n accumulated e := by
  induction ds with
  | nil => cases h
  | cons d ds ih =>
    unfold splitPage at h
    split_ifs at h with hd
    · obtain ⟨rfl, -⟩ := List.cons.inj h
      exact hd
    · exact ih h

theorem splitPage_eq_nil_iff : (splitPage datumSize limit n accumulated ds).1 = []
      ↔ ∀ e ∈ ds, fitsOnPage datumSize limit n accumulated e = false := by
  induction ds with
  | nil => simp [splitPage]
  | cons d ds ih =>
    unfold splitPage
    split_ifs with hd
    · simp [hd]
    · simp [hd, ih]

theorem splitPage_snd_of_nil (h : ∀ e ∈ ds, fitsOnPage datumSize limit n accumulated e = false) :
    (splitPage datumSize limit n accumulated ds).2 = ds := by
  induction ds with
  | nil => rfl
  | cons d ds ih =>
    obtain ⟨hd, hds⟩ := forall_mem_cons.1 h
    simp [splitPage, hd, ih hds]

theorem splitPage_append_eq_iff (limit : Int32) (n acc : UInt32) (ds : List Doc) :
    (splitPage datumSize limit n acc ds).1 ++ (splitPage datumSize limit n acc ds).2 = ds
      ↔ nothingFitsLate datumSize limit n acc ds := by
  induction ds generalizing n acc with
  | nil => simp [splitPage, nothingFitsLate]
  | cons d ds ih =>
    unfold splitPage nothingFitsLate
    split_ifs with hd
    · rw [cons_append, List.cons.injEq, and_iff_right rfl]
      exact ih _ _
    · rw [all_eq_true]
      simp only [Bool.not_eq_true']
      rw [← splitPage_eq_nil_iff]
      cases hpage : (splitPage datumSize limit n acc ds).1 with
      | nil =>
        rw [splitPage_snd_of_nil datumSize ((splitPage_eq_nil_iff datumSize).1 hpage)]
        simp
      | cons e page =>
        -- a row that fits stands where `d` does
        have he := fitsOnPage_of_head datumSize hpage
        refine iff_of_false (fun h => ?_) (by simp)
        rw [(List.cons.inj h).1] at he
        exact hd he

variable (file : Option (CursorFileState Doc))

/-- The file after some more rows; it is made for the first one. -/
def addToFile (rows : List Doc) : Option (CursorFileState Doc) :=
  if rows = [] then file
  else some { file.getD .create with
    contents := (file.getD .create).contents ++ rows }

theorem addToFile_write (d : Doc) (rows : List Doc) :
    addToFile (some ((file.getD .create).write d)) rows = addToFile file (d :: rows) := by
  cases rows with
  | nil | cons e rows => simp [addToFile, CursorFileState.write]

theorem receiveRows_eq (receiver : BsonStoreTupleDestReceiver Doc)
    (hclose : receiver.closeCursor = false) (rows : List (Option Doc))
    (hsize : ∀ d ∈ rows.reduceOption, (datumSize d).toNat ≤ bsonMaxAllowedSize) :
    ∃ receiver', receiveRows datumSize true receiver rows = some receiver'
      ∧ receiver'.writer = receiver.writer
          ++ (splitPage datumSize receiver.batchSize receiver.numRowsFetched
              receiver.currentAccumulatedSize rows.reduceOption).1
      ∧ receiver'.cursorFileState = addToFile receiver.cursorFileState
          (splitPage datumSize receiver.batchSize receiver.numRowsFetched
            receiver.currentAccumulatedSize rows.reduceOption).2 := by
  induction rows generalizing receiver with
  | nil => exact ⟨receiver, rfl, (append_nil _).symm, rfl⟩
  | cons row rows ih =>
    cases row with
    | none => exact ih receiver hclose hsize
    | some d =>
      rw [reduceOption_cons_of_some] at hsize ⊢
      obtain ⟨hd, hrows⟩ := forall_mem_cons.1 hsize
      rw [receiveRows, bsonStoreDestReceiveCore, if_neg (by omega)]
      unfold splitPage
      by_cases hfits : fitsOnPage datumSize receiver.batchSize
          receiver.numRowsFetched receiver.currentAccumulatedSize d
      · rw [if_pos hfits, if_pos hfits]
        obtain ⟨receiver', hrun, hwriter, hfile⟩ := ih
          { receiver with
            writer := receiver.writer ++ [d]
            numRowsFetched := receiver.numRowsFetched + 1
            currentAccumulatedSize := receiver.currentAccumulatedSize
              + (datumSize d + perDocOverhead) } hclose hrows
        refine ⟨receiver', hrun, ?_, hfile⟩
        rw [hwriter, append_assoc]
        rfl
      · rw [if_neg hfits, if_neg hfits, if_neg (by simp [hclose]), if_pos rfl]
        obtain ⟨receiver', hrun, hwriter, hfile⟩ := ih
          { receiver with
            cursorFileState := some
              ((receiver.cursorFileState.getD .create).write d) }
          hclose hrows
        refine ⟨receiver', hrun, hwriter, ?_⟩
        rw [hfile, addToFile_write]

-- ==== later pages

theorem drainLoop_spec (fuel : Nat) (receiver : BsonStoreTupleDestReceiver Doc)
    (hclose : receiver.closeCursor) (file : CursorFileState Doc)
    (hmode : file.isReadWrite = false) (hcomplete : file.cursorComplete = false)
    (hfuel : (file.contents.drop file.nextOffset).length < fuel)
    (hsize : ∀ d ∈ file.contents, (datumSize d).toNat ≤ bsonMaxAllowedSize) :
    ∃ receiver' file' page rest, file.contents.drop file.nextOffset = page ++ rest
      ∧ receiver'.writer = receiver.writer ++ page
      ∧ (rest = [] ∧ drainLoop datumSize fuel receiver file = some (receiver', file', true)
          ∨ rest ≠ [] ∧ drainLoop datumSize fuel receiver file = some (receiver', file', false)
            ∧ file'.close = some ⟨file.contents, file.nextOffset + page.length⟩)
      ∧ (∀ d, file.contents[file.nextOffset]? = some d →
          fitsOnPage datumSize receiver.batchSize receiver.numRowsFetched
            receiver.currentAccumulatedSize d → page ≠ []) := by
  induction fuel generalizing receiver file with
  | zero => omega
  | succ fuel ih =>
    unfold drainLoop CursorFileState.read
    simp only
    cases hget : file.contents[file.nextOffset]? with
    | none =>
      have hnil : file.contents.drop file.nextOffset = [] :=
        drop_eq_nil_of_le (List.getElem?_eq_none_iff.1 hget)
      exact ⟨receiver, _, [], [], hnil, (append_nil _).symm,
        Or.inl ⟨rfl, rfl⟩, fun d hd => by cases hd⟩
    | some d =>
      have hlt := (List.getElem?_eq_some_iff.1 hget).1
      have hcons : file.contents.drop file.nextOffset
          = d :: file.contents.drop (file.nextOffset + 1) := by
        rw [drop_eq_getElem_cons hlt, (List.getElem?_eq_some_iff.1 hget).2]
      have hd := hsize d (mem_of_getElem? hget)
      rw [hcons] at hfuel ⊢
      rw [length_cons] at hfuel
      simp only [bsonStoreDestReceiveCore]
      rw [if_neg (by omega)]
      by_cases hfits : fitsOnPage datumSize receiver.batchSize
          receiver.numRowsFetched receiver.currentAccumulatedSize d
      · -- the row goes onto the page, and the loop goes on behind it
        rw [if_pos hfits]
        obtain ⟨receiver', file', page, rest, hsplit, hwriter, hend, -⟩ :=
          ih { receiver with
            writer := receiver.writer ++ [d]
            numRowsFetched := receiver.numRowsFetched + 1
            currentAccumulatedSize := receiver.currentAccumulatedSize
              + (datumSize d + perDocOverhead) } hclose
            { file with
              fileOffset := file.nextOffset
              nextOffset := file.nextOffset + 1 }
            hmode hcomplete (by simp only; omega) hsize
        simp only at hsplit hwriter hend
        refine ⟨receiver', file', d :: page, rest, ?_, ?_, ?_, ?_⟩
        · rw [hsplit]
          rfl
        · rw [hwriter, append_assoc]
          rfl
        · rcases hend with ⟨hrest, hrun⟩ | ⟨hrest, hrun, hoff⟩
          · exact Or.inl ⟨hrest, hrun⟩
          · refine Or.inr ⟨hrest, hrun, ?_⟩
            rw [hoff, length_cons]
            congr 2
            omega
        · exact fun _ _ _ => cons_ne_nil _ _
      · rw [if_neg hfits, if_pos hclose]
        refine ⟨receiver, _, [], _, rfl, (append_nil _).symm, Or.inr ⟨cons_ne_nil _ _, rfl, ?_⟩, ?_⟩
        · simp [CursorFileState.close, hmode, hcomplete]
        · intro e he hfit
          cases he
          exact absurd hfit hfits

theorem fitsOnPage_first (hbatch : 0 < limit) (acc : UInt32) (d : Doc) :
    fitsOnPage datumSize limit 0 acc d := by
  have hpos : ¬limit.toUInt32 ≤ 0 := by
    intro hle
    have hz : limit.toUInt32 = 0 :=
      UInt32.toNat_inj.1 (Nat.le_zero.1 (UInt32.le_iff_toNat_le.1 hle))
    have hb : limit = 0 := congrArg Int32.ofUInt32 hz
    rw [hb] at hbatch
    exact absurd hbatch (by decide)
  simp [fitsOnPage, hpos]

theorem drainAll_spec {batchSizes : Nat → Int32} (hbatch : ∀ i, 0 < batchSizes i)
    (accumulatedSizes : Nat → UInt32) (fuel request : Nat) (state : SerializedCursorState Doc)
    (hfuel : (state.contents.drop state.fileOffset).length < fuel)
    (hsize : ∀ d ∈ state.contents, (datumSize d).toNat ≤ bsonMaxAllowedSize) :
    ∃ pages, drainAll datumSize batchSizes accumulatedSizes fuel request (some state) = some pages
      ∧ pages.flatten = state.contents.drop state.fileOffset := by
  induction fuel generalizing request state with
  | zero => omega
  | succ fuel ih =>
    obtain ⟨receiver', file', page, rest, hsplit, hwriter, hend, hne⟩ :=
      drainLoop_spec datumSize (fuel + 1)
        (createBsonStoreTupleDestReceiver (batchSizes request) (accumulatedSizes request) true) rfl
        (.deserialize state) rfl rfl hfuel hsize
    have hpage : receiver'.writer = page := hwriter
    simp only [CursorFileState.deserialize] at hsplit hend hne
    unfold drainAll drainPersistedFileCursor
    rcases hend with ⟨hrest, hrun⟩ | ⟨hrest, hrun, hoff⟩
    · refine ⟨[page], ?_, ?_⟩
      · simp [CursorFileState.deserialize, hrun, hpage, drainAll]
      · rw [hsplit, hrest]
        simp
    · -- the first row always fits, so that less is left than before
      have hpos : page ≠ [] := by
        cases hget : state.contents[state.fileOffset]? with
        | none =>
          rw [drop_eq_nil_of_le (List.getElem?_eq_none_iff.1 hget)] at hsplit
          exact absurd (append_eq_nil_iff.1 hsplit.symm).2 hrest
        | some d =>
          exact hne d hget (fitsOnPage_first datumSize (hbatch request) _ d)
      obtain ⟨pages, hpages, hflat⟩ := ih (request + 1)
        ⟨state.contents, state.fileOffset + page.length⟩
        (by
          have := length_pos_of_ne_nil hpos
          rw [← drop_drop, hsplit, drop_left]
          rw [hsplit, length_append] at hfuel
          omega)
        hsize
      refine ⟨page :: pages, ?_, ?_⟩
      · simp [CursorFileState.deserialize, hrun, hpage, hoff, hpages]
      · rw [flatten_cons, hflat, ← drop_drop, hsplit, drop_left]

theorem close_addToFile_none (rows : List Doc) :
    (addToFile none rows).bind (·.close) = if rows = [] then none else some ⟨rows, 0⟩ := by
  cases rows <;> rfl

theorem createAndDrain_eq (limit : Int32) (accSize : UInt32) (rows : List (Option Doc))
    (hsize : ∀ d ∈ rows.reduceOption, (datumSize d).toNat ≤ bsonMaxAllowedSize) :
    createAndDrainPersistedQueryWithFiles datumSize limit accSize false rows
      = some ((splitPage datumSize limit 0 accSize rows.reduceOption).1,
          if (splitPage datumSize limit 0 accSize rows.reduceOption).2 = [] then none
          else some ⟨(splitPage datumSize limit 0 accSize rows.reduceOption).2, 0⟩) := by
  obtain ⟨receiver', hrun, hwriter, hfile⟩ := receiveRows_eq datumSize
    (createBsonStoreTupleDestReceiver limit accSize false) rfl
    rows hsize
  rw [createAndDrainPersistedQueryWithFiles, hrun]
  simp only [Option.bind_eq_bind, Option.bind_some, hwriter, hfile]
  simp only [createBsonStoreTupleDestReceiver, nil_append, close_addToFile_none]

end Receiver

-- ==== the cursor

/-- `VARSIZE_ANY_EXHDR` of a document. -/
def Pgbson.size (b : Pgbson) : UInt32 := UInt32.ofNat b.data.length

theorem mem_of_mem_splitPage_snd {Doc : Type*} {size : Doc → UInt32}
    {limit : Int32} {n acc : UInt32} {ds : List Doc} {d : Doc}
    (h : d ∈ (splitPage size limit n acc ds).2) : d ∈ ds := by
  induction ds generalizing n acc with
  | nil => simp [splitPage] at h
  | cons e ds ih =>
    unfold splitPage at h
    split_ifs at h
    · exact mem_cons_of_mem _ (ih h)
    · rcases mem_cons.1 h with rfl | h
      · exact mem_cons_self
      · exact mem_cons_of_mem _ (ih h)

theorem length_splitPage_snd_le {Doc : Type*} (size : Doc → UInt32)
    (limit : Int32) (n acc : UInt32) (ds : List Doc) :
    (splitPage size limit n acc ds).2.length ≤ ds.length := by
  induction ds generalizing n acc with
  | nil => simp [splitPage]
  | cons e ds ih =>
    unfold splitPage
    split_ifs
    · exact (ih _ _).trans (Nat.le_succ _)
    · exact Nat.succ_le_succ (ih _ _)

/-- A cursor returns the rows of its query in order exactly when no row fits
onto the first page behind one that did not. The property: the first page
succeeds, the requests for more come to an end (after at most as many
requests as there are rows), and all pages together are the rows. -/
theorem fileCursor_pages_eq_iff (rows : List (Option Pgbson))
    (hsize : ∀ d ∈ rows.reduceOption, d.size.toNat ≤ bsonMaxAllowedSize) (batchSize : Int32)
    (accumulatedSize : UInt32) (batchSizes : Nat → Int32) (hbatch : ∀ i, 0 < batchSizes i)
    (accumulatedSizes : Nat → UInt32) (fuel : Nat) (hfuel : rows.length < fuel) :
    (∃ firstPage state pages, createAndDrainPersistedQueryWithFiles Pgbson.size batchSize
          accumulatedSize false rows = some (firstPage, state)
      ∧ drainAll Pgbson.size batchSizes accumulatedSizes fuel 0 state = some pages
      ∧ firstPage ++ pages.flatten = rows.reduceOption)
    ↔ nothingFitsLate Pgbson.size batchSize 0 accumulatedSize rows.reduceOption = true := by
  rw [← splitPage_append_eq_iff, createAndDrain_eq _ _ _ _ hsize]
  set file := (splitPage Pgbson.size batchSize 0 accumulatedSize rows.reduceOption).2 with hfile
  have hlen : file.length < fuel := by
    have h₁ := length_splitPage_snd_le Pgbson.size batchSize 0 accumulatedSize rows.reduceOption
    have h₂ := reduceOption_length_le rows
    rw [hfile]
    omega
  -- the later pages are the file
  obtain ⟨pages, hpages, hflat⟩ : ∃ pages, drainAll Pgbson.size batchSizes accumulatedSizes fuel 0
        (if file = [] then none else some ⟨file, 0⟩) = some pages
      ∧ pages.flatten = file := by
    by_cases hnil : file = []
    · rw [if_pos hnil, hnil]
      cases fuel <;> exact ⟨[], rfl, rfl⟩
    · rw [if_neg hnil]
      exact drainAll_spec Pgbson.size hbatch accumulatedSizes fuel 0 ⟨file, 0⟩ hlen fun d hd =>
          hsize d (mem_of_mem_splitPage_snd hd)
  constructor
  · rintro ⟨firstPage, state, pages', hfirst, hrun, hall⟩
    cases hfirst
    rw [hpages] at hrun
    cases hrun
    rw [← hflat]
    exact hall
  · intro hall
    exact ⟨_, _, pages, rfl, hpages, by rw [hflat]; exact hall⟩

-- ==== two cursors

theorem length_stringBelowA (n : Nat) :
    (encodeDoc [([97], .utf8 (List.replicate n 120))]).length = n + 13 := by
  simp [encodeDoc, frame, encodeFields, encodeValue, encodeString]
  omega

theorem length_lt_of_lt {n : Nat} (hn : n < 2 ^ 25) :
    (encodeDoc [([97], .utf8 (List.replicate n 120))]).length < 2 ^ 31 := by
  rw [length_stringBelowA]
  omega

/-- The document with a string of a given length below `a`. -/
def stringBelowA (n : Nat) (hn : n < 2 ^ 25) : Pgbson where
  fields := [([97], .utf8 (List.replicate n 120))]
  namesOk := by simp [namesOkFields, Value.namesOk]
  size_lt := length_lt_of_lt hn

theorem size_stringBelowA (n : Nat) (hn : n < 2 ^ 25) :
    (stringBelowA n hn).size = UInt32.ofNat (n + 13) :=
  congrArg UInt32.ofNat (length_stringBelowA n)

/-- A short document, one of the greatest size, and another short one. -/
def shortDocument : Pgbson := stringBelowA 1 (by norm_num)

@[irreducible] def greatDocument : Pgbson := stringBelowA 16777203 (by norm_num)

theorem size_shortDocument : shortDocument.size = 14 := size_stringBelowA 1 _

theorem size_greatDocument : greatDocument.size = 16777216 := by
  unfold greatDocument
  exact size_stringBelowA 16777203 _

/-- Short documents, one to a page. -/
theorem short_documents_in_order : ∃ firstPage state pages,
      createAndDrainPersistedQueryWithFiles Pgbson.size 1 0 false
          [some shortDocument, some shortDocument] = some (firstPage, state)
      ∧ drainAll Pgbson.size (fun _ => 1) (fun _ => 0) 3 0 state = some pages
      ∧ firstPage ++ pages.flatten = [shortDocument, shortDocument] := by
  refine (fileCursor_pages_eq_iff [some shortDocument, some shortDocument]
    ?_ 1 0 (fun _ => 1) (fun _ => by decide) (fun _ => 0) 3
    (by decide)).2 ?_
  · intro d hd
    have : d = shortDocument := by simpa [reduceOption] using hd
    rw [this, size_shortDocument]
    decide
  · simp only [reduceOption, filterMap_cons, id,
      filterMap_nil, nothingFitsLate, fitsOnPage, size_shortDocument]
    decide

/-- The short document behind the great one overtakes it. -/
theorem short_document_overtakes : createAndDrainPersistedQueryWithFiles Pgbson.size 101 0 false
        [some shortDocument, some greatDocument, some shortDocument]
      = some ([shortDocument, shortDocument], some ⟨[greatDocument], 0⟩)
    ∧ drainAll Pgbson.size (fun _ => 101) (fun _ => 0) 4 0
        (some ⟨[greatDocument], 0⟩) = some [[greatDocument]]
    ∧ [shortDocument, shortDocument] ++ [[greatDocument]].flatten
      ≠ [shortDocument, greatDocument, shortDocument] := by
  have hfirst : fitsOnPage Pgbson.size 101 0 0 shortDocument = true := by
    decide +kernel
  have hgreat : fitsOnPage Pgbson.size 101 (0 + 1)
      (0 + (shortDocument.size + perDocOverhead)) greatDocument = false := by
    simp only [fitsOnPage, size_shortDocument, size_greatDocument]
    decide +kernel
  have hshort : fitsOnPage Pgbson.size 101 (0 + 1)
      (0 + (shortDocument.size + perDocOverhead)) shortDocument = true := by
    decide +kernel
  have halone : fitsOnPage Pgbson.size 101 0 0 greatDocument = true :=
    fitsOnPage_first _ (by decide +kernel) _ _
  have hallowed : ¬bsonMaxAllowedSize < greatDocument.size.toNat := by
    rw [size_greatDocument]
    decide +kernel
  have hsplit : splitPage Pgbson.size 101 0 0 [shortDocument, greatDocument, shortDocument]
        = ([shortDocument, shortDocument], [greatDocument]) := by
    rw [splitPage, if_pos hfirst, splitPage, if_neg (by rw [hgreat]; simp),
      splitPage, if_pos hshort, splitPage]
  refine ⟨?_, ?_, ?_⟩
  · rw [createAndDrain_eq]
    · rw [reduceOption_cons_of_some, reduceOption_cons_of_some, reduceOption_cons_of_some,
        reduceOption_nil, hsplit, if_neg (cons_ne_nil _ _)]
    · intro d hd
      have hd' : d = shortDocument ∨ d = greatDocument
          ∨ d = shortDocument := by simpa [reduceOption] using hd
      rcases hd' with rfl | rfl | rfl
      · rw [size_shortDocument]
        decide +kernel
      · exact not_lt.1 hallowed
      · rw [size_shortDocument]
        decide +kernel
  · simp [drainAll, drainPersistedFileCursor, drainLoop, CursorFileState.deserialize,
      CursorFileState.read, bsonStoreDestReceiveCore, createBsonStoreTupleDestReceiver, hallowed,
      halone]
  · intro h
    have hsame : shortDocument.size = greatDocument.size :=
      congrArg Pgbson.size (List.cons.inj (List.cons.inj h).2).1
    rw [size_shortDocument, size_greatDocument] at hsame
    exact absurd hsame (by decide +kernel)

end DocumentDb
