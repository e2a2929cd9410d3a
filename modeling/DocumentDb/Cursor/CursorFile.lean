/-
The file of a cursor: how it is written.

A document is written as a length word and the bytes of its datum, through a buffer of one
block that is flushed when it is full, when not even the length word fits, and at the end.
The place of the next block is a counter of 32 bits; the limit for the file is compared with
it after it was advanced. The proofs follow the blocks that were flushed and the bytes in
the buffer (`Holds`). A `FileWrite` writes all it is given, and a `FileRead` stops only at
the end.
-/
import DocumentDb.Bson.Encode
import DocumentDb.Lib.Except
import DocumentDb.Lib.Memory

namespace DocumentDb.CursorStore

open List

open Wire (leBytes leNat)

-- ==== the file

def blckSz : Nat := 8192

/-- A file: its contents, and where and how much was written by each call of
`FileWrite`. -/
structure File where
  contents : Bytes := []
  writes : List (Nat × Nat) := []

/-- `FileWrite`. What is between the end of the file and the offset is zero. -/
def File.write (file : File) (offset : Nat) (data : Bytes) : File where
  contents :=
    let padded := file.contents ++ List.replicate (offset - file.contents.length) 0
    padded.take offset ++ data ++ padded.drop (offset + data.length)
  writes := file.writes ++ [(offset, data.length)]

/-- `FileRead`. -/
def File.read (file : File) (offset n : Nat) : Bytes := (file.contents.drop offset).take n

structure CursorFileState where
  bufFile : File
  fileOffset : UInt32 := 0
  fileLength : UInt32 := 0
  isReadWrite : Bool
  buffer : Bytes := List.replicate blckSz 0
  pos : Nat := 0
  nbytes : Nat := 0
  nextOffset : UInt32 := 0
  cursorComplete : Bool := false

/-- Why a call does not return: the limit was exceeded, a length in the file is too
great, memory was accessed that is not there, or the rounds of a loop were used
up. -/
inductive CursorFileError where
  | sizeLimit (fileOffset : UInt32) (limit : Nat)
  | invalidSize (length : Nat)
  | outOfBounds
  | outOfFuel
  deriving DecidableEq

-- ==== writing

variable (limit : Nat) (s : CursorFileState)

/-- With `MaxAllowedCursorIntermediateFileSizeMB`. -/
def flushBuffer : Except CursorFileError CursorFileState :=
  if 0 < s.pos then
    match Memory.load s.buffer 0 s.pos with
    | none => .error .outOfBounds
    | some data =>
      let s := { s with
        bufFile := s.bufFile.write s.fileOffset.toNat data
        fileOffset := s.fileOffset + UInt32.ofNat s.pos
        pos := 0 }
      if limit * 1024 * 1024 < s.fileOffset.toNat then
        .error (.sizeLimit s.fileOffset limit)
      else .ok s
  else .ok s

/-- A `memcpy` from a datum into the buffer. -/
def copyToBuffer (data : Bytes) (n : Nat) : Except CursorFileError CursorFileState :=
  match (Memory.load data 0 n).bind (Memory.store s.buffer s.pos) with
  | none => .error .outOfBounds
  | some buffer => .ok { s with buffer := buffer, pos := s.pos + n }

/-- The loop of `WriteToCursorFile`. The fuel bounds its rounds. -/
def writeLoop (limit : Nat) : Nat → CursorFileState → Bytes → Nat →
    Except CursorFileError CursorFileState
  | 0, _, _, _ => .error .outOfFuel
  | fuel + 1, s, data, dataSize =>
    let sizeRemaining := blckSz - s.pos
    if dataSize = 0 then .ok s
    else if dataSize ≤ sizeRemaining then copyToBuffer s data dataSize
    else do
      let s ← copyToBuffer s data sizeRemaining
      let s ← flushBuffer limit s
      writeLoop limit fuel s (data.drop sizeRemaining) (dataSize - sizeRemaining)

/-- There is not enough room to write even the length: the buffer is flushed. -/
def makeRoom : Except CursorFileError CursorFileState :=
  if blckSz - s.pos < 4 then flushBuffer limit s else .ok s

/-- Of a datum and the memory behind it. -/
def writeToCursorFile (memory : Bytes) : Except CursorFileError CursorFileState := do
  let s ← makeRoom limit s
  let dataSize := varsize memory
  let s ← copyToBuffer s (leBytes 4 dataSize) 4
  writeLoop limit (dataSize + 2) s memory dataSize

/-- The documents of a cursor are written one after the other. -/
def writeDocuments (limit : Nat) : CursorFileState → List Bytes →
    Except CursorFileError CursorFileState
  | s, [] => .ok s
  | s, memory :: memories => do
    let s ← writeToCursorFile limit s memory
    writeDocuments limit s memories

/-- A file that was written and closed: `CreateCursorFile`, `WriteToCursorFile`
for each document, and what `CursorFileStateClose` does to the file. -/
def writeFile (memories : List Bytes) : Except CursorFileError CursorFileState := do
  let s ← writeDocuments limit { bufFile := {}, isReadWrite := true } memories
  flushBuffer limit s

-- ==== blocks and the file

def flushed (chunks : List Bytes) : File :=
  (chunks.foldl (fun p chunk =>
    (p.1.write (p.2 % 2 ^ 32) chunk, p.2 + chunk.length)) (({} : File), 0)).1

theorem flushed_concat (chunks : List Bytes) (chunk : Bytes) : flushed (chunks ++ [chunk])
      = (flushed chunks).write (chunks.flatten.length % 2 ^ 32) chunk := by
  have htotal : ∀ (chunks : List Bytes) (p : File × Nat), (chunks.foldl (fun p chunk =>
        (p.1.write (p.2 % 2 ^ 32) chunk, p.2 + chunk.length)) p).2
        = p.2 + chunks.flatten.length := by
    intro chunks
    induction chunks with
    | nil => exact fun p => rfl
    | cons c chunks ih =>
      intro p
      rw [foldl_cons, ih, flatten_cons, length_append, Nat.add_assoc]
  unfold flushed
  rw [foldl_append]
  show ((_ : File).write (_ % 2 ^ 32) chunk) = _
  rw [htotal, Nat.zero_add]

/-- What is true of a file that is being written: the blocks that were flushed, the
bytes in the buffer, and that every flush has passed the check. -/
structure Holds (limit : Nat) (s : CursorFileState) (chunks : List Bytes)
    (pending : Bytes) : Prop where
  isReadWrite : s.isReadWrite = true
  cursorComplete : s.cursorComplete = false
  bufFile : s.bufFile = flushed chunks
  fileOffset : s.fileOffset = UInt32.ofNat chunks.flatten.length
  buffer : s.buffer.length = blckSz
  pos : s.pos = pending.length
  pending : s.buffer.take s.pos = pending
  pos_le : s.pos ≤ blckSz
  chunk : ∀ chunk ∈ chunks, 0 < chunk.length ∧ chunk.length ≤ blckSz
  passed : ∀ before after, chunks = before ++ after →
    before.flatten.length % 2 ^ 32 ≤ limit * 1024 * 1024

/-- How writing ends up: everything is in the file or in the buffer, or at some
place before the end the check failed. -/
def Outcome (stream : Bytes) (left : Nat)
    (result : Except CursorFileError CursorFileState) : Prop :=
  (∃ s chunks pending, result = .ok s ∧ Holds limit s chunks pending
    ∧ chunks.flatten ++ pending = stream ∧ pending.length = left)
  ∨ ∃ place offset, place ≤ stream.length ∧ limit * 1024 * 1024 < place % 2 ^ 32
    ∧ result = .error (.sizeLimit offset limit)

section Writing

variable {limit : Nat} {s : CursorFileState} {chunks : List Bytes}
  {pending stream : Bytes}

theorem Holds.initial : Holds limit { bufFile := {}, isReadWrite := true } [] [] where
  isReadWrite := rfl
  cursorComplete := rfl
  bufFile := rfl
  fileOffset := rfl
  buffer := length_replicate
  pos := rfl
  pending := rfl
  pos_le := Nat.zero_le _
  chunk := nofun
  passed before after h := by
    obtain ⟨rfl, -⟩ := append_eq_nil_iff.1 h.symm
    exact Nat.zero_le _

/-- The blocks after a flush. An empty buffer is no block. -/
def withPending (chunks : List Bytes) (pending : Bytes) : List Bytes :=
  if pending = [] then chunks else chunks ++ [pending]

theorem flatten_withPending (chunks : List Bytes) (pending : Bytes) :
    (withPending chunks pending).flatten = chunks.flatten ++ pending := by
  unfold withPending
  split
  · rename_i hnil
    rw [hnil, append_nil]
  · rw [flatten_append, flatten_singleton]

section Flush

variable (h : Holds limit s chunks pending) (hstream : chunks.flatten ++ pending = stream)

include h hstream

theorem Holds.flush {s' : CursorFileState} (hne : pending ≠ [])
    (hlimit : stream.length % 2 ^ 32 ≤ limit * 1024 * 1024) (hs' : s' = { s with
      bufFile := s.bufFile.write s.fileOffset.toNat pending
      fileOffset := UInt32.ofNat stream.length
      pos := 0 }) :
    Holds limit s' (chunks ++ [pending]) [] := by
  subst hs'
  have hflat : (chunks ++ [pending]).flatten = stream := by
    rw [flatten_append, flatten_singleton]
    exact hstream
  refine ⟨h.isReadWrite, h.cursorComplete, ?_, ?_, h.buffer, rfl, rfl, Nat.zero_le _, ?_, ?_⟩
  · show s.bufFile.write s.fileOffset.toNat pending = _
    rw [flushed_concat, h.bufFile, h.fileOffset, UInt32.toNat_ofNat']
  · rw [hflat]
  · intro chunk hchunk
    rcases mem_append.1 hchunk with hold | hnew
    · exact h.chunk chunk hold
    · rw [mem_singleton.1 hnew]
      refine ⟨length_pos_iff.2 hne, ?_⟩
      rw [← h.pos]
      exact h.pos_le
  · intro before after hsplit
    rcases eq_nil_or_concat after with rfl | ⟨rest, last, rfl⟩
    · rw [append_nil] at hsplit
      rw [← hsplit, hflat]
      exact hlimit
    · rw [concat_eq_append, ← append_assoc] at hsplit
      obtain ⟨hold, -⟩ := append_inj' hsplit rfl
      exact h.passed before rest hold

theorem flushBuffer_cases :
    (∃ s', flushBuffer limit s = .ok s' ∧ Holds limit s' (withPending chunks pending) [])
    ∨ limit * 1024 * 1024 < stream.length % 2 ^ 32
      ∧ flushBuffer limit s = .error (.sizeLimit (UInt32.ofNat stream.length) limit) := by
  unfold flushBuffer withPending
  by_cases hnil : pending = []
  · have hpos : ¬ 0 < s.pos := by
      rw [h.pos, hnil]
      exact Nat.lt_irrefl 0
    rw [if_neg hpos, if_pos hnil, ← hnil]
    exact Or.inl ⟨s, rfl, h⟩
  have hpos : 0 < s.pos := by
    rw [h.pos]
    exact length_pos_iff.2 hnil
  rw [if_pos hpos, if_neg hnil, Memory.load_zero (by rw [h.buffer]; exact h.pos_le), h.pending]
  dsimp only
  have hoffset : s.fileOffset + UInt32.ofNat s.pos = UInt32.ofNat stream.length := by
    rw [h.fileOffset, h.pos, ← UInt32.ofNat_add, ← length_append, hstream]
  have htoNat : (UInt32.ofNat stream.length).toNat = stream.length % 2 ^ 32 := UInt32.toNat_ofNat'
  rw [hoffset, htoNat]
  by_cases hlimit : limit * 1024 * 1024 < stream.length % 2 ^ 32
  · rw [if_pos hlimit]
    exact Or.inr ⟨hlimit, rfl⟩
  · rw [if_neg hlimit]
    exact Or.inl ⟨_, rfl, h.flush hstream hnil (Nat.not_lt.1 hlimit) rfl⟩

theorem flushBuffer_outcome : Outcome limit stream 0 (flushBuffer limit s) := by
  rcases flushBuffer_cases h hstream with ⟨s', hok, hholds⟩ | ⟨hlimit, herror⟩
  · refine Or.inl ⟨s', _, [], hok, hholds, ?_, rfl⟩
    rw [flatten_withPending, append_nil, hstream]
  · exact Or.inr ⟨stream.length, _, Nat.le_refl _, hlimit, herror⟩

end Flush

theorem copyToBuffer_holds (h : Holds limit s chunks pending) {data : Bytes}
    {n : Nat} (hn : n ≤ data.length) (hfits : s.pos + n ≤ blckSz) :
    ∃ s', copyToBuffer s data n = .ok s' ∧ Holds limit s' chunks (pending ++ data.take n) := by
  have hlength : (data.take n).length = n := length_take_of_le hn
  obtain ⟨buffer, hstore⟩ := @Memory.exists_store _ s.buffer (data.take n) s.pos
    (by rw [hlength, h.buffer]; exact hfits)
  refine ⟨{ s with buffer := buffer, pos := s.pos + n }, ?_, ?_⟩
  · unfold copyToBuffer
    rw [Memory.load_zero hn, Option.bind_some, hstore]
  · refine ⟨h.isReadWrite, h.cursorComplete, h.bufFile, h.fileOffset,
      ?_, ?_, ?_, hfits, h.chunk, h.passed⟩
    · exact (Memory.length_store hstore).trans h.buffer
    · rw [length_append, hlength, ← h.pos]
    · show buffer.take (s.pos + n) = _
      have htake := Memory.take_store hstore
      rw [hlength, h.pending] at htake
      exact htake

theorem Outcome.bind {left left' : Nat} {more : Bytes}
    {result : Except CursorFileError CursorFileState}
    {f : CursorFileState → Except CursorFileError CursorFileState}
    (h : Outcome limit stream left result)
    (hf : ∀ {s chunks pending}, Holds limit s chunks pending →
      chunks.flatten ++ pending = stream → pending.length = left →
      Outcome limit (stream ++ more) left' (f s)) :
    Outcome limit (stream ++ more) left' (result >>= f) := by
  rcases h with ⟨s, chunks, pending, rfl, hholds, hstream, hleft⟩
    | ⟨place, offset, hplace, hlimit, rfl⟩
  · exact hf hholds hstream hleft
  · refine Or.inr ⟨place, offset, ?_, hlimit, rfl⟩
    rw [length_append]
    exact Nat.le_add_right_of_le hplace

/-- How far the buffer is filled after some bytes more. It is never flushed before
a byte has to follow. -/
def fillTo (pos n : Nat) : Nat := if pos + n = 0 then 0 else (pos + n - 1) % blckSz + 1

variable {pos n : Nat} {memory : Bytes} {memories : List Bytes}

theorem fillTo_of_le (h : pos + n ≤ blckSz) : fillTo pos n = pos + n := by
  unfold fillTo
  split
  · omega
  · rw [Nat.mod_eq_of_lt (by omega)]
    omega

theorem fillTo_flush (hpos : pos ≤ blckSz) (h : blckSz - pos < n) :
    fillTo 0 (n - (blckSz - pos)) = fillTo pos n := by
  unfold fillTo
  rw [blckSz] at hpos h ⊢
  rw [if_neg (by omega), if_neg (by omega)]
  omega

variable (h : Holds limit s chunks pending) (hstream : chunks.flatten ++ pending = stream)

include h hstream in
theorem writeLoop_outcome {fuel : Nat} {data : Bytes} {dataSize : Nat}
    (hsize : dataSize ≤ data.length)
    (hfuel : dataSize + 1 < fuel ∨ (s.pos < blckSz ∧ dataSize < fuel)) :
    Outcome limit (stream ++ data.take dataSize) (fillTo pending.length dataSize)
      (writeLoop limit fuel s data dataSize) := by
  induction fuel generalizing s chunks pending stream data dataSize with
  | zero => omega
  | succ fuel ih =>
    have hpos := h.pos_le
    have hlen := h.pos
    unfold writeLoop
    by_cases hzero : dataSize = 0
    · rw [if_pos hzero, hzero, take_zero, append_nil, fillTo_of_le (by omega)]
      exact Or.inl ⟨s, chunks, pending, rfl, h, hstream, rfl⟩
    rw [if_neg hzero]
    by_cases hfits : dataSize ≤ blckSz - s.pos
    · rw [if_pos hfits]
      obtain ⟨s', hcopy, hholds⟩ := copyToBuffer_holds h hsize (by omega)
      refine Or.inl ⟨s', chunks, _, hcopy, hholds, ?_, ?_⟩
      · rw [← append_assoc, hstream]
      · rw [length_append, length_take_of_le hsize, fillTo_of_le (by omega)]
    rw [if_neg hfits]
    -- the block is filled and flushed, and the rest follows
    have hsplit : data.take dataSize = data.take (blckSz - s.pos)
        ++ (data.drop (blckSz - s.pos)).take (dataSize - (blckSz - s.pos)) := by
      rw [← take_add, Nat.add_sub_cancel' (by omega)]
    obtain ⟨s', hcopy, hholds⟩ :=
      @copyToBuffer_holds _ _ _ _ h data (blckSz - s.pos) (by omega) (by omega)
    rw [hcopy, Except.ok_bind, hsplit, ← append_assoc]
    have hflush : Outcome limit (stream ++ data.take (blckSz - s.pos)) 0 (flushBuffer limit s') :=
      flushBuffer_outcome hholds (by rw [← append_assoc, hstream])
    refine hflush.bind fun {s'' chunks' pending'} hholds' hstream' hleft => ?_
    have hpos' := hholds'.pos
    have hsize' : dataSize - (blckSz - s.pos) ≤ (data.drop (blckSz - s.pos)).length := by
      rw [length_drop]
      omega
    have hrest := ih hholds' hstream' hsize' (by rw [blckSz] at *; omega)
    rw [hleft, fillTo_flush (by omega) (by omega), hlen] at hrest
    rw [hlen]
    exact hrest

def record (memory : Bytes) : Bytes := leBytes 4 (varsize memory) ++ memory.take (varsize memory)

/-- How far the buffer is filled after a document of a size. -/
def afterRecord (pos size : Nat) : Nat := fillTo (if blckSz - pos < 4 then 0 else pos) (4 + size)

theorem fillTo_add (pos m n : Nat) : fillTo (pos + m) n = fillTo pos (m + n) := by
  unfold fillTo
  rw [Nat.add_assoc]

include h hstream in
theorem writeToCursorFile_outcome (hsize : varsize memory ≤ memory.length) :
    Outcome limit (stream ++ record memory) (afterRecord pending.length (varsize memory))
      (writeToCursorFile limit s memory) := by
  -- there is room for the length word
  have hroom : Outcome limit stream (if blckSz - pending.length < 4 then 0 else pending.length)
      (makeRoom limit s) := by
    rw [makeRoom, h.pos]
    split
    · exact flushBuffer_outcome h hstream
    · exact Or.inl ⟨s, chunks, pending, rfl, h, hstream, rfl⟩
  have hfits : (if blckSz - pending.length < 4 then 0 else pending.length) + 4 ≤ blckSz := by
    rw [blckSz]
    split
    · omega
    · omega
  unfold writeToCursorFile
  refine hroom.bind fun {s' chunks' pending'} hholds hstream' hleft => ?_
  rw [← hleft, ← hholds.pos] at hfits
  obtain ⟨s'', hcopy, hholds'⟩ := @copyToBuffer_holds _ _ _ _ hholds
    (leBytes 4 (varsize memory)) 4 (by rw [Wire.length_leBytes]) hfits
  have hword : (leBytes 4 (varsize memory)).take 4 = leBytes 4 (varsize memory) := by
    apply take_of_length_le
    rw [Wire.length_leBytes]
  rw [hword] at hholds'
  dsimp only
  rw [hcopy, Except.ok_bind]
  have hloop := writeLoop_outcome hholds' rfl hsize (Or.inl (Nat.lt_succ_self _))
  rw [length_append, Wire.length_leBytes, hleft,
    fillTo_add, ← append_assoc, hstream', append_assoc] at hloop
  exact hloop

def fileSize (memories : List Bytes) : Nat := (memories.map fun memory => 4 + varsize memory).sum

def lastBlock (memories : List Bytes) : Nat :=
  memories.foldl (fun pos memory => afterRecord pos (varsize memory)) 0

theorem length_record (h : varsize memory ≤ memory.length) :
    (record memory).length = 4 + varsize memory := by
  rw [record, length_append, Wire.length_leBytes, length_take_of_le h]

include h hstream in
theorem writeDocuments_outcome (hsize : ∀ memory ∈ memories, varsize memory ≤ memory.length) :
    Outcome limit (stream ++ (memories.map record).flatten)
      (memories.foldl (fun pos memory => afterRecord pos (varsize memory)) pending.length)
      (writeDocuments limit s memories) := by
  induction memories generalizing s chunks pending stream with
  | nil =>
    rw [map_nil, flatten_nil, append_nil]
    exact Or.inl ⟨s, chunks, pending, rfl, h, hstream, rfl⟩
  | cons memory memories ih =>
    obtain ⟨hfirst, hsize⟩ := forall_mem_cons.1 hsize
    have hwrite := writeToCursorFile_outcome h hstream hfirst
    rw [map_cons, flatten_cons, ← append_assoc]
    refine hwrite.bind fun hholds hstream' hleft => ?_
    rw [foldl_cons, ← hleft]
    exact ih hholds hstream' hsize

variable (hsize : ∀ memory ∈ memories, varsize memory ≤ memory.length)

include hsize

theorem writeDocuments_initial_outcome :
    Outcome limit (memories.map record).flatten (lastBlock memories)
      (writeDocuments limit { bufFile := {}, isReadWrite := true } memories) :=
  writeDocuments_outcome .initial rfl hsize

theorem writeFile_ok (hok : writeFile limit memories = .ok s) :
    ∃ chunks pending, Holds limit s (withPending chunks pending) []
      ∧ chunks.flatten ++ pending = (memories.map record).flatten
      ∧ pending.length = lastBlock memories := by
  obtain ⟨s', hwrite, hflush⟩ := Except.bind_eq_ok hok
  rcases @writeDocuments_initial_outcome limit _ hsize with
    ⟨s'', chunks, pending, hok', hholds, hstream, hleft⟩
    | ⟨place, offset, -, -, herror⟩
  · cases hwrite.symm.trans hok'
    rcases flushBuffer_cases hholds hstream with ⟨t, ht, hholds'⟩ | ⟨-, herror⟩
    · cases hflush.symm.trans ht
      exact ⟨chunks, pending, hholds', hstream, hleft⟩
    · rw [herror] at hflush
      cases hflush
  · rw [herror] at hwrite
    cases hwrite

theorem exists_writeFile (hlimit : ∀ place ≤ (memories.map record).flatten.length,
      place % 2 ^ 32 ≤ limit * 1024 * 1024) : ∃ s, writeFile limit memories = .ok s := by
  rcases @writeDocuments_initial_outcome limit _ hsize with
    ⟨s, chunks, pending, hok, hholds, hstream, -⟩ | ⟨place, -, hplace, hlt, -⟩
  · rcases flushBuffer_cases hholds hstream with ⟨t, ht, -⟩ | ⟨hlt, -⟩
    · refine ⟨t, ?_⟩
      rw [writeFile, hok]
      exact ht
    · exact absurd (hlimit _ (Nat.le_refl _)) (Nat.not_le.2 hlt)
  · exact absurd (hlimit place hplace) (Nat.not_le.2 hlt)

theorem length_records : (memories.map record).flatten.length = fileSize memories := by
  unfold fileSize
  rw [length_flatten, map_map]
  refine congrArg List.sum (map_congr_left fun memory hmemory => ?_)
  exact length_record (hsize memory hmemory)

end Writing

end DocumentDb.CursorStore
