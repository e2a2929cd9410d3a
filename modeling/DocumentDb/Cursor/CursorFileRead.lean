/-
The file of a cursor: how it is read.

A session reads blocks from the offset that the session before left, which are other blocks
than were written: a length word or a document can begin in one and end in the next. The
offset for the next session is where the last document begins, so that it is read a second
time.

The proofs follow the offset of the next byte (`Reads`). Below `2 ^ 32` the counter is that
offset, and a session reads the records from there on (`readSession_records`); in a greater
file no session comes to the end (`fillBuffer_ne_none`).
-/
import DocumentDb.Cursor.CursorFile

namespace DocumentDb.CursorStore

open List Nat

open Wire (leBytes leNat)

-- ==== reading

def bsonMaxSize : Nat := 2 ^ 31 - 1

variable (s : CursorFileState)

def refill : Except CursorFileError CursorFileState :=
  if s.nbytes = 0 then
    let data := s.bufFile.read s.nextOffset.toNat blckSz
    match Memory.store s.buffer 0 data with
    | none => .error .outOfBounds
    | some buffer =>
      .ok { s with
        buffer := buffer
        nbytes := data.length
        pos := 0
        cursorComplete := s.cursorComplete || data.isEmpty }
  else .ok s

/-- With the bytes that were read, or nothing at the end of the file. The fuel bounds the
rounds of the loop. -/
def fillBuffer : Nat → CursorFileState → Nat →
    Except CursorFileError (Option Bytes × CursorFileState)
  | 0, _, _ => .error .outOfFuel
  | fuel + 1, s, length =>
    if length = 0 then .ok (some [], s)
    else do
      let s ← refill s
      -- only a read that has found nothing leaves the buffer empty
      if s.nbytes = 0 then .ok (none, s)
      else
        let currentAvailable := s.nbytes - s.pos
        if length ≤ currentAvailable then
          match Memory.load s.buffer s.pos length with
          | none => .error .outOfBounds
          | some data =>
            .ok (some data, { s with
              pos := s.pos + length
              nextOffset := s.nextOffset + UInt32.ofNat length })
        else
          match Memory.load s.buffer s.pos currentAvailable with
          | none => .error .outOfBounds
          | some data => do
            let (rest, s) ← fillBuffer fuel
              { s with
                pos := 0
                nbytes := 0
                nextOffset := s.nextOffset + UInt32.ofNat currentAvailable }
              (length - currentAvailable)
            .ok (rest.map (data ++ ·), s)

def readBody (length : Nat) : Except CursorFileError (Option Bytes × CursorFileState) :=
  if bsonMaxSize < length then .error (.invalidSize length)
  else fillBuffer (length + 2) s length

def readFromCursorFile : Except CursorFileError (Option Bytes × CursorFileState) := do
  -- first the stream is advanced by what was returned before
  let (word, s) ← fillBuffer 6 { s with fileOffset := s.nextOffset } 4
  match word with
  | none => .ok (none, s)
  | some word => readBody s (leNat word)

/-- Without the name of the file. -/
structure SerializedCursorState where
  fileOffset : UInt32
  fileLength : UInt32

def deserializeFileState (file : File) (state : SerializedCursorState) : CursorFileState where
  bufFile := file
  fileOffset := state.fileOffset
  fileLength := state.fileLength
  isReadWrite := false
  nextOffset := state.fileOffset

/-- `CursorFileStateClose` flushes a file that was written, and reading will start
at its beginning. -/
def finishWriting (limit : Nat) (s : CursorFileState) : Except CursorFileError CursorFileState :=
  if s.isReadWrite then do
    let s ← flushBuffer limit s
    .ok { s with fileLength := s.fileOffset, fileOffset := 0 }
  else .ok s

/-- The file, and the state for the next session unless the cursor is complete. -/
def cursorFileStateClose (limit : Nat) (s : CursorFileState) :
    Except CursorFileError (File × Option SerializedCursorState) := do
  let s ← finishWriting limit s
  .ok (s.bufFile, if s.cursorComplete then none else some ⟨s.fileOffset, s.fileLength⟩)

/-- The calls of `ReadFromCursorFile` in a session: some number of calls, but none
after one that has returned `NULL`. -/
def readSession : Nat → CursorFileState →
    Except CursorFileError (List (Option Bytes) × CursorFileState)
  | 0, s => .ok ([], s)
  | calls + 1, s => do
    let (document, s) ← readFromCursorFile s
    match document with
    | none => .ok ([none], s)
    | some document => do
      let (rest, s) ← readSession calls s
      .ok (some document :: rest, s)

/-- Sessions, given how many calls each wants to make, up to the one that completes
the cursor. -/
def readSessions (limit : Nat) (file : File) : SerializedCursorState → List Nat →
    Except CursorFileError (List (List (Option Bytes)))
  | _, [] => .ok []
  | state, calls :: sessions => do
    let (documents, s) ← readSession calls (deserializeFileState file state)
    let (_, next) ← cursorFileStateClose limit s
    match next with
    | none => .ok [documents]
    | some state => do
      let rest ← readSessions limit file state sessions
      .ok (documents :: rest)

-- ==== a file below 2 ^ 32 bytes

/-- The next byte of a session is at an offset, and the buffer holds the bytes
around it. -/
structure Reads (contents : Bytes) (s : CursorFileState) (offset : Nat) : Prop where
  file : s.bufFile.contents = contents
  readOnly : s.isReadWrite = false
  small : contents.length < 2 ^ 32
  nextOffset : s.nextOffset.toNat = offset
  buffer : s.buffer.length = blckSz
  pos_le : s.pos ≤ s.nbytes
  pos_le_offset : s.pos ≤ offset
  nbytes_le : s.nbytes ≤ blckSz
  block : s.buffer.take s.nbytes = (contents.drop (offset - s.pos)).take s.nbytes

section Reading

variable {contents : Bytes} {s : CursorFileState} {offset n calls : Nat} {memories : List Bytes}

section Buffer

variable (h : Reads contents s offset)

include h

theorem Reads.nbytes_le_length : s.nbytes = 0 ∨ offset - s.pos + s.nbytes ≤ contents.length := by
  have hlength := congrArg length h.block
  have hbuffer := h.buffer
  have hle := h.nbytes_le
  rw [length_take, length_take, length_drop] at hlength
  omega

theorem Reads.load (hn : n ≤ s.nbytes - s.pos) :
    Memory.load s.buffer s.pos n = some ((contents.drop offset).take n) := by
  have hle := h.nbytes_le
  have hpos := h.pos_le
  have hoffset := h.pos_le_offset
  rw [Memory.load_of_le (by rw [h.buffer]; omega)]
  have hblock := congrArg (fun bytes => (bytes.drop s.pos).take n) h.block
  rw [drop_take, drop_take, take_take, take_take,
    Nat.min_eq_left hn, drop_drop, Nat.sub_add_cancel hoffset] at hblock
  rw [hblock]

theorem Reads.advance (hn : offset + n ≤ contents.length) :
    (s.nextOffset + UInt32.ofNat n).toNat = offset + n := by
  have hsmall := h.small
  rw [UInt32.toNat_add, UInt32.toNat_ofNat', h.nextOffset, add_mod_mod, mod_eq_of_lt (by omega)]

theorem refill_reads (hlt : offset < contents.length) :
    ∃ s', refill s = .ok s' ∧ Reads contents s' offset ∧ 0 < s'.nbytes
      ∧ s'.fileOffset = s.fileOffset ∧ s'.cursorComplete = s.cursorComplete
      ∧ (0 < s'.nbytes - s'.pos ∨ s' = s) := by
  unfold refill
  by_cases hzero : s.nbytes = 0
  · rw [if_pos hzero]
    have hdata : s.bufFile.read s.nextOffset.toNat blckSz = (contents.drop offset).take blckSz := by
      rw [File.read, h.file, h.nextOffset]
    have hlength : ((contents.drop offset).take blckSz).length
        = min blckSz (contents.length - offset) := by
      rw [length_take, length_drop]
    obtain ⟨buffer, hstore⟩ := @Memory.exists_store _ s.buffer
      ((contents.drop offset).take blckSz) 0 (by rw [hlength, h.buffer]; omega)
    have hpos : 0 < ((contents.drop offset).take blckSz).length := by
      rw [hlength, blckSz]
      omega
    have hempty : ((contents.drop offset).take blckSz).isEmpty = false := by
      rw [isEmpty_eq_false_iff]
      exact ne_nil_of_length_pos hpos
    dsimp only
    rw [hdata, hstore]
    refine ⟨_, rfl, ?_, hpos, rfl, ?_, Or.inl hpos⟩
    · refine ⟨h.file, h.readOnly, h.small, h.nextOffset, ?_, Nat.zero_le _, Nat.zero_le _, ?_, ?_⟩
      · exact (Memory.length_store hstore).trans h.buffer
      · show length _ ≤ blckSz
        rw [hlength]
        exact Nat.min_le_left _ _
      · have htake := Memory.take_store hstore
        rw [Nat.zero_add, take_zero, nil_append] at htake
        show buffer.take _ = _
        rw [htake, Nat.sub_zero, hlength, ← take_take]
        apply congrArg (take blckSz)
        apply (take_of_length_le _).symm
        rw [length_drop]
    · show (_ || _) = _
      rw [hempty, Bool.or_false]
  · rw [if_neg hzero]
    exact ⟨s, rfl, h, Nat.pos_of_ne_zero hzero, rfl, rfl, Or.inr rfl⟩

theorem fillBuffer_reads {fuel length : Nat} (hle : offset + length ≤ contents.length)
    (hfuel : length + 1 < fuel ∨ (length < fuel ∧ (s.nbytes = 0 ∨ s.pos < s.nbytes))) :
    ∃ s', fillBuffer fuel s length = .ok (some ((contents.drop offset).take length), s')
      ∧ Reads contents s' (offset + length)
      ∧ s'.fileOffset = s.fileOffset ∧ s'.cursorComplete = s.cursorComplete := by
  induction fuel generalizing s offset length with
  | zero => omega
  | succ fuel ih =>
    unfold fillBuffer
    by_cases hzero : length = 0
    · rw [if_pos hzero, hzero]
      exact ⟨s, rfl, h, rfl, rfl⟩
    obtain ⟨s', hrefill, h', hnbytes, hsame, hcomplete, havail⟩ := refill_reads h (by omega)
    rw [if_neg hzero, hrefill, Except.ok_bind, if_neg (Nat.ne_of_gt hnbytes)]
    by_cases hfits : length ≤ s'.nbytes - s'.pos
    · -- the rest is in the buffer
      rw [if_pos hfits, h'.load hfits]
      refine ⟨_, rfl, ?_, hsame, hcomplete⟩
      refine ⟨h'.file, h'.readOnly, h'.small, h'.advance hle, h'.buffer, ?_, ?_, h'.nbytes_le, ?_⟩
      · show s'.pos + length ≤ s'.nbytes
        omega
      · exact Nat.add_le_add_right h'.pos_le_offset length
      · show s'.buffer.take s'.nbytes
          = (contents.drop (offset + length - (s'.pos + length))).take s'.nbytes
        rw [Nat.add_sub_add_right]
        exact h'.block
    · -- the buffer is used up, and the loop goes on with the next block
      rw [if_neg hfits, h'.load (Nat.le_refl _)]
      have hmore : offset + (s'.nbytes - s'.pos) ≤ contents.length := by omega
      have hused : Reads contents { s' with
          pos := 0
          nbytes := 0
          nextOffset := s'.nextOffset + UInt32.ofNat (s'.nbytes - s'.pos) }
          (offset + (s'.nbytes - s'.pos)) :=
        ⟨h'.file, h'.readOnly, h'.small, h'.advance hmore, h'.buffer,
          Nat.le_refl _, Nat.zero_le _, Nat.zero_le _, rfl⟩
      have hfuel' : length - (s'.nbytes - s'.pos) < fuel := by
        rcases havail with hpos | rfl
        · omega
        · omega
      obtain ⟨s'', hrest, h'', hsame', hcomplete'⟩ :=
        @ih _ _ hused (length - (s'.nbytes - s'.pos)) (by omega) (Or.inr ⟨hfuel', Or.inl rfl⟩)
      dsimp only
      rw [hrest, Except.ok_bind]
      refine ⟨s'', ?_, ?_, hsame'.trans hsame, hcomplete'.trans hcomplete⟩
      · show Except.ok (some (_ ++ _), s'') = _
        rw [← drop_drop, ← take_add, Nat.add_sub_cancel' (by omega)]
      · rw [Nat.add_assoc, Nat.add_sub_cancel' (by omega)] at h''
        exact h''

end Buffer

theorem fillBuffer_end {length : Nat} (h : Reads contents s contents.length)
    (hlength : 0 < length) (fuel : Nat) :
    ∃ s', fillBuffer (fuel + 2) s length = .ok (none, s') ∧ s'.isReadWrite = false
      ∧ s'.cursorComplete := by
  -- a block read at the end finds nothing
  have hend : ∀ (s : CursorFileState) (fuel : Nat),
      Reads contents s contents.length → s.nbytes = 0 →
      ∃ s', fillBuffer (fuel + 1) s length = .ok (none, s')
        ∧ s'.isReadWrite = false ∧ s'.cursorComplete := by
    intro s fuel h hzero
    have hdata : s.bufFile.read s.nextOffset.toNat blckSz = [] := by
      rw [File.read, h.file, h.nextOffset, drop_length, take_nil]
    unfold fillBuffer refill
    rw [if_neg (Nat.ne_of_gt hlength), if_pos hzero]
    dsimp only
    rw [hdata]
    obtain ⟨buffer, hstore⟩ := @Memory.exists_store _ s.buffer [] 0 (Nat.zero_le _)
    exact ⟨_, rfl, h.readOnly, Bool.or_true _⟩
  by_cases hzero : s.nbytes = 0
  · exact hend s _ h hzero
  -- the block that is in the buffer is used up
  have hall : s.nbytes - s.pos = 0 := by
    have hlen := h.nbytes_le_length
    omega
  have hused : Reads contents { s with
      pos := 0
      nbytes := 0
      nextOffset := s.nextOffset + UInt32.ofNat 0 } contents.length :=
    ⟨h.file, h.readOnly, h.small, h.advance (Nat.le_refl _), h.buffer,
      Nat.le_refl _, Nat.zero_le _, Nat.zero_le _, rfl⟩
  obtain ⟨s', hnone, hrest⟩ := hend _ fuel hused rfl
  refine ⟨s', ?_, hrest⟩
  unfold fillBuffer
  rw [if_neg (Nat.ne_of_gt hlength), refill, if_neg hzero, Except.ok_bind, if_neg hzero]
  rw [hall, if_neg (by omega), Memory.load_of_le (by
    rw [h.buffer]
    exact Nat.le_trans h.pos_le h.nbytes_le)]
  rw [Nat.sub_zero, hnone]
  rfl

theorem varsize_lt (memory : Bytes) : varsize memory < 2 ^ 30 := by
  have hword := Wire.leNat_lt (memory.take 4)
  have hpow : 256 ^ (memory.take 4).length ≤ 256 ^ 4 :=
    Nat.pow_le_pow_right (by decide) (length_take_le 4 memory)
  unfold varsize
  omega

/-- What is read back of a document: as much of its memory as was written. -/
def stored (memory : Bytes) : Bytes := memory.take (varsize memory)

theorem Reads.start (h : Reads contents s offset) :
    Reads contents { s with fileOffset := s.nextOffset } offset :=
  ⟨h.file, h.readOnly, h.small, h.nextOffset, h.buffer, h.pos_le, h.pos_le_offset, h.nbytes_le,
    h.block⟩

theorem readFromCursorFile_record {memory rest : Bytes} (h : Reads contents s offset)
    (hrecord : contents.drop offset = record memory ++ rest)
    (hsize : varsize memory ≤ memory.length) :
    ∃ s', readFromCursorFile s = .ok (some (stored memory), s')
      ∧ Reads contents s' (offset + (record memory).length)
      ∧ s'.fileOffset.toNat = offset ∧ s'.cursorComplete = s.cursorComplete := by
  have hlength := congrArg length hrecord
  rw [length_drop, length_append, length_record hsize] at hlength
  have hword : leNat (leBytes 4 (varsize memory)) = varsize memory :=
    Wire.leNat_leBytes_of_lt (Nat.lt_trans (varsize_lt memory) (by decide))
  -- the length word
  obtain ⟨s₁, hfill, h₁, hoffset₁, hcomplete₁⟩ :=
    @fillBuffer_reads _ _ _ h.start 6 4 (by omega) (Or.inl (by decide))
  have htake : (contents.drop offset).take 4 = leBytes 4 (varsize memory) := by
    rw [hrecord, record, append_assoc]
    exact take_left' (Wire.length_leBytes _ _)
  -- and the document behind it
  obtain ⟨s₂, hfill', h₂, hoffset₂, hcomplete₂⟩ :=
    @fillBuffer_reads _ _ _ h₁ (varsize memory + 2) (varsize memory) (by omega)
      (Or.inl (lt_succ_self _))
  have hbody : (contents.drop (offset + 4)).take (varsize memory) = stored memory := by
    rw [← drop_drop, hrecord, record, append_assoc, drop_left' (Wire.length_leBytes _ _)]
    exact take_left' (length_take_of_le hsize)
  refine ⟨s₂, ?_, ?_, ?_, hcomplete₂.trans hcomplete₁⟩
  · unfold readFromCursorFile
    rw [hfill, Except.ok_bind, htake]
    dsimp only
    have hmax := varsize_lt memory
    rw [hword, readBody, bsonMaxSize, if_neg (by omega), hfill', hbody]
  · rw [length_record hsize, ← Nat.add_assoc]
    exact h₂
  · rw [hoffset₂, hoffset₁]
    exact h.nextOffset

theorem readFromCursorFile_end (h : Reads contents s contents.length) :
    ∃ s', readFromCursorFile s = .ok (none, s') ∧ s'.isReadWrite = false ∧ s'.cursorComplete := by
  obtain ⟨s', hfill, hrest⟩ := fillBuffer_end h.start (succ_pos 3) 4
  refine ⟨s', ?_, hrest⟩
  unfold readFromCursorFile
  rw [hfill]
  rfl

theorem readSession_end (h : Reads contents s offset) (hle : offset ≤ contents.length)
    (hrest : contents.drop offset = (memories.map record).flatten)
    (hsize : ∀ memory ∈ memories, varsize memory ≤ memory.length)
    (hcalls : memories.length < calls) : ∃ s', readSession calls s
        = .ok (memories.map (fun memory => some (stored memory)) ++ [none], s')
      ∧ s'.isReadWrite = false ∧ s'.cursorComplete := by
  induction memories generalizing s offset calls with
  | nil =>
    obtain ⟨calls, rfl⟩ := Nat.exists_eq_add_of_lt hcalls
    have hend : offset = contents.length := by
      apply Nat.le_antisymm hle
      exact drop_eq_nil_iff.1 hrest
    subst hend
    obtain ⟨s', hread, hclosed⟩ := readFromCursorFile_end h
    refine ⟨s', ?_, hclosed⟩
    unfold readSession
    rw [hread]
    rfl
  | cons memory memories ih =>
    obtain ⟨hfirst, hsize⟩ := forall_mem_cons.1 hsize
    obtain ⟨calls, rfl⟩ := exists_eq_succ_of_ne_zero (Nat.ne_zero_of_lt hcalls)
    rw [map_cons, flatten_cons] at hrest
    obtain ⟨s₁, hread, h₁, -, -⟩ := readFromCursorFile_record h hrest hfirst
    have hlength := congrArg length hrest
    rw [length_drop, length_append] at hlength
    have hrest₁ : contents.drop (offset + (record memory).length)
        = (memories.map record).flatten := by
      rw [← drop_drop, hrest, drop_left]
    obtain ⟨s', hsession, hclosed⟩ := ih h₁ (by
      omega) hrest₁ hsize (lt_of_succ_lt_succ hcalls)
    refine ⟨s', ?_, hclosed⟩
    unfold readSession
    rw [hread, Except.ok_bind]
    dsimp only
    rw [hsession]
    rfl

theorem readSession_records (h : Reads contents s offset)
    (hrest : contents.drop offset = (memories.map record).flatten)
    (hsize : ∀ memory ∈ memories, varsize memory ≤ memory.length)
    (hcalls : calls ≤ memories.length) : ∃ s', readSession calls s
        = .ok ((memories.take calls).map (fun memory => some (stored memory)), s')
      ∧ s'.isReadWrite = false ∧ s'.cursorComplete = s.cursorComplete
      ∧ (calls = 0 → s' = s)
      ∧ (0 < calls → s'.fileOffset.toNat ≤ contents.length ∧ contents.drop s'.fileOffset.toNat
          = ((memories.drop (calls - 1)).map record).flatten) := by
  induction calls generalizing s offset memories with
  | zero => exact ⟨s, rfl, h.readOnly, rfl, fun _ => rfl, nofun⟩
  | succ calls ih =>
    cases memories with
    | nil => cases hcalls
    | cons memory memories =>
      have hall := hrest
      obtain ⟨hfirst, hsize⟩ := forall_mem_cons.1 hsize
      rw [map_cons, flatten_cons] at hrest
      obtain ⟨s₁, hread, h₁, hoffset, hcomplete⟩ := readFromCursorFile_record h hrest hfirst
      have hrest₁ : contents.drop (offset + (record memory).length)
          = (memories.map record).flatten := by
        rw [← drop_drop, hrest, drop_left]
      obtain ⟨s', hsession, hmode, hcomplete', hzero, hmore⟩ :=
        ih h₁ hrest₁ hsize (le_of_succ_le_succ hcalls)
      refine ⟨s', ?_, hmode, hcomplete'.trans hcomplete, nofun, fun _ => ?_⟩
      · unfold readSession
        rw [hread, Except.ok_bind]
        dsimp only
        rw [hsession]
        rfl
      · rcases Nat.eq_zero_or_pos calls with rfl | hpos
        · rw [hzero rfl, hoffset]
          refine ⟨?_, hall⟩
          have hlength := congrArg length hrest
          have hrecord := length_record hfirst
          rw [length_drop, length_append] at hlength
          omega
        · obtain ⟨hle, hdrop⟩ := hmore hpos
          refine ⟨hle, ?_⟩
          obtain ⟨n, rfl⟩ := exists_eq_succ_of_ne_zero (Nat.ne_of_gt hpos)
          exact hdrop

end Reading

end DocumentDb.CursorStore
