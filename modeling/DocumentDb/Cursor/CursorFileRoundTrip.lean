/-
Documents that were written to a cursor file and read back.

A document comes with a header of four bytes or, if it is short, of one byte.
`WriteToCursorFile` takes the size from four bytes in either case, which is about 64 times
too great for a short one: as much memory is copied from behind it. A reader still finds the
document. So all are read back exactly if there is memory behind each of them, and the sizes
stay within the limit and below `2 ^ 32`, where the offsets wrap (`roundTrips_iff`).
-/
import DocumentDb.Cursor.CursorFileLimit
import DocumentDb.Cursor.CursorFileRead

namespace DocumentDb.CursorStore

open List
open Except (bind_eq_ok ok_bind)

open Wire (leBytes leNat)

-- ==== documents

/-- The two forms of a header that `PG_DETOAST_DATUM_PACKED` leaves. -/
inductive HeaderForm where
  | long
  | short
  deriving DecidableEq

def HeaderForm.maxSize : HeaderForm → Nat
  | .long => 2 ^ 30 - 5
  | .short => 126

/-- A document as it is passed to `WriteToCursorFile`, and the memory that can be
read behind it. -/
structure PackedDatum where
  form : HeaderForm
  document : Pgbson
  after : Bytes
  fits : document.data.length ≤ form.maxSize

namespace PackedDatum

variable (d : PackedDatum)

/-- `SET_VARSIZE` and `SET_VARSIZE_1B`. -/
def header : Bytes :=
  match d.form with
  | .long => leBytes 4 (4 * (d.document.data.length + 4))
  | .short => [UInt8.ofNat (2 * (d.document.data.length + 1) + 1)]

def memory : Bytes := d.header ++ (d.document.data ++ d.after)

def writtenSize : Nat :=
  match d.form with
  | .long => d.document.data.length + 4
  | .short => (258 * d.document.data.length + 3) / 4

end PackedDatum

def writtenTotal (documents : List PackedDatum) : Nat :=
  (documents.map fun d => 4 + d.writtenSize).sum

/-- As long as `VARSIZE_ANY_EXHDR` says. -/
def vardataAny : Bytes → Bytes
  | [] => []
  | b :: bytes =>
    if b.toNat % 2 = 1 then bytes.take (b.toNat / 2 - 1)
    else ((b :: bytes).drop 4).take (varsize (b :: bytes) - 4)

-- ==== the expectation

def storeDocuments (limit : Nat) (memories : List Bytes) :
    Except CursorFileError (File × Option SerializedCursorState) := do
  let s ← writeDocuments limit { bufFile := {}, isReadWrite := true } memories
  cursorFileStateClose limit s

/-- What sessions are to return: the documents in their order and `NULL` behind the
last one. A session that stops earlier leaves its last document to the next one. -/
def offered (documents : List Bytes) : List Nat → List (List (Option Bytes))
  | [] => []
  | calls :: sessions =>
    if documents.length < calls then [documents.map some ++ [none]]
    else (documents.take calls).map some :: offered (documents.drop (calls - 1)) sessions

/-- The documents are written without an error, and every way of reading them in
sessions returns their contents. -/
def RoundTrips (limit : Nat) (documents : List PackedDatum) : Prop :=
  ∃ file state, storeDocuments limit (documents.map PackedDatum.memory) = .ok (file, some state)
    ∧ ∀ sessions, (readSessions limit file state sessions).map
        (List.map (List.map (Option.map vardataAny)))
      = .ok (offered (documents.map fun d => d.document.data) sessions)

-- ==== the headers

theorem take_data_append (b : Pgbson) (rest : Bytes) :
    (b.data ++ rest).take 3 = leBytes 3 b.data.length := by
  have hword : ∀ (n : Nat) (rest : Bytes),
      (leBytes 4 n ++ rest).take 3 = leBytes 3 n := fun _ _ => rfl
  rw [Pgbson.data, encodeDoc, length_frame, frame, append_assoc, append_assoc]
  exact hword _ _

theorem toNat_short {n : Nat} (h : n ≤ 126) :
    (UInt8.ofNat (2 * (n + 1) + 1)).toNat = 2 * (n + 1) + 1 := by
  rw [UInt8.toNat_ofNat', Nat.mod_eq_of_lt (by omega)]

theorem varsize_memory (d : PackedDatum) : varsize d.memory = d.writtenSize := by
  have hfits := d.fits
  unfold varsize PackedDatum.memory PackedDatum.header PackedDatum.writtenSize
  cases hform : d.form with
  | long =>
    rw [hform, HeaderForm.maxSize] at hfits
    dsimp only
    rw [take_left' (Wire.length_leBytes _ _), Wire.leNat_leBytes_of_lt (by omega)]
    omega
  | short =>
    rw [hform, HeaderForm.maxSize] at hfits
    dsimp only
    -- the header and three bytes of the length word
    rw [singleton_append, take_succ_cons, take_data_append, leNat,
      Wire.leNat_leBytes_of_lt (by omega), toNat_short hfits]
    omega

theorem vardataAny_long {size : Nat} (h : size < 2 ^ 30) (bytes : Bytes) :
    vardataAny (leBytes 4 (4 * size) ++ bytes) = bytes.take (size - 4) := by
  have hsize : varsize (leBytes 4 (4 * size) ++ bytes) = size := by
    rw [varsize, take_left' (Wire.length_leBytes _ _),
      Wire.leNat_leBytes_of_lt (by omega), Nat.mul_div_cancel_left _ (by decide)]
  have hdrop : (leBytes 4 (4 * size) ++ bytes).drop 4 = bytes :=
    drop_left' (Wire.length_leBytes _ _)
  have hbyte : (UInt8.ofNat (4 * size % 256)).toNat % 2 ≠ 1 := by
    rw [UInt8.toNat_ofNat']
    omega
  rw [leBytes, cons_append] at hsize hdrop ⊢
  rw [vardataAny, if_neg hbyte, hdrop, hsize]

theorem vardataAny_stored (d : PackedDatum) : vardataAny (stored d.memory) = d.document.data := by
  have hfits := d.fits
  rw [stored, varsize_memory]
  unfold PackedDatum.memory PackedDatum.header PackedDatum.writtenSize
  cases hform : d.form with
  | long =>
    rw [hform, HeaderForm.maxSize] at hfits
    dsimp only
    rw [take_append, take_of_length_le (by
        rw [Wire.length_leBytes]
        omega),
      vardataAny_long (by omega), Wire.length_leBytes, Nat.add_sub_cancel,
      take_left, take_length]
  | short =>
    rw [hform, HeaderForm.maxSize] at hfits
    have hlength : 5 ≤ d.document.data.length := by
      rw [Pgbson.data, encodeDoc, length_frame]
      exact Nat.le_add_left _ _
    obtain ⟨more, hmore⟩ : ∃ more, (258 * d.document.data.length + 3) / 4
        = d.document.data.length + more + 1 :=
      ⟨(258 * d.document.data.length + 3) / 4 - d.document.data.length - 1, by omega⟩
    have hsize : (2 * (d.document.data.length + 1) + 1) / 2 - 1 = d.document.data.length := by omega
    rw [hmore, singleton_append, take_succ_cons, vardataAny, toNat_short hfits, if_pos (by omega),
      hsize, take_take, Nat.min_eq_left (Nat.le_add_right _ _), take_left]

-- ==== sufficiency

section

variable {limit : Nat} {memories : List Bytes}

variable {file : File}

theorem contents_write_end {offset : Nat} (h : offset = file.contents.length) (data : Bytes) :
    (file.write offset data).contents = file.contents ++ data := by
  subst h
  show take _ _ ++ data ++ List.drop _ _ = _
  rw [Nat.sub_self, replicate_zero, append_nil, take_length,
    drop_eq_nil_of_le (Nat.le_add_right _ _), append_nil]

theorem contents_flushed {chunks : List Bytes} (h : chunks.flatten.length < 2 ^ 32) :
    (flushed chunks).contents = chunks.flatten := by
  induction chunks using reverseRecOn with
  | nil => rfl
  | append_singleton chunks chunk ih =>
    rw [flatten_append, flatten_singleton, length_append] at h
    have hold := ih (Nat.lt_of_le_of_lt (Nat.le_add_right _ _) h)
    rw [flushed_concat, flatten_append, flatten_singleton, contents_write_end _ chunk, hold]
    rw [hold]
    exact Nat.mod_eq_of_lt (by omega)

theorem storeDocuments_eq (hsize : ∀ memory ∈ memories, varsize memory ≤ memory.length) :
    storeDocuments limit memories = (writeFile limit memories).map fun s =>
      (s.bufFile, some ⟨0, s.fileOffset⟩) := by
  unfold storeDocuments writeFile
  rcases @writeDocuments_initial_outcome limit _ hsize with
    ⟨s, chunks, pending, hok, hholds, hstream, -⟩ | ⟨place, offset, -, -, herror⟩
  · rw [hok, ok_bind, ok_bind, cursorFileStateClose, finishWriting,
      if_pos hholds.isReadWrite]
    rcases flushBuffer_cases hholds hstream with ⟨t, ht, hholds'⟩ | ⟨-, herror⟩
    · rw [ht]
      show Except.ok (t.bufFile, if t.cursorComplete then none else _) = _
      rw [hholds'.cursorComplete]
      rfl
    · rw [herror]
      rfl
  · rw [herror]
    rfl

theorem cursorFileStateClose_readOnly {s : CursorFileState} (h : s.isReadWrite = false) :
    cursorFileStateClose limit s = .ok (s.bufFile,
      if s.cursorComplete then none else some ⟨s.fileOffset, s.fileLength⟩) := by
  rw [cursorFileStateClose, finishWriting, h]
  rfl

variable {state : SerializedCursorState}

theorem reads_deserializeFileState (hsmall : file.contents.length < 2 ^ 32) :
    Reads file.contents (deserializeFileState file state) state.fileOffset.toNat where
  file := rfl
  readOnly := rfl
  small := hsmall
  nextOffset := rfl
  buffer := length_replicate
  pos_le := Nat.le_refl _
  pos_le_offset := Nat.zero_le _
  nbytes_le := Nat.zero_le _
  block := rfl

theorem readSessions_records (hsmall : file.contents.length < 2 ^ 32) (sessions : List Nat)
    (hle : state.fileOffset.toNat ≤ file.contents.length)
    (hrest : file.contents.drop state.fileOffset.toNat = (memories.map record).flatten)
    (hsize : ∀ memory ∈ memories, varsize memory ≤ memory.length) :
    readSessions limit file state sessions = .ok (offered (memories.map stored) sessions) := by
  induction sessions generalizing state memories with
  | nil => rfl
  | cons calls sessions ih =>
    have hreads : Reads file.contents (deserializeFileState file state) _ :=
      reads_deserializeFileState hsmall
    unfold readSessions offered
    rw [length_map]
    by_cases hcalls : memories.length < calls
    · obtain ⟨s', hsession, hmode, hcomplete⟩ :=
        readSession_end hreads hle hrest hsize hcalls
      rw [hsession, ok_bind]
      dsimp only
      rw [cursorFileStateClose_readOnly hmode, hcomplete, if_pos hcalls, map_map]
      rfl
    · obtain ⟨s', hsession, hmode, hcomplete, hzero, hmore⟩ :=
        readSession_records hreads hrest hsize (Nat.not_lt.1 hcalls)
      have hnext : s'.fileOffset.toNat ≤ file.contents.length
          ∧ file.contents.drop s'.fileOffset.toNat
            = ((memories.drop (calls - 1)).map record).flatten := by
        rcases Nat.eq_zero_or_pos calls with rfl | hpos
        · rw [hzero rfl]
          exact ⟨hle, hrest⟩
        · exact hmore hpos
      have hih := @ih (memories.drop (calls - 1)) ⟨s'.fileOffset, s'.fileLength⟩
        hnext.1 hnext.2 (fun memory hmemory =>
          hsize memory (mem_of_mem_drop hmemory))
      rw [hsession, ok_bind]
      dsimp only
      rw [cursorFileStateClose_readOnly hmode, hcomplete, ok_bind, if_neg hcalls]
      show (readSessions limit file _ sessions >>= _) = _
      rw [hih, map_drop, ← map_take, map_map]
      rfl

theorem map_offered (f : Bytes → Bytes) (docs : List Bytes) (sessions : List Nat) :
    (offered docs sessions).map (List.map (Option.map f)) = offered (docs.map f) sessions := by
  induction sessions generalizing docs with
  | nil => rfl
  | cons calls sessions ih =>
    unfold offered
    rw [length_map]
    split
    · rw [map_singleton, map_append, map_map, map_map]
      rfl
    · rw [map_cons, ih, map_drop, map_map, ← map_take, map_map]
      rfl

end

theorem fileSize_eq_writtenTotal (docs : List PackedDatum) :
    fileSize (docs.map PackedDatum.memory) = writtenTotal docs := by
  rw [fileSize, map_map, writtenTotal]
  refine congrArg List.sum (map_congr_left fun d _ => ?_)
  rw [Function.comp_apply, varsize_memory]

variable {docs : List PackedDatum}

theorem readable_memories (h : ∀ d ∈ docs, d.writtenSize ≤ d.memory.length) :
    ∀ memory ∈ docs.map PackedDatum.memory, varsize memory ≤ memory.length := by
  intro memory hmemory
  obtain ⟨d, hd, rfl⟩ := mem_map.1 hmemory
  rw [varsize_memory]
  exact h d hd

theorem roundTrips_of_le {limit : Nat} (hreadable : ∀ d ∈ docs, d.writtenSize ≤ d.memory.length)
    (hlimit : writtenTotal docs ≤ limit * 1024 * 1024)
    (hsmall : writtenTotal docs < 2 ^ 32) : RoundTrips limit docs := by
  have hsize := readable_memories hreadable
  have htotal : ((docs.map PackedDatum.memory).map record).flatten.length = writtenTotal docs := by
    rw [length_records hsize, fileSize_eq_writtenTotal]
  obtain ⟨s, hok⟩ := @exists_writeFile limit _ hsize fun place hplace => by
    omega
  obtain ⟨chunks, pending, hholds, hstream, -⟩ := writeFile_ok hsize hok
  have hcontents : s.bufFile.contents = ((docs.map PackedDatum.memory).map record).flatten := by
    rw [hholds.bufFile, contents_flushed, flatten_withPending, hstream]
    rw [flatten_withPending, hstream, htotal]
    exact hsmall
  refine ⟨s.bufFile, ⟨0, s.fileOffset⟩, ?_, fun sessions => ?_⟩
  · rw [storeDocuments_eq hsize, hok]
    rfl
  · have hread : readSessions limit s.bufFile ⟨0, s.fileOffset⟩ sessions = _ :=
      readSessions_records (by rw [hcontents, htotal]; exact hsmall) sessions
        (Nat.zero_le _) hcontents hsize
    rw [hread]
    show Except.ok (List.map _ (offered _ _)) = _
    rw [map_offered, map_map, map_map]
    refine congrArg (fun l => Except.ok (offered l sessions)) (map_congr_left fun d _ => ?_)
    exact vardataAny_stored d

-- ==== necessity

section

variable {limit : Nat} {s s' : CursorFileState}

theorem le_of_copyToBuffer {data : Bytes} {n : Nat}
    (h : copyToBuffer s data n = .ok s') : n ≤ data.length := by
  unfold copyToBuffer at h
  cases hload : Memory.load data 0 n with
  | none =>
    rw [hload] at h
    cases h
  | some loaded =>
    have hle := Memory.le_of_load hload
    rwa [Nat.zero_add] at hle

theorem le_of_writeLoop {fuel : Nat} {data : Bytes} {dataSize : Nat}
    (h : writeLoop limit fuel s data dataSize = .ok s') : dataSize ≤ data.length := by
  induction fuel generalizing s data dataSize with
  | zero => cases h
  | succ fuel ih =>
    unfold writeLoop at h
    dsimp only at h
    split at h
    · rename_i hzero
      rw [hzero]
      exact Nat.zero_le _
    split at h
    · exact le_of_copyToBuffer h
    · obtain ⟨s₁, -, h⟩ := bind_eq_ok h
      obtain ⟨s₂, -, h⟩ := bind_eq_ok h
      have hrest := ih h
      rw [length_drop] at hrest
      omega

theorem readable_of_writeDocuments {memories : List Bytes}
    (h : writeDocuments limit s memories = .ok s') :
    ∀ memory ∈ memories, varsize memory ≤ memory.length := by
  induction memories generalizing s with
  | nil => nofun
  | cons memory memories ih =>
    obtain ⟨s₁, hwrite, hrest⟩ := bind_eq_ok h
    refine forall_mem_cons.2 ⟨?_, ih hrest⟩
    obtain ⟨s₂, -, hwrite⟩ := bind_eq_ok hwrite
    obtain ⟨s₃, -, hloop⟩ := bind_eq_ok hwrite
    exact le_of_writeLoop hloop

theorem le_length_contents_flushed (chunks : List Bytes) :
    min (2 ^ 32) chunks.flatten.length ≤ (flushed chunks).contents.length := by
  induction chunks using reverseRecOn with
  | nil => exact Nat.min_le_right _ _
  | append_singleton chunks chunk ih =>
    rw [flushed_concat, length_contents_write, flatten_append, flatten_singleton, length_append]
    by_cases hsmall : chunks.flatten.length < 2 ^ 32
    · rw [Nat.mod_eq_of_lt hsmall]
      omega
    · omega

def Endless (s : CursorFileState) : Prop := 2 ^ 32 ≤ s.bufFile.contents.length

theorem refill_endless (h : Endless s) (hrefill : refill s = .ok s') :
    Endless s' ∧ s'.nbytes ≠ 0 := by
  unfold refill at hrefill
  split at hrefill
  · dsimp only at hrefill
    split at hrefill
    · cases hrefill
    · cases hrefill
      refine ⟨h, ?_⟩
      show (File.read _ _ _).length ≠ 0
      have hlt := s.nextOffset.toNat_lt
      unfold Endless at h
      rw [File.read, length_take, length_drop, blckSz]
      omega
  · cases hrefill
    exact ⟨h, by assumption⟩

theorem fillBuffer_ne_none {fuel length : Nat} {bytes : Option Bytes}
    (hfill : fillBuffer fuel s length = .ok (bytes, s')) (h : Endless s) :
    bytes ≠ none ∧ Endless s' := by
  induction fuel generalizing s s' length bytes with
  | zero => cases hfill
  | succ fuel ih =>
    unfold fillBuffer at hfill
    split at hfill
    · cases hfill
      exact ⟨by simp, h⟩
    obtain ⟨s₁, hrefill, hfill⟩ := bind_eq_ok hfill
    obtain ⟨h₁, hne⟩ := refill_endless h hrefill
    rw [if_neg hne] at hfill
    dsimp only at hfill
    split at hfill
    · split at hfill
      · cases hfill
      · cases hfill
        exact ⟨by simp, h₁⟩
    · split at hfill
      · cases hfill
      · obtain ⟨⟨rest, s₂⟩, hloop, hfill⟩ := bind_eq_ok hfill
        obtain ⟨hsome, h₂⟩ := ih hloop h₁
        cases hfill
        exact ⟨fun hnone => hsome (Option.map_eq_none_iff.1 hnone), h₂⟩

theorem readFromCursorFile_ne_none {doc : Option Bytes} (h : Endless s)
    (hread : readFromCursorFile s = .ok (doc, s')) : doc ≠ none ∧ Endless s' := by
  obtain ⟨⟨word, s₁⟩, hfill, hread⟩ := bind_eq_ok hread
  obtain ⟨hsome, h₁⟩ := fillBuffer_ne_none hfill h
  cases word with
  | none => exact absurd rfl hsome
  | some word =>
    dsimp only at hread
    unfold readBody at hread
    split at hread
    · cases hread
    · exact fillBuffer_ne_none hread h₁

theorem none_notMem_readSession {calls : Nat} {docs : List (Option Bytes)}
    (h : Endless s) (hsession : readSession calls s = .ok (docs, s')) : none ∉ docs := by
  induction calls generalizing s docs with
  | zero =>
    cases hsession
    exact not_mem_nil
  | succ calls ih =>
    obtain ⟨⟨document, s₁⟩, hread, hsession⟩ := bind_eq_ok hsession
    obtain ⟨hsome, h₁⟩ := readFromCursorFile_ne_none h hread
    cases document with
    | none => exact absurd rfl hsome
    | some document =>
      obtain ⟨⟨rest, s₂⟩, hrest, hsession⟩ := bind_eq_ok hsession
      cases hsession
      intro hmem
      rcases mem_cons.1 hmem with heq | hmem
      · cases heq
      · exact ih h₁ hrest hmem

theorem none_notMem_readSessions {file : File} (h : 2 ^ 32 ≤ file.contents.length)
    {state : SerializedCursorState} {sessions : List Nat} {docs : List (List (Option Bytes))}
    (hread : readSessions limit file state sessions = .ok docs) :
    ∀ session ∈ docs, none ∉ session := by
  induction sessions generalizing state docs with
  | nil =>
    cases hread
    nofun
  | cons calls sessions ih =>
    obtain ⟨⟨session, s'⟩, hsession, hread⟩ := bind_eq_ok hread
    have hfirst := none_notMem_readSession (by exact h) hsession
    obtain ⟨⟨_, next⟩, -, hread⟩ := bind_eq_ok hread
    cases next with
    | none =>
      cases hread
      exact forall_mem_singleton.2 hfirst
    | some next =>
      obtain ⟨rest, hrest, hread⟩ := bind_eq_ok hread
      cases hread
      exact forall_mem_cons.2 ⟨hfirst, ih hrest⟩

end

theorem readable_of_roundTrips {limit : Nat} (h : RoundTrips limit docs) :
    ∀ d ∈ docs, d.writtenSize ≤ d.memory.length := by
  obtain ⟨file, state, hstore, -⟩ := h
  obtain ⟨s, hwrite, -⟩ := bind_eq_ok hstore
  intro d hd
  rw [← varsize_memory]
  exact readable_of_writeDocuments hwrite _ (mem_map_of_mem hd)

theorem total_of_roundTrips {limit : Nat} (h : RoundTrips limit docs) :
    writtenTotal docs ≤ limit * 1024 * 1024 ∧ writtenTotal docs < 2 ^ 32 := by
  have hsize := readable_memories (readable_of_roundTrips h)
  obtain ⟨file, state, hstore, hsessions⟩ := h
  rw [storeDocuments_eq hsize] at hstore
  cases hok : writeFile limit (docs.map PackedDatum.memory) with
  | error e =>
    rw [hok] at hstore
    cases hstore
  | ok s =>
    rw [hok] at hstore
    cases hstore
    obtain ⟨chunks, pending, hholds, hstream, -⟩ := writeFile_ok hsize hok
    have htotal : (withPending chunks pending).flatten.length = writtenTotal docs := by
      rw [flatten_withPending, hstream, length_records hsize, fileSize_eq_writtenTotal]
    have hsmall : writtenTotal docs < 2 ^ 32 := by
      by_contra hlarge
      -- one call more than there are documents does not return `NULL`
      have hendless : 2 ^ 32 ≤ s.bufFile.contents.length := by
        have hle := le_length_contents_flushed (withPending chunks pending)
        rw [← hholds.bufFile, htotal] at hle
        omega
      have hend := hsessions [docs.length + 1]
      rw [offered, length_map, if_pos (Nat.lt_succ_self _)] at hend
      cases hread : readSessions limit s.bufFile ⟨0, s.fileOffset⟩ [docs.length + 1] with
      | error e =>
        rw [hread] at hend
        cases hend
      | ok sessions =>
        rw [hread] at hend
        obtain ⟨session, hsession, hmap⟩ := mem_map.1 ((Except.ok.inj hend).symm ▸ mem_cons_self)
        have hnone : none ∈ session.map (Option.map vardataAny) := by
          rw [hmap]
          exact mem_append_right _ mem_cons_self
        obtain ⟨document, hdocument, hnull⟩ := mem_map.1 hnone
        rw [Option.map_eq_none_iff.1 hnull] at hdocument
        exact none_notMem_readSessions hendless hread session hsession hdocument
    refine ⟨?_, hsmall⟩
    have hpassed := hholds.passed _ [] (append_nil _).symm
    rwa [htotal, Nat.mod_eq_of_lt hsmall] at hpassed

/-- The documents are read back exactly if the memory behind each of them suffices
for the size that is written, and if these sizes stay within the limit and below
`2 ^ 32`. -/
theorem roundTrips_iff (limit : Nat) (documents : List PackedDatum) : RoundTrips limit documents
      ↔ (∀ d ∈ documents, d.writtenSize ≤ d.memory.length)
        ∧ writtenTotal documents ≤ limit * 1024 * 1024
        ∧ writtenTotal documents < 2 ^ 32 := by
  constructor
  · exact fun h => ⟨readable_of_roundTrips h, total_of_roundTrips h⟩
  · rintro ⟨hreadable, hlimit, hsmall⟩
    exact roundTrips_of_le hreadable hlimit hsmall

/-- An empty document with a header of one byte, and the memory behind it. -/
def emptyDocument (after : Bytes) : PackedDatum where
  form := .short
  document := { fields := [], namesOk := rfl, size_lt := by decide }
  after := after
  fits := by decide

/-- The empty document is a datum of six bytes, and 323 bytes are copied from it. If
it is followed by nothing, the copy leaves the memory. If it is followed by enough,
4000 of them do not fit into a file of 1 MB. -/
theorem short_documents_not_read_back : ¬ RoundTrips 4096 [emptyDocument []]
      ∧ ¬ RoundTrips 1 (List.replicate 4000 (emptyDocument (List.replicate 400 0))) := by
  constructor
  · intro h
    have hle := readable_of_roundTrips h _ mem_cons_self
    exact absurd hle (by decide)
  · intro h
    have hle := (total_of_roundTrips h).1
    rw [writtenTotal, map_replicate, sum_replicate_nat] at hle
    exact absurd hle (by decide)

end DocumentDb.CursorStore
