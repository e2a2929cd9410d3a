/-
The file state of a continuation, which decides the files a getMore accesses.

The state is copied from the bytes the client sends, and its name is a C string:
without a zero of its own it runs on into the fields behind it, of which the
offset and the handle change until the file is deleted.
-/
import DocumentDb.Bson.Value
import DocumentDb.Lib.Bytes

namespace DocumentDb.FileState

open List Wire

/-- Also the size of a `SerializedCursorState`. -/
def nameDataLen : Nat := 64
def sizeOfState : Nat := nameDataLen + 8

def cursorDirectory : Bytes :=
  [112, 103, 95, 100, 111, 99, 117, 109, 101, 110, 116, 100, 98, 95,
    99, 117, 114, 115, 111, 114, 95, 102, 105, 108, 101, 115]

/-- What the file system and the contents of the file decide: the handle, if the
file is opened, the offset after the reads, and if they have come to the end. -/
structure Drain where
  bufFile : Option UInt32
  fileOffset : UInt32
  cursorComplete : Bool

/-- The paths that `DrainPersistedFileCursor` accesses: `DeserializeFileState`
opens a file, which is then read through its handle, and `CursorFileStateClose`
may delete one. There are none where the copy reads behind the end of the state. -/
def drainPersistedFileCursor (drain : Drain) (cursorFileState : Bytes) : Option (List Bytes) :=
  if cursorFileState.length < sizeOfState then none
  else
    let opened := cString (cursorFileState.take sizeOfState)
    match drain.bufFile, drain.cursorComplete with
    | some bufFile, true =>
      some [opened, cString (cursorFileState.take nameDataLen ++ (leBytes 4 drain.fileOffset.toNat
        ++ (cursorFileState.drop 68).take 4 ++ leBytes 4 bufFile.toNat))]
    | _, _ => some [opened]

/-- A name of a file: it has no slash, and is neither empty nor one of the two
names of directories, `.` and `..`. -/
def IsFileName (name : Bytes) : Prop :=
  47 ∉ name ∧ name ≠ [] ∧ name ≠ [46] ∧ name ≠ [46, 46]

/-- The path is that of the file of a cursor as `CreateCursorFile` makes it, and
directly inside the directory. -/
def IsFileOf (cursorName path : Bytes) : Prop :=
  path = cursorDirectory ++ 47 :: cursorName ∧ IsFileName cursorName
    ∧ cursorName.length + cursorDirectory.length < nameDataLen - 5

/-- A C string that ends inside a field does not depend on what is behind it. -/
theorem cString_append {field rest : Bytes} (h : (cString (field ++ rest)).length < field.length)
    (rest' : Bytes) : cString (field ++ rest') = cString (field ++ rest) := by
  unfold cString at h ⊢
  rw [takeWhile_append] at h ⊢
  split at h
  · rw [length_append] at h
    omega
  · rename_i hends
    rw [if_neg hends, takeWhile_append, if_neg hends]

/-- A getMore accesses the file of its cursor only, and reads no byte behind the
state, exactly if the state is complete and holds the name of that file. -/
theorem accessesOwnFile_iff (drain : Drain) (cursorName cursorFileState : Bytes) :
    (∃ paths, drainPersistedFileCursor drain cursorFileState = some paths
        ∧ ∀ path ∈ paths, IsFileOf cursorName path) ↔
      sizeOfState ≤ cursorFileState.length
        ∧ IsFileOf cursorName (cString (cursorFileState.take sizeOfState)) := by
  unfold drainPersistedFileCursor
  split
  · rename_i hshort
    exact iff_of_false (by simp) fun h => absurd h.1 (not_le.2 hshort)
  · rename_i hlen
    rw [and_iff_right (not_lt.1 hlen)]
    constructor
    · rintro ⟨paths, hpaths, hown⟩
      apply hown
      split at hpaths <;> cases hpaths <;> exact mem_cons_self
    · intro hown
      have hsplit : cursorFileState.take sizeOfState
          = cursorFileState.take nameDataLen ++ (cursorFileState.drop nameDataLen).take 8 :=
        take_add
      have hends : (cString (cursorFileState.take sizeOfState)).length
          < (cursorFileState.take nameDataLen).length := by
        rw [hown.1, length_append, length_cons, length_take]
        have hshort := hown.2.2
        unfold sizeOfState nameDataLen at hlen
        unfold nameDataLen at hshort ⊢
        omega
      split
      · refine ⟨_, rfl, ?_⟩
        rw [hsplit] at hown hends ⊢
        refine forall_mem_cons.2 ⟨hown, forall_mem_singleton.2 ?_⟩
        rwa [cString_append hends]
      · exact ⟨_, rfl, forall_mem_singleton.2 hown⟩

/-- A state that names the root directory. -/
theorem other_path_opened :
    drainPersistedFileCursor ⟨none, 0, false⟩ (47 :: replicate 71 0) = some [[47]]
      ∧ ¬IsFileOf [99] [47] := by
  refine ⟨by decide, fun h => ?_⟩
  exact absurd h.1 (by decide)

end DocumentDb.FileState
