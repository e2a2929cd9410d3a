/-
The number of cursor files.

The server counts its cursor files in shared memory, after a file was created or deleted. In
between other sessions act, and at every place a transaction can abort. The count, corrected
by what the sessions still owe (`owed`), is the number of files (`QuietRun.excess_eq`), up
to what is lost (a file that an abort deletes, a deletion with an abort before the
decrement, an expired file without contents, for which `TryDeleteCursorFile` returns zero, a
decrement of zero) and what is discounted twice (a file that another session deletes before
it was counted, when its own session then aborts).
-/
import DocumentDb.Lib.Sessions
import Mathlib.Algebra.BigOperators.Ring.Finset
import Mathlib.Algebra.Order.BigOperators.Group.Finset
import Mathlib.Data.List.AList

namespace DocumentDb.CursorCount

open List Option
open Sessions (balance of_step run_balance stages_self total)

-- ==== the state

structure CursorFile where
  inode : Nat
  size : Nat
  deriving DecidableEq

/-- The cursor directory and `CursorStoreSharedData`. -/
structure Shared (Name : Type) where
  files : AList (fun _ : Name => CursorFile) := ∅
  currentCursorCount : Nat := 0
  nextInode : Nat := 0

/-- Where a session is. -/
inductive Stage (Name : Type) where
  | idle
  /-- `CreateCursorFile` has registered the file and not yet counted it. -/
  | created (name : Name) (inode : Nat)
  /-- `IncrementCursorCount` has returned false. -/
  | refused (name : Name) (inode : Nat)
  /-- `TryCleanUpAndReserveCursor`, with the entries that are not yet visited. -/
  | cleaning (name : Name) (inode : Nat) (todo : List Name)
  /-- The file is being written. -/
  | writing (name : Name) (inode : Nat)
  /-- The file is being read, after `DeserializeFileState`. -/
  | draining (name : Name)
  /-- A file was deleted, `DecrementCursorCount` follows. -/
  | deleted
  /-- `cursor_directory_cleanup`, with the entries that are not yet visited. -/
  | sweeping (todo : List Name)
  /-- It has deleted a file, `DecrementCursorCount` follows. -/
  | swept (todo : List Name)
  deriving DecidableEq

/-- What a session does next. -/
inductive Action (Name : Type) where
  | create (name : Name)
  | increment
  | cleanUp (order : List Name)
  | visit (expired : Bool)
  | flush (size : Nat)
  | close (size : Nat)
  | drain (name : Name)
  | closeDrained (cursorComplete : Bool)
  | kill (name : Name)
  | sweep (order : List Name)
  | endSweep
  | decrement
  | abort

variable {Name : Type} [DecidableEq Name]

-- ==== the actions

def incrementCursorCount (maxCursorFileCount : Nat) (shared : Shared Name) : Option (Shared Name) :=
  if 0 < maxCursorFileCount ∧ maxCursorFileCount < shared.currentCursorCount + 1 then none
  else some { shared with currentCursorCount := shared.currentCursorCount + 1 }

variable (shared : Shared Name)

/-- A count below zero is set to zero. -/
def decrementCursorCount : Shared Name :=
  { shared with currentCursorCount := shared.currentCursorCount - 1 }

/-- `PathNameDeleteTemporaryFile`. -/
def deleteFile (name : Name) : Shared Name :=
  { shared with files := shared.files.erase name }

/-- Minus the size of a file that was deleted, the size of one that was not, and zero if
there is none. -/
def tryDeleteCursorFile (name : Name) (expired : Bool) : Int × Shared Name :=
  match shared.files.lookup name with
  | none => (0, shared)
  | some file =>
    if expired then (-file.size, deleteFile shared name) else (file.size, shared)

/-- A `FileWrite`. A file that was deleted meanwhile is written, but it is not in the
directory; there can be another one of the same name. -/
def writeFile (name : Name) (inode size : Nat) : Shared Name :=
  match shared.files.lookup name with
  | none => shared
  | some file =>
    if file.inode = inode then
      { shared with files := shared.files.insert name ⟨inode, size⟩ }
    else shared

def Stage.pendingCursorFile : Stage Name → Option Name
  | .created name _ | .refused name _ | .cleaning name _ _ | .writing name _
  | .draining name => some name
  | .idle | .deleted | .sweeping _ | .swept _ => none

def deletePendingCursorFiles (stage : Stage Name) : Shared Name :=
  match stage.pendingCursorFile with
  | none => shared
  | some name => deleteFile shared name

/-- What an action does to the shared state and the stage of its session, if the
session can do it. The expiry of a file is decided when it is visited. -/
def act (maxCursorFileCount : Nat) : Action Name → Shared Name → Stage Name →
    Option (Shared Name × Stage Name)
  | .create name, shared, .idle =>
    match shared.files.lookup name with
    -- the cursor already exists
    | some _ => some (shared, .idle)
    | none => some
        ({ shared with
            files := shared.files.insert name ⟨shared.nextInode, 0⟩
            nextInode := shared.nextInode + 1 },
          .created name shared.nextInode)
  | .increment, shared, .created name inode =>
    match incrementCursorCount maxCursorFileCount shared with
    | none => some (shared, .refused name inode)
    | some shared => some (shared, .writing name inode)
  | .cleanUp order, shared, .refused name inode =>
    if order.Perm shared.files.keys then some (shared, .cleaning name inode order)
    else none
  | .visit expired, shared, .cleaning name inode (entry :: todo) =>
    let (deleteRes, shared) := tryDeleteCursorFile shared entry expired
    -- the place of the file that was deleted is taken over
    some (shared, if deleteRes < 0 then .writing name inode
      else .cleaning name inode todo)
  | .visit expired, shared, .sweeping (entry :: todo) =>
    let (deleteRes, shared) := tryDeleteCursorFile shared entry expired
    some (shared, if deleteRes < 0 then .swept todo else .sweeping todo)
  | .flush size, shared, .writing name inode =>
    if 0 < size then some (writeFile shared name inode size, .writing name inode)
    else none
  -- at least the document that the file was created for is flushed
  | .close size, shared, .writing name inode =>
    if 0 < size then some (writeFile shared name inode size, .idle) else none
  | .drain name, shared, .idle =>
    match shared.files.lookup name with
    -- the cursor is not found
    | none => some (shared, .idle)
    | some _ => some (shared, .draining name)
  | .closeDrained cursorComplete, shared, .draining name =>
    if cursorComplete then
      if name ∈ shared.files then some (deleteFile shared name, .deleted)
      else some (shared, .idle)
    else some (shared, .idle)
  | .kill name, shared, .idle =>
    if name ∈ shared.files then some (deleteFile shared name, .deleted)
    else some (shared, .idle)
  | .sweep order, shared, .idle =>
    if order.Perm shared.files.keys then some (shared, .sweeping order) else none
  | .endSweep, shared, .sweeping [] => some (shared, .idle)
  | .decrement, shared, .deleted => some (decrementCursorCount shared, .idle)
  | .decrement, shared, .swept todo =>
    some (decrementCursorCount shared, .sweeping todo)
  | .abort, shared, stage => some (deletePendingCursorFiles shared stage, .idle)
  | _, _, _ => none

/-- The sessions and what they share. -/
abbrev Store (ι Name : Type) := Sessions.State ι (Shared Name) (Stage Name)

def start {ι Name : Type} : Store ι Name where
  shared := {}
  stages := fun _ => .idle

def step {ι : Type} [DecidableEq ι] (maxCursorFileCount : Nat) :
    ι × Action Name → Store ι Name → Option (Store ι Name) :=
  Sessions.step (act maxCursorFileCount)

-- ==== the account

def Shared.fileCount : Nat := shared.files.keys.length

/-- What a session still owes to the count: one for a file that it has created, minus
one for a file that it has deleted. -/
def owed : Stage Name → Int
  | .created _ _ | .refused _ _ | .cleaning _ _ _ => 1
  | .deleted | .swept _ => -1
  | .idle | .writing _ _ | .draining _ | .sweeping _ => 0

def excess : Int := shared.currentCursorCount - shared.fileCount

/-- Is it an expired file without contents that is visited? -/
def emptyVisited (entry : Name) (expired : Bool) : Nat :=
  match shared.files.lookup entry with
  | none => 0
  | some file => if expired ∧ file.size = 0 then 1 else 0

def lost : Action Name → Shared Name → Stage Name → Nat
  | .visit expired, shared, .cleaning _ _ (entry :: _)
  | .visit expired, shared, .sweeping (entry :: _) =>
    emptyVisited shared entry expired
  | .decrement, shared, _ => if shared.currentCursorCount = 0 then 1 else 0
  | .abort, shared, .writing name _ | .abort, shared, .draining name =>
    if name ∈ shared.files then 1 else 0
  | .abort, _, .deleted | .abort, _, .swept _ => 1
  | _, _, _ => 0

def discountedTwice : Action Name → Shared Name → Stage Name → Nat
  | .abort, shared, .created name _ | .abort, shared, .refused name _
  | .abort, shared, .cleaning name _ _ => if name ∈ shared.files then 0 else 1
  | _, _, _ => 0

-- ==== transitions

/-- The transitions of a session. -/
inductive Moves (maxCursorFileCount : Nat) (shared : Shared Name) :
    Action Name → Stage Name → Shared Name → Stage Name → Prop
  | alreadyExists {name file} (h : shared.files.lookup name = some file) :
      Moves maxCursorFileCount shared (.create name) .idle shared .idle
  | create {name} (h : shared.files.lookup name = none) :
      Moves maxCursorFileCount shared (.create name) .idle
        { shared with
          files := shared.files.insert name ⟨shared.nextInode, 0⟩
          nextInode := shared.nextInode + 1 }
        (.created name shared.nextInode)
  | count {name inode shared'}
      (h : incrementCursorCount maxCursorFileCount shared = some shared') :
      Moves maxCursorFileCount shared .increment (.created name inode) shared' (.writing name inode)
  | refuse {name inode}
      (h : incrementCursorCount maxCursorFileCount shared = none) :
      Moves maxCursorFileCount shared .increment (.created name inode) shared (.refused name inode)
  | cleanUp {name inode order} (h : order.Perm shared.files.keys) :
      Moves maxCursorFileCount shared (.cleanUp order) (.refused name inode) shared
        (.cleaning name inode order)
  | reserve {name inode entry todo expired}
      (h : (tryDeleteCursorFile shared entry expired).1 < 0) :
      Moves maxCursorFileCount shared (.visit expired) (.cleaning name inode (entry :: todo))
        (tryDeleteCursorFile shared entry expired).2 (.writing name inode)
  | pass {name inode entry todo expired}
      (h : ¬ (tryDeleteCursorFile shared entry expired).1 < 0) :
      Moves maxCursorFileCount shared (.visit expired) (.cleaning name inode (entry :: todo))
        (tryDeleteCursorFile shared entry expired).2 (.cleaning name inode todo)
  | expire {entry todo expired}
      (h : (tryDeleteCursorFile shared entry expired).1 < 0) :
      Moves maxCursorFileCount shared (.visit expired) (.sweeping (entry :: todo))
        (tryDeleteCursorFile shared entry expired).2 (.swept todo)
  | sweepPast {entry todo expired}
      (h : ¬ (tryDeleteCursorFile shared entry expired).1 < 0) :
      Moves maxCursorFileCount shared (.visit expired) (.sweeping (entry :: todo))
        (tryDeleteCursorFile shared entry expired).2 (.sweeping todo)
  | flush {name inode size} (h : 0 < size) :
      Moves maxCursorFileCount shared (.flush size) (.writing name inode)
        (writeFile shared name inode size) (.writing name inode)
  | close {name inode size} (h : 0 < size) :
      Moves maxCursorFileCount shared (.close size) (.writing name inode)
        (writeFile shared name inode size) .idle
  | notFound {name} (h : shared.files.lookup name = none) :
      Moves maxCursorFileCount shared (.drain name) .idle shared .idle
  | drain {name file} (h : shared.files.lookup name = some file) :
      Moves maxCursorFileCount shared (.drain name) .idle shared (.draining name)
  | keep {name cursorComplete}
      (h : cursorComplete = true → name ∉ shared.files) :
      Moves maxCursorFileCount shared (.closeDrained cursorComplete) (.draining name) shared .idle
  | complete {name} (h : name ∈ shared.files) :
      Moves maxCursorFileCount shared (.closeDrained true) (.draining name)
        (deleteFile shared name) .deleted
  | kill {name} (h : name ∈ shared.files) :
      Moves maxCursorFileCount shared (.kill name) .idle (deleteFile shared name) .deleted
  | killNothing {name} (h : name ∉ shared.files) :
      Moves maxCursorFileCount shared (.kill name) .idle shared .idle
  | sweep {order} (h : order.Perm shared.files.keys) :
      Moves maxCursorFileCount shared (.sweep order) .idle shared (.sweeping order)
  | endSweep : Moves maxCursorFileCount shared .endSweep (.sweeping []) shared .idle
  | discount : Moves maxCursorFileCount shared .decrement .deleted
      (decrementCursorCount shared) .idle
  | discountSwept {todo} : Moves maxCursorFileCount shared .decrement (.swept todo)
      (decrementCursorCount shared) (.sweeping todo)
  | abort {stage} : Moves maxCursorFileCount shared .abort stage
      (deletePendingCursorFiles shared stage) .idle

variable {maxCursorFileCount : Nat} {a : Action Name} {shared shared' : Shared Name}
  {stage stage' : Stage Name}

theorem moves_of_act (h : act maxCursorFileCount a shared stage = some (shared', stage')) :
    Moves maxCursorFileCount shared a stage shared' stage' := by
  unfold act at h
  split at h
  · split at h
    · cases h
      exact .alreadyExists (by assumption)
    · cases h
      exact .create (by assumption)
  · split at h
    · cases h
      exact .refuse (by assumption)
    · cases h
      exact .count (by assumption)
  · split at h
    · cases h
      exact .cleanUp (by assumption)
    · cases h
  · dsimp only at h
    split at h
    · cases h
      exact .reserve (by assumption)
    · cases h
      exact .pass (by assumption)
  · dsimp only at h
    split at h
    · cases h
      exact .expire (by assumption)
    · cases h
      exact .sweepPast (by assumption)
  · split at h
    · cases h
      exact .flush (by assumption)
    · cases h
  · split at h
    · cases h
      exact .close (by assumption)
    · cases h
  · split at h
    · cases h
      exact .notFound (by assumption)
    · cases h
      exact .drain (by assumption)
  · split at h
    · rename_i hcomplete
      subst hcomplete
      split at h
      · cases h
        exact .complete (by assumption)
      · cases h
        exact .keep (fun _ => by assumption)
    · cases h
      exact .keep (fun hcomplete => absurd hcomplete (by assumption))
  · split at h
    · cases h
      exact .kill (by assumption)
    · cases h
      exact .killNothing (by assumption)
  · split at h
    · cases h
      exact .sweep (by assumption)
    · cases h
  · cases h
    exact .endSweep
  · cases h
    exact .discount
  · cases h
    exact .discountSwept
  · cases h
    exact .abort
  · cases h

-- ==== the account is exact

variable {file : CursorFile} {name entry : Name}

theorem mem_of_lookup (h : shared.files.lookup name = some file) : name ∈ shared.files := by
  apply AList.lookup_isSome.1
  rw [h]
  rfl

theorem fileCount_deleteFile (h : name ∈ shared.files) :
    (deleteFile shared name).fileCount + 1 = shared.fileCount := by
  have hkey : name ∈ shared.files.keys := AList.mem_keys.1 h
  show (shared.files.erase name).keys.length + 1 = _
  rw [AList.keys_erase, length_erase_of_mem hkey]
  exact Nat.sub_add_cancel (length_pos_of_mem hkey)

theorem fileCount_deleteFile_of_notMem (h : name ∉ shared.files) :
    (deleteFile shared name).fileCount = shared.fileCount := by
  show (shared.files.erase name).keys.length = _
  rw [AList.keys_erase, erase_of_not_mem (fun hkey => h (AList.mem_keys.2 hkey))]
  rfl

theorem fileCount_writeFile (name : Name) (inode size : Nat) :
    (writeFile shared name inode size).fileCount = shared.fileCount := by
  unfold writeFile
  split
  · rfl
  · rename_i file hlookup
    split
    · have hkey : name ∈ shared.files.keys :=
        AList.mem_keys.1 (mem_of_lookup hlookup)
      show (shared.files.insert name _).keys.length = _
      rw [AList.keys_insert, length_cons, length_erase_of_mem hkey]
      exact Nat.sub_add_cancel (length_pos_of_mem hkey)
    · rfl

variable {expired : Bool}

theorem tryDeleteCursorFile_deleted (h : (tryDeleteCursorFile shared entry expired).1 < 0) :
    (tryDeleteCursorFile shared entry expired).2.fileCount + 1 = shared.fileCount
      ∧ (tryDeleteCursorFile shared entry expired).2.currentCursorCount = shared.currentCursorCount
      ∧ emptyVisited shared entry expired = 0 := by
  unfold tryDeleteCursorFile emptyVisited at *
  cases hlookup : shared.files.lookup entry with
  | none =>
    rw [hlookup] at h
    exact absurd h (Int.lt_irrefl 0)
  | some file =>
    rw [hlookup] at h
    cases expired with
    | false => exact absurd h (Int.not_lt.2 (Int.natCast_nonneg _))
    | true =>
      refine ⟨fileCount_deleteFile (mem_of_lookup hlookup), rfl, ?_⟩
      have hsize : (-(file.size : Int)) < 0 := h
      exact if_neg (fun hempty => by omega)

theorem tryDeleteCursorFile_passed (h : ¬ (tryDeleteCursorFile shared entry expired).1 < 0) :
    (tryDeleteCursorFile shared entry expired).2.fileCount
        + emptyVisited shared entry expired = shared.fileCount
      ∧ (tryDeleteCursorFile shared entry expired).2.currentCursorCount
        = shared.currentCursorCount := by
  unfold tryDeleteCursorFile emptyVisited at *
  cases hlookup : shared.files.lookup entry with
  | none => exact ⟨rfl, rfl⟩
  | some file =>
    rw [hlookup] at h
    cases expired with
    | false => exact ⟨rfl, rfl⟩
    | true =>
      have hsize : ¬ (-(file.size : Int)) < 0 := h
      refine ⟨?_, rfl⟩
      show _ + (if true ∧ file.size = 0 then 1 else 0) = _
      rw [if_pos ⟨rfl, by omega⟩]
      exact fileCount_deleteFile (mem_of_lookup hlookup)

omit [DecidableEq Name] in
theorem currentCursorCount_of_increment (h : incrementCursorCount maxCursorFileCount shared = some shared') :
    shared'.currentCursorCount = shared.currentCursorCount + 1
      ∧ shared'.fileCount = shared.fileCount := by
  unfold incrementCursorCount at h
  split at h
  · cases h
  · cases h
    exact ⟨rfl, rfl⟩

theorem excess_writeFile (name : Name) (inode size : Nat) :
    excess (writeFile shared name inode size) = excess shared := by
  unfold excess
  rw [fileCount_writeFile]
  unfold writeFile
  split
  · rfl
  · split
    · rfl
    · rfl

theorem excess_deleteFile (name : Name) :
    excess (deleteFile shared name) = excess shared + (if name ∈ shared.files then 1 else 0) := by
  show (shared.currentCursorCount : Int) - _ = _
  unfold excess
  split
  · rename_i hmem
    have hcount := fileCount_deleteFile hmem
    omega
  · rename_i hmem
    rw [fileCount_deleteFile_of_notMem hmem]
    omega

theorem abort_excess (stage : Stage Name) :
    excess (deletePendingCursorFiles shared stage) = excess shared + owed stage
        + (lost .abort shared stage - discountedTwice .abort shared stage) := by
  cases stage with
  | idle | sweeping todo =>
    show excess shared = _ + 0 + (((0 : Nat) : Int) - ((0 : Nat) : Int))
    omega
  | deleted => exact (Int.neg_add_cancel_right _ 1).symm
  | swept todo => exact (Int.neg_add_cancel_right _ 1).symm
  | created name inode | refused name inode | cleaning name inode todo =>
    show excess (deleteFile shared name)
      = _ + 1 + (((0 : Nat) : Int) - ((if _ then 0 else 1 : Nat) : Int))
    rw [excess_deleteFile]
    split
    · omega
    · omega
  | writing name inode | draining name =>
    show excess (deleteFile shared name)
      = _ + 0 + (((if _ then 1 else 0 : Nat) : Int) - ((0 : Nat) : Int))
    rw [excess_deleteFile]
    split
    · omega
    · omega

theorem Moves.excess_eq (h : Moves maxCursorFileCount shared a stage shared' stage') :
    excess shared' + owed stage' = excess shared + owed stage
      + (lost a shared stage - discountedTwice a shared stage) := by
  cases h with
  | @create name h =>
    have hnew : name ∉ shared.files := AList.lookup_eq_none.1 h
    have hfiles : (shared.files.insert name ⟨shared.nextInode, 0⟩).keys.length
        = shared.files.keys.length + 1 := by
      rw [AList.keys_insert, length_cons,
        erase_of_not_mem (fun hkey => hnew (AList.mem_keys.2 hkey))]
    simp only [excess, owed, lost, discountedTwice, Shared.fileCount, hfiles]
    omega
  | count h =>
    have hcount := currentCursorCount_of_increment h
    simp only [excess, owed, lost, discountedTwice]
    omega
  | reserve h | expire h =>
    have hdeleted := tryDeleteCursorFile_deleted h
    simp only [excess, owed, lost, discountedTwice]
    omega
  | pass h | sweepPast h =>
    have hpassed := tryDeleteCursorFile_passed h
    simp only [excess, owed, lost, discountedTwice]
    omega
  | flush h | close h =>
    rw [excess_writeFile]
    exact (Int.add_zero _).symm
  | complete h | kill h =>
    rw [excess_deleteFile, if_pos h]
    simp only [owed, lost, discountedTwice]
    omega
  | discount | discountSwept =>
    have hcount : (decrementCursorCount shared).currentCursorCount
        = shared.currentCursorCount - 1 := rfl
    have hfiles : (decrementCursorCount shared).fileCount = shared.fileCount := rfl
    simp only [excess, owed, lost, discountedTwice]
    split
    · omega
    · omega
  | abort =>
    rw [abort_excess, owed]
    omega
  | _ => exact (Int.add_zero _).symm

/-- No transition brings the count above the limit. -/
theorem Moves.currentCursorCount_le (h : Moves maxCursorFileCount shared a stage shared' stage')
    (hmax : 0 < maxCursorFileCount) (hle : shared.currentCursorCount ≤ maxCursorFileCount) :
    shared'.currentCursorCount ≤ maxCursorFileCount := by
  cases h with
  | count h =>
    unfold incrementCursorCount at h
    split at h
    · cases h
    · rename_i hlimit
      cases h
      exact Nat.le_of_not_lt fun hlt => hlimit ⟨hmax, hlt⟩
  | reserve h | expire h => rwa [(tryDeleteCursorFile_deleted h).2.1]
  | pass h | sweepPast h => rwa [(tryDeleteCursorFile_passed h).2]
  | flush | close =>
    unfold writeFile
    split
    · exact hle
    · split <;> exact hle
  | discount | discountSwept => exact Nat.le_trans (Nat.sub_le _ _) hle
  | abort =>
    unfold deletePendingCursorFiles
    split <;> exact hle
  | _ => exact hle

-- ==== files without contents

/-- The file that a session has created and not yet closed. -/
def Stage.holds : Stage Name → Option (Name × Nat)
  | .created name inode | .refused name inode | .cleaning name inode _
  | .writing name inode => some (name, inode)
  | .idle | .draining _ | .deleted | .sweeping _ | .swept _ => none

theorem lookup_deleteFile (h : (deleteFile shared entry).files.lookup name = some file) :
    name ≠ entry ∧ shared.files.lookup name = some file := by
  have hne : name ≠ entry := by
    rintro rfl
    have hnone : (deleteFile shared name).files.lookup name = none :=
      AList.lookup_erase name shared.files
    rw [hnone] at h
    cases h
  refine ⟨hne, ?_⟩
  rw [← AList.lookup_erase_ne hne]
  exact h

theorem lookup_tryDeleteCursorFile
    (h : (tryDeleteCursorFile shared entry expired).2.files.lookup name = some file) :
    shared.files.lookup name = some file := by
  unfold tryDeleteCursorFile at h
  split at h
  · exact h
  · split at h
    · exact (lookup_deleteFile h).2
    · exact h

theorem lookup_writeFile {written : Name} {inode size : Nat} (hsize : 0 < size)
    (hempty : file.size = 0)
    (h : (writeFile shared written inode size).files.lookup name = some file) :
    shared.files.lookup name = some file ∧ (written, inode) ≠ (name, file.inode) := by
  unfold writeFile at h
  split at h
  · rename_i hnone
    refine ⟨h, ?_⟩
    rintro ⟨⟩
    rw [hnone] at h
    cases h
  · rename_i old hold
    split at h
    · have hne : name ≠ written := by
        rintro rfl
        have hnew : (shared.files.insert name ⟨inode, size⟩).lookup name = _ :=
          AList.lookup_insert _
        cases hnew.symm.trans h
        exact absurd hempty (Nat.ne_of_gt hsize)
      have hsame : (shared.files.insert written ⟨inode, size⟩).lookup name = _ :=
        AList.lookup_insert_ne hne
      exact ⟨hsame.symm.trans h, fun heq => hne (congrArg Prod.fst heq).symm⟩
    · rename_i hinode
      refine ⟨h, ?_⟩
      rintro ⟨⟩
      cases hold.symm.trans h
      exact hinode rfl

/-- A file without contents that is there after a transition is held by the session,
or it was there before and the session did not hold it. -/
theorem Moves.held (h : Moves maxCursorFileCount shared a stage shared' stage')
    (hfile : shared'.files.lookup name = some file) (hempty : file.size = 0) :
    stage'.holds = some (name, file.inode)
      ∨ (shared.files.lookup name = some file ∧ stage.holds ≠ some (name, file.inode)) := by
  have hsame : stage'.holds = stage.holds → shared.files.lookup name = some file →
      stage'.holds = some (name, file.inode)
        ∨ (shared.files.lookup name = some file ∧ stage.holds ≠ some (name, file.inode)) := by
    intro hholds hold
    by_cases hself : stage.holds = some (name, file.inode)
    · exact Or.inl (hholds.trans hself)
    · exact Or.inr ⟨hold, hself⟩
  cases h with
  | @create new hnew =>
    by_cases heq : name = new
    · subst heq
      have hinsert : (shared.files.insert name ⟨shared.nextInode, 0⟩).lookup name
          = _ := AList.lookup_insert _
      cases hinsert.symm.trans hfile
      exact Or.inl rfl
    · have hinsert : (shared.files.insert new ⟨shared.nextInode, 0⟩).lookup name
          = _ := AList.lookup_insert_ne heq
      exact Or.inr ⟨hinsert.symm.trans hfile, nofun⟩
  | count hcount =>
    have hfiles : shared'.files = shared.files := by
      unfold incrementCursorCount at hcount
      split at hcount
      · cases hcount
      · cases hcount
        rfl
    rw [hfiles] at hfile
    exact hsame rfl hfile
  | reserve hres | pass hres | expire hres | sweepPast hres =>
    exact hsame rfl (lookup_tryDeleteCursorFile hfile)
  | flush hsize => exact hsame rfl (lookup_writeFile hsize hempty hfile).1
  | close hsize =>
    obtain ⟨hold, hne⟩ := lookup_writeFile hsize hempty hfile
    exact Or.inr ⟨hold, fun heq => hne (some.inj heq)⟩
  | complete hmem | kill hmem => exact hsame rfl (lookup_deleteFile hfile).2
  | abort =>
    cases stage with
    | idle | deleted | sweeping todo | swept todo =>
      exact Or.inr ⟨hfile, nofun⟩
    | draining pending =>
      exact Or.inr ⟨(lookup_deleteFile hfile).2, nofun⟩
    | created pending inode | refused pending inode
    | cleaning pending inode todo | writing pending inode =>
      obtain ⟨hne, hold⟩ := lookup_deleteFile hfile
      refine Or.inr ⟨hold, fun heq => hne ?_⟩
      exact (congrArg Prod.fst (some.inj heq)).symm
  | _ => exact hsame rfl hfile

-- ==== runs

section Runs

variable {ι : Type} [DecidableEq ι]

def Held (s : Store ι Name) : Prop :=
  ∀ name file, s.shared.files.lookup name = some file → file.size = 0 →
    ∃ i, (s.stages i).holds = some (name, file.inode)

variable {s : Store ι Name} {file : CursorFile} {entry : Name} {order : List Name}

theorem Held.step {e : ι × Action Name} {s' : Store ι Name} (h : Held s)
    (hstep : step maxCursorFileCount e s = some s') : Held s' := by
  obtain ⟨i, a⟩ := e
  obtain ⟨shared, stage, hact, rfl⟩ := of_step hstep
  intro name file hfile hempty
  rcases (moves_of_act hact).held hfile hempty with hself | ⟨hold, hother⟩
  · refine ⟨i, ?_⟩
    rw [stages_self]
    exact hself
  · obtain ⟨j, hj⟩ := h name file hold hempty
    have hne : j ≠ i := by
      rintro rfl
      exact hother hj
    refine ⟨j, ?_⟩
    show (Function.update s.stages i stage j).holds = _
    rw [Function.update_of_ne hne]
    exact hj

def Quiet (s : Store ι Name) : Prop := ∀ i, s.stages i = .idle

variable {name : Name}

omit [DecidableEq ι] in
theorem Held.size_pos (h : Held s) (hquiet : Quiet s)
    (hfile : s.shared.files.lookup name = some file) : 0 < file.size := by
  apply Nat.pos_of_ne_zero
  intro hempty
  obtain ⟨i, hi⟩ := h name file hfile hempty
  rw [hquiet i] at hi
  cases hi

/-- A session that is alone wants to create a file; the limit is reached, and the
visit of all entries of the directory ends without a deletion. -/
def Refused (maxCursorFileCount : Nat) (s : Store ι Name) (i : ι) (name : Name)
    (order : List Name) (expired : Name → Bool) : Prop :=
  ∃ s' inode, Runs.run (step maxCursorFileCount)
      ((i, .create name) :: (i, .increment) :: (i, .cleanUp order)
        :: order.map fun entry => (i, .visit (expired entry))) s = some s'
    ∧ s'.stages i = .cleaning name inode []

/-- A run of the server, up to a moment when no session is inside an operation. -/
structure QuietRun (ι Name : Type) [DecidableEq ι] [DecidableEq Name]
    (maxCursorFileCount : Nat) where
  events : List (ι × Action Name)
  final : Store ι Name
  run_eq : Runs.run (step maxCursorFileCount) events start = some final
  quiet : Quiet final

/-- The count is the number of files, and a new cursor is refused only if there are
as many files as allowed that are not expired. -/
def QuietRun.Tracks (r : QuietRun ι Name maxCursorFileCount) : Prop :=
  r.final.shared.currentCursorCount = r.final.shared.fileCount
  ∧ ∀ i name order expired, Refused maxCursorFileCount r.final i name order expired →
    maxCursorFileCount ≤ (r.final.shared.files.keys.filter fun entry => !expired entry).length

theorem tryDeleteCursorFile_expired
    (hfile : shared.files.lookup entry = some file) (hsize : 0 < file.size) :
    (tryDeleteCursorFile shared entry true).1 < 0 := by
  unfold tryDeleteCursorFile
  rw [hfile]
  show -(file.size : Int) < 0
  omega

theorem lookup_tryDeleteCursorFile_ne (hne : name ≠ entry) :
    (tryDeleteCursorFile shared entry expired).2.files.lookup name = shared.files.lookup name := by
  unfold tryDeleteCursorFile
  split
  · rfl
  · split
    · exact AList.lookup_erase_ne hne
    · rfl

variable {s s' : Store ι Name} {i : ι} {expired : Name → Bool}

theorem visits_unexpired {name' : Name} {inode inode' : Nat}
    (hstage : s.stages i = .cleaning name inode order) (hrun : Runs.run (step maxCursorFileCount)
      (order.map fun entry => (i, .visit (expired entry))) s = some s')
    (hend : s'.stages i = .cleaning name' inode' []) :
    ∀ entry ∈ order, ∀ file, s.shared.files.lookup entry = some file →
      0 < file.size → expired entry = false := by
  induction order generalizing s with
  | nil => nofun
  | cons first todo ih =>
    obtain ⟨t, hstep, hrest⟩ := bind_eq_some_iff.1 hrun
    obtain ⟨shared, stage, hact, rfl⟩ := of_step hstep
    rw [hstage] at hact
    cases moves_of_act hact with
    | reserve hres =>
      -- the session goes on to write its file
      cases todo with
      | nil =>
        cases hrest
        rw [stages_self] at hend
        cases hend
      | cons second todo =>
        obtain ⟨u, hnext, -⟩ := bind_eq_some_iff.1 hrest
        obtain ⟨shared, stage, hact', -⟩ := of_step hnext
        rw [stages_self] at hact'
        cases hact'
    | pass hres =>
      have hfirst : ∀ file, s.shared.files.lookup first = some file →
          0 < file.size → expired first = false := by
        intro file hfile hsize
        by_contra hexpired
        rw [Bool.not_eq_false] at hexpired
        rw [hexpired] at hres
        exact hres (tryDeleteCursorFile_expired hfile hsize)
      intro entry hentry file hfile hsize
      by_cases heq : entry = first
      · subst heq
        exact hfirst file hfile hsize
      · refine ih (stages_self _ _ _) hrest entry ?_ file ?_ hsize
        · exact mem_of_ne_of_mem heq hentry
        · exact (lookup_tryDeleteCursorFile_ne heq).trans hfile

theorem Refused.unexpired
    (h : Refused maxCursorFileCount s i name order expired) (hquiet : s.stages i = .idle)
    (hsizes : ∀ {name file}, s.shared.files.lookup name = some file → 0 < file.size) :
    maxCursorFileCount ≤ s.shared.currentCursorCount
      ∧ ∀ entry ∈ s.shared.files.keys, expired entry = false := by
  obtain ⟨s', inode, hrun, hend⟩ := h
  obtain ⟨s₁, hcreate, hrun⟩ := bind_eq_some_iff.1 hrun
  obtain ⟨s₂, hincrement, hrun⟩ := bind_eq_some_iff.1 hrun
  obtain ⟨s₃, hcleanUp, hvisits⟩ := bind_eq_some_iff.1 hrun
  obtain ⟨shared₁, stage₁, hact₁, rfl⟩ := of_step hcreate
  obtain ⟨shared₂, stage₂, hact₂, rfl⟩ := of_step hincrement
  obtain ⟨shared₃, stage₃, hact₃, rfl⟩ := of_step hcleanUp
  rw [hquiet] at hact₁
  rw [stages_self] at hact₂ hact₃
  -- the only way to the visits: the file is new, and the limit is reached
  cases moves_of_act hact₁ with
  | alreadyExists hfile => cases hact₂
  | create hnew =>
    cases moves_of_act hact₂ with
    | count hcount => cases hact₃
    | refuse hrefuse =>
      cases moves_of_act hact₃ with
      | cleanUp hperm =>
        constructor
        · unfold incrementCursorCount at hrefuse
          split at hrefuse
          · rename_i hlimit
            exact Nat.le_of_lt_succ hlimit.2
          · cases hrefuse
        · intro entry hentry
          have hne : entry ≠ name := by
            rintro rfl
            exact AList.lookup_eq_none.1 hnew (AList.mem_keys.2 hentry)
          obtain ⟨file, hfile⟩ := isSome_iff_exists.1
            (AList.lookup_isSome.2 (AList.mem_keys.2 hentry))
          refine visits_unexpired (stages_self _ _ _) hvisits hend
            entry ?_ file ?_ (hsizes hfile)
          · rw [hperm.mem_iff]
            apply AList.mem_keys.1
            apply (AList.mem_insert _).2
            exact Or.inr (AList.mem_keys.2 hentry)
          · exact (AList.lookup_insert_ne hne).trans hfile

theorem QuietRun.held (r : QuietRun ι Name maxCursorFileCount) : Held r.final := by
  have hstart : Held (start : Store ι Name) := by
    intro name file hfile
    have hnone : (∅ : AList fun _ : Name => CursorFile).lookup name = none :=
      AList.lookup_empty name
    cases hnone.symm.trans hfile
  refine Runs.invariant (Q := fun _ => True) (fun _ h hstep => h.step hstep)
    (fun _ _ => trivial) r.run_eq hstart

def QuietRun.lost (r : QuietRun ι Name maxCursorFileCount) : Nat :=
  total (act maxCursorFileCount) CursorCount.lost r.events start

def QuietRun.discountedTwice (r : QuietRun ι Name maxCursorFileCount) : Nat :=
  total (act maxCursorFileCount) CursorCount.discountedTwice r.events start

variable [Fintype ι]

theorem QuietRun.excess_eq (r : QuietRun ι Name maxCursorFileCount) :
    excess r.final.shared = r.lost - r.discountedTwice := by
  have hrun := run_balance (fun {_ _ _ _ _} hact => (moves_of_act hact).excess_eq) r.run_eq
  have hfinal : balance excess owed r.final = excess r.final.shared := by
    unfold balance
    rw [Finset.sum_eq_zero fun i _ => by rw [r.quiet i]; rfl, Int.add_zero]
  have hstart : balance excess owed (start : Store ι Name) = 0 := by
    have howed : ∑ i, owed ((start : Store ι Name).stages i) = 0 :=
      Finset.sum_eq_zero fun i _ => rfl
    unfold balance
    rw [howed]
    rfl
  rw [hfinal, hstart, Int.zero_add] at hrun
  exact hrun

/-- The count tracks the files exactly if as many files were discounted twice as
were lost; in particular if there was neither. -/
theorem tracks_iff (r : QuietRun ι Name maxCursorFileCount) :
    r.Tracks ↔ r.lost = r.discountedTwice := by
  have hexcess := r.excess_eq
  unfold excess at hexcess
  constructor
  · rintro ⟨hcount, -⟩
    omega
  · intro hlost
    have hcount : r.final.shared.currentCursorCount = r.final.shared.fileCount := by
      omega
    refine ⟨hcount, fun i name order expired hrefused => ?_⟩
    obtain ⟨hmax, hunexpired⟩ := hrefused.unexpired (r.quiet i)
      (fun hfile => r.held.size_pos r.quiet hfile)
    rw [filter_eq_self.2 fun entry hentry => by
      rw [hunexpired entry hentry]
      rfl]
    rw [hcount] at hmax
    exact hmax

/-- In every run, there are no more files than the limit allows, up to one for each session
that has created a file and not yet counted it, and those that were discounted twice. -/
theorem fileCount_le (hmax : 0 < maxCursorFileCount)
    (hrun : Runs.run (step maxCursorFileCount) events start = some s) :
    s.shared.fileCount ≤ maxCursorFileCount
      + (Finset.univ.filter fun i => owed (s.stages i) = 1).card
      + total (act maxCursorFileCount) discountedTwice events start := by
  have hbalance : balance excess owed s = balance excess owed start
      + (total (act maxCursorFileCount) lost events start
        - total (act maxCursorFileCount) discountedTwice events start) :=
    run_balance (fun {_ _ _ _ _} hact => (moves_of_act hact).excess_eq) hrun
  have hcount : s.shared.currentCursorCount ≤ maxCursorFileCount := by
    refine Runs.invariant (P := fun s => s.shared.currentCursorCount ≤ maxCursorFileCount)
      (Q := fun _ => True) ?_ (fun _ _ => trivial) hrun (Nat.zero_le _)
    intro e t t' _ hle hstep
    obtain ⟨shared, stage, hact, rfl⟩ := of_step hstep
    exact (moves_of_act hact).currentCursorCount_le hmax hle
  have howed : ∑ i, owed (s.stages i) ≤ (Finset.univ.filter fun i => owed (s.stages i) = 1).card := by
    rw [Finset.natCast_card_filter]
    refine Finset.sum_le_sum fun i _ => ?_
    cases s.stages i <;> simp [owed]
  have hstart : balance excess owed (start : Store ι Name) = 0 := by
    have hzero : ∑ i, owed ((start : Store ι Name).stages i) = 0 := Finset.sum_eq_zero fun i _ => rfl
    rw [balance, hzero]
    rfl
  rw [hstart, balance, excess] at hbalance
  omega

end Runs

/-- A session creates a cursor file, and its transaction aborts. -/
def abortedRun : QuietRun (Fin 1) Nat 5000 where
  events := [(0, .create 7), (0, .increment), (0, .abort)]
  final := ⟨⟨∅, 1, 1⟩, fun _ => .idle⟩
  run_eq := by
    refine congrArg (fun stages => some (⟨⟨∅, 1, 1⟩, stages⟩ : Store (Fin 1) Nat))
      (funext fun i => ?_)
    rw [Subsingleton.elim i 0]
    rfl
  quiet := fun _ => rfl

/-- The file is deleted, and the count stays one. -/
theorem aborted_file_counted : ¬ abortedRun.Tracks := by
  rintro ⟨hcount, -⟩
  cases hcount

/-- With a limit of one file: a second session is refused, deletes the expired file of
the first one and takes its place; then the first session creates another file. -/
def replacedFile : List (Bool × Action Nat) :=
  [(false, .create 7), (false, .increment), (false, .close 5), (true, .create 8),
    (true, .increment), (true, .cleanUp [8, 7]), (true, .visit false), (true, .visit true),
    (false, .create 9)]

/-- There are two files, and one of them is not yet counted. -/
theorem replaced_fileCount_le : ∃ s, Runs.run (step 1) replacedFile start = some s
    ∧ s.shared.fileCount = 2
    ∧ s.shared.fileCount ≤ 1 + (Finset.univ.filter fun i => owed (s.stages i) = 1).card
      + total (act 1) discountedTwice replacedFile start := by
  have hrun : (Runs.run (step 1) replacedFile start).map (fun s => s.shared.fileCount)
      = some 2 := by decide +kernel
  obtain ⟨s, hs, hcount⟩ := map_eq_some_iff.1 hrun
  exact ⟨s, hs, hcount, fileCount_le Nat.one_pos hs⟩

end DocumentDb.CursorCount
