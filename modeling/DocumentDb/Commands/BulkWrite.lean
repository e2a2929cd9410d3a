/-
The bulkWrite command.

The array `ops` is parsed into a list of operations, without the elements that are not
documents. They are executed one after the other, each in a sub-transaction of its own; one
that succeeds is counted, and one that fails adds an error with its index. This is its index
in the list, which is its position in the array exactly when every element before it is a
document (`getElem_operationPositions`).
-/
import DocumentDb.Commands.DeleteOne
import DocumentDb.Lib.Numbered
import DocumentDb.Bson.Path

namespace DocumentDb

open List Option

-- ==== parsing

/-- Without the unknown one, which is an error. -/
inductive BulkWriteOperationType where
  | insertOne
  | updateOne
  | updateMany
  | replaceOne
  | deleteOne
  | deleteMany
  deriving DecidableEq

structure BulkWriteOperation where
  type : BulkWriteOperationType
  operationSpec : Value
  operationIndex : Nat

/-- The operation that a key names: `insertOne`, `updateOne`, `updateMany`,
`replaceOne`, `deleteOne`, `deleteMany`. -/
def bulkWriteOperationType? (key : Bytes) : Option BulkWriteOperationType :=
  if key = [105, 110, 115, 101, 114, 116, 79, 110, 101] then some .insertOne
  else if key = [117, 112, 100, 97, 116, 101, 79, 110, 101] then
    some .updateOne
  else if key = [117, 112, 100, 97, 116, 101, 77, 97, 110, 121] then
    some .updateMany
  else if key = [114, 101, 112, 108, 97, 99, 101, 79, 110, 101] then
    some .replaceOne
  else if key = [100, 101, 108, 101, 116, 101, 79, 110, 101] then
    some .deleteOne
  else if key = [100, 101, 108, 101, 116, 101, 77, 97, 110, 121] then
    some .deleteMany
  else none

/-- The errors of a command that is not executed. -/
inductive BulkWriteError where
  | notAValidOperationType (operationIndex : Nat)
  | opsIsMissing

/-- The loop of `BuildBulkWriteOperation`: the last key counts. -/
def readOperation :
    Fields → Option (BulkWriteOperationType × Value) → Option (BulkWriteOperationType × Value)
  | [], operation => operation
  | (key, value) :: fields, operation =>
    match bulkWriteOperationType? key with
    | some type => readOperation fields (some (type, value))
    | none => readOperation fields operation

def buildBulkWriteOperation (fields : Fields) (operationIndex : Nat) :
    Except BulkWriteError BulkWriteOperation :=
  match readOperation fields none with
  | some (type, operationSpec) => .ok ⟨type, operationSpec, operationIndex⟩
  | none => .error (.notAValidOperationType operationIndex)

/-- The fields of an element of `ops`, if it is a document. -/
def operationFields? : Value → Option Fields
  | .document fields => some fields
  | _ => none

def buildBulkOperationList : List Value → Nat → Except BulkWriteError (List BulkWriteOperation)
  | [], _ => .ok []
  | element :: elements, operationIndex =>
    match operationFields? element with
    | some fields => do
      let operation ← buildBulkWriteOperation fields operationIndex
      let operations ← buildBulkOperationList elements (operationIndex + 1)
      return operation :: operations
    | none => buildBulkOperationList elements (operationIndex + 1)

/-- The operations that `BuildBulkWriteSpec` reads from the array `ops`. -/
def bulkWriteOperations (ops : List Value) : Except BulkWriteError (List BulkWriteOperation) := do
  let operations ← buildBulkOperationList ops 0
  if operations.isEmpty then .error .opsIsMissing else .ok operations

-- ==== results

/-- The counters of `BulkWriteResult`. -/
structure BulkCounts where
  insertedCount : Nat := 0
  matchedCount : Nat := 0
  modifiedCount : Nat := 0
  deletedCount : Nat := 0
  upsertedCount : Nat := 0
  deriving DecidableEq

def BulkCounts.add (a b : BulkCounts) : BulkCounts :=
  ⟨a.insertedCount + b.insertedCount, a.matchedCount + b.matchedCount,
    a.modifiedCount + b.modifiedCount, a.deletedCount + b.deletedCount,
    a.upsertedCount + b.upsertedCount⟩

/-- No operation adds to `upsertedIds`. -/
structure BulkWriteResult (Error : Type) where
  counts : BulkCounts
  writeErrors : List (WriteError Error)

/-- The result at the start of `ProcessBulkWrite`. -/
def BulkWriteResult.empty {Error : Type} : BulkWriteResult Error := ⟨{}, []⟩

/-- `AddWriteErrorToBulkResult`. -/
def BulkWriteResult.addWriteError {Error : Type}
    (bulkResult : BulkWriteResult Error) (operationIndex : Nat)
    (error : Error) : BulkWriteResult Error :=
  { bulkResult with
    writeErrors := bulkResult.writeErrors ++ [⟨operationIndex, error⟩] }

-- ==== execution

section Process

variable {State Error : Type}
  (execute : BulkWriteOperation → State → Option (Except Error (BulkCounts × State)))
  (releaseCurrentSubTransaction : State → Except Error Unit)

/-- The end of `ProcessSingleBulkOperation`, after what was executed. The
counters are not part of the sub-transaction: they stay where its release
fails. -/
def endSubTransaction (operationIndex : Nat) (state : State) (bulkResult : BulkWriteResult Error) :
    Except Error (BulkCounts × State) → State × BulkWriteResult Error × Bool
  | .error e => (state, bulkResult.addWriteError operationIndex e, false)
  | .ok (counts, newState) =>
    let bulkResult :=
      { bulkResult with counts := bulkResult.counts.add counts }
    match releaseCurrentSubTransaction newState with
    | .ok () => (newState, bulkResult, true)
    | .error e => (state, bulkResult.addWriteError operationIndex e, false)

/-- The state, the result and whether it succeeded. Nothing is returned where the
operation runs forever. -/
def processSingleBulkOperation (operation : BulkWriteOperation)
    (operationIndex : Nat) (state : State) (bulkResult : BulkWriteResult Error) :
    Option (State × BulkWriteResult Error × Bool) :=
  (execute operation state).map
    (endSubTransaction releaseCurrentSubTransaction operationIndex state bulkResult)

/-- The loop of `ProcessBulkWrite`. -/
def processOperations (isOrdered : Bool) :
    List BulkWriteOperation → Nat → State → BulkWriteResult Error →
      Option (State × BulkWriteResult Error)
  | [], _, state, bulkResult => some (state, bulkResult)
  | operation :: operations, operationIndex, state, bulkResult =>
    match processSingleBulkOperation execute releaseCurrentSubTransaction
        operation operationIndex state bulkResult with
    | none => none
    | some (state, bulkResult, isSuccess) =>
      if !isSuccess && isOrdered then some (state, bulkResult)
      else
        processOperations isOrdered operations (operationIndex + 1) state bulkResult

def processBulkWrite (isOrdered : Bool) (operations : List BulkWriteOperation) (state : State) :
    Option (State × BulkWriteResult Error) :=
  processOperations execute releaseCurrentSubTransaction isOrdered operations 0 state .empty

end Process

-- ==== the log

/-- How an operation ended: it failed, it was counted and its sub-transaction
was then not released, or it was committed. -/
inductive OperationOutcome (Error : Type) where
  | failed (e : Error)
  | notReleased (counts : BulkCounts) (e : Error)
  | committed (counts : BulkCounts)

namespace OperationOutcome

variable {Error : Type}

def error? : OperationOutcome Error → Option Error
  | failed e => some e
  | notReleased _ e => some e
  | committed _ => none

def committedCounts : OperationOutcome Error → BulkCounts
  | committed counts => counts
  | _ => {}

def counted : OperationOutcome Error → BulkCounts
  | failed _ => {}
  | notReleased counts _ => counts
  | committed counts => counts

end OperationOutcome

/-- An operation that was executed, with its position in `ops`. -/
structure LogEntry (Error : Type) where
  position : Nat
  operation : BulkWriteOperation
  outcome : OperationOutcome Error

def LogEntry.error? {Error : Type} (entry : LogEntry Error) : Option Error :=
  entry.outcome.error?

/-- The positions of the documents of `ops`, whose first element is at the
given position. -/
def operationPositions (ops : List Value) (first : Nat) : List Nat :=
  (Numbered.kept operationFields? ops first).map Prod.fst

def BulkCounts.sum (counts : List BulkCounts) : BulkCounts := counts.foldr BulkCounts.add {}

section Log

variable {State Error : Type}
  (execute : BulkWriteOperation → State → Except Error (BulkCounts × State))
  (releaseCurrentSubTransaction : State → Except Error Unit)

def attempt (operation : BulkWriteOperation) (state : State) : OperationOutcome Error × State :=
  match execute operation state with
  | .error e => (.failed e, state)
  | .ok (counts, newState) =>
    match releaseCurrentSubTransaction newState with
    | .ok () => (.committed counts, newState)
    | .error e => (.notReleased counts e, state)

/-- What is executed of the operations, each on the state that those before it
left, and the state at the end. -/
def operationLog (isOrdered : Bool) :
    List (Nat × BulkWriteOperation) → State → List (LogEntry Error) × State
  | [], state => ([], state)
  | (position, operation) :: operations, state =>
    let (outcome, state) := attempt execute releaseCurrentSubTransaction operation state
    let entry : LogEntry Error := ⟨position, operation, outcome⟩
    if outcome.error?.isSome && isOrdered then ([entry], state)
    else
      let (log, state) := operationLog isOrdered operations state
      (entry :: log, state)

def commandLog (isOrdered : Bool) (ops : List Value)
    (operations : List BulkWriteOperation) (state : State) : List (LogEntry Error) × State :=
  operationLog execute releaseCurrentSubTransaction isOrdered
    ((operationPositions ops 0).zip operations) state

/-- The operations are executed and reported by their position in `ops`: what
is executed, what is counted, and which errors are reported. -/
structure ReportsByPosition (isOrdered : Bool) (ops : List Value)
    (operations : List BulkWriteOperation) (state : State)
    (log : List (LogEntry Error)) (newState : State) : Prop where
  executesAll : isOrdered = false → log.map (fun entry => (entry.position, entry.operation))
      = (operationPositions ops 0).zip operations
  executesUntilFailure : isOrdered = true → ∃ rest, (operationPositions ops 0).zip operations
      = log.map (fun entry => (entry.position, entry.operation)) ++ rest
    ∧ (∀ entry ∈ log.dropLast, entry.outcome.error? = none)
    ∧ (rest ≠ [] → ∃ entry ∈ log.getLast?, entry.outcome.error?.isSome)
  reports : ∃ bulkResult, processBulkWrite (fun operation state => some (execute operation state))
        releaseCurrentSubTransaction isOrdered operations state
      = some (newState, bulkResult)
    ∧ bulkResult.counts = .sum (log.map fun entry => entry.outcome.committedCounts)
    ∧ bulkResult.writeErrors
      = Numbered.byPosition WriteError.mk LogEntry.position LogEntry.error? log

/-- A command reports by position; one that is refused executes nothing. -/
def BulkWriteReports (isOrdered : Bool) (ops : List Value) (state : State) : Prop :=
  ∀ operations, bulkWriteOperations ops = .ok operations →
    ReportsByPosition execute releaseCurrentSubTransaction isOrdered ops operations state
      (commandLog execute releaseCurrentSubTransaction isOrdered ops operations state).1
      (commandLog execute releaseCurrentSubTransaction isOrdered ops operations state).2

end Log

-- ==== the positions

section Positions

/-- An element of `ops` that is not left out. -/
def IsOperation (element : Value) : Prop := (operationFields? element).isSome

variable {ops : List Value} {operations : List BulkWriteOperation}

theorem length_operationPositions {first : Nat}
    (h : buildBulkOperationList ops first = .ok operations) :
    (operationPositions ops first).length = operations.length := by
  induction ops generalizing first operations with
  | nil =>
    cases h
    rfl
  | cons element ops ih =>
    unfold operationPositions at ih ⊢
    unfold buildBulkOperationList at h
    cases hfields : operationFields? element with
    | none =>
      rw [hfields] at h
      rw [Numbered.kept_cons_none hfields]
      exact ih h
    | some fields =>
      rw [hfields] at h
      obtain ⟨operation, _, h⟩ := Except.bind_eq_ok h
      obtain ⟨rest, hrest, h⟩ := Except.bind_eq_ok h
      cases h
      rw [Numbered.kept_cons_some hfields, map_cons, length_cons, length_cons, ih hrest]

theorem buildBulkOperationList_of_bulkWriteOperations
    (h : bulkWriteOperations ops = .ok operations) :
    buildBulkOperationList ops 0 = .ok operations := by
  obtain ⟨built, hbuilt, h⟩ := Except.bind_eq_ok h
  split at h
  · cases h
  · cases h
    exact hbuilt

/-- The position of an operation is its number among the operations exactly
where every element before it is an operation. -/
theorem getElem_operationPositions {k p : Nat} (h : (operationPositions ops 0)[k]? = some p) :
    p = 0 + k ↔ ∀ e ∈ ops.take p, IsOperation e := by
  rw [operationPositions, getElem?_map] at h
  obtain ⟨⟨position, fields⟩, hkept, rfl⟩ := map_eq_some_iff.1 h
  exact (Numbered.getElem_kept hkept).2

end Positions

-- ==== counters

namespace BulkCounts

variable (a : BulkCounts)

theorem zero_add : add {} a = a := by
  simp [add]

theorem add_zero : add a {} = a := by
  simp [add]

theorem add_assoc (a b c : BulkCounts) : (a.add b).add c = a.add (b.add c) := by
  simp [add, Nat.add_assoc]

@[simp] theorem sum_nil : sum [] = {} := rfl

@[simp] theorem sum_cons (counts : List BulkCounts) : sum (a :: counts) = a.add (sum counts) :=
  rfl

structure Le (a b : BulkCounts) : Prop where
  inserted : a.insertedCount ≤ b.insertedCount
  matched : a.matchedCount ≤ b.matchedCount
  modified : a.modifiedCount ≤ b.modifiedCount
  deleted : a.deletedCount ≤ b.deletedCount
  upserted : a.upsertedCount ≤ b.upsertedCount

theorem Le.refl : Le a a :=
  ⟨Nat.le_refl _, Nat.le_refl _, Nat.le_refl _, Nat.le_refl _, Nat.le_refl _⟩

theorem Le.zero : Le {} a :=
  ⟨Nat.zero_le _, Nat.zero_le _, Nat.zero_le _, Nat.zero_le _, Nat.zero_le _⟩

variable {a b c d : BulkCounts}

theorem Le.add (h : Le a b) (h' : Le c d) : Le (a.add c) (b.add d) :=
  ⟨Nat.add_le_add h.inserted h'.inserted, Nat.add_le_add h.matched h'.matched,
    Nat.add_le_add h.modified h'.modified,
    Nat.add_le_add h.deleted h'.deleted,
    Nat.add_le_add h.upserted h'.upserted⟩

theorem Le.add_eq_iff (h : Le a b) (h' : Le c d) : a.add c = b.add d ↔ a = b ∧ c = d := by
  obtain ⟨h₁, h₂, h₃, h₄, h₅⟩ := h
  obtain ⟨h₁', h₂', h₃', h₄', h₅'⟩ := h'
  cases a
  cases b
  cases c
  cases d
  simp only [BulkCounts.add, BulkCounts.mk.injEq] at *
  omega

end BulkCounts

theorem OperationOutcome.committedCounts_le {Error : Type} (outcome : OperationOutcome Error) :
    outcome.committedCounts.Le outcome.counted := by
  cases outcome with
  | failed e | committed counts => exact .refl _
  | notReleased counts e => exact .zero _

-- ==== the run

section Run

variable {State Error : Type}
  {execute : BulkWriteOperation → State → Except Error (BulkCounts × State)}
  {releaseCurrentSubTransaction release : State → Except Error Unit}

/-- What `ProcessSingleBulkOperation` adds to a result. -/
def BulkWriteResult.note (bulkResult : BulkWriteResult Error)
    (operationIndex : Nat) (outcome : OperationOutcome Error) : BulkWriteResult Error :=
  ⟨bulkResult.counts.add outcome.counted,
    bulkResult.writeErrors ++ (outcome.error?.map (⟨operationIndex, ·⟩)).toList⟩

theorem processSingleBulkOperation_eq (op : BulkWriteOperation)
    (operationIndex : Nat) (state : State) (result : BulkWriteResult Error) :
    processSingleBulkOperation (fun op state => some (execute op state))
        release op operationIndex state result
      = some ((attempt execute release op state).2,
            result.note operationIndex (attempt execute release op state).1,
            (attempt execute release op state).1.error?.isNone) := by
  unfold processSingleBulkOperation attempt
  rw [map_some]
  congr 1
  cases hexecute : execute op state with
  | error e =>
    rfl
  | ok done =>
    obtain ⟨counts, newState⟩ := done
    simp only [endSubTransaction]
    cases hrelease : release newState with
    | error e => rfl
    | ok _ =>
      simp only [BulkWriteResult.note, OperationOutcome.error?, map_none, toList_none, append_nil]
      rfl

theorem processOperations_eq (ordered : Bool) (ops : List (Nat × BulkWriteOperation)) (first : Nat)
    (state : State) (result : BulkWriteResult Error) :
    processOperations (fun operation state => some (execute operation state))
        release ordered (ops.map Prod.snd) first
        state result
      = some ((operationLog execute release ordered ops state).2, ⟨result.counts.add (.sum
                ((operationLog execute release ordered
                  ops state).1.map fun entry => entry.outcome.counted)),
              result.writeErrors ++ Numbered.byNumber WriteError.mk LogEntry.error?
                (operationLog execute release ordered ops state).1 first⟩) := by
  induction ops generalizing first state result with
  | nil =>
    simp only [map_nil, processOperations, operationLog, BulkCounts.sum_nil,
      BulkCounts.add_zero, Numbered.byNumber, zipIdx_nil, filterMap_nil, append_nil]
  | cons head ops ih =>
    obtain ⟨position, operation⟩ := head
    rw [map_cons, processOperations, processSingleBulkOperation_eq, operationLog]
    generalize attempt execute release operation state = attempted
    obtain ⟨outcome, newState⟩ := attempted
    have hnot : (!outcome.error?.isNone) = outcome.error?.isSome := by
      cases outcome.error? <;> rfl
    simp only [hnot]
    by_cases hstop : (outcome.error?.isSome && ordered)
    · rw [if_pos hstop, if_pos hstop]
      rfl
    · rw [if_neg hstop, if_neg hstop, ih]
      simp only [map_cons, BulkCounts.sum_cons, Numbered.byNumber_cons, LogEntry.error?,
        BulkWriteResult.note, BulkCounts.add_assoc, append_assoc]

theorem operationLog_unordered (operations : List (Nat × BulkWriteOperation)) (state : State) :
    (operationLog execute release false operations
        state).1.map (fun entry => (entry.position, entry.operation))
      = operations := by
  induction operations generalizing state with
  | nil => rfl
  | cons head operations ih =>
    obtain ⟨position, operation⟩ := head
    rw [operationLog]
    simp only [Bool.and_false, Bool.false_eq_true, if_false, map_cons, ih]

theorem operationLog_ordered (ops : List (Nat × BulkWriteOperation)) (state : State) : ∃ rest, ops
        = (operationLog execute release true ops
            state).1.map (fun entry => (entry.position, entry.operation))
          ++ rest
      ∧ (∀ entry ∈ (operationLog execute release true
            ops state).1.dropLast, entry.outcome.error? = none)
      ∧ (rest ≠ [] → ∃ entry ∈ (operationLog execute release true ops state).1.getLast?,
          entry.outcome.error?.isSome) := by
  induction ops generalizing state with
  | nil =>
    refine ⟨[], rfl, fun entry hentry => ?_, fun h => absurd rfl h⟩
    cases hentry
  | cons head ops ih =>
    obtain ⟨position, operation⟩ := head
    rw [operationLog]
    generalize attempt execute release operation state = attempted
    obtain ⟨outcome, newState⟩ := attempted
    simp only [Bool.and_true]
    by_cases hfails : outcome.error?.isSome
    · rw [if_pos hfails]
      refine ⟨ops, rfl, fun entry hentry => ?_, fun _ => ?_⟩
      · cases hentry
      · exact ⟨_, rfl, hfails⟩
    · rw [if_neg hfails]
      obtain ⟨rest, hrest, hcommitted, hlast⟩ := ih newState
      have hnone : outcome.error? = none := by
        cases herror : outcome.error? with
        | none => rfl
        | some e =>
          rw [herror] at hfails
          exact absurd rfl hfails
      generalize (operationLog execute release true ops newState).1 = log at hrest hcommitted hlast
      refine ⟨rest, ?_, fun entry hentry => ?_, fun hne => ?_⟩
      · rw [map_cons, cons_append, ← hrest]
      · cases log with
        | nil => cases hentry
        | cons next log =>
          rcases mem_cons.1 hentry with rfl | hentry
          · exact hnone
          · exact hcommitted entry hentry
      · obtain ⟨entry, hentry, herror⟩ := hlast hne
        refine ⟨entry, ?_, herror⟩
        cases log with
        | nil => cases hentry
        | cons next log =>
          exact hentry

theorem operationLog_isPrefix (ordered : Bool)
    (operations : List (Nat × BulkWriteOperation)) (state : State) :
    ((operationLog execute release ordered operations
        state).1.map (fun entry => (entry.position, entry.operation)))
      <+: operations := by
  cases ordered with
  | false =>
    refine ⟨[], ?_⟩
    rw [append_nil, operationLog_unordered]
  | true =>
    obtain ⟨rest, hrest, -⟩ := @operationLog_ordered _ _ execute release operations state
    exact ⟨rest, hrest.symm⟩

theorem position_of_getElem_operationLog {ordered : Bool}
    {ops : List Value} {operations : List BulkWriteOperation} {state : State}
    {k : Nat} {entry : LogEntry Error} (h : (operationLog execute release ordered
      ((operationPositions ops 0).zip operations) state).1[k]? = some entry) :
    (operationPositions ops 0)[k]? = some entry.position := by
  obtain ⟨rest, hprefix⟩ := @operationLog_isPrefix _ _ execute release ordered
    ((operationPositions ops 0).zip operations) state
  have hlt := (List.getElem?_eq_some_iff.1 h).1
  have hk : ((operationPositions ops 0).zip operations)[k]?
      = some (entry.position, entry.operation) := by
    rw [← hprefix, getElem?_append_left (by rwa [length_map]), getElem?_map, h]
    rfl
  exact (getElem?_zip_eq_some.1 hk).1

variable (log : List (LogEntry Error))

theorem sum_counted_eq_iff : BulkCounts.sum (log.map fun entry => entry.outcome.counted)
        = .sum (log.map fun entry => entry.outcome.committedCounts)
      ↔ ∀ entry ∈ log, entry.outcome.counted = entry.outcome.committedCounts := by
  have hle : ∀ log : List (LogEntry Error),
      BulkCounts.Le (.sum (log.map fun entry => entry.outcome.committedCounts))
        (.sum (log.map fun entry => entry.outcome.counted)) := by
    intro log
    induction log with
    | nil => exact .refl _
    | cons head log ih => exact head.outcome.committedCounts_le.add ih
  induction log with
  | nil => simp
  | cons head log ih =>
    rw [map_cons, map_cons, BulkCounts.sum_cons, BulkCounts.sum_cons, forall_mem_cons]
    constructor
    · intro h
      obtain ⟨hhead, hlog⟩ := (head.outcome.committedCounts_le.add_eq_iff (hle log)).1 h.symm
      exact ⟨hhead.symm, ih.1 hlog.symm⟩
    · intro h
      rw [h.1, ih.2 h.2]

/-- The operations of a command are executed in order and counted, and their
errors carry their positions in `ops`, exactly where no element that is left
out stands before an operation that fails, and no operation is counted whose
sub-transaction is then not released. A command that is refused executes
nothing. -/
theorem processBulkWrite_reportsByPosition_iff (isOrdered : Bool)
    (ops : List Value) (state : State) :
    BulkWriteReports execute releaseCurrentSubTransaction isOrdered ops state
      ↔ ∀ operations, bulkWriteOperations ops = .ok operations →
          ∀ entry ∈ (commandLog execute releaseCurrentSubTransaction
              isOrdered ops operations state).1,
            (entry.outcome.error?.isSome → ∀ e ∈ ops.take entry.position, IsOperation e)
            ∧ entry.outcome.counted = entry.outcome.committedCounts := by
  apply forall_congr'
  intro operations
  apply forall_congr'
  intro hbuild
  have hlength : (operationPositions ops 0).length = operations.length :=
    length_operationPositions (buildBulkOperationList_of_bulkWriteOperations hbuild)
  have hrun := @processOperations_eq _ _ execute releaseCurrentSubTransaction
    isOrdered ((operationPositions ops 0).zip operations) 0 state .empty
  rw [map_snd_zip (Nat.le_of_eq hlength.symm)] at hrun
  simp only [BulkWriteResult.empty, BulkCounts.zero_add, nil_append] at hrun
  have hreport (log : List (LogEntry Error)) := @Numbered.byNumber_eq_byPosition_iff _ _ _
    WriteError.mk LogEntry.position LogEntry.error? (fun _ _ _ h => congrArg WriteError.index h)
    log 0
  constructor
  · intro h entry hentry
    obtain ⟨bulkResult, hresult, hcounts, herrors⟩ := h.reports
    rw [processBulkWrite, BulkWriteResult.empty, hrun] at hresult
    cases hresult
    refine ⟨fun hfails => ?_, (sum_counted_eq_iff _).1 hcounts entry hentry⟩
    obtain ⟨k, hk⟩ := getElem?_of_mem hentry
    have hnumber := (hreport _).1 herrors k entry hk hfails
    exact (getElem_operationPositions (position_of_getElem_operationLog hk)).1 hnumber
  · intro h
    refine ⟨fun hunordered => ?_, fun hordered => ?_, _, hrun, ?_, ?_⟩
    · rw [hunordered]
      exact operationLog_unordered _ state
    · rw [hordered]
      exact operationLog_ordered _ state
    · apply (sum_counted_eq_iff _).2
      intro entry hentry
      exact (h entry hentry).2
    · apply (hreport _).2
      intro k entry hk hfails
      apply (getElem_operationPositions (position_of_getElem_operationLog hk)).2
      exact (h entry (mem_of_getElem? hk)).1 hfails

/-- `[null, {insertOne: null}]`: the operation at position 1 fails, and its
error is reported under the index 0. -/
theorem processBulkWrite_reports_number :
    ¬ @BulkWriteReports Unit Unit (fun _ _ => .error ()) (fun _ => .ok ()) true
        [.null, .document [([105, 110, 115, 101, 114, 116, 79, 110, 101], .null)]] () := by
  intro h
  obtain ⟨bulkResult, hresult, -, herrors⟩ := (h _ rfl).reports
  cases hresult
  cases herrors

end Run

end DocumentDb
