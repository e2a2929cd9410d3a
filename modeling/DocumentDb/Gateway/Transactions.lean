/-
Transactions in the gateway.

All connections share one store of transactions, by the id of a session, which the client
chooses. A request passes `transaction::handle`, which starts a transaction or finds the one
it continues. To execute statements its command looks for the session again
(`pull_connection`) and keeps the connection that it finds, or one of the pool, until it is
done.

A request is a thread with the stage that it has come to; what it does while it holds a lock
is one step. Other actors are the reaper of expired transactions and the tasks that roll
back those that were dropped. A run is a list of actions with the answers of PostgreSQL and
the pools, which may give a connection away again that nobody has.
-/
import DocumentDb.Gateway.Auth
import DocumentDb.Lib.Runs

namespace DocumentDb.Gateway

-- ==== the state

structure RequestTransactionInfo where
  transactionNumber : Int64
  autoCommit : Bool
  startTransaction : Bool

/-- A request as it comes to `process_request`: of an authenticated connection,
or of one of the types that are let through without. There is a transaction only
together with a session. -/
structure GatewayRequest where
  user : Option Str
  requestType : RequestType
  db : Option Str := none
  transactionInfo : Option (Bytes × RequestTransactionInfo) := none
  sessions : List Bytes := []
  letThrough : user = none → requestType.allowedUnauthorized = true

inductive TransactionState where
  | started | committed | aborted
  deriving DecidableEq

structure Transaction where
  transactionNumber : Int64
  connection : Nat
  deriving DecidableEq

/-- Who has the transaction that was started on a connection; without one it is of the
pool. -/
inductive Place where
  | request (thread : Nat)
  | store (session : Bytes)
  | task
  | pool
  deriving DecidableEq

/-- A connection to PostgreSQL: the user it was opened for, the transaction that
was started on it since the pool has given it away, and whether that is still open. A
request that has pulled it has it, and so have the cursors on it. -/
structure PgConnection where
  user : Str
  startedFor : Option (Bytes × Int64)
  isOpen : Bool
  place : Place
  holders : List Nat
  hasCursor : Bool
  deriving DecidableEq

/-- How far a request has come. -/
inductive Stage where
  | handle
  | readLastSeen (session : Bytes) (number : Int64)
  | removeOld (session : Bytes) (number : Int64)
  | start (session : Bytes) (number : Int64)
  | insertLastSeen (session : Bytes) (number : Int64) (connection : Nat)
  | insert (session : Bytes) (number : Int64) (connection : Nat)
  | run (transaction : Option (Bytes × Int64))
  | pulled (transaction : Option (Bytes × Int64)) (found : Option Transaction)
      (connection : Nat)
  | endSessions (rest : List Bytes)
  | abortFailed (session : Bytes) (error : DocumentDBError)
  | done (result : Except DocumentDBError Unit)

structure Thread where
  request : GatewayRequest
  stage : Stage

/-- A statement that was executed: by whom, inside which transaction it should
be, what was found in the store for it, and the connection as it was then. -/
structure Statement where
  thread : Nat
  user : Option Str
  transaction : Option (Bytes × Int64)
  throughPull : Bool
  found : Option Transaction
  connection : PgConnection

/-- The `TransactionStore`, with everything around it. -/
structure Store where
  transactions : Bytes → Option Transaction := fun _ => none
  lastSeenTransactions : Bytes → Option (Int64 × TransactionState) := fun _ => none
  connections : Nat → Option PgConnection := fun _ => none
  threads : Nat → Option Thread := fun _ => none
  cursors : List (Str × Nat) := []
  statements : List Statement := []

/-- What PostgreSQL and the pool answer: whether a call succeeds; if it does not,
whether the transaction is still open and whether the command is tried again; and
the connection that the pool gives. -/
structure PgAnswer where
  succeeds : Bool
  stillOpen : Bool := true
  retried : Bool := false
  connection : Nat := 0

-- ==== small changes

namespace Store

variable (g : Store) (i : Nat)

def setStage (request : GatewayRequest) (stage : Stage) : Store :=
  { g with threads := Function.update g.threads i (some ⟨request, stage⟩) }

def modifyConnection (c : Nat) (f : PgConnection → PgConnection) : Store :=
  { g with
    connections := Function.update g.connections c
      ((g.connections c).map f) }

def close (c : Nat) : Store :=
  g.modifyConnection c fun conn => { conn with isOpen := false, place := .pool }

/-- A transaction is dropped that was neither committed nor rolled back: a task
will do that. -/
def dropTransaction (c : Nat) (stillOpen : Bool) : Store :=
  g.modifyConnection c fun conn =>
    { conn with isOpen := conn.isOpen && stillOpen, place := .task }

/-- The transaction of a session is taken out of the map. -/
def remove (session : Bytes) : Store :=
  { g with transactions := Function.update g.transactions session none }

def openConnection (c : Nat) (conn : PgConnection) : Store :=
  { g with connections := Function.update g.connections c (some conn) }

/-- The pool of a user can give a connection away: a new one, or one that nobody has. -/
def canTake (user : Str) (c : Nat) : Bool :=
  (g.connections c).all fun conn =>
    decide (conn.user = user ∧ conn.place = .pool ∧ conn.isOpen = false ∧ conn.holders = []
      ∧ conn.hasCursor = false)

/-- A removed transaction is committed or rolled back, or dropped if that
fails. -/
def endTransaction (transaction : Transaction) (pg : PgAnswer) : Store :=
  if pg.succeeds then g.close transaction.connection
  else g.dropTransaction transaction.connection pg.stillOpen

-- ==== commit and abort

def setLastSeenState (session : Bytes) (state : TransactionState) : Store :=
  { g with
    lastSeenTransactions := Function.update g.lastSeenTransactions session
      ((g.lastSeenTransactions session).map fun seen => (seen.1, state)) }

/-- `TransactionStore::commit` and `TransactionStore::abort`: the transaction is
removed, ended, and noted as ended. -/
def complete (state : TransactionState) (missing : String) (g : Store)
    (session : Bytes) (pg : PgAnswer) : Except DocumentDBError Unit × Store :=
  match g.transactions session with
  | none => (.error (.documentDB .noSuchTransaction missing), g)
  | some transaction =>
    let g := (g.remove session).endTransaction transaction pg
    if pg.succeeds then (.ok (), g.setLastSeenState session state)
    else (.error .postgres, g)

def commit (session : Bytes) (pg : PgAnswer) : Except DocumentDBError Unit × Store :=
  complete .committed "No such transaction to commit" g session pg

def abort (session : Bytes) (pg : PgAnswer) : Except DocumentDBError Unit × Store :=
  complete .aborted "No such transaction to abort" g session pg

-- ==== handle

variable (request : GatewayRequest) (transaction : Option (Bytes × Int64))

/-- Where a request goes on that has passed `handle`. -/
def runStage : Stage :=
  if request.requestType = .endSessions then .endSessions request.sessions
  else .run transaction

def alreadySeen (number : Int64) : TransactionState → String
  | .committed => "Transaction " ++ toString number ++ " is already committed."
  | .aborted => "Transaction " ++ toString number ++ " is already aborted."
  | .started => "Transaction " ++ toString number ++ " is already started."

/-- `DocumentDBError` for a transaction that is not there. -/
def cannotContinue (number : Int64) : DocumentDBError :=
  .documentDB .noSuchTransaction ("Cannot continue transaction " ++ toString number)

/-- The first step of `TransactionStore::create`. `handle` resets the transaction
of the connection before, so that none is too old. -/
def createStage (session : Bytes) (info : RequestTransactionInfo) : Stage :=
  if info.startTransaction && !info.autoCommit then
    match g.lastSeenTransactions session with
    | some (number, state) =>
      if number = info.transactionNumber then
        .done (.error (.documentDB .conflictingOperationInProgress
          (alreadySeen info.transactionNumber state)))
      else .removeOld session info.transactionNumber
    | none => .removeOld session info.transactionNumber
  else
    match g.transactions session with
    | some transaction =>
      if transaction.transactionNumber ≠ info.transactionNumber then
        .done (.error (cannotContinue info.transactionNumber))
      else runStage request (some (session, info.transactionNumber))
    | none => .readLastSeen session info.transactionNumber

/-- The part of `transaction::handle` before `create`: the types and databases
that are refused in a transaction. -/
def refusal : Option DocumentDBError :=
  if request.requestType ∈ [.reIndex, .createIndex, .createIndexes, .dropIndexes] then
    some (.documentDB .operationNotSupportedInTransaction
      ("Cannot perform operation of type " ++ request.requestType.name ++ " inside a transaction"))
  else if request.requestType ∈ [.aggregate, .findAndModify, .update, .insert,
      .count, .distinct, .find, .getMore] then
    match request.db with
    | none => some .parseFailure
    | some db =>
      if db ∈ ["config".toList, "admin".toList, "local".toList] then
        some (.documentDB .operationNotSupportedInTransaction
          ("Cannot perform data operation against database "
            ++ String.ofList db ++ " inside a transaction"))
      else none
  else none

/-- The first step of `transaction::handle`. -/
def handleStage : Stage :=
  match request.transactionInfo with
  | none => runStage request none
  | some (session, info) =>
    if info.autoCommit then runStage request none
    else
      match refusal request with
      | some error => .done (.error error)
      | none => g.createStage request session info

/-- The end of `TransactionStore::create` where no transaction was found. To
commit one that is committed already is no error. -/
def readLastSeenStage (session : Bytes) (number : Int64) : Stage :=
  if g.lastSeenTransactions session = some (number, .committed) then
    if request.requestType = .commitTransaction then runStage request none
    else
      .done (.error (.documentDB .transactionCommitted
        ("Transaction " ++ toString number ++ " already committed")))
  else .done (.error (cannotContinue number))

variable (session : Bytes) (number : Int64)

/-- The step of `TransactionStore::create` that removes the transaction of the
session, before another one is started. -/
def removeOld (pg : PgAnswer) : Store :=
  match g.transactions session with
  | none => g.setStage i request (.start session number)
  | some old =>
    let g := g.remove session
    if old.transactionNumber = number then
      (g.dropTransaction old.connection true).setStage i request
        (.done (.error (.documentDB .conflictingOperationInProgress
          "This transaction is already started.")))
    else
      (g.endTransaction old pg).setStage i request
        (if pg.succeeds then .start session number else .done (.error .postgres))

/-- A connection of the pool of a user, and a transaction on it. -/
def startTransaction (pg : PgAnswer) : Option Store :=
  match request.user with
  | none => some (g.setStage i request (.done (.error (.internalError
      "Acquiring connection to postgres on unauthorized data client"))))
  | some user =>
    if pg.succeeds then
      if g.canTake user pg.connection then
        some ((g.openConnection pg.connection
            ⟨user, some (session, number), true, .request i, [], false⟩).setStage i request
          (.insertLastSeen session number pg.connection))
      else none
    else some (g.setStage i request (.done (.error .pool)))

/-- The transaction comes into the map. One that is there is dropped. -/
def insertTransaction (c : Nat) : Store :=
  let dropped := match g.transactions session with
    | none => g
    | some old => (g.remove session).dropTransaction old.connection true
  let moved := (dropped.setStage i request
      (runStage request (some (session, number)))).modifyConnection c
    fun conn => { conn with place := .store session }
  { moved with
    transactions := Function.update moved.transactions session
      (some ⟨number, c⟩) }

-- ==== the command

def usesDataClient : RequestType → Bool
  | .buildInfo | .connectionStatus | .getCmdLineOpts | .getDefaultRWConcern
  | .getLog | .hello | .hostInfo | .isDBGrid | .isMaster | .ping | .killCursors
  | .prepareTransaction | .commitTransaction | .abortTransaction | .listCommands
  | .endSessions | .whatsMyUri | .saslStart | .saslContinue | .logout => false
  | _ => true

/-- `process_commit` and `process_abort` on a transaction, with the retries of
`process_request`. -/
def completeCommand (pg : PgAnswer) : Except DocumentDBError Unit × Store → Store
  | (.error .postgres, g) =>
    g.setStage i request (if pg.retried then .run transaction else .done (.error .postgres))
  | (result, g) => g.setStage i request (.done result)

/-- The next step of a request up to its command, and the commands that have no
statements. -/
def advance (pg : PgAnswer) : Stage → Option Store
  | .handle => some (g.setStage i request (g.handleStage request))
  | .readLastSeen session number =>
    some (g.setStage i request (g.readLastSeenStage request session number))
  | .removeOld session number => some (g.removeOld i request session number pg)
  | .start session number => g.startTransaction i request session number pg
  | .insertLastSeen session number c =>
    some (Store.setStage
      { g with
        lastSeenTransactions := Function.update g.lastSeenTransactions session
          (some (number, .started)) } i request (.insert session number c))
  | .insert session number c =>
    some (g.insertTransaction i request session number c)
  | .run transaction =>
    match request.requestType, transaction with
    | .commitTransaction, none => some (g.setStage i request (.done (.ok ())))
    | .commitTransaction, some (session, _) =>
      some (completeCommand i request transaction pg (g.commit session pg))
    | .abortTransaction, none =>
      some (g.setStage i request (.done (.error (.internalError
        "Transaction information was not populated for abort."))))
    | .abortTransaction, some (session, _) =>
      some (completeCommand i request transaction pg (g.abort session pg))
    | _, _ => none
  | .pulled _ _ _ => none
  -- the errors of an abort are ignored
  | .endSessions [] => some (g.setStage i request (.done (.ok ())))
  | .endSessions (session :: rest) =>
    some ((g.abort session pg).2.setStage i request (.endSessions rest))
  | .abortFailed session error =>
    match g.abort session pg with
    | (.ok _, g) => some (g.setStage i request (.done (.error error)))
    | (.error error, g) => some (g.setStage i request (.done (.error error)))
  | .done _ => none

/-- The connection of the transaction of the session, or else one of the pool. -/
def pullConnection (pg : PgAnswer) : Option Store :=
  match transaction.bind fun t => g.transactions t.1 with
  | some found =>
    some ((g.modifyConnection found.connection fun conn =>
        { conn with holders := i :: conn.holders }).setStage i request
      (.pulled transaction (some found) found.connection))
  | none =>
    match request.user with
    | none => none
    | some user =>
      if g.canTake user pg.connection then
        some ((g.openConnection pg.connection
            ⟨user, none, false, .pool, [i], false⟩).setStage i request
          (.pulled transaction none pg.connection))
      else none

/-- A statement is executed. A query may leave a cursor, which keeps the connection. -/
def execute (throughPull : Bool)
    (found : Option Transaction) (c : Nat) (keepsCursor : Bool) : Option Store :=
  match g.connections c with
  | none => none
  | some conn =>
    let g := { g with
      statements := ⟨i, request.user, transaction, throughPull, found, conn⟩ :: g.statements }
    some (if keepsCursor then
      { g.modifyConnection c fun conn => { conn with hasCursor := true } with
        cursors := (request.user.map fun user => (user, c)).toList ++ g.cursors }
    else g)

/-- The command is done with the connection that it has pulled. -/
def release (c : Nat) : Store :=
  (g.modifyConnection c fun conn =>
    { conn with holders := conn.holders.erase i }).setStage i request (.run transaction)

/-- The cursors on a connection are closed, or expire. -/
def closeCursors (c : Nat) : Store :=
  { g.modifyConnection c fun conn => { conn with hasCursor := false } with
    cursors := g.cursors.filter fun cursor => cursor.2 ≠ c }

/-- The command returns. A `find` or an `aggregate` that fails in a transaction
aborts it, unless the time for retries is over. -/
def finishStage (timedOut : Bool) : Except DocumentDBError Unit → Stage
  | .ok _ => .done (.ok ())
  | .error error =>
    match transaction with
    | some (session, _) =>
      if request.requestType ∈ [.find, .aggregate] ∧ timedOut = false then
        .abortFailed session error
      else .done (.error error)
    | none => .done (.error error)

-- ==== actions

/-- The reaper takes expired transactions out of the store and drops them. -/
def reap (expired : Bytes → Bool) : Store :=
  { g with
    transactions := fun session =>
      if expired session then none else g.transactions session
    connections := fun c => (g.connections c).map fun conn =>
      match conn.place with
      | .store session =>
        if expired session ∧ (g.transactions session).map Transaction.connection = some c then
          { conn with place := .task }
        else conn
      | _ => conn }

end Store

/-- What may happen next. -/
inductive Action where
  | arrive (i : Nat) (request : GatewayRequest)
  | advance (i : Nat) (pg : PgAnswer)
  | pull (i : Nat) (pg : PgAnswer)
  | execute (i : Nat) (keepsCursor : Bool)
  | release (i : Nat)
  | getMore (i : Nat) (c : Nat)
  | finish (i : Nat) (result : Except DocumentDBError Unit) (timedOut : Bool)
  | closeCursors (c : Nat)
  | reap (expired : Bytes → Bool)
  | rollback (c : Nat)

def Action.thread : Action → Option Nat
  | .arrive i _ | .advance i _ | .pull i _ | .execute i _ | .release i | .getMore i _
  | .finish i _ _ => some i
  | .closeCursors _ | .reap _ | .rollback _ => none

namespace Store

def step : Action → Store → Option Store
  | .arrive i request, g =>
    if (g.threads i).isNone then some (g.setStage i request .handle) else none
  | .advance i pg, g =>
    match g.threads i with
    | some ⟨request, stage⟩ => g.advance i request pg stage
    | none => none
  | .pull i pg, g =>
    match g.threads i with
    | some ⟨request, .run transaction⟩ =>
      if usesDataClient request.requestType then
        g.pullConnection i request transaction pg
      else none
    | _ => none
  | .execute i keepsCursor, g =>
    match g.threads i with
    | some ⟨request, .pulled transaction found c⟩ =>
      g.execute i request transaction true found c keepsCursor
    | _ => none
  | .release i, g =>
    match g.threads i with
    | some ⟨request, .pulled transaction _ c⟩ => some (g.release i request transaction c)
    | _ => none
  | .getMore i c, g =>
    match g.threads i with
    | some ⟨request, .run transaction⟩ =>
      if request.requestType = .getMore
          ∧ ∃ cursor ∈ g.cursors, request.user = some cursor.1 ∧ cursor.2 = c
      then g.execute i request transaction false none c true
      else none
    | _ => none
  | .finish i result timedOut, g =>
    match g.threads i with
    | some ⟨request, .run transaction⟩ =>
      if request.requestType = .commitTransaction
          ∨ request.requestType = .abortTransaction then none
      else
        some (g.setStage i request (finishStage request transaction timedOut result))
    | _ => none
  | .closeCursors c, g => some (g.closeCursors c)
  | .reap expired, g => some (g.reap expired)
  | .rollback c, g =>
    match g.connections c with
    | some conn => if conn.place = .task then some (g.close c) else none
    | none => none

end Store

-- ==== what an action does

namespace Store

variable {g g' : Store} {i c : Nat}

theorem setStage_threads_self (g : Store) (i : Nat) (request : GatewayRequest) (stage : Stage) :
    (g.setStage i request stage).threads i = some ⟨request, stage⟩ :=
  Function.update_self _ _ _

variable {request : GatewayRequest}

theorem step_advance {stage : Stage}
    (hthread : g.threads i = some ⟨request, stage⟩) (pg : PgAnswer) :
    step (.advance i pg) g = g.advance i request pg stage := by
  show (match g.threads i with
    | some ⟨request, stage⟩ => g.advance i request pg stage
    | none => none) = _
  rw [hthread]

theorem of_step_arrive (hstep : step (.arrive i request) g = some g') :
    g.threads i = none ∧ g' = g.setStage i request .handle := by
  unfold step at hstep
  dsimp only at hstep
  split at hstep
  · rename_i hnone
    exact ⟨Option.isNone_iff_eq_none.1 hnone, (Option.some.inj hstep).symm⟩
  · cases hstep

theorem of_step_advance {pg : PgAnswer} (hstep : step (.advance i pg) g = some g') :
    ∃ request stage, g.threads i = some ⟨request, stage⟩
      ∧ g.advance i request pg stage = some g' := by
  unfold step at hstep
  dsimp only at hstep
  split at hstep
  · exact ⟨_, _, ‹_›, hstep⟩
  · cases hstep

theorem of_step_pull {pg : PgAnswer} (hstep : step (.pull i pg) g = some g') :
    ∃ request txn, g.threads i = some ⟨request, .run txn⟩ ∧ usesDataClient request.requestType
      ∧ g.pullConnection i request txn pg = some g' := by
  unfold step at hstep
  dsimp only at hstep
  split at hstep
  · split at hstep
    · exact ⟨_, _, ‹_›, ‹_›, hstep⟩
    · cases hstep
  · cases hstep

theorem of_step_execute {keepsCursor : Bool} (hstep : step (.execute i keepsCursor) g = some g') :
    ∃ request txn found c, g.threads i = some ⟨request, .pulled txn found c⟩
      ∧ g.execute i request txn true found c keepsCursor = some g' := by
  unfold step at hstep
  dsimp only at hstep
  split at hstep
  · exact ⟨_, _, _, _, ‹_›, hstep⟩
  · cases hstep

theorem of_step_release (hstep : step (.release i) g = some g') :
    ∃ request txn found c, g.threads i = some ⟨request, .pulled txn found c⟩
      ∧ g' = g.release i request txn c := by
  unfold step at hstep
  dsimp only at hstep
  split at hstep
  · exact ⟨_, _, _, _, ‹_›, (Option.some.inj hstep).symm⟩
  · cases hstep

theorem of_step_getMore (hstep : step (.getMore i c) g = some g') :
    ∃ request txn user, g.threads i = some ⟨request, .run txn⟩
      ∧ request.user = some user ∧ (user, c) ∈ g.cursors
      ∧ g.execute i request txn false none c true = some g' := by
  unfold step at hstep
  dsimp only at hstep
  split at hstep
  · split at hstep
    · rename_i hcursor
      obtain ⟨-, ⟨user, c'⟩, hmem, huser, rfl⟩ := hcursor
      exact ⟨_, _, user, ‹_›, huser, hmem, hstep⟩
    · cases hstep
  · cases hstep

theorem of_step_finish {result : Except DocumentDBError Unit} {timedOut : Bool}
    (hstep : step (.finish i result timedOut) g = some g') :
    ∃ request txn, g.threads i = some ⟨request, .run txn⟩
      ∧ g' = g.setStage i request (finishStage request txn timedOut result) := by
  unfold step at hstep
  dsimp only at hstep
  split at hstep
  · split at hstep
    · cases hstep
    · exact ⟨_, _, ‹_›, (Option.some.inj hstep).symm⟩
  · cases hstep

theorem of_step_rollback (hstep : step (.rollback c) g = some g') :
    ∃ conn, g.connections c = some conn ∧ conn.place = .task ∧ g' = g.close c := by
  unfold step at hstep
  dsimp only at hstep
  split at hstep
  · split at hstep
    · exact ⟨_, ‹_›, ‹_›, (Option.some.inj hstep).symm⟩
    · cases hstep
  · cases hstep

end Store

end DocumentDb.Gateway
