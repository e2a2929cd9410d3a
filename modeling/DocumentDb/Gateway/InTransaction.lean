/-
Does a command of a transaction stay inside of it?

`transaction::handle` looks once whether the session has the transaction of the command. The
command looks again when it pulls a connection, by the session alone, and takes one of the
pool where it finds nothing. Until the last statement the reaper or another request may end
the transaction. So a command stays inside if nobody else ends or replaces its transaction
(`staysInside_of_leftAlone`): then each stage is about the transaction of its request, which
the store has (`Follows`, `Stage.For`) and which is open there (`Valid`).
-/
import DocumentDb.Gateway.Isolation

namespace DocumentDb.Gateway

open List Option

-- ==== the expectation

/-- The transaction that a request belongs to: its session and its number. -/
def GatewayRequest.inside (request : GatewayRequest) : Option (Bytes × Int64) :=
  request.transactionInfo.bind fun t =>
    if t.2.autoCommit then none else some (t.1, t.2.transactionNumber)

/-- In a run, the statements that a command executes through `pull_connection` are
executed inside its transaction while that is open, if the command returns without
an error. -/
def StaysInside (actions : List Action) : Prop :=
  ∀ g i request transaction, Runs.run Store.step actions {} = some g →
    g.threads i = some ⟨request, .done (.ok ())⟩ →
    request.inside = some transaction →
    ∀ statement ∈ g.statements, statement.thread = i → statement.throughPull = true →
      statement.connection.startedFor = some transaction ∧ statement.connection.isOpen = true

/-- The transaction of a command that has passed `handle` and has not returned. -/
def Stage.transaction : Stage → Option (Bytes × Int64)
  | .run transaction | .pulled transaction _ _ => transaction
  | _ => none

/-- The session whose transaction a request is about to end or to replace. Of the
commands that run, only `commitTransaction` and `abortTransaction` go on. -/
def Stage.ends : Stage → Option Bytes
  | .removeOld session _ | .insert session _ _ | .abortFailed session _ => some session
  | .run transaction => transaction.map Prod.fst
  | .endSessions rest => rest.head?
  | _ => none

/-- An action may end or replace the transaction of a session. -/
def Action.MayEnd (session : Bytes) (g : Store) : Action → Prop
  | .advance i _ => ∃ thread, g.threads i = some thread ∧ thread.stage.ends = some session
  | .reap expired => expired session = true
  | _ => False

/-- An action leaves the commands alone that run inside transactions: it does not end
or replace the transaction of a command, unless it is a step of this command. -/
def Action.LeavesAlone (action : Action) (g : Store) : Prop :=
  ∀ i thread transaction, g.threads i = some thread →
    Store.usesDataClient thread.request.requestType = true →
    thread.stage.transaction = some transaction → action.thread ≠ some i →
    ¬ action.MayEnd transaction.1 g

-- ==== what an action leaves in the store

namespace Store

variable {g g' : Store} {i : Nat} {request : GatewayRequest} {session : Bytes} {pg : PgAnswer}

/-- Commit and abort take out no other entry. -/
theorem complete_transactions {session' : Bytes} (hne : session ≠ session')
    (state : TransactionState) (missing : String) (pg : PgAnswer) :
    (complete state missing g session' pg).2.transactions session = g.transactions session := by
  rcases complete_effect state missing g session' pg with hsame | ⟨hat, -⟩
  · rw [hsame.transactions]
  · exact hat.transactions session hne

/-- A request that goes on leaves every entry but the one it is about to end. -/
theorem advance_transactions {stage : Stage} (hstep : g.advance i request pg stage = some g')
    (hends : stage.ends ≠ some session) : g'.transactions session = g.transactions session := by
  have hne : ∀ {session'}, stage.ends = some session' → session ≠ session' := by
    rintro session' hends' rfl
    exact hends hends'
  cases stage with
  | handle | readLastSeen _ _ | insertLastSeen _ _ _ =>
    cases hstep
    rfl
  | removeOld session' number =>
    cases hstep
    rcases removeOld_effect g i request session' number pg with hsame | ⟨_, hmem, hat, -⟩
    · rw [hsame.transactions]
    · obtain rfl := mem_singleton.1 hmem
      exact hat.transactions session (hne rfl)
  | start session' number => rw [(startTransaction_unchanged hstep).transactions]
  | insert session' number c =>
    cases hstep
    exact (insertTransaction_changedAt g i request session' number c).transactions session (hne rfl)
  | run txn =>
    rcases advanceRun_effect hstep with hsame | ⟨session', hmem, hat, -⟩
    · rw [hsame.transactions]
    · exact hat.transactions session (hne (mem_toList.1 hmem))
  | pulled txn found c | done result => cases hstep
  | endSessions rest =>
    cases rest with
    | nil =>
      cases hstep
      rfl
    | cons session' rest =>
      cases hstep
      exact complete_transactions (hne rfl) _ _ pg
  | abortFailed session' error =>
    have hkept : (g.abort session' pg).2.transactions session = g.transactions session :=
      complete_transactions (hne rfl) _ _ pg
    unfold advance at hstep
    dsimp only at hstep
    split at hstep
    all_goals
      rename_i heq
      rw [heq] at hkept
      cases hstep
      exact hkept

/-- Every action leaves the entries that it may not end. -/
theorem step_transactions {action : Action} (hstep : step action g = some g')
    (hends : ¬ action.MayEnd session g) : g'.transactions session = g.transactions session := by
  cases action with
  | arrive j request =>
    obtain ⟨-, rfl⟩ := of_step_arrive hstep
    rfl
  | advance j pg =>
    obtain ⟨request, stage, hthread, hadvance⟩ := of_step_advance hstep
    exact advance_transactions hadvance fun heq => hends ⟨_, hthread, heq⟩
  | pull j pg =>
    obtain ⟨request, txn, -, -, hpull⟩ := of_step_pull hstep
    rw [(pullConnection_unchanged hpull).transactions]
  | execute j keepsCursor =>
    obtain ⟨request, txn, found, c, -, hexecute⟩ := of_step_execute hstep
    rw [(execute_unchanged hexecute).transactions]
  | release j =>
    obtain ⟨request, txn, found, c, -, rfl⟩ := of_step_release hstep
    rfl
  | getMore j c =>
    obtain ⟨request, txn, user, -, -, -, hexecute⟩ := of_step_getMore hstep
    rw [(execute_unchanged hexecute).transactions]
  | finish j result timedOut =>
    obtain ⟨request, txn, -, rfl⟩ := of_step_finish hstep
    rfl
  | closeCursors c =>
    cases hstep
    rfl
  | reap expired =>
    cases hstep
    exact if_neg hends
  | rollback c =>
    obtain ⟨conn, -, -, rfl⟩ := of_step_rollback hstep
    rfl

end Store

-- ==== the stages of a request

/-- What a stage has of its request: it is about its transaction and, if the commands
are left alone, the store has this transaction while the command runs. -/
def Stage.For (alone : Prop) (entry : Bytes → Option Transaction) (request : GatewayRequest) :
    Stage → Prop
  | .readLastSeen session number | .removeOld session number
  | .start session number | .insertLastSeen session number _
  | .insert session number _ => request.inside = some (session, number)
  -- to commit what is committed already, a request goes on without a transaction
  | .run transaction => Store.usesDataClient request.requestType = true →
    transaction = request.inside
      ∧ (alone → ∀ t, transaction = some t → ∃ c, entry t.1 = some ⟨t.2, c⟩)
  | .pulled transaction found c => Store.usesDataClient request.requestType = true
      ∧ transaction = request.inside
      ∧ (alone → ∀ t, transaction = some t → found = some ⟨t.2, c⟩ ∧ entry t.1 = some ⟨t.2, c⟩)
  | _ => True

/-- The invariant: every stage is one for its request, and every statement was
executed for the transaction of its request; inside of it, if the commands are left
alone. -/
structure Store.Follows (alone : Prop) (g : Store) : Prop where
  stage : ∀ {i thread}, g.threads i = some thread →
    thread.stage.For alone g.transactions thread.request
  statement : ∀ statement ∈ g.statements, statement.throughPull = true →
    ∃ thread, g.threads statement.thread = some thread
      ∧ statement.transaction = thread.request.inside
      ∧ (alone → ∀ t, statement.transaction = some t →
        statement.connection.startedFor = some t ∧ statement.connection.isOpen = true)

section Stages

variable {alone : Prop} {entry entry' : Bytes → Option Transaction} {request : GatewayRequest}
  {g g' : Store} {i : Nat} {txn : Option (Bytes × Int64)} {session : Bytes} {number : Int64}
  {pg : PgAnswer}

/-- A stage is still one for its request if the entry of its transaction stays. -/
theorem Stage.For.keep {stage : Stage} (h : stage.For alone entry request)
    (hkeep : alone → Store.usesDataClient request.requestType = true → ∀ t,
      stage.transaction = some t → entry' t.1 = entry t.1) : stage.For alone entry' request := by
  cases stage with
  | run txn =>
    intro huse
    refine ⟨(h huse).1, fun halone t ht => ?_⟩
    rw [hkeep halone huse t ht]
    exact (h huse).2 halone t ht
  | pulled txn found c =>
    refine ⟨h.1, h.2.1, fun halone t ht => ?_⟩
    rw [hkeep halone h.1 t ht]
    exact h.2.2 halone t ht
  | handle | done _ | endSessions _ | abortFailed _ _ => trivial
  | readLastSeen _ _ | removeOld _ _ | start _ _ | insertLastSeen _ _ _ | insert _ _ _ => exact h

namespace Store

/-- A request goes on from `handle` with the transaction that it was found to be in. -/
theorem runStage_for (h : txn = request.inside)
    (hentry : ∀ t, txn = some t → ∃ c, entry t.1 = some ⟨t.2, c⟩) :
    (runStage request txn).For alone entry request := by
  unfold runStage
  split
  · trivial
  · exact fun _ => ⟨h, fun _ => hentry⟩

/-- The first step of `create` finds the transaction, or goes on to start one or to
look why there is none. -/
theorem createStage_for (g : Store) {info : RequestTransactionInfo}
    (hinside : request.inside = some (session, info.transactionNumber)) :
    (g.createStage request session info).For alone g.transactions request := by
  unfold createStage
  split
  · split
    · split
      · trivial
      · exact hinside
    · exact hinside
  · split
    · rename_i transaction hfound
      split
      · trivial
      · rename_i hnumber
        refine runStage_for hinside.symm fun t ht => ⟨transaction.connection, ?_⟩
        cases ht
        rw [hfound, ← not_not.1 hnumber]
    · exact hinside

theorem handleStage_for (g : Store) (request : GatewayRequest) :
    (g.handleStage request).For alone g.transactions request := by
  unfold handleStage
  cases hinfo : request.transactionInfo with
  | none =>
    refine runStage_for ?_ nofun
    rw [GatewayRequest.inside, hinfo]
    rfl
  | some transactionInfo =>
    obtain ⟨session, info⟩ := transactionInfo
    dsimp only
    by_cases hauto : info.autoCommit
    · rw [if_pos hauto]
      refine runStage_for ?_ nofun
      rw [GatewayRequest.inside, hinfo, bind_some, if_pos hauto]
    · rw [if_neg hauto]
      cases refusal request with
      | some error => trivial
      | none =>
        refine createStage_for g ?_
        rw [GatewayRequest.inside, hinfo, bind_some, if_neg hauto]

/-- Only `commitTransaction` goes on where there is no transaction. -/
theorem readLastSeenStage_for (g : Store) (request : GatewayRequest)
    (session : Bytes) (number : Int64) :
    (g.readLastSeenStage request session number).For alone entry request := by
  unfold readLastSeenStage
  split
  · split
    · rename_i hcommit
      unfold runStage
      split
      · trivial
      · intro huses
        rw [hcommit] at huses
        cases huses
    · trivial
  · trivial

theorem finishStage_for (request : GatewayRequest) (txn : Option (Bytes × Int64))
    (timedOut : Bool) (result : Except DocumentDBError Unit) :
    (finishStage request txn timedOut result).For alone entry request := by
  cases result with
  | ok _ => trivial
  | error error =>
    cases txn with
    | none => trivial
    | some t =>
      show (if _ then Stage.abortFailed t.1 error
        else .done (.error error)).For alone entry request
      split
      · trivial
      · trivial

-- ==== a step of a request

/-- A request comes to a stage that is one for it; the other requests stay where they
are, and no statement is executed. -/
def Moves (alone : Prop) (g g' : Store) (i : Nat) (request : GatewayRequest) : Prop :=
  g'.statements = g.statements ∧ ∃ next : Stage, next.For alone g'.transactions request
    ∧ g'.threads = Function.update g.threads i (some ⟨request, next⟩)

/-- Threads and statements are as before. -/
structure Beside (g g' : Store) : Prop where
  threads : g'.threads = g.threads
  statements : g'.statements = g.statements

theorem Beside.setStage {next : Stage} (h : g.Beside g')
    (hfor : next.For alone g'.transactions request) :
    g.Moves alone (g'.setStage i request next) i request := by
  refine ⟨h.statements, next, hfor, ?_⟩
  rw [← h.threads]
  rfl

theorem Beside.refl (g : Store) : g.Beside g := ⟨rfl, rfl⟩

theorem endTransaction_beside (g : Store) (session : Bytes) (txn : Transaction) (pg : PgAnswer) :
    g.Beside ((g.remove session).endTransaction txn pg) := by
  unfold endTransaction
  split
  · exact ⟨rfl, rfl⟩
  · exact ⟨rfl, rfl⟩

theorem complete_beside (state : TransactionState) (missing : String)
    (g : Store) (session : Bytes) (pg : PgAnswer) :
    g.Beside (complete state missing g session pg).2 := by
  unfold complete
  cases g.transactions session with
  | none => exact .refl g
  | some txn =>
    have hended := endTransaction_beside g session txn pg
    dsimp only
    split
    · exact ⟨hended.threads, hended.statements⟩
    · exact hended

/-- A commit or an abort returns, or is tried again. -/
theorem completeCommand_moves (h : g.Beside g')
    (huses : usesDataClient request.requestType = false) (pg : PgAnswer)
    (result : Except DocumentDBError Unit) :
    g.Moves alone (completeCommand i request txn pg (result, g')) i request := by
  unfold completeCommand
  split
  · rename_i heq
    cases heq
    split
    · refine h.setStage fun huses' => ?_
      rw [huses] at huses'
      cases huses'
    · exact h.setStage trivial
  · rename_i heq
    cases heq
    exact h.setStage trivial

theorem removeOld_moves (hinside : request.inside = some (session, number)) (pg : PgAnswer) :
    g.Moves alone (g.removeOld i request session number pg) i request := by
  unfold removeOld
  cases g.transactions session with
  | none => exact (Beside.refl g).setStage hinside
  | some old =>
    dsimp only
    split
    · have hdropped : g.Beside ((g.remove session).dropTransaction old.connection true) :=
        ⟨rfl, rfl⟩
      exact hdropped.setStage trivial
    · have hended := endTransaction_beside g session old pg
      split
      · exact hended.setStage hinside
      · exact hended.setStage trivial

theorem startTransaction_moves (hinside : request.inside = some (session, number))
    (hstep : g.startTransaction i request session number pg = some g') :
    g.Moves alone g' i request := by
  unfold startTransaction at hstep
  split at hstep
  · cases hstep
    exact (Beside.refl g).setStage trivial
  · split at hstep
    · split at hstep
      · cases hstep
        exact ⟨rfl, .insertLastSeen session number pg.connection, hinside, rfl⟩
      · cases hstep
    · cases hstep
      exact (Beside.refl g).setStage trivial

/-- The command starts with its transaction in the store. -/
theorem insertTransaction_moves (hinside : request.inside = some (session, number)) (c : Nat) :
    g.Moves alone (g.insertTransaction i request session number c) i request := by
  refine ⟨?_, runStage request (some (session, number)), ?_, ?_⟩
  · unfold insertTransaction
    cases g.transactions session with
    | none | some old => rfl
  · refine runStage_for hinside.symm fun t ht => ⟨c, ?_⟩
    cases ht
    exact Function.update_self _ _ _
  · unfold insertTransaction
    cases g.transactions session with
    | none | some old => rfl

/-- A request that goes on comes to a stage that is one for it. -/
theorem advance_moves {stage : Stage} (hfor : stage.For alone g.transactions request)
    (hstep : g.advance i request pg stage = some g') : g.Moves alone g' i request := by
  cases stage with
  | handle =>
    cases hstep
    exact (Beside.refl g).setStage (handleStage_for g request)
  | readLastSeen session number =>
    cases hstep
    exact (Beside.refl g).setStage (readLastSeenStage_for g request session number)
  | removeOld session number =>
    cases hstep
    exact removeOld_moves hfor pg
  | start session number => exact startTransaction_moves hfor hstep
  | insertLastSeen session number c =>
    cases hstep
    exact ⟨rfl, .insert session number c, hfor, rfl⟩
  | insert session number c =>
    cases hstep
    exact insertTransaction_moves hfor c
  | run txn =>
    unfold advance at hstep
    dsimp only at hstep
    split at hstep
    case h_1 | h_3 =>
      cases hstep
      exact (Beside.refl g).setStage trivial
    case h_2 htype | h_4 htype =>
      cases hstep
      refine completeCommand_moves (complete_beside _ _ g _ pg) ?_ pg _
      rw [htype]
      rfl
    case h_5 => cases hstep
  | pulled txn found c | done result => cases hstep
  | endSessions rest =>
    cases rest with
    | nil =>
      cases hstep
      exact (Beside.refl g).setStage trivial
    | cons session rest =>
      cases hstep
      exact (complete_beside _ _ g session pg).setStage trivial
  | abortFailed session error =>
    have hbeside : g.Beside (g.abort session pg).2 := complete_beside _ _ g session pg
    unfold advance at hstep
    dsimp only at hstep
    split at hstep
    all_goals
      rename_i heq
      rw [heq] at hbeside
      cases hstep
      exact hbeside.setStage trivial

/-- A command that is left alone pulls the connection of its transaction. -/
theorem pullConnection_moves (huses : usesDataClient request.requestType = true)
    (hfor : (Stage.run txn).For alone g.transactions request)
    (hstep : g.pullConnection i request txn pg = some g') : g.Moves alone g' i request := by
  obtain ⟨hinside, hentry⟩ := hfor huses
  unfold pullConnection at hstep
  split at hstep
  · rename_i found hfound
    cases hstep
    refine ⟨rfl, .pulled txn (some found) found.connection,
      ⟨huses, hinside, fun halone t ht => ?_⟩, rfl⟩
    obtain ⟨c, hc⟩ := hentry halone t ht
    subst ht
    obtain rfl : ⟨t.2, c⟩ = found := some.inj (hc.symm.trans hfound)
    exact ⟨rfl, hc⟩
  · rename_i hfound
    split at hstep
    · cases hstep
    · split at hstep
      · cases hstep
        refine ⟨rfl, .pulled txn none pg.connection,
          ⟨huses, hinside, fun halone t ht => ?_⟩, rfl⟩
        obtain ⟨c, hc⟩ := hentry halone t ht
        subst ht
        cases hc.symm.trans hfound
      · cases hstep

/-- A statement is executed, and the request stays where it is. -/
theorem execute_adds {throughPull keepsCursor : Bool} {found : Option Transaction} {c : Nat}
    (hstep : g.execute i request txn throughPull found c keepsCursor = some g') :
    g'.threads = g.threads ∧ ∃ conn, g.connections c = some conn
      ∧ g'.statements = ⟨i, request.user, txn, throughPull, found, conn⟩ :: g.statements := by
  unfold execute at hstep
  split at hstep
  · cases hstep
  · rename_i conn hconn
    cases keepsCursor with
    | false | true =>
      cases hstep
      exact ⟨rfl, conn, hconn, rfl⟩

end Store

end Stages

-- ==== the invariant

namespace Store

variable {alone : Prop} {g g' : Store} {action : Action}

/-- The entries that the requests rely on stay, but for the request that acts. -/
def Keeps (alone : Prop) (g g' : Store) (who : Option Nat) : Prop :=
  alone → ∀ i thread t, g.threads i = some thread →
    usesDataClient thread.request.requestType = true → thread.stage.transaction = some t →
    who ≠ some i → g'.transactions t.1 = g.transactions t.1

/-- The request that acts comes to another stage. -/
theorem Follows.moves {i : Nat} {request : GatewayRequest} (h : g.Follows alone)
    (hold : ∀ {thread}, g.threads i = some thread → thread.request = request)
    (hmoves : g.Moves alone g' i request) (hkeep : g.Keeps alone g' (some i)) :
    g'.Follows alone := by
  obtain ⟨hstatements, next, hnext, hthreads⟩ := hmoves
  constructor
  · intro j thread hthread
    rw [hthreads] at hthread
    by_cases hj : j = i
    · subst hj
      rw [Function.update_self] at hthread
      cases hthread
      exact hnext
    · rw [Function.update_of_ne hj] at hthread
      refine (h.stage hthread).keep fun halone huses t ht => ?_
      exact hkeep halone j thread t hthread huses ht fun heq => hj (some.inj heq).symm
  · intro statement hmem hpull
    rw [hstatements] at hmem
    obtain ⟨thread, hthread, hinside⟩ := h.statement statement hmem hpull
    rw [hthreads]
    by_cases hj : statement.thread = i
    · rw [hj] at hthread ⊢
      rw [hold hthread] at hinside
      exact ⟨_, Function.update_self _ _ _, hinside⟩
    · exact ⟨thread, (Function.update_of_ne hj _ _).trans hthread, hinside⟩

/-- Somebody else acts. -/
theorem Follows.beside (h : g.Follows alone) (hbeside : g.Beside g')
    (hkeep : g.Keeps alone g' none) : g'.Follows alone := by
  constructor
  · intro j thread hthread
    rw [hbeside.threads] at hthread
    refine (h.stage hthread).keep fun halone huses t ht => ?_
    exact hkeep halone j thread t hthread huses ht (some_ne_none j).symm
  · rw [hbeside.statements, hbeside.threads]
    exact h.statement

/-- A statement is executed, of which the invariant holds. -/
theorem Follows.execute {statement : Statement} (h : g.Follows alone)
    (hthreads : g'.threads = g.threads) (htransactions : g'.transactions = g.transactions)
    (hstatements : g'.statements = statement :: g.statements)
    (hnew : statement.throughPull = true → ∃ thread, g.threads statement.thread = some thread
      ∧ statement.transaction = thread.request.inside
      ∧ (alone → ∀ t, statement.transaction = some t →
        statement.connection.startedFor = some t ∧ statement.connection.isOpen = true)) :
    g'.Follows alone := by
  constructor
  · rw [hthreads, htransactions]
    exact h.stage
  · rw [hthreads, hstatements]
    intro statement' hmem
    rcases mem_cons.1 hmem with rfl | hmem
    · exact hnew
    · exact h.statement statement' hmem

/-- The connection of an entry of the store has its transaction, and that is open. -/
theorem startedFor_of_entry {uses : Option Str → Bytes → Prop} (hvalid : Valid uses g)
    {t : Bytes × Int64} {c : Nat} {conn : PgConnection}
    (hentry : g.transactions t.1 = some ⟨t.2, c⟩) (hconn : g.connections c = some conn) :
    conn.startedFor = some t ∧ conn.isOpen = true := by
  obtain ⟨conn', hconn', howned, -⟩ := hvalid.store hentry
  cases hconn.symm.trans hconn'
  exact ⟨howned.startedFor, howned.isOpen⟩

/-- Every step keeps the invariant. -/
theorem Follows.step {uses : Option Str → Bytes → Prop} (h : g.Follows alone)
    (hvalid : Valid uses g) (halone : alone → action.LeavesAlone g)
    (hstep : Store.step action g = some g') : g'.Follows alone := by
  have hkeep : g.Keeps alone g' action.thread := by
    intro ha i thread t hthread huses ht hne
    exact step_transactions hstep (halone ha i thread t hthread huses ht hne)
  cases action with
  | arrive i request =>
    obtain ⟨hnone, rfl⟩ := of_step_arrive hstep
    refine h.moves (fun hthread => ?_) ((Beside.refl g).setStage trivial) hkeep
    rw [hnone] at hthread
    cases hthread
  | advance i pg =>
    obtain ⟨request, stage, hthread, hadvance⟩ := of_step_advance hstep
    refine h.moves (fun hthread' => ?_) (advance_moves (h.stage hthread) hadvance) hkeep
    cases hthread.symm.trans hthread'
    rfl
  | pull i pg =>
    obtain ⟨request, txn, hthread, huses, hpull⟩ := of_step_pull hstep
    refine h.moves (fun hthread' => ?_) (pullConnection_moves huses (h.stage hthread) hpull) hkeep
    cases hthread.symm.trans hthread'
    rfl
  | execute i keepsCursor =>
    obtain ⟨request, txn, found, c, hthread, hexecute⟩ := of_step_execute hstep
    obtain ⟨hthreads, conn, hconn, hstatements⟩ := execute_adds hexecute
    obtain ⟨-, hinside, hentry⟩ := h.stage hthread
    refine h.execute hthreads (execute_unchanged hexecute).transactions hstatements fun _ => ?_
    refine ⟨_, hthread, hinside, fun ha t ht => ?_⟩
    exact startedFor_of_entry hvalid (hentry ha t ht).2 hconn
  | release i =>
    obtain ⟨request, txn, found, c, hthread, rfl⟩ := of_step_release hstep
    obtain ⟨-, hinside, hentry⟩ := h.stage hthread
    refine h.moves (fun hthread' => ?_) ⟨rfl, .run txn, fun _ => ⟨hinside, ?_⟩, rfl⟩ hkeep
    · cases hthread.symm.trans hthread'
      rfl
    · exact fun ha t ht => ⟨c, (hentry ha t ht).2⟩
  | getMore i c =>
    obtain ⟨request, txn, user, hthread, -, -, hexecute⟩ := of_step_getMore hstep
    obtain ⟨hthreads, conn, hconn, hstatements⟩ := execute_adds hexecute
    exact h.execute hthreads (execute_unchanged hexecute).transactions hstatements nofun
  | finish i result timedOut =>
    obtain ⟨request, txn, hthread, rfl⟩ := of_step_finish hstep
    refine h.moves (fun hthread' => ?_)
      ((Beside.refl g).setStage (finishStage_for request txn timedOut result)) hkeep
    cases hthread.symm.trans hthread'
    rfl
  | closeCursors c =>
    cases hstep
    exact h.beside ⟨rfl, rfl⟩ hkeep
  | reap expired =>
    cases hstep
    exact h.beside ⟨rfl, rfl⟩ hkeep
  | rollback c =>
    obtain ⟨conn, -, -, rfl⟩ := of_step_rollback hstep
    exact h.beside ⟨rfl, rfl⟩ hkeep

theorem Follows.initial : Follows alone {} := ⟨nofun, nofun⟩

end Store

-- ==== whole runs

section WholeRuns

variable {actions : List Action} {g : Store}

/-- Both invariants, where nothing is asked of the sessions. -/
def Store.Sound (alone : Prop) (g : Store) : Prop := Valid (fun _ _ => True) g ∧ g.Follows alone

theorem Store.Sound.step {alone : Prop} {action : Action} (h : g.Sound alone)
    (halone : alone → action.LeavesAlone g) (hstep : Store.step action g = some g') :
    g'.Sound alone :=
  ⟨h.1.step (fun _ _ _ _ _ => trivial) hstep, h.2.step h.1 halone hstep⟩

theorem Store.Sound.initial {alone : Prop} : Store.Sound alone {} := ⟨.initial, .initial⟩

/-- In every run in which the commands are left alone that run inside transactions, a
command that returns without an error has stayed inside its transaction. -/
theorem staysInside_of_leftAlone
    (halone : Runs.Allowed Store.step Action.LeavesAlone actions {}) : StaysInside actions := by
  intro g i request transaction hrun hthread hinside statement hmem hstatement hpull
  have hend : g.Sound True :=
    halone.invariant (fun hleaves h hstep => Store.Sound.step h (fun _ => hleaves) hstep) hrun
      .initial
  obtain ⟨thread, hthread', hfor, hstarted⟩ := hend.2.statement statement hmem hpull
  rw [hstatement] at hthread'
  cases hthread.symm.trans hthread'
  exact hstarted trivial transaction (hfor.trans hinside)

end WholeRuns

-- ==== an insert in a transaction

/-- An `insert` that continues transaction 1 of a session. -/
def insertRequest (session : Bytes) : GatewayRequest where
  user := some "alice".toList
  requestType := .insert
  db := some "shop".toList
  transactionInfo := some (session, ⟨1, false, false⟩)
  letThrough := nofun

/-- A user starts a transaction in session 1 and continues it with an `insert`, which
executes three statements on the connection that it pulls. The reaper takes
transactions out of the store after the `insert` has passed `handle`. -/
def insertBesideReaper (expired : Bytes → Bool) : List Action :=
  starts "alice".toList [1]
    ++ [.arrive 1 (insertRequest [1]), .advance 1 ⟨true, true, false, 0⟩,
      .reap expired, .pull 1 ⟨true, true, false, 7⟩, .execute 1 false, .execute 1 false,
      .execute 1 false, .release 1, .finish 1 (.ok ()) false]

/-- The reaper that takes another session leaves the `insert` alone. -/
theorem insert_stays_inside :
    Runs.Allowed Store.step Action.LeavesAlone (insertBesideReaper (· = [2])) {}
    ∧ (Runs.run Store.step (insertBesideReaper (· = [2])) {}).map
        (fun g => g.statements.map fun s => (s.transaction, s.connection.startedFor))
      = some (replicate 3 (some ([1], 1), some ([1], 1)))
    ∧ StaysInside (insertBesideReaper (· = [2])) := by
  -- the request that starts the transaction is the only one then
  have hsingle : ∀ {g : Store}, (∀ n, g.threads (n + 1) = none) → ∀ pg,
      (Action.advance 0 pg).LeavesAlone g := by
    intro g hnone pg i thread t hthread _ _ hne
    cases i with
    | zero => exact absurd rfl hne
    | succ n =>
      rw [hnone n] at hthread
      cases hthread
  have hnever : ∀ {g : Store} {action : Action}, (∀ session, ¬ action.MayEnd session g) →
      action.LeavesAlone g := fun h _ _ t _ _ _ _ => h t.1
  have hleft : Runs.Allowed Store.step Action.LeavesAlone (insertBesideReaper (· = [2])) {} := by
    refine .cons (hnever fun _ => id) rfl (.cons (hsingle (fun _ => rfl) _) rfl
      (.cons (hsingle (fun _ => rfl) _) rfl (.cons (hsingle (fun _ => rfl) _) rfl
      (.cons (hsingle (fun _ => rfl) _) rfl (.cons (hsingle (fun _ => rfl) _) rfl
      (.cons (hnever fun _ => id) rfl (.cons (hnever ?_) rfl (.cons ?_ rfl
      (.cons (hnever fun _ => id) rfl (.cons (hnever fun _ => id) rfl
      (.cons (hnever fun _ => id) rfl (.cons (hnever fun _ => id) rfl
      (.cons (hnever fun _ => id) rfl (.cons (hnever fun _ => id) rfl trivial))))))))))))))
    · rintro session ⟨thread, hthread, hends⟩
      cases hthread
      cases hends
    · intro i thread t hthread huses ht _ hexpired
      rcases i with _ | _ | n
      · cases hthread
        cases huses
      · cases hthread
        cases ht
        cases hexpired
      · cases hthread
  exact ⟨hleft, rfl, staysInside_of_leftAlone hleft⟩

/-- The reaper takes the transaction. The `insert` is executed on a connection of the
pool, where it commits by itself, and returns without an error. -/
theorem insert_outside_transaction : (Runs.run Store.step (insertBesideReaper fun _ => true) {}).map
        (fun g => g.statements.map fun s => (s.transaction, s.connection.startedFor))
      = some (replicate 3 (some ([1], 1), none))
    ∧ ¬ StaysInside (insertBesideReaper fun _ => true) := by
  refine ⟨rfl, fun hstays => ?_⟩
  have hinside := hstays _ 1 (insertRequest [1]) ([1], 1) rfl rfl rfl _ mem_cons_self rfl rfl
  cases hinside.2

end DocumentDb.Gateway
