/-
Who owns the transactions of the gateway.

In every run (`Valid`) the store owns a transaction under its session and number, and the
request that starts one owns it until it is in the store; as long as one of them does, it is
open in PostgreSQL. Statements are executed on connections from the pool of the user, or
from the store under a session that the user shares with the owner, and nobody has a
connection that the pool gives away (`Untaken`). A step consists of small changes that do
not touch the connection of an owner (`Free`, `Valid.step`).
-/
import DocumentDb.Gateway.Transactions

namespace DocumentDb.Gateway

open List Option Function

-- ==== the invariant

def Stage.sessions : Stage → List Bytes
  | .handle | .done _ => []
  | .readLastSeen session _ | .removeOld session _ | .start session _
  | .insertLastSeen session _ _ | .insert session _ _
  | .abortFailed session _ => [session]
  | .run transaction | .pulled transaction _ _ =>
    (transaction.map Prod.fst).toList
  | .endSessions rest => rest

/-- The transaction that a request has started and not yet inserted. -/
def Stage.held : Stage → Option (Bytes × Int64 × Nat)
  | .insertLastSeen session number c | .insert session number c =>
    some (session, number, c)
  | _ => none

/-- The sessions that a request acts on: the one of its transaction, and those
that it ends. -/
def GatewayRequest.Touches (request : GatewayRequest) (session : Bytes) : Prop :=
  (∃ info, request.transactionInfo = some (session, info) ∧ info.autoCommit = false)
  ∨ (request.requestType = .endSessions ∧ session ∈ request.sessions)

/-- A stage without a connection, about sessions of the request. -/
structure Stage.Plain (request : GatewayRequest) (stage : Stage) : Prop where
  sessions : ∀ session ∈ stage.sessions, request.Touches session
  held : stage.held = none
  ne_pulled : ∀ transaction found c, stage ≠ .pulled transaction found c

def Store.Has (g : Store) (c : Nat) (P : PgConnection → Prop) : Prop :=
  ∃ conn, g.connections c = some conn ∧ P conn

/-- A connection that was pulled has the transaction that was found, or none. -/
def FoundFor (transaction : Option (Bytes × Int64)) (found : Option Transaction)
    (conn : PgConnection) : Prop :=
  conn.startedFor = found.bind fun f =>
    transaction.map fun t => (t.1, f.transactionNumber)

structure PgConnection.Owned (conn : PgConnection) (place : Place)
    (session : Bytes) (number : Int64) : Prop where
  place : conn.place = place
  startedFor : conn.startedFor = some (session, number)
  isOpen : conn.isOpen = true

section Invariant

variable (uses : Option Str → Bytes → Prop)

/-- A user has a connection of their own, or one of a user with whom they share a
session. -/
def Linked (user : Option Str) (owner : Str) : Prop :=
  user = some owner ∨ ∃ session, uses user session ∧ uses (some owner) session

/-- The requests act only on sessions that their users use. -/
def GatewayRequest.Obeys (request : GatewayRequest) : Prop :=
  ∀ session, request.Touches session → uses request.user session

/-- What holds in every run: who owns the transactions, and where the connections
come from that statements are executed on. -/
structure Valid (g : Store) : Prop where
  store : ∀ {session transaction}, g.transactions session = some transaction →
    g.Has transaction.connection fun conn =>
      conn.Owned (.store session) session transaction.transactionNumber
        ∧ uses (some conn.user) session
  obeys : ∀ {i thread}, g.threads i = some thread →
    thread.request.Obeys uses ∧ ∀ session ∈ thread.stage.sessions, thread.request.Touches session
  held : ∀ {i thread session number c}, g.threads i = some thread →
    thread.stage.held = some (session, number, c) →
    g.Has c fun conn => conn.Owned (.request i) session number
      ∧ thread.request.user = some conn.user
  pulled : ∀ {i request transaction found c},
    g.threads i = some ⟨request, .pulled transaction found c⟩ →
    g.Has c fun conn => FoundFor transaction found conn ∧ Linked uses request.user conn.user
      ∧ i ∈ conn.holders
  cursors : ∀ cursor ∈ g.cursors, g.Has cursor.2 fun conn =>
    Linked uses (some cursor.1) conn.user ∧ conn.hasCursor = true
  statements : ∀ statement ∈ g.statements, Linked uses statement.user statement.connection.user
      ∧ (statement.throughPull = true →
        FoundFor statement.transaction statement.found statement.connection)

end Invariant

variable {uses : Option Str → Bytes → Prop} {g : Store}

theorem Valid.initial : Valid uses {} where
  store := nofun
  obeys := nofun
  held := nofun
  pulled := nofun
  cursors := nofun
  statements := nofun

-- ==== one small change

namespace Store

variable {P : PgConnection → Prop} {c : Nat}

theorem Has.modify_ne {c' : Nat} (h : g.Has c P) (hne : c ≠ c') (f : PgConnection → PgConnection) :
    (g.modifyConnection c' f).Has c P := by
  obtain ⟨conn, hconn, hP⟩ := h
  refine ⟨conn, ?_, hP⟩
  show Function.update _ _ _ _ = _
  rw [update_of_ne hne]
  exact hconn

theorem Has.modify (h : g.Has c P) {f : PgConnection → PgConnection}
    (hf : ∀ conn, P conn → P (f conn)) (c' : Nat) : (g.modifyConnection c' f).Has c P := by
  by_cases heq : c = c'
  · obtain ⟨conn, hconn, hP⟩ := h
    refine ⟨f conn, ?_, hf conn hP⟩
    show Function.update _ _ _ _ = _
    rw [← heq, update_self, hconn]
    rfl
  · exact h.modify_ne heq f

theorem Has.openConnection {c' : Nat} (h : g.Has c P) (hne : c ≠ c') (conn' : PgConnection) :
    (g.openConnection c' conn').Has c P := by
  obtain ⟨conn, hconn, hP⟩ := h
  refine ⟨conn, ?_, hP⟩
  show Function.update _ _ _ _ = _
  rw [update_of_ne hne]
  exact hconn

theorem Has.reap (h : g.Has c P) (hplace : ∀ conn place, P conn → P { conn with place := place })
    (expired : Bytes → Bool) : (g.reap expired).Has c P := by
  obtain ⟨conn, hconn, hP⟩ := h
  refine ⟨_, congrArg (Option.map _) hconn, ?_⟩
  dsimp only
  split
  · split
    · exact hplace conn _ hP
    · exact hP
  · exact hP

theorem threads_setStage {i j : Nat} {request : GatewayRequest} {stage : Stage}
    {thread : Thread} (h : (g.setStage i request stage).threads j = some thread) :
    (j = i ∧ thread = ⟨request, stage⟩) ∨ g.threads j = some thread := by
  change Function.update g.threads i _ j = _ at h
  by_cases hj : j = i
  · rw [hj, update_self] at h
    exact Or.inl ⟨hj, (some.inj h).symm⟩
  · rw [update_of_ne hj] at h
    exact Or.inr h

theorem transactions_remove_self (g : Store) (session : Bytes) :
    (g.remove session).transactions session = none :=
  update_self _ _ _

theorem transactions_remove_ne {session session' : Bytes} (h : session' ≠ session) :
    (g.remove session).transactions session' = g.transactions session' :=
  update_of_ne h _ _

/-- No transaction of the store or of a request is on the connection. -/
structure Free (g : Store) (c : Nat) : Prop where
  store : ∀ {session transaction}, g.transactions session = some transaction →
    transaction.connection ≠ c
  held : ∀ {i thread session number c'}, g.threads i = some thread →
    thread.stage.held = some (session, number, c') → c' ≠ c

/-- Nor does a request or a cursor have it. -/
structure Untaken (g : Store) (c : Nat) : Prop extends g.Free c where
  pulled : ∀ {i request transaction found c'},
    g.threads i = some ⟨request, .pulled transaction found c'⟩ → c' ≠ c
  cursors : ∀ cursor ∈ g.cursors, cursor.2 ≠ c

end Store

-- ==== what they preserve

namespace Valid

variable (h : Valid uses g)

include h

variable {i : Nat} {request : GatewayRequest} {stage : Stage} {session : Bytes}

theorem setStage (hobeys : request.Obeys uses)
    (hsessions : ∀ session ∈ stage.sessions, request.Touches session)
    (hheld : ∀ {session number c}, stage.held = some (session, number, c) →
      g.Has c fun conn => conn.Owned (.request i) session number ∧ request.user = some conn.user)
    (hpulled : ∀ {txn found c}, stage = .pulled txn found c →
      g.Has c fun conn => FoundFor txn found conn
        ∧ Linked uses request.user conn.user ∧ i ∈ conn.holders) : Valid uses (g.setStage i request stage) where
  __ := h
  obeys {j thread} hthread := by
    rcases Store.threads_setStage hthread with ⟨-, rfl⟩ | hold
    · exact ⟨hobeys, hsessions⟩
    · exact h.obeys hold
  held {j thread session number c} hthread hstage := by
    rcases Store.threads_setStage hthread with ⟨rfl, rfl⟩ | hold
    · exact hheld hstage
    · exact h.held hold hstage
  pulled {j request' txn found c} hthread := by
    rcases Store.threads_setStage hthread with ⟨rfl, hnew⟩ | hold
    · obtain ⟨rfl, hstage⟩ := Thread.mk.inj hnew
      exact hpulled hstage.symm
    · exact h.pulled hold

theorem setStage_plain (hobeys : request.Obeys uses) (hplain : stage.Plain request) :
    Valid uses (g.setStage i request stage) := by
  refine h.setStage hobeys hplain.sessions ?_ ?_
  · intro session number c hsome
    rw [hplain.held] at hsome
    cases hsome
  · intro txn found c heq
    exact absurd heq (hplain.ne_pulled txn found c)

theorem remove (session : Bytes) : Valid uses (g.remove session) where
  __ := h
  store {session' txn} htransaction := by
    by_cases heq : session' = session
    · rw [heq, Store.transactions_remove_self] at htransaction
      cases htransaction
    · rw [Store.transactions_remove_ne heq] at htransaction
      exact h.store htransaction

variable {c : Nat} {txn : Transaction}

/-- The transaction on a connection that nobody owns is ended, or changes hands. -/
theorem modifyConnection (hfree : g.Free c) {f : PgConnection → PgConnection}
    (hf : ∀ conn, (f conn).user = conn.user ∧ (f conn).startedFor = conn.startedFor
      ∧ (f conn).holders = conn.holders ∧ (f conn).hasCursor = conn.hasCursor) :
    Valid uses (g.modifyConnection c f) where
  __ := h
  store htransaction := (h.store htransaction).modify_ne (hfree.store htransaction) f
  held hthread hstage := (h.held hthread hstage).modify_ne (hfree.held hthread hstage) f
  pulled {i request txn found c'} hthread := by
    refine (h.pulled hthread).modify (fun conn hconn => ?_) c
    obtain ⟨huser, hstarted, hholders, -⟩ := hf conn
    rw [FoundFor, hstarted, huser, hholders]
    exact hconn
  cursors cursor hcursor := by
    refine (h.cursors cursor hcursor).modify (fun conn hconn => ?_) c
    obtain ⟨huser, -, -, hkept⟩ := hf conn
    rw [huser, hkept]
    exact hconn

/-- Who has a connection changes; the requests and cursors that still have it are known. -/
theorem changeHolders {f : PgConnection → PgConnection}
    (hf : ∀ conn, (f conn).user = conn.user ∧ (f conn).startedFor = conn.startedFor
      ∧ (f conn).isOpen = conn.isOpen ∧ (f conn).place = conn.place)
    (hholders : ∀ {j request txn found}, g.threads j = some ⟨request, .pulled txn found c⟩ →
      ∀ conn, j ∈ conn.holders → j ∈ (f conn).holders)
    (hcursors : ∀ cursor ∈ g.cursors, cursor.2 = c →
      ∀ conn : PgConnection, conn.hasCursor = true → (f conn).hasCursor = true) :
    Valid uses (g.modifyConnection c f) where
  __ := h
  store htransaction := by
    refine (h.store htransaction).modify (fun conn hconn => ?_) c
    obtain ⟨huser, hstarted, hopen, hplace⟩ := hf conn
    obtain ⟨howned, huses⟩ := hconn
    exact ⟨⟨hplace.trans howned.place, hstarted.trans howned.startedFor,
      hopen.trans howned.isOpen⟩, huser ▸ huses⟩
  held hthread hstage := by
    refine (h.held hthread hstage).modify (fun conn hconn => ?_) c
    obtain ⟨huser, hstarted, hopen, hplace⟩ := hf conn
    obtain ⟨howned, huser'⟩ := hconn
    exact ⟨⟨hplace.trans howned.place, hstarted.trans howned.startedFor,
      hopen.trans howned.isOpen⟩, huser'.trans (congrArg some huser.symm)⟩
  pulled {i request txn found c'} hthread := by
    obtain ⟨conn, hconn, hfound, hlinked, hmem⟩ := h.pulled hthread
    obtain ⟨huser, hstarted, -, -⟩ := hf conn
    by_cases heq : c' = c
    · refine ⟨f conn, ?_, hstarted.trans hfound, huser ▸ hlinked, hholders (heq ▸ hthread) conn hmem⟩
      show Function.update _ _ _ _ = _
      rw [← heq, update_self, hconn]
      rfl
    · exact Store.Has.modify_ne ⟨conn, hconn, hfound, hlinked, hmem⟩ heq f
  cursors cursor hcursor := by
    obtain ⟨conn, hconn, hlinked, hkept⟩ := h.cursors cursor hcursor
    obtain ⟨huser, -, -, -⟩ := hf conn
    by_cases heq : cursor.2 = c
    · refine ⟨f conn, ?_, huser ▸ hlinked, hcursors cursor hcursor heq conn hkept⟩
      show Function.update _ _ _ _ = _
      rw [← heq, update_self, hconn]
      rfl
    · exact Store.Has.modify_ne ⟨conn, hconn, hlinked, hkept⟩ heq f

theorem openConnection (htaken : g.Untaken c) (conn : PgConnection) :
    Valid uses (g.openConnection c conn) where
  __ := h
  store htransaction := (h.store htransaction).openConnection (htaken.store htransaction) conn
  held hthread hstage := (h.held hthread hstage).openConnection (htaken.held hthread hstage) conn
  pulled hthread := (h.pulled hthread).openConnection (htaken.pulled hthread) conn
  cursors cursor hcursor :=
    (h.cursors cursor hcursor).openConnection (htaken.cursors cursor hcursor) conn

/-- The pool gives away what nobody has. -/
theorem untaken {user : Str} (htake : g.canTake user c) : g.Untaken c := by
  have hidle {P : PgConnection → Prop} (hhas : g.Has c P) :
      ∃ conn, P conn ∧ conn.place = .pool ∧ conn.holders = [] ∧ conn.hasCursor = false := by
    obtain ⟨conn, hconn, hP⟩ := hhas
    unfold Store.canTake at htake
    rw [hconn, Option.all_some, decide_eq_true_eq] at htake
    exact ⟨conn, hP, htake.2.1, htake.2.2.2.1, htake.2.2.2.2⟩
  refine ⟨⟨fun htransaction heq => ?_, fun hthread hstage heq => ?_⟩,
    fun hthread heq => ?_, fun cursor hcursor heq => ?_⟩
  · obtain ⟨conn, ⟨howned, -⟩, hplace, -⟩ := hidle (heq ▸ h.store htransaction)
    cases howned.place.symm.trans hplace
  · obtain ⟨conn, ⟨howned, -⟩, hplace, -⟩ := hidle (heq ▸ h.held hthread hstage)
    cases howned.place.symm.trans hplace
  · obtain ⟨conn, ⟨-, -, hmem⟩, -, hnil, -⟩ := hidle (heq ▸ h.pulled hthread)
    rw [hnil] at hmem
    exact not_mem_nil hmem
  · obtain ⟨conn, ⟨-, hkept⟩, -, -, hfalse⟩ := hidle (heq ▸ h.cursors cursor hcursor)
    rw [hfalse] at hkept
    cases hkept

theorem free_of_place {conn : PgConnection} (hconn : g.connections c = some conn)
    (hstore : ∀ session txn, conn.place = .store session → g.transactions session ≠ some txn)
    (hrequest : ∀ i, conn.place ≠ .request i) : g.Free c where
  store {session txn} htransaction heq := by
    obtain ⟨conn', hconn', howned, -⟩ := h.store htransaction
    rw [heq, hconn] at hconn'
    cases hconn'
    exact hstore session txn howned.place htransaction
  held {i thread session number c'} hthread hstage heq := by
    obtain ⟨conn', hconn', howned, -⟩ := h.held hthread hstage
    rw [heq, hconn] at hconn'
    cases hconn'
    exact hrequest i howned.place

theorem free_of_remove (htransaction : g.transactions session = some txn) :
    (g.remove session).Free txn.connection := by
  obtain ⟨conn, hconn, howned, -⟩ := h.store htransaction
  refine (h.remove session).free_of_place hconn ?_ ?_
  · intro session' transaction' hplace
    rw [howned.place] at hplace
    obtain rfl := Place.store.inj hplace
    rw [Store.transactions_remove_self]
    nofun
  · intro i hplace
    rw [howned.place] at hplace
    cases hplace

theorem endTransaction (htransaction : g.transactions session = some txn) (pg : PgAnswer) :
    Valid uses ((g.remove session).endTransaction txn pg) := by
  have hfree := h.free_of_remove htransaction
  unfold Store.endTransaction
  split
  · exact (h.remove session).modifyConnection hfree fun _ => ⟨rfl, rfl, rfl, rfl⟩
  · exact (h.remove session).modifyConnection hfree fun _ => ⟨rfl, rfl, rfl, rfl⟩

theorem setLastSeen (lastSeenTransactions : Bytes → Option (Int64 × TransactionState)) :
    Valid uses { g with lastSeenTransactions := lastSeenTransactions } where
  __ := h

theorem complete (state : TransactionState) (missing : String) (session : Bytes) (pg : PgAnswer) :
    Valid uses (Store.complete state missing g session pg).2 := by
  unfold Store.complete
  cases htransaction : g.transactions session with
  | none => exact h
  | some txn =>
    have hended := h.endTransaction htransaction pg
    dsimp only
    split
    · exact hended.setLastSeen _
    · exact hended

theorem insertEntry (hhas : g.Has txn.connection fun conn =>
      conn.Owned (.store session) session txn.transactionNumber ∧ uses (some conn.user) session) :
    Valid uses { g with
      transactions := Function.update g.transactions session
        (some txn) } where
  __ := h
  store {session' transaction'} htransaction := by
    change Function.update g.transactions session _ session' = _ at htransaction
    by_cases heq : session' = session
    · rw [heq, update_self] at htransaction
      cases htransaction
      rw [heq]
      exact hhas
    · rw [update_of_ne heq] at htransaction
      exact h.store htransaction

theorem addStatement {stmt : Statement} (hlinked : Linked uses stmt.user stmt.connection.user)
    (hfound : stmt.throughPull → FoundFor stmt.transaction stmt.found stmt.connection) :
    Valid uses { g with statements := stmt :: g.statements } where
  __ := h
  statements statement' hstatement := by
    rcases mem_cons.1 hstatement with rfl | hold
    · exact ⟨hlinked, hfound⟩
    · exact h.statements statement' hold

theorem setCursors {cursors : List (Str × Nat)}
    (hcursors : ∀ cursor ∈ cursors, g.Has cursor.2 fun conn =>
      Linked uses (some cursor.1) conn.user ∧ conn.hasCursor = true) :
    Valid uses { g with cursors := cursors } where
  __ := h
  cursors := hcursors

end Valid

-- ==== stages

section Stages

variable {request : GatewayRequest}

theorem Stage.Plain.done (result : Except DocumentDBError Unit) :
    (Stage.done result).Plain request where
  sessions := nofun
  held := rfl
  ne_pulled := nofun

variable {txn : Option (Bytes × Int64)}

theorem Stage.Plain.run (h : ∀ t ∈ txn, request.Touches t.1) : (Stage.run txn).Plain request where
  sessions session hsession := by
    obtain ⟨t, ht, rfl⟩ := map_eq_some_iff.1 (mem_toList.1 hsession)
    exact h t ht
  held := rfl
  ne_pulled := nofun

theorem Stage.Plain.single {stage : Stage} {session : Bytes}
    (hsessions : stage.sessions = [session]) (hheld : stage.held = none)
    (hne : ∀ txn found c, stage ≠ .pulled txn found c)
    (h : request.Touches session) : stage.Plain request where
  sessions session' hsession := by
    rw [hsessions] at hsession
    rw [mem_singleton.1 hsession]
    exact h
  held := hheld
  ne_pulled := hne

theorem touches_of_sessions (h : ∀ session ∈ (txn.map Prod.fst).toList,
      request.Touches session) : ∀ t ∈ txn, request.Touches t.1 := by
  intro t ht
  refine h t.1 (mem_toList.2 ?_)
  exact Option.mem_map_of_mem Prod.fst ht

theorem plain_runStage (h : ∀ t ∈ txn, request.Touches t.1) :
    (Store.runStage request txn).Plain request := by
  unfold Store.runStage
  split
  · rename_i hend
    exact ⟨fun session hsession => Or.inr ⟨hend, hsession⟩, rfl, nofun⟩
  · exact .run h

theorem plain_handleStage (g : Store) (request : GatewayRequest) :
    (g.handleStage request).Plain request := by
  unfold Store.handleStage
  cases hinfo : request.transactionInfo with
  | none => exact plain_runStage nofun
  | some transactionInfo =>
    obtain ⟨session, info⟩ := transactionInfo
    dsimp only
    by_cases hauto : info.autoCommit
    · rw [if_pos hauto]
      exact plain_runStage nofun
    rw [if_neg hauto]
    have htouches : request.Touches session := Or.inl ⟨info, hinfo, Bool.eq_false_iff.2 hauto⟩
    cases Store.refusal request with
    | some error => exact .done _
    | none =>
      show (g.createStage request session info).Plain request
      unfold Store.createStage
      split
      · split
        · split
          · exact .done _
          · exact .single rfl rfl nofun htouches
        · exact .single rfl rfl nofun htouches
      · split
        · split
          · exact .done _
          · refine plain_runStage fun t ht => ?_
            cases ht
            exact htouches
        · exact .single rfl rfl nofun htouches

theorem plain_readLastSeenStage (g : Store) (request : GatewayRequest)
    (session : Bytes) (number : Int64) :
    (g.readLastSeenStage request session number).Plain request := by
  unfold Store.readLastSeenStage
  split
  · split
    · exact plain_runStage nofun
    · exact .done _
  · exact .done _

theorem plain_finishStage (h : ∀ t ∈ txn, request.Touches t.1)
    (timedOut : Bool) (result : Except DocumentDBError Unit) :
    (Store.finishStage request txn timedOut result).Plain request := by
  cases result with
  | ok _ => exact .done _
  | error error =>
    cases txn with
    | none => exact .done _
    | some t =>
      show (if _ then Stage.abortFailed t.1 error else .done (.error error)).Plain request
      split
      · exact .single rfl rfl nofun (h t rfl)
      · exact .done _

end Stages

-- ==== a step of a request

namespace Valid

variable (h : Valid uses g) {i : Nat} {request : GatewayRequest}
  {session : Bytes} {number : Int64}

include h

theorem dropOld {old : Transaction} (hold : g.transactions session = some old) :
    Valid uses ((g.remove session).dropTransaction old.connection true) :=
  (h.remove session).modifyConnection (h.free_of_remove hold) fun _ => ⟨rfl, rfl, rfl, rfl⟩

theorem removeOld (hthread : g.threads i = some ⟨request, .removeOld session number⟩)
    (pg : PgAnswer) : Valid uses (g.removeOld i request session number pg) := by
  obtain ⟨hobeys, hsessions⟩ := h.obeys hthread
  have hstart : (Stage.start session number).Plain request :=
    .single rfl rfl nofun (hsessions session (mem_singleton_self _))
  unfold Store.removeOld
  cases hold : g.transactions session with
  | none => exact h.setStage_plain hobeys hstart
  | some old =>
    dsimp only
    split
    · exact (h.dropOld hold).setStage_plain hobeys (.done _)
    · refine (h.endTransaction hold pg).setStage_plain hobeys ?_
      split
      · exact hstart
      · exact .done _

variable {g' : Store} {pg : PgAnswer} {c : Nat} {stage : Stage}
  {txn : Option (Bytes × Int64)}

theorem startTransaction (hthread : g.threads i = some ⟨request, .start session number⟩)
    (hstep : g.startTransaction i request session number pg = some g') : Valid uses g' := by
  obtain ⟨hobeys, hsessions⟩ := h.obeys hthread
  unfold Store.startTransaction at hstep
  cases huser : request.user with
  | none =>
    rw [huser] at hstep
    cases hstep
    exact h.setStage_plain hobeys (.done _)
  | some user =>
    rw [huser] at hstep
    dsimp only at hstep
    split at hstep
    · split at hstep
      · rename_i htake
        cases hstep
        refine (h.openConnection (h.untaken htake) _).setStage hobeys hsessions ?_ nofun
        intro session' number' c heq
        cases heq
        exact ⟨_, update_self _ _ _, ⟨rfl, rfl, rfl⟩, huser⟩
      · cases hstep
    · cases hstep
      exact h.setStage_plain hobeys (.done _)

theorem insertLastSeen (hthread : g.threads i = some ⟨request, .insertLastSeen session number c⟩)
    (lastSeenTransactions : Bytes → Option (Int64 × TransactionState)) :
    Valid uses (Store.setStage { g with lastSeenTransactions := lastSeenTransactions } i request
      (.insert session number c)) := by
  obtain ⟨hobeys, hsessions⟩ := h.obeys hthread
  refine (h.setLastSeen _).setStage hobeys hsessions ?_ nofun
  intro session' number' c' heq
  exact h.held hthread heq

theorem free_of_request (hthread : g.threads i = some ⟨request, stage⟩)
    (hheld : stage.held = none) (hplace : g.Has c fun conn => conn.place = .request i) :
    g.Free c where
  store {session txn} htransaction heq := by
    obtain ⟨conn, hconn, hplace⟩ := hplace
    obtain ⟨conn', hconn', howned, -⟩ := h.store htransaction
    rw [heq, hconn] at hconn'
    cases hconn'
    have hcontra := hplace.symm.trans howned.place
    cases hcontra
  held {j thread session number c'} hthread' hstage heq := by
    obtain ⟨conn, hconn, hplace⟩ := hplace
    obtain ⟨conn', hconn', howned, -⟩ := h.held hthread' hstage
    rw [heq, hconn] at hconn'
    cases hconn'
    obtain rfl := Place.request.inj (hplace.symm.trans howned.place)
    cases hthread.symm.trans hthread'
    rw [hheld] at hstage
    cases hstage

theorem insertStarted (hthread : g.threads i = some ⟨request, .insert session number c⟩) :
    Valid uses
      { (g.setStage i request (Store.runStage request
          (some (session, number)))).modifyConnection c
        fun conn => { conn with place := .store session } with
        transactions := Function.update g.transactions session
          (some ⟨number, c⟩) } := by
  obtain ⟨hobeys, hsessions⟩ := h.obeys hthread
  obtain ⟨conn, hconn, howned, huser⟩ := h.held hthread rfl
  have htouches := hsessions session (mem_singleton_self _)
  have hplain : (Store.runStage request (some (session, number))).Plain
      request := by
    refine plain_runStage fun t ht => ?_
    cases ht
    exact htouches
  have hset := h.setStage_plain (i := i) hobeys hplain
  have hfree := hset.free_of_request (update_self _ _ _) hplain.held ⟨conn, hconn, howned.place⟩
  have hmoved := hset.modifyConnection hfree
    (f := fun conn => { conn with place := .store session }) fun _ => ⟨rfl, rfl, rfl, rfl⟩
  refine hmoved.insertEntry ⟨{ conn with place := .store session }, ?_,
    ⟨rfl, howned.startedFor, howned.isOpen⟩, ?_⟩
  · show Function.update g.connections c _ c = _
    rw [update_self]
    show (g.connections c).map _ = _
    rw [hconn]
    rfl
  · show uses (some conn.user) session
    rw [← huser]
    exact hobeys session htouches

theorem insertTransaction (hthread : g.threads i = some ⟨request, .insert session number c⟩) :
    Valid uses (g.insertTransaction i request session number c) := by
  unfold Store.insertTransaction
  cases hold : g.transactions session with
  | none => exact h.insertStarted hthread
  | some old => exact (h.dropOld hold).insertStarted hthread

theorem completeCommand (hobeys : request.Obeys uses) (htouches : ∀ t ∈ txn, request.Touches t.1)
    (pg : PgAnswer) (result : Except DocumentDBError Unit) :
    Valid uses (Store.completeCommand i request txn pg (result, g)) := by
  unfold Store.completeCommand
  split
  · rename_i heq
    cases heq
    refine h.setStage_plain hobeys ?_
    split
    · exact .run htouches
    · exact .done _
  · rename_i heq
    cases heq
    exact h.setStage_plain hobeys (.done _)

theorem touches (hthread : g.threads i = some ⟨request, .run txn⟩) :
    ∀ t ∈ txn, request.Touches t.1 :=
  @touches_of_sessions request txn (h.obeys hthread).2

theorem advanceRun (hthread : g.threads i = some ⟨request, .run txn⟩)
    (hstep : g.advance i request pg (.run txn) = some g') : Valid uses g' := by
  have hobeys := (h.obeys hthread).1
  unfold Store.advance at hstep
  dsimp only at hstep
  split at hstep
  · cases hstep
    exact h.setStage_plain hobeys (.done _)
  · cases hstep
    exact (h.complete _ _ _ pg).completeCommand hobeys (h.touches hthread) pg _
  · cases hstep
    exact h.setStage_plain hobeys (.done _)
  · cases hstep
    exact (h.complete _ _ _ pg).completeCommand hobeys (h.touches hthread) pg _
  · cases hstep

theorem advance (hthread : g.threads i = some ⟨request, stage⟩)
    (hstep : g.advance i request pg stage = some g') : Valid uses g' := by
  obtain ⟨hobeys, hsessions⟩ := h.obeys hthread
  cases stage with
  | handle =>
    cases hstep
    exact h.setStage_plain hobeys (plain_handleStage g request)
  | readLastSeen session number =>
    cases hstep
    exact h.setStage_plain hobeys (plain_readLastSeenStage g request _ _)
  | removeOld session number =>
    cases hstep
    exact h.removeOld hthread pg
  | start session number => exact h.startTransaction hthread hstep
  | insertLastSeen session number c =>
    cases hstep
    exact h.insertLastSeen hthread _
  | insert session number c =>
    cases hstep
    exact h.insertTransaction hthread
  | run txn => exact h.advanceRun hthread hstep
  | pulled txn found c | done result => cases hstep
  | endSessions rest =>
    cases rest with
    | nil =>
      cases hstep
      exact h.setStage_plain hobeys (.done _)
    | cons session rest =>
      cases hstep
      refine (h.complete _ _ session pg).setStage_plain hobeys ⟨?_, rfl, nofun⟩
      intro session' hsession
      exact hsessions session' (mem_cons_of_mem _ hsession)
  | abortFailed session error =>
    have habort : Valid uses (g.abort session pg).2 := h.complete _ _ session pg
    unfold Store.advance at hstep
    dsimp only at hstep
    split at hstep
    all_goals
      rename_i heq
      rw [heq] at habort
      cases hstep
      exact habort.setStage_plain hobeys (.done _)

theorem pullConnection (hthread : g.threads i = some ⟨request, .run txn⟩)
    (hstep : g.pullConnection i request txn pg = some g') : Valid uses g' := by
  obtain ⟨hobeys, hsessions⟩ := h.obeys hthread
  unfold Store.pullConnection at hstep
  split at hstep
  · rename_i found hfound
    cases hstep
    obtain ⟨t, rfl, hstore⟩ := bind_eq_some_iff.1 hfound
    have hheld := h.changeHolders (c := found.connection)
      (f := fun conn => { conn with holders := i :: conn.holders })
      (fun _ => ⟨rfl, rfl, rfl, rfl⟩) (fun _ _ hmem => mem_cons_of_mem _ hmem)
      fun _ _ _ _ hkept => hkept
    refine hheld.setStage hobeys hsessions nofun ?_
    intro transaction' found' c heq
    cases heq
    obtain ⟨conn, hconn, howned, huses⟩ := h.store hstore
    refine ⟨{ conn with holders := i :: conn.holders }, ?_, howned.startedFor,
      Or.inr ⟨t.1, hobeys t.1 (h.touches hthread t rfl), huses⟩, mem_cons_self⟩
    show Function.update _ _ _ _ = _
    rw [update_self, hconn]
    rfl
  · split at hstep
    · cases hstep
    · rename_i user huser
      split at hstep
      · rename_i htake
        cases hstep
        refine (h.openConnection (h.untaken htake) _).setStage hobeys hsessions nofun ?_
        intro transaction' found' c heq
        cases heq
        exact ⟨_, update_self _ _ _, rfl, Or.inl huser, mem_singleton_self _⟩
      · cases hstep

theorem execute {throughPull keepsCursor : Bool} {found : Option Transaction}
    (hconn : g.Has c fun conn => Linked uses request.user conn.user
      ∧ (throughPull → FoundFor txn found conn))
    (hstep : g.execute i request txn throughPull found c keepsCursor = some g') :
    Valid uses g' := by
  obtain ⟨conn, hconn, hlinked, hfound⟩ := hconn
  unfold Store.execute at hstep
  rw [hconn] at hstep
  have hadded : Valid uses { g with
      statements := ⟨i, request.user, txn, throughPull, found, conn⟩ :: g.statements } :=
    h.addStatement hlinked hfound
  cases keepsCursor with
  | false =>
    cases hstep
    exact hadded
  | true =>
    cases hstep
    have hkept := hadded.changeHolders (c := c) (f := fun conn => { conn with hasCursor := true })
      (fun _ => ⟨rfl, rfl, rfl, rfl⟩) (fun _ _ hmem => hmem) fun _ _ _ _ _ => rfl
    refine hkept.setCursors fun cursor hcursor => ?_
    rcases mem_append.1 hcursor with hnew | hold
    · obtain ⟨user, huser, rfl⟩ := map_eq_some_iff.1 (mem_toList.1 hnew)
      refine ⟨{ conn with hasCursor := true }, ?_, huser ▸ hlinked, rfl⟩
      show Function.update _ _ _ _ = _
      rw [update_self]
      show (g.connections c).map _ = _
      rw [hconn]
      rfl
    · exact hkept.cursors cursor hold

theorem release {found : Option Transaction}
    (hthread : g.threads i = some ⟨request, .pulled txn found c⟩) :
    Valid uses (g.release i request txn c) := by
  obtain ⟨hobeys, hsessions⟩ := h.obeys hthread
  have hplain : (Stage.run txn).Plain request := .run (touches_of_sessions hsessions)
  refine (h.setStage_plain (i := i) hobeys hplain).changeHolders (c := c)
    (f := fun conn => { conn with holders := conn.holders.erase i })
    (fun _ => ⟨rfl, rfl, rfl, rfl⟩) (fun {j _ _ _} hpulled conn hmem => ?_)
    fun _ _ _ _ hkept => hkept
  rcases Store.threads_setStage hpulled with ⟨-, hnew⟩ | hold
  · cases hnew
  · by_cases hj : j = i
    · rw [hj, Store.setStage_threads_self] at hpulled
      cases hpulled
    · exact (mem_erase_of_ne hj).2 hmem

theorem closeCursors (c : Nat) : Valid uses (g.closeCursors c) := by
  have hclosed : Valid uses { g with cursors := g.cursors.filter fun cursor => cursor.2 ≠ c } :=
    h.setCursors fun cursor hcursor => h.cursors cursor (mem_of_mem_filter hcursor)
  refine hclosed.changeHolders (c := c) (f := fun conn => { conn with hasCursor := false })
    (fun _ => ⟨rfl, rfl, rfl, rfl⟩) (fun _ _ hmem => hmem) fun cursor hcursor heq => ?_
  exact absurd heq (of_decide_eq_true (mem_filter.1 hcursor).2)

theorem reap (expired : Bytes → Bool) : Valid uses (g.reap expired) where
  __ := h
  store {session txn} htransaction := by
    change (if _ then none else g.transactions session) = _ at htransaction
    split at htransaction
    · cases htransaction
    · rename_i hexpired
      obtain ⟨conn, hconn, howned, huses⟩ := h.store htransaction
      refine ⟨conn, ?_, howned, huses⟩
      show (g.connections txn.connection).map _ = _
      rw [hconn, map_some, howned.place]
      simp only [hexpired, false_and, if_false, Bool.false_eq_true]
  held {i thread session number c} hthread hstage := by
    obtain ⟨conn, hconn, howned, huser⟩ := h.held hthread hstage
    refine ⟨conn, ?_, howned, huser⟩
    show (g.connections c).map _ = _
    rw [hconn, map_some, howned.place]
  pulled hthread := (h.pulled hthread).reap (fun _ _ hconn => hconn) expired
  cursors cursor hcursor := (h.cursors cursor hcursor).reap (fun _ _ hconn => hconn) expired

end Valid

-- ==== runs

section WholeRuns

variable (uses) in
/-- The requests that arrive in an action use only sessions of their users. -/
def Action.Obeys (action : Action) : Prop :=
  ∀ i request, action = .arrive i request → request.Obeys uses

theorem Valid.step {action : Action} {g' : Store} (h : Valid uses g)
    (hobeys : action.Obeys uses) (hstep : Store.step action g = some g') : Valid uses g' := by
  cases action with
  | arrive i request =>
    obtain ⟨-, rfl⟩ := Store.of_step_arrive hstep
    exact h.setStage_plain (hobeys i request rfl) ⟨nofun, rfl, nofun⟩
  | advance i pg =>
    obtain ⟨request, stage, hthread, hadvance⟩ := Store.of_step_advance hstep
    exact h.advance hthread hadvance
  | pull i pg =>
    obtain ⟨request, txn, hthread, -, hpull⟩ := Store.of_step_pull hstep
    exact h.pullConnection hthread hpull
  | execute i keepsCursor =>
    obtain ⟨request, txn, found, c, hthread, hexecute⟩ := Store.of_step_execute hstep
    obtain ⟨conn, hconn, hfound, hlinked, -⟩ := h.pulled hthread
    exact h.execute ⟨conn, hconn, hlinked, fun _ => hfound⟩ hexecute
  | release i =>
    obtain ⟨request, txn, found, c, hthread, rfl⟩ := Store.of_step_release hstep
    exact h.release hthread
  | getMore i c =>
    obtain ⟨request, txn, user, hthread, huser, hcursor, hexecute⟩ := Store.of_step_getMore hstep
    obtain ⟨conn, hconn, hlinked, -⟩ := h.cursors _ hcursor
    rw [← huser] at hlinked
    have hhas : g.Has c fun conn => Linked uses request.user conn.user
        ∧ (false = true → FoundFor txn none conn) :=
      ⟨conn, hconn, hlinked, fun hpull => absurd hpull Bool.false_ne_true⟩
    exact h.execute hhas hexecute
  | finish i result timedOut =>
    obtain ⟨request, txn, hthread, rfl⟩ := Store.of_step_finish hstep
    exact h.setStage_plain (h.obeys hthread).1
      (plain_finishStage (h.touches hthread) timedOut result)
  | closeCursors c =>
    cases hstep
    exact h.closeCursors c
  | reap expired =>
    cases hstep
    exact h.reap expired
  | rollback c =>
    obtain ⟨conn, hconn, hplace, rfl⟩ := Store.of_step_rollback hstep
    refine h.modifyConnection (h.free_of_place hconn ?_ ?_) fun _ => ⟨rfl, rfl, rfl, rfl⟩
    · intro session txn hstore
      rw [hplace] at hstore
      cases hstore
    · intro i hrequest
      rw [hplace] at hrequest
      cases hrequest

theorem Valid.run {actions : List Action} {g' : Store} (h : Valid uses g)
    (hobeys : ∀ action ∈ actions, action.Obeys uses)
    (hrun : Runs.run Store.step actions g = some g') : Valid uses g' :=
  Runs.invariant (fun haction hvalid hstep => hvalid.step haction hstep) hobeys hrun h

end WholeRuns

end DocumentDb.Gateway
