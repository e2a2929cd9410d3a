/-
Do the transactions of different clients stay apart?

They do in a step if every statement is executed on a connection of its own user, no request
ends the transaction of another user, and a client that is not authenticated leaves the
store alone (`Isolated`). The store knows transactions by session only, and any client may
name any session. So it holds for all runs in which users keep to certain sessions exactly
if no session is one of two users, or of one and a client without a user
(`isolatedRun_iff`).
-/
import DocumentDb.Gateway.Frame

namespace DocumentDb.Gateway

open List Option Function

-- ==== the expectation

def Store.actor (g : Store) : Action → Option GatewayRequest
  | .arrive _ request => some request
  | action => action.thread.bind fun i => (g.threads i).map Thread.request

/-- A step commits or rolls back the transaction on a connection, or takes it out
of the store. -/
def Store.Ends (g g' : Store) (c : Nat) : Prop :=
  (∃ session transaction, g.transactions session = some transaction
    ∧ transaction.connection = c ∧ g'.transactions session ≠ some transaction)
  ∨ ((g.Has c fun conn => conn.isOpen = true) ∧ ¬ g'.Has c fun conn => conn.isOpen = true)

/-- Clients do not interfere in a step. The reaper and the tasks are not bound by
it. -/
structure Isolated (action : Action) (g g' : Store) : Prop where
  statements : ∀ statement ∈ g'.statements, statement.user = some statement.connection.user
  ends : ∀ {request c conn}, g.actor action = some request →
    g.connections c = some conn → g.Ends g' c → request.user = some conn.user
  unauthenticated : ∀ {request}, g.actor action = some request →
    request.user = none → g'.transactions = g.transactions
      ∧ g'.lastSeenTransactions = g.lastSeenTransactions

def IsolatedRun (actions : List Action) : Prop :=
  ∀ before action after g g', actions = before ++ action :: after →
    Runs.run Store.step before {} = some g → Store.step action g = some g' → Isolated action g g'

-- ==== sessions of one user

variable (uses : Option Str → Bytes → Prop)

def Apart : Prop :=
  ∀ session owner user, uses (some owner) session → uses user session → user = some owner

variable {uses : Option Str → Bytes → Prop} {g g' : Store} {action : Action} {user : Option Str}
  {owner : Str} {session : Bytes}

theorem Linked.eq (hapart : Apart uses) (h : Linked uses user owner) : user = some owner := by
  rcases h with heq | ⟨session, huser, howner⟩
  · exact heq
  · exact hapart session owner user howner huser

theorem Store.Unchanged.not_ends (h : g.Unchanged g') (c : Nat) : ¬ g.Ends g' c := by
  intro hends
  rcases hends with ⟨session, transaction, hold, -, hnew⟩ | ⟨hopen, hclosed⟩
  · rw [h.transactions] at hnew
    exact hnew hold
  · exact hclosed (h.isOpen hopen)

theorem Store.ChangedAt.of_ends (h : Store.ChangedAt session g g') {c : Nat} (hends : g.Ends g' c) :
    ∃ transaction, g.transactions session = some transaction ∧ transaction.connection = c := by
  rcases hends with ⟨session', transaction, hold, hc, hnew⟩ | ⟨hopen, hclosed⟩
  · by_cases heq : session' = session
    · exact ⟨transaction, heq ▸ hold, hc⟩
    · rw [h.transactions session' heq] at hnew
      exact absurd hold hnew
  · by_contra hnone
    refine hclosed (h.isOpen ?_ hopen)
    intro transaction htransaction hc
    exact hnone ⟨transaction, htransaction, hc⟩

theorem Valid.user_eq_owner (h : Valid uses g) (hapart : Apart uses) {i : Nat}
    {thread : Thread} (hthread : g.threads i = some thread)
    (hsession : session ∈ thread.stage.sessions) {txn : Transaction}
    (htransaction : g.transactions session = some txn) {conn : PgConnection}
    (hconn : g.connections txn.connection = some conn) : thread.request.user = some conn.user := by
  obtain ⟨hobeys, hsessions⟩ := h.obeys hthread
  obtain ⟨conn', hconn', -, howner⟩ := h.store htransaction
  cases hconn.symm.trans hconn'
  exact hapart session conn.user _ howner (hobeys session (hsessions session hsession))

theorem Store.actor_effect {request : GatewayRequest} (hstep : Store.step action g = some g')
    (hactor : g.actor action = some request) :
    g.Unchanged g' ∨ ∃ i thread, g.threads i = some thread
      ∧ thread.request = request ∧ g.Effect g' thread := by
  by_cases harrive : ∃ i request', action = .arrive i request'
  · obtain ⟨i, request', rfl⟩ := harrive
    obtain ⟨-, rfl⟩ := Store.of_step_arrive hstep
    exact Or.inl ((Unchanged.refl g).setStage _ _ _)
  have hbind : (action.thread.bind fun i => (g.threads i).map Thread.request) = some request := by
    unfold Store.actor at hactor
    split at hactor
    · exact absurd ⟨_, _, rfl⟩ harrive
    · exact hactor
  obtain ⟨i, hi, hmap⟩ := bind_eq_some_iff.1 hbind
  obtain ⟨thread, hthread, hrequest⟩ := map_eq_some_iff.1 hmap
  rcases Store.step_effect hstep hi with hsame | ⟨thread', hthread', heffect⟩
  · exact Or.inl hsame
  · cases hthread.symm.trans hthread'
    exact Or.inr ⟨i, thread, hthread, hrequest, heffect⟩

theorem Valid.isolated (h : Valid uses g) (hapart : Apart uses)
    (hobeys : action.Obeys uses) (hstep : Store.step action g = some g') :
    Isolated action g g' where
  statements statement hstatement :=
    ((h.step hobeys hstep).statements statement hstatement).1.eq hapart
  ends {request c conn} hactor hconn hends := by
    rcases Store.actor_effect hstep hactor with
      hsame | ⟨i, thread, hthread, rfl, heffect⟩
    · exact absurd hends (hsame.not_ends c)
    · rcases heffect with hsame | ⟨session, hsession, hat, -⟩
      · exact absurd hends (hsame.not_ends c)
      · obtain ⟨transaction, htransaction, rfl⟩ := hat.of_ends hends
        exact h.user_eq_owner hapart hthread hsession htransaction hconn
  unauthenticated {request} hactor hnone := by
    rcases Store.actor_effect hstep hactor with
      hsame | ⟨i, thread, hthread, rfl, heffect⟩
    · exact ⟨hsame.transactions, hsame.lastSeen⟩
    · rcases heffect with hsame | ⟨session, hsession, -, hsome | hheld⟩
      · exact ⟨hsame.transactions, hsame.lastSeen⟩
      · -- somebody owns the transaction that is there
        obtain ⟨transaction, htransaction⟩ := isSome_iff_exists.1 hsome
        obtain ⟨conn, hconn, -⟩ := h.store htransaction
        have howner := h.user_eq_owner hapart hthread hsession htransaction hconn
        rw [hnone] at howner
        cases howner
      · -- the request has started a transaction, for its own user
        obtain ⟨⟨session', number, c⟩, hheld⟩ := isSome_iff_exists.1 hheld
        obtain ⟨conn, -, -, huser⟩ := h.held hthread hheld
        rw [hnone] at huser
        cases huser

theorem isolatedRun_of_apart (hapart : Apart uses) {actions : List Action}
    (hobeys : ∀ action ∈ actions, action.Obeys uses) : IsolatedRun actions := by
  intro before action after g g' hactions hrun hstep
  subst hactions
  have hvalid : Valid uses g := by
    refine Valid.initial.run (fun a ha => hobeys a ?_) hrun
    exact mem_append_left _ ha
  refine hvalid.isolated hapart (hobeys action ?_) hstep
  exact mem_append_right _ mem_cons_self

-- ==== a session of two users

/-- A request of a type that needs no authentication, with the fields that start
a transaction. -/
def startRequest (user : Option Str) (session : Bytes) (number : Int64) : GatewayRequest where
  user := user
  requestType := .hello
  transactionInfo := some (session, ⟨number, false, true⟩)
  letThrough _ := rfl

def starts (owner : Str) (session : Bytes) : List Action :=
  [.arrive 0 (startRequest (some owner) session 1), .advance 0 ⟨true, true, false, 0⟩,
    .advance 0 ⟨true, true, false, 0⟩, .advance 0 ⟨true, true, false, 0⟩,
    .advance 0 ⟨true, true, false, 0⟩, .advance 0 ⟨true, true, false, 0⟩]

/-- Somebody else comes to start one, in the same session. -/
def comes (user : Option Str) (session : Bytes) : List Action :=
  [.arrive 1 (startRequest user session 2), .advance 1 ⟨true, true, false, 0⟩]

theorem startRequest_obeys (number : Int64)
    (h : uses user session) : (startRequest user session number).Obeys uses := by
  intro session' htouches
  rcases htouches with ⟨info, hinfo, -⟩ | ⟨hend, -⟩
  · obtain ⟨rfl, -⟩ := Prod.mk.inj (some.inj hinfo)
    exact h
  · cases hend

theorem run_starts (owner : Str) (session : Bytes) :
    ∃ g, Runs.run Store.step (starts owner session) {} = some g
      ∧ g.transactions session = some ⟨1, 0⟩
      ∧ g.lastSeenTransactions session = some (1, .started)
      ∧ g.connections 0 = some ⟨owner, some (session, 1), true, .store session, [], false⟩
      ∧ g.threads 1 = none :=
  ⟨_, rfl, update_self _ _ _, update_self _ _ _, rfl, rfl⟩

theorem handleStage_startRequest (hseen : g.lastSeenTransactions session = some (1, .started)) :
    g.handleStage (startRequest user session 2) = .removeOld session 2 := by
  show g.createStage (startRequest user session 2) session ⟨2, false, true⟩ = _
  unfold Store.createStage
  rw [hseen]
  rfl

theorem run_starts_comes (owner : Str) (user : Option Str) (session : Bytes) :
    ∃ g, Runs.run Store.step (starts owner session ++ comes user session) {} = some g
      ∧ g.transactions session = some ⟨1, 0⟩
      ∧ g.connections 0 = some ⟨owner, some (session, 1), true, .store session, [], false⟩
      ∧ g.threads 1 = some ⟨startRequest user session 2, .removeOld session 2⟩ := by
  obtain ⟨g, hrun, htransaction, hseen, hconn, hthread⟩ := run_starts owner session
  have harrive : Store.step (.arrive 1 (startRequest user session 2)) g
      = some (g.setStage 1 (startRequest user session 2) .handle) := by
    show (if (g.threads 1).isNone then _ else _) = _
    rw [hthread]
    rfl
  have hadvance := Store.step_advance (Store.setStage_threads_self g 1
    (startRequest user session 2) .handle) ⟨true, true, false, 0⟩
  have hhandle := @handleStage_startRequest
    (g.setStage 1 (startRequest user session 2) .handle) user session hseen
  refine ⟨(g.setStage 1 (startRequest user session 2) .handle).setStage 1
      (startRequest user session 2) (.removeOld session 2),
    ?_, htransaction, hconn, Store.setStage_threads_self _ _ _ _⟩
  rw [Runs.run_append, hrun]
  show Runs.run Store.step (comes user session) g = _
  rw [comes, Runs.run_cons harrive]
  refine Runs.run_cons (hadvance.trans ?_) []
  rw [← hhandle]
  rfl

theorem not_isolatedRun_of_shared (hne : user ≠ some owner) (session : Bytes) :
    ¬ IsolatedRun (starts owner session ++ comes user session
      ++ [.advance 1 ⟨true, true, false, 0⟩]) := by
  intro hisolated
  obtain ⟨g, hrun, htransaction, hconn, hthread⟩ := run_starts_comes owner user session
  have hstep : Store.step (.advance 1 ⟨true, true, false, 0⟩) g
      = some (g.removeOld 1 (startRequest user session 2) session 2 ⟨true, true, false, 0⟩) :=
    Store.step_advance hthread _
  have hremoved : (g.removeOld 1 (startRequest user session 2) session 2
      ⟨true, true, false, 0⟩).transactions session = none := by
    unfold Store.removeOld
    rw [htransaction]
    exact update_self _ _ _
  have hends : g.Ends (g.removeOld 1 (startRequest user session 2) session 2
      ⟨true, true, false, 0⟩) 0 := by
    refine Or.inl ⟨session, ⟨1, 0⟩, htransaction, rfl, ?_⟩
    rw [hremoved]
    nofun
  have hactor : g.actor (.advance 1 ⟨true, true, false, 0⟩)
      = some (startRequest user session 2) := by
    show (g.threads 1).map Thread.request = _
    rw [hthread]
    rfl
  exact hne ((hisolated _ _ [] g _ rfl hrun hstep).ends hactor hconn hends)

/-- Clients that keep to certain sessions never interfere, in any interleaving,
exactly if no session is used both by a user and by somebody else. -/
theorem isolatedRun_iff :
    (∀ actions : List Action, (∀ action ∈ actions, action.Obeys uses) → IsolatedRun actions)
    ↔ ∀ session owner user, uses (some owner) session → uses user session → user = some owner := by
  constructor
  · intro hisolated session owner user howner huser
    by_contra hne
    refine not_isolatedRun_of_shared hne session (hisolated _ ?_)
    intro action haction i request harrive
    subst harrive
    simp only [starts, comes, cons_append, nil_append, mem_cons, Action.arrive.injEq,
      reduceCtorEq, not_mem_nil, or_false, false_or] at haction
    rcases haction with ⟨-, rfl⟩ | ⟨-, rfl⟩
    · exact startRequest_obeys 1 howner
    · exact startRequest_obeys 2 huser
  · intro hapart actions hobeys
    exact isolatedRun_of_apart hapart hobeys

/-- A `find` of another user, in the transaction of the session. -/
def continues (user : Str) (session : Bytes) : List Action :=
  [.arrive 1
    { user := some user
      requestType := .find
      db := some "shop".toList
      transactionInfo := some (session, ⟨1, false, false⟩)
      letThrough := nofun },
    .advance 1 ⟨true, true, false, 0⟩, .pull 1 ⟨true, true, false, 1⟩,
    .execute 1 false]

/-- A `hello` of a client that is not authenticated takes the transaction of
`alice` out of the store and rolls it back; a `find` of `bob` is executed on the
connection of `alice`. -/
theorem another_client_has_transaction :
    (Runs.run Store.step (starts "alice".toList [1]) {}).map (fun g => g.transactions [1])
      = some (some ⟨1, 0⟩) ∧ (Runs.run Store.step (starts "alice".toList [1] ++ comes none [1]
        ++ [.advance 1 ⟨true, true, false, 0⟩]) {}).map
          (fun g => (g.transactions [1], g.connections 0))
      = some (none, some ⟨"alice".toList, some ([1], 1), false, .pool, [], false⟩)
    ∧ (Runs.run Store.step (starts "alice".toList [1]
        ++ continues "bob".toList [1]) {}).map
          (fun g => g.statements.map fun s => (s.user, s.connection.user))
      = some [(some "bob".toList, "alice".toList)]
    ∧ ¬ IsolatedRun (starts "alice".toList [1] ++ comes none [1]
        ++ [.advance 1 ⟨true, true, false, 0⟩]) :=
  ⟨rfl, rfl, rfl, not_isolatedRun_of_shared (some_ne_none _).symm [1]⟩

end DocumentDb.Gateway
