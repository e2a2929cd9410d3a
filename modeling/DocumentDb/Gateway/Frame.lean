/-
What the requests of the gateway can change.

A step of a request changes the maps of the store at most at one session, which is
one of those that the request acts on, and ends no transaction but the one that is
there (`ChangedAt`). It does so only if there is a transaction in the store, or if
the request has started one itself (`step_effect`).
-/
import DocumentDb.Gateway.Ownership

namespace DocumentDb.Gateway

open List Function

-- ==== what changes

namespace Store

/-- The maps are as before, and no transaction was ended. -/
structure Unchanged (g g' : Store) : Prop where
  transactions : g'.transactions = g.transactions
  lastSeen : g'.lastSeenTransactions = g.lastSeenTransactions
  isOpen : ∀ {c}, (g.Has c fun conn => conn.isOpen = true) → g'.Has c fun conn => conn.isOpen = true

/-- The maps differ at most at one session, and no transaction was ended but the
one that was there. -/
structure ChangedAt (session : Bytes) (g g' : Store) : Prop where
  transactions : ∀ s ≠ session, g'.transactions s = g.transactions s
  lastSeen : ∀ s ≠ session, g'.lastSeenTransactions s = g.lastSeenTransactions s
  isOpen : ∀ {c}, (∀ transaction, g.transactions session = some transaction →
      transaction.connection ≠ c) →
    (g.Has c fun conn => conn.isOpen = true) → g'.Has c fun conn => conn.isOpen = true

variable {g g' : Store} {session : Bytes}

theorem Unchanged.refl (g : Store) : g.Unchanged g := ⟨rfl, rfl, id⟩

theorem Unchanged.setStage (h : g.Unchanged g') (i : Nat)
    (request : GatewayRequest) (stage : Stage) : g.Unchanged (g'.setStage i request stage) :=
  ⟨h.transactions, h.lastSeen, h.isOpen⟩

theorem Unchanged.openConnection {user : Str} {c : Nat} (htake : g.canTake user c)
    (conn : PgConnection) : g.Unchanged (g.openConnection c conn) := by
  refine ⟨rfl, rfl, fun {c'} hopen => hopen.openConnection ?_ conn⟩
  rintro rfl
  obtain ⟨conn, hconn, hopen⟩ := hopen
  unfold canTake at htake
  rw [hconn, Option.all_some, decide_eq_true_eq] at htake
  exact absurd (htake.2.2.1.symm.trans hopen) Bool.false_ne_true

/-- Who has a connection makes no difference to the maps. -/
theorem Unchanged.modifyConnection (h : g.Unchanged g') {f : PgConnection → PgConnection}
    (hf : ∀ conn, (f conn).isOpen = conn.isOpen) (c : Nat) :
    g.Unchanged (g'.modifyConnection c f) := by
  refine ⟨h.transactions, h.lastSeen, fun hopen => (h.isOpen hopen).modify (fun conn hconn => ?_) c⟩
  rw [hf]
  exact hconn

namespace ChangedAt

theorem refl (session : Bytes) (g : Store) : ChangedAt session g g :=
  ⟨fun _ _ => rfl, fun _ _ => rfl, fun _ hopen => hopen⟩

theorem remove {txn : Transaction}
    (htransaction : g.transactions session = some txn) (f : PgConnection → PgConnection) :
    ChangedAt session g ((g.remove session).modifyConnection txn.connection f) where
  transactions s hs := transactions_remove_ne hs
  lastSeen _ _ := rfl
  isOpen hne hopen := by
    have hne := hne txn htransaction
    exact Has.modify_ne (g := g.remove session) hopen hne.symm f

variable (h : ChangedAt session g g')

include h

theorem setStage (i : Nat) (request : GatewayRequest) (stage : Stage) :
    ChangedAt session g (g'.setStage i request stage) :=
  ⟨h.transactions, h.lastSeen, h.isOpen⟩

theorem modifyConnection {f : PgConnection → PgConnection}
    (hf : ∀ conn, (f conn).isOpen = conn.isOpen) (c : Nat) :
    ChangedAt session g (g'.modifyConnection c f) where
  transactions := h.transactions
  lastSeen := h.lastSeen
  isOpen hne hopen := by
    refine (h.isOpen hne hopen).modify (fun conn hconn => ?_) c
    rw [hf]
    exact hconn

theorem setEntry (entry : Option Transaction) : ChangedAt session g { g' with
      transactions := Function.update g'.transactions session entry } where
  transactions s hs := (update_of_ne hs _ _).trans (h.transactions s hs)
  lastSeen := h.lastSeen
  isOpen := h.isOpen

theorem setLastSeen (seen : Option (Int64 × TransactionState)) : ChangedAt session g { g' with
      lastSeenTransactions :=
        Function.update g'.lastSeenTransactions session seen } where
  transactions := h.transactions
  lastSeen s hs := (update_of_ne hs _ _).trans (h.lastSeen s hs)
  isOpen := h.isOpen

end ChangedAt

end Store

-- ==== a step

/-- What a step of a request may do: nothing to the maps, or something at one of
the sessions it is about. That needs a transaction in the store, or one that the
request has started. -/
def Store.Effect (g g' : Store) (thread : Thread) : Prop :=
  g.Unchanged g' ∨ ∃ session ∈ thread.stage.sessions,
    Store.ChangedAt session g g' ∧ ((g.transactions session).isSome ∨ thread.stage.held.isSome)

namespace Store

variable {g g' : Store} {session : Bytes} {i : Nat} {request : GatewayRequest}

theorem endTransaction_changedAt {txn : Transaction}
    (htransaction : g.transactions session = some txn) (pg : PgAnswer) :
    ChangedAt session g ((g.remove session).endTransaction txn pg) := by
  unfold endTransaction
  split
  · exact .remove htransaction _
  · exact .remove htransaction _

theorem complete_effect (state : TransactionState) (missing : String)
    (g : Store) (session : Bytes) (pg : PgAnswer) :
    g.Unchanged (complete state missing g session pg).2
      ∨ ChangedAt session g (complete state missing g session pg).2
        ∧ (g.transactions session).isSome := by
  unfold complete
  cases htransaction : g.transactions session with
  | none => exact Or.inl (.refl g)
  | some txn =>
    have hended := endTransaction_changedAt htransaction pg
    refine Or.inr ⟨?_, rfl⟩
    dsimp only
    split
    · exact hended.setLastSeen _
    · exact hended

theorem removeOld_effect (g : Store) (i : Nat) (request : GatewayRequest)
    (session : Bytes) (number : Int64) (pg : PgAnswer) :
    g.Effect (g.removeOld i request session number pg) ⟨request, .removeOld session number⟩ := by
  unfold removeOld
  cases hold : g.transactions session with
  | none => exact Or.inl ((Unchanged.refl g).setStage _ _ _)
  | some old =>
    refine Or.inr ⟨session, mem_singleton_self _, ?_, Or.inl ?_⟩
    · dsimp only
      split
      · exact (ChangedAt.remove hold _).setStage _ _ _
      · exact (endTransaction_changedAt hold pg).setStage _ _ _
    · rw [hold]
      rfl

variable {pg : PgAnswer} {txn : Option (Bytes × Int64)}

theorem startTransaction_unchanged {number : Int64}
    (hstep : g.startTransaction i request session number pg = some g') : g.Unchanged g' := by
  unfold startTransaction at hstep
  split at hstep
  · cases hstep
    exact (Unchanged.refl g).setStage _ _ _
  · split at hstep
    · split at hstep
      · rename_i htake
        cases hstep
        exact (Unchanged.openConnection htake _).setStage _ _ _
      · cases hstep
    · cases hstep
      exact (Unchanged.refl g).setStage _ _ _

theorem insertTransaction_changedAt (g : Store) (i : Nat)
    (request : GatewayRequest) (session : Bytes) (number : Int64) (c : Nat) :
    ChangedAt session g (g.insertTransaction i request session number c) := by
  unfold insertTransaction
  refine ChangedAt.setEntry ?_ _
  refine ChangedAt.modifyConnection ?_ ?_ c
  case refine_2 => exact fun _ => rfl
  cases hold : g.transactions session with
  | none => exact (ChangedAt.refl session g).setStage _ _ _
  | some old => exact (ChangedAt.remove hold _).setStage _ _ _

theorem Effect.complete {stage : Stage} (hsession : session ∈ stage.sessions)
    (state : TransactionState) (missing : String) (pg : PgAnswer) (next : Stage) :
    g.Effect ((Store.complete state missing g session pg).2.setStage i request
      next) ⟨request, stage⟩ := by
  rcases complete_effect state missing g session pg with hsame | ⟨hat, hsome⟩
  · exact Or.inl (hsame.setStage _ _ _)
  · exact Or.inr ⟨session, hsession, hat.setStage _ _ _, Or.inl hsome⟩

theorem completeCommand_eq (i : Nat) (request : GatewayRequest)
    (txn : Option (Bytes × Int64)) (pg : PgAnswer) (ended : Except DocumentDBError Unit × Store) :
    ∃ next, completeCommand i request txn pg ended = ended.2.setStage i request next := by
  unfold completeCommand
  split
  · exact ⟨_, rfl⟩
  · exact ⟨_, rfl⟩

theorem advanceRun_effect (hstep : g.advance i request pg (.run txn) = some g') :
    g.Effect g' ⟨request, .run txn⟩ := by
  unfold advance at hstep
  dsimp only at hstep
  split at hstep
  case h_1 | h_3 =>
    cases hstep
    exact Or.inl ((Unchanged.refl g).setStage _ _ _)
  case h_2 session number _ | h_4 session number _ =>
    cases hstep
    obtain ⟨next, hnext⟩ := completeCommand_eq i request (some (session, number)) pg _
    rw [hnext]
    exact Effect.complete (mem_singleton_self _) _ _ pg next
  case h_5 => cases hstep

theorem advance_effect {stage : Stage} (hstep : g.advance i request pg stage = some g') :
    g.Effect g' ⟨request, stage⟩ := by
  cases stage with
  | handle | readLastSeen _ _ =>
    cases hstep
    exact Or.inl ((Unchanged.refl g).setStage _ _ _)
  | removeOld session number =>
    cases hstep
    exact removeOld_effect g i request session number pg
  | start session number => exact Or.inl (startTransaction_unchanged hstep)
  | insertLastSeen session number c =>
    cases hstep
    refine Or.inr ⟨session, mem_singleton_self _, ?_, Or.inr rfl⟩
    exact ((ChangedAt.refl session g).setLastSeen _).setStage _ _ _
  | insert session number c =>
    cases hstep
    exact Or.inr ⟨session, mem_singleton_self _,
      insertTransaction_changedAt g i request session number c, Or.inr rfl⟩
  | run txn => exact advanceRun_effect hstep
  | pulled txn found c => cases hstep
  | endSessions rest =>
    cases rest with
    | nil =>
      cases hstep
      exact Or.inl ((Unchanged.refl g).setStage _ _ _)
    | cons session rest =>
      cases hstep
      exact Effect.complete mem_cons_self _ _ pg _
  | abortFailed session error =>
    have hcomplete := fun next => @Effect.complete g session i request
      (.abortFailed session error) (mem_singleton_self _) .aborted
      "No such transaction to abort" pg next
    unfold advance at hstep
    dsimp only at hstep
    split at hstep
    all_goals
      rename_i heq
      cases hstep
      rw [abort] at heq
      rw [heq] at hcomplete
      exact hcomplete _
  | done result => cases hstep

theorem pullConnection_unchanged (hstep : g.pullConnection i request txn pg = some g') :
    g.Unchanged g' := by
  unfold pullConnection at hstep
  split at hstep
  · cases hstep
    refine Unchanged.setStage ((Unchanged.refl g).modifyConnection ?_ _) _ _ _
    exact fun _ => rfl
  · split at hstep
    · cases hstep
    · split at hstep
      · rename_i htake
        cases hstep
        exact (Unchanged.openConnection htake _).setStage _ _ _
      · cases hstep

theorem execute_unchanged {throughPull keepsCursor : Bool} {found : Option Transaction} {c : Nat}
    (hstep : g.execute i request txn throughPull found c keepsCursor = some g') :
    g.Unchanged g' := by
  unfold execute at hstep
  split at hstep
  · cases hstep
  · cases keepsCursor with
    | false =>
      cases hstep
      exact ⟨rfl, rfl, id⟩
    | true =>
      cases hstep
      have hkept := (Unchanged.refl g).modifyConnection
        (f := fun conn => { conn with hasCursor := true }) (fun _ => rfl) c
      exact ⟨rfl, rfl, hkept.isOpen⟩

theorem release_unchanged (g : Store) (i : Nat) (request : GatewayRequest)
    (txn : Option (Bytes × Int64)) (c : Nat) : g.Unchanged (g.release i request txn c) := by
  refine Unchanged.setStage ((Unchanged.refl g).modifyConnection ?_ c) _ _ _
  exact fun _ => rfl

theorem step_effect {action : Action} (hstep : step action g = some g')
    (hthread : action.thread = some i) :
    g.Unchanged g' ∨ ∃ thread, g.threads i = some thread ∧ g.Effect g' thread := by
  cases action with
  | arrive j request =>
    obtain ⟨-, rfl⟩ := of_step_arrive hstep
    exact Or.inl ((Unchanged.refl g).setStage _ _ _)
  | advance j pg =>
    cases hthread
    obtain ⟨request, stage, hstage, hadvance⟩ := of_step_advance hstep
    exact Or.inr ⟨_, hstage, advance_effect hadvance⟩
  | pull j pg =>
    obtain ⟨request, txn, -, -, hpull⟩ := of_step_pull hstep
    exact Or.inl (pullConnection_unchanged hpull)
  | execute j keepsCursor =>
    obtain ⟨request, txn, found, c, -, hexecute⟩ := of_step_execute hstep
    exact Or.inl (execute_unchanged hexecute)
  | release j =>
    obtain ⟨request, txn, found, c, -, rfl⟩ := of_step_release hstep
    exact Or.inl (release_unchanged g j request txn c)
  | getMore j c =>
    obtain ⟨request, txn, user, -, -, -, hexecute⟩ := of_step_getMore hstep
    exact Or.inl (execute_unchanged hexecute)
  | finish j result timedOut =>
    obtain ⟨request, txn, -, rfl⟩ := of_step_finish hstep
    exact Or.inl ((Unchanged.refl g).setStage _ _ _)
  | closeCursors c | reap expired | rollback c => cases hthread

end Store

end DocumentDb.Gateway
