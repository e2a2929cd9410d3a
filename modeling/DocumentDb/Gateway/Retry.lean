/-
The retry loop of `process_request`: a request is attempted again when the error
of the last attempt is one that `retry_policy` takes for transient.

Whether PostgreSQL committed an attempt that failed is part of the attempt, as
the error alone does not tell.
-/
import DocumentDb.Gateway.Request
import Mathlib.Data.Nat.SuccPred

namespace DocumentDb.Gateway

-- ==== the policy

/-- The codes that `retry_policy` names. -/
inductive SqlState where
  | adminShutdown | readOnlySqlTransaction | connectionFailure
  | invalidAuthorizationSpecification | deadlockDetected | other
  deriving DecidableEq, Repr

/-- `tokio_postgres::Error`: whether the connection was closed, and the code
that the server sent. -/
structure PgError where
  isClosed : Bool
  code : Option SqlState
  deriving DecidableEq, Repr

/-- What an attempt fails with. -/
inductive AttemptError where
  | postgresError (error : PgError)
  | poolPostCreateHook (error : PgError)
  | poolBackend (error : PgError)
  | other
  deriving DecidableEq, Repr

inductive Retry where
  | long | short | none
  deriving DecidableEq, Repr

def retryPolicy (isReplicaCluster : Bool) (error : PgError) (requestType : RequestType) : Retry :=
  if error.isClosed then .short
  else match error.code with
    | some .adminShutdown => .short
    | some .readOnlySqlTransaction => if isReplicaCluster then .none else .long
    | some .connectionFailure => .long
    | some .invalidAuthorizationSpecification => .long
    | some .deadlockDetected => if requestType = .update then .long else .none
    | _ => .none

-- ==== the loop

/-- The errors that come from before a commit: a connection that could not be
made, and a statement that the server has refused or rolled back. -/
def AttemptError.precedesCommit : AttemptError → Bool
  | .poolPostCreateHook _ | .poolBackend _ => true
  | .postgresError e => !e.isClosed && (e.code = some .readOnlySqlTransaction ||
      e.code = some .invalidAuthorizationSpecification || e.code = some .deadlockDetected)
  | .other => false

structure Attempt where
  /-- `none` is a response. -/
  error : Option AttemptError
  /-- PostgreSQL committed what the attempt did. -/
  committed : Bool
  /-- `start_time.elapsed()` is over the command timeout. -/
  timedOut : Bool
  isReplicaCluster : Bool
  committed_of_response : error = none → committed = true
  not_committed : ∀ e, error = some e → e.precedesCommit = true → committed = false

def Attempt.retry (requestType : RequestType) (a : Attempt) : Retry :=
  if a.error.isNone || a.timedOut then .none
  else match a.error with
    | some (.postgresError e) | some (.poolPostCreateHook e) | some (.poolBackend e) =>
      retryPolicy a.isReplicaCluster e requestType
    | _ => .none

variable {S : Type}

/-- The loop of `process_request`, run on the attempts as they turn out: the
state that they leave, and what the last of them answers. There is no answer
while the loop still runs. -/
def processRequest (requestType : RequestType) (effect : S → S) :
    List Attempt → S → S × Option (Option AttemptError)
  | [], s => (s, none)
  | a :: rest, s =>
    let s := if a.committed then effect s else s
    if a.retry requestType = .none then (s, some a.error)
    else processRequest requestType effect rest s

/-- The attempts up to the first one that is not followed by another. -/
def attemptsMade (requestType : RequestType) : List Attempt → List Attempt
  | [] => []
  | a :: rest => a :: if a.retry requestType = .none then [] else attemptsMade requestType rest

/-- The state is that of as many effects as there are committed attempts among
those that the loop makes. -/
theorem processRequest_state (type : RequestType) (effect : S → S)
    (attempts : List Attempt) (s : S) : (processRequest type effect attempts s).1 =
      effect^[(attemptsMade type attempts).countP (·.committed)] s := by
  induction attempts generalizing s with
  | nil => rfl
  | cons a rest ih =>
    rw [processRequest, attemptsMade, List.countP_cons, Function.iterate_add_apply]
    have hhead : effect^[if a.committed = true then 1 else 0] s =
        if a.committed then effect s else s := by
      split <;> rfl
    rw [hhead]
    by_cases hstop : a.retry type = .none
    · simp [hstop]
    · simp only [hstop, if_false]
      exact ih _

-- ==== the errors after which a request is sent again

/-- The errors of a connection that is lost, which may come before the commit
and after it. -/
def PgError.IsConnectionLoss (e : PgError) : Prop :=
  e.isClosed = true ∨ e.code = some .adminShutdown ∨ e.code = some .connectionFailure

/-- The errors of the server that are taken for transient, which all come from
before the commit. -/
def PgError.IsTransientRefusal (e : PgError) (isReplicaCluster : Bool)
    (requestType : RequestType) : Prop :=
  e.code = some .invalidAuthorizationSpecification
    ∨ e.code = some .readOnlySqlTransaction ∧ isReplicaCluster = false
    ∨ e.code = some .deadlockDetected ∧ requestType = .update

/-- The attempt fails in time, in PostgreSQL or in the pool, with an error of one
of the two kinds. -/
def Attempt.IsRepeated (requestType : RequestType) (a : Attempt) : Prop :=
  a.timedOut = false ∧ ∃ e,
    (a.error = some (.postgresError e) ∨ a.error = some (.poolPostCreateHook e)
      ∨ a.error = some (.poolBackend e))
    ∧ (e.IsConnectionLoss ∨ e.IsTransientRefusal a.isReplicaCluster requestType)

/-- The answer to the attempt is lost in time, with its connection. -/
def Attempt.LosesAnswer (a : Attempt) : Prop :=
  a.timedOut = false ∧ ∃ e, a.error = some (.postgresError e) ∧ e.IsConnectionLoss

/-- `retryPolicy` retries the errors of the two kinds and no others. -/
theorem retryPolicy_ne_none_iff (isReplicaCluster : Bool) (e : PgError)
    (requestType : RequestType) : retryPolicy isReplicaCluster e requestType ≠ .none ↔
      e.IsConnectionLoss ∨ e.IsTransientRefusal isReplicaCluster requestType := by
  obtain ⟨isClosed, code⟩ := e
  unfold retryPolicy PgError.IsConnectionLoss PgError.IsTransientRefusal
  cases isClosed
  · rcases code with _ | _ | _ | _ | _ | _ | _ <;> simp
  · simp

/-- The loop goes on after the repeated attempts and after no others. -/
theorem Attempt.retry_ne_none_iff (requestType : RequestType) (a : Attempt) :
    a.retry requestType ≠ .none ↔ a.IsRepeated requestType := by
  unfold Attempt.retry Attempt.IsRepeated
  rcases a.timedOut with _ | _
  · rcases a.error with _ | (e | e | e | _) <;> simp [← retryPolicy_ne_none_iff]
  · simp

/-- Of the attempts that are committed, those are repeated whose answer is lost. -/
theorem Attempt.isRepeated_iff_losesAnswer {a : Attempt} (hcommitted : a.committed = true)
    (requestType : RequestType) : a.IsRepeated requestType ↔ a.LosesAnswer := by
  have hlate : ∀ e, a.error = some e → e.precedesCommit = false := by
    intro e he
    by_contra hprecedes
    simp [a.not_committed e he (by simpa using hprecedes)] at hcommitted
  constructor
  · rintro ⟨htime, e, hpostgres | hhook | hbackend, hkind⟩
    · refine ⟨htime, e, hpostgres, ?_⟩
      have hlate := hlate _ hpostgres
      unfold PgError.IsConnectionLoss PgError.IsTransientRefusal at *
      unfold AttemptError.precedesCommit at hlate
      grind
    · simpa [AttemptError.precedesCommit] using hlate _ hhook
    · simpa [AttemptError.precedesCommit] using hlate _ hbackend
  · rintro ⟨htime, e, herror, hloss⟩
    exact ⟨htime, e, Or.inl herror, Or.inl hloss⟩

-- ==== how often a request takes effect

/-- The loop makes all the attempts up to the first that is not repeated. -/
theorem attemptsMade_append {requestType : RequestType} {first : List Attempt}
    (hfirst : ∀ a ∈ first, a.IsRepeated requestType) (rest : List Attempt) :
    attemptsMade requestType (first ++ rest) = first ++ attemptsMade requestType rest := by
  induction first with
  | nil => rfl
  | cons a first ih =>
    obtain ⟨ha, hfirst⟩ := List.forall_mem_cons.1 hfirst
    rw [List.cons_append, attemptsMade, if_neg ((a.retry_ne_none_iff _).2 ha), ih hfirst,
      List.cons_append]

/-- None is committed if none is that is reached through repeated attempts only. -/
theorem countP_committed_eq_zero {requestType : RequestType} {attempts : List Attempt}
    (hnone : ∀ first a rest, attempts = first ++ a :: rest →
      (∀ c ∈ first, c.IsRepeated requestType) → a.committed = false) :
    (attemptsMade requestType attempts).countP (·.committed) = 0 := by
  induction attempts with
  | nil => rfl
  | cons a rest ih =>
    have ha : a.committed = false := hnone [] a rest rfl (by simp)
    rw [attemptsMade, List.countP_cons_of_neg (by simp [ha])]
    split
    · rfl
    · rename_i hgoes
      apply ih
      intro first b rest' hrest hfirst
      apply hnone (a :: first) b rest' (by rw [hrest, List.cons_append])
      exact List.forall_mem_cons.2 ⟨(a.retry_ne_none_iff _).1 hgoes, hfirst⟩

/-- No commit follows a commit whose answer is lost, as far as the loop goes. -/
def NoneAfterLostAnswer (requestType : RequestType) (attempts : List Attempt) : Prop :=
  ∀ first a between b rest, attempts = first ++ a :: (between ++ b :: rest) →
    (∀ c ∈ first ++ between, c.IsRepeated requestType) →
    a.committed = true → a.LosesAnswer → b.committed = false

/-- Without such a pair at most one of the attempts made is committed. -/
theorem countP_committed_le_one {requestType : RequestType} {attempts : List Attempt}
    (hnone : NoneAfterLostAnswer requestType attempts) :
    (attemptsMade requestType attempts).countP (·.committed) ≤ 1 := by
  induction attempts with
  | nil => exact Nat.zero_le _
  | cons a rest ih =>
    rw [attemptsMade, List.countP_cons]
    by_cases hstop : a.retry requestType = .none
    · rw [if_pos hstop, List.countP_nil]
      split <;> omega
    have ha := (a.retry_ne_none_iff _).1 hstop
    rw [if_neg hstop]
    by_cases hcommitted : a.committed = true
    · have hzero : (attemptsMade requestType rest).countP (·.committed) = 0 := by
        apply countP_committed_eq_zero
        intro between b rest' hrest hbetween
        exact hnone [] a between b rest' (by rw [hrest, List.nil_append]) hbetween hcommitted
          ((Attempt.isRepeated_iff_losesAnswer hcommitted _).1 ha)
      rw [hzero, if_pos hcommitted]
    · rw [if_neg hcommitted]
      apply ih
      intro first b between c rest' hrest hrepeated
      apply hnone (a :: first) b between c rest' (by rw [hrest, List.cons_append])
      exact List.forall_mem_cons.2 ⟨ha, hrepeated⟩

/-- A request takes effect at most once, whatever its effect is, exactly if no
attempt is committed after one that was committed and whose answer was lost with
its connection, where only repeated attempts are before and between them. -/
theorem effect_at_most_once_iff (requestType : RequestType) (attempts : List Attempt) :
    (∀ (S : Type) (effect : S → S) (s : S), (processRequest requestType effect attempts s).1 = s ∨
      (processRequest requestType effect attempts s).1 = effect s) ↔
    NoneAfterLostAnswer requestType attempts := by
  simp only [processRequest_state]
  constructor
  · -- counting the applications is an effect too
    intro h first a between b rest hattempts hrepeated ha hlost
    have hcount := h Nat Nat.succ 0
    obtain ⟨hfirst, hbetween⟩ := List.forall_mem_append.1 hrepeated
    have hmade : ∀ c ∈ first ++ a :: between, c.IsRepeated requestType := by
      rw [List.forall_mem_append, List.forall_mem_cons]
      exact ⟨hfirst, (Attempt.isRepeated_iff_losesAnswer ha _).2 hlost, hbetween⟩
    rw [Nat.succ_iterate, hattempts, ← List.cons_append, ← List.append_assoc,
      attemptsMade_append hmade, attemptsMade, List.countP_append, List.countP_append,
      List.countP_cons_of_pos ha] at hcount
    by_contra hb
    rw [List.countP_cons_of_pos (by simpa using hb)] at hcount
    omega
  · intro hnone S effect s
    rcases Nat.le_one_iff_eq_zero_or_eq_one.1 (countP_committed_le_one hnone) with hzero | hone
    · rw [hzero]
      exact Or.inl rfl
    · rw [hone]
      exact Or.inr rfl

/-- An insert whose connection is closed after the commit is sent again, and is
then applied twice. -/
theorem insert_applied_twice : let closed : Attempt :=
      ⟨some (.postgresError ⟨true, none⟩), true, false, false, by simp, by
        simp [AttemptError.precedesCommit]⟩
    let done : Attempt := ⟨none, true, false, false, fun _ => rfl, by simp⟩
    ¬∀ (S : Type) (effect : S → S) (s : S), (processRequest .insert effect [closed, done] s).1 = s ∨
      (processRequest .insert effect [closed, done] s).1 = effect s := by
  intro closed done h
  have htwice : (processRequest .insert Nat.succ [closed, done] 0).1 = 2 := by decide
  have hcases := h Nat Nat.succ 0
  rw [htwice] at hcases
  omega

end DocumentDb.Gateway
