/-
Who a connection of the gateway acts as.

`saslStart` names a user and gets a nonce, `saslContinue` brings a proof. The name of the
first is the one whose pool runs the commands; the second sets that the connection is
authorized. Nothing ties the two together (`Handshake`): a `saslStart` does not take the
authorization back, and a `saslContinue` may name another user than the `saslStart` before
it.
-/
import DocumentDb.Gateway.Request
import DocumentDb.Lib.Except

namespace DocumentDb.Gateway

open List Option

-- ==== the state

/-- The text of a string. -/
abbrev Str := List Char

structure ScramFirstState where
  nonce : Str
  firstMessageBare : Str
  firstMessage : Str
  deriving DecidableEq

structure AuthState where
  authorized : Bool := false
  firstState : Option ScramFirstState := none
  username : Option Str := none
  password : Option Str := none
  userOid : Option UInt32 := none
  deriving DecidableEq

/-- The calls that an authentication makes, and the pool of a user. -/
inductive AuthCall where
  | saltAndIterations | authenticateWithScramSha256 | userOid | dataPool
  deriving DecidableEq

/-- The setup of the gateway and the users of the database. A proof is made with
the key of a user for a message. -/
structure AuthService where
  blockedRolePrefixes : List Str
  toLowercase : Str → Str
  Key : Type
  key : Str → Option Key
  proof : Key → Str → Str
  serverSignature : Key → Str → Str
  saltAndIterations : Str → Option (Str × Int32)
  oid : Str → Option UInt32
  oid_unique : ∀ {u v o}, oid u = some o → oid v = some o → u = v

/-- The `payload` of a request. -/
inductive SaslPayload where
  | missing
  | notUtf8
  | text (payload : Str)
  deriving DecidableEq

/-- What a request to sign in is answered with. -/
inductive Response where
  | sasl (payload : Str) (done : Bool)
  | ok
  | command
  deriving DecidableEq

/-- A request, with what is decided outside of the gateway: the random part of
the nonce, the calls that fail, and what the command itself returns. -/
structure AuthRequest where
  requestType : RequestType
  mechanism : Option Str := none
  payload : SaslPayload := .missing
  serverNonce : Str := []
  fails : AuthCall → Option DocumentDBError := fun _ => none
  result : Except DocumentDBError Response := .ok .command

/-- What happened in a request: a proof was accepted for a user, the user logged
out, or a command ran with the pool of a user and with an oid. -/
inductive AuthEvent where
  | accepted (username : Str)
  | loggedOut
  | ran (username : Str) (userOid : Option UInt32)
  deriving DecidableEq

/-- The answer to a request, the state behind it, and what happened. -/
structure Answer where
  result : Except DocumentDBError Response
  state : AuthState
  event : Option AuthEvent := none

-- ==== the payload

structure ScramPayload where
  username : Option Str := none
  nonce : Option Str := none
  proof : Option Str := none
  channelBinding : Option Str := none

def ScramPayload.read (payload : ScramPayload) (value : Str) :
    Except DocumentDBError ScramPayload :=
  if '=' ∈ value then
    let k := value.takeWhile (· ≠ '=')
    let v := (value.dropWhile (· ≠ '=')).tail
    if k = ['n'] then .ok { payload with username := some v }
    else if k = ['r'] then .ok { payload with nonce := some v }
    else if k = ['p'] then .ok { payload with proof := some v }
    else if k = ['c'] then .ok { payload with channelBinding := some v }
    else .error (.unauthorized "Sasl payload was invalid.")
  else .error .saslPayloadInvalid

def stripHeader : Str → Except DocumentDBError Str
  | 'n' :: ',' :: ',' :: payload => .ok payload
  | 'p' :: ',' :: ',' :: payload => .ok payload
  | 'y' :: ',' :: ',' :: payload => .ok payload
  | _ => .error .saslPayloadInvalid

def parseSaslPayload (payload : SaslPayload) (withHeader : Bool) :
    Except DocumentDBError ScramPayload :=
  match payload with
  | .missing => .error .parseFailure
  | .notUtf8 =>
    .error (.badValue "Sasl payload couldn't be converted to utf-8: ")
  | .text payload => do
    let payload ← if withHeader then stripHeader payload else .ok payload
    (payload.splitOn ',').foldlM ScramPayload.read {}

-- ==== saslStart

namespace AuthService

variable (svc : AuthService)

def isBlocked (username : Str) : Bool :=
  svc.blockedRolePrefixes.any fun blocked =>
    (svc.toLowercase blocked).isPrefixOf (svc.toLowercase username)

def getSaltAndIteration (request : AuthRequest)
    (username : Str) : Except DocumentDBError (Str × Int32) :=
  if svc.isBlocked username then .error (.unauthorized "Username is invalid.")
  else
    match request.fails .saltAndIterations with
    | some error => .error error
    | none => okOr (.documentDB .authenticationFailed
        "Invalid account: User details not found in the database")
        (svc.saltAndIterations username)

/-- What `handle_sasl_start` puts into the state: the messages and the name. -/
def startHandshake (request : AuthRequest) : Except DocumentDBError (ScramFirstState × Str) := do
  let mechanism ← okOr .parseFailure request.mechanism
  if mechanism = "SCRAM-SHA-256".toList then
    let payload ← parseSaslPayload request.payload true
    let username ← okOr (.unauthorized "Username missing from SaslStart.")
      payload.username
    let clientNonce ← okOr (.unauthorized "Nonce missing from SaslStart.")
      payload.nonce
    let nonce := clientNonce ++ request.serverNonce
    let (salt, iterations) ← svc.getSaltAndIteration request username
    .ok (⟨nonce, "n=".toList ++ username ++ ",r=".toList ++ clientNonce,
      "r=".toList ++ nonce ++ ",s=".toList ++ salt ++ ",i=".toList
        ++ (toString iterations.toInt).toList⟩, username)
  else .error (.unauthorized "Only SCRAM-SHA-256 is supported")

-- ==== saslContinue

/-- A proof is accepted if it was made with the key of the user for the message. -/
def authenticateWithScramSha256 (username authMessage proof : Str) : Option Str :=
  (svc.key username).bind fun key =>
    if proof = svc.proof key authMessage then
      some (svc.serverSignature key authMessage)
    else none

variable (request : AuthRequest)

/-- The part of `handle_sasl_continue` up to the answer to the proof: the user it
was checked for, and the signature of the server. -/
def checkProof (firstState : Option ScramFirstState) (username : Option Str) :
    Except DocumentDBError (Str × Str) := do
  let payload ← parseSaslPayload request.payload false
  let firstState ← okOr (.unauthorized
    "Sasl Continue called without SaslStart state.") firstState
  let clientNonce ← okOr (.unauthorized "Nonce missing from SaslContinue.")
    payload.nonce
  let proof ← okOr (.unauthorized "Proof missing from SaslContinue.")
    payload.proof
  let channelBinding ← okOr (.unauthorized
    "Channel binding missing from SaslContinue.") payload.channelBinding
  -- the name is the one of this payload, if it has one
  let username ← okOr (.internalError "Username missing from sasl continue")
    (payload.username.or username)
  if clientNonce = firstState.nonce then
    let authMessage := firstState.firstMessageBare ++ ",".toList
      ++ firstState.firstMessage ++ ",c=".toList ++ channelBinding
      ++ ",r=".toList ++ clientNonce
    match request.fails .authenticateWithScramSha256 with
    | some error => .error error
    | none =>
      let serverSignature ← okOr (.unauthorized "Invalid key")
        (svc.authenticateWithScramSha256 username authMessage proof)
      .ok (username, serverSignature)
  else .error (.unauthorized "Nonce did not match expected nonce.")

def getUserOid (username : Str) : Except DocumentDBError UInt32 :=
  match request.fails .userOid with
  | some error => .error error
  | none => okOr .pgResponseEmpty (svc.oid username)

-- ==== the requests

variable (s : AuthState)

def handleSaslStart : Answer :=
  match svc.startHandshake request with
  | .error error => ⟨.error error, s, none⟩
  | .ok (first, username) =>
    ⟨.ok (.sasl first.firstMessage false),
      { s with firstState := some first, username := some username }, none⟩

def handleSaslContinue : Answer :=
  match svc.checkProof request s.firstState s.username with
  | .error error => ⟨.error error, s, none⟩
  | .ok (username, serverSignature) =>
    -- the password is set before the oid is looked up
    let s := { s with password := some [] }
    match svc.getUserOid request username with
    | .error error => ⟨.error error, s, some (.accepted username)⟩
    | .ok oid =>
      ⟨.ok (.sasl ("v=".toList ++ serverSignature) true),
        { s with userOid := some oid, authorized := true },
        some (.accepted username)⟩

/-- With `handle_auth_request`. -/
def process : Answer :=
  match request.requestType with
  | .saslStart => svc.handleSaslStart request s
  | .saslContinue => svc.handleSaslContinue request s
  | .logout => ⟨.ok .ok, {}, some .loggedOut⟩
  | requestType =>
    if requestType.allowedUnauthorized then ⟨request.result, s, none⟩
    else
      ⟨.error (.unauthorized ("Command " ++ requestType.name.toLower
        ++ " not supported prior to authentication.")), s, none⟩

/-- The user whose pool it is; also for the pool of `new_authorized`. -/
def allocateDataPool : Except DocumentDBError Str := do
  let user ← okOr (.internalError "Username missing") s.username
  let _ ← okOr (.internalError
    "Password is missing on pg connection acquisition") s.password
  match request.fails .dataPool with
  | some error => .error error
  | none => .ok user

def getResponse : Answer :=
  if !s.authorized || request.requestType.handleWithAuth then
    svc.process request s
  else
    match allocateDataPool request s with
    | .error error => ⟨.error error, s, none⟩
    | .ok user => ⟨request.result, s, some (.ran user s.userOid)⟩

def stateAfter (svc : AuthService) (s : AuthState) : List AuthRequest → AuthState
  | [] => s
  | request :: requests =>
    svc.stateAfter (svc.getResponse request s).state requests

def events (svc : AuthService) (s : AuthState) : List AuthRequest → List AuthEvent
  | [] => []
  | request :: requests =>
    (svc.getResponse request s).event.toList
      ++ svc.events (svc.getResponse request s).state requests

end AuthService

-- ==== the handshakes

/-- The users for whom a proof was accepted since the last logout. -/
def provedSince (proved : List Str) : List AuthEvent → List Str
  | [] => proved
  | .accepted username :: events => provedSince (username :: proved) events
  | .loggedOut :: events => provedSince [] events
  | .ran _ _ :: events => provedSince proved events

/-- The last handshake that was started since the last logout, and the user for
whom the last one was completed. -/
structure Handshake where
  started : Option (ScramFirstState × Str) := none
  proved : Option Str := none

namespace AuthService

variable (svc : AuthService)

def nextHandshake (h : Handshake) (request : AuthRequest) : Handshake :=
  match request.requestType with
  | .saslStart =>
    match svc.startHandshake request with
    | .ok start => { h with started := some start }
    | .error _ => h
  | .saslContinue =>
    match svc.checkProof request (h.started.map Prod.fst) (h.started.map Prod.snd) with
    | .ok (username, _) =>
      match svc.getUserOid request username with
      | .ok _ => { h with proved := some username }
      | .error _ => h
    | .error _ => h
  | .logout => {}
  | _ => h

variable (requests : List AuthRequest)

def handshake : Handshake :=
  requests.foldl svc.nextHandshake {}

/-- Whenever a command runs, the name and the oid are those of one user without a
blocked prefix, for whom a proof was accepted since the last logout. -/
def ActsAsProvedUser : Prop :=
  ∀ before username userOid after,
    svc.events {} requests = before ++ .ran username userOid :: after →
    ∃ user, username = user ∧ (∃ oid, userOid = some oid ∧ svc.oid user = some oid)
      ∧ svc.isBlocked user = false ∧ user ∈ provedSince [] before

-- ==== one request

variable {svc : AuthService} {request : AuthRequest} {username : Str} {s : AuthState}
  {h : Handshake} {proved : List Str}

theorem startHandshake_notBlocked {start : ScramFirstState × Str}
    (h : svc.startHandshake request = .ok start) : svc.isBlocked start.2 = false := by
  unfold startHandshake at h
  obtain ⟨mechanism, -, h⟩ := Except.bind_eq_ok h
  by_cases hscram : mechanism = "SCRAM-SHA-256".toList
  · rw [if_pos hscram] at h
    obtain ⟨payload, -, h⟩ := Except.bind_eq_ok h
    obtain ⟨username, -, h⟩ := Except.bind_eq_ok h
    obtain ⟨clientNonce, -, h⟩ := Except.bind_eq_ok h
    obtain ⟨salt, hsalt, h⟩ := Except.bind_eq_ok h
    cases h
    unfold getSaltAndIteration at hsalt
    by_cases hblocked : svc.isBlocked username
    · rw [if_pos hblocked] at hsalt
      cases hsalt
    · exact Bool.eq_false_iff.2 hblocked
  · rw [if_neg hscram] at h
    cases h

theorem checkProof_started
    {firstState : Option ScramFirstState} {username : Option Str} {checked : Str × Str}
    (h : svc.checkProof request firstState username = .ok checked) : firstState.isSome := by
  unfold checkProof at h
  obtain ⟨payload, -, h⟩ := Except.bind_eq_ok h
  obtain ⟨first, hfirst, -⟩ := Except.bind_eq_ok h
  cases firstState with
  | none => cases hfirst
  | some _ => rfl

theorem getUserOid_eq_ok {oid : UInt32} (h : svc.getUserOid request username = .ok oid) :
    svc.oid username = some oid := by
  unfold getUserOid at h
  cases hfails : request.fails .userOid with
  | some error =>
    rw [hfails] at h
    cases h
  | none =>
    rw [hfails] at h
    cases hoid : svc.oid username with
    | none =>
      rw [hoid] at h
      cases h
    | some oid' =>
      rw [hoid] at h
      exact congrArg some (Except.ok.inj h)

structure Agrees (svc : AuthService) (s : AuthState) (h : Handshake)
    (proved : List Str) : Prop where
  firstState : s.firstState = h.started.map Prod.fst
  username : s.username = h.started.map Prod.snd
  authorized : s.authorized = h.proved.isSome
  userOid : ∀ user ∈ h.proved, ∃ oid, s.userOid = some oid ∧ svc.oid user = some oid
  password : h.proved.isSome = true → s.password.isSome = true
  started : h.proved.isSome = true → h.started.isSome = true
  notBlocked : ∀ start ∈ h.started, svc.isBlocked start.2 = false
  accepted : ∀ user ∈ h.proved, user ∈ proved

theorem Agrees.initial (svc : AuthService) (proved : List Str) : Agrees svc {} {} proved where
  firstState := rfl
  username := rfl
  authorized := rfl
  userOid := nofun
  password := nofun
  started := nofun
  notBlocked := nofun
  accepted := nofun

def provedAfter (proved : List Str) (event : Option AuthEvent) : List Str :=
  provedSince proved event.toList

section Step

variable {request : AuthRequest} {s : AuthState} {h : Handshake}
  {proved : List Str} (hagrees : Agrees svc s h proved)

include hagrees

theorem Agrees.saslStart :
    Agrees svc (svc.handleSaslStart request s).state (match svc.startHandshake request with
        | .ok start => { h with started := some start }
        | .error _ => h)
      (provedAfter proved (svc.handleSaslStart request s).event) := by
  unfold handleSaslStart
  cases hstart : svc.startHandshake request with
  | error error => exact hagrees
  | ok start =>
    refine { hagrees with
      firstState := rfl
      username := rfl
      started := fun _ => rfl
      notBlocked := fun start' hstart' => ?_ }
    obtain rfl : start = start' := some.inj hstart'
    exact startHandshake_notBlocked hstart

theorem Agrees.saslContinue : Agrees svc (svc.handleSaslContinue request s).state
      (match svc.checkProof request (h.started.map Prod.fst) (h.started.map Prod.snd) with
        | .ok (username, _) =>
          match svc.getUserOid request username with
          | .ok _ => { h with proved := some username }
          | .error _ => h
        | .error _ => h)
      (provedAfter proved (svc.handleSaslContinue request s).event) := by
  unfold handleSaslContinue
  rw [← hagrees.firstState, ← hagrees.username]
  cases hproof : svc.checkProof request s.firstState s.username with
  | error error => exact hagrees
  | ok checked =>
    obtain ⟨username, serverSignature⟩ := checked
    dsimp only
    cases hoid : svc.getUserOid request username with
    | error error =>
      -- the proof counts, but the oid of the last one stays
      refine { hagrees with password := fun _ => rfl, accepted := ?_ }
      intro user huser
      exact mem_cons_of_mem _ (hagrees.accepted user huser)
    | ok oid =>
      refine { hagrees with
        authorized := rfl
        userOid := ?_
        password := fun _ => rfl
        started := fun _ => ?_
        accepted := ?_ }
      · intro user huser
        obtain rfl : username = user := some.inj huser
        exact ⟨oid, rfl, getUserOid_eq_ok hoid⟩
      · have hstarted := checkProof_started hproof
        rw [hagrees.firstState, isSome_map] at hstarted
        exact hstarted
      · intro user huser
        obtain rfl : username = user := some.inj huser
        exact mem_cons_self

omit hagrees in
theorem process_command (hcommand : request.requestType.handleWithAuth = false) :
    (svc.process request s).state = s ∧ (svc.process request s).event = none
      ∧ svc.nextHandshake h request = h := by
  unfold process nextHandshake
  split
  case h_1 htype | h_2 htype | h_3 htype =>
    rw [htype] at hcommand
    cases hcommand
  case h_4 => exact ⟨by split <;> rfl, by split <;> rfl, rfl⟩

theorem Agrees.step : Agrees svc (svc.getResponse request s).state (svc.nextHandshake h request)
      (provedAfter proved (svc.getResponse request s).event) := by
  by_cases hauth : request.requestType.handleWithAuth
  · have hresponse : svc.getResponse request s = svc.process request s := by
      rw [getResponse, hauth, Bool.or_true]
      rfl
    rw [hresponse]
    cases htype : request.requestType with
    | saslStart =>
      simp only [process, nextHandshake, htype]
      exact hagrees.saslStart
    | saslContinue =>
      simp only [process, nextHandshake, htype]
      exact hagrees.saslContinue
    | logout =>
      simp only [process, nextHandshake, htype]
      exact Agrees.initial svc _
    | _ =>
      rw [htype] at hauth
      cases hauth
  · have hcommand := Bool.eq_false_iff.2 hauth
    obtain ⟨hstate, hevent, hnext⟩ := @process_command svc request s h hcommand
    rw [hnext, getResponse]
    split
    · rw [hstate, hevent]
      exact hagrees
    · cases allocateDataPool request s with
      | error error | ok user => exact hagrees

end Step

-- ==== all requests

theorem provedSince_append (proved : List Str) (xs ys : List AuthEvent) :
    provedSince proved (xs ++ ys) = provedSince (provedSince proved xs) ys := by
  induction xs generalizing proved with
  | nil => rfl
  | cons event xs ih => cases event <;> exact ih _

theorem Agrees.run (hagrees : Agrees svc s h proved) (requests : List AuthRequest) :
    Agrees svc (svc.stateAfter s requests) (requests.foldl svc.nextHandshake h)
      (provedSince proved (svc.events s requests)) := by
  induction requests generalizing s h proved with
  | nil => exact hagrees
  | cons request requests ih =>
    rw [events, provedSince_append]
    exact ih hagrees.step

theorem events_append (s : AuthState) (xs ys : List AuthRequest) :
    svc.events s (xs ++ ys) = svc.events s xs ++ svc.events (svc.stateAfter s xs) ys := by
  induction xs generalizing s with
  | nil => rfl
  | cons request xs ih =>
    rw [cons_append, events, ih, ← append_assoc]
    rfl

theorem events_eq_append_cons {requests : List AuthRequest} {before after : List AuthEvent}
    {event : AuthEvent} (h : svc.events s requests = before ++ event :: after) :
    ∃ earlier request later, requests = earlier ++ request :: later ∧ svc.events s earlier = before
      ∧ (svc.getResponse request (svc.stateAfter s earlier)).event = some event := by
  induction requests generalizing s before with
  | nil =>
    have hlen := congrArg length h
    simp [events] at hlen
  | cons request requests ih =>
    rw [events] at h
    cases hevent : (svc.getResponse request s).event with
    | none =>
      rw [hevent] at h
      obtain ⟨earlier, request', later, hsplit, hbefore, hhere⟩ := ih h
      refine ⟨request :: earlier, request', later, ?_, ?_, hhere⟩
      · rw [hsplit, cons_append]
      · rw [events, hevent]
        exact hbefore
    | some first =>
      rw [hevent] at h
      cases before with
      | nil =>
        obtain ⟨hfirst, -⟩ := List.cons.inj h
        refine ⟨[], request, requests, rfl, rfl, ?_⟩
        rw [← hfirst]
        exact hevent
      | cons first' before =>
        obtain ⟨rfl, hrest⟩ := List.cons.inj h
        obtain ⟨earlier, request', later, hsplit, hbefore, hhere⟩ := ih hrest
        refine ⟨request :: earlier, request', later, ?_, ?_, hhere⟩
        · rw [hsplit, cons_append]
        · rw [events, hevent, hbefore]
          rfl

-- ==== the commands

/-- A request that is a command, and for which the pool of the user is there. -/
def isCommand (request : AuthRequest) : Prop :=
  request.requestType.handleWithAuth = false ∧ request.fails .dataPool = none

theorem process_ne_ran (request : AuthRequest) (s : AuthState)
    (username : Str) (userOid : Option UInt32) :
    (svc.process request s).event ≠ some (.ran username userOid) := by
  unfold process
  split
  · unfold handleSaslStart
    split <;> nofun
  · unfold handleSaslContinue
    split
    · nofun
    · dsimp only
      split <;> nofun
  · nofun
  · split <;> nofun

theorem allocateDataPool_eq (husername : s.username = some username)
    (hpassword : s.password.isSome) (request : AuthRequest) :
    allocateDataPool request s = match request.fails .dataPool with
        | some error => .error error
        | none => .ok username := by
  obtain ⟨password, hpassword⟩ := isSome_iff_exists.1 hpassword
  unfold allocateDataPool
  rw [husername, hpassword]
  rfl

/-- A command runs if a proof was accepted, with the name of the last handshake
and the oid of the user who was proved. -/
theorem Agrees.ran_iff (hagrees : Agrees svc s h proved) {userOid : Option UInt32} :
    (svc.getResponse request s).event = some (.ran username userOid)
      ↔ isCommand request ∧ h.proved.isSome
        ∧ h.started.map Prod.snd = some username ∧ s.userOid = userOid := by
  rw [getResponse]
  by_cases hbranch : (!s.authorized || request.requestType.handleWithAuth)
  · rw [if_pos hbranch]
    refine iff_of_false (process_ne_ran request s username userOid) ?_
    intro hran
    obtain ⟨⟨hcommand, -⟩, hproved, -⟩ := hran
    rw [hcommand, hagrees.authorized, hproved] at hbranch
    cases hbranch
  · rw [if_neg hbranch]
    rw [Bool.not_eq_true, Bool.or_eq_false_iff, Bool.not_eq_false'] at hbranch
    obtain ⟨hauthorized, hcommand⟩ := hbranch
    rw [hagrees.authorized] at hauthorized
    obtain ⟨start, hstart⟩ := isSome_iff_exists.1 (hagrees.started hauthorized)
    have husername : s.username = some start.2 := by
      rw [hagrees.username, hstart]
      rfl
    rw [allocateDataPool_eq husername (hagrees.password hauthorized), hstart]
    cases hfails : request.fails .dataPool with
    | some error =>
      refine iff_of_false nofun fun hran => ?_
      rw [hran.1.2] at hfails
      cases hfails
    | none =>
      constructor
      · intro hran
        obtain ⟨husername, hoid⟩ := AuthEvent.ran.inj (some.inj hran)
        exact ⟨⟨hcommand, hfails⟩, hauthorized, congrArg some husername, hoid⟩
      · intro hran
        obtain ⟨-, -, husername, hoid⟩ := hran
        cases husername
        rw [← hoid]

theorem agrees_stateAfter (requests : List AuthRequest) :
    Agrees svc (svc.stateAfter {} requests) (svc.handshake requests)
      (provedSince [] (svc.events {} requests)) :=
  (Agrees.initial svc []).run requests

/-- For every sequence of requests, the gateway acts only as a user who was
proved if and only if, at each command, the last handshake that was started since
the last logout is one of the user for whom the last proof was accepted. -/
theorem actsAsProvedUser_iff (svc : AuthService) (requests : List AuthRequest) :
    svc.ActsAsProvedUser requests
      ↔ ∀ earlier command later, requests = earlier ++ command :: later → isCommand command →
          ∀ user, (svc.handshake earlier).proved = some user →
            (svc.handshake earlier).started.map Prod.snd = some user := by
  constructor
  · intro hacts earlier command later hrequests hcommand user hproved
    have hagrees := @agrees_stateAfter svc earlier
    have hisSome : (svc.handshake earlier).proved.isSome = true := by
      rw [hproved]
      rfl
    obtain ⟨start, hstart⟩ := isSome_iff_exists.1 (hagrees.started hisSome)
    obtain ⟨oid, hoid, huser⟩ := hagrees.userOid user hproved
    have hran := hagrees.ran_iff.2 ⟨hcommand, hisSome, by rw [hstart]; rfl, hoid⟩
    have hevents : svc.events {} requests = svc.events {} earlier ++ .ran start.2 (some oid)
          :: svc.events (svc.getResponse command (svc.stateAfter {} earlier)).state later := by
      rw [hrequests, events_append, events, hran]
      rfl
    obtain ⟨user', rfl, ⟨oid', hoid', huser'⟩, -, -⟩ := hacts _ _ _ _ hevents
    -- one oid, one user
    cases hoid'
    rw [svc.oid_unique huser huser', hstart]
    rfl
  · intro hsame before username userOid after hevents
    obtain ⟨earlier, command, later, hrequests, rfl, hran⟩ := events_eq_append_cons hevents
    have hagrees := @agrees_stateAfter svc earlier
    obtain ⟨hcommand, hisSome, husername, hoid⟩ := hagrees.ran_iff.1 hran
    obtain ⟨user, hproved⟩ := isSome_iff_exists.1 hisSome
    have hstarted := hsame earlier command later hrequests hcommand user hproved
    rw [husername] at hstarted
    cases hstarted
    obtain ⟨oid, hoid', huser⟩ := hagrees.userOid username hproved
    obtain ⟨start, hstart, hname⟩ := map_eq_some_iff.1 husername
    refine ⟨username, rfl, ⟨oid, hoid.symm.trans hoid', huser⟩, ?_, ?_⟩
    · rw [← hname]
      exact hagrees.notBlocked start hstart
    · exact hagrees.accepted username hproved

/-- In every sequence of requests, a command runs with a name that is not blocked and with
the oid of a user for whom a proof was accepted since the last logout. -/
theorem ran_after_proof {svc : AuthService} {requests : List AuthRequest}
    {before after : List AuthEvent} {username : Str} {userOid : Option UInt32}
    (hevents : svc.events {} requests = before ++ .ran username userOid :: after) :
    svc.isBlocked username = false
      ∧ ∃ user ∈ provedSince [] before, userOid.isSome = true ∧ svc.oid user = userOid := by
  obtain ⟨earlier, command, later, -, rfl, hran⟩ := events_eq_append_cons hevents
  have hagrees := @agrees_stateAfter svc earlier
  obtain ⟨-, hisSome, husername, hoid⟩ := hagrees.ran_iff.1 hran
  obtain ⟨start, hstart, rfl⟩ := map_eq_some_iff.1 husername
  obtain ⟨user, hproved⟩ := isSome_iff_exists.1 hisSome
  obtain ⟨oid, hoid', huser⟩ := hagrees.userOid user hproved
  rw [← hoid, hoid']
  exact ⟨hagrees.notBlocked start hstart, user, hagrees.accepted user hproved, rfl, huser⟩

end AuthService

-- ==== acting as another

/-- Two users, `alice` and `bob`; a proof is the key and the message, without
commas. -/
def twoUsers : AuthService where
  blockedRolePrefixes := []
  toLowercase := id
  Key := Str
  key username :=
    if username = "alice".toList then some "a".toList
    else if username = "bob".toList then some "b".toList
    else none
  proof key message := (key ++ message).filter (· ≠ ',')
  serverSignature _ _ := []
  saltAndIterations _ := some ([], 1)
  oid username :=
    if username = "alice".toList then some 1
    else if username = "bob".toList then some 2
    else none
  oid_unique {u v o} hu hv := by
    split_ifs at hu hv with h₁ h₂ h₃ h₄ <;> grind

/-- A `saslStart` of a user. -/
def startAs (username : String) : AuthRequest where
  requestType := .saslStart
  mechanism := some "SCRAM-SHA-256".toList
  payload := .text ("n,,n=".toList ++ username.toList ++ ",r=x".toList)
  serverNonce := "yz".toList

/-- A `saslContinue` with the key of `alice`, for the handshake of a user. The
name is that of `alice`, where one is given. -/
def continueWithKeyOfAlice (username name : String) : AuthRequest where
  requestType := .saslContinue
  payload := .text (name.toList ++ "c=biws,r=xyz,p=an=".toList
    ++ username.toList ++ "r=xr=xyzs=i=1c=biwsr=xyz".toList)

def findCommand : AuthRequest where
  requestType := .find

/-- With the key of `alice` alone, a client acts as `bob`: with a second
`saslStart` after it was authorized, or with one for `bob` that it continues as
`alice`. -/
theorem client_acts_as_another_user :
    (twoUsers.events {} [startAs "alice", continueWithKeyOfAlice "alice" "",
        startAs "bob", findCommand]
      = [.accepted "alice".toList, .ran "bob".toList (some 1)])
    ∧ (twoUsers.events {} [startAs "bob",
          continueWithKeyOfAlice "bob" "n=alice,", findCommand]
        = [.accepted "alice".toList, .ran "bob".toList (some 1)])
    ∧ ¬ twoUsers.ActsAsProvedUser [startAs "alice",
        continueWithKeyOfAlice "alice" "", startAs "bob", findCommand] := by
  have hevents : twoUsers.events {} [startAs "alice",
        continueWithKeyOfAlice "alice" "", startAs "bob", findCommand]
      = [.accepted "alice".toList, .ran "bob".toList (some 1)] := by decide
  refine ⟨hevents, by decide, ?_⟩
  intro hacts
  obtain ⟨user, rfl, -, -, hproved⟩ := hacts [.accepted "alice".toList] _ _ [] hevents
  revert hproved
  decide

/-- The client has proved to be `alice`. -/
theorem alice_runs_after_proof : ∃ user ∈ provedSince [] [.accepted "alice".toList],
    twoUsers.oid user = some 1 := by
  have hevents : twoUsers.events {} [startAs "alice", continueWithKeyOfAlice "alice" "",
      findCommand] = [.accepted "alice".toList] ++ .ran "alice".toList (some 1) :: [] := rfl
  obtain ⟨-, user, hproved, -, hoid⟩ := AuthService.ran_after_proof hevents
  exact ⟨user, hproved, hoid⟩

end DocumentDb.Gateway
