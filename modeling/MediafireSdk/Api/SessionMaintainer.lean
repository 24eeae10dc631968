import MediafireSdk.Api.Locker
import MediafireSdk.Lib.Runs
import MediafireSdk.Lib.Threads

/-! The session maintainer (`session_maintainer.cpp`, `session_maintainer_request.hpp`)
on several threads. A handler is a program of instructions: one section under the
mutex of the locker, one use of a timer, one HTTP request started or one callback
each; between two of them any other thread may run. HTTP requests are answered in
any order, after any time. The maintainer is not destroyed under a running handler
of its own, which is undefined behaviour. -/

namespace MediafireSdk.Api

open Utils Threads

namespace SessionMaintainer

def sessionTokenFailureWaitTimeoutMs : ℕ := 2500

def connectionStateRecheckTimeoutMs : ℕ := 5000

def sessionTokenCredentialFailureWaitTimeoutMs : ℕ := 60000

def sessionTokenAccountLockedWaitTimeoutMs : ℕ := 600000

def prolongedFailureThreshold : ℕ := 10

end SessionMaintainer

/-! ### State -/

/-- A timer of asio: when it expires, the waits that have not and those whose handlers are queued,
which no cancellation reaches. -/
structure Timer where
  expiry : ℕ := 0
  waits : ℕ := 0
  queued : ℕ := 0
  deriving DecidableEq, Repr

namespace Timer

def expiresFromNow (t : Timer) (now ms : ℕ) : Timer := { t with expiry := now + ms, waits := 0 }

def asyncWait (t : Timer) : Timer := { t with waits := t.waits + 1 }

def cancel (t : Timer) : Timer := { t with waits := 0 }

def expire (t : Timer) (now : ℕ) : Option Timer :=
  if 0 < t.waits ∧ t.expiry ≤ now then
    some { t with waits := t.waits - 1, queued := t.queued + 1 }
  else none

def fire (t : Timer) : Option Timer :=
  if 0 < t.queued then some { t with queued := t.queued - 1 } else none

end Timer

/-- `SessionMaintainerRequest`. -/
structure Request where
  usesSessionToken : Bool := false
  timeoutSeconds : ℕ := 0
  maxRetryTime : ℕ := 0
  /-- `request_`: the last attempt. -/
  request : Option ℕ := none
  /-- The session token set in `af_`. -/
  sessionToken : Option String := none
  /-- The user keeps the handle that `Call` returned. -/
  held : Bool := false
  /-- Ghost: how often the completion callback was invoked. -/
  completions : ℕ := 0
  deriving DecidableEq, Repr

/-- Instructions that are about an attempt of a request carry its number. -/
inductive Instr where
  | setCredentials (credentials : Credentials)
  | addWaitingRequest (request : ℕ)
  | attemptRequests
  | attemptConnection
  | nextWaitingNonSessionTokenRequest
  | init (request : ℕ)
  | addInProgressRequest (request attempt : ℕ)
  | whileRunning
  | nextWaitingSessionTokenRequest
  | initWithToken (request : ℕ) (token : SessionTokenData)
  | addInProgressRequestWithToken (request attempt : ℕ) (token : SessionTokenData)
  | requestNeededSessionTokens (force : Bool)
  | getCredentials (haveBadCredentials : Bool)
  | tryRequestSessionToken (credentials : Credentials) (loop : Bool)
  | getSessionToken (credentials : Credentials)
  | removeInProgressRequest (request attempt : ℕ)
  | moveInProgressToWaiting (request attempt : ℕ)
  | moveInProgressToDelayed (request attempt : ℕ)
  | deleteCheckedOutToken (request attempt : ℕ)
  | reuseToken (request attempt : ℕ) (newKey : Bool)
  | setConnectionState (state : ConnectionState)
  | expireRecheckTimer
  | waitRecheckTimer
  | attemptIfConnected
  | handleSessionTokenResponse (response : TokenResponse) (oldCredentials : Credentials)
  | getSessionState (response : TokenResponse) (oldCredentials : Credentials)
  | incrementFailureCount
  | resetFailureCount
  | expireFailureTimer (ms : ℕ)
  | waitFailureTimer
  | compareCredentials (newState : SessionState) (count : ℕ) (oldCredentials : Credentials)
  | getFailureCount (accountIsLocked : Bool) (state newState : SessionState) (count : ℕ)
      (oldCredentials : Credentials)
  | setSessionStateSafe (newState : SessionState) (count : ℕ) (oldCredentials : Credentials)
  | addSessionToken (response : TokenResponse) (oldCredentials : Credentials)
      (state : SessionState) (count : ℕ)
  | completionNotification (errorCode : Option ErrorCode)
  | retryOrComplete (request attempt : ℕ) (response : ApiResponse)
  | completionAlert (request attempt : ℕ) (response : ApiResponse)
  | requestRetryAlert (request attempt : ℕ) (response : ApiResponse)
  | completionCallback (request : ℕ)
  | cancel (request : ℕ)
  | fail (request : ℕ)
  | handleTimedOutRequest (request : ℕ)
  | stopTimeouts
  | moveRequests
  | release (requests : List ℕ)
  deriving DecidableEq, Repr

namespace Instr

/-- The requests that the handler keeps a shared pointer to. -/
def requests : Instr → List ℕ
  | .addWaitingRequest r | .init r | .addInProgressRequest r _ | .initWithToken r _
  | .addInProgressRequestWithToken r _ _ | .removeInProgressRequest r _
  | .moveInProgressToWaiting r _ | .moveInProgressToDelayed r _ | .deleteCheckedOutToken r _
  | .reuseToken r _ _ | .retryOrComplete r _ _ | .completionAlert r _ _
  | .requestRetryAlert r _ _ | .completionCallback r | .cancel r | .fail r
  | .handleTimedOutRequest r => [r]
  | .release rs => rs
  | _ => []

/-- Instructions of a request, which look whether the maintainer still exists. -/
def outlives : Instr → Bool
  | .completionNotification _ | .retryOrComplete _ _ _ | .completionAlert _ _ _
  | .requestRetryAlert _ _ _ | .completionCallback _ | .cancel _ => true
  | _ => false

end Instr

structure State where
  locker : SessionMaintainerLocker := {}
  maintainerExists : Bool := true
  timeoutSeconds : ℕ := 60
  sessionTokenFailureTimer : Timer := {}
  connectionStateRecheckTimer : Timer := {}
  requests : ℕ → Request := fun _ => {}
  /-- How many requests were handed to `Call`; they are numbered in that order. -/
  called : ℕ := 0
  /-- Attempts in flight, each with its request. -/
  apiRequests : List (ℕ × ℕ) := []
  /-- `user/get_session_token` in flight. -/
  tokenRequests : List (ℕ × Credentials) := []
  /-- `system/get_status` in flight. -/
  statusRequests : List ℕ := []
  /-- HTTP requests are numbered in the order they start. -/
  started : ℕ := 0
  threads : List (List Instr) := []
  now : ℕ := 0
  /-- Ghost: the tokens of all successful answers. -/
  issued : List SessionTokenData := []

/-- What the constructor makes. -/
def State.created : State := {}

/-! ### Programs -/

/-- `UpdateConnectionStateFromErrorCode`. -/
def updateConnectionState : Option ErrorCode → List Instr
  | none => [.setConnectionState .connected]
  | some ec =>
    if ec.isConnectionError then
      [.setConnectionState (.unconnected ec), .expireRecheckTimer, .waitRecheckTimer]
    else [.setConnectionState .connected]

def handleCheckConnectionStatusResponse (ec : Option ErrorCode) : List Instr :=
  updateConnectionState ec ++ [.attemptIfConnected]

/-- `HandleSessionTokenResponse` with invalid credentials. -/
def failCredentials (response : TokenResponse) (ec : ErrorCode) (oldCredentials : Credentials)
    (state : SessionState) (count : ℕ) : List Instr :=
  if !state.isUninitialized && !state.isCredentialsError then
    [.compareCredentials
      (.credentialsFailure (if response.pkey = "" then none else some response.pkey) ec response)
      count oldCredentials]
  else []

def failToken (response : TokenResponse) (ec : ErrorCode) (oldCredentials : Credentials)
    (state : SessionState) (count : ℕ) : List Instr :=
  if ec.isInvalidCredentialsError then
    .expireFailureTimer SessionMaintainer.sessionTokenCredentialFailureWaitTimeoutMs ::
      failCredentials response ec oldCredentials state count
  else
    [.expireFailureTimer
      (if ec = .accountTemporarilyLocked then
        SessionMaintainer.sessionTokenAccountLockedWaitTimeoutMs
      else SessionMaintainer.sessionTokenFailureWaitTimeoutMs),
      .getFailureCount (ec = .accountTemporarilyLocked) state (.prolongedError ec response) count
        oldCredentials]

/-- `HandleSessionTokenResponse` behind `UpdateConnectionStateFromErrorCode`. -/
def finishToken (response : TokenResponse) (oldCredentials : Credentials)
    (state : SessionState) (count : ℕ) : List Instr :=
  match response.errorCode with
  | some ec =>
    .incrementFailureCount :: failToken response ec oldCredentials state count ++
      [.waitFailureTimer]
  | none =>
    [.resetFailureCount, .addSessionToken response oldCredentials state count, .attemptRequests]

/-- `HandleCompletion`. -/
def handleCompletion (r a : ℕ) (response : ApiResponse) : List Instr :=
  [.removeInProgressRequest r a,
    if ErrorCode.isInvalidSessionTokenError response.errorCode then .deleteCheckedOutToken r a
    else .reuseToken r a response.newKey,
    .attemptRequests]

/-- `HandleRetryRequest`. -/
def handleRetryRequest (r a : ℕ) (response : ApiResponse) : List Instr :=
  if ErrorCode.isInvalidSessionTokenError response.errorCode then
    [.moveInProgressToWaiting r a, .deleteCheckedOutToken r a, .attemptRequests]
  else [.moveInProgressToDelayed r a, .reuseToken r a response.newKey, .attemptRequests]

namespace State

variable (s : State)

/-- `CallbackProxy` tries again. -/
def retries (r : ℕ) (response : ApiResponse) : Prop :=
  (s.requests r).usesSessionToken = true ∧ response.errorCode ≠ none ∧
    s.now / 1000 < (s.requests r).maxRetryTime ∧
    (ErrorCode.isInvalidSessionTokenError response.errorCode ∨
      response.errorCode = some .asyncOperationInProgress)

instance (r : ℕ) (response : ApiResponse) : Decidable (s.retries r response) :=
  inferInstanceAs (Decidable (_ ∧ _))

def setLocker (l : SessionMaintainerLocker) : State := { s with locker := l }

def setRequest (r : ℕ) (request : Request) : State :=
  { s with requests := Function.update s.requests r request }

/-- `SessionMaintainerRequest::Init`. -/
def init (r : ℕ) : State :=
  { s.setRequest r { s.requests r with request := some s.started } with
    apiRequests := s.apiRequests ++ [(s.started, r)]
    started := s.started + 1 }

def setSessionToken (r : ℕ) (st : SessionTokenData) : State :=
  s.setRequest r { s.requests r with sessionToken := some st.sessionToken }

def startGetSessionToken (c : Credentials) : State :=
  { s with tokenRequests := s.tokenRequests ++ [(s.started, c)], started := s.started + 1 }

def startGetStatus : State :=
  { s with statusRequests := s.statusRequests ++ [s.started], started := s.started + 1 }

/-- The first loop of `AttemptRequests`. -/
def attemptNonSessionTokenRequest : State × List Instr :=
  match s.locker.nextWaitingNonSessionTokenRequest with
  | some (r, l) => (s.setLocker l, [.init r, .nextWaitingNonSessionTokenRequest])
  | none => (s, [.whileRunning])

/-- The second loop of `AttemptRequests`, where the state is `Running`. -/
def attemptSessionTokenRequest : State × List Instr :=
  match s.locker.nextWaitingSessionTokenRequest with
  | some (r, st, l) => (s.setLocker l, [.initWithToken r st, .whileRunning])
  | none => (s, [.requestNeededSessionTokens false])

/-- `TryRequestSessionToken`, once or until it fails. -/
def tryRequestSessionToken (c : Credentials) (loop : Bool) : State × List Instr :=
  match s.locker.startRequestSessionToken with
  | some l =>
    (s.setLocker l,
      .getSessionToken c :: if loop then [.tryRequestSessionToken c true] else [])
  | none => (s, [])

/-- `AddSessionToken` and what follows of it; `state` and `count` were read before. -/
def addSessionToken (response : TokenResponse) (c : Credentials) (state : SessionState)
    (count : ℕ) : State × List Instr :=
  match s.locker.addSessionToken (response.token c) c with
  | some l =>
    (s.setLocker l,
      if !state.isUninitialized && !state.isRunning then
        [.setSessionStateSafe (.running response) count c] else [])
  | none => (s, [])

def handleTimedOutRequest (r : ℕ) : State × List Instr :=
  match s.locker.handleTimedOutRequest (s.requests r).usesSessionToken r with
  | some l => (s.setLocker l, [.fail r])
  | none => (s, [])

/-- What an instruction does to the state, and what the thread does next. -/
def exec (i : Instr) : State × List Instr :=
  match i with
  | .setCredentials c => (s.setLocker (s.locker.setCredentials c), [])
  | .addWaitingRequest r =>
    (s.setLocker (s.locker.addWaitingRequest s.now (s.requests r).timeoutSeconds
      (s.requests r).usesSessionToken r), [])
  | .attemptRequests =>
    (s, if s.locker.connectionState.isUnconnected then [.attemptConnection]
      else [.nextWaitingNonSessionTokenRequest])
  | .attemptConnection => (s.startGetStatus, [])
  | .nextWaitingNonSessionTokenRequest => s.attemptNonSessionTokenRequest
  | .init r => (s.init r, [.addInProgressRequest r s.started])
  | .addInProgressRequest r a => (s.setLocker (s.locker.addInProgressRequest r a), [])
  | .whileRunning =>
    (s, if s.locker.sessionState.isRunning then [.nextWaitingSessionTokenRequest]
      else [.requestNeededSessionTokens false])
  | .nextWaitingSessionTokenRequest => s.attemptSessionTokenRequest
  | .initWithToken r st =>
    ((s.setSessionToken r st).init r, [.addInProgressRequestWithToken r s.started st])
  | .addInProgressRequestWithToken r a st =>
    (s.setLocker (s.locker.addInProgressRequestWithToken r a st), [])
  | .requestNeededSessionTokens force =>
    (s, if !s.locker.sessionState.isCredentialsError || force then
        [.getCredentials s.locker.sessionState.isCredentialsError] else [])
  | .getCredentials haveBadCredentials =>
    (s, match s.locker.credentials with
      | some c => [.tryRequestSessionToken c !haveBadCredentials]
      | none => [])
  | .tryRequestSessionToken c loop => s.tryRequestSessionToken c loop
  | .getSessionToken c => (s.startGetSessionToken c, [])
  | .removeInProgressRequest r _ => (s.setLocker (s.locker.removeInProgressRequest r), [])
  | .moveInProgressToWaiting r _ =>
    (s.setLocker (s.locker.moveInProgressToWaiting (s.requests r).usesSessionToken r), [])
  | .moveInProgressToDelayed r _ =>
    (s.setLocker (s.locker.moveInProgressToDelayed s.now r 1), [])
  | .deleteCheckedOutToken r _ => (s.setLocker (s.locker.deleteCheckedOutToken r), [])
  | .reuseToken r _ newKey =>
    (s.setLocker (s.locker.reuseToken (s.requests r).usesSessionToken r newKey), [])
  | .setConnectionState state => (s.setLocker (s.locker.setConnectionState state), [])
  | .expireRecheckTimer =>
    ({ s with
      connectionStateRecheckTimer :=
        s.connectionStateRecheckTimer.expiresFromNow s.now
          SessionMaintainer.connectionStateRecheckTimeoutMs }, [])
  | .waitRecheckTimer =>
    ({ s with connectionStateRecheckTimer := s.connectionStateRecheckTimer.asyncWait }, [])
  | .attemptIfConnected =>
    (s, if s.locker.connectionState.isConnected then [.attemptRequests] else [])
  | .handleSessionTokenResponse response c =>
    (s.setLocker s.locker.decrementSessionTokenInProgressCount, [.getSessionState response c])
  | .getSessionState response c =>
    (s, updateConnectionState response.errorCode ++
      finishToken response c s.locker.sessionState s.locker.sessionStateChangeCount)
  | .incrementFailureCount => (s.setLocker s.locker.incrementFailureCount, [])
  | .resetFailureCount => (s.setLocker s.locker.resetFailureCount, [])
  | .expireFailureTimer ms =>
    ({ s with sessionTokenFailureTimer := s.sessionTokenFailureTimer.expiresFromNow s.now ms }, [])
  | .waitFailureTimer =>
    ({ s with sessionTokenFailureTimer := s.sessionTokenFailureTimer.asyncWait }, [])
  | .compareCredentials newState count c =>
    (s, if s.locker.credentials = some c then [.setSessionStateSafe newState count c] else [])
  | .getFailureCount accountIsLocked state newState count c =>
    (s, if (SessionMaintainer.prolongedFailureThreshold ≤ s.locker.failureCount ∨
        accountIsLocked = true) ∧ (state.isInitialized ∨ state.isProlongedError) then
        [.setSessionStateSafe newState count c] else [])
  | .setSessionStateSafe newState count _ =>
    (s.setLocker (s.locker.setSessionStateSafe newState count), [])
  | .addSessionToken response c state count => s.addSessionToken response c state count
  | .completionNotification ec =>
    (s, if s.maintainerExists then updateConnectionState ec else [])
  | .retryOrComplete r a response =>
    (s, if s.retries r response then [.requestRetryAlert r a response]
      else [.completionAlert r a response, .completionCallback r])
  | .completionAlert r a response =>
    (s, if s.maintainerExists then handleCompletion r a response else [.cancel r])
  | .requestRetryAlert r a response =>
    (s, if s.maintainerExists then handleRetryRequest r a response else [.cancel r])
  | .completionCallback r =>
    (s.setRequest r { s.requests r with completions := (s.requests r).completions + 1 }, [])
  -- with an attempt it is handed on to the HTTP request, whose answer comes sooner for it
  | .cancel r => (s, if (s.requests r).request = none then [.completionCallback r] else [])
  | .fail r => (s, if (s.requests r).request = none then [.completionCallback r] else [])
  | .handleTimedOutRequest r => s.handleTimedOutRequest r
  | .stopTimeouts => (s.setLocker s.locker.stopTimeouts, [])
  | .moveRequests =>
    (s.setLocker s.locker.moveRequests,
      s.locker.allRequests.map .cancel ++ [.release s.locker.allRequests])
  | .release _ => (s.setLocker s.locker.release, [])

/-! ### Steps -/

/-- Something holds a shared pointer to the request. -/
def Alive (r : ℕ) : Prop :=
  r ∈ s.locker.waitingStRequests ∨ r ∈ s.locker.waitingNonStRequests ∨
    r ∈ s.locker.inProgressRequests ∨ r ∈ s.locker.delayedRequests.events ∨
    r ∈ s.locker.checkedOutTokens ∨ (∃ i ∈ pending s.threads, r ∈ i.requests) ∨
    (s.requests r).held = true

instance (r : ℕ) : Decidable (s.Alive r) := inferInstanceAs (Decidable (_ ∨ _))

def spawn (program : List Instr) : State := { s with threads := Threads.spawn program s.threads }

/-- The request that `Call` makes. -/
def newRequest (usesSessionToken : Bool) : Request where
  usesSessionToken := usesSessionToken
  timeoutSeconds := s.timeoutSeconds
  maxRetryTime := s.now / 1000 + s.timeoutSeconds
  held := true

def create (usesSessionToken : Bool) : State :=
  { s.setRequest s.called (s.newRequest usesSessionToken) with called := s.called + 1 }

def call (usesSessionToken : Bool) : State :=
  (s.create usesSessionToken).spawn [.addWaitingRequest s.called, .attemptRequests]

def answered (a r : ℕ) : State := { s with apiRequests := s.apiRequests.erase (a, r) }

/-- The answer reaches the request through a weak pointer. -/
def apiResponse (a r : ℕ) (response : ApiResponse) : State :=
  if s.Alive r then
    (s.answered a r).spawn
      [.completionNotification response.errorCode, .retryOrComplete r a response]
  else s.answered a r

def tokenResponse (a : ℕ) (c : Credentials) (response : TokenResponse) : State :=
  if s.maintainerExists then
    { s with
      tokenRequests := s.tokenRequests.erase (a, c)
      issued := if response.errorCode = none then s.issued ++ [response.token c] else s.issued
      }.spawn [.handleSessionTokenResponse response c]
  else { s with tokenRequests := s.tokenRequests.erase (a, c) }

def statusResponse (a : ℕ) (errorCode : Option ErrorCode) : State :=
  if s.maintainerExists then
    { s with statusRequests := s.statusRequests.erase a }.spawn
      (handleCheckConnectionStatusResponse errorCode)
  else { s with statusRequests := s.statusRequests.erase a }

/-- The event of a request that is gone is dropped. -/
def timeoutFires (r : ℕ) (l : SessionMaintainerLocker) : State :=
  if s.Alive r then (s.setLocker l).spawn [.handleTimedOutRequest r] else s.setLocker l

/-- The destructor, up to what it does with the locker. -/
def destroy : State :=
  { s with
    maintainerExists := false
    sessionTokenFailureTimer := s.sessionTokenFailureTimer.cancel }

def runThread (k : ℕ) (i : Instr) (rest : List Instr) : State :=
  { (s.exec i).1 with threads := resume k ((s.exec i).2 ++ rest) s.threads }

end State

inductive Act where
  | setLoginCredentials (credentials : Credentials)
  | call (usesSessionToken : Bool)
  | setTimeoutSeconds (timeoutSeconds : ℕ)
  | cancelRequest (request : ℕ)
  | dropRequest (request : ℕ)
  | apiResponse (attempt request : ℕ) (response : ApiResponse)
  | tokenResponse (attempt : ℕ) (credentials : Credentials) (response : TokenResponse)
  | statusResponse (attempt : ℕ) (errorCode : Option ErrorCode)
  | failureTimerExpires
  | failureTimerFires
  | recheckTimerExpires
  | recheckTimerFires
  | delayedFires
  | timeoutFires
  | stopTimeouts
  | destroy
  | run (thread : ℕ)
  | clock (ms : ℕ)
  deriving DecidableEq, Repr

namespace Act

/-- The actions that start a handler. -/
def starts : Act → Bool
  | .setTimeoutSeconds _ | .dropRequest _ | .failureTimerExpires | .recheckTimerExpires
  | .run _ | .clock _ => false
  | _ => true

/-- The actions that need no maintainer. -/
def outlives : Act → Bool
  | .cancelRequest _ | .dropRequest _ | .apiResponse _ _ _ | .tokenResponse _ _ _
  | .statusResponse _ _ | .run _ | .clock _ => true
  | _ => false

end Act

namespace State

/-- A step while what the action needs exists. -/
def act (s : State) : Act → Option State
  | .setLoginCredentials c => some (s.spawn [.setCredentials c, .attemptRequests])
  | .call usesSessionToken => some (s.call usesSessionToken)
  | .setTimeoutSeconds timeoutSeconds => some { s with timeoutSeconds := timeoutSeconds }
  | .cancelRequest r => if (s.requests r).held then some (s.spawn [.cancel r]) else none
  | .dropRequest r =>
    if (s.requests r).held then some (s.setRequest r { s.requests r with held := false }) else none
  | .apiResponse a r response =>
    if (a, r) ∈ s.apiRequests then some (s.apiResponse a r response) else none
  | .tokenResponse a c response =>
    if (a, c) ∈ s.tokenRequests then some (s.tokenResponse a c response) else none
  | .statusResponse a errorCode =>
    if a ∈ s.statusRequests then some (s.statusResponse a errorCode) else none
  | .failureTimerExpires =>
    (s.sessionTokenFailureTimer.expire s.now).map fun t => { s with sessionTokenFailureTimer := t }
  | .failureTimerFires =>
    s.sessionTokenFailureTimer.fire.map fun t =>
      { s with sessionTokenFailureTimer := t }.spawn
        [.attemptRequests, .requestNeededSessionTokens true]
  | .recheckTimerExpires =>
    (s.connectionStateRecheckTimer.expire s.now).map fun t =>
      { s with connectionStateRecheckTimer := t }
  | .recheckTimerFires =>
    s.connectionStateRecheckTimer.fire.map fun t =>
      { s with connectionStateRecheckTimer := t }.spawn [.attemptRequests]
  | .delayedFires =>
    (s.locker.nextDelayedRequest s.now).map fun (r, l) =>
      (s.setLocker l).spawn [.addWaitingRequest r, .attemptRequests]
  | .timeoutFires =>
    (s.locker.nextTimedOutRequest s.now).map fun (r, l) => s.timeoutFires r l
  | .stopTimeouts => some (s.spawn [.stopTimeouts])
  | .destroy =>
    if ∀ i ∈ pending s.threads, i.outlives then
      some (s.destroy.spawn [.stopTimeouts, .moveRequests])
    else none
  | .run k =>
    match s.threads[k]? with
    | some (i :: rest) => some (s.runThread k i rest)
    | _ => none
  | .clock ms => some { s with now := s.now + ms }

def step (s : State) (a : Act) : Option State :=
  if a.outlives ∨ s.maintainerExists then s.act a else none

/-! ### A session to start from -/

def user : Credentials := .facebook "user"

def otherUser : Credentials := .facebook "other"

def tokenA : TokenResponse := { sessionToken := "a", secretKey := 7 }

/-- An action, and so many sections of the only handler. -/
def handled (a : Act) (sections : ℕ) : List Act := a :: List.replicate sections (.run 0)

/-- The credentials are set and the first session token arrives. -/
def login : List Act :=
  .setLoginCredentials user :: List.replicate 9 (.run 0) ++
    .tokenResponse 0 user tokenA :: List.replicate 13 (.run 0)

/-- A call is started with that token. -/
def loginAndCall : List Act := login ++ .call true :: List.replicate 12 (.run 0)

end State

end MediafireSdk.Api
