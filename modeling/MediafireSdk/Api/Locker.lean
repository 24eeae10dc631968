import MediafireSdk.Api.Types
import MediafireSdk.Lib.Tables
import MediafireSdk.Lib.Words
import MediafireSdk.Utils.TimedEvents

/-! `SessionMaintainerLocker` (`session_maintainer_locker.cpp`): the state behind the
mutex. Each function below is one section under the mutex, a pure function of that
state; requests are known by number. Ghost fields, read by no function, say for which
attempt an entry was inserted, which tokens were accepted since the tables were last
cleared and what became of the tokens that came back. -/

namespace MediafireSdk.Api

open Utils Words

namespace SessionMaintainer

def maxInProgressTokenRequests : ℕ := 4

def maxTokens : ℕ := 10

end SessionMaintainer

/-- A value of `checked_out_tokens_`, and the attempt it was checked out for. -/
structure CheckedOut where
  token : SessionTokenData
  attempt : ℕ
  deriving DecidableEq, Repr

structure SessionMaintainerLocker where
  sessionState : SessionState := .uninitialized
  connectionState : ConnectionState := .uninitialized
  sessionStateChangeCount : ℕ := 0
  credentials : Option Credentials := none
  waitingStRequests : List ℕ := []
  waitingNonStRequests : List ℕ := []
  /-- A set; the value of a request is the attempt it was inserted for. -/
  inProgressRequests : Table ℕ ℕ := ∅
  checkedOutTokens : Table ℕ CheckedOut := ∅
  delayedRequests : TimedEvents ℕ := {}
  sessionTokens : List SessionTokenData := []
  inProgressSessionTokenRequests : ℕ := 0
  timeOutRequests : TimedEvents ℕ := {}
  failureCount : ℕ := 0
  /-- Ghost: the tokens accepted since the tables were last cleared. -/
  accepted : List String := []
  /-- Ghost: the tokens that came back, with whether their key was to be renewed. -/
  returned : List (String × Bool) := []
  deriving DecidableEq

namespace SessionMaintainerLocker

variable (l : SessionMaintainerLocker)

/-! ### Session state and credentials -/

/-- `NewStateVisitor`. -/
def visitNewState (state : SessionState) : SessionMaintainerLocker :=
  if state.clearsTokens then
    { l with
      credentials := if state.isUninitialized then none else l.credentials
      sessionTokens := []
      checkedOutTokens := ∅
      accepted := [] }
  else l

def changeSessionStateInternal (state : SessionState) : SessionMaintainerLocker :=
  if l.sessionState.same state then l
  else
    { { l with sessionState := state }.visitNewState state with
      sessionStateChangeCount := increment 32 l.sessionStateChangeCount }

def setCredentials (credentials : Credentials) : SessionMaintainerLocker :=
  if l.credentials = some credentials then l
  else { l with credentials := some credentials }.changeSessionStateInternal .initialized

def setSessionStateSafe (state : SessionState) (stateChangeCount : ℕ) : SessionMaintainerLocker :=
  if l.sessionStateChangeCount = stateChangeCount then l.changeSessionStateInternal state else l

def setConnectionState (state : ConnectionState) : SessionMaintainerLocker :=
  { l with connectionState := state }

def incrementFailureCount : SessionMaintainerLocker :=
  { l with failureCount := increment 32 l.failureCount }

def resetFailureCount : SessionMaintainerLocker := { l with failureCount := 0 }

/-! ### Requests -/

def pushWaiting (usesSessionToken : Bool) (request : ℕ) : SessionMaintainerLocker :=
  if usesSessionToken then { l with waitingStRequests := l.waitingStRequests ++ [request] }
  else { l with waitingNonStRequests := l.waitingNonStRequests ++ [request] }

def addWaitingRequest (now timeoutSeconds : ℕ) (usesSessionToken : Bool) (request : ℕ) :
    SessionMaintainerLocker :=
  { l with timeOutRequests := l.timeOutRequests.add (now + 1000 * timeoutSeconds) request
    }.pushWaiting usesSessionToken request

def removeInProgressRequest (request : ℕ) : SessionMaintainerLocker :=
  { l with inProgressRequests := l.inProgressRequests.erase request }

def moveInProgressToWaiting (usesSessionToken : Bool) (request : ℕ) : SessionMaintainerLocker :=
  (l.removeInProgressRequest request).pushWaiting usesSessionToken request

def moveInProgressToDelayed (now : ℕ) (request : ℕ) (delaySec : ℕ) : SessionMaintainerLocker :=
  { l.removeInProgressRequest request with
    delayedRequests := l.delayedRequests.add (now + 1000 * delaySec) request }

def nextWaitingNonSessionTokenRequest : Option (ℕ × SessionMaintainerLocker) :=
  match l.waitingNonStRequests with
  | request :: waiting => some (request, { l with waitingNonStRequests := waiting })
  | [] => none

def nextWaitingSessionTokenRequest :
    Option (ℕ × SessionTokenData × SessionMaintainerLocker) :=
  match l.waitingStRequests, l.sessionTokens.getLast? with
  | request :: waiting, some st =>
    some (request, st,
      { l with waitingStRequests := waiting, sessionTokens := l.sessionTokens.dropLast })
  | _, _ => none

def addInProgressRequest (request attempt : ℕ) : SessionMaintainerLocker :=
  { l with inProgressRequests := l.inProgressRequests.add request attempt }

/-- `AddInProgressRequest` with a token. -/
def addInProgressRequestWithToken (request attempt : ℕ) (token : SessionTokenData) :
    SessionMaintainerLocker :=
  { l.addInProgressRequest request attempt with
    checkedOutTokens := l.checkedOutTokens.add request ⟨token, attempt⟩ }

/-- `HandleTimedOutRequest` up to the call of `Fail`; `none` when the request does not wait. -/
def handleTimedOutRequest (usesSessionToken : Bool) (request : ℕ) :
    Option SessionMaintainerLocker :=
  if usesSessionToken then
    if request ∈ l.waitingStRequests then
      some { l with waitingStRequests := l.waitingStRequests.erase request }
    else none
  else
    if request ∈ l.waitingNonStRequests then
      some { l with waitingNonStRequests := l.waitingNonStRequests.erase request }
    else none

def stopTimeouts : SessionMaintainerLocker :=
  { l with
    delayedRequests := l.delayedRequests.stop
    timeOutRequests := l.timeOutRequests.stop }

/-- The request whose delay is over, out of the locker. -/
def nextDelayedRequest (now : ℕ) : Option (ℕ × SessionMaintainerLocker) :=
  (l.delayedRequests.next now).map fun (request, events) =>
    (request, { l with delayedRequests := events })

/-- The request whose timeout event is due, and the event gone. -/
def nextTimedOutRequest (now : ℕ) : Option (ℕ × SessionMaintainerLocker) :=
  (l.timeOutRequests.next now).map fun (request, events) =>
    (request, { l with timeOutRequests := events })

/-- The requests that the destructor moves out of the locker, in the order it cancels them. -/
def allRequests : List ℕ :=
  l.waitingStRequests ++ l.waitingNonStRequests ++ l.inProgressRequests.keys

def moveRequests : SessionMaintainerLocker :=
  { l with waitingStRequests := [], waitingNonStRequests := [], inProgressRequests := ∅ }

/-! ### Session tokens -/

/-- `StartRequestSessionToken`: more requests wait than tokens are there or under way, and there
is room for one; or there is no token at all. -/
def mayRequestSessionToken : Prop :=
  (l.inProgressSessionTokenRequests = 0 ∧ l.sessionTokens.length + l.checkedOutTokens.size = 0) ∨
    (l.inProgressSessionTokenRequests + l.sessionTokens.length < l.waitingStRequests.length ∧
      l.inProgressSessionTokenRequests < SessionMaintainer.maxInProgressTokenRequests ∧
      l.inProgressSessionTokenRequests + l.sessionTokens.length + l.checkedOutTokens.size <
        SessionMaintainer.maxTokens)

instance : Decidable l.mayRequestSessionToken := inferInstanceAs (Decidable (_ ∨ _))

def startRequestSessionToken : Option SessionMaintainerLocker :=
  if l.mayRequestSessionToken then
    some { l with inProgressSessionTokenRequests := l.inProgressSessionTokenRequests + 1 }
  else none

def decrementSessionTokenInProgressCount : SessionMaintainerLocker :=
  { l with inProgressSessionTokenRequests := decrement 64 l.inProgressSessionTokenRequests }

/-- `none` when the credentials are no longer those of the request. -/
def addSessionToken (token : SessionTokenData) (oldCredentials : Credentials) :
    Option SessionMaintainerLocker :=
  if l.credentials = some oldCredentials then
    some { l with
      sessionTokens := l.sessionTokens ++ [token]
      accepted := l.accepted ++ [token.sessionToken] }
  else none

def deleteCheckedOutToken (request : ℕ) : SessionMaintainerLocker :=
  { l with checkedOutTokens := l.checkedOutTokens.erase request }

/-- The next secret key, in `uint64_t`. -/
def nextKey (secretKey : ℤ) : ℤ :=
  signed 32 (trunc 64 (unsigned 64 secretKey * 16807) % 2147483647)

def renewKey (newKey : Bool) (st : SessionTokenData) : SessionTokenData :=
  if newKey then { st with secretKey := nextKey st.secretKey } else st

/-- `newKey` tells whether the response asks for a new key. -/
def reuseToken (usesSessionToken : Bool) (request : ℕ) (newKey : Bool) :
    SessionMaintainerLocker :=
  if usesSessionToken then
    match l.checkedOutTokens.find? request with
    | none => l
    | some st =>
      { l with
        checkedOutTokens := l.checkedOutTokens.erase request
        sessionTokens := l.sessionTokens ++ [renewKey newKey st.token]
        returned := l.returned ++ [(st.token.sessionToken, newKey)] }
  else l

/-- The end of the destructor, with the requests that the map still held. -/
def release : SessionMaintainerLocker := { l with checkedOutTokens := ∅ }

end SessionMaintainerLocker

end MediafireSdk.Api
