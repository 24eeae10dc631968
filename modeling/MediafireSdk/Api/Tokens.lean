import MediafireSdk.Api.Stepping

/-! What steps of the session maintainer do to session tokens. A token is asked for,
arrives, is stored, goes out with an attempt and comes back; the other instructions
leave the tokens, the credentials and the session state as they are. -/

namespace MediafireSdk.Api

open Utils Threads

structure SameTokens (l l' : SessionMaintainerLocker) : Prop where
  sessionState : l'.sessionState = l.sessionState
  changeCount : l'.sessionStateChangeCount = l.sessionStateChangeCount
  credentials : l'.credentials = l.credentials
  stored : l'.sessionTokens = l.sessionTokens
  checkedOut : l'.checkedOutTokens = l.checkedOutTokens
  requested : l'.inProgressSessionTokenRequests = l.inProgressSessionTokenRequests
  accepted : l'.accepted = l.accepted
  returned : l'.returned = l.returned

theorem sameTokens_rfl {l : SessionMaintainerLocker} : SameTokens l l :=
  ⟨rfl, rfl, rfl, rfl, rfl, rfl, rfl, rfl⟩

theorem SessionMaintainerLocker.sameTokens_pushWaiting (l : SessionMaintainerLocker) (uses : Bool)
    (r : ℕ) : SameTokens l (l.pushWaiting uses r) := by
  cases uses <;> exact ⟨rfl, rfl, rfl, rfl, rfl, rfl, rfl, rfl⟩

/-- The session state becomes `state`. -/
structure StateChanged (state : SessionState) (l l' : SessionMaintainerLocker) : Prop where
  sessionState : l'.sessionState = state
  changeCount : l'.sessionStateChangeCount = Words.increment 32 l.sessionStateChangeCount
  credentials : l'.credentials = if state.isUninitialized then none else l.credentials
  stored : l'.sessionTokens = if state.clearsTokens then [] else l.sessionTokens
  checkedOut : l'.checkedOutTokens = if state.clearsTokens then ∅ else l.checkedOutTokens
  requested : l'.inProgressSessionTokenRequests = l.inProgressSessionTokenRequests
  accepted : l'.accepted = if state.clearsTokens then [] else l.accepted
  returned : l'.returned = l.returned

namespace SessionMaintainerLocker

variable (l : SessionMaintainerLocker)

theorem changeSessionStateInternal_cases (state : SessionState) :
    (l.sessionState.same state = true ∧ l.changeSessionStateInternal state = l) ∨
      (l.sessionState.same state = false ∧
        StateChanged state l (l.changeSessionStateInternal state)) := by
  unfold changeSessionStateInternal
  by_cases hsame : l.sessionState.same state = true
  · rw [if_pos hsame]
    exact Or.inl ⟨hsame, rfl⟩
  · rw [if_neg hsame, visitNewState]
    refine Or.inr ⟨Bool.eq_false_iff.mpr hsame, ?_⟩
    by_cases hclears : state.clearsTokens = true
    · simp only [hclears, if_true]
      exact ⟨rfl, rfl, rfl, by rw [hclears]; rfl, by rw [hclears]; rfl, rfl,
        by rw [hclears]; rfl, rfl⟩
    · have huninitialized : state.isUninitialized = false := by
        cases state <;> first | rfl | exact absurd rfl hclears
      simp only [hclears]
      exact ⟨rfl, rfl, by rw [huninitialized]; rfl, by simp [hclears], by simp [hclears], rfl,
        by simp [hclears], rfl⟩

theorem setSessionStateSafe_cases (state : SessionState) (count : ℕ) :
    ((l.sessionStateChangeCount = count → l.sessionState.same state = true) ∧
      l.setSessionStateSafe state count = l) ∨
    (l.sessionStateChangeCount = count ∧ l.sessionState.same state = false ∧
      StateChanged state l (l.setSessionStateSafe state count)) := by
  unfold setSessionStateSafe
  by_cases hcount : l.sessionStateChangeCount = count
  · rw [if_pos hcount]
    rcases l.changeSessionStateInternal_cases state with ⟨hsame, heq⟩ | ⟨hsame, hchanged⟩
    · exact Or.inl ⟨fun _ => hsame, heq⟩
    · exact Or.inr ⟨hcount, hsame, hchanged⟩
  · rw [if_neg hcount]
    exact Or.inl ⟨fun h => absurd h hcount, rfl⟩

/-- New credentials make the state `Initialized`, unless it is already. -/
theorem setCredentials_cases (c : Credentials) :
    (l.credentials = some c ∧ l.setCredentials c = l) ∨
    (l.credentials ≠ some c ∧ l.sessionState.isInitialized = true ∧
      l.setCredentials c = { l with credentials := some c }) ∨
    (l.credentials ≠ some c ∧ l.sessionState.isInitialized = false ∧
      StateChanged .initialized { l with credentials := some c } (l.setCredentials c)) := by
  unfold setCredentials
  by_cases hc : l.credentials = some c
  · rw [if_pos hc]
    exact Or.inl ⟨hc, rfl⟩
  · rw [if_neg hc]
    have hinitialized : l.sessionState.same .initialized = l.sessionState.isInitialized := by
      cases l.sessionState <;> rfl
    rcases changeSessionStateInternal_cases { l with credentials := some c } .initialized with
      ⟨hsame, heq⟩ | ⟨hsame, hchanged⟩
    · exact Or.inr (Or.inl ⟨hc, hinitialized ▸ hsame, heq⟩)
    · exact Or.inr (Or.inr ⟨hc, hinitialized ▸ hsame, hchanged⟩)

end SessionMaintainerLocker

/-- The instructions that change what `SameTokens` compares. -/
def Instr.movesTokens : Instr → Bool
  | .setCredentials _ | .nextWaitingSessionTokenRequest | .addInProgressRequestWithToken _ _ _
  | .tryRequestSessionToken _ _ | .deleteCheckedOutToken _ _ | .reuseToken _ _ _
  | .handleSessionTokenResponse _ _ | .setSessionStateSafe _ _ _ | .addSessionToken _ _ _ _
  | .release _ => true
  | _ => false

/-- The instructions that carry no token, credentials or answer about them. -/
def Instr.tokenless : Instr → Bool
  | .setCredentials _ | .initWithToken _ _ | .addInProgressRequestWithToken _ _ _
  | .getSessionToken _ | .handleSessionTokenResponse _ _ | .getSessionState _ _
  | .compareCredentials _ _ _ | .getFailureCount _ _ _ _ _ | .setSessionStateSafe _ _ _
  | .addSessionToken _ _ _ _ => false
  | _ => true

theorem Instr.tokenless_of_control {i : Instr} (h : i.control = true) : i.tokenless = true := by
  cases i <;> first | rfl | cases h

/-- The tokens that are between two places. -/
def Instr.tokens : Instr → List SessionTokenData
  | .initWithToken _ st | .addInProgressRequestWithToken _ _ st => [st]
  | .addSessionToken response c _ _ => [response.token c]
  | .getSessionState response c => if response.errorCode = none then [response.token c] else []
  | _ => []

/-- The token of an answer that is still counted as asked for. -/
def Instr.arriving : Instr → List SessionTokenData
  | .handleSessionTokenResponse response c =>
    if response.errorCode = none then [response.token c] else []
  | _ => []

/-- A token that was taken out of `session_tokens_` for a request. -/
def Instr.taken : Instr → Option SessionTokenData
  | .initWithToken _ st | .addInProgressRequestWithToken _ _ st => some st
  | _ => none

theorem Instr.taken_of_tokenless {i : Instr} (h : i.tokenless = true) : i.taken = none := by
  cases i <;> first | rfl | cases h

theorem Instr.tokens_of_tokenless {i : Instr} (h : i.tokenless = true) : i.tokens = [] := by
  cases i <;> first | rfl | cases h

theorem Instr.arriving_of_tokenless {i : Instr} (h : i.tokenless = true) : i.arriving = [] := by
  cases i <;> first | rfl | cases h

namespace State

variable {s s' : State}

theorem sameTokens_exec (s : State) {i : Instr} (h : i.movesTokens = false) :
    SameTokens s.locker (s.exec i).1.locker := by
  cases i with
  | addWaitingRequest q | moveInProgressToWaiting q a =>
    have hsame := SessionMaintainerLocker.sameTokens_pushWaiting
    exact ⟨(hsame _ _ _).sessionState, (hsame _ _ _).changeCount, (hsame _ _ _).credentials,
      (hsame _ _ _).stored, (hsame _ _ _).checkedOut, (hsame _ _ _).requested,
      (hsame _ _ _).accepted, (hsame _ _ _).returned⟩
  | nextWaitingNonSessionTokenRequest =>
    rcases s.attemptNonSessionTokenRequest_cases with ⟨q, l, hl, heq⟩ | heq
    · obtain ⟨waiting, -, rfl⟩ :=
        SessionMaintainerLocker.nextWaitingNonSessionTokenRequest_eq_some hl
      simp only [exec, heq, setLocker_locker]
      exact ⟨rfl, rfl, rfl, rfl, rfl, rfl, rfl, rfl⟩
    · simp only [exec, heq]
      exact sameTokens_rfl
  | handleTimedOutRequest q =>
    rcases s.handleTimedOutRequest_cases q with ⟨l, hl, heq⟩ | ⟨-, heq⟩
    · rcases SessionMaintainerLocker.handleTimedOutRequest_eq_some hl with ⟨-, rfl⟩ | ⟨-, rfl⟩ <;>
        simp only [exec, heq, setLocker_locker] <;> exact ⟨rfl, rfl, rfl, rfl, rfl, rfl, rfl, rfl⟩
    · simp only [exec, heq]
      exact sameTokens_rfl
  | _ => first | exact ⟨rfl, rfl, rfl, rfl, rfl, rfl, rfl, rfl⟩ | cases h

@[simp] theorem setLocker_tokenRequests (s : State) (l : SessionMaintainerLocker) :
    (s.setLocker l).tokenRequests = s.tokenRequests := rfl

theorem tokenRequests_exec (s : State) {i : Instr} (h : ∀ c, i ≠ .getSessionToken c) :
    (s.exec i).1.tokenRequests = s.tokenRequests := by
  cases i with
  | getSessionToken c => exact absurd rfl (h c)
  | nextWaitingNonSessionTokenRequest =>
    rcases s.attemptNonSessionTokenRequest_cases with ⟨q, l, -, heq⟩ | heq <;>
      simp only [exec, heq, setLocker_tokenRequests]
  | nextWaitingSessionTokenRequest =>
    rcases s.attemptSessionTokenRequest_cases with ⟨q, st, l, -, heq⟩ | heq <;>
      simp only [exec, heq, setLocker_tokenRequests]
  | tryRequestSessionToken c loop =>
    rcases s.tryRequestSessionToken_cases c loop with ⟨l, -, heq⟩ | heq <;>
      simp only [exec, heq, setLocker_tokenRequests]
  | addSessionToken response c state count =>
    rcases s.addSessionToken_cases response c state count with ⟨l, -, heq⟩ | ⟨-, heq⟩ <;>
      simp only [exec, heq, setLocker_tokenRequests]
  | handleTimedOutRequest q =>
    rcases s.handleTimedOutRequest_cases q with ⟨l, -, heq⟩ | ⟨-, heq⟩ <;>
      simp only [exec, heq, setLocker_tokenRequests]
  | _ => rfl

/-- What the actions do to tokens. -/
inductive TokenMoves (s : State) : Act → State → Prop
  | starts {a : Act} {s' : State} (program : List Instr) (hlocker : SameTokens s.locker s'.locker)
      (htokenRequests : s'.tokenRequests = s.tokenRequests) (hissued : s'.issued = s.issued)
      (hexists : s'.maintainerExists = s.maintainerExists)
      (hthreads : s'.threads = Threads.spawn program s.threads)
      (hprogram : ∀ j ∈ program, j.tokenless = true) : TokenMoves s a s'
  | setLoginCredentials (c : Credentials) (hexists : s.maintainerExists = true) :
      TokenMoves s (.setLoginCredentials c) (s.spawn [.setCredentials c, .attemptRequests])
  | tokenResponse (n : ℕ) (c : Credentials) (response : TokenResponse)
      (h : (n, c) ∈ s.tokenRequests) :
      TokenMoves s (.tokenResponse n c response) (s.tokenResponse n c response)
  | destroy (hexists : s.maintainerExists = true) (h : ∀ i ∈ pending s.threads, i.outlives) :
      TokenMoves s .destroy (s.destroy.spawn [.stopTimeouts, .moveRequests])
  | run (k : ℕ) (i : Instr) (rest : List Instr) (h : s.threads[k]? = some (i :: rest)) :
      TokenMoves s (.run k) (s.runThread k i rest)

theorem tokenless_updateConnectionState (ec : Option ErrorCode) :
    ∀ j ∈ updateConnectionState ec, j.tokenless = true := fun j hj =>
  Instr.tokenless_of_control (control_updateConnectionState ec j hj)

/-- Most instructions leave nothing about tokens. -/
theorem tokenless_pushed {i j : Instr} (hj : j ∈ (s.exec i).2) (hi : i.tokenless = true)
    (hnext : i ≠ .nextWaitingSessionTokenRequest)
    (htry : ∀ c loop, i ≠ .tryRequestSessionToken c loop) : j.tokenless = true := by
  cases pushes_exec hj with
  | control h => exact Instr.tokenless_of_control h
  | initWithToken => exact absurd rfl hnext
  | getSessionToken => exact absurd rfl (htry _ _)
  | handleCompletion _ h => rcases mem_handleCompletion h with rfl | rfl | rfl | rfl <;> rfl
  | handleRetryRequest _ h =>
    rcases mem_handleRetryRequest h with rfl | rfl | rfl | rfl | rfl <;> rfl
  | _ => first | rfl | cases hi

theorem sameTokens_nextDelayedRequest {l l' : SessionMaintainerLocker} {now r : ℕ}
    (h : l.nextDelayedRequest now = some (r, l')) : SameTokens l l' := by
  obtain ⟨events, -, rfl⟩ := SessionMaintainerLocker.nextDelayedRequest_eq_some h
  exact ⟨rfl, rfl, rfl, rfl, rfl, rfl, rfl, rfl⟩

theorem sameTokens_nextTimedOutRequest {l l' : SessionMaintainerLocker} {now r : ℕ}
    (h : l.nextTimedOutRequest now = some (r, l')) : SameTokens l l' := by
  obtain ⟨⟨q, events⟩, -, heq⟩ := Option.map_eq_some_iff.mp h
  cases heq
  exact ⟨rfl, rfl, rfl, rfl, rfl, rfl, rfl, rfl⟩

theorem tokenMoves_of_step {a : Act} (h : s.step a = some s') : TokenMoves s a s' := by
  unfold step at h
  split_ifs at h with hready
  have hexists (hnot : a.outlives = false) : s.maintainerExists = true := by
    simpa [hnot] using hready
  cases a with
  | setLoginCredentials c =>
    cases h
    exact .setLoginCredentials c (hexists rfl)
  | call usesSessionToken =>
    cases h
    exact .starts [.addWaitingRequest s.called, .attemptRequests] sameTokens_rfl rfl rfl rfl rfl
      (by simp [Instr.tokenless])
  | setTimeoutSeconds timeoutSeconds =>
    cases h
    exact .starts [] sameTokens_rfl rfl rfl rfl rfl (by simp)
  | cancelRequest r =>
    simp only [act] at h
    split_ifs at h
    cases h
    exact .starts [.cancel r] sameTokens_rfl rfl rfl rfl rfl (by simp [Instr.tokenless])
  | dropRequest r =>
    simp only [act] at h
    split_ifs at h
    cases h
    exact .starts [] sameTokens_rfl rfl rfl rfl rfl (by simp)
  | apiResponse n r response =>
    simp only [act] at h
    split_ifs at h
    cases h
    unfold apiResponse
    split_ifs
    · exact .starts [.completionNotification response.errorCode, .retryOrComplete r n response]
        sameTokens_rfl rfl rfl rfl rfl (by simp [Instr.tokenless])
    · exact .starts [] sameTokens_rfl rfl rfl rfl rfl (by simp)
  | tokenResponse n c response =>
    simp only [act] at h
    split_ifs at h with hmem
    cases h
    exact .tokenResponse n c response hmem
  | statusResponse n ec =>
    simp only [act] at h
    split_ifs at h
    cases h
    unfold statusResponse
    split_ifs
    · refine .starts (handleCheckConnectionStatusResponse ec) sameTokens_rfl rfl rfl rfl rfl
        fun j hj => ?_
      rcases List.mem_append.mp hj with hj | hj
      · exact tokenless_updateConnectionState ec j hj
      · rw [List.mem_singleton.mp hj]
        rfl
    · exact .starts [] sameTokens_rfl rfl rfl rfl rfl (by simp)
  | failureTimerExpires | recheckTimerExpires =>
    obtain ⟨t, -, rfl⟩ := Option.map_eq_some_iff.mp h
    exact .starts [] sameTokens_rfl rfl rfl rfl rfl (by simp)
  | failureTimerFires =>
    obtain ⟨t, -, rfl⟩ := Option.map_eq_some_iff.mp h
    exact .starts [.attemptRequests, .requestNeededSessionTokens true] sameTokens_rfl rfl rfl rfl
      rfl (by simp [Instr.tokenless])
  | recheckTimerFires =>
    obtain ⟨t, -, rfl⟩ := Option.map_eq_some_iff.mp h
    exact .starts [.attemptRequests] sameTokens_rfl rfl rfl rfl rfl (by simp [Instr.tokenless])
  | delayedFires =>
    obtain ⟨⟨r, l⟩, hnext, rfl⟩ := Option.map_eq_some_iff.mp h
    exact .starts [.addWaitingRequest r, .attemptRequests] (sameTokens_nextDelayedRequest hnext)
      rfl rfl rfl rfl (by simp [Instr.tokenless])
  | timeoutFires =>
    obtain ⟨⟨r, l⟩, hnext, rfl⟩ := Option.map_eq_some_iff.mp h
    have hsame := sameTokens_nextTimedOutRequest hnext
    change TokenMoves s .timeoutFires (s.timeoutFires r l)
    unfold State.timeoutFires
    split_ifs
    · exact .starts [.handleTimedOutRequest r] hsame rfl rfl rfl rfl (by simp [Instr.tokenless])
    · exact .starts [] hsame rfl rfl rfl rfl (by simp)
  | stopTimeouts =>
    cases h
    exact .starts [.stopTimeouts] sameTokens_rfl rfl rfl rfl rfl (by simp [Instr.tokenless])
  | destroy =>
    simp only [act] at h
    split_ifs at h with hout
    cases h
    exact .destroy (hexists rfl) hout
  | run k =>
    simp only [act] at h
    split at h
    · rename_i i rest hk
      cases h
      exact .run k i rest hk
    · cases h
  | clock ms =>
    cases h
    exact .starts [] sameTokens_rfl rfl rfl rfl rfl (by simp)

end State

/-! ### Where tokens and session states come from -/

/-- Credentials, session state and change count stay. -/
structure SameSession (l l' : SessionMaintainerLocker) : Prop where
  sessionState : l'.sessionState = l.sessionState
  changeCount : l'.sessionStateChangeCount = l.sessionStateChangeCount
  credentials : l'.credentials = l.credentials

theorem SameTokens.sameSession {l l' : SessionMaintainerLocker} (h : SameTokens l l') :
    SameSession l l' := ⟨h.sessionState, h.changeCount, h.credentials⟩

def Instr.movesSession : Instr → Bool
  | .setCredentials _ | .setSessionStateSafe _ _ _ => true
  | _ => false

namespace SessionMaintainerLocker

theorem reuseToken_cases (l : SessionMaintainerLocker) (uses : Bool) (r : ℕ) (newKey : Bool) :
    l.reuseToken uses r newKey = l ∨ ∃ out, uses = true ∧ l.checkedOutTokens.find? r = some out ∧
      l.reuseToken uses r newKey =
        { l with
          checkedOutTokens := l.checkedOutTokens.erase r
          sessionTokens := l.sessionTokens ++ [renewKey newKey out.token]
          returned := l.returned ++ [(out.token.sessionToken, newKey)] } := by
  unfold reuseToken
  cases uses with
  | false => exact Or.inl rfl
  | true =>
    cases l.checkedOutTokens.find? r with
    | none => exact Or.inl rfl
    | some out => exact Or.inr ⟨out, rfl, rfl, rfl⟩

theorem renewKey_credentials (newKey : Bool) (st : SessionTokenData) :
    (renewKey newKey st).credentials = st.credentials := by
  cases newKey <;> rfl

theorem renewKey_sessionToken (newKey : Bool) (st : SessionTokenData) :
    (renewKey newKey st).sessionToken = st.sessionToken := by
  cases newKey <;> rfl

end SessionMaintainerLocker

namespace State

theorem sameSession_exec (s : State) {i : Instr} (h : i.movesSession = false) :
    SameSession s.locker (s.exec i).1.locker := by
  cases hmoves : i.movesTokens with
  | false => exact (s.sameTokens_exec hmoves).sameSession
  | true =>
    cases i with
    | nextWaitingSessionTokenRequest =>
      rcases s.attemptSessionTokenRequest_cases with ⟨r, st, l, hl, heq⟩ | heq
      · obtain ⟨waiting, tokens, -, -, rfl⟩ :=
          SessionMaintainerLocker.nextWaitingSessionTokenRequest_eq_some hl
        simp only [exec, heq, setLocker_locker]
        exact ⟨rfl, rfl, rfl⟩
      · simp only [exec, heq]
        exact ⟨rfl, rfl, rfl⟩
    | tryRequestSessionToken c loop =>
      rcases s.tryRequestSessionToken_cases c loop with ⟨l, hl, heq⟩ | heq
      · obtain ⟨-, rfl⟩ := SessionMaintainerLocker.startRequestSessionToken_eq_some hl
        simp only [exec, heq, setLocker_locker]
        exact ⟨rfl, rfl, rfl⟩
      · simp only [exec, heq]
        exact ⟨rfl, rfl, rfl⟩
    | reuseToken r a newKey =>
      rcases s.locker.reuseToken_cases (s.requests r).usesSessionToken r newKey with
        heq | ⟨out, -, -, heq⟩
      · simp only [exec, setLocker_locker, heq]
        exact ⟨rfl, rfl, rfl⟩
      · simp only [exec, setLocker_locker, heq]
        exact ⟨rfl, rfl, rfl⟩
    | addSessionToken response c state count =>
      rcases s.addSessionToken_cases response c state count with ⟨l, hl, heq⟩ | ⟨-, heq⟩
      · obtain ⟨-, rfl⟩ := SessionMaintainerLocker.addSessionToken_eq_some hl
        simp only [exec, heq, setLocker_locker]
        exact ⟨rfl, rfl, rfl⟩
      · simp only [exec, heq]
        exact ⟨rfl, rfl, rfl⟩
    | setCredentials c | setSessionStateSafe newState count c => cases h
    | _ => first | exact ⟨rfl, rfl, rfl⟩ | cases hmoves

/-- A token is accepted until a state is set that clears the tables. -/
theorem accepted_exec (s : State) {i : Instr} (h : i.movesSession = false) {t : String}
    (ht : t ∈ s.locker.accepted) : t ∈ (s.exec i).1.locker.accepted := by
  cases hmoves : i.movesTokens with
  | false => exact (s.sameTokens_exec hmoves).accepted ▸ ht
  | true =>
    cases i with
    | nextWaitingSessionTokenRequest =>
      rcases s.attemptSessionTokenRequest_cases with ⟨r, st, l, hl, heq⟩ | heq
      · obtain ⟨waiting, tokens, -, -, rfl⟩ :=
          SessionMaintainerLocker.nextWaitingSessionTokenRequest_eq_some hl
        simp only [exec, heq, setLocker_locker]
        exact ht
      · simp only [exec, heq]
        exact ht
    | tryRequestSessionToken c loop =>
      rcases s.tryRequestSessionToken_cases c loop with ⟨l, hl, heq⟩ | heq
      · obtain ⟨-, rfl⟩ := SessionMaintainerLocker.startRequestSessionToken_eq_some hl
        simp only [exec, heq, setLocker_locker]
        exact ht
      · simp only [exec, heq]
        exact ht
    | reuseToken r a newKey =>
      rcases s.locker.reuseToken_cases (s.requests r).usesSessionToken r newKey with
        heq | ⟨out, -, -, heq⟩
      · simp only [exec, setLocker_locker, heq]
        exact ht
      · simp only [exec, setLocker_locker, heq]
        exact ht
    | addSessionToken response c state count =>
      rcases s.addSessionToken_cases response c state count with ⟨l, hl, heq⟩ | ⟨-, heq⟩
      · obtain ⟨-, rfl⟩ := SessionMaintainerLocker.addSessionToken_eq_some hl
        simp only [exec, heq, setLocker_locker]
        exact List.mem_append_left _ ht
      · simp only [exec, heq]
        exact ht
    | setCredentials c | setSessionStateSafe newState count c => cases h
    | _ => first | exact ht | cases hmoves

/-- Where a stored token comes from. -/
inductive StoredBy (s : State) (st : SessionTokenData) : Instr → Prop
  | kept {i : Instr} (h : st ∈ s.locker.sessionTokens) : StoredBy s st i
  | accepted {response : TokenResponse} {c : Credentials} {state : SessionState} {count : ℕ}
      (hst : st = response.token c) (hc : s.locker.credentials = some c)
      (ht : st.sessionToken ∈ (s.exec (.addSessionToken response c state count)).1.locker.accepted) :
      StoredBy s st (.addSessionToken response c state count)
  | returned {r a : ℕ} {newKey : Bool} {out : CheckedOut}
      (hst : st = SessionMaintainerLocker.renewKey newKey out.token)
      (hout : s.locker.checkedOutTokens.find? r = some out) :
      StoredBy s st (.reuseToken r a newKey)

theorem storedBy_exec {s : State} {i : Instr} {st : SessionTokenData}
    (h : st ∈ (s.exec i).1.locker.sessionTokens) : StoredBy s st i := by
  cases hmoves : i.movesTokens with
  | false => exact .kept ((s.sameTokens_exec hmoves).stored ▸ h)
  | true =>
    cases i with
    | setCredentials c =>
      rcases s.locker.setCredentials_cases c with ⟨-, heq⟩ | ⟨-, -, heq⟩ | ⟨-, -, hchanged⟩
      · simp only [exec, setLocker_locker, heq] at h
        exact .kept h
      · simp only [exec, setLocker_locker, heq] at h
        exact .kept h
      · change st ∈ (s.locker.setCredentials c).sessionTokens at h
        rw [hchanged.stored] at h
        cases h
    | setSessionStateSafe newState count c =>
      rcases s.locker.setSessionStateSafe_cases newState count with ⟨-, heq⟩ | ⟨-, -, hchanged⟩
      · simp only [exec, setLocker_locker, heq] at h
        exact .kept h
      · change st ∈ (s.locker.setSessionStateSafe newState count).sessionTokens at h
        rw [hchanged.stored] at h
        split_ifs at h
        · cases h
        · exact .kept h
    | nextWaitingSessionTokenRequest =>
      rcases s.attemptSessionTokenRequest_cases with ⟨r, st', l, hl, heq⟩ | heq
      · obtain ⟨waiting, tokens, -, htokens, rfl⟩ :=
          SessionMaintainerLocker.nextWaitingSessionTokenRequest_eq_some hl
        simp only [exec, heq, setLocker_locker] at h
        exact .kept (htokens ▸ List.mem_append_left _ h)
      · simp only [exec, heq] at h
        exact .kept h
    | tryRequestSessionToken c loop =>
      rcases s.tryRequestSessionToken_cases c loop with ⟨l, hl, heq⟩ | heq
      · obtain ⟨-, rfl⟩ := SessionMaintainerLocker.startRequestSessionToken_eq_some hl
        simp only [exec, heq, setLocker_locker] at h
        exact .kept h
      · simp only [exec, heq] at h
        exact .kept h
    | reuseToken r a newKey =>
      rcases s.locker.reuseToken_cases (s.requests r).usesSessionToken r newKey with
        heq | ⟨out, -, hout, heq⟩
      · simp only [exec, setLocker_locker, heq] at h
        exact .kept h
      · simp only [exec, setLocker_locker, heq] at h
        rcases List.mem_append.mp h with h | h
        · exact .kept h
        · exact .returned (List.mem_singleton.mp h) hout
    | addSessionToken response c state count =>
      rcases s.addSessionToken_cases response c state count with ⟨l, hl, heq⟩ | ⟨-, heq⟩
      · obtain ⟨hc, rfl⟩ := SessionMaintainerLocker.addSessionToken_eq_some hl
        simp only [exec, heq, setLocker_locker] at h
        rcases List.mem_append.mp h with h | h
        · exact .kept h
        · obtain rfl := List.mem_singleton.mp h
          refine .accepted rfl hc ?_
          simp only [exec, heq, setLocker_locker]
          exact List.mem_append_right _ (List.mem_singleton_self _)
      · simp only [exec, heq] at h
        exact .kept h
    | _ => first | exact .kept h | cases hmoves

end State

/-! ### The states that responses lead to -/

/-- The states that `HandleSessionTokenResponse` makes are of the kind that its branch says. -/
def Instr.wellMade : Instr → Bool
  | .compareCredentials newState _ _ => newState.isCredentialsError
  | .getFailureCount _ _ newState _ _ => newState.isProlongedError
  | .setSessionStateSafe newState _ _ =>
    newState.isCredentialsError || newState.isProlongedError || newState.isRunning
  | _ => true

theorem Instr.wellMade_of_tokenless {i : Instr} (h : i.tokenless = true) : i.wellMade = true := by
  cases i <;> first | rfl | cases h

namespace State

variable {s s' : State}

def WellMade (s : State) : Prop := ∀ i ∈ pending s.threads, i.wellMade = true

theorem wellMade_pushed {i j : Instr} (hi : i.wellMade = true) (hj : j ∈ (s.exec i).2) :
    j.wellMade = true := by
  cases pushes_exec hj with
  | control h => exact Instr.wellMade_of_tokenless (Instr.tokenless_of_control h)
  | compareCredentials _ hnew => exact hnew
  | getFailureCount hnew => exact hnew
  | credentialsFailure _ =>
    have hnew : SessionState.isCredentialsError _ = true := hi
    simp [Instr.wellMade, hnew]
  | prolongedError _ =>
    have hnew : SessionState.isProlongedError _ = true := hi
    simp [Instr.wellMade, hnew]
  | handleCompletion _ h => rcases mem_handleCompletion h with rfl | rfl | rfl | rfl <;> rfl
  | handleRetryRequest _ h =>
    rcases mem_handleRetryRequest h with rfl | rfl | rfl | rfl | rfl <;> rfl
  | _ => rfl

theorem WellMade.spawn (h : WellMade s) (program : List Instr)
    (hthreads : s'.threads = Threads.spawn program s.threads)
    (hprogram : ∀ j ∈ program, j.wellMade = true) : WellMade s' := by
  intro j hj
  rw [hthreads] at hj
  exact (mem_pending_spawn.mp hj).elim (h j) (hprogram j)

theorem WellMade.step {a : Act} (h : WellMade s) (hs : s.step a = some s') : WellMade s' := by
  cases tokenMoves_of_step hs with
  | starts program _ _ _ _ hthreads hprogram =>
    exact h.spawn program hthreads fun j hj => Instr.wellMade_of_tokenless (hprogram j hj)
  | setLoginCredentials c _ =>
    exact h.spawn [.setCredentials c, .attemptRequests] rfl (by simp [Instr.wellMade])
  | tokenResponse n c response _ =>
    by_cases hmaintainer : s.maintainerExists = true
    · rw [State.tokenResponse, if_pos hmaintainer]
      exact h.spawn [.handleSessionTokenResponse response c] rfl
        (by simp [Instr.wellMade])
    · rw [State.tokenResponse, if_neg hmaintainer]
      exact h
  | destroy _ _ =>
    exact h.spawn [.stopTimeouts, .moveRequests] rfl (by simp [Instr.wellMade])
  | run k i rest hk =>
    have hthread := stepped_runThread hk
    intro j hj
    exact (hthread.mem hj).elim (wellMade_pushed (h i hthread.head_mem)) (h j)

theorem wellMade_created : WellMade created := fun _ hi => by cases hi

end State

/-! ### What the tokens weigh -/

/-- The sum of the weights of the tokens in the two tables. -/
def SessionMaintainerLocker.tokenWeight (weight : SessionTokenData → ℕ)
    (l : SessionMaintainerLocker) : ℕ :=
  (l.sessionTokens.map weight).sum + l.checkedOutTokens.weigh fun out => weight out.token

def Instr.weight (weight : SessionTokenData → ℕ) (i : Instr) : ℕ := (i.tokens.map weight).sum

def Instr.arrivingWeight (weight : SessionTokenData → ℕ) (i : Instr) : ℕ :=
  (i.arriving.map weight).sum

variable {weight : SessionTokenData → ℕ}

theorem Instr.weight_of_tokenless {i : Instr} (h : i.tokenless = true) : i.weight weight = 0 := by
  rw [Instr.weight, Instr.tokens_of_tokenless h]
  rfl

theorem sum_weight_of_tokenless {program : List Instr} (h : ∀ j ∈ program, j.tokenless = true) :
    (program.map (Instr.weight weight)).sum = 0 := by
  apply List.sum_eq_zero
  intro n hn
  obtain ⟨j, hj, rfl⟩ := List.mem_map.mp hn
  exact Instr.weight_of_tokenless (h j hj)

theorem SameTokens.tokenWeight {l l' : SessionMaintainerLocker} (h : SameTokens l l') :
    l'.tokenWeight weight = l.tokenWeight weight := by
  rw [SessionMaintainerLocker.tokenWeight, h.stored, h.checkedOut,
    SessionMaintainerLocker.tokenWeight]

namespace SessionMaintainerLocker

variable (l : SessionMaintainerLocker)

variable {l} in
theorem tokenWeight_stateChanged {l' : SessionMaintainerLocker} {state : SessionState}
    (h : StateChanged state l l') : l'.tokenWeight weight ≤ l.tokenWeight weight := by
  unfold tokenWeight
  rw [h.stored, h.checkedOut]
  split_ifs
  · exact Nat.zero_le _
  · exact le_rfl

theorem tokenWeight_setCredentials (c : Credentials) :
    (l.setCredentials c).tokenWeight weight ≤ l.tokenWeight weight := by
  rcases l.setCredentials_cases c with ⟨-, heq⟩ | ⟨-, -, heq⟩ | ⟨-, -, hchanged⟩
  · rw [heq]
  · rw [heq]
    exact le_rfl
  · exact (tokenWeight_stateChanged hchanged).trans le_rfl

theorem tokenWeight_setSessionStateSafe (state : SessionState) (count : ℕ) :
    (l.setSessionStateSafe state count).tokenWeight weight ≤ l.tokenWeight weight := by
  rcases l.setSessionStateSafe_cases state count with ⟨-, heq⟩ | ⟨-, -, hchanged⟩
  · rw [heq]
  · exact tokenWeight_stateChanged hchanged

theorem tokenWeight_nextWaitingSt {l l' : SessionMaintainerLocker} {r : ℕ} {st : SessionTokenData}
    (h : l.nextWaitingSessionTokenRequest = some (r, st, l')) :
    l'.tokenWeight weight + weight st = l.tokenWeight weight := by
  obtain ⟨waiting, tokens, -, htokens, rfl⟩ := nextWaitingSessionTokenRequest_eq_some h
  simp only [tokenWeight, htokens, List.map_append, List.map_cons, List.map_nil, List.sum_append,
    List.sum_cons, List.sum_nil]
  omega

theorem tokenWeight_addInProgressRequestWithToken (r a : ℕ) (st : SessionTokenData) :
    (l.addInProgressRequestWithToken r a st).tokenWeight weight ≤
      l.tokenWeight weight + weight st := by
  have hadd : (l.checkedOutTokens.add r ⟨st, a⟩).weigh (fun out => weight out.token) ≤
      l.checkedOutTokens.weigh (fun out => weight out.token) + weight st := Table.weigh_add_le _
  simp only [tokenWeight, addInProgressRequestWithToken, addInProgressRequest]
  omega

theorem tokenWeight_deleteCheckedOutToken (r : ℕ) :
    (l.deleteCheckedOutToken r).tokenWeight weight ≤ l.tokenWeight weight :=
  Nat.add_le_add_left (Table.weigh_erase_le _ r) _

theorem tokenWeight_reuseToken (hrenew : ∀ newKey st, weight (renewKey newKey st) = weight st)
    (uses : Bool) (r : ℕ) (newKey : Bool) :
    (l.reuseToken uses r newKey).tokenWeight weight ≤ l.tokenWeight weight := by
  unfold reuseToken
  cases hfind : l.checkedOutTokens.find? r with
  | none => split_ifs <;> exact le_rfl
  | some st =>
    have herase := Table.weigh_erase (fun out => weight out.token) hfind
    split_ifs
    · simp only [tokenWeight, List.map_append, List.map_cons, List.map_nil, List.sum_append,
        List.sum_cons, List.sum_nil, hrenew]
      omega
    · exact le_rfl

end SessionMaintainerLocker

theorem sum_weight_getSessionState (weight : SessionTokenData → ℕ) (s : State)
    (response : TokenResponse) (c : Credentials) :
    ((s.exec (.getSessionState response c)).2.map (Instr.weight weight)).sum ≤
      ((if response.errorCode = none then [response.token c] else []).map weight).sum := by
  have hconnection : ((updateConnectionState response.errorCode).map (Instr.weight weight)).sum = 0 :=
    sum_weight_of_tokenless (State.tokenless_updateConnectionState _)
  simp only [State.exec, List.map_append, List.sum_append, hconnection, finishToken]
  cases hec : response.errorCode with
  | none => simp [Instr.weight, Instr.tokens]
  | some ec =>
    have hfail : ((failToken response ec c s.locker.sessionState
        s.locker.sessionStateChangeCount).map (Instr.weight weight)).sum = 0 := by
      unfold failToken failCredentials
      split_ifs <;> rfl
    simp only [List.cons_append, List.map_cons, List.map_append, List.sum_cons, List.sum_append,
      hfail]
    simp [Instr.weight, Instr.tokens]

/-- No step makes a token: what is there afterwards was there, between two places or arriving. -/
theorem State.weight_exec (weight : SessionTokenData → ℕ) (hrenew : ∀ newKey st,
      weight (SessionMaintainerLocker.renewKey newKey st) = weight st) (s : State) (i : Instr) :
    (s.exec i).1.locker.tokenWeight weight + ((s.exec i).2.map (Instr.weight weight)).sum ≤
      s.locker.tokenWeight weight + i.weight weight + i.arrivingWeight weight := by
  cases i with
  | setCredentials c =>
    exact Nat.le_add_right_of_le (Nat.le_add_right_of_le (s.locker.tokenWeight_setCredentials c))
  | setSessionStateSafe newState count c =>
    exact Nat.le_add_right_of_le
      (Nat.le_add_right_of_le (s.locker.tokenWeight_setSessionStateSafe newState count))
  | deleteCheckedOutToken r a =>
    exact Nat.le_add_right_of_le
      (Nat.le_add_right_of_le (s.locker.tokenWeight_deleteCheckedOutToken r))
  | reuseToken r a newKey =>
    exact Nat.le_add_right_of_le (Nat.le_add_right_of_le
      (s.locker.tokenWeight_reuseToken hrenew (s.requests r).usesSessionToken r newKey))
  | release rs =>
    exact Nat.le_add_right_of_le (Nat.le_add_right_of_le (Nat.add_le_add_left (Nat.zero_le _) _))
  | addInProgressRequestWithToken r a st =>
    exact Nat.le_add_right_of_le (s.locker.tokenWeight_addInProgressRequestWithToken r a st)
  | initWithToken r st => exact le_rfl
  | nextWaitingSessionTokenRequest =>
    rcases s.attemptSessionTokenRequest_cases with ⟨r, st, l, hl, heq⟩ | heq
    · have hweight : l.tokenWeight weight + weight st = s.locker.tokenWeight weight :=
        SessionMaintainerLocker.tokenWeight_nextWaitingSt hl
      simp only [exec, heq, setLocker_locker, List.map_cons, List.map_nil, List.sum_cons,
        List.sum_nil, Instr.weight, Instr.tokens]
      omega
    · simp [exec, heq, Instr.weight, Instr.tokens]
  | handleSessionTokenResponse response c => exact le_rfl
  | tryRequestSessionToken c loop =>
    rcases s.tryRequestSessionToken_cases c loop with ⟨l, hl, heq⟩ | heq
    · obtain ⟨-, rfl⟩ := SessionMaintainerLocker.startRequestSessionToken_eq_some hl
      simp only [exec, heq, setLocker_locker]
      cases loop <;> exact le_rfl
    · simp only [exec, heq]
      exact le_rfl
  | getSessionState response c =>
    have hpushed := sum_weight_getSessionState weight s response c
    change s.locker.tokenWeight weight + _ ≤ _ + (List.map weight _).sum + _
    simp only [Instr.tokens]
    omega
  | addSessionToken response c state count =>
    rcases s.addSessionToken_cases response c state count with ⟨l, hl, heq⟩ | ⟨-, heq⟩
    · obtain ⟨-, rfl⟩ := SessionMaintainerLocker.addSessionToken_eq_some hl
      have hnone : ((if (!state.isUninitialized && !state.isRunning) = true then
          [Instr.setSessionStateSafe (.running response) count c] else []).map
            (Instr.weight weight)).sum = 0 := by
        split_ifs <;> rfl
      simp only [exec, heq, setLocker_locker, SessionMaintainerLocker.tokenWeight,
        List.map_append, List.sum_append, List.map_cons, List.map_nil, List.sum_cons,
        List.sum_nil, Instr.weight, Instr.tokens, hnone]
      omega
    · simp only [exec, heq]
      exact Nat.le_add_right_of_le (Nat.le_add_right _ _)
  | compareCredentials newState count c =>
    simp only [exec]
    split_ifs <;> exact le_rfl
  | getFailureCount locked state newState count c =>
    simp only [exec]
    split_ifs <;> exact le_rfl
  | getSessionToken c => exact Nat.le_add_right _ _
  | _ =>
    rw [(s.sameTokens_exec rfl).tokenWeight, sum_weight_of_tokenless fun j hj =>
      tokenless_pushed hj rfl (by simp) (by simp)]
    exact Nat.le_add_right _ _

end MediafireSdk.Api
