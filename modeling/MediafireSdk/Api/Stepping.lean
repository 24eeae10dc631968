import MediafireSdk.Api.SessionMaintainer

/-! What steps of the session maintainer do to its requests. A request waits in a
queue, is delayed or has an attempt in flight; most instructions and actions leave
all of that as it is and go on with instructions that hold no request. -/

namespace MediafireSdk.Api

open Utils Threads

/-! ### Requests of the locker -/

/-- No request moves between two states of the locker, and no token is checked out. -/
structure SameRequests (l l' : SessionMaintainerLocker) : Prop where
  waitingSt : l'.waitingStRequests = l.waitingStRequests
  waitingNonSt : l'.waitingNonStRequests = l.waitingNonStRequests
  inProgress : l'.inProgressRequests = l.inProgressRequests
  delayed : l'.delayedRequests = l.delayedRequests
  checkedOut : ∀ r st, l'.checkedOutTokens.find? r = some st → l.checkedOutTokens.find? r = some st

namespace SessionMaintainerLocker

variable (l : SessionMaintainerLocker)

theorem sameRequests_visitNewState (state : SessionState) :
    SameRequests l (l.visitNewState state) := by
  by_cases hclears : state.clearsTokens = true
  · rw [visitNewState, if_pos hclears]
    exact ⟨rfl, rfl, rfl, rfl, fun _ _ h => by cases h⟩
  · rw [visitNewState, if_neg hclears]
    exact ⟨rfl, rfl, rfl, rfl, fun _ _ h => h⟩

theorem sameRequests_changeSessionStateInternal (state : SessionState) :
    SameRequests l (l.changeSessionStateInternal state) := by
  unfold changeSessionStateInternal
  split_ifs
  · exact ⟨rfl, rfl, rfl, rfl, fun _ _ h => h⟩
  · obtain ⟨h₁, h₂, h₃, h₄, h₅⟩ :=
      sameRequests_visitNewState { l with sessionState := state } state
    exact ⟨h₁, h₂, h₃, h₄, h₅⟩

theorem sameRequests_setCredentials (c : Credentials) : SameRequests l (l.setCredentials c) := by
  unfold setCredentials
  split_ifs
  · exact ⟨rfl, rfl, rfl, rfl, fun _ _ h => h⟩
  · have h := sameRequests_changeSessionStateInternal { l with credentials := some c } .initialized
    exact ⟨h.waitingSt, h.waitingNonSt, h.inProgress, h.delayed, h.checkedOut⟩

theorem sameRequests_setSessionStateSafe (state : SessionState) (count : ℕ) :
    SameRequests l (l.setSessionStateSafe state count) := by
  unfold setSessionStateSafe
  split_ifs
  · exact sameRequests_changeSessionStateInternal l state
  · exact ⟨rfl, rfl, rfl, rfl, fun _ _ h => h⟩

theorem sameRequests_deleteCheckedOutToken (r : ℕ) :
    SameRequests l (l.deleteCheckedOutToken r) :=
  ⟨rfl, rfl, rfl, rfl, fun _ _ h => (Table.find?_erase h).2⟩

theorem sameRequests_reuseToken (uses : Bool) (r : ℕ) (newKey : Bool) :
    SameRequests l (l.reuseToken uses r newKey) := by
  unfold reuseToken
  split_ifs
  · cases l.checkedOutTokens.find? r with
    | none => exact ⟨rfl, rfl, rfl, rfl, fun _ _ h => h⟩
    | some st => exact ⟨rfl, rfl, rfl, rfl, fun _ _ h => (Table.find?_erase h).2⟩
  · exact ⟨rfl, rfl, rfl, rfl, fun _ _ h => h⟩

theorem inProgress_pushWaiting (uses : Bool) (r : ℕ) :
    (l.pushWaiting uses r).inProgressRequests = l.inProgressRequests := by
  cases uses <;> rfl

theorem checkedOut_pushWaiting (uses : Bool) (r : ℕ) :
    (l.pushWaiting uses r).checkedOutTokens = l.checkedOutTokens := by
  cases uses <;> rfl

theorem timeOut_pushWaiting (uses : Bool) (r : ℕ) :
    (l.pushWaiting uses r).timeOutRequests = l.timeOutRequests := by
  cases uses <;> rfl

theorem startRequestSessionToken_eq_some {l l' : SessionMaintainerLocker}
    (h : l.startRequestSessionToken = some l') :
    l.mayRequestSessionToken ∧
      l' = { l with inProgressSessionTokenRequests := l.inProgressSessionTokenRequests + 1 } := by
  unfold startRequestSessionToken at h
  split_ifs at h with hmay
  exact ⟨hmay, (Option.some.inj h).symm⟩

theorem addSessionToken_eq_some {l l' : SessionMaintainerLocker} {token : SessionTokenData}
    {c : Credentials} (h : l.addSessionToken token c = some l') :
    l.credentials = some c ∧
      l' = { l with
        sessionTokens := l.sessionTokens ++ [token]
        accepted := l.accepted ++ [token.sessionToken] } := by
  unfold addSessionToken at h
  split_ifs at h with hcredentials
  exact ⟨hcredentials, (Option.some.inj h).symm⟩

theorem nextWaitingNonSessionTokenRequest_eq_some {l l' : SessionMaintainerLocker} {r : ℕ}
    (h : l.nextWaitingNonSessionTokenRequest = some (r, l')) :
    ∃ waiting, l.waitingNonStRequests = r :: waiting ∧
      l' = { l with waitingNonStRequests := waiting } := by
  unfold nextWaitingNonSessionTokenRequest at h
  split at h
  · rename_i r' waiting hwaiting
    cases h
    exact ⟨waiting, hwaiting, rfl⟩
  · cases h

theorem nextWaitingSessionTokenRequest_eq_some {l l' : SessionMaintainerLocker} {r : ℕ}
    {st : SessionTokenData} (h : l.nextWaitingSessionTokenRequest = some (r, st, l')) :
    ∃ waiting tokens, l.waitingStRequests = r :: waiting ∧ l.sessionTokens = tokens ++ [st] ∧
      l' = { l with waitingStRequests := waiting, sessionTokens := tokens } := by
  unfold nextWaitingSessionTokenRequest at h
  split at h
  · rename_i r' waiting st' hwaiting hlast
    cases h
    exact ⟨waiting, l.sessionTokens.dropLast, hwaiting,
      (List.dropLast_append_getLast? st hlast).symm, rfl⟩
  · cases h

/-- The request waits in the queue that its kind belongs to, and leaves it. -/
theorem handleTimedOutRequest_eq_some {l l' : SessionMaintainerLocker} {uses : Bool} {r : ℕ}
    (h : l.handleTimedOutRequest uses r = some l') :
    (r ∈ l.waitingStRequests ∧ l' = { l with waitingStRequests := l.waitingStRequests.erase r }) ∨
      (r ∈ l.waitingNonStRequests ∧
        l' = { l with waitingNonStRequests := l.waitingNonStRequests.erase r }) := by
  unfold handleTimedOutRequest at h
  split_ifs at h with huses hmem hmem
  · exact Or.inl ⟨hmem, (Option.some.inj h).symm⟩
  · exact Or.inr ⟨hmem, (Option.some.inj h).symm⟩

theorem nextDelayedRequest_eq_some {l l' : SessionMaintainerLocker} {now r : ℕ}
    (h : l.nextDelayedRequest now = some (r, l')) :
    ∃ events, l.delayedRequests.next now = some (r, events) ∧
      l' = { l with delayedRequests := events } := by
  obtain ⟨⟨q, events⟩, hnext, heq⟩ := Option.map_eq_some_iff.mp h
  cases heq
  exact ⟨events, hnext, rfl⟩

theorem nextTimedOutRequest_eq_some {l l' : SessionMaintainerLocker} {now r : ℕ}
    (h : l.nextTimedOutRequest now = some (r, l')) : ∃ time,
      l.timeOutRequests.data = (time, r) :: l'.timeOutRequests.data ∧ time ≤ now ∧
        l' = { l with timeOutRequests := l'.timeOutRequests } := by
  obtain ⟨⟨q, events⟩, hnext, heq⟩ := Option.map_eq_some_iff.mp h
  cases heq
  obtain ⟨time, hdata, hle⟩ := TimedEvents.data_of_next hnext
  exact ⟨time, hdata, hle, rfl⟩

theorem sameRequests_nextTimedOutRequest {l l' : SessionMaintainerLocker} {now r : ℕ}
    (h : l.nextTimedOutRequest now = some (r, l')) : SameRequests l l' := by
  obtain ⟨⟨q, events⟩, -, heq⟩ := Option.map_eq_some_iff.mp h
  cases heq
  exact ⟨rfl, rfl, rfl, rfl, fun _ _ h => h⟩

end SessionMaintainerLocker

/-! ### Sections with two outcomes -/

namespace State

variable (s : State)

@[simp] theorem setLocker_locker (l : SessionMaintainerLocker) : (s.setLocker l).locker = l := rfl

@[simp] theorem setLocker_requests (l : SessionMaintainerLocker) :
    (s.setLocker l).requests = s.requests := rfl

@[simp] theorem setLocker_apiRequests (l : SessionMaintainerLocker) :
    (s.setLocker l).apiRequests = s.apiRequests := rfl

@[simp] theorem setLocker_sessionTokenFailureTimer (l : SessionMaintainerLocker) :
    (s.setLocker l).sessionTokenFailureTimer = s.sessionTokenFailureTimer := rfl

theorem tryRequestSessionToken_cases (c : Credentials) (loop : Bool) :
    (∃ l, s.locker.startRequestSessionToken = some l ∧ s.tryRequestSessionToken c loop =
      (s.setLocker l,
        .getSessionToken c :: if loop then [.tryRequestSessionToken c true] else [])) ∨
    s.tryRequestSessionToken c loop = (s, []) := by
  unfold State.tryRequestSessionToken
  cases s.locker.startRequestSessionToken with
  | none => exact Or.inr rfl
  | some l => exact Or.inl ⟨l, rfl, rfl⟩

theorem addSessionToken_cases (response : TokenResponse) (c : Credentials) (state : SessionState)
    (count : ℕ) :
    (∃ l, s.locker.addSessionToken (response.token c) c = some l ∧
      s.addSessionToken response c state count =
        (s.setLocker l,
          if !state.isUninitialized && !state.isRunning then
            [.setSessionStateSafe (.running response) count c] else [])) ∨
    (s.locker.credentials ≠ some c ∧ s.addSessionToken response c state count = (s, [])) := by
  unfold State.addSessionToken SessionMaintainerLocker.addSessionToken
  by_cases hc : s.locker.credentials = some c
  · rw [if_pos hc]
    exact Or.inl ⟨_, rfl, rfl⟩
  · rw [if_neg hc]
    exact Or.inr ⟨hc, rfl⟩

theorem attemptNonSessionTokenRequest_cases :
    (∃ r l, s.locker.nextWaitingNonSessionTokenRequest = some (r, l) ∧
      s.attemptNonSessionTokenRequest =
        (s.setLocker l, [.init r, .nextWaitingNonSessionTokenRequest])) ∨
    s.attemptNonSessionTokenRequest = (s, [.whileRunning]) := by
  unfold attemptNonSessionTokenRequest
  cases s.locker.nextWaitingNonSessionTokenRequest with
  | none => exact Or.inr rfl
  | some next => exact Or.inl ⟨next.1, next.2, rfl, rfl⟩

theorem attemptSessionTokenRequest_cases :
    (∃ r st l, s.locker.nextWaitingSessionTokenRequest = some (r, st, l) ∧
      s.attemptSessionTokenRequest =
        (s.setLocker l, [.initWithToken r st, .whileRunning])) ∨
    s.attemptSessionTokenRequest = (s, [.requestNeededSessionTokens false]) := by
  unfold attemptSessionTokenRequest
  cases s.locker.nextWaitingSessionTokenRequest with
  | none => exact Or.inr rfl
  | some next => exact Or.inl ⟨next.1, next.2.1, next.2.2, rfl, rfl⟩

theorem handleTimedOutRequest_cases (r : ℕ) :
    (∃ l, s.locker.handleTimedOutRequest (s.requests r).usesSessionToken r = some l ∧
      s.handleTimedOutRequest r = (s.setLocker l, [.fail r])) ∨
    (s.locker.handleTimedOutRequest (s.requests r).usesSessionToken r = none ∧
      s.handleTimedOutRequest r = (s, [])) := by
  unfold State.handleTimedOutRequest
  cases s.locker.handleTimedOutRequest (s.requests r).usesSessionToken r with
  | none => exact Or.inr ⟨rfl, rfl⟩
  | some l => exact Or.inl ⟨l, rfl, rfl⟩

end State

namespace State

@[simp] theorem init_locker (s : State) (q : ℕ) : (s.init q).locker = s.locker := rfl

@[simp] theorem setSessionToken_locker (s : State) (q : ℕ) (st : SessionTokenData) :
    (s.setSessionToken q st).locker = s.locker := rfl

end State

/-! ### What every instruction leaves -/

/-- No instruction makes a request, destroys the maintainer or gets an answer. -/
structure Frame (s s' : State) : Prop where
  called : s'.called = s.called
  maintainerExists : s'.maintainerExists = s.maintainerExists
  now : s'.now = s.now
  issued : s'.issued = s.issued

/-- The request whose object an instruction writes to. -/
def Instr.writes : Instr → Option ℕ
  | .init q | .initWithToken q _ | .completionCallback q => some q
  | _ => none

theorem State.frame_exec (s : State) (i : Instr) : Frame s (s.exec i).1 := by
  cases i with
  | nextWaitingNonSessionTokenRequest =>
    rcases s.attemptNonSessionTokenRequest_cases with ⟨q, l, -, heq⟩ | heq <;>
      simp only [exec, heq] <;> exact ⟨rfl, rfl, rfl, rfl⟩
  | nextWaitingSessionTokenRequest =>
    rcases s.attemptSessionTokenRequest_cases with ⟨q, st, l, -, heq⟩ | heq <;>
      simp only [exec, heq] <;> exact ⟨rfl, rfl, rfl, rfl⟩
  | tryRequestSessionToken c loop =>
    rcases s.tryRequestSessionToken_cases c loop with ⟨l, -, heq⟩ | heq <;>
      simp only [exec, heq] <;> exact ⟨rfl, rfl, rfl, rfl⟩
  | addSessionToken response c state count =>
    rcases s.addSessionToken_cases response c state count with ⟨l, -, heq⟩ | ⟨-, heq⟩ <;>
      simp only [exec, heq] <;> exact ⟨rfl, rfl, rfl, rfl⟩
  | handleTimedOutRequest q =>
    rcases s.handleTimedOutRequest_cases q with ⟨l, -, heq⟩ | ⟨-, heq⟩ <;>
      simp only [exec, heq] <;> exact ⟨rfl, rfl, rfl, rfl⟩
  | _ => exact ⟨rfl, rfl, rfl, rfl⟩

theorem State.requests_exec (s : State) {i : Instr} {r : ℕ} (h : i.writes ≠ some r) :
    (s.exec i).1.requests r = s.requests r := by
  cases i with
  | init q | completionCallback q =>
    exact Function.update_of_ne (fun heq => h (congrArg some heq.symm)) _ _
  | initWithToken q st =>
    have hne : r ≠ q := fun heq => h (congrArg some heq.symm)
    exact (Function.update_of_ne hne _ _).trans (Function.update_of_ne hne _ _)
  | nextWaitingNonSessionTokenRequest =>
    rcases s.attemptNonSessionTokenRequest_cases with ⟨q, l, -, heq⟩ | heq <;>
      simp only [exec, heq, setLocker_requests]
  | nextWaitingSessionTokenRequest =>
    rcases s.attemptSessionTokenRequest_cases with ⟨q, st, l, -, heq⟩ | heq <;>
      simp only [exec, heq, setLocker_requests]
  | tryRequestSessionToken c loop =>
    rcases s.tryRequestSessionToken_cases c loop with ⟨l, -, heq⟩ | heq <;>
      simp only [exec, heq, setLocker_requests]
  | addSessionToken response c state count =>
    rcases s.addSessionToken_cases response c state count with ⟨l, -, heq⟩ | ⟨-, heq⟩ <;>
      simp only [exec, heq, setLocker_requests]
  | handleTimedOutRequest q =>
    rcases s.handleTimedOutRequest_cases q with ⟨l, -, heq⟩ | ⟨-, heq⟩ <;>
      simp only [exec, heq, setLocker_requests]
  | _ => rfl

/-- The kind of a request is fixed. -/
theorem State.uses_exec (s : State) (i : Instr) (r : ℕ) :
    ((s.exec i).1.requests r).usesSessionToken = (s.requests r).usesSessionToken := by
  by_cases hwrites : i.writes = some r
  · cases i with
    | init q | initWithToken q st | completionCallback q =>
      cases hwrites
      simp [exec, init, setSessionToken, setRequest]
    | _ => cases hwrites
  · rw [s.requests_exec hwrites]

/-! ### Quiet steps -/

/-- The instructions that have nothing to do with a request. -/
def Instr.quiet : Instr → Bool
  | .setCredentials _ | .attemptRequests | .attemptConnection | .whileRunning
  | .requestNeededSessionTokens _ | .getCredentials _ | .tryRequestSessionToken _ _
  | .getSessionToken _ | .setConnectionState _ | .expireRecheckTimer | .waitRecheckTimer
  | .attemptIfConnected | .handleSessionTokenResponse _ _ | .getSessionState _ _
  | .incrementFailureCount | .resetFailureCount | .expireFailureTimer _ | .waitFailureTimer
  | .compareCredentials _ _ _ | .getFailureCount _ _ _ _ _ | .setSessionStateSafe _ _ _
  | .addSessionToken _ _ _ _ | .completionNotification _ => true
  | _ => false

/-- The instructions that carry neither a request nor an answer. -/
def Instr.control : Instr → Bool
  | .attemptRequests | .attemptConnection | .nextWaitingNonSessionTokenRequest | .whileRunning
  | .nextWaitingSessionTokenRequest | .requestNeededSessionTokens _ | .getCredentials _
  | .tryRequestSessionToken _ _ | .setConnectionState _ | .expireRecheckTimer | .waitRecheckTimer
  | .attemptIfConnected | .incrementFailureCount | .resetFailureCount | .expireFailureTimer _
  | .waitFailureTimer => true
  | _ => false

theorem Instr.requests_of_control {i : Instr} (h : i.control = true) : i.requests = [] := by
  cases i <;> first | rfl | cases h

/-- The instructions that change `in_progress_requests_`. -/
def Instr.movesInProgress : Instr → Bool
  | .addInProgressRequest _ _ | .addInProgressRequestWithToken _ _ _
  | .removeInProgressRequest _ _ | .moveInProgressToWaiting _ _ | .moveInProgressToDelayed _ _
  | .moveRequests => true
  | _ => false

/-- No request changes, and none moves. -/
structure Quiet (s s' : State) : Prop where
  locker : SameRequests s.locker s'.locker
  requests : s'.requests = s.requests
  apiRequests : s'.apiRequests = s.apiRequests
  maintainerExists : s'.maintainerExists = s.maintainerExists
  called : s'.called = s.called

theorem sameRequests_rfl {l : SessionMaintainerLocker} : SameRequests l l :=
  ⟨rfl, rfl, rfl, rfl, fun _ _ h => h⟩

theorem quiet_rfl {s : State} : Quiet s s := ⟨sameRequests_rfl, rfl, rfl, rfl, rfl⟩

theorem requests_updateConnectionState (ec : Option ErrorCode) :
    ∀ j ∈ updateConnectionState ec, j.requests = [] := by
  unfold updateConnectionState
  split
  · simp [Instr.requests]
  · split_ifs <;> simp [Instr.requests]

theorem requests_finishToken (response : TokenResponse) (c : Credentials) (state : SessionState)
    (count : ℕ) : ∀ j ∈ finishToken response c state count, j.requests = [] := by
  unfold finishToken failToken failCredentials
  split
  · split_ifs <;> simp [Instr.requests]
  · simp [Instr.requests]

namespace State

variable {s s' : State}

/-- A quiet instruction goes on with instructions that hold no request. -/
theorem quiet_exec {i : Instr} (h : i.quiet = true) :
    Quiet s (s.exec i).1 ∧ ∀ j ∈ (s.exec i).2, j.requests = [] := by
  cases i with
  | setCredentials c =>
    exact ⟨⟨s.locker.sameRequests_setCredentials c, rfl, rfl, rfl, rfl⟩, fun _ hj => by cases hj⟩
  | setSessionStateSafe newState count _ =>
    exact ⟨⟨s.locker.sameRequests_setSessionStateSafe newState count, rfl, rfl, rfl, rfl⟩,
      fun _ hj => by cases hj⟩
  | tryRequestSessionToken c loop =>
    rw [show s.exec (.tryRequestSessionToken c loop) = s.tryRequestSessionToken c loop from rfl]
    rcases s.tryRequestSessionToken_cases c loop with ⟨l, hl, heq⟩ | heq
    · rw [heq]
      obtain ⟨-, rfl⟩ := SessionMaintainerLocker.startRequestSessionToken_eq_some hl
      refine ⟨⟨⟨rfl, rfl, rfl, rfl, fun _ _ h => h⟩, rfl, rfl, rfl, rfl⟩, ?_⟩
      cases loop <;> simp [Instr.requests]
    · rw [heq]
      exact ⟨quiet_rfl, fun _ hj => by cases hj⟩
  | addSessionToken response c state count =>
    rw [show s.exec (.addSessionToken response c state count) =
      s.addSessionToken response c state count from rfl]
    rcases s.addSessionToken_cases response c state count with ⟨l, hl, heq⟩ | ⟨-, heq⟩
    · rw [heq]
      obtain ⟨-, rfl⟩ := SessionMaintainerLocker.addSessionToken_eq_some hl
      refine ⟨⟨⟨rfl, rfl, rfl, rfl, fun _ _ h => h⟩, rfl, rfl, rfl, rfl⟩, ?_⟩
      dsimp only
      split_ifs <;> simp [Instr.requests]
    · rw [heq]
      exact ⟨quiet_rfl, fun _ hj => by cases hj⟩
  | getSessionState response c =>
    refine ⟨quiet_rfl, fun j hj => ?_⟩
    rcases List.mem_append.mp hj with hj | hj
    · exact requests_updateConnectionState _ j hj
    · exact requests_finishToken _ _ _ _ j hj
  | completionNotification ec =>
    refine ⟨quiet_rfl, ?_⟩
    unfold exec
    dsimp only
    split_ifs
    · exact requests_updateConnectionState ec
    · simp
  | getCredentials haveBadCredentials =>
    refine ⟨quiet_rfl, ?_⟩
    unfold exec
    dsimp only
    split <;> simp [Instr.requests]
  | attemptRequests | whileRunning | requestNeededSessionTokens _ | attemptIfConnected
  | compareCredentials _ _ _ | getFailureCount _ _ _ _ _ =>
    refine ⟨quiet_rfl, ?_⟩
    unfold exec
    dsimp only
    split_ifs <;> simp [Instr.requests]
  | attemptConnection | getSessionToken _ | setConnectionState _ | expireRecheckTimer
  | waitRecheckTimer | incrementFailureCount | resetFailureCount | expireFailureTimer _
  | waitFailureTimer =>
    exact ⟨⟨⟨rfl, rfl, rfl, rfl, fun _ _ h => h⟩, rfl, rfl, rfl, rfl⟩, fun _ hj => by cases hj⟩
  | handleSessionTokenResponse _ _ =>
    exact ⟨⟨⟨rfl, rfl, rfl, rfl, fun _ _ h => h⟩, rfl, rfl, rfl, rfl⟩, by simp [exec, Instr.requests]⟩
  | _ => cases h

theorem inProgress_exec (s : State) {i : Instr} (h : i.movesInProgress = false) :
    (s.exec i).1.locker.inProgressRequests = s.locker.inProgressRequests := by
  by_cases hquiet : i.quiet = true
  · exact (quiet_exec hquiet).1.locker.inProgress
  cases i with
  | addWaitingRequest q => exact SessionMaintainerLocker.inProgress_pushWaiting _ _ _
  | nextWaitingNonSessionTokenRequest =>
    rcases s.attemptNonSessionTokenRequest_cases with ⟨q, l, hl, heq⟩ | heq
    · obtain ⟨waiting, -, rfl⟩ :=
        SessionMaintainerLocker.nextWaitingNonSessionTokenRequest_eq_some hl
      simp only [exec, heq, setLocker_locker]
    · simp only [exec, heq]
  | nextWaitingSessionTokenRequest =>
    rcases s.attemptSessionTokenRequest_cases with ⟨q, st, l, hl, heq⟩ | heq
    · obtain ⟨waiting, tokens, -, -, rfl⟩ :=
        SessionMaintainerLocker.nextWaitingSessionTokenRequest_eq_some hl
      simp only [exec, heq, setLocker_locker]
    · simp only [exec, heq]
  | handleTimedOutRequest q =>
    rcases s.handleTimedOutRequest_cases q with ⟨l, hl, heq⟩ | ⟨-, heq⟩
    · rcases SessionMaintainerLocker.handleTimedOutRequest_eq_some hl with ⟨-, rfl⟩ | ⟨-, rfl⟩ <;>
        simp only [exec, heq, setLocker_locker]
    · simp only [exec, heq]
  | reuseToken q a newKey =>
    exact (s.locker.sameRequests_reuseToken (s.requests q).usesSessionToken q newKey).inProgress
  | _ => first | rfl | exact absurd rfl hquiet | cases h

/-- A token is checked out only with `AddInProgressRequest`. -/
theorem checkedOut_exec (s : State) {i : Instr} {r : ℕ} {st : CheckedOut}
    (h : (s.exec i).1.locker.checkedOutTokens.find? r = some st) :
    s.locker.checkedOutTokens.find? r = some st ∨
      i = .addInProgressRequestWithToken r st.attempt st.token := by
  by_cases hquiet : i.quiet = true
  · exact Or.inl ((quiet_exec hquiet).1.locker.checkedOut r st h)
  cases i with
  | addInProgressRequestWithToken q a token =>
    rcases Table.find?_add h with ⟨rfl, -, rfl⟩ | h
    · exact Or.inr rfl
    · exact Or.inl h
  | addWaitingRequest q | moveInProgressToWaiting q a =>
    change (SessionMaintainerLocker.pushWaiting _ _ _).checkedOutTokens.find? r = _ at h
    rw [SessionMaintainerLocker.checkedOut_pushWaiting] at h
    exact Or.inl h
  | nextWaitingNonSessionTokenRequest =>
    rcases s.attemptNonSessionTokenRequest_cases with ⟨q, l, hl, heq⟩ | heq
    · obtain ⟨waiting, -, rfl⟩ :=
        SessionMaintainerLocker.nextWaitingNonSessionTokenRequest_eq_some hl
      simp only [exec, heq, setLocker_locker] at h
      exact Or.inl h
    · simp only [exec, heq] at h
      exact Or.inl h
  | nextWaitingSessionTokenRequest =>
    rcases s.attemptSessionTokenRequest_cases with ⟨q, st', l, hl, heq⟩ | heq
    · obtain ⟨waiting, tokens, -, -, rfl⟩ :=
        SessionMaintainerLocker.nextWaitingSessionTokenRequest_eq_some hl
      simp only [exec, heq, setLocker_locker] at h
      exact Or.inl h
    · simp only [exec, heq] at h
      exact Or.inl h
  | handleTimedOutRequest q =>
    rcases s.handleTimedOutRequest_cases q with ⟨l, hl, heq⟩ | ⟨-, heq⟩
    · rcases SessionMaintainerLocker.handleTimedOutRequest_eq_some hl with ⟨-, rfl⟩ | ⟨-, rfl⟩ <;>
        simp only [exec, heq, setLocker_locker] at h <;> exact Or.inl h
    · simp only [exec, heq] at h
      exact Or.inl h
  | deleteCheckedOutToken q a =>
    exact Or.inl ((s.locker.sameRequests_deleteCheckedOutToken q).checkedOut r st h)
  | reuseToken q a newKey =>
    exact Or.inl ((s.locker.sameRequests_reuseToken (s.requests q).usesSessionToken q
      newKey).checkedOut r st h)
  | release rs => cases h
  | _ => first | exact Or.inl h | exact absurd rfl hquiet

/-- Only `Init` starts an attempt. -/
theorem apiRequests_exec (s : State) {i : Instr} (hinit : ∀ q, i ≠ .init q)
    (htoken : ∀ q st, i ≠ .initWithToken q st) : (s.exec i).1.apiRequests = s.apiRequests := by
  cases i with
  | init q => exact absurd rfl (hinit q)
  | initWithToken q st => exact absurd rfl (htoken q st)
  | nextWaitingNonSessionTokenRequest =>
    rcases s.attemptNonSessionTokenRequest_cases with ⟨q, l, -, heq⟩ | heq <;>
      simp only [exec, heq, setLocker_apiRequests]
  | nextWaitingSessionTokenRequest =>
    rcases s.attemptSessionTokenRequest_cases with ⟨q, st, l, -, heq⟩ | heq <;>
      simp only [exec, heq, setLocker_apiRequests]
  | tryRequestSessionToken c loop =>
    rcases s.tryRequestSessionToken_cases c loop with ⟨l, -, heq⟩ | heq <;>
      simp only [exec, heq, setLocker_apiRequests]
  | addSessionToken response c state count =>
    rcases s.addSessionToken_cases response c state count with ⟨l, -, heq⟩ | ⟨-, heq⟩ <;>
      simp only [exec, heq, setLocker_apiRequests]
  | handleTimedOutRequest q =>
    rcases s.handleTimedOutRequest_cases q with ⟨l, -, heq⟩ | ⟨-, heq⟩ <;>
      simp only [exec, heq, setLocker_apiRequests]
  | _ => rfl

/-- What an instruction may leave to its thread, beside instructions that carry nothing. -/
inductive Pushes (s : State) : Instr → Instr → Prop
  | control {i j : Instr} (h : j.control = true) : Pushes s i j
  | init {r : ℕ} (h : r ∈ s.locker.waitingNonStRequests) :
      Pushes s .nextWaitingNonSessionTokenRequest (.init r)
  | initWithToken {r : ℕ} {st : SessionTokenData} (h : r ∈ s.locker.waitingStRequests)
      (hst : st ∈ s.locker.sessionTokens) :
      Pushes s .nextWaitingSessionTokenRequest (.initWithToken r st)
  | add {r : ℕ} : Pushes s (.init r) (.addInProgressRequest r s.started)
  | addWithToken {r : ℕ} {st : SessionTokenData} :
      Pushes s (.initWithToken r st) (.addInProgressRequestWithToken r s.started st)
  | getSessionToken {c : Credentials} {loop : Bool} :
      Pushes s (.tryRequestSessionToken c loop) (.getSessionToken c)
  | getSessionState {response : TokenResponse} {c : Credentials} :
      Pushes s (.handleSessionTokenResponse response c) (.getSessionState response c)
  | compareCredentials {response : TokenResponse} {c : Credentials} {newState : SessionState}
      (hstate : s.locker.sessionState.isUninitialized = false)
      (hnew : newState.isCredentialsError = true) :
      Pushes s (.getSessionState response c)
        (.compareCredentials newState s.locker.sessionStateChangeCount c)
  | getFailureCount {response : TokenResponse} {c : Credentials} {locked : Bool}
      {newState : SessionState} (hnew : newState.isProlongedError = true) :
      Pushes s (.getSessionState response c)
        (.getFailureCount locked s.locker.sessionState newState s.locker.sessionStateChangeCount c)
  | addSessionToken {response : TokenResponse} {c : Credentials} (h : response.errorCode = none) :
      Pushes s (.getSessionState response c)
        (.addSessionToken response c s.locker.sessionState s.locker.sessionStateChangeCount)
  | credentialsFailure {newState : SessionState} {count : ℕ} {c : Credentials}
      (h : s.locker.credentials = some c) :
      Pushes s (.compareCredentials newState count c) (.setSessionStateSafe newState count c)
  | prolongedError {locked : Bool} {state newState : SessionState} {count : ℕ} {c : Credentials}
      (h : state.isInitialized = true ∨ state.isProlongedError = true) :
      Pushes s (.getFailureCount locked state newState count c)
        (.setSessionStateSafe newState count c)
  | running {response : TokenResponse} {c : Credentials} {state : SessionState} {count : ℕ}
      (h : s.locker.credentials = some c) (hstate : state.isUninitialized = false)
      (hrunning : state.isRunning = false) :
      Pushes s (.addSessionToken response c state count)
        (.setSessionStateSafe (.running response) count c)
  | retry {r a : ℕ} {response : ApiResponse} (h : s.retries r response) :
      Pushes s (.retryOrComplete r a response) (.requestRetryAlert r a response)
  | complete {r a : ℕ} {response : ApiResponse} :
      Pushes s (.retryOrComplete r a response) (.completionAlert r a response)
  | callback {r a : ℕ} {response : ApiResponse} :
      Pushes s (.retryOrComplete r a response) (.completionCallback r)
  | handleCompletion {r a : ℕ} {response : ApiResponse} {j : Instr}
      (hexists : s.maintainerExists = true) (h : j ∈ handleCompletion r a response) :
      Pushes s (.completionAlert r a response) j
  | handleRetryRequest {r a : ℕ} {response : ApiResponse} {j : Instr}
      (hexists : s.maintainerExists = true) (h : j ∈ handleRetryRequest r a response) :
      Pushes s (.requestRetryAlert r a response) j
  | cancelCompleted {r a : ℕ} {response : ApiResponse} (hexists : s.maintainerExists = false) :
      Pushes s (.completionAlert r a response) (.cancel r)
  | cancelRetry {r a : ℕ} {response : ApiResponse} (hexists : s.maintainerExists = false) :
      Pushes s (.requestRetryAlert r a response) (.cancel r)
  | cancelled {r : ℕ} : Pushes s (.cancel r) (.completionCallback r)
  | failed {r : ℕ} : Pushes s (.fail r) (.completionCallback r)
  | fail {r : ℕ} : Pushes s (.handleTimedOutRequest r) (.fail r)
  | cancelMoved {r : ℕ} (h : r ∈ s.locker.allRequests) : Pushes s .moveRequests (.cancel r)
  | release : Pushes s .moveRequests (.release s.locker.allRequests)

theorem control_updateConnectionState (ec : Option ErrorCode) :
    ∀ j ∈ updateConnectionState ec, j.control = true := by
  unfold updateConnectionState
  split
  · simp [Instr.control]
  · split_ifs <;> simp [Instr.control]

theorem mem_handleCompletion {r a : ℕ} {response : ApiResponse} {j : Instr}
    (h : j ∈ handleCompletion r a response) :
    j = .removeInProgressRequest r a ∨ j = .deleteCheckedOutToken r a ∨
      j = .reuseToken r a response.newKey ∨ j = .attemptRequests := by
  unfold handleCompletion at h
  simp only [List.mem_cons, List.not_mem_nil, or_false] at h
  rcases h with rfl | rfl | rfl
  · exact Or.inl rfl
  · split_ifs
    · exact Or.inr (Or.inl rfl)
    · exact Or.inr (Or.inr (Or.inl rfl))
  · exact Or.inr (Or.inr (Or.inr rfl))

theorem mem_handleRetryRequest {r a : ℕ} {response : ApiResponse} {j : Instr}
    (h : j ∈ handleRetryRequest r a response) :
    j = .moveInProgressToWaiting r a ∨ j = .moveInProgressToDelayed r a ∨
      j = .deleteCheckedOutToken r a ∨ j = .reuseToken r a response.newKey ∨
      j = .attemptRequests := by
  unfold handleRetryRequest at h
  split_ifs at h <;> simp only [List.mem_cons, List.not_mem_nil, or_false] at h <;> tauto

theorem pushes_failToken {response : TokenResponse} {c : Credentials} {ec : ErrorCode} {j : Instr}
    (hj : j ∈ failToken response ec c s.locker.sessionState s.locker.sessionStateChangeCount) :
    Pushes s (.getSessionState response c) j := by
  unfold failToken at hj
  by_cases hinvalid : ec.isInvalidCredentialsError = true
  · rw [if_pos hinvalid, List.mem_cons, failCredentials] at hj
    rcases hj with rfl | hj
    · exact .control rfl
    by_cases hstate : (!s.locker.sessionState.isUninitialized &&
        !s.locker.sessionState.isCredentialsError) = true
    · rw [if_pos hstate, List.mem_singleton] at hj
      simp only [Bool.and_eq_true, Bool.not_eq_true'] at hstate
      rw [hj]
      exact .compareCredentials hstate.1 rfl
    · rw [if_neg hstate] at hj
      cases hj
  · rw [if_neg hinvalid, List.mem_pair] at hj
    rcases hj with rfl | rfl
    · exact .control rfl
    · exact .getFailureCount rfl

theorem pushes_getSessionState {response : TokenResponse} {c : Credentials} {j : Instr}
    (hj : j ∈ (s.exec (.getSessionState response c)).2) :
    Pushes s (.getSessionState response c) j := by
  rcases List.mem_append.mp hj with hj | hj
  · exact .control (control_updateConnectionState _ j hj)
  unfold finishToken at hj
  split at hj
  next ec _ =>
    rcases List.mem_append.mp hj with hj | hj
    · rcases List.mem_cons.mp hj with rfl | hj
      · exact .control rfl
      · exact pushes_failToken hj
    · rw [List.mem_singleton.mp hj]
      exact .control rfl
  next hec =>
    simp only [List.mem_cons, List.not_mem_nil, or_false] at hj
    rcases hj with rfl | rfl | rfl
    · exact .control rfl
    · exact .addSessionToken hec
    · exact .control rfl

theorem pushes_exec {i j : Instr} (hj : j ∈ (s.exec i).2) : Pushes s i j := by
  cases i with
  | getSessionState response c => exact pushes_getSessionState hj
  | nextWaitingNonSessionTokenRequest =>
    rcases s.attemptNonSessionTokenRequest_cases with ⟨q, l, hl, heq⟩ | heq <;>
      simp only [exec, heq] at hj
    · obtain ⟨waiting, hwaiting, -⟩ :=
        SessionMaintainerLocker.nextWaitingNonSessionTokenRequest_eq_some hl
      rcases List.mem_pair.mp hj with rfl | rfl
      · exact .init (hwaiting ▸ List.mem_cons_self)
      · exact .control rfl
    · rw [List.mem_singleton.mp hj]
      exact .control rfl
  | nextWaitingSessionTokenRequest =>
    rcases s.attemptSessionTokenRequest_cases with ⟨q, st, l, hl, heq⟩ | heq <;>
      simp only [exec, heq] at hj
    · obtain ⟨waiting, tokens, hwaiting, htokens, -⟩ :=
        SessionMaintainerLocker.nextWaitingSessionTokenRequest_eq_some hl
      rcases List.mem_pair.mp hj with rfl | rfl
      · exact .initWithToken (hwaiting ▸ List.mem_cons_self)
          (htokens ▸ List.mem_append_right _ (List.mem_singleton_self _))
      · exact .control rfl
    · rw [List.mem_singleton.mp hj]
      exact .control rfl
  | tryRequestSessionToken c loop =>
    rcases s.tryRequestSessionToken_cases c loop with ⟨l, hl, heq⟩ | heq <;>
      simp only [exec, heq] at hj
    · rcases List.mem_cons.mp hj with rfl | hj
      · exact .getSessionToken
      · split_ifs at hj
        · rw [List.mem_singleton.mp hj]
          exact .control rfl
        · cases hj
    · cases hj
  | addSessionToken response c state count =>
    rcases s.addSessionToken_cases response c state count with ⟨l, hl, heq⟩ | ⟨-, heq⟩ <;>
      simp only [exec, heq] at hj
    · split_ifs at hj with hstate
      · simp only [Bool.and_eq_true, Bool.not_eq_true'] at hstate
        rw [List.mem_singleton.mp hj]
        exact .running (SessionMaintainerLocker.addSessionToken_eq_some hl).1 hstate.1 hstate.2
      · cases hj
    · cases hj
  | handleTimedOutRequest q =>
    rcases s.handleTimedOutRequest_cases q with ⟨l, -, heq⟩ | ⟨-, heq⟩ <;>
      simp only [exec, heq] at hj
    · rw [List.mem_singleton.mp hj]
      exact .fail
    · cases hj
  | init q =>
    rw [List.mem_singleton.mp hj]
    exact .add
  | initWithToken q st =>
    rw [List.mem_singleton.mp hj]
    exact .addWithToken
  | handleSessionTokenResponse response c =>
    rw [List.mem_singleton.mp hj]
    exact .getSessionState
  | compareCredentials newState count c =>
    simp only [exec] at hj
    split_ifs at hj with hc
    · rw [List.mem_singleton.mp hj]
      exact .credentialsFailure hc
    · cases hj
  | getFailureCount locked state newState count c =>
    simp only [exec] at hj
    split_ifs at hj with hstate
    · rw [List.mem_singleton.mp hj]
      exact .prolongedError hstate.2
    · cases hj
  | getCredentials haveBadCredentials =>
    simp only [exec] at hj
    split at hj
    · rw [List.mem_singleton.mp hj]
      exact .control rfl
    · cases hj
  | completionNotification ec =>
    simp only [exec] at hj
    split_ifs at hj
    · exact .control (control_updateConnectionState ec j hj)
    · cases hj
  | retryOrComplete q a response =>
    simp only [exec] at hj
    split_ifs at hj with hretries
    · rw [List.mem_singleton.mp hj]
      exact .retry hretries
    · rcases List.mem_pair.mp hj with rfl | rfl
      · exact .complete
      · exact .callback
  | completionAlert q a response =>
    simp only [exec] at hj
    split_ifs at hj with hexists
    · exact .handleCompletion hexists hj
    · rw [List.mem_singleton.mp hj]
      exact .cancelCompleted (Bool.eq_false_iff.mpr hexists)
  | requestRetryAlert q a response =>
    simp only [exec] at hj
    split_ifs at hj with hexists
    · exact .handleRetryRequest hexists hj
    · rw [List.mem_singleton.mp hj]
      exact .cancelRetry (Bool.eq_false_iff.mpr hexists)
  | cancel q =>
    simp only [exec] at hj
    split_ifs at hj
    · rw [List.mem_singleton.mp hj]
      exact .cancelled
    · cases hj
  | fail q =>
    simp only [exec] at hj
    split_ifs at hj
    · rw [List.mem_singleton.mp hj]
      exact .failed
    · cases hj
  | moveRequests =>
    rcases List.mem_append.mp hj with hj | hj
    · obtain ⟨q, hq, rfl⟩ := List.mem_map.mp hj
      exact .cancelMoved hq
    · rw [List.mem_singleton.mp hj]
      exact .release
  | attemptRequests | whileRunning =>
    simp only [exec] at hj
    split_ifs at hj <;> (rw [List.mem_singleton.mp hj]; exact .control rfl)
  | requestNeededSessionTokens _ | attemptIfConnected =>
    simp only [exec] at hj
    split_ifs at hj
    · rw [List.mem_singleton.mp hj]
      exact .control rfl
    · cases hj
  | _ => cases hj

/-- What the actions do to requests. -/
inductive Moves (s : State) : Act → State → Prop
  | quiet {a : Act} {s' : State} (program : List Instr) (h : Quiet s s')
      (hthreads : s'.threads = Threads.spawn program s.threads)
      (hprogram : ∀ j ∈ program, j.requests = []) : Moves s a s'
  | call (usesSessionToken : Bool) (hexists : s.maintainerExists = true) :
      Moves s (.call usesSessionToken) (s.call usesSessionToken)
  | cancelRequest (r : ℕ) (h : (s.requests r).held = true) :
      Moves s (.cancelRequest r) (s.spawn [.cancel r])
  | dropRequest (r : ℕ) (h : (s.requests r).held = true) :
      Moves s (.dropRequest r) (s.setRequest r { s.requests r with held := false })
  | apiResponse (a r : ℕ) (response : ApiResponse) (h : (a, r) ∈ s.apiRequests) :
      Moves s (.apiResponse a r response) (s.apiResponse a r response)
  | delayedFires (r : ℕ) (l : SessionMaintainerLocker) (hexists : s.maintainerExists = true)
      (h : s.locker.nextDelayedRequest s.now = some (r, l)) :
      Moves s .delayedFires ((s.setLocker l).spawn [.addWaitingRequest r, .attemptRequests])
  | timeoutFires (r : ℕ) (l : SessionMaintainerLocker) (hexists : s.maintainerExists = true)
      (h : s.locker.nextTimedOutRequest s.now = some (r, l)) :
      Moves s .timeoutFires (s.timeoutFires r l)
  | destroy (hexists : s.maintainerExists = true) (h : ∀ i ∈ pending s.threads, i.outlives) :
      Moves s .destroy (s.destroy.spawn [.stopTimeouts, .moveRequests])
  | run (k : ℕ) (i : Instr) (rest : List Instr) (h : s.threads[k]? = some (i :: rest)) :
      Moves s (.run k) (s.runThread k i rest)

theorem moves_of_step {a : Act} (h : s.step a = some s') : Moves s a s' := by
  unfold step at h
  split_ifs at h with hready
  have hexists (hnot : a.outlives = false) : s.maintainerExists = true := by
    simpa [hnot] using hready
  cases a with
  | setLoginCredentials c =>
    cases h
    exact .quiet [.setCredentials c, .attemptRequests] ⟨sameRequests_rfl, rfl, rfl, rfl, rfl⟩ rfl
      (by simp [Instr.requests])
  | call usesSessionToken =>
    cases h
    exact .call usesSessionToken (hexists rfl)
  | setTimeoutSeconds timeoutSeconds =>
    cases h
    exact .quiet [] ⟨sameRequests_rfl, rfl, rfl, rfl, rfl⟩ rfl (by simp)
  | cancelRequest r =>
    simp only [act] at h
    split_ifs at h with hheld
    cases h
    exact .cancelRequest r hheld
  | dropRequest r =>
    simp only [act] at h
    split_ifs at h with hheld
    cases h
    exact .dropRequest r hheld
  | apiResponse n r response =>
    simp only [act] at h
    split_ifs at h with hmem
    cases h
    exact .apiResponse n r response hmem
  | tokenResponse n c response =>
    simp only [act] at h
    split_ifs at h with hmem
    cases h
    unfold tokenResponse
    by_cases hmaintainer : s.maintainerExists = true
    · rw [if_pos hmaintainer]
      exact .quiet [.handleSessionTokenResponse response c] ⟨sameRequests_rfl, rfl, rfl, rfl, rfl⟩
        rfl (by simp [Instr.requests])
    · rw [if_neg hmaintainer]
      exact .quiet [] ⟨sameRequests_rfl, rfl, rfl, rfl, rfl⟩ rfl (by simp)
  | statusResponse n ec =>
    simp only [act] at h
    split_ifs at h with hmem
    cases h
    unfold statusResponse
    by_cases hmaintainer : s.maintainerExists = true
    · rw [if_pos hmaintainer]
      refine .quiet (handleCheckConnectionStatusResponse ec) ⟨sameRequests_rfl, rfl, rfl, rfl, rfl⟩
        rfl fun j hj => ?_
      rcases List.mem_append.mp hj with hj | hj
      · exact requests_updateConnectionState ec j hj
      · rw [List.mem_singleton.mp hj]
        rfl
    · rw [if_neg hmaintainer]
      exact .quiet [] ⟨sameRequests_rfl, rfl, rfl, rfl, rfl⟩ rfl (by simp)
  | failureTimerExpires | recheckTimerExpires =>
    obtain ⟨t, -, rfl⟩ := Option.map_eq_some_iff.mp h
    exact .quiet [] ⟨sameRequests_rfl, rfl, rfl, rfl, rfl⟩ rfl (by simp)
  | failureTimerFires =>
    obtain ⟨t, -, rfl⟩ := Option.map_eq_some_iff.mp h
    exact .quiet [.attemptRequests, .requestNeededSessionTokens true]
      ⟨sameRequests_rfl, rfl, rfl, rfl, rfl⟩ rfl (by simp [Instr.requests])
  | recheckTimerFires =>
    obtain ⟨t, -, rfl⟩ := Option.map_eq_some_iff.mp h
    exact .quiet [.attemptRequests] ⟨sameRequests_rfl, rfl, rfl, rfl, rfl⟩ rfl
      (by simp [Instr.requests])
  | delayedFires =>
    obtain ⟨⟨r, l⟩, hnext, rfl⟩ := Option.map_eq_some_iff.mp h
    exact .delayedFires r l (hexists rfl) hnext
  | timeoutFires =>
    obtain ⟨⟨r, l⟩, hnext, rfl⟩ := Option.map_eq_some_iff.mp h
    exact .timeoutFires r l (hexists rfl) hnext
  | stopTimeouts =>
    cases h
    exact .quiet [.stopTimeouts] ⟨sameRequests_rfl, rfl, rfl, rfl, rfl⟩ rfl
      (by simp [Instr.requests])
  | destroy =>
    simp only [act] at h
    split_ifs at h with hout
    cases h
    exact .destroy (hexists rfl) hout
  | run k =>
    simp only [act] at h
    split at h
    · rename_i i rest hk
      cases h
      exact .run k i rest hk
    · cases h
  | clock ms =>
    cases h
    exact .quiet [] ⟨sameRequests_rfl, rfl, rfl, rfl, rfl⟩ rfl (by simp)

/-- The handler that an action other than `run` starts; empty where it starts none. -/
def handler (s : State) : Act → List Instr
  | .setLoginCredentials c => [.setCredentials c, .attemptRequests]
  | .call _ => [.addWaitingRequest s.called, .attemptRequests]
  | .cancelRequest r => [.cancel r]
  | .apiResponse a r response =>
    if s.Alive r then
      [.completionNotification response.errorCode, .retryOrComplete r a response]
    else []
  | .tokenResponse _ c response =>
    if s.maintainerExists then [.handleSessionTokenResponse response c] else []
  | .statusResponse _ ec =>
    if s.maintainerExists then handleCheckConnectionStatusResponse ec else []
  | .failureTimerFires => [.attemptRequests, .requestNeededSessionTokens true]
  | .recheckTimerFires => [.attemptRequests]
  | .delayedFires =>
    match s.locker.nextDelayedRequest s.now with
    | some (r, _) => [.addWaitingRequest r, .attemptRequests]
    | none => []
  | .timeoutFires =>
    match s.locker.nextTimedOutRequest s.now with
    | some (r, _) => if s.Alive r then [.handleTimedOutRequest r] else []
    | none => []
  | .stopTimeouts => [.stopTimeouts]
  | .destroy => [.stopTimeouts, .moveRequests]
  | _ => []

theorem threads_of_step {a : Act} (hs : s.step a = some s') (hrun : ∀ k, a ≠ .run k) :
    s'.threads = Threads.spawn (s.handler a) s.threads := by
  unfold step at hs
  split_ifs at hs
  cases a with
  | run k => exact absurd rfl (hrun k)
  | cancelRequest r | dropRequest r | destroy =>
    simp only [act] at hs
    split_ifs at hs
    cases hs
    rfl
  | apiResponse n r response =>
    simp only [act] at hs
    split_ifs at hs
    cases hs
    by_cases halive : s.Alive r
    · rw [State.apiResponse, if_pos halive, handler, if_pos halive]
      rfl
    · rw [State.apiResponse, if_neg halive, handler, if_neg halive]
      rfl
  | tokenResponse n c response =>
    simp only [act] at hs
    split_ifs at hs
    cases hs
    by_cases hmaintainer : s.maintainerExists = true
    · rw [State.tokenResponse, if_pos hmaintainer, handler, if_pos hmaintainer]
      rfl
    · rw [State.tokenResponse, if_neg hmaintainer, handler, if_neg hmaintainer]
      rfl
  | statusResponse n ec =>
    simp only [act] at hs
    split_ifs at hs
    cases hs
    by_cases hmaintainer : s.maintainerExists = true
    · rw [State.statusResponse, if_pos hmaintainer, handler, if_pos hmaintainer]
      rfl
    · rw [State.statusResponse, if_neg hmaintainer, handler, if_neg hmaintainer]
      rfl
  | failureTimerExpires | recheckTimerExpires | failureTimerFires | recheckTimerFires =>
    obtain ⟨t, -, rfl⟩ := Option.map_eq_some_iff.mp hs
    rfl
  | delayedFires =>
    obtain ⟨⟨r, l⟩, hnext, rfl⟩ := Option.map_eq_some_iff.mp hs
    simp only [handler, hnext]
    rfl
  | timeoutFires =>
    obtain ⟨⟨r, l⟩, hnext, rfl⟩ := Option.map_eq_some_iff.mp hs
    simp only [handler, hnext]
    unfold State.timeoutFires
    split_ifs <;> rfl
  | _ =>
    cases hs
    rfl

/-- Only events that are due change the state of the locker outside a handler. -/
theorem locker_of_step {a : Act} (hs : s.step a = some s') (hrun : ∀ k, a ≠ .run k)
    (hdelayed : a ≠ .delayedFires) (htimeout : a ≠ .timeoutFires) : s'.locker = s.locker := by
  unfold step at hs
  split_ifs at hs
  cases a with
  | run k => exact absurd rfl (hrun k)
  | delayedFires => exact absurd rfl hdelayed
  | timeoutFires => exact absurd rfl htimeout
  | cancelRequest r | dropRequest r | destroy =>
    simp only [act] at hs
    split_ifs at hs
    cases hs
    rfl
  | apiResponse n r response =>
    simp only [act] at hs
    split_ifs at hs
    cases hs
    unfold apiResponse
    split_ifs <;> rfl
  | tokenResponse n c response =>
    simp only [act] at hs
    split_ifs at hs
    cases hs
    unfold State.tokenResponse
    split_ifs <;> rfl
  | statusResponse n ec =>
    simp only [act] at hs
    split_ifs at hs
    cases hs
    unfold statusResponse
    split_ifs <;> rfl
  | failureTimerExpires | recheckTimerExpires | failureTimerFires | recheckTimerFires =>
    obtain ⟨t, -, rfl⟩ := Option.map_eq_some_iff.mp hs
    rfl
  | _ =>
    cases hs
    rfl

theorem clock_of_step {a : Act} (hs : s.step a = some s') (hrun : ∀ k, a ≠ .run k) :
    s.now ≤ s'.now := by
  unfold step at hs
  split_ifs at hs
  cases a with
  | clock ms =>
    cases hs
    exact Nat.le_add_right _ _
  | run k => exact absurd rfl (hrun k)
  | cancelRequest r | dropRequest r | statusResponse n ec | destroy =>
    simp only [act] at hs
    split_ifs at hs
    cases hs
    first | exact le_rfl | (unfold statusResponse; split_ifs <;> exact le_rfl)
  | apiResponse n r response =>
    simp only [act] at hs
    split_ifs at hs
    cases hs
    unfold apiResponse
    split_ifs <;> exact le_rfl
  | tokenResponse n c response =>
    simp only [act] at hs
    split_ifs at hs
    cases hs
    unfold State.tokenResponse
    split_ifs <;> exact le_rfl
  | failureTimerExpires | recheckTimerExpires | failureTimerFires | recheckTimerFires =>
    obtain ⟨t, -, rfl⟩ := Option.map_eq_some_iff.mp hs
    exact le_rfl
  | delayedFires =>
    obtain ⟨⟨r, l⟩, -, rfl⟩ := Option.map_eq_some_iff.mp hs
    exact le_rfl
  | timeoutFires =>
    obtain ⟨⟨r, l⟩, -, rfl⟩ := Option.map_eq_some_iff.mp hs
    change s.now ≤ (s.timeoutFires r l).now
    unfold State.timeoutFires
    split_ifs <;> exact le_rfl
  | _ =>
    cases hs
    exact le_rfl

theorem runThread_of_step {k : ℕ} (hs : s.step (.run k) = some s') :
    ∃ i rest, s.threads[k]? = some (i :: rest) ∧ s' = s.runThread k i rest := by
  unfold step at hs
  split_ifs at hs
  simp only [act] at hs
  split at hs
  · rename_i i rest hk
    cases hs
    exact ⟨i, rest, hk, rfl⟩
  · cases hs

/-- The thread that runs goes on with what its instruction left to do. -/
theorem stepped_runThread {k : ℕ} {i : Instr} {rest : List Instr}
    (h : s.threads[k]? = some (i :: rest)) :
    Stepped i (s.exec i).2 s.threads (s.runThread k i rest).threads :=
  stepped_resume h (s.exec i).2

end State

/-! ### Where a request waits -/

/-- How often a request waits in a queue or is delayed. -/
def SessionMaintainerLocker.waits (l : SessionMaintainerLocker) (r : ℕ) : ℕ :=
  l.waitingStRequests.count r + l.waitingNonStRequests.count r + l.delayedRequests.events.count r

/-- How many attempts of a request are in flight. -/
def State.attempts (s : State) (r : ℕ) : ℕ := (s.apiRequests.map Prod.snd).count r

namespace SessionMaintainerLocker

variable (l : SessionMaintainerLocker)

theorem waits_pushWaiting (uses : Bool) (q r : ℕ) :
    (l.pushWaiting uses q).waits r = l.waits r + if q = r then 1 else 0 := by
  cases uses
  · simp only [pushWaiting, waits, List.count_append, List.count_singleton, beq_iff_eq,
      Bool.false_eq_true, if_false]
    omega
  · simp only [pushWaiting, waits, List.count_append, List.count_singleton, beq_iff_eq, if_true]
    omega

theorem waits_addWaitingRequest (now timeout : ℕ) (uses : Bool) (q r : ℕ) :
    (l.addWaitingRequest now timeout uses q).waits r = l.waits r + if q = r then 1 else 0 :=
  waits_pushWaiting _ uses q r

theorem waits_moveInProgressToWaiting (uses : Bool) (q r : ℕ) :
    (l.moveInProgressToWaiting uses q).waits r = l.waits r + if q = r then 1 else 0 :=
  waits_pushWaiting _ uses q r

theorem waits_moveInProgressToDelayed (now delay q r : ℕ) :
    (l.moveInProgressToDelayed now q delay).waits r = l.waits r + if q = r then 1 else 0 := by
  change l.waitingStRequests.count r + l.waitingNonStRequests.count r +
    (l.delayedRequests.add (now + 1000 * delay) q).events.count r = _
  rw [TimedEvents.count_events_add, waits]
  omega

variable {l} {l' : SessionMaintainerLocker}

theorem waits_nextWaitingSt {q : ℕ} {st : SessionTokenData}
    (h : l.nextWaitingSessionTokenRequest = some (q, st, l')) (r : ℕ) :
    l'.waits r + (if q = r then 1 else 0) = l.waits r := by
  obtain ⟨waiting, tokens, hwaiting, -, rfl⟩ := nextWaitingSessionTokenRequest_eq_some h
  simp only [waits, hwaiting, List.count_cons, beq_iff_eq]
  omega

theorem waits_nextWaitingNonSt {q : ℕ}
    (h : l.nextWaitingNonSessionTokenRequest = some (q, l')) (r : ℕ) :
    l'.waits r + (if q = r then 1 else 0) = l.waits r := by
  obtain ⟨waiting, hwaiting, rfl⟩ := nextWaitingNonSessionTokenRequest_eq_some h
  simp only [waits, hwaiting, List.count_cons, beq_iff_eq]
  omega

theorem waits_nextDelayed {now q : ℕ} (h : l.nextDelayedRequest now = some (q, l')) (r : ℕ) :
    l'.waits r + (if q = r then 1 else 0) = l.waits r := by
  obtain ⟨events, hnext, rfl⟩ := nextDelayedRequest_eq_some h
  simp only [waits, TimedEvents.events_of_next hnext, List.count_cons, beq_iff_eq]
  omega

theorem waits_handleTimedOut {uses : Bool} {q : ℕ} (h : l.handleTimedOutRequest uses q = some l')
    (r : ℕ) : l'.waits r + (if q = r then 1 else 0) = l.waits r := by
  rcases handleTimedOutRequest_eq_some h with ⟨hmem, rfl⟩ | ⟨hmem, rfl⟩
  all_goals
    have hperm := (List.perm_cons_erase hmem).count_eq r
    simp only [List.count_cons, beq_iff_eq] at hperm
    simp only [waits]
    omega

variable (l)

theorem waits_stopTimeouts (r : ℕ) :
    l.stopTimeouts.waits r + l.delayedRequests.events.count r = l.waits r := by
  simp only [waits, stopTimeouts, TimedEvents.events_stop, List.count_nil]
  omega

theorem waits_moveRequests (r : ℕ) :
    l.moveRequests.waits r + (l.waitingStRequests.count r + l.waitingNonStRequests.count r) =
      l.waits r := by
  simp only [waits, moveRequests, List.count_nil]
  omega

end SessionMaintainerLocker

namespace Quiet

variable {s s' : State}

theorem waits (h : Quiet s s') (r : ℕ) : s'.locker.waits r = s.locker.waits r := by
  rw [SessionMaintainerLocker.waits, h.locker.waitingSt, h.locker.waitingNonSt, h.locker.delayed,
    SessionMaintainerLocker.waits]

theorem attempts (h : Quiet s s') (r : ℕ) : s'.attempts r = s.attempts r := by
  rw [State.attempts, h.apiRequests, State.attempts]

end Quiet

@[simp] theorem State.attempts_setLocker (s : State) (l : SessionMaintainerLocker) (r : ℕ) :
    (s.setLocker l).attempts r = s.attempts r := rfl

@[simp] theorem State.attempts_setSessionToken (s : State) (q r : ℕ) (st : SessionTokenData) :
    (s.setSessionToken q st).attempts r = s.attempts r := rfl

theorem State.attempts_init (s : State) (q r : ℕ) :
    (s.init q).attempts r = s.attempts r + if q = r then 1 else 0 := by
  simp [State.attempts, State.init, State.setRequest, List.count_singleton]

theorem State.attempts_answered {s : State} {a q : ℕ} (h : (a, q) ∈ s.apiRequests) (r : ℕ) :
    (s.answered a q).attempts r + (if q = r then 1 else 0) = s.attempts r := by
  have hperm := ((List.perm_cons_erase h).map Prod.snd).count_eq r
  simp only [List.map_cons, List.count_cons, beq_iff_eq] at hperm
  simp only [State.attempts, State.answered]
  omega

end MediafireSdk.Api
