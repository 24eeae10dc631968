import MediafireSdk.Api.Agreement
import MediafireSdk.Api.Budget
import MediafireSdk.Api.Exclusive

/-! What wakes the session maintainer. While requests wait for a session token, something
is pending whose handler attempts requests or asks for a token. A handler that spoils
this, by taking a timer, an answer or a request away, has more to do behind it that makes
up for it. Only an answer for old credentials may take away the last of it, when the new
ones have been refused. -/

namespace MediafireSdk.Api

open Utils Threads Runs

/-! ### What an instruction leaves to those behind it -/

inductive Need where
  | attempt
  | failureTimer
  | recheckTimer
  | giveBack (request : ℕ)
  deriving DecidableEq

theorem SessionState.kind_of_isCredentialsError {state : SessionState}
    (h : state.isCredentialsError = true) :
    state.isUninitialized = false ∧ state.isInitialized = false ∧ state.isRunning = false := by
  cases state <;> first | exact ⟨rfl, rfl, rfl⟩ | cases h

/-- The timer has a wait, or a handler of it is queued. -/
def Timer.Armed (t : Timer) : Prop := 0 < t.waits + t.queued

instance (t : Timer) : Decidable t.Armed := inferInstanceAs (Decidable (_ < _))

namespace Instr

def needs : Instr → List Need
  | .setCredentials _ | .addWaitingRequest _ | .reuseToken _ _ _ | .addSessionToken _ _ _ _ =>
    [.attempt]
  | .removeInProgressRequest r _ | .moveInProgressToWaiting r _ | .moveInProgressToDelayed r _ =>
    [.attempt, .giveBack r]
  | .expireFailureTimer _ => [.failureTimer]
  | .compareCredentials newState _ _ | .getFailureCount _ _ newState _ _
  | .setSessionStateSafe newState _ _ =>
    if newState.isRunning then [.attempt] else [.failureTimer]
  | .expireRecheckTimer | .setConnectionState .uninitialized
  | .setConnectionState (.unconnected _) => [.recheckTimer]
  | _ => []

def meets : Instr → Option Need
  | .attemptRequests => some .attempt
  | .waitFailureTimer => some .failureTimer
  | .waitRecheckTimer => some .recheckTimer
  | .deleteCheckedOutToken r _ | .reuseToken r _ _ => some (.giveBack r)
  | _ => none

/-- The instructions that stop the timeouts or end the maintainer. -/
def ends : Instr → Bool
  | .stopTimeouts | .moveRequests | .release _ => true
  | _ => false

/-- Whatever the state, the handler attempts requests or waits for a timer. -/
def wakes : Instr → Bool
  | .attemptRequests | .attemptConnection | .nextWaitingNonSessionTokenRequest | .whileRunning
  | .nextWaitingSessionTokenRequest | .waitFailureTimer | .waitRecheckTimer
  | .handleSessionTokenResponse _ _ | .getSessionState _ _ | .retryOrComplete _ _ _
  | .completionAlert _ _ _ | .requestRetryAlert _ _ _ => true
  | _ => false

/-- The end of `AttemptRequests`, where no token is left for the requests that wait. -/
def asksToken : Instr → Bool
  | .requestNeededSessionTokens false | .getCredentials _ | .tryRequestSessionToken _ _
  | .getSessionToken _ => true
  | _ => false

/-- What goes on asking for tokens when the credentials have been refused. -/
def retries (credentials : Option Credentials) : Instr → Bool
  | .waitFailureTimer | .requestNeededSessionTokens true | .getCredentials _
  | .tryRequestSessionToken _ _ | .getSessionToken _ => true
  | .handleSessionTokenResponse response c | .getSessionState response c =>
    response.errorCode.isSome || decide (credentials = some c)
  | .addSessionToken _ c _ _ => decide (credentials = some c)
  | .setSessionStateSafe newState _ _ => newState.isRunning
  | _ => false

/-- What looks after the connection. -/
def rechecks : Instr → Bool
  | .waitRecheckTimer | .attemptRequests | .attemptConnection | .setConnectionState .connected =>
    true
  | _ => false

theorem wakes_of_meets {j : Instr} {d : Need} (hi : ∀ r, d ≠ .giveBack r)
    (h : j.meets = some d) : j.wakes = true := by
  cases j with
  | deleteCheckedOutToken r _ | reuseToken r _ _ => exact absurd (Option.some.inj h).symm (hi r)
  | _ => first | rfl | cases h

/-- What an instruction needs is first of all that the handler wakes something. -/
theorem exists_need {i : Instr} (h : i.needs ≠ []) : ∃ d ∈ i.needs, ∀ r, d ≠ .giveBack r := by
  unfold needs at h ⊢
  split at h <;> first
    | exact ⟨_, List.mem_cons_self, nofun⟩
    | exact absurd rfl h
    | (split_ifs <;> exact ⟨_, List.mem_cons_self, nofun⟩)

theorem movesSession_of_needs {i : Instr} (h : i.needs = []) : i.movesSession = false := by
  cases i with
  | setCredentials c => cases h
  | setSessionStateSafe newState count c =>
    have hne : (if newState.isRunning then [Need.attempt] else [Need.failureTimer]) = [] := h
    split_ifs at hne
  | _ => rfl

end Instr

/-- Programs of the maintainer. -/
abbrev Complete (beyond : List Need) (program : List Instr) : Prop :=
  Followed Instr.needs Instr.meets beyond program

theorem complete_updateConnectionState (ec : Option ErrorCode) :
    Complete [] (updateConnectionState ec) := by
  unfold updateConnectionState
  split
  · simp [Followed, Instr.needs]
  · split_ifs
    · simp [Followed, Instr.needs, Instr.meets]
    · simp [Followed, Instr.needs]

theorem complete_finishToken (response : TokenResponse) (c : Credentials) (state : SessionState)
    (count : ℕ) : Complete [] (finishToken response c state count) := by
  unfold finishToken
  split
  next ec _ =>
    unfold failToken failCredentials
    split_ifs <;> simp [Followed, Instr.needs, Instr.meets, SessionState.isRunning]
  next => simp [Followed, Instr.needs, Instr.meets]

theorem complete_handleCompletion (r a : ℕ) (response : ApiResponse) :
    Complete [] (handleCompletion r a response) := by
  unfold handleCompletion
  split_ifs <;> simp [Followed, Instr.needs, Instr.meets]

theorem complete_handleRetryRequest (r a : ℕ) (response : ApiResponse) :
    Complete [] (handleRetryRequest r a response) := by
  unfold handleRetryRequest
  split_ifs <;> simp [Followed, Instr.needs, Instr.meets]

/-- What an instruction leads to needs no more than is behind it. -/
theorem complete_exec (s : State) (i : Instr) : Complete i.needs (s.exec i).2 := by
  cases i with
  | nextWaitingNonSessionTokenRequest =>
    rcases s.attemptNonSessionTokenRequest_cases with ⟨q, l, -, heq⟩ | heq <;>
      simp only [State.exec, heq] <;> simp [Followed, Instr.needs]
  | nextWaitingSessionTokenRequest =>
    rcases s.attemptSessionTokenRequest_cases with ⟨q, st, l, -, heq⟩ | heq <;>
      simp only [State.exec, heq] <;> simp [Followed, Instr.needs]
  | tryRequestSessionToken c loop =>
    rcases s.tryRequestSessionToken_cases c loop with ⟨l, -, heq⟩ | heq <;>
      simp only [State.exec, heq]
    · cases loop <;> simp [Followed, Instr.needs]
    · trivial
  | addSessionToken response c state count =>
    rcases s.addSessionToken_cases response c state count with ⟨l, -, heq⟩ | ⟨-, heq⟩ <;>
      simp only [State.exec, heq]
    · split_ifs <;> simp [Followed, Instr.needs, SessionState.isRunning]
    · trivial
  | handleTimedOutRequest q =>
    rcases s.handleTimedOutRequest_cases q with ⟨l, -, heq⟩ | ⟨-, heq⟩ <;>
      simp only [State.exec, heq] <;> simp [Followed, Instr.needs]
  | getSessionState response c =>
    exact (complete_updateConnectionState response.errorCode).append (fun d hd => by cases hd)
      (complete_finishToken response c _ _)
  | completionNotification ec =>
    simp only [State.exec]
    split_ifs
    · exact complete_updateConnectionState ec
    · trivial
  | completionAlert q a response =>
    simp only [State.exec]
    split_ifs
    · exact complete_handleCompletion q a response
    · simp [Followed, Instr.needs]
  | requestRetryAlert q a response =>
    simp only [State.exec]
    split_ifs
    · exact complete_handleRetryRequest q a response
    · simp [Followed, Instr.needs]
  | compareCredentials newState count c =>
    simp only [State.exec]
    split_ifs
    · exact ⟨fun d hd => Or.inl hd, trivial⟩
    · trivial
  | getFailureCount locked state newState count c =>
    simp only [State.exec]
    split_ifs
    · exact ⟨fun d hd => Or.inl hd, trivial⟩
    · trivial
  | moveRequests =>
    refine followed_of_needs_eq_nil fun j hj => ?_
    rcases List.mem_append.mp hj with hj | hj
    · obtain ⟨r, -, rfl⟩ := List.mem_map.mp hj
      rfl
    · rw [List.mem_singleton.mp hj]
      rfl
  | getCredentials haveBadCredentials =>
    simp only [State.exec]
    split <;> simp [Followed, Instr.needs]
  | attemptRequests | whileRunning | requestNeededSessionTokens _ | attemptIfConnected
  | retryOrComplete _ _ _ | cancel _ | fail _ =>
    simp only [State.exec]
    split_ifs <;> simp [Followed, Instr.needs]
  | init q | initWithToken q st | handleSessionTokenResponse response c =>
    simp [State.exec, Followed, Instr.needs]
  | _ => trivial

theorem complete_handler (s : State) (a : Act) : Complete [] (s.handler a) := by
  unfold State.handler
  cases a with
  | statusResponse n ec =>
    dsimp only
    split_ifs
    · refine (complete_updateConnectionState ec).append (fun d hd => by cases hd) ?_
      simp [Followed, Instr.needs]
    · trivial
  | apiResponse n r response | tokenResponse n c response =>
    dsimp only
    split_ifs <;> simp [Followed, Instr.needs]
  | delayedFires =>
    dsimp only
    split <;> simp [Followed, Instr.needs, Instr.meets]
  | timeoutFires =>
    dsimp only
    split
    · split_ifs <;> simp [Followed, Instr.needs]
    · trivial
  | _ => simp [Followed, Instr.needs, Instr.meets]

namespace State

variable {s s' : State}

/-! ### What is pending -/

/-- The recheck of the connection is under way. -/
def Rechecks (s : State) : Prop := s.connectionStateRecheckTimer.Armed ∨ s.statusRequests ≠ []

instance (s : State) : Decidable s.Rechecks := inferInstanceAs (Decidable (_ ∨ _))

/-- Something is pending whose handler attempts requests or asks for a token. -/
def Awake (s : State) : Prop :=
  s.tokenRequests ≠ [] ∨ s.sessionTokenFailureTimer.Armed ∨ s.Rechecks ∨
    (∃ p ∈ s.apiRequests, p.2 ∈ s.locker.inProgressRequests) ∨
    (s.locker.delayedRequests.running = true ∧ s.locker.delayedRequests.events ≠ [])

instance (s : State) : Decidable s.Awake := inferInstanceAs (Decidable (_ ∨ _ ∨ _ ∨ _ ∨ _))

/-- What is pending stays so. -/
structure KeepsAwake (s s' : State) : Prop where
  tokenRequests : s.tokenRequests.length ≤ s'.tokenRequests.length
  failureTimer : s.sessionTokenFailureTimer.Armed → s'.sessionTokenFailureTimer.Armed
  rechecks : s.Rechecks → s'.Rechecks
  apiRequests : ∀ p ∈ s.apiRequests, p.2 ∈ s.locker.inProgressRequests → p ∈ s'.apiRequests
  inProgress : ∀ r ∈ s.locker.inProgressRequests, r ∈ s'.locker.inProgressRequests
  delayed : s'.locker.delayedRequests = s.locker.delayedRequests

theorem KeepsAwake.tokenRequests_ne_nil (h : KeepsAwake s s') (hne : s.tokenRequests ≠ []) :
    s'.tokenRequests ≠ [] :=
  List.ne_nil_of_length_pos ((List.length_pos_of_ne_nil hne).trans_le h.tokenRequests)

theorem KeepsAwake.awake (h : KeepsAwake s s') (hawake : s.Awake) : s'.Awake := by
  rcases hawake with htoken | htimer | hrechecks | ⟨p, hp, hr⟩ | hdelayed
  · exact Or.inl (h.tokenRequests_ne_nil htoken)
  · exact Or.inr (Or.inl (h.failureTimer htimer))
  · exact Or.inr (Or.inr (Or.inl (h.rechecks hrechecks)))
  · exact Or.inr (Or.inr (Or.inr (Or.inl ⟨p, h.apiRequests p hp hr, h.inProgress _ hr⟩)))
  · exact Or.inr (Or.inr (Or.inr (Or.inr (h.delayed ▸ hdelayed))))

theorem armed_asyncWait (t : Timer) : t.asyncWait.Armed := by
  unfold Timer.Armed Timer.asyncWait
  dsimp only
  omega

/-- Only `expires_from_now` takes a wait away, for the one that follows. -/
theorem timers_exec (s : State) (i : Instr) :
    ((∀ ms, i ≠ .expireFailureTimer ms) → s.sessionTokenFailureTimer.Armed →
        (s.exec i).1.sessionTokenFailureTimer.Armed) ∧
      (i ≠ .expireRecheckTimer → s.Rechecks → (s.exec i).1.Rechecks) := by
  have hsame {t : State} (hfailure : t.sessionTokenFailureTimer = s.sessionTokenFailureTimer)
      (hrecheck : t.connectionStateRecheckTimer = s.connectionStateRecheckTimer)
      (hstatus : t.statusRequests = s.statusRequests) :
      ((∀ ms, i ≠ .expireFailureTimer ms) → s.sessionTokenFailureTimer.Armed →
          t.sessionTokenFailureTimer.Armed) ∧ (i ≠ .expireRecheckTimer → s.Rechecks → t.Rechecks) := by
    rw [Rechecks, Rechecks, hfailure, hrecheck, hstatus]
    exact ⟨fun _ => id, fun _ => id⟩
  cases i with
  | waitFailureTimer => exact ⟨fun _ _ => armed_asyncWait _, fun _ => id⟩
  | waitRecheckTimer => exact ⟨fun _ => id, fun _ _ => Or.inl (armed_asyncWait _)⟩
  | attemptConnection =>
    exact ⟨fun _ => id, fun _ _ =>
      Or.inr (List.append_ne_nil_of_right_ne_nil _ (List.cons_ne_nil _ _))⟩
  | expireFailureTimer ms => exact ⟨fun hne => absurd rfl (hne ms), fun _ => id⟩
  | expireRecheckTimer => exact ⟨fun _ => id, fun hne => absurd rfl hne⟩
  | nextWaitingNonSessionTokenRequest =>
    rcases s.attemptNonSessionTokenRequest_cases with ⟨q, l, -, heq⟩ | heq <;>
      simp only [exec, heq] <;> exact hsame rfl rfl rfl
  | nextWaitingSessionTokenRequest =>
    rcases s.attemptSessionTokenRequest_cases with ⟨q, st, l, -, heq⟩ | heq <;>
      simp only [exec, heq] <;> exact hsame rfl rfl rfl
  | tryRequestSessionToken c loop =>
    rcases s.tryRequestSessionToken_cases c loop with ⟨l, -, heq⟩ | heq <;>
      simp only [exec, heq] <;> exact hsame rfl rfl rfl
  | addSessionToken response c state count =>
    rcases s.addSessionToken_cases response c state count with ⟨l, -, heq⟩ | ⟨-, heq⟩ <;>
      simp only [exec, heq] <;> exact hsame rfl rfl rfl
  | handleTimedOutRequest q =>
    rcases s.handleTimedOutRequest_cases q with ⟨l, -, heq⟩ | ⟨-, heq⟩ <;>
      simp only [exec, heq] <;> exact hsame rfl rfl rfl
  | _ => exact hsame rfl rfl rfl

theorem apiRequests_subset_exec (s : State) (i : Instr) {p : ℕ × ℕ} (h : p ∈ s.apiRequests) :
    p ∈ (s.exec i).1.apiRequests := by
  cases i with
  | init q | initWithToken q st => exact List.mem_append_left _ h
  | _ => rwa [apiRequests_exec s (fun _ h => by cases h) (fun _ _ h => by cases h)]

theorem inProgress_subset_exec (s : State) {i : Instr} {r : ℕ} (h : r ∈ s.locker.inProgressRequests)
    (hout : i.movesOut ≠ some r) (hends : i.ends = false) :
    r ∈ (s.exec i).1.locker.inProgressRequests := by
  cases hmoves : i.movesInProgress with
  | false => rwa [inProgress_exec s hmoves]
  | true =>
    cases i with
    | addInProgressRequest q a | addInProgressRequestWithToken q a st =>
      exact Table.mem_add.mpr (Or.inr h)
    | removeInProgressRequest q a | moveInProgressToDelayed q a =>
      exact Table.mem_erase.mpr ⟨fun heq => hout (congrArg some heq.symm), h⟩
    | moveInProgressToWaiting q a =>
      change r ∈ (SessionMaintainerLocker.pushWaiting _ _ _).inProgressRequests
      rw [SessionMaintainerLocker.inProgress_pushWaiting]
      exact Table.mem_erase.mpr ⟨fun heq => hout (congrArg some heq.symm), h⟩
    | moveRequests => cases hends
    | _ => cases hmoves

theorem delayed_exec (s : State) {i : Instr} (h : i.needs = []) (hends : i.ends = false) :
    (s.exec i).1.locker.delayedRequests = s.locker.delayedRequests := by
  by_cases hquiet : i.quiet = true
  · exact (quiet_exec hquiet).1.locker.delayed
  cases i with
  | addWaitingRequest _ | moveInProgressToDelayed _ _ | moveInProgressToWaiting _ _
  | reuseToken _ _ _ => cases h
  | stopTimeouts | moveRequests | release _ => cases hends
  | nextWaitingNonSessionTokenRequest =>
    rcases s.attemptNonSessionTokenRequest_cases with ⟨q, l, hl, heq⟩ | heq
    · obtain ⟨waiting, -, rfl⟩ :=
        SessionMaintainerLocker.nextWaitingNonSessionTokenRequest_eq_some hl
      simp only [exec, heq, setLocker_locker]
    · simp only [exec, heq]
  | nextWaitingSessionTokenRequest =>
    rcases s.attemptSessionTokenRequest_cases with ⟨q, st, l, hl, heq⟩ | heq
    · obtain ⟨waiting, tokens, -, -, rfl⟩ :=
        SessionMaintainerLocker.nextWaitingSessionTokenRequest_eq_some hl
      simp only [exec, heq, setLocker_locker]
    · simp only [exec, heq]
  | handleTimedOutRequest q =>
    rcases s.handleTimedOutRequest_cases q with ⟨l, hl, heq⟩ | ⟨-, heq⟩
    · rcases SessionMaintainerLocker.handleTimedOutRequest_eq_some hl with ⟨-, rfl⟩ | ⟨-, rfl⟩ <;>
        simp only [exec, heq, setLocker_locker]
    · simp only [exec, heq]
  | _ => first | rfl | exact absurd rfl hquiet

/-- An instruction that needs nothing takes nothing away. -/
theorem keepsAwake_exec (s : State) {i : Instr} (h : i.needs = []) (hends : i.ends = false) :
    KeepsAwake s (s.exec i).1 where
  tokenRequests := s.tokenRequests_le_exec i
  failureTimer := (s.timers_exec i).1 (by rintro ms rfl; cases h)
  rechecks := (s.timers_exec i).2 (by rintro rfl; cases h)
  apiRequests _ hp _ := s.apiRequests_subset_exec i hp
  inProgress r hr := by
    refine s.inProgress_subset_exec hr (fun hout => ?_) hends
    cases i with
    | removeInProgressRequest q a | moveInProgressToWaiting q a | moveInProgressToDelayed q a =>
      cases h
    | _ => cases hout
  delayed := s.delayed_exec h hends

/-! ### The invariant -/

/-- Nothing waits for a session token, or something is pending, or the handler that is left goes on
to see to it. -/
inductive Unstalled (s : State) : Prop
  | idle (h : s.locker.waitingStRequests = [])
  | loggedOut (h : s.locker.credentials = none)
  | awake (h : s.Awake)
  | refused (h : s.locker.sessionState.isCredentialsError = true)
  | waking (j : Instr) (hj : j ∈ pending s.threads) (h : j.wakes = true)
  | connecting (hattempt : .attemptIfConnected ∈ pending s.threads)
      (h : s.locker.connectionState.isConnected = true ∨
        .setConnectionState .connected ∈ pending s.threads)
  | asking (hstored : s.locker.sessionTokens = []) (j : Instr) (hj : j ∈ pending s.threads)
      (h : j.asksToken = true)

structure Wakeful (s : State) : Prop where
  followed : AllFollowed Instr.needs Instr.meets s.threads
  unended : ∀ j ∈ pending s.threads, j.ends = false
  held : ∀ r ∈ s.locker.checkedOutTokens, r ∈ s.locker.inProgressRequests ∨
    ∃ j ∈ pending s.threads, j.givesBack = some r
  unstalled : s.Unstalled
  refused : s.locker.sessionState.isCredentialsError = true → s.tokenRequests ≠ [] ∨
    s.sessionTokenFailureTimer.Armed ∨
      ∃ j ∈ pending s.threads, j.retries s.locker.credentials = true
  unconnected : s.locker.connectionState.isUnconnected = true →
    s.Rechecks ∨ ∃ j ∈ pending s.threads, j.rechecks = true

/-! ### Asking for tokens -/

section Section

variable {k : ℕ} {i : Instr} {rest : List Instr}

theorem InOrder.late (h : InOrder s) (hk : s.threads[k]? = some (i :: rest)) (hi : 3 ≤ i.last)
    {j : Instr} (hj : j ∈ pending s.threads) : j = i ∨ 3 ≤ j.first := by
  rw [(h.pending_runThread hk).1] at hj
  exact (List.mem_cons.mp hj).imp_right fun hj => hi.trans (h.staged.behind hk hj)

/-- At the end of `AttemptRequests` every request for a token that counts is in flight. -/
theorem requested_eq (horder : InOrder s) (hcounted : Counted s)
    (hexists : s.maintainerExists = true) (hk : s.threads[k]? = some (i :: rest))
    (hi : 3 ≤ i.last) (hasks : i.asks = 0) :
    s.locker.inProgressSessionTokenRequests = s.tokenRequests.length := by
  rw [hcounted.unprocessed hexists, unprocessed, load_eq_zero fun j hj => ?_]
  · rfl
  · rcases horder.late hk hi hj with rfl | hfirst
    · exact hasks
    · cases j with
      | getSessionToken _ | handleSessionTokenResponse _ _ =>
        exact absurd hfirst (by simp [Instr.first])
      | _ => rfl

/-- A token that is checked out then comes back with an attempt in flight. -/
theorem awake_of_checkedOut (horder : InOrder s) (hreturning : Returning s) (h : Wakeful s)
    (hk : s.threads[k]? = some (i :: rest)) (hi : 3 ≤ i.last)
    (hremoves : i.removesToken = none) (hgives : i.givesBack = none)
    {r : ℕ} {out : CheckedOut} (hout : s.locker.checkedOutTokens.find? r = some out) :
    s.Awake := by
  refine Or.inr (Or.inr (Or.inr (Or.inl ⟨(out.attempt, r), ?_, ?_⟩)))
  · refine (hreturning.checkedOut r out hout).resolve_right ?_
    rintro ⟨j, hj, hj'⟩
    rcases horder.late hk hi hj with rfl | hfirst
    · rw [hremoves] at hj'
      cases hj'
    · cases j with
      | retryOrComplete _ _ _ | completionAlert _ _ _ | requestRetryAlert _ _ _
      | deleteCheckedOutToken _ _ | reuseToken _ _ _ => exact absurd hfirst (by simp [Instr.first])
      | _ => cases hj'
  · refine (h.held r (Table.mem_of_find? hout)).resolve_right ?_
    rintro ⟨j, hj, hj'⟩
    rcases horder.late hk hi hj with rfl | hfirst
    · rw [hgives] at hj'
      cases hj'
    · rw [Instr.first_of_givesBack hj'] at hfirst
      omega

/-- No token is asked for beside a token in a table, or one that is asked for already. -/
theorem holdsToken_or_requested (h : ¬ s.locker.mayRequestSessionToken) :
    s.locker.HoldsToken ∨ s.locker.inProgressSessionTokenRequests ≠ 0 := by
  by_contra hnone
  push Not at hnone
  obtain ⟨htokens, hrequested⟩ := hnone
  unfold SessionMaintainerLocker.HoldsToken at htokens
  push Not at htokens
  refine h (Or.inl ⟨hrequested, ?_⟩)
  rw [htokens.1, htokens.2]
  rfl

theorem not_mayRequest_of_none {c : Credentials} {loop : Bool}
    (h : s.tryRequestSessionToken c loop = (s, [])) : ¬ s.locker.mayRequestSessionToken := by
  intro hmay
  rw [State.tryRequestSessionToken, SessionMaintainerLocker.startRequestSessionToken,
    if_pos hmay] at h
  cases congrArg Prod.snd h

theorem waiting_or_stored_of_next {l : SessionMaintainerLocker}
    (h : l.nextWaitingSessionTokenRequest = none) :
    l.waitingStRequests = [] ∨ l.sessionTokens = [] := by
  unfold SessionMaintainerLocker.nextWaitingSessionTokenRequest at h
  split at h
  · cases h
  · rename_i hnone
    cases hwaiting : l.waitingStRequests with
    | nil => exact Or.inl rfl
    | cons r waiting =>
      refine Or.inr (List.getLast?_eq_none_iff.mp ?_)
      cases hlast : l.sessionTokens.getLast? with
      | none => rfl
      | some st => exact absurd hlast (hnone r waiting st hwaiting)

/-- The instructions that wake something, or find nothing to do it with. -/
theorem wakes_exec (hexists : s.maintainerExists = true) (hwakes : i.wakes = true)
    (hrunning : i = .whileRunning → s.locker.sessionState.isRunning = false →
      s.locker.sessionTokens = []) :
    (s.exec i).1.Awake ∨ (∃ j ∈ (s.exec i).2, j.wakes = true) ∨
      (s.exec i).1.locker.waitingStRequests = [] ∨
      ((s.exec i).1.locker.sessionTokens = [] ∧ ∃ j ∈ (s.exec i).2, j.asksToken = true) := by
  cases i with
  | attemptConnection =>
    exact Or.inl (Or.inr (Or.inr (Or.inl (Or.inr
      (List.append_ne_nil_of_right_ne_nil _ (List.cons_ne_nil _ _))))))
  | waitFailureTimer => exact Or.inl (Or.inr (Or.inl (armed_asyncWait _)))
  | waitRecheckTimer => exact Or.inl (Or.inr (Or.inr (Or.inl (Or.inl (armed_asyncWait _)))))
  | attemptRequests =>
    refine Or.inr (Or.inl ?_)
    simp only [exec]
    split_ifs <;> exact ⟨_, List.mem_singleton_self _, rfl⟩
  | nextWaitingNonSessionTokenRequest =>
    refine Or.inr (Or.inl ?_)
    rcases s.attemptNonSessionTokenRequest_cases with ⟨q, l, -, heq⟩ | heq <;> simp only [exec, heq]
    · exact ⟨.nextWaitingNonSessionTokenRequest, by simp, rfl⟩
    · exact ⟨_, List.mem_singleton_self _, rfl⟩
  | whileRunning =>
    simp only [exec]
    cases hstate : s.locker.sessionState.isRunning with
    | true => exact Or.inr (Or.inl ⟨_, List.mem_singleton_self _, rfl⟩)
    | false => exact Or.inr (Or.inr (Or.inr ⟨hrunning rfl hstate, _, List.mem_singleton_self _, rfl⟩))
  | nextWaitingSessionTokenRequest =>
    simp only [exec, attemptSessionTokenRequest]
    cases hnext : s.locker.nextWaitingSessionTokenRequest with
    | some next => exact Or.inr (Or.inl ⟨.whileRunning, by simp, rfl⟩)
    | none =>
      refine Or.inr (Or.inr ((waiting_or_stored_of_next hnext).imp_right fun hstored => ?_))
      exact ⟨hstored, _, List.mem_singleton_self _, rfl⟩
  | handleSessionTokenResponse response c =>
    exact Or.inr (Or.inl ⟨_, List.mem_singleton_self _, rfl⟩)
  | getSessionState response c =>
    refine Or.inr (Or.inl ?_)
    simp only [exec, finishToken]
    split
    · exact ⟨.waitFailureTimer, by simp, rfl⟩
    · exact ⟨.attemptRequests, by simp, rfl⟩
  | retryOrComplete q a response =>
    refine Or.inr (Or.inl ?_)
    simp only [exec]
    split_ifs <;> exact ⟨_, List.mem_cons_self, rfl⟩
  | completionAlert q a response =>
    refine Or.inr (Or.inl ⟨.attemptRequests, ?_, rfl⟩)
    simp [exec, hexists, handleCompletion]
  | requestRetryAlert q a response =>
    refine Or.inr (Or.inl ⟨.attemptRequests, ?_, rfl⟩)
    simp only [exec, hexists, if_true, handleRetryRequest]
    split_ifs <;> simp
  | _ => cases hwakes

/-- A token is asked for, or one is in a table or asked for already. -/
theorem asks_exec (hasks : i.asksToken = true)
    (hrefused : ¬ s.locker.mayRequestSessionToken → i.last = 3 → i.asks = 0 →
      i.removesToken = none → i.givesBack = none → s.Awake) :
    (s.exec i).1.Awake ∨ s.locker.credentials = none ∨
      s.locker.sessionState.isCredentialsError = true ∨
      ∃ j ∈ (s.exec i).2, j.asksToken = true := by
  cases i with
  | requestNeededSessionTokens force =>
    cases force with
    | true => cases hasks
    | false =>
      cases hstate : s.locker.sessionState.isCredentialsError with
      | true => exact Or.inr (Or.inr (Or.inl rfl))
      | false => exact Or.inr (Or.inr (Or.inr (by simp [exec, hstate, Instr.asksToken])))
  | getCredentials haveBadCredentials =>
    cases hc : s.locker.credentials with
    | none => exact Or.inr (Or.inl rfl)
    | some c => exact Or.inr (Or.inr (Or.inr (by simp [exec, hc, Instr.asksToken])))
  | tryRequestSessionToken c loop =>
    rcases s.tryRequestSessionToken_cases c loop with ⟨l, -, heq⟩ | heq
    · exact Or.inr (Or.inr (Or.inr ⟨.getSessionToken c, by simp [exec, heq], rfl⟩))
    · refine Or.inl ?_
      rw [show s.exec (.tryRequestSessionToken c loop) = (s, []) from heq]
      exact hrefused (not_mayRequest_of_none heq) rfl rfl rfl rfl
  | getSessionToken c =>
    exact Or.inl (Or.inl (List.append_ne_nil_of_right_ne_nil _ (List.cons_ne_nil _ _)))
  | _ => cases hasks

/-- With the credentials refused, the handler goes on to ask for a token or to wait. -/
theorem retries_exec (hagreed : Agreed s) (hcounted : Counted s) (hexists : s.maintainerExists = true)
    (hk : s.threads[k]? = some (i :: rest)) (hmoves : i.movesSession = false)
    (hstate : s.locker.sessionState.isCredentialsError = true)
    (hretries : i.retries s.locker.credentials = true) :
    (s.exec i).1.tokenRequests ≠ [] ∨ (s.exec i).1.sessionTokenFailureTimer.Armed ∨
      ∃ j ∈ (s.exec i).2, j.retries s.locker.credentials = true := by
  cases i with
  | waitFailureTimer => exact Or.inr (Or.inl (armed_asyncWait _))
  | requestNeededSessionTokens force =>
    cases force with
    | false => cases hretries
    | true => exact Or.inr (Or.inr (by simp [exec, Instr.retries]))
  | getCredentials haveBadCredentials =>
    have hsome : s.locker.credentials.isSome = true :=
      hagreed.credentials.mpr (SessionState.kind_of_isCredentialsError hstate).1
    obtain ⟨c, hc⟩ := Option.isSome_iff_exists.mp hsome
    exact Or.inr (Or.inr (by simp [exec, hc, Instr.retries]))
  | tryRequestSessionToken c loop =>
    rcases s.tryRequestSessionToken_cases c loop with ⟨l, -, heq⟩ | heq
    · exact Or.inr (Or.inr ⟨.getSessionToken c, by simp [exec, heq], rfl⟩)
    · refine Or.inl ?_
      rw [show s.exec (.tryRequestSessionToken c loop) = (s, []) from heq]
      rcases holdsToken_or_requested (not_mayRequest_of_none heq) with hholds | hrequested
      · exfalso
        rcases hagreed.tables hholds with hrunning | ⟨response, count, c', hmem⟩
        · rw [(SessionState.kind_of_isCredentialsError hstate).2.2] at hrunning
          cases hrunning
        · rcases hagreed.inOrder.late hk le_rfl hmem with heq' | hfirst
          · cases heq'
          · exact absurd hfirst (by simp [Instr.first])
      · rw [requested_eq hagreed.inOrder hcounted hexists hk le_rfl rfl] at hrequested
        exact List.ne_nil_of_length_pos (Nat.pos_of_ne_zero hrequested)
  | getSessionToken c =>
    exact Or.inl (List.append_ne_nil_of_right_ne_nil _ (List.cons_ne_nil _ _))
  | handleSessionTokenResponse response c =>
    exact Or.inr (Or.inr ⟨_, List.mem_singleton_self _, hretries⟩)
  | getSessionState response c =>
    refine Or.inr (Or.inr ?_)
    simp only [exec, finishToken]
    cases hec : response.errorCode with
    | some ec => exact ⟨.waitFailureTimer, by simp, rfl⟩
    | none =>
      refine ⟨.addSessionToken response c s.locker.sessionState s.locker.sessionStateChangeCount,
        by simp, ?_⟩
      simpa [Instr.retries, hec] using hretries
  | addSessionToken response c state count =>
    have hc : s.locker.credentials = some c := of_decide_eq_true hretries
    obtain ⟨rfl, -⟩ := hagreed.upToDate _ (stepped_runThread hk).head_mem
    rcases s.addSessionToken_cases response c s.locker.sessionState count with
      ⟨l, -, heq⟩ | ⟨hne, -⟩
    · refine Or.inr (Or.inr ⟨.setSessionStateSafe (.running response) count c, ?_, rfl⟩)
      obtain ⟨huninitialized, -, hrunning⟩ := SessionState.kind_of_isCredentialsError hstate
      simp [exec, heq, huninitialized, hrunning]
    · exact absurd hc hne
  | setSessionStateSafe newState count c => cases hmoves
  | _ => cases hretries

/-- Only `SetConnectionState` changes the state of the connection. -/
theorem connectionState_exec (s : State) {i : Instr} (h : ∀ state, i ≠ .setConnectionState state) :
    (s.exec i).1.locker.connectionState = s.locker.connectionState := by
  cases i with
  | setConnectionState state => exact absurd rfl (h state)
  | nextWaitingNonSessionTokenRequest =>
    rcases s.attemptNonSessionTokenRequest_cases with ⟨q, l, hl, heq⟩ | heq
    · obtain ⟨waiting, -, rfl⟩ :=
        SessionMaintainerLocker.nextWaitingNonSessionTokenRequest_eq_some hl
      simp only [exec, heq, setLocker_locker]
    · simp only [exec, heq]
  | nextWaitingSessionTokenRequest =>
    rcases s.attemptSessionTokenRequest_cases with ⟨q, st, l, hl, heq⟩ | heq
    · obtain ⟨waiting, tokens, -, -, rfl⟩ :=
        SessionMaintainerLocker.nextWaitingSessionTokenRequest_eq_some hl
      simp only [exec, heq, setLocker_locker]
    · simp only [exec, heq]
  | handleTimedOutRequest q =>
    rcases s.handleTimedOutRequest_cases q with ⟨l, hl, heq⟩ | ⟨-, heq⟩
    · rcases SessionMaintainerLocker.handleTimedOutRequest_eq_some hl with ⟨-, rfl⟩ | ⟨-, rfl⟩ <;>
        simp only [exec, heq, setLocker_locker]
    · simp only [exec, heq]
  | tryRequestSessionToken c loop =>
    rcases s.tryRequestSessionToken_cases c loop with ⟨l, hl, heq⟩ | heq
    · obtain ⟨-, rfl⟩ := SessionMaintainerLocker.startRequestSessionToken_eq_some hl
      simp only [exec, heq, setLocker_locker]
    · simp only [exec, heq]
  | addSessionToken response c state count =>
    rcases s.addSessionToken_cases response c state count with ⟨l, hl, heq⟩ | ⟨-, heq⟩
    · obtain ⟨-, rfl⟩ := SessionMaintainerLocker.addSessionToken_eq_some hl
      simp only [exec, heq, setLocker_locker]
    · simp only [exec, heq]
  | setCredentials c =>
    simp only [exec, setLocker_locker, SessionMaintainerLocker.setCredentials,
      SessionMaintainerLocker.changeSessionStateInternal, SessionMaintainerLocker.visitNewState]
    split_ifs <;> rfl
  | setSessionStateSafe newState count c =>
    simp only [exec, setLocker_locker, SessionMaintainerLocker.setSessionStateSafe,
      SessionMaintainerLocker.changeSessionStateInternal, SessionMaintainerLocker.visitNewState]
    split_ifs <;> rfl
  | reuseToken q a newKey =>
    rcases s.locker.reuseToken_cases (s.requests q).usesSessionToken q newKey with
      heq | ⟨out, -, -, heq⟩ <;> simp only [exec, setLocker_locker, heq]
  | addWaitingRequest q =>
    cases huses : (s.requests q).usesSessionToken <;>
      simp only [exec, setLocker_locker, huses] <;> rfl
  | moveInProgressToWaiting q a =>
    cases huses : (s.requests q).usesSessionToken <;>
      simp only [exec, setLocker_locker, huses] <;> rfl
  | _ => rfl

/-! ### One section of a handler -/

theorem ends_pushed {j : Instr} (hi : i.ends = false) (hj : j ∈ (s.exec i).2) :
    j.ends = false := by
  cases pushes_exec hj with
  | control hcontrol => cases j <;> first | rfl | cases hcontrol
  | handleCompletion _ h => rcases mem_handleCompletion h with rfl | rfl | rfl | rfl <;> rfl
  | handleRetryRequest _ h =>
    rcases mem_handleRetryRequest h with rfl | rfl | rfl | rfl | rfl <;> rfl
  | cancelMoved _ | release => cases hi
  | _ => rfl

theorem Wakeful.mem_behind (h : Wakeful s) (horder : InOrder s)
    (hk : s.threads[k]? = some (i :: rest)) {d : Need} (hd : d ∈ i.needs) :
    ∃ j ∈ pending (s.runThread k i rest).threads, j.meets = some d := by
  obtain ⟨j, hj, hmeets⟩ := h.followed.behind hk hd
  rw [(horder.pending_runThread hk).2]
  exact ⟨j, List.mem_append_right _ hj, hmeets⟩

theorem Wakeful.held_runs (h : Wakeful s) (horder : InOrder s) (htokens : TokensUsed s)
    (hk : s.threads[k]? = some (i :: rest)) {r : ℕ}
    (hr : r ∈ (s.runThread k i rest).locker.checkedOutTokens) :
    r ∈ (s.runThread k i rest).locker.inProgressRequests ∨
      ∃ j ∈ pending (s.runThread k i rest).threads, j.givesBack = some r := by
  have hthread := stepped_runThread hk
  have hends := h.unended i hthread.head_mem
  obtain ⟨out, hout⟩ := Table.exists_find? hr
  rcases checkedOut_exec s hout with hold | rfl
  · rcases h.held r (Table.mem_of_find? hold) with hin | ⟨j, hj, hgives⟩
    · by_cases hmoves : i.movesOut = some r
      · -- the request goes out, and its token follows
        have hneed : Need.giveBack r ∈ i.needs := by
          cases i with
          | removeInProgressRequest q a | moveInProgressToWaiting q a
          | moveInProgressToDelayed q a =>
            cases hmoves
            simp [Instr.needs]
          | _ => cases hmoves
        obtain ⟨j, hj, hmeets⟩ := h.mem_behind horder hk hneed
        refine Or.inr ⟨j, hj, ?_⟩
        cases j <;> cases hmeets <;> rfl
      · exact Or.inl (s.inProgress_subset_exec hin hmoves hends)
    · by_cases heq : j = i
      · subst heq
        exfalso
        cases j with
        | deleteCheckedOutToken q a =>
          cases hgives
          exact (Table.find?_erase hout).1 rfl
        | reuseToken q a newKey =>
          cases hgives
          obtain ⟨-, huses⟩ := htokens r (Or.inr (Or.inr (Table.mem_of_find? hold)))
          change ((s.locker.reuseToken (s.requests r).usesSessionToken r
            newKey).checkedOutTokens.find? r = _) at hout
          simp only [SessionMaintainerLocker.reuseToken, huses, if_true, hold] at hout
          exact (Table.find?_erase hout).1 rfl
        | _ => cases hgives
      · exact Or.inr ⟨j, hthread.stays hj heq, hgives⟩
  · exact Or.inl (Table.mem_add.mpr (Or.inl rfl))

theorem Wakeful.unstalled_runs (h : Wakeful s) (hagreed : Agreed s) (hcounted : Counted s)
    (htidy : Tidy s) (hexists : s.maintainerExists = true)
    (hk : s.threads[k]? = some (i :: rest)) : (s.runThread k i rest).Unstalled := by
  have hthread := stepped_runThread hk
  have horder := hagreed.inOrder
  by_cases hneeds : i.needs = []
  swap
  · obtain ⟨d, hd, hgive⟩ := Instr.exists_need hneeds
    obtain ⟨j, hj, hmeets⟩ := h.mem_behind horder hk hd
    exact .waking j hj (Instr.wakes_of_meets hgive hmeets)
  have hkeeps := s.keepsAwake_exec hneeds (h.unended i hthread.head_mem)
  have hsession := s.sameSession_exec (Instr.movesSession_of_needs hneeds)
  have hstored (hnone : s.locker.sessionTokens = []) :
      (s.runThread k i rest).locker.sessionTokens = [] := by
    refine List.eq_nil_iff_forall_not_mem.mpr fun st hst => ?_
    cases storedBy_exec hst with
    | kept hold =>
      rw [hnone] at hold
      cases hold
    | accepted _ _ _ | returned _ _ => cases hneeds
  cases h.unstalled with
  | idle hnone =>
    refine .idle (List.eq_nil_iff_forall_not_mem.mpr fun r hr => ?_)
    rcases mem_waitingSt_exec hr with hold | ⟨hputs, -⟩
    · rw [hnone] at hold
      cases hold
    · cases i with
      | addWaitingRequest q | moveInProgressToWaiting q a => cases hneeds
      | _ => cases hputs
  | loggedOut hnone => exact .loggedOut (hsession.credentials.trans hnone)
  | awake hawake => exact .awake (hkeeps.awake hawake)
  | refused hstate => exact .refused ((congrArg _ hsession.sessionState).trans hstate)
  | waking j hj hwakes =>
    by_cases heq : j = i
    swap
    · exact .waking j (hthread.stays hj heq) hwakes
    subst heq
    have hrunning : j = .whileRunning → s.locker.sessionState.isRunning = false →
        s.locker.sessionTokens = [] := by
      rintro rfl hrunning
      by_contra hne
      rcases hagreed.tables (Or.inl hne) with hrunning' | ⟨response, count, c, hmem⟩
      · rw [hrunning] at hrunning'
        cases hrunning'
      · rcases horder.late hk le_rfl hmem with heq' | hfirst
        · cases heq'
        · exact absurd hfirst (by simp [Instr.first])
    rcases wakes_exec hexists hwakes hrunning with
      hawake | ⟨j', hj', hwakes'⟩ | hnone | ⟨hnone, j', hj', hasks⟩
    · exact .awake hawake
    · exact .waking j' (hthread.pushed_mem hj') hwakes'
    · exact .idle hnone
    · exact .asking hnone j' (hthread.pushed_mem hj') hasks
  | connecting hattempt hconnected =>
    by_cases heq : .attemptIfConnected = i
    · subst heq
      have hconnected' : s.locker.connectionState.isConnected = true := by
        refine hconnected.resolve_right fun hmem => ?_
        rcases horder.late hk le_rfl hmem with heq' | hfirst
        · cases heq'
        · exact absurd hfirst (by simp [Instr.first])
      refine .waking .attemptRequests (hthread.pushed_mem ?_) rfl
      simp [exec, hconnected']
    · refine .connecting (hthread.stays hattempt heq) ?_
      by_cases hset : ∃ state, i = .setConnectionState state
      · obtain ⟨state, rfl⟩ := hset
        cases state with
        | connected => exact Or.inl rfl
        | uninitialized | unconnected ec => cases hneeds
      · push Not at hset
        rcases hconnected with hconnected | hmem
        · exact Or.inl ((congrArg _ (s.connectionState_exec hset)).trans hconnected)
        · exact Or.inr (hthread.stays hmem (hset _).symm)
  | asking hnone j hj hasks =>
    by_cases heq : j = i
    swap
    · exact .asking (hstored hnone) j (hthread.stays hj heq) hasks
    subst heq
    have hrefused (hmay : ¬ s.locker.mayRequestSessionToken) (hlast : j.last = 3)
        (hnotAsked : j.asks = 0) (hremoves : j.removesToken = none)
        (hgives : j.givesBack = none) : s.Awake := by
      by_cases hrequested : s.locker.inProgressSessionTokenRequests = 0
      · rcases ((holdsToken_or_requested hmay).resolve_right
          (not_not_intro hrequested)).cases with ⟨st, hst⟩ | ⟨r, out, hout⟩
        · rw [hnone] at hst
          cases hst
        · exact awake_of_checkedOut horder (htidy.returning hexists) h hk hlast.ge hremoves hgives
            hout
      · rw [requested_eq horder hcounted hexists hk hlast.ge hnotAsked] at hrequested
        exact Or.inl (List.ne_nil_of_length_pos (Nat.pos_of_ne_zero hrequested))
    rcases asks_exec hasks hrefused with hawake | hcredentials | hstate | ⟨j', hj', hasks'⟩
    · exact .awake hawake
    · exact .loggedOut (hsession.credentials.trans hcredentials)
    · exact .refused ((congrArg _ hsession.sessionState).trans hstate)
    · exact .asking (hstored hnone) j' (hthread.pushed_mem hj') hasks'

theorem Wakeful.refused_runs (h : Wakeful s) (hagreed : Agreed s) (hcounted : Counted s)
    (hexists : s.maintainerExists = true) (hk : s.threads[k]? = some (i :: rest))
    (hstate : (s.runThread k i rest).locker.sessionState.isCredentialsError = true) :
    (s.runThread k i rest).tokenRequests ≠ [] ∨
      (s.runThread k i rest).sessionTokenFailureTimer.Armed ∨
      ∃ j ∈ pending (s.runThread k i rest).threads,
        j.retries (s.runThread k i rest).locker.credentials = true := by
  have hthread := stepped_runThread hk
  have hbehind (hd : Need.failureTimer ∈ i.needs) : ∃ j ∈ pending (s.runThread k i rest).threads,
      j.retries (s.runThread k i rest).locker.credentials = true := by
    obtain ⟨j, hj, hmeets⟩ := h.mem_behind hagreed.inOrder hk hd
    refine ⟨j, hj, ?_⟩
    cases j <;> first | rfl | cases hmeets
  -- where the state was refused before, what went on to ask does so still
  have hkept (hsession : SameSession s.locker (s.exec i).1.locker)
      (hhead : i.retries s.locker.credentials = true → i.movesSession = false) :
      (s.exec i).1.tokenRequests ≠ [] ∨ (s.exec i).1.sessionTokenFailureTimer.Armed ∨
        ∃ j ∈ pending (s.runThread k i rest).threads,
          j.retries (s.exec i).1.locker.credentials = true := by
    have hold : s.locker.sessionState.isCredentialsError = true :=
      (congrArg _ hsession.sessionState).symm.trans hstate
    rw [hsession.credentials]
    rcases h.refused hold with htoken | htimer | ⟨j, hj, hretries⟩
    · exact Or.inl (List.ne_nil_of_length_pos
        ((List.length_pos_of_ne_nil htoken).trans_le (s.tokenRequests_le_exec i)))
    · by_cases hexpire : ∃ ms, i = .expireFailureTimer ms
      · obtain ⟨ms, rfl⟩ := hexpire
        exact Or.inr (Or.inr (hbehind (List.mem_singleton_self _)))
      · push Not at hexpire
        exact Or.inr (Or.inl ((s.timers_exec i).1 hexpire htimer))
    · by_cases heq : j = i
      · subst heq
        rcases retries_exec hagreed hcounted hexists hk (hhead hretries) hold hretries with
          htoken | htimer | ⟨j', hj', hretries'⟩
        · exact Or.inl htoken
        · exact Or.inr (Or.inl htimer)
        · exact Or.inr (Or.inr ⟨j', hthread.pushed_mem hj', hretries'⟩)
      · exact Or.inr (Or.inr ⟨j, hthread.stays hj heq, hretries⟩)
  cases hmoves : i.movesSession with
  | false => exact hkept (s.sameSession_exec hmoves) fun _ => hmoves
  | true =>
    cases i with
    | setCredentials c =>
      have hlocker : (s.exec (.setCredentials c)).1.locker = s.locker.setCredentials c := rfl
      change (s.locker.setCredentials c).sessionState.isCredentialsError = true at hstate
      rcases s.locker.setCredentials_cases c with ⟨-, heq⟩ | ⟨-, hinitialized, heq⟩ | ⟨-, -, hchanged⟩
      · refine hkept ?_ fun hretries => by cases hretries
        rw [hlocker, heq]
        exact ⟨rfl, rfl, rfl⟩
      · rw [heq] at hstate
        change s.locker.sessionState.isCredentialsError = true at hstate
        rw [(SessionState.kind_of_isCredentialsError hstate).2.1] at hinitialized
        cases hinitialized
      · rw [hchanged.sessionState] at hstate
        cases hstate
    | setSessionStateSafe newState count c =>
      have hlocker : (s.exec (.setSessionStateSafe newState count c)).1.locker =
          s.locker.setSessionStateSafe newState count := rfl
      change (s.locker.setSessionStateSafe newState count).sessionState.isCredentialsError = true
        at hstate
      rcases s.locker.setSessionStateSafe_cases newState count with ⟨hsame, heq⟩ | ⟨-, -, hchanged⟩
      · rw [heq] at hstate
        refine hkept (by rw [hlocker, heq]; exact ⟨rfl, rfl, rfl⟩) fun hretries => ?_
        -- `Running` would have been set
        obtain ⟨hcount, -, -⟩ := hagreed.upToDate _ hthread.head_mem
        have hrunning := SessionState.isRunning_of_same (hsame hcount.symm)
        rw [(SessionState.kind_of_isCredentialsError hstate).2.2] at hrunning
        exact absurd (hrunning.trans hretries) Bool.false_ne_true
      · rw [hchanged.sessionState] at hstate
        refine Or.inr (Or.inr (hbehind ?_))
        simp [Instr.needs, (SessionState.kind_of_isCredentialsError hstate).2.2]
    | _ => cases hmoves

theorem Wakeful.unconnected_runs (h : Wakeful s) (horder : InOrder s)
    (hk : s.threads[k]? = some (i :: rest))
    (hstate : (s.runThread k i rest).locker.connectionState.isUnconnected = true) :
    (s.runThread k i rest).Rechecks ∨
      ∃ j ∈ pending (s.runThread k i rest).threads, j.rechecks = true := by
  have hthread := stepped_runThread hk
  have hbehind (hd : Need.recheckTimer ∈ i.needs) :
      ∃ j ∈ pending (s.runThread k i rest).threads, j.rechecks = true := by
    obtain ⟨j, hj, hmeets⟩ := h.mem_behind horder hk hd
    refine ⟨j, hj, ?_⟩
    cases j <;> first | rfl | cases hmeets
  by_cases hset : ∃ state, i = .setConnectionState state
  · obtain ⟨state, rfl⟩ := hset
    cases state with
    | unconnected ec => exact Or.inr (hbehind (List.mem_singleton_self _))
    | uninitialized | connected => cases hstate
  push Not at hset
  have hold : s.locker.connectionState.isUnconnected = true :=
    (congrArg _ (s.connectionState_exec hset)).symm.trans hstate
  rcases h.unconnected hold with hrechecks | ⟨j, hj, hrechecks⟩
  · by_cases hexpire : i = .expireRecheckTimer
    · subst hexpire
      exact Or.inr (hbehind (List.mem_singleton_self _))
    · exact Or.inl ((s.timers_exec i).2 hexpire hrechecks)
  by_cases heq : j = i
  · subst heq
    cases j with
    | waitRecheckTimer => exact Or.inl (Or.inl (armed_asyncWait _))
    | attemptConnection =>
      exact Or.inl (Or.inr (List.append_ne_nil_of_right_ne_nil _ (List.cons_ne_nil _ _)))
    | attemptRequests =>
      refine Or.inr ⟨.attemptConnection, hthread.pushed_mem ?_, rfl⟩
      simp [exec, hold]
    | setConnectionState state => exact absurd rfl (hset state)
    | _ => cases hrechecks
  · exact Or.inr ⟨j, hthread.stays hj heq, hrechecks⟩

theorem Wakeful.runs (h : Wakeful s) (hagreed : Agreed s) (hcounted : Counted s)
    (htidy : Tidy s) (hexists : s.maintainerExists = true)
    (hk : s.threads[k]? = some (i :: rest)) : Wakeful (s.runThread k i rest) where
  followed := h.followed.resume hk (complete_exec s i)
  unended j hj := by
    have hthread := stepped_runThread hk
    rcases hthread.mem hj with hj | hj
    · exact ends_pushed (h.unended i hthread.head_mem) hj
    · exact h.unended j hj
  held _ hr := h.held_runs hagreed.inOrder htidy.tokensUsed hk hr
  unstalled := h.unstalled_runs hagreed hcounted htidy hexists hk
  refused := h.refused_runs hagreed hcounted hexists hk
  unconnected := h.unconnected_runs hagreed.inOrder hk

end Section

/-! ### Handlers that start -/

/-- The condition on a step: an answer for old credentials leaves something behind that asks for
tokens again when the new ones have been refused. -/
structure KeepsRetrying (s : State) (a : Act) (s' : State) : Prop where
  once : s.OneAtATime a s'
  unstopped : a ≠ .stopTimeouts
  retries : ∀ n c response, a = .tokenResponse n c response → response.errorCode = none →
    s.locker.sessionState.isCredentialsError = true → s.locker.credentials ≠ some c →
      s.sessionTokenFailureTimer.Armed ∨ s.tokenRequests.erase (n, c) ≠ []

/-- What an action does before its handler runs: it takes what the handler is about. -/
structure Outside (s : State) (a : Act) (s' : State) : Prop where
  locker : ∃ delayed timeOut, s'.locker =
    { s.locker with delayedRequests := delayed, timeOutRequests := timeOut }
  delayed : a ≠ .delayedFires → s'.locker.delayedRequests = s.locker.delayedRequests
  tokenRequests : (∀ n c response, a ≠ .tokenResponse n c response) →
    s'.tokenRequests = s.tokenRequests
  failureTimer : a ≠ .failureTimerFires → s.sessionTokenFailureTimer.Armed →
    s'.sessionTokenFailureTimer.Armed
  rechecks : a ≠ .recheckTimerFires → (∀ n ec, a ≠ .statusResponse n ec) → s.Rechecks →
    s'.Rechecks
  apiRequests : (∀ n r response, a = .apiResponse n r response → r ∉ s.locker.inProgressRequests) →
    ∀ p ∈ s.apiRequests, p.2 ∈ s.locker.inProgressRequests → p ∈ s'.apiRequests

theorem armed_of_expire {t t' : Timer} {now : ℕ} (h : t.expire now = some t') : t'.Armed := by
  unfold Timer.expire at h
  split_ifs at h
  cases h
  unfold Timer.Armed
  dsimp only
  omega

theorem outside_of_step {a : Act} (hs : s.step a = some s') (hrun : ∀ k, a ≠ .run k)
    (hexists : s'.maintainerExists = true) : Outside s a s' := by
  unfold State.step at hs
  split_ifs at hs
  cases a with
  | run k => exact absurd rfl (hrun k)
  | destroy =>
    simp only [act] at hs
    split_ifs at hs
    cases hs
    cases hexists
  | cancelRequest r | dropRequest r =>
    simp only [act] at hs
    split_ifs at hs
    cases hs
    exact ⟨⟨_, _, rfl⟩, fun _ => rfl, fun _ => rfl, fun _ => id, fun _ _ => id, fun _ _ h _ => h⟩
  | apiResponse n r response =>
    simp only [act] at hs
    split_ifs at hs
    cases hs
    have hkept (hnot : ∀ n' r' response', Act.apiResponse n r response = .apiResponse n' r' response' →
        r' ∉ s.locker.inProgressRequests) (p : ℕ × ℕ) (hp : p ∈ s.apiRequests)
        (hr : p.2 ∈ s.locker.inProgressRequests) : p ∈ s.apiRequests.erase (n, r) := by
      refine (List.mem_erase_of_ne fun heq => ?_).mpr hp
      rw [heq] at hr
      exact hnot n r response rfl hr
    unfold apiResponse
    split_ifs <;>
      exact ⟨⟨_, _, rfl⟩, fun _ => rfl, fun _ => rfl, fun _ => id, fun _ _ => id, hkept⟩
  | tokenResponse n c response =>
    simp only [act] at hs
    split_ifs at hs
    cases hs
    unfold State.tokenResponse
    split_ifs <;>
      exact ⟨⟨_, _, rfl⟩, fun _ => rfl, fun h => absurd rfl (h n c response), fun _ => id,
        fun _ _ => id, fun _ _ h _ => h⟩
  | statusResponse n ec =>
    simp only [act] at hs
    split_ifs at hs
    cases hs
    unfold State.statusResponse
    split_ifs <;>
      exact ⟨⟨_, _, rfl⟩, fun _ => rfl, fun _ => rfl, fun _ => id, fun _ h => absurd rfl (h n ec),
        fun _ _ h _ => h⟩
  | failureTimerExpires =>
    obtain ⟨t, ht, rfl⟩ := Option.map_eq_some_iff.mp hs
    exact ⟨⟨_, _, rfl⟩, fun _ => rfl, fun _ => rfl, fun _ _ => armed_of_expire ht, fun _ _ => id,
      fun _ _ h _ => h⟩
  | failureTimerFires =>
    obtain ⟨t, -, rfl⟩ := Option.map_eq_some_iff.mp hs
    exact ⟨⟨_, _, rfl⟩, fun _ => rfl, fun _ => rfl, fun h => absurd rfl h, fun _ _ => id,
      fun _ _ h _ => h⟩
  | recheckTimerExpires =>
    obtain ⟨t, ht, rfl⟩ := Option.map_eq_some_iff.mp hs
    exact ⟨⟨_, _, rfl⟩, fun _ => rfl, fun _ => rfl, fun _ => id,
      fun _ _ _ => Or.inl (armed_of_expire ht), fun _ _ h _ => h⟩
  | recheckTimerFires =>
    obtain ⟨t, -, rfl⟩ := Option.map_eq_some_iff.mp hs
    exact ⟨⟨_, _, rfl⟩, fun _ => rfl, fun _ => rfl, fun _ => id, fun h => absurd rfl h,
      fun _ _ h _ => h⟩
  | delayedFires =>
    obtain ⟨⟨r, l⟩, hnext, rfl⟩ := Option.map_eq_some_iff.mp hs
    obtain ⟨events, -, rfl⟩ := SessionMaintainerLocker.nextDelayedRequest_eq_some hnext
    exact ⟨⟨_, _, rfl⟩, fun h => absurd rfl h, fun _ => rfl, fun _ => id, fun _ _ => id,
      fun _ _ h _ => h⟩
  | timeoutFires =>
    obtain ⟨⟨r, l⟩, hnext, rfl⟩ := Option.map_eq_some_iff.mp hs
    obtain ⟨time, -, -, hl⟩ := SessionMaintainerLocker.nextTimedOutRequest_eq_some hnext
    have hdelayed : l.delayedRequests = s.locker.delayedRequests := by rw [hl]
    dsimp only
    unfold State.timeoutFires
    split_ifs <;>
      exact ⟨⟨_, _, hl⟩, fun _ => hdelayed, fun _ => rfl, fun _ => id, fun _ _ => id,
        fun _ _ h _ => h⟩
  | _ =>
    cases hs
    exact ⟨⟨_, _, rfl⟩, fun _ => rfl, fun _ => rfl, fun _ => id, fun _ _ => id, fun _ _ h _ => h⟩

theorem Unstalled.mono (h : s.Unstalled) (hkeeps : KeepsAwake s s')
    (hlocker : ∃ delayed timeOut, s'.locker =
      { s.locker with delayedRequests := delayed, timeOutRequests := timeOut })
    (hpending : ∀ j ∈ pending s.threads, j ∈ pending s'.threads) : s'.Unstalled := by
  obtain ⟨delayed, timeOut, hlocker⟩ := hlocker
  cases h with
  | idle h => exact .idle (by rw [hlocker]; exact h)
  | loggedOut h => exact .loggedOut (by rw [hlocker]; exact h)
  | awake h => exact .awake (hkeeps.awake h)
  | refused h => exact .refused (by rw [hlocker]; exact h)
  | waking j hj h => exact .waking j (hpending j hj) h
  | connecting hattempt h =>
    exact .connecting (hpending _ hattempt) (h.imp (by rw [hlocker]; exact id) (hpending _))
  | asking hstored j hj h => exact .asking (by rw [hlocker]; exact hstored) j (hpending j hj) h

theorem Outside.keepsAwake {a : Act} (h : Outside s a s') (hdelayed : a ≠ .delayedFires)
    (htoken : ∀ n c response, a ≠ .tokenResponse n c response) (hfires : a ≠ .failureTimerFires)
    (hrecheck : a ≠ .recheckTimerFires) (hstatus : ∀ n ec, a ≠ .statusResponse n ec)
    (hanswer : ∀ n r response, a = .apiResponse n r response → r ∉ s.locker.inProgressRequests) :
    KeepsAwake s s' where
  tokenRequests := by rw [h.tokenRequests htoken]
  failureTimer := h.failureTimer hfires
  rechecks := h.rechecks hrecheck hstatus
  apiRequests := h.apiRequests hanswer
  inProgress r hr := by
    obtain ⟨_, _, hlocker⟩ := h.locker
    rw [hlocker]
    exact hr
  delayed := h.delayed hdelayed

theorem mem_updateConnectionState (ec : Option ErrorCode) :
    .waitRecheckTimer ∈ updateConnectionState ec ∨
      .setConnectionState .connected ∈ updateConnectionState ec := by
  unfold updateConnectionState
  split
  · exact Or.inr (List.mem_singleton_self _)
  · split_ifs
    · exact Or.inl (by simp)
    · exact Or.inr (List.mem_singleton_self _)

/-- A handler that takes something attempts requests, or waits for a timer. -/
theorem Wakeful.unstalled_starts {a : Act} (h : Wakeful s) (hs : s.step a = some s')
    (hrun : ∀ k, a ≠ .run k) (hexists : s'.maintainerExists = true) : s'.Unstalled := by
  have houtside := outside_of_step hs hrun hexists
  have hthreads := threads_of_step hs hrun
  have hmaintainer := exists_of_step hs hexists
  have hold (j : Instr) (hj : j ∈ pending s.threads) : j ∈ pending s'.threads := by
    rw [hthreads]
    exact mem_pending_spawn.mpr (Or.inl hj)
  have hnew {j : Instr} (hj : j ∈ s.handler a) : j ∈ pending s'.threads := by
    rw [hthreads]
    exact mem_pending_spawn.mpr (Or.inr hj)
  cases a with
  | run k => exact absurd rfl (hrun k)
  | tokenResponse n c response =>
    refine .waking (.handleSessionTokenResponse response c) (hnew ?_) rfl
    simp [handler, hmaintainer]
  | statusResponse n ec =>
    have hhandler : s.handler (.statusResponse n ec) = handleCheckConnectionStatusResponse ec :=
      if_pos hmaintainer
    rcases mem_updateConnectionState ec with hmem | hmem
    · refine .waking .waitRecheckTimer (hnew ?_) rfl
      rw [hhandler]
      exact List.mem_append_left _ hmem
    · refine .connecting (hnew ?_) (Or.inr (hnew ?_)) <;> rw [hhandler]
      · exact List.mem_append_right _ (List.mem_singleton_self _)
      · exact List.mem_append_left _ hmem
  | failureTimerFires | recheckTimerFires =>
    exact .waking .attemptRequests (hnew (by simp [handler])) rfl
  | delayedFires =>
    refine .waking .attemptRequests (hnew ?_) rfl
    unfold State.step at hs
    split_ifs at hs
    obtain ⟨⟨r, l⟩, hnext, -⟩ := Option.map_eq_some_iff.mp hs
    simp [handler, hnext]
  | apiResponse n r response =>
    by_cases halive : s.Alive r
    · refine .waking (.retryOrComplete r n response) (hnew ?_) rfl
      simp [handler, halive]
    · refine h.unstalled.mono (houtside.keepsAwake (fun h => by cases h) (fun _ _ _ h => by cases h)
        (fun h => by cases h) (fun h => by cases h) (fun _ _ h => by cases h) ?_) houtside.locker hold
      rintro n' r' response' heq hr
      cases heq
      exact halive (Or.inr (Or.inr (Or.inl hr)))
  | _ =>
    exact h.unstalled.mono (houtside.keepsAwake (fun h => by cases h) (fun _ _ _ h => by cases h)
      (fun h => by cases h) (fun h => by cases h) (fun _ _ h => by cases h)
      (fun _ _ _ h => by cases h)) houtside.locker hold

theorem Wakeful.refused_starts {a : Act} (h : Wakeful s) (hguard : KeepsRetrying s a s')
    (hs : s.step a = some s') (hrun : ∀ k, a ≠ .run k) (hexists : s'.maintainerExists = true)
    (hstate : s'.locker.sessionState.isCredentialsError = true) : s'.tokenRequests ≠ [] ∨
      s'.sessionTokenFailureTimer.Armed ∨
      ∃ j ∈ pending s'.threads, j.retries s'.locker.credentials = true := by
  have houtside := outside_of_step hs hrun hexists
  have hmaintainer := exists_of_step hs hexists
  have hthreads := threads_of_step hs hrun
  obtain ⟨delayed, timeOut, hlocker⟩ := houtside.locker
  have hold : s.locker.sessionState.isCredentialsError = true := by rwa [hlocker] at hstate
  have hcredentials : s'.locker.credentials = s.locker.credentials := by rw [hlocker]
  have hpending {j : Instr} (hj : j ∈ pending s.threads ∨ j ∈ s.handler a) :
      j ∈ pending s'.threads := by
    rw [hthreads]
    exact mem_pending_spawn.mpr hj
  rw [hcredentials]
  by_cases htoken : ∃ n c response, a = .tokenResponse n c response
  · obtain ⟨n, c, response, rfl⟩ := htoken
    by_cases hretries : (Instr.handleSessionTokenResponse response c).retries s.locker.credentials
    · refine Or.inr (Or.inr ⟨_, hpending (Or.inr ?_), hretries⟩)
      simp [handler, hmaintainer]
    · simp only [Instr.retries, Bool.or_eq_true, decide_eq_true_eq, not_or] at hretries
      obtain ⟨hec, hc⟩ := hretries
      rcases hguard.retries n c response rfl (by simpa using hec) hold hc with htimer | hrest
      · exact Or.inr (Or.inl (houtside.failureTimer (fun h => by cases h) htimer))
      · refine Or.inl ?_
        unfold State.step at hs
        split_ifs at hs
        simp only [act] at hs
        split_ifs at hs
        cases hs
        rw [State.tokenResponse, if_pos hmaintainer]
        exact hrest
  push Not at htoken
  rcases h.refused hold with hasked | htimer | ⟨j, hj, hretries⟩
  · exact Or.inl ((houtside.tokenRequests htoken).symm ▸ hasked)
  · by_cases hfires : a = .failureTimerFires
    · subst hfires
      exact Or.inr (Or.inr ⟨.requestNeededSessionTokens true, hpending (Or.inr (by simp [handler])),
        rfl⟩)
    · exact Or.inr (Or.inl (houtside.failureTimer hfires htimer))
  · exact Or.inr (Or.inr ⟨j, hpending (Or.inl hj), hretries⟩)

theorem Wakeful.unconnected_starts {a : Act} (h : Wakeful s) (hs : s.step a = some s')
    (hrun : ∀ k, a ≠ .run k) (hexists : s'.maintainerExists = true)
    (hstate : s'.locker.connectionState.isUnconnected = true) :
    s'.Rechecks ∨ ∃ j ∈ pending s'.threads, j.rechecks = true := by
  have houtside := outside_of_step hs hrun hexists
  have hthreads := threads_of_step hs hrun
  obtain ⟨delayed, timeOut, hlocker⟩ := houtside.locker
  have hold : s.locker.connectionState.isUnconnected = true := by rwa [hlocker] at hstate
  have hpending {j : Instr} (hj : j ∈ pending s.threads ∨ j ∈ s.handler a) :
      j ∈ pending s'.threads := by
    rw [hthreads]
    exact mem_pending_spawn.mpr hj
  rcases h.unconnected hold with hrechecks | ⟨j, hj, hrechecks⟩
  · by_cases hfires : a = .recheckTimerFires
    · subst hfires
      exact Or.inr ⟨.attemptRequests, hpending (Or.inr (by simp [handler])), rfl⟩
    by_cases hstatus : ∃ n ec, a = .statusResponse n ec
    · obtain ⟨n, ec, rfl⟩ := hstatus
      have hhandler {j : Instr} (hj : j ∈ updateConnectionState ec) :
          j ∈ s.handler (.statusResponse n ec) := by
        rw [handler, if_pos (exists_of_step hs hexists)]
        exact List.mem_append_left _ hj
      rcases mem_updateConnectionState ec with hmem | hmem
      · exact Or.inr ⟨_, hpending (Or.inr (hhandler hmem)), rfl⟩
      · exact Or.inr ⟨_, hpending (Or.inr (hhandler hmem)), rfl⟩
    push Not at hstatus
    exact Or.inl (houtside.rechecks hfires hstatus hrechecks)
  · exact Or.inr ⟨j, hpending (Or.inl hj), hrechecks⟩

theorem ends_handler {a : Act} (hstop : a ≠ .stopTimeouts) (hdestroy : a ≠ .destroy) :
    ∀ j ∈ s.handler a, j.ends = false := by
  unfold handler
  cases a with
  | stopTimeouts => exact absurd rfl hstop
  | destroy => exact absurd rfl hdestroy
  | statusResponse n ec =>
    dsimp only
    split_ifs
    · intro j hj
      rcases List.mem_append.mp hj with hj | hj
      · have hcontrol := control_updateConnectionState ec j hj
        cases j <;> first | rfl | cases hcontrol
      · rw [List.mem_singleton.mp hj]
        rfl
    · simp
  | apiResponse n r response | tokenResponse n c response =>
    dsimp only
    split_ifs <;> simp [Instr.ends]
  | delayedFires =>
    dsimp only
    split <;> simp [Instr.ends]
  | timeoutFires =>
    dsimp only
    split
    · split_ifs <;> simp [Instr.ends]
    · simp
  | _ => simp [Instr.ends]

theorem Wakeful.starts {a : Act} (h : Wakeful s) (hguard : KeepsRetrying s a s')
    (hs : s.step a = some s') (hrun : ∀ k, a ≠ .run k) (hexists : s'.maintainerExists = true) :
    Wakeful s' := by
  have hthreads := threads_of_step hs hrun
  have hdestroy : a ≠ .destroy := by
    rintro rfl
    unfold State.step at hs
    split_ifs at hs
    simp only [act] at hs
    split_ifs at hs
    cases hs
    cases hexists
  refine ⟨hthreads ▸ h.followed.spawn (complete_handler s a), fun j hj => ?_, fun r hr => ?_,
    h.unstalled_starts hs hrun hexists, h.refused_starts hguard hs hrun hexists,
    h.unconnected_starts hs hrun hexists⟩
  · rw [hthreads] at hj
    rcases mem_pending_spawn.mp hj with hj | hj
    · exact h.unended j hj
    · exact ends_handler hguard.unstopped hdestroy j hj
  · obtain ⟨delayed, timeOut, hlocker⟩ := (outside_of_step hs hrun hexists).locker
    rw [hlocker] at hr ⊢
    refine (h.held r hr).imp_right ?_
    rintro ⟨j, hj, hgives⟩
    refine ⟨j, ?_, hgives⟩
    rw [hthreads]
    exact mem_pending_spawn.mpr (Or.inl hj)

/-! ### Runs -/

/-- No silent stall between handlers. -/
structure NeverStalls (s : State) : Prop where
  waiting : s.threads = [] → s.maintainerExists = true → s.locker.waitingStRequests ≠ [] →
    s.locker.credentials ≠ none → s.Awake
  unconnected : s.threads = [] → s.maintainerExists = true →
    s.locker.connectionState.isUnconnected = true → s.Rechecks

theorem Wakeful.neverStalls (h : s.maintainerExists = true → Wakeful s) : NeverStalls s where
  waiting hnone hexists hwaiting hcredentials := by
    have hpending {j : Instr} (hj : j ∈ pending s.threads) : False := by
      rw [hnone] at hj
      cases hj
    cases (h hexists).unstalled with
    | idle h => exact absurd h hwaiting
    | loggedOut h => exact absurd h hcredentials
    | awake h => exact h
    | refused hstate =>
      rcases (h hexists).refused hstate with htoken | htimer | ⟨j, hj, -⟩
      · exact Or.inl htoken
      · exact Or.inr (Or.inl htimer)
      · exact (hpending hj).elim
    | waking j hj _ => exact (hpending hj).elim
    | connecting hj _ => exact (hpending hj).elim
    | asking _ j hj _ => exact (hpending hj).elim
  unconnected hnone hexists hstate := by
    refine ((h hexists).unconnected hstate).resolve_right ?_
    rintro ⟨j, hj, -⟩
    rw [hnone] at hj
    cases hj

theorem wakeful_created : Wakeful created where
  followed _ h := by cases h
  unended _ h := by cases h
  held _ h := by cases h
  unstalled := .idle rfl
  refused h := by cases h
  unconnected h := by cases h

/-- With handlers one at a time, timeouts not stopped and tokens asked for again after an answer for
old credentials, the maintainer never stalls silently. -/
theorem neverStalls_of_keepsRetrying {acts : List Act}
    (hguard : Along State.step KeepsRetrying created acts) :
    Always State.step NeverStalls created acts := by
  refine Always.of_guarded (I := fun s => Agreed s ∧ Counted s ∧ Tidy s ∧
    (s.maintainerExists = true → Wakeful s)) (fun s h => Wakeful.neverStalls h.2.2.2) ?_
    ⟨agreed_created, budgeted_created.toCounted, tidy_created, fun _ => wakeful_created⟩ hguard
  rintro s a s' ⟨hagreed, hcounted, htidy, hwakeful⟩ hguard hs
  refine ⟨hagreed.step hguard.once hs, hcounted.step hs, htidy.step hagreed.inOrder.addsFirst hs,
    fun hexists => ?_⟩
  have h := hwakeful (exists_of_step hs hexists)
  by_cases hrun : ∃ k, a = .run k
  · obtain ⟨k, rfl⟩ := hrun
    obtain ⟨i, rest, hk, rfl⟩ := runThread_of_step hs
    exact h.runs hagreed hcounted htidy (exists_of_step hs hexists) hk
  · push Not at hrun
    exact h.starts hguard hs hrun hexists

/-- The condition on a step, whatever the state it leads to. -/
def keepsRetrying (s : State) (a : Act) : Bool :=
  s.oneAtATime a && decide (a ≠ .stopTimeouts) && match a with
  | .tokenResponse n c response =>
    decide (response.errorCode = none → s.locker.sessionState.isCredentialsError = true →
      s.locker.credentials ≠ some c →
        s.sessionTokenFailureTimer.Armed ∨ s.tokenRequests.erase (n, c) ≠ [])
  | _ => true

theorem keepsRetrying_of_check (s : State) (a : Act) (s' : State)
    (h : s.keepsRetrying a = true) : KeepsRetrying s a s' := by
  simp only [keepsRetrying, Bool.and_eq_true, decide_eq_true_eq] at h
  obtain ⟨⟨honce, hstop⟩, h⟩ := h
  refine ⟨oneAtATime_of_check s a s' honce, hstop, ?_⟩
  rintro n c response rfl
  exact of_decide_eq_true h

/-- The credentials change while a token is asked for with the old ones, and two calls wait until
the new ones have been refused. -/
def changedAndRefused : List Act :=
  handled (.setLoginCredentials user) 9 ++ handled (.setLoginCredentials otherUser) 7 ++
    handled (.call true) 7 ++ handled (.call true) 9 ++
    handled (.tokenResponse 1 otherUser { errorCode := some .credentialsInvalid }) 8

/-- The old request is answered while the timer still runs. -/
def answeredInTime : List Act :=
  changedAndRefused ++ handled (.tokenResponse 0 user tokenA) 9 ++
    [.clock 60000, .failureTimerExpires] ++ handled .failureTimerFires 8

theorem neverStalls_answeredInTime : Always State.step NeverStalls created answeredInTime :=
  neverStalls_of_keepsRetrying (along_of_check keepsRetrying_of_check (by decide +kernel))

/-- The calls time out, the timer fires beside the old request, which is then answered. -/
def answeredTooLate : List Act :=
  changedAndRefused ++ [.clock 60000] ++ handled .timeoutFires 3 ++ handled .timeoutFires 3 ++
    [.failureTimerExpires] ++ handled .failureTimerFires 7 ++
    handled (.tokenResponse 0 user tokenA) 9 ++ handled (.call true) 5

theorem not_neverStalls : ¬ ∀ acts, Along State.step OneAtATime created acts →
    .stopTimeouts ∉ acts → Always State.step NeverStalls created acts := by
  intro h
  have halways := h answeredTooLate (along_of_check oneAtATime_of_check (by decide +kernel))
    (by decide +kernel)
  have hrun : (run State.step created answeredTooLate).map (fun s => decide (s.threads = [] ∧
      s.maintainerExists = true ∧ s.locker.waitingStRequests = [2] ∧
      s.locker.credentials = some otherUser ∧ ¬ s.Awake)) = some true := by decide +kernel
  obtain ⟨s, hs, heq⟩ := Option.map_eq_some_iff.mp hrun
  obtain ⟨hthreads, hexists, hwaiting, hcredentials, hasleep⟩ := of_decide_eq_true heq
  refine hasleep ((halways.last hs).waiting hthreads hexists ?_ ?_)
  · rw [hwaiting]
    exact List.cons_ne_nil _ _
  · rw [hcredentials]
    exact Option.some_ne_none _

end State

end MediafireSdk.Api
