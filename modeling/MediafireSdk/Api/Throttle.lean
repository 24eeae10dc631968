import MediafireSdk.Api.Sequential

/-! When session tokens are asked for after a failure. The wait of a failure is kept in
one timer, which the next failure overwrites, and in the session state of one of the
three kinds of failure; an observer of the run remembers the longest wait. No token is
asked for too early as long as attempts find a reason not to, and no failure shortens
the wait of an earlier one. -/

namespace MediafireSdk.Api

open Threads Runs

/-- How long a failure is to be waited out, in milliseconds. -/
def ErrorCode.waitMs (ec : ErrorCode) : ℕ :=
  if ec.isInvalidCredentialsError then
    SessionMaintainer.sessionTokenCredentialFailureWaitTimeoutMs
  else if ec = .accountTemporarilyLocked then
    SessionMaintainer.sessionTokenAccountLockedWaitTimeoutMs
  else SessionMaintainer.sessionTokenFailureWaitTimeoutMs

/-- The instructions that ask for a session token. -/
def Instr.asksNext : Instr → Bool
  | .requestNeededSessionTokens true | .getCredentials _ | .tryRequestSessionToken _ _
  | .getSessionToken _ => true
  | _ => false

/-- The instructions of a failure that lead to setting the timer. -/
def Instr.setsTimer : Instr → Bool
  | .handleSessionTokenResponse response _ | .getSessionState response _ =>
    response.errorCode.isSome
  | .expireFailureTimer _ => true
  | _ => false

namespace State

variable {s s' : State} {deadline : ℕ}

/-- The end of the longest wait of the failures since the credentials were last changed. -/
def observeWait (s : State) (a : Act) (deadline : ℕ) : ℕ :=
  match a with
  | .tokenResponse _ _ response =>
    match response.errorCode with
    | some ec => if s.maintainerExists then max deadline (s.now + ec.waitMs) else deadline
    | none => deadline
  | .run k =>
    match s.threads[k]? with
    | some (.setCredentials c :: _) => if s.locker.credentials = some c then deadline else 0
    | _ => deadline
  | _ => deadline

/-- A step asks for a session token only when every wait is over. -/
def Throttled (p : State × ℕ) (a : Act) (_ : State × ℕ) : Prop :=
  ∀ k c rest, a = .run k → p.1.threads[k]? = some (.getSessionToken c :: rest) → p.2 ≤ p.1.now

/-- The condition on a step: `AttemptRequests` finds a reason to ask for no token while a wait is
running, and a failure sets the timer to no earlier time than an earlier failure asked for, when no
handler of the timer is queued. -/
structure WaitsOut (p : State × ℕ) (a : Act) (p' : State × ℕ) : Prop where
  once : p.1.OneAtATime a p'.1
  attempts : ∀ k rest, a = .run k →
    p.1.threads[k]? = some (.requestNeededSessionTokens false :: rest) →
      p.2 ≤ p.1.now ∨ p.1.locker.sessionState.isCredentialsError = true ∨
        p.1.locker.credentials = none ∨ ¬ p.1.locker.mayRequestSessionToken
  timer : ∀ k ms rest, a = .run k → p.1.threads[k]? = some (.expireFailureTimer ms :: rest) →
    p.2 ≤ p.1.now + ms ∧ p.1.sessionTokenFailureTimer.queued = 0

/-! ### The invariant -/

/-- What lets the next instruction of the handler ask for a token. -/
def Permits (s : State) (deadline : ℕ) : Instr → Prop
  | .requestNeededSessionTokens true | .getSessionToken _ => deadline ≤ s.now
  | .tryRequestSessionToken _ _ => deadline ≤ s.now ∨ ¬ s.locker.mayRequestSessionToken
  | .getCredentials _ =>
    deadline ≤ s.now ∨ s.locker.credentials = none ∨ ¬ s.locker.mayRequestSessionToken
  | _ => True

theorem permits_of_le (h : deadline ≤ s.now) (i : Instr) : s.Permits deadline i := by
  unfold Permits
  split
  · exact h
  · exact h
  · exact Or.inl h
  · exact Or.inl h
  · trivial

theorem permits_of_not_asks {i : Instr} (h : i.asksNext = false) : s.Permits deadline i := by
  unfold Permits
  split <;> first | cases h | trivial

theorem permits_mono {deadline' : ℕ} {i : Instr} (hlocker : s'.locker = s.locker)
    (hnow : s.now ≤ s'.now) (hle : deadline' ≤ deadline) (h : s.Permits deadline i) :
    s'.Permits deadline' i := by
  have hover : deadline ≤ s.now → deadline' ≤ s'.now := fun h => hle.trans (h.trans hnow)
  unfold Permits at h ⊢
  rw [hlocker]
  split at h
  · exact hover h
  · exact hover h
  · exact h.imp_left hover
  · exact h.imp_left hover
  · trivial

/-- Of a handler, the head has its permission and what is behind waits for nothing. -/
def Careful (s : State) (deadline : ℕ) : List Instr → Prop
  | [] => True
  | i :: rest => s.Permits deadline i ∧ ∀ j ∈ rest, j.asksNext = true → deadline ≤ s.now

structure Patient (s : State) (deadline : ℕ) : Prop where
  inOrder : InOrder s
  careful : ∀ program ∈ s.threads, s.Careful deadline program
  timer : deadline ≤ s.now ∨
    (s.sessionTokenFailureTimer.queued = 0 ∧ deadline ≤ s.sessionTokenFailureTimer.expiry) ∨
    ∃ j ∈ pending s.threads, j.setsTimer = true

theorem careful_of_forall {program : List Instr}
    (h : ∀ j ∈ program, j.asksNext = true → deadline ≤ s.now) : s.Careful deadline program := by
  cases program with
  | nil => trivial
  | cons i rest =>
    refine ⟨?_, fun j hj => h j (List.mem_cons_of_mem i hj)⟩
    cases hasks : i.asksNext with
    | false => exact permits_of_not_asks hasks
    | true => exact permits_of_le (h i List.mem_cons_self hasks) i

/-! ### One section of a handler -/

section Section

variable {k : ℕ} {i : Instr} {rest : List Instr}

/-- The expiry of the timer is set by a failure only, and no handler of it is queued here. -/
theorem failureTimer_exec (s : State) {i : Instr} (hexpire : ∀ ms, i ≠ .expireFailureTimer ms) :
    (s.exec i).1.sessionTokenFailureTimer.expiry = s.sessionTokenFailureTimer.expiry ∧
      (s.exec i).1.sessionTokenFailureTimer.queued = s.sessionTokenFailureTimer.queued := by
  cases i with
  | expireFailureTimer ms => exact absurd rfl (hexpire ms)
  | nextWaitingNonSessionTokenRequest =>
    rcases s.attemptNonSessionTokenRequest_cases with ⟨q, l, -, heq⟩ | heq <;>
      simp only [exec, heq, setLocker_sessionTokenFailureTimer, and_self]
  | nextWaitingSessionTokenRequest =>
    rcases s.attemptSessionTokenRequest_cases with ⟨q, st, l, -, heq⟩ | heq <;>
      simp only [exec, heq, setLocker_sessionTokenFailureTimer, and_self]
  | tryRequestSessionToken c loop =>
    rcases s.tryRequestSessionToken_cases c loop with ⟨l, -, heq⟩ | heq <;>
      simp only [exec, heq, setLocker_sessionTokenFailureTimer, and_self]
  | addSessionToken response c state count =>
    rcases s.addSessionToken_cases response c state count with ⟨l, -, heq⟩ | ⟨-, heq⟩ <;>
      simp only [exec, heq, setLocker_sessionTokenFailureTimer, and_self]
  | handleTimedOutRequest q =>
    rcases s.handleTimedOutRequest_cases q with ⟨l, -, heq⟩ | ⟨-, heq⟩ <;>
      simp only [exec, heq, setLocker_sessionTokenFailureTimer, and_self]
  | _ => exact ⟨rfl, rfl⟩

/-- A failure goes on to set the timer. -/
theorem setsTimer_pushed (h : i.setsTimer = true) (hne : ∀ ms, i ≠ .expireFailureTimer ms) :
    ∃ j ∈ (s.exec i).2, j.setsTimer = true := by
  cases i with
  | expireFailureTimer ms => exact absurd rfl (hne ms)
  | handleSessionTokenResponse response c =>
    exact ⟨.getSessionState response c, List.mem_singleton_self _, h⟩
  | getSessionState response c =>
    obtain ⟨ec, hec⟩ := Option.isSome_iff_exists.mp h
    have hexpire : ∃ ms, .expireFailureTimer ms ∈ failToken response ec c s.locker.sessionState
        s.locker.sessionStateChangeCount := by
      unfold failToken
      split_ifs
      · exact ⟨_, List.mem_cons_self⟩
      · exact ⟨_, List.mem_cons_self⟩
      · exact ⟨_, List.mem_cons_self⟩
    obtain ⟨ms, hms⟩ := hexpire
    refine ⟨.expireFailureTimer ms, List.mem_append_right _ ?_, rfl⟩
    simp only [finishToken, hec]
    exact List.mem_append_left _ (List.mem_cons_of_mem _ hms)
  | _ => cases h

theorem not_asks_updateConnectionState (ec : Option ErrorCode) :
    ∀ j ∈ updateConnectionState ec, j.asksNext = false := by
  unfold updateConnectionState
  split
  · simp [Instr.asksNext]
  · split_ifs <;> simp [Instr.asksNext]

theorem not_asks_finishToken (response : TokenResponse) (c : Credentials) (state : SessionState)
    (count : ℕ) : ∀ j ∈ finishToken response c state count, j.asksNext = false := by
  unfold finishToken
  split
  · unfold failToken failCredentials
    split_ifs <;> simp [Instr.asksNext]
  · simp [Instr.asksNext]

/-- Only `RequestNeededSessionTokens` leads to a request for a token. -/
theorem asksNext_pushed {j : Instr} (hj : j ∈ (s.exec i).2) (hasks : j.asksNext = true) :
    (∃ force, i = .requestNeededSessionTokens force) ∨ (∃ b, i = .getCredentials b) ∨
      ∃ c loop, i = .tryRequestSessionToken c loop := by
  have hnone {program : List Instr} (hmem : j ∈ program)
      (h : ∀ j ∈ program, j.asksNext = false) : False := by
    rw [h j hmem] at hasks
    cases hasks
  cases i with
  | requestNeededSessionTokens force => exact Or.inl ⟨force, rfl⟩
  | getCredentials b => exact Or.inr (Or.inl ⟨b, rfl⟩)
  | tryRequestSessionToken c loop => exact Or.inr (Or.inr ⟨c, loop, rfl⟩)
  | getSessionState response c =>
    rcases List.mem_append.mp hj with hj | hj
    · exact (hnone hj (not_asks_updateConnectionState _)).elim
    · exact (hnone hj (not_asks_finishToken _ _ _ _)).elim
  | completionNotification ec =>
    simp only [exec] at hj
    split_ifs at hj
    · exact (hnone hj (not_asks_updateConnectionState _)).elim
    · cases hj
  | nextWaitingNonSessionTokenRequest =>
    rcases s.attemptNonSessionTokenRequest_cases with ⟨q, l, -, heq⟩ | heq <;>
      simp only [exec, heq] at hj
    · exact (hnone hj (by simp [Instr.asksNext])).elim
    · exact (hnone hj (by simp [Instr.asksNext])).elim
  | nextWaitingSessionTokenRequest =>
    rcases s.attemptSessionTokenRequest_cases with ⟨q, st, l, -, heq⟩ | heq <;>
      simp only [exec, heq] at hj
    · exact (hnone hj (by simp [Instr.asksNext])).elim
    · exact (hnone hj (by simp [Instr.asksNext])).elim
  | addSessionToken response c state count =>
    rcases s.addSessionToken_cases response c state count with ⟨l, -, heq⟩ | ⟨-, heq⟩ <;>
      simp only [exec, heq] at hj
    · split_ifs at hj
      · exact (hnone hj (by simp [Instr.asksNext])).elim
      · cases hj
    · cases hj
  | handleTimedOutRequest q =>
    rcases s.handleTimedOutRequest_cases q with ⟨l, -, heq⟩ | ⟨-, heq⟩ <;>
      simp only [exec, heq] at hj
    · exact (hnone hj (by simp [Instr.asksNext])).elim
    · cases hj
  | completionAlert q a response =>
    simp only [exec] at hj
    split_ifs at hj
    · rcases mem_handleCompletion hj with rfl | rfl | rfl | rfl <;> cases hasks
    · exact (hnone hj (by simp [Instr.asksNext])).elim
  | requestRetryAlert q a response =>
    simp only [exec] at hj
    split_ifs at hj
    · rcases mem_handleRetryRequest hj with rfl | rfl | rfl | rfl | rfl <;> cases hasks
    · exact (hnone hj (by simp [Instr.asksNext])).elim
  | moveRequests =>
    rcases List.mem_append.mp hj with hj | hj
    · obtain ⟨r, -, rfl⟩ := List.mem_map.mp hj
      cases hasks
    · exact (hnone hj (by simp [Instr.asksNext])).elim
  | retryOrComplete q a response | attemptRequests | whileRunning =>
    simp only [exec] at hj
    split_ifs at hj <;> exact (hnone hj (by simp [Instr.asksNext])).elim
  | attemptIfConnected | compareCredentials _ _ _ | getFailureCount _ _ _ _ _ | cancel _ | fail _ =>
    simp only [exec] at hj
    split_ifs at hj
    · exact (hnone hj (by simp [Instr.asksNext])).elim
    · cases hj
  | init q | initWithToken q st | handleSessionTokenResponse response c =>
    exact (hnone hj (by simp [exec, Instr.asksNext])).elim
  | _ => cases hj

/-- Permission is handed on from the loop of `AttemptRequests` to the request that is started. -/
theorem Patient.careful_exec (hpermits : s.Permits deadline i)
    (hattempts : i = .requestNeededSessionTokens false → deadline ≤ s.now ∨
      s.locker.sessionState.isCredentialsError = true ∨ s.locker.credentials = none ∨
        ¬ s.locker.mayRequestSessionToken) :
    (s.exec i).2 = [] ∨ ∃ j pushed, (s.exec i).2 = j :: pushed ∧
      ((s.exec i).1.Permits deadline j) ∧ ∀ j' ∈ pushed, j'.asksNext = true → deadline ≤ s.now := by
  by_cases hasks : ∃ j ∈ (s.exec i).2, j.asksNext = true
  swap
  · push Not at hasks
    cases hpushed : (s.exec i).2 with
    | nil => exact Or.inl rfl
    | cons j pushed =>
      rw [hpushed] at hasks
      refine Or.inr ⟨j, pushed, rfl, permits_of_not_asks ?_, fun j' hj' hasks' => ?_⟩
      · exact Bool.eq_false_iff.mpr (hasks j List.mem_cons_self)
      · exact absurd hasks' (hasks j' (List.mem_cons_of_mem j hj'))
  obtain ⟨j, hj, hasks⟩ := hasks
  rcases asksNext_pushed hj hasks with ⟨force, rfl⟩ | ⟨b, rfl⟩ | ⟨c, loop, rfl⟩
  · simp only [exec] at hj ⊢
    split_ifs at hj ⊢ with hforce
    · refine Or.inr ⟨_, [], rfl, ?_, fun _ h => by cases h⟩
      cases force with
      | true => exact Or.inl hpermits
      | false =>
        have hstate : s.locker.sessionState.isCredentialsError = false := by simpa using hforce
        rcases hattempts rfl with hle | hstate' | hnone | hroom
        · exact Or.inl hle
        · rw [hstate] at hstate'
          cases hstate'
        · exact Or.inr (Or.inl hnone)
        · exact Or.inr (Or.inr hroom)
    · cases hj
  · simp only [exec] at hj ⊢
    cases hc : s.locker.credentials with
    | none => exact Or.inl (by simp only)
    | some c =>
      refine Or.inr ⟨_, [], rfl, ?_, fun _ h => by cases h⟩
      rcases hpermits with hle | hnone | hroom
      · exact Or.inl hle
      · rw [hc] at hnone
        cases hnone
      · exact Or.inr hroom
  · rcases s.tryRequestSessionToken_cases c loop with ⟨l, hl, heq⟩ | heq
    · have hmay := (SessionMaintainerLocker.startRequestSessionToken_eq_some hl).1
      have hle : deadline ≤ s.now := hpermits.resolve_right (not_not_intro hmay)
      simp only [exec, heq]
      exact Or.inr ⟨_, _, rfl, hle, fun _ _ _ => hle⟩
    · simp only [exec, heq]
      exact Or.inl trivial

/-- Only `SetLoginCredentials` moves the end of the wait, to no wait at all. -/
theorem observeWait_run_le (s : State) (k deadline : ℕ) :
    s.observeWait (.run k) deadline ≤ deadline := by
  simp only [observeWait]
  split
  · split_ifs
    · exact le_rfl
    · exact Nat.zero_le _
  · exact le_rfl

theorem Patient.run {k : ℕ} {i : Instr} {rest : List Instr} (h : Patient s deadline)
    (hguard : WaitsOut (s, deadline) (.run k) (s.runThread k i rest, s.observeWait (.run k) deadline))
    (hs : s.step (.run k) = some (s.runThread k i rest)) (hk : s.threads[k]? = some (i :: rest)) :
    Patient (s.runThread k i rest) (s.observeWait (.run k) deadline) := by
  have hle := s.observeWait_run_le k deadline
  have hnow : (s.exec i).1.now = s.now := (s.frame_exec i).now
  obtain ⟨hpermits, hbehind⟩ := h.careful _ (List.mem_of_getElem? hk)
  refine ⟨h.inOrder.step hguard.once hs, fun program hprogram => ?_, ?_⟩
  · have hpending := (h.inOrder.pending_runThread hk).2
    have hbehind' : ∀ j ∈ rest, j.asksNext = true →
        s.observeWait (.run k) deadline ≤ (s.exec i).1.now := fun j hj hasks => by
      rw [hnow]
      exact hle.trans (hbehind j hj hasks)
    have hprogram' := mem_of_alone (h.inOrder.step hguard.once hs).alone hprogram
    rw [hpending] at hprogram'
    subst hprogram'
    have hattempts : i = .requestNeededSessionTokens false → deadline ≤ s.now ∨
        s.locker.sessionState.isCredentialsError = true ∨ s.locker.credentials = none ∨
          ¬ s.locker.mayRequestSessionToken := by
      rintro rfl
      exact hguard.attempts k rest rfl hk
    rcases Patient.careful_exec hpermits hattempts with hnil | ⟨j, pushed, hpushed, hj, hpushed'⟩
    · rw [hnil]
      exact careful_of_forall hbehind'
    · rw [hpushed]
      refine ⟨permits_mono (s := (s.exec i).1) rfl le_rfl hle hj, fun j' hj' hasks => ?_⟩
      rcases List.mem_append.mp hj' with hj' | hj'
      · exact hle.trans ((hpushed' j' hj' hasks).trans hnow.ge)
      · exact hbehind' j' hj' hasks
  · have hstepped := stepped_runThread hk
    by_cases hexpire : ∃ ms, i = .expireFailureTimer ms
    · obtain ⟨ms, rfl⟩ := hexpire
      obtain ⟨hms, hqueued⟩ := hguard.timer k ms rest rfl hk
      exact Or.inr (Or.inl ⟨hqueued, hle.trans hms⟩)
    · push Not at hexpire
      obtain ⟨hexpiry, hqueued⟩ := failureTimer_exec s hexpire
      rcases h.timer with hover | ⟨hnone, hset⟩ | ⟨j, hj, hsets⟩
      · exact Or.inl (hle.trans (hover.trans hnow.ge))
      · exact Or.inr (Or.inl ⟨hqueued.trans hnone, hle.trans (hset.trans hexpiry.ge)⟩)
      · refine Or.inr (Or.inr ?_)
        by_cases hji : j = i
        · subst hji
          obtain ⟨j', hj', hsets'⟩ := setsTimer_pushed (s := s) hsets hexpire
          exact ⟨j', hstepped.pushed_mem hj', hsets'⟩
        · exact ⟨j, hstepped.stays hj hji, hsets⟩

end Section

/-! ### Handlers that start -/

/-- A handler other than that of the timer asks for no token before `AttemptRequests` does. -/
theorem not_asks_handler (s : State) {a : Act} (hfires : a ≠ .failureTimerFires) :
    ∀ j ∈ s.handler a, j.asksNext = false := by
  unfold handler
  cases a with
  | failureTimerFires => exact absurd rfl hfires
  | statusResponse n ec =>
    dsimp only
    split_ifs
    · intro j hj
      rcases List.mem_append.mp hj with hj | hj
      · exact not_asks_updateConnectionState ec j hj
      · rw [List.mem_singleton.mp hj]
        rfl
    · simp
  | apiResponse n r response | tokenResponse n c response =>
    dsimp only
    split_ifs <;> simp [Instr.asksNext]
  | delayedFires =>
    dsimp only
    split <;> simp [Instr.asksNext]
  | timeoutFires =>
    dsimp only
    split
    · split_ifs <;> simp [Instr.asksNext]
    · simp
  | _ => simp [Instr.asksNext]

/-- A handler that starts alone is careful, and another one goes on as before. -/
theorem Patient.careful_step {a : Act} {deadline' : ℕ} (h : Patient s deadline)
    (honce : s.OneAtATime a s') (hs : s.step a = some s') (hrun : ∀ k, a ≠ .run k)
    (hle : a.starts = false → deadline' ≤ deadline)
    (hfires : a = .failureTimerFires → deadline' ≤ s'.now) :
    ∀ program ∈ s'.threads, s'.Careful deadline' program := by
  intro program hprogram
  cases hstarts : a.starts with
  | true =>
    have hthreads := threads_of_step hs hrun
    rw [honce hstarts] at hthreads
    refine careful_of_forall fun j hj hasks => ?_
    have hj' : j ∈ s.handler a := by
      have hmem := List.mem_flatten_of_mem hprogram hj
      rw [hthreads] at hmem
      exact (mem_pending_spawn.mp hmem).resolve_left (by simp [pending])
    by_cases hfire : a = .failureTimerFires
    · exact hfires hfire
    · rw [not_asks_handler s hfire j hj'] at hasks
      cases hasks
  | false =>
    have hlocker : s'.locker = s.locker := by
      refine locker_of_step hs hrun ?_ ?_ <;>
      · rintro rfl
        cases hstarts
    have hthreads : s'.threads = s.threads := by
      rw [threads_of_step hs hrun]
      cases a <;> first | rfl | cases hstarts
    rw [hthreads] at hprogram
    obtain hcareful := h.careful program hprogram
    cases program with
    | nil => trivial
    | cons i rest =>
      have hnow := clock_of_step hs hrun
      exact ⟨permits_mono hlocker hnow (hle hstarts) hcareful.1, fun j hj hasks =>
        (hle hstarts).trans ((hcareful.2 j hj hasks).trans hnow)⟩

/-- Outside handlers the timer is left alone until it expires. -/
theorem failureTimer_of_step {a : Act} (hs : s.step a = some s') (hrun : ∀ k, a ≠ .run k)
    (hexpires : a ≠ .failureTimerExpires) (hfires : a ≠ .failureTimerFires) :
    s'.sessionTokenFailureTimer.expiry = s.sessionTokenFailureTimer.expiry ∧
      s'.sessionTokenFailureTimer.queued = s.sessionTokenFailureTimer.queued := by
  unfold State.step at hs
  split_ifs at hs
  cases a with
  | run k => exact absurd rfl (hrun k)
  | failureTimerExpires => exact absurd rfl hexpires
  | failureTimerFires => exact absurd rfl hfires
  | cancelRequest r | dropRequest r | destroy =>
    simp only [act] at hs
    split_ifs at hs
    cases hs
    exact ⟨rfl, rfl⟩
  | apiResponse n r response =>
    simp only [act] at hs
    split_ifs at hs
    cases hs
    unfold apiResponse
    split_ifs <;> exact ⟨rfl, rfl⟩
  | tokenResponse n c response =>
    simp only [act] at hs
    split_ifs at hs
    cases hs
    unfold State.tokenResponse
    split_ifs <;> exact ⟨rfl, rfl⟩
  | statusResponse n ec =>
    simp only [act] at hs
    split_ifs at hs
    cases hs
    unfold statusResponse
    split_ifs <;> exact ⟨rfl, rfl⟩
  | recheckTimerExpires | recheckTimerFires =>
    obtain ⟨t, -, rfl⟩ := Option.map_eq_some_iff.mp hs
    exact ⟨rfl, rfl⟩
  | delayedFires =>
    obtain ⟨⟨r, l⟩, -, rfl⟩ := Option.map_eq_some_iff.mp hs
    exact ⟨rfl, rfl⟩
  | timeoutFires =>
    obtain ⟨⟨r, l⟩, -, rfl⟩ := Option.map_eq_some_iff.mp hs
    dsimp only
    unfold State.timeoutFires
    split_ifs <;> exact ⟨rfl, rfl⟩
  | _ =>
    cases hs
    exact ⟨rfl, rfl⟩

/-- A failed answer moves the end of the wait, and its handler is to set the timer. -/
theorem observeWait_of_step {a : Act} (s : State) (deadline : ℕ) (hrun : ∀ k, a ≠ .run k) :
    s.observeWait a deadline = deadline ∨
      (a.starts = true ∧ a ≠ .failureTimerFires ∧ ∃ j ∈ s.handler a, j.setsTimer = true) := by
  cases a with
  | run k => exact absurd rfl (hrun k)
  | tokenResponse n c response =>
    cases hec : response.errorCode with
    | none => exact Or.inl (by simp only [observeWait, hec])
    | some ec =>
      by_cases hmaintainer : s.maintainerExists = true
      · refine Or.inr ⟨rfl, nofun, .handleSessionTokenResponse response c, ?_, ?_⟩
        · rw [handler, if_pos hmaintainer]
          exact List.mem_singleton_self _
        · simp only [Instr.setsTimer, hec, Option.isSome_some]
      · exact Or.inl (by simp only [observeWait, hec, if_neg hmaintainer])
  | _ => exact Or.inl rfl

theorem Patient.starts {a : Act} (h : Patient s deadline) (honce : s.OneAtATime a s')
    (hs : s.step a = some s') (hrun : ∀ k, a ≠ .run k) :
    Patient s' (s.observeWait a deadline) := by
  have hnow := clock_of_step hs hrun
  rcases observeWait_of_step s deadline hrun with heq | ⟨hstarts, hfires, j, hj, hsets⟩
  · rw [heq]
    have hpending (hstarts : a.starts = true) : ¬ ∃ j ∈ pending s.threads, j.setsTimer = true := by
      rw [honce hstarts]
      simp [pending]
    by_cases hexpires : a = .failureTimerExpires
    · subst hexpires
      refine ⟨h.inOrder.step honce hs,
        h.careful_step honce hs hrun (fun _ => le_rfl) (by rintro ⟨⟩), ?_⟩
      unfold State.step at hs
      split_ifs at hs
      obtain ⟨t, ht, rfl⟩ := Option.map_eq_some_iff.mp hs
      unfold Timer.expire at ht
      split_ifs at ht with hdue
      rcases h.timer with hover | ⟨-, hset⟩ | hsets
      · exact Or.inl hover
      · exact Or.inl (hset.trans hdue.2)
      · exact Or.inr (Or.inr hsets)
    by_cases hfires : a = .failureTimerFires
    · -- a handler of the timer is queued only once every wait is over
      subst hfires
      have hover : deadline ≤ s.now := by
        have hqueued : 0 < s.sessionTokenFailureTimer.queued := by
          unfold State.step at hs
          split_ifs at hs
          obtain ⟨t, ht, -⟩ := Option.map_eq_some_iff.mp hs
          unfold Timer.fire at ht
          split_ifs at ht with hqueued
          exact hqueued
        rcases h.timer with hover | ⟨hnone, -⟩ | hsets
        · exact hover
        · exact absurd hnone hqueued.ne'
        · exact absurd hsets (hpending rfl)
      exact ⟨h.inOrder.step honce hs, h.careful_step honce hs hrun (fun _ => le_rfl) fun _ =>
        hover.trans hnow, Or.inl (hover.trans hnow)⟩
    · refine ⟨h.inOrder.step honce hs,
        h.careful_step honce hs hrun (fun _ => le_rfl) fun heq => absurd heq hfires, ?_⟩
      obtain ⟨hexpiry, hqueued⟩ := failureTimer_of_step hs hrun hexpires hfires
      rcases h.timer with hover | ⟨hnone, hset⟩ | ⟨j, hj, hsets⟩
      · exact Or.inl (hover.trans hnow)
      · exact Or.inr (Or.inl ⟨hqueued.trans hnone, hset.trans hexpiry.ge⟩)
      · refine Or.inr (Or.inr ⟨j, ?_, hsets⟩)
        rw [threads_of_step hs hrun]
        exact mem_pending_spawn.mpr (Or.inl hj)
  · refine ⟨h.inOrder.step honce hs, h.careful_step honce hs hrun (fun h => ?_) fun heq =>
      absurd heq hfires, Or.inr (Or.inr ⟨j, ?_, hsets⟩)⟩
    · rw [hstarts] at h
      cases h
    · rw [threads_of_step hs hrun]
      exact mem_pending_spawn.mpr (Or.inr hj)

/-! ### Runs -/

theorem Patient.step {p p' : State × ℕ} {a : Act} (h : Patient p.1 p.2) (hguard : WaitsOut p a p')
    (hs : watch State.step observeWait p a = some p') : Patient p'.1 p'.2 := by
  obtain ⟨s, deadline⟩ := p
  obtain ⟨s', deadline'⟩ := p'
  obtain ⟨hs, rfl⟩ := watch_eq_some hs
  by_cases hrun : ∃ k, a = .run k
  · obtain ⟨k, rfl⟩ := hrun
    obtain ⟨i, rest, hk, rfl⟩ := runThread_of_step hs
    exact h.run hguard hs hk
  · push Not at hrun
    exact h.starts hguard.once hs hrun

theorem patient_created : Patient created 0 :=
  ⟨inOrder_created, (fun _ h => by cases h), Or.inl (Nat.zero_le _)⟩

/-- Where no attempt finds a reason to ask for a token before the waits are over and no failure
shortens the wait of an earlier one, no token is asked for too early. -/
theorem throttled_of_waitsOut {acts : List Act}
    (hguard : Along (watch State.step observeWait) WaitsOut (created, 0) acts) :
    Along (watch State.step observeWait) Throttled (created, 0) acts := by
  refine Along.of_guarded (I := fun p => Patient p.1 p.2) (fun p a p' h hg hs => ⟨?_, h.step hg hs⟩)
    patient_created hguard
  rintro k c rest rfl hk
  exact (h.careful _ (List.mem_of_getElem? hk)).1

/-- The condition on a step, whatever the state it leads to. -/
def waitsOut (p : State × ℕ) (a : Act) : Bool :=
  p.1.oneAtATime a && match a with
  | .run k =>
    match p.1.threads[k]? with
    | some (.requestNeededSessionTokens false :: _) =>
      decide (p.2 ≤ p.1.now ∨ p.1.locker.sessionState.isCredentialsError = true ∨
        p.1.locker.credentials = none ∨ ¬ p.1.locker.mayRequestSessionToken)
    | some (.expireFailureTimer ms :: _) =>
      decide (p.2 ≤ p.1.now + ms ∧ p.1.sessionTokenFailureTimer.queued = 0)
    | _ => true
  | _ => true

theorem waitsOut_of_check (p : State × ℕ) (a : Act) (p' : State × ℕ) (h : waitsOut p a = true) :
    WaitsOut p a p' := by
  obtain ⟨honce, h⟩ := Bool.and_eq_true_iff.mp h
  refine ⟨oneAtATime_of_check p.1 a p'.1 honce, ?_, ?_⟩
  · rintro k rest rfl hk
    simp only [hk, decide_eq_true_eq] at h
    exact h
  · rintro k ms rest rfl hk
    simp only [hk, decide_eq_true_eq] at h
    exact h

/-- The credentials are refused, a call is made meanwhile, and the wait ends. -/
def refusedAndWaited : List Act :=
  handled (.setLoginCredentials user) 9 ++
    handled (.tokenResponse 0 user { errorCode := some .credentialsInvalid }) 8 ++
    handled (.call true) 5 ++ [.clock 60000, .failureTimerExpires] ++ handled .failureTimerFires 8

theorem throttled_refusedAndWaited :
    Along (watch State.step observeWait) Throttled (created, 0) refusedAndWaited :=
  throttled_of_waitsOut (along_of_check waitsOut_of_check (by decide +kernel))

/-- The account is locked, and the next call asks for a token. -/
def lockedAndCalled : List Act :=
  handled (.setLoginCredentials user) 9 ++
    handled (.tokenResponse 0 user { errorCode := some .accountTemporarilyLocked }) 8 ++
    handled (.call true) 7

theorem not_throttled : ¬ ∀ acts, Along State.step OneAtATime created acts →
    Along (watch State.step observeWait) Throttled (created, 0) acts := by
  intro h
  have hone : Along State.step OneAtATime created (lockedAndCalled ++ [.run 0]) :=
    along_of_check oneAtATime_of_check (by decide +kernel)
  have hrun : ((run (watch State.step observeWait) (created, 0) lockedAndCalled).bind fun p =>
      (watch State.step observeWait p (.run 0)).map fun _ => (p.1.threads, p.2, p.1.now)) =
      some ([[.getSessionToken user, .tryRequestSessionToken user true]], 600000, 0) := by
    decide +kernel
  obtain ⟨p, hp, hstep⟩ := Option.bind_eq_some_iff.mp hrun
  obtain ⟨p', hp', heq⟩ := Option.map_eq_some_iff.mp hstep
  simp only [Prod.mk.injEq] at heq
  obtain ⟨hthreads, hdeadline, hnow⟩ := heq
  have hover := (h _ hone).step_after hp hp' 0 user [.tryRequestSessionToken user true] rfl
    (by rw [hthreads]; rfl)
  rw [hdeadline, hnow] at hover
  exact absurd hover (by decide)

end State

end MediafireSdk.Api
