import MediafireSdk.Api.Exclusive

/-! Every request that waits has a timeout event to come, while handlers run one at a
time and timeouts are not stopped. Being put back into a queue for a retry arms none:
the last event is still there, since retries end before the request is `timeoutSeconds`
old and the event is due no sooner. -/

namespace MediafireSdk.Api

open Threads Runs Utils

/-- The request that is tried again. -/
def Instr.retrying : Instr → Option ℕ
  | .requestRetryAlert r _ _ | .moveInProgressToWaiting r _ => some r
  | _ => none

theorem Instr.requests_of_retrying {i : Instr} {r : ℕ} (h : i.retrying = some r) :
    r ∈ i.requests := by
  cases i <;> cases h <;> exact List.mem_singleton_self _

namespace State

variable {s s' : State} {r t : ℕ} {put : ℕ → Option ℕ}

/-- When `AddWaitingRequest` last put each request into its queue. -/
def observePut (s : State) (a : Act) (put : ℕ → Option ℕ) : ℕ → Option ℕ :=
  match a with
  | .run k =>
    match s.threads[k]? with
    | some (.addWaitingRequest r :: _) => Function.update put r (some s.now)
    | _ => put
  | _ => put

/-- The request is in one of the queues. -/
def Waits (s : State) (r : ℕ) : Prop :=
  r ∈ s.locker.waitingStRequests ∨ r ∈ s.locker.waitingNonStRequests

/-- When a request that was put into its queue at `t` times out. -/
def due (s : State) (r t : ℕ) : ℕ := t + 1000 * (s.requests r).timeoutSeconds

/-- A request that waits has an event that is not delivered, or is being delivered. -/
def HasDeadlines (p : State × (ℕ → Option ℕ)) : Prop :=
  p.1.maintainerExists = true → ∀ r, p.1.Waits r → ∃ t, p.2 r = some t ∧
    ((∃ time ≤ p.1.due r t, (time, r) ∈ p.1.locker.timeOutRequests.data) ∨
      .handleTimedOutRequest r ∈ pending p.1.threads)

/-- The condition on the run: handlers one at a time, and timeouts are not stopped. -/
def TimeoutsRun (p : State × (ℕ → Option ℕ)) (a : Act) (p' : State × (ℕ → Option ℕ)) : Prop :=
  p.1.OneAtATime a p'.1 ∧ a ≠ .stopTimeouts

/-- The event of the last time is still to come. -/
def Armed (s : State) (r t : ℕ) : Prop := (s.due r t, r) ∈ s.locker.timeOutRequests.data

structure Deadlined (s : State) (put : ℕ → Option ℕ) : Prop where
  kinds : ∀ r ∈ s.locker.waitingNonStRequests, (s.requests r).usesSessionToken = false
  created : ∀ r < s.called, 1000 * (s.requests r).maxRetryTime ≤ s.due r s.now
  unput : ∀ r, put r = none → s.locker.waits r + s.attempts r = 0 ∧
    ∀ j ∈ pending s.threads, j.life r ≠ 0 → j = .addWaitingRequest r
  last : ∀ r t, put r = some t → r < s.called ∧ 1000 * (s.requests r).maxRetryTime ≤ s.due r t ∧
    (s.Armed r t ∨ s.due r t ≤ s.now)
  waiting : ∀ r t, put r = some t → s.Waits r →
    s.Armed r t ∨ .handleTimedOutRequest r ∈ pending s.threads
  retrying : ∀ i ∈ pending s.threads, ∀ r t, i.retrying = some r → put r = some t → s.Armed r t
  unstopped : .stopTimeouts ∉ pending s.threads

theorem Waits.waits_pos (h : s.Waits r) : 0 < s.locker.waits r := by
  unfold SessionMaintainerLocker.waits
  rcases h with h | h
  · have hcount := List.count_pos_iff.mpr h
    omega
  · have hcount := List.count_pos_iff.mpr h
    omega

theorem Deadlined.hasDeadlines (h : s.maintainerExists = true → Deadlined s put) :
    HasDeadlines (s, put) := by
  intro hexists r hwaits
  have hpos : 0 < s.locker.waits r := hwaits.waits_pos
  cases hput : put r with
  | none =>
    have hnone := ((h hexists).unput r hput).1
    omega
  | some t =>
    refine ⟨t, hput, ?_⟩
    exact ((h hexists).waiting r t hput hwaits).imp_left fun harmed => ⟨_, le_rfl, harmed⟩

/-! ### One section of a handler -/

section Section

variable {k : ℕ} {i : Instr} {rest : List Instr}

theorem times_exec (s : State) (i : Instr) (r : ℕ) :
    ((s.exec i).1.requests r).timeoutSeconds = (s.requests r).timeoutSeconds ∧
      ((s.exec i).1.requests r).maxRetryTime = (s.requests r).maxRetryTime := by
  by_cases hwrites : i.writes = some r
  · cases i with
    | init q | initWithToken q st | completionCallback q =>
      cases hwrites
      simp [exec, init, setSessionToken, setRequest]
    | _ => cases hwrites
  · rw [s.requests_exec hwrites]
    exact ⟨rfl, rfl⟩

theorem timeOut_exec (s : State) {i : Instr} (hadd : ∀ r, i ≠ .addWaitingRequest r)
    (hstop : i ≠ .stopTimeouts) :
    (s.exec i).1.locker.timeOutRequests = s.locker.timeOutRequests := by
  cases i with
  | addWaitingRequest q => exact absurd rfl (hadd q)
  | stopTimeouts => exact absurd rfl hstop
  | moveInProgressToWaiting q a =>
    simp only [exec, setLocker_locker, SessionMaintainerLocker.moveInProgressToWaiting,
      SessionMaintainerLocker.pushWaiting]
    split_ifs <;> rfl
  | setCredentials c =>
    simp only [exec, setLocker_locker, SessionMaintainerLocker.setCredentials,
      SessionMaintainerLocker.changeSessionStateInternal, SessionMaintainerLocker.visitNewState]
    split_ifs <;> rfl
  | setSessionStateSafe newState count c =>
    simp only [exec, setLocker_locker, SessionMaintainerLocker.setSessionStateSafe,
      SessionMaintainerLocker.changeSessionStateInternal, SessionMaintainerLocker.visitNewState]
    split_ifs <;> rfl
  | nextWaitingNonSessionTokenRequest =>
    rcases s.attemptNonSessionTokenRequest_cases with ⟨q, l, hl, heq⟩ | heq
    · obtain ⟨waiting, -, rfl⟩ :=
        SessionMaintainerLocker.nextWaitingNonSessionTokenRequest_eq_some hl
      simp only [exec, heq, setLocker_locker]
    · simp only [exec, heq]
  | nextWaitingSessionTokenRequest =>
    rcases s.attemptSessionTokenRequest_cases with ⟨q, st, l, hl, heq⟩ | heq
    · obtain ⟨waiting, tokens, -, -, rfl⟩ :=
        SessionMaintainerLocker.nextWaitingSessionTokenRequest_eq_some hl
      simp only [exec, heq, setLocker_locker]
    · simp only [exec, heq]
  | tryRequestSessionToken c loop =>
    rcases s.tryRequestSessionToken_cases c loop with ⟨l, hl, heq⟩ | heq
    · obtain ⟨-, rfl⟩ := SessionMaintainerLocker.startRequestSessionToken_eq_some hl
      simp only [exec, heq, setLocker_locker]
    · simp only [exec, heq]
  | addSessionToken response c state count =>
    rcases s.addSessionToken_cases response c state count with ⟨l, hl, heq⟩ | ⟨-, heq⟩
    · obtain ⟨-, rfl⟩ := SessionMaintainerLocker.addSessionToken_eq_some hl
      simp only [exec, heq, setLocker_locker]
    · simp only [exec, heq]
  | handleTimedOutRequest q =>
    rcases s.handleTimedOutRequest_cases q with ⟨l, hl, heq⟩ | ⟨-, heq⟩
    · rcases SessionMaintainerLocker.handleTimedOutRequest_eq_some hl with ⟨-, rfl⟩ | ⟨-, rfl⟩ <;>
        simp only [exec, heq, setLocker_locker]
    · simp only [exec, heq]
  | reuseToken q a newKey =>
    rcases s.locker.reuseToken_cases (s.requests q).usesSessionToken q newKey with
      heq | ⟨out, -, -, heq⟩ <;> simp only [exec, setLocker_locker, heq]
  | _ => rfl

theorem notWaits_handleTimedOutRequest (hlife : OneLife s) (htokens : TokensUsed s)
    (hkinds : ∀ r ∈ s.locker.waitingNonStRequests, (s.requests r).usesSessionToken = false) :
    ¬ (s.exec (.handleTimedOutRequest r)).1.Waits r := by
  intro hwaits
  have hone : s.locker.waits r ≤ 1 := by
    have hle := hlife r
    unfold lives at hle
    split_ifs at hle <;> omega
  rcases s.handleTimedOutRequest_cases r with ⟨l, hl, heq⟩ | ⟨hnone, heq⟩
  · have hwaits' : 0 < (s.exec (.handleTimedOutRequest r)).1.locker.waits r := hwaits.waits_pos
    have hmoved := SessionMaintainerLocker.waits_handleTimedOut hl r
    simp only [exec, heq, setLocker_locker] at hwaits'
    rw [if_pos rfl] at hmoved
    omega
  · simp only [exec, heq] at hwaits
    unfold SessionMaintainerLocker.handleTimedOutRequest at hnone
    rcases hwaits with hmem | hmem
    · have huses := (htokens r (Or.inl hmem)).2
      rw [if_pos huses, if_pos hmem] at hnone
      cases hnone
    · have huses := hkinds r hmem
      rw [if_neg (by simp [huses]), if_pos hmem] at hnone
      cases hnone

theorem waits_exec (h : (s.exec i).1.Waits r) : s.Waits r ∨ i.puts = some r := by
  rcases h with h | h
  · exact (mem_waitingSt_exec h).imp Or.inl And.left
  · exact (mem_waitingNonSt_exec h).imp Or.inr And.left

/-- A retry is decided while the event is still to come. -/
theorem retrying_pushed {j : Instr} (hj : j ∈ (s.exec i).2) (hr : j.retrying = some r) :
    i.retrying = some r ∨ s.now < 1000 * (s.requests r).maxRetryTime := by
  cases pushes_exec hj with
  | control hcontrol =>
    have hmem := Instr.requests_of_retrying hr
    rw [Instr.requests_of_control hcontrol] at hmem
    cases hmem
  | retry hretries =>
    cases hr
    have hlt := hretries.2.2.1
    exact Or.inr (by omega)
  | handleCompletion _ h => rcases mem_handleCompletion h with rfl | rfl | rfl | rfl <;> cases hr
  | handleRetryRequest _ h =>
    rcases mem_handleRetryRequest h with rfl | rfl | rfl | rfl | rfl <;> cases hr
    exact Or.inl rfl
  | _ => cases hr

theorem stopTimeouts_pushed (h : .stopTimeouts ∈ (s.exec i).2) : False := by
  generalize hj : Instr.stopTimeouts = j at h
  cases pushes_exec h with
  | control hcontrol =>
    subst hj
    cases hcontrol
  | handleCompletion _ h => rcases mem_handleCompletion h with rfl | rfl | rfl | rfl <;> cases hj
  | handleRetryRequest _ h =>
    rcases mem_handleRetryRequest h with rfl | rfl | rfl | rfl | rfl <;> cases hj
  | _ => cases hj

theorem Deadlined.runs (h : Deadlined s put) (hlife : OneLife s) (htokens : TokensUsed s)
    (hk : s.threads[k]? = some (i :: rest)) :
    Deadlined (s.runThread k i rest) (s.observePut (.run k) put) := by
  have hthread := stepped_runThread hk
  have hframe := s.frame_exec i
  have hrequests (r : ℕ) : ((s.runThread k i rest).requests r).timeoutSeconds =
      (s.requests r).timeoutSeconds ∧ ((s.runThread k i rest).requests r).maxRetryTime =
        (s.requests r).maxRetryTime := s.times_exec i r
  have hdue (r t : ℕ) : (s.runThread k i rest).due r t = s.due r t := by
    rw [due, (hrequests r).1, due]
  have huses (r : ℕ) : ((s.runThread k i rest).requests r).usesSessionToken =
      (s.requests r).usesSessionToken := s.uses_exec i r
  have hnow : (s.runThread k i rest).now = s.now := hframe.now
  have hcalled : (s.runThread k i rest).called = s.called := hframe.called
  have hkinds : ∀ r ∈ (s.runThread k i rest).locker.waitingNonStRequests,
      ((s.runThread k i rest).requests r).usesSessionToken = false := by
    intro r hr
    rw [huses]
    exact (mem_waitingNonSt_exec hr).elim (h.kinds r) And.right
  have hcreated : ∀ r < (s.runThread k i rest).called,
      1000 * ((s.runThread k i rest).requests r).maxRetryTime ≤
        (s.runThread k i rest).due r (s.runThread k i rest).now := by
    intro r hr
    rw [hdue, hnow, (hrequests r).2]
    exact h.created r (hcalled ▸ hr)
  have hunstopped : .stopTimeouts ∉ pending (s.runThread k i rest).threads := fun hmem =>
    (hthread.mem hmem).elim stopTimeouts_pushed h.unstopped
  -- a request whose only life is in `AddWaitingRequest` has it there until that runs
  have hunput (r : ℕ) (hput : put r = none) (hne : i ≠ .addWaitingRequest r) :
      (s.runThread k i rest).locker.waits r + (s.runThread k i rest).attempts r = 0 ∧
        ∀ j ∈ pending (s.runThread k i rest).threads, j.life r ≠ 0 → j = .addWaitingRequest r := by
    obtain ⟨hzero, hpending⟩ := h.unput r hput
    have hlifeless : i.life r = 0 := by
      by_contra hlife
      exact hne (hpending i hthread.head_mem hlife)
    have hexec := s.life_exec r i
    refine ⟨?_, fun j hj hlife => ?_⟩
    · change (s.exec i).1.locker.waits r + (s.exec i).1.attempts r = 0
      omega
    · rcases hthread.mem hj with hj | hj
      · have hle := List.single_le_sum (l := (s.exec i).2.map (Instr.life r)) (by simp) _
          (List.mem_map_of_mem hj)
        omega
      · exact hpending j hj hlife
  by_cases hadd : ∃ q, i = .addWaitingRequest q
  · obtain ⟨q, rfl⟩ := hadd
    have hobserve : s.observePut (.run k) put = Function.update put q (some s.now) := by
      simp only [observePut, hk]
    have hdata : (s.runThread k (.addWaitingRequest q) rest).locker.timeOutRequests =
        s.locker.timeOutRequests.add (s.due q s.now) q :=
      SessionMaintainerLocker.timeOut_pushWaiting _ _ _
    have hnew (t : ℕ) (ht : Function.update put q (some s.now) q = some t) :
        (s.runThread k (.addWaitingRequest q) rest).Armed q t := by
      rw [Function.update_self] at ht
      obtain rfl := Option.some.inj ht
      unfold Armed
      rw [hdue, hdata]
      exact TimedEvents.mem_data_add _
    have hkept {r t : ℕ} (harmed : s.Armed r t) :
        (s.runThread k (.addWaitingRequest q) rest).Armed r t := by
      unfold Armed
      rw [hdue, hdata]
      exact TimedEvents.mem_data_add_of_mem _ harmed
    rw [hobserve]
    refine ⟨hkinds, hcreated, fun r hput => ?_, fun r t ht => ?_, fun r t ht hwaits => ?_,
      fun j hj r t hr ht => ?_, hunstopped⟩
    · by_cases hr : r = q
      · rw [hr, Function.update_self] at hput
        cases hput
      · rw [Function.update_of_ne hr] at hput
        refine hunput r hput ?_
        rintro heq
        cases heq
        exact hr rfl
    · rw [hcalled, hnow, hdue, (hrequests r).2]
      by_cases hr : r = q
      · subst hr
        have hlt := hlife.lt_called hthread.head_mem (if_pos rfl)
        have harmed := hnew t ht
        rw [Function.update_self] at ht
        obtain rfl := Option.some.inj ht
        exact ⟨hlt, h.created r hlt, Or.inl harmed⟩
      · rw [Function.update_of_ne hr] at ht
        obtain ⟨hlt, hle, hevent⟩ := h.last r t ht
        exact ⟨hlt, hle, hevent.imp_left hkept⟩
    · by_cases hr : r = q
      · subst hr
        exact Or.inl (hnew t ht)
      · rw [Function.update_of_ne hr] at ht
        rcases waits_exec hwaits with hwaits | hputs
        · refine (h.waiting r t ht hwaits).imp hkept fun hmem => ?_
          exact hthread.stays hmem (by simp)
        · cases hputs
          exact absurd rfl hr
    · by_cases hr' : r = q
      · subst hr'
        exact hnew t ht
      · rw [Function.update_of_ne hr'] at ht
        rcases hthread.mem hj with hj | hj
        · cases hj
        · exact hkept (h.retrying j hj r t hr ht)
  · push Not at hadd
    have hobserve : s.observePut (.run k) put = put := by
      simp only [observePut, hk]
      split
      · rename_i heq
        cases heq
        exact absurd rfl (hadd _)
      · rfl
    have hdata : (s.runThread k i rest).locker.timeOutRequests = s.locker.timeOutRequests :=
      s.timeOut_exec hadd fun heq => h.unstopped (heq ▸ hthread.head_mem)
    have harmed (r t : ℕ) : (s.runThread k i rest).Armed r t ↔ s.Armed r t := by
      unfold Armed
      rw [hdue, hdata]
    rw [hobserve]
    refine ⟨hkinds, hcreated, fun r hput => hunput r hput (hadd r), fun r t ht => ?_,
      fun r t ht hwaits => ?_, fun j hj r t hr ht => ?_, hunstopped⟩
    · rw [hcalled, hnow, hdue, (hrequests r).2, harmed]
      exact h.last r t ht
    · rw [harmed]
      rcases waits_exec hwaits with hold | hputs
      · rcases h.waiting r t ht hold with harmed | hmem
        · exact Or.inl harmed
        · by_cases heq : .handleTimedOutRequest r = i
          · subst heq
            exact absurd hwaits (notWaits_handleTimedOutRequest hlife htokens h.kinds)
          · exact Or.inr (hthread.stays hmem heq)
      · refine Or.inl ?_
        cases i with
        | addWaitingRequest q => exact absurd rfl (hadd q)
        | moveInProgressToWaiting q a =>
          cases hputs
          exact h.retrying _ hthread.head_mem r t rfl ht
        | _ => cases hputs
    · rw [harmed]
      rcases hthread.mem hj with hj | hj
      · rcases retrying_pushed hj hr with hr | hearly
        · exact h.retrying i hthread.head_mem r t hr ht
        · obtain ⟨-, hle, hevent⟩ := h.last r t ht
          exact hevent.resolve_right (by omega)
      · exact h.retrying j hj r t hr ht

end Section

/-! ### Steps -/

/-- What a new handler does not touch: the queues, and the requests that were made before. -/
structure Untouched (s s' : State) : Prop where
  waitingSt : s'.locker.waitingStRequests = s.locker.waitingStRequests
  waitingNonSt : s'.locker.waitingNonStRequests = s.locker.waitingNonStRequests
  lives : ∀ r, s'.locker.waits r + s'.attempts r ≤ s.locker.waits r + s.attempts r
  requests : ∀ r < s.called,
    (s'.requests r).usesSessionToken = (s.requests r).usesSessionToken ∧
      (s'.requests r).timeoutSeconds = (s.requests r).timeoutSeconds ∧
      (s'.requests r).maxRetryTime = (s.requests r).maxRetryTime

theorem timeOut_of_step {a : Act} (hs : s.step a = some s') (hrun : ∀ k, a ≠ .run k)
    (hfires : a ≠ .timeoutFires) : s'.locker.timeOutRequests = s.locker.timeOutRequests := by
  unfold step at hs
  split_ifs at hs
  cases a with
  | run k => exact absurd rfl (hrun k)
  | timeoutFires => exact absurd rfl hfires
  | cancelRequest r | dropRequest r | statusResponse n ec | destroy =>
    simp only [act] at hs
    split_ifs at hs
    cases hs
    first | rfl | (unfold statusResponse; split_ifs <;> rfl)
  | apiResponse n r response =>
    simp only [act] at hs
    split_ifs at hs
    cases hs
    unfold apiResponse
    split_ifs <;> rfl
  | tokenResponse n c response =>
    simp only [act] at hs
    split_ifs at hs
    cases hs
    unfold State.tokenResponse
    split_ifs <;> rfl
  | failureTimerExpires | recheckTimerExpires | failureTimerFires | recheckTimerFires =>
    obtain ⟨t, -, rfl⟩ := Option.map_eq_some_iff.mp hs
    rfl
  | delayedFires =>
    obtain ⟨⟨r, l⟩, hnext, rfl⟩ := Option.map_eq_some_iff.mp hs
    obtain ⟨events, -, rfl⟩ := SessionMaintainerLocker.nextDelayedRequest_eq_some hnext
    rfl
  | _ =>
    cases hs
    rfl

/-- Only `StopTimeouts` and the destructor stop timeouts. -/
theorem unstopped_of_step {a : Act} (h : .stopTimeouts ∉ pending s.threads)
    (hstop : a ≠ .stopTimeouts) (hs : s.step a = some s') (hexists : s'.maintainerExists = true) :
    .stopTimeouts ∉ pending s'.threads := by
  have hstarts (program : List Instr) (hprogram : .stopTimeouts ∉ program) :
      .stopTimeouts ∉ pending (Threads.spawn program s.threads) := fun hmem =>
    (mem_pending_spawn.mp hmem).elim h hprogram
  unfold State.step at hs
  split_ifs at hs
  cases a with
  | stopTimeouts => exact absurd rfl hstop
  | setLoginCredentials c =>
    cases hs
    exact hstarts [.setCredentials c, .attemptRequests] (by simp)
  | call uses =>
    cases hs
    exact hstarts [.addWaitingRequest s.called, .attemptRequests] (by simp)
  | setTimeoutSeconds timeoutSeconds | clock ms =>
    cases hs
    exact h
  | cancelRequest r =>
    simp only [act] at hs
    split_ifs at hs
    cases hs
    exact hstarts [.cancel r] (by simp)
  | dropRequest r =>
    simp only [act] at hs
    split_ifs at hs
    cases hs
    exact h
  | apiResponse n r response =>
    simp only [act] at hs
    split_ifs at hs
    cases hs
    unfold apiResponse
    split_ifs
    · exact hstarts [.completionNotification response.errorCode, .retryOrComplete r n response]
        (by simp)
    · exact h
  | tokenResponse n c response =>
    simp only [act] at hs
    split_ifs at hs
    cases hs
    by_cases hmaintainer : s.maintainerExists = true
    · rw [State.tokenResponse, if_pos hmaintainer]
      exact hstarts [.handleSessionTokenResponse response c] (by simp)
    · rw [State.tokenResponse, if_neg hmaintainer]
      exact h
  | statusResponse n ec =>
    simp only [act] at hs
    split_ifs at hs
    cases hs
    unfold statusResponse
    split_ifs
    · refine hstarts (handleCheckConnectionStatusResponse ec) fun hmem => ?_
      rcases List.mem_append.mp hmem with hmem | hmem
      · cases control_updateConnectionState ec _ hmem
      · cases List.mem_singleton.mp hmem
    · exact h
  | failureTimerExpires | recheckTimerExpires =>
    obtain ⟨t, -, rfl⟩ := Option.map_eq_some_iff.mp hs
    exact h
  | failureTimerFires =>
    obtain ⟨t, -, rfl⟩ := Option.map_eq_some_iff.mp hs
    exact hstarts [.attemptRequests, .requestNeededSessionTokens true] (by simp)
  | recheckTimerFires =>
    obtain ⟨t, -, rfl⟩ := Option.map_eq_some_iff.mp hs
    exact hstarts [.attemptRequests] (by simp)
  | delayedFires =>
    obtain ⟨⟨r, l⟩, -, rfl⟩ := Option.map_eq_some_iff.mp hs
    exact hstarts [.addWaitingRequest r, .attemptRequests] (by simp)
  | timeoutFires =>
    obtain ⟨⟨r, l⟩, -, rfl⟩ := Option.map_eq_some_iff.mp hs
    change .stopTimeouts ∉ pending (s.timeoutFires r l).threads
    unfold State.timeoutFires
    split_ifs
    · exact hstarts [.handleTimedOutRequest r] (by simp)
    · exact h
  | destroy =>
    simp only [act] at hs
    split_ifs at hs
    cases hs
    cases hexists
  | run k =>
    simp only [act] at hs
    split at hs
    · rename_i i rest hk
      cases hs
      exact fun hmem => ((stepped_runThread hk).mem hmem).elim stopTimeouts_pushed h
    · cases hs

/-- A handler starts; an event that is gone was due, and its request is looked for. -/
theorem Deadlined.starts (h : Deadlined s put) (hlife : OneLife s) (program : List Instr)
    (huntouched : Untouched s s') (hnow : s.now ≤ s'.now) (hcalled : s.called ≤ s'.called)
    (hnew : ∀ r, s.called ≤ r → r < s'.called →
      1000 * (s'.requests r).maxRetryTime ≤ s'.due r s'.now)
    (hthreads : s'.threads = Threads.spawn program s.threads)
    (hprogram : ∀ j ∈ program, (∀ r, j.life r ≠ 0 → j = .addWaitingRequest r ∨
      0 < s.locker.waits r + s.attempts r) ∧ j.retrying = none)
    (hunstopped : .stopTimeouts ∉ pending s'.threads)
    (hevents : ∀ r t, (s.due r t, r) ∈ s.locker.timeOutRequests.data →
      (s.due r t, r) ∈ s'.locker.timeOutRequests.data ∨ (s.due r t ≤ s.now ∧ s.threads = [] ∧
        (s.Waits r → .handleTimedOutRequest r ∈ program))) : Deadlined s' put := by
  have hpending {j : Instr} : j ∈ pending s'.threads ↔ j ∈ pending s.threads ∨ j ∈ program := by
    rw [hthreads]
    exact mem_pending_spawn
  have hknown {r : ℕ} (hwaits : s.Waits r) : r < s.called := by
    have hpos := hwaits.waits_pos
    have hle := hlife r
    unfold State.lives at hle
    split_ifs at hle with hr
    · exact hr
    · omega
  have hdue {r : ℕ} (hr : r < s.called) (t : ℕ) : s'.due r t = s.due r t := by
    rw [due, (huntouched.requests r hr).2.1, due]
  have hwaits {r : ℕ} (hwaits : s'.Waits r) : s.Waits r := by
    unfold Waits at hwaits
    rwa [huntouched.waitingSt, huntouched.waitingNonSt] at hwaits
  refine ⟨fun r hr => ?_, fun r hr => ?_, fun r hput => ?_, fun r t ht => ?_,
    fun r t ht hw => ?_, fun j hj r t hr ht => ?_, hunstopped⟩
  · rw [huntouched.waitingNonSt] at hr
    rw [(huntouched.requests r (hknown (Or.inr hr))).1]
    exact h.kinds r hr
  · by_cases hold : r < s.called
    · have hle := h.created r hold
      rw [hdue hold, (huntouched.requests r hold).2.2]
      unfold due at hle ⊢
      omega
    · exact hnew r (not_lt.mp hold) hr
  · obtain ⟨hzero, hold⟩ := h.unput r hput
    have hle := huntouched.lives r
    refine ⟨by omega, fun j hj hne => ?_⟩
    rcases hpending.mp hj with hj | hj
    · exact hold j hj hne
    · exact ((hprogram j hj).1 r hne).resolve_right (by omega)
  · obtain ⟨hlt, hle, hevent⟩ := h.last r t ht
    unfold Armed
    rw [hdue hlt, (huntouched.requests r hlt).2.2]
    refine ⟨hlt.trans_le hcalled, hle, ?_⟩
    rcases hevent with harmed | hpast
    · exact (hevents r t harmed).imp_right fun hgone => hgone.1.trans hnow
    · exact Or.inr (hpast.trans hnow)
  · have hlt := (h.last r t ht).1
    unfold Armed
    rw [hdue hlt, hpending]
    rcases h.waiting r t ht (hwaits hw) with harmed | hmem
    · exact (hevents r t harmed).imp_right fun hgone => Or.inr (hgone.2.2 (hwaits hw))
    · exact Or.inr (Or.inl hmem)
  · have hlt := (h.last r t ht).1
    unfold Armed
    rw [hdue hlt]
    rcases hpending.mp hj with hj | hj
    · refine (hevents r t (h.retrying j hj r t hr ht)).resolve_right fun hgone => ?_
      rw [hgone.2.1] at hj
      cases hj
    · rw [(hprogram j hj).2] at hr
      cases hr

theorem Untouched.of_quiet (h : Quiet s s') : Untouched s s' where
  waitingSt := h.locker.waitingSt
  waitingNonSt := h.locker.waitingNonSt
  lives r := by rw [h.waits, h.attempts]
  requests r _ := by
    rw [h.requests]
    exact ⟨rfl, rfl, rfl⟩

theorem Deadlined.step {a : Act} (h : Deadlined s put) (hlife : OneLife s) (htokens : TokensUsed s)
    (honce : s.OneAtATime a s') (hstop : a ≠ .stopTimeouts) (hs : s.step a = some s')
    (hexists : s'.maintainerExists = true) : Deadlined s' (s.observePut a put) := by
  by_cases hrun : ∃ k, a = .run k
  · obtain ⟨k, rfl⟩ := hrun
    obtain ⟨i, rest, hk, rfl⟩ := runThread_of_step hs
    exact h.runs hlife htokens hk
  push Not at hrun
  have hobserve : s.observePut a put = put := by
    cases a with
    | run k => exact absurd rfl (hrun k)
    | _ => rfl
  have hnow := clock_of_step hs hrun
  have hunstopped := unstopped_of_step h.unstopped hstop hs hexists
  rw [hobserve]
  by_cases hfires : a = .timeoutFires
  · subst hfires
    unfold State.step at hs
    split_ifs at hs
    obtain ⟨⟨q, l⟩, hnext, rfl⟩ := Option.map_eq_some_iff.mp hs
    have hsame := SessionMaintainerLocker.sameRequests_nextTimedOutRequest hnext
    obtain ⟨time, hdata, htime, hlocker⟩ :=
      SessionMaintainerLocker.nextTimedOutRequest_eq_some hnext
    have hquiet : Untouched s (s.setLocker l) :=
      Untouched.of_quiet ⟨hsame, rfl, rfl, rfl, rfl⟩
    have hgone (program : List Instr) (hprogram : s.Waits q → .handleTimedOutRequest q ∈ program)
        (r t : ℕ) (hmem : (s.due r t, r) ∈ s.locker.timeOutRequests.data) :
        (s.due r t, r) ∈ l.timeOutRequests.data ∨ (s.due r t ≤ s.now ∧ s.threads = [] ∧
          (s.Waits r → .handleTimedOutRequest r ∈ program)) := by
      rw [hdata] at hmem
      rcases List.mem_cons.mp hmem with heq | hmem
      · cases heq
        exact Or.inr ⟨htime, honce rfl, hprogram⟩
      · exact Or.inl hmem
    change Deadlined (s.timeoutFires q l) put
    unfold State.timeoutFires
    split_ifs with halive
    · refine h.starts hlife [.handleTimedOutRequest q]
        ⟨hquiet.waitingSt, hquiet.waitingNonSt, hquiet.lives, hquiet.requests⟩ le_rfl le_rfl
        (fun r hr hr' => absurd hr' (not_lt.mpr hr)) rfl
        (by simp [Instr.life, Instr.retrying]) ?_ ?_
      · simpa [State.timeoutFires, halive] using hunstopped
      · exact hgone [.handleTimedOutRequest q] fun _ => List.mem_singleton_self _
    · refine h.starts hlife [] hquiet le_rfl le_rfl (fun r hr hr' => absurd hr' (not_lt.mpr hr))
        (by simp [Threads.spawn, setLocker]) (by simp) h.unstopped ?_
      refine hgone [] fun hwaits => absurd ?_ halive
      exact hwaits.elim Or.inl fun hmem => Or.inr (Or.inl hmem)
  have htimeOut := timeOut_of_step hs hrun hfires
  have hevents (program : List Instr) (r t : ℕ)
      (hmem : (s.due r t, r) ∈ s.locker.timeOutRequests.data) :
      (s.due r t, r) ∈ s'.locker.timeOutRequests.data ∨ (s.due r t ≤ s.now ∧ s.threads = [] ∧
        (s.Waits r → .handleTimedOutRequest r ∈ program)) := Or.inl (htimeOut ▸ hmem)
  have hold {t : State} (hcalled : t.called = s.called) (r : ℕ) (hr : s.called ≤ r)
      (hr' : r < t.called) : 1000 * (t.requests r).maxRetryTime ≤ t.due r t.now :=
    absurd (hcalled ▸ hr') (not_lt.mpr hr)
  cases moves_of_step hs with
  | quiet program hquiet hthreads hprogram =>
    refine h.starts hlife program (Untouched.of_quiet hquiet) hnow hquiet.called.ge
      (hold hquiet.called) hthreads (fun j hj => ⟨fun r hne => ?_, ?_⟩) hunstopped (hevents program)
    · exact absurd (Instr.life_eq_zero (hprogram j hj) r) hne
    · cases hr : j.retrying with
      | none => rfl
      | some q =>
        have hmem := Instr.requests_of_retrying hr
        rw [hprogram j hj] at hmem
        cases hmem
  | call uses _ =>
    have heq {r : ℕ} (hr : r < s.called) : (s.call uses).requests r = s.requests r :=
      Function.update_of_ne hr.ne _ _
    refine h.starts hlife [.addWaitingRequest s.called, .attemptRequests]
      ⟨rfl, rfl, fun _ => le_rfl, fun r hr => by rw [heq hr]; exact ⟨rfl, rfl, rfl⟩⟩ hnow
      (Nat.le_succ _) (fun r hr hr' => ?_) rfl ?_ hunstopped (hevents _)
    · obtain rfl : r = s.called := Nat.le_antisymm (Nat.le_of_lt_succ hr') hr
      have hself : (s.call uses).requests s.called = s.newRequest uses := Function.update_self _ _ _
      rw [due, hself]
      change 1000 * (s.now / 1000 + s.timeoutSeconds) ≤ s.now + 1000 * s.timeoutSeconds
      omega
    · simp only [List.mem_cons, List.not_mem_nil, or_false, forall_eq_or_imp, forall_eq]
      refine ⟨⟨fun r hne => Or.inl ?_, rfl⟩, fun r hne => absurd rfl hne, rfl⟩
      simp only [Instr.life, ne_eq, ite_eq_right_iff, one_ne_zero, imp_false, not_not] at hne
      rw [hne]
  | cancelRequest q _ =>
    exact h.starts hlife [.cancel q] (Untouched.of_quiet ⟨sameRequests_rfl, rfl, rfl, rfl, rfl⟩)
      hnow le_rfl (hold rfl) rfl (by simp [Instr.life, Instr.retrying]) hunstopped (hevents _)
  | dropRequest q _ =>
    refine h.starts hlife [] ⟨rfl, rfl, fun _ => le_rfl, fun r _ => ?_⟩ hnow le_rfl (hold rfl) rfl
      (by simp) hunstopped (hevents _)
    by_cases hr : r = q
    · simp [hr, setRequest]
    · simp [setRequest, Function.update_of_ne hr]
  | apiResponse n q response hmem =>
    have hpos : 0 < s.attempts q := attempts_pos hmem
    have hlives (r : ℕ) : s.locker.waits r + (s.answered n q).attempts r ≤
        s.locker.waits r + s.attempts r := by
      have hr := attempts_answered hmem r
      omega
    unfold State.apiResponse at hevents hnow hunstopped ⊢
    split_ifs at hevents hnow hunstopped ⊢
    · refine h.starts hlife [.completionNotification response.errorCode, .retryOrComplete q n response]
        ⟨rfl, rfl, hlives, fun _ _ => ⟨rfl, rfl, rfl⟩⟩ hnow le_rfl (hold rfl) rfl ?_ hunstopped
        (hevents _)
      simp only [List.mem_cons, List.not_mem_nil, or_false, forall_eq_or_imp, forall_eq]
      refine ⟨⟨fun r hne => absurd rfl hne, rfl⟩, fun r hne => Or.inr ?_, rfl⟩
      simp only [Instr.life, ne_eq, ite_eq_right_iff, one_ne_zero, imp_false, not_not] at hne
      subst hne
      omega
    · exact h.starts hlife [] ⟨rfl, rfl, hlives, fun _ _ => ⟨rfl, rfl, rfl⟩⟩ hnow le_rfl (hold rfl)
        rfl (by simp) hunstopped (hevents _)
  | delayedFires q l _ hl =>
    have hwaits := SessionMaintainerLocker.waits_nextDelayed hl
    obtain ⟨events, -, rfl⟩ := SessionMaintainerLocker.nextDelayedRequest_eq_some hl
    refine h.starts hlife [.addWaitingRequest q, .attemptRequests]
      ⟨rfl, rfl, fun r => ?_, fun _ _ => ⟨rfl, rfl, rfl⟩⟩ hnow le_rfl (hold rfl) rfl ?_ hunstopped
      (hevents _)
    · exact Nat.add_le_add_right ((Nat.le_add_right _ _).trans (hwaits r).le) _
    · simp only [List.mem_cons, List.not_mem_nil, or_false, forall_eq_or_imp, forall_eq]
      refine ⟨⟨fun r hne => Or.inl ?_, rfl⟩, fun r hne => absurd rfl hne, rfl⟩
      simp only [Instr.life, ne_eq, ite_eq_right_iff, one_ne_zero, imp_false, not_not] at hne
      rw [hne]
  | timeoutFires q l _ _ => exact absurd rfl hfires
  | destroy _ _ => cases hexists
  | run k i rest _ => exact absurd rfl (hrun k)

/-! ### Runs -/

theorem deadlined_created : Deadlined created fun _ => none where
  kinds _ h := by cases h
  created _ h := absurd h (Nat.not_lt_zero _)
  unput _ _ := ⟨rfl, fun _ h => by cases h⟩
  last _ _ h := by cases h
  waiting _ _ h := by cases h
  retrying _ h := by cases h
  unstopped h := by cases h

/-- With handlers one at a time and timeouts not stopped, every request that waits has an event no
later than its timeout after `AddWaitingRequest`. -/
theorem hasDeadlines_of_timeoutsRun {acts : List Act}
    (hguard : Along (watch State.step observePut) TimeoutsRun (created, fun _ => none) acts) :
    Always (watch State.step observePut) HasDeadlines (created, fun _ => none) acts := by
  refine Always.of_guarded (I := fun p => InOrder p.1 ∧ Tidy p.1 ∧
    (p.1.maintainerExists = true → Deadlined p.1 p.2)) (fun p h => Deadlined.hasDeadlines h.2.2) ?_
    ⟨inOrder_created, tidy_created, fun _ => deadlined_created⟩ hguard
  rintro ⟨s, put⟩ a ⟨s', put'⟩ ⟨horder, htidy, hdeadlined⟩ ⟨honce, hstop⟩ hs
  obtain ⟨hs, rfl⟩ := watch_eq_some hs
  refine ⟨horder.step honce hs, htidy.step horder.addsFirst hs, fun hexists => ?_⟩
  exact (hdeadlined (exists_of_step hs hexists)).step htidy.oneLife htidy.tokensUsed honce hstop hs
    hexists

/-- A call is put back into its queue for a retry, and times out there. -/
def retriedAndTimedOut : List Act :=
  loginAndCall ++ .clock 59000 ::
    .apiResponse 1 0 { errorCode := some .sessionTokenInvalid } :: List.replicate 15 (.run 0) ++
    .clock 1000 :: .timeoutFires :: List.replicate 2 (.run 0)

theorem hasDeadlines_retriedAndTimedOut :
    Always (watch State.step observePut) HasDeadlines (created, fun _ => none) retriedAndTimedOut :=
  hasDeadlines_of_timeoutsRun <| along_of_check
    (p := fun p a => p.1.oneAtATime a && decide (a ≠ .stopTimeouts))
    (fun p a p' h => ⟨oneAtATime_of_check p.1 a p'.1 (Bool.and_eq_true_iff.mp h).1,
      of_decide_eq_true (Bool.and_eq_true_iff.mp h).2⟩) (by decide +kernel)

end State

end MediafireSdk.Api
