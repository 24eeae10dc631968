import MediafireSdk.Api.Stepping

/-! Accounts of requests. The account of a request counts the places where it waits,
its attempts in flight, the instructions that will call its completion callback and
the calls there were. What an instruction does to an account is exact: it gains only
in the destructor and behind it, and loses where a request that has had an attempt is
to be cancelled or to fail, or is no longer delayed. -/

namespace MediafireSdk.Api

open Threads

/-- The calls of the completion callback that an instruction leads to; `Cancel` and `Fail` call it
themselves only before the first attempt. -/
def Instr.owes (unstarted : Bool) (r : ℕ) : Instr → ℕ
  | .addWaitingRequest q | .init q | .initWithToken q _ | .moveInProgressToWaiting q _
  | .moveInProgressToDelayed q _ | .retryOrComplete q _ _ | .requestRetryAlert q _ _
  | .completionCallback q => if q = r then 1 else 0
  | .cancel q | .fail q => if q = r ∧ unstarted = true then 1 else 0
  | _ => 0

theorem Instr.owes_eq_zero {j : Instr} (h : j.requests = []) (unstarted : Bool) (r : ℕ) :
    j.owes unstarted r = 0 := by
  cases j <;> first | rfl | cases h

theorem Instr.owes_mono (r : ℕ) {u u' : Bool} (h : u' = true → u = true) (j : Instr) :
    j.owes u' r ≤ j.owes u r := by
  cases j with
  | cancel q | fail q =>
    simp only [Instr.owes]
    split_ifs with h₁ h₂ <;> simp_all
  | _ => exact le_rfl

theorem sum_owes_eq_zero {program : List Instr} (h : ∀ j ∈ program, j.requests = []) (u : Bool)
    (r : ℕ) : (program.map (Instr.owes u r)).sum = 0 := by
  apply List.sum_eq_zero
  intro n hn
  obtain ⟨j, hj, rfl⟩ := List.mem_map.mp hn
  exact Instr.owes_eq_zero (h j hj) u r

theorem sum_owes_cancel (u : Bool) (r : ℕ) (rs : List ℕ) :
    ((rs.map Instr.cancel).map (Instr.owes u r)).sum = if u then rs.count r else 0 := by
  induction rs with
  | nil => cases u <;> rfl
  | cons q rs ih =>
    simp only [List.map_cons, List.sum_cons, ih, List.count_cons, beq_iff_eq, Instr.owes]
    cases u <;> simp
    omega

namespace State

variable {s s' : State} {r : ℕ}

def unstarted (s : State) (r : ℕ) : Bool := (s.requests r).request.isNone

/-- What does not lie with the threads. -/
def tally (s : State) (r : ℕ) : ℕ :=
  s.locker.waits r + s.attempts r + (s.requests r).completions

def account (s : State) (r : ℕ) : ℕ :=
  s.tally r + load (Instr.owes (s.unstarted r) r) s.threads

/-- What an instruction takes out of the account: requests that are cancelled or fail have had an
attempt, and those that are delayed are dropped. -/
def lost (s : State) (r : ℕ) : Instr → ℕ
  | .handleTimedOutRequest q =>
    if q = r ∧ s.unstarted r = false ∧
      (s.locker.handleTimedOutRequest (s.requests q).usesSessionToken q).isSome then 1 else 0
  | .stopTimeouts => s.locker.delayedRequests.events.count r
  | .moveRequests =>
    if s.unstarted r then 0
    else s.locker.waitingStRequests.count r + s.locker.waitingNonStRequests.count r
  | .requestRetryAlert q _ _ =>
    if q = r ∧ s.unstarted r = false ∧ s.maintainerExists = false then 1 else 0
  | _ => 0

/-- What an instruction adds to the account: a request without an attempt is cancelled where
there should be none. -/
def gained (s : State) (r : ℕ) : Instr → ℕ
  | .completionAlert q _ _ =>
    if q = r ∧ s.unstarted r = true ∧ s.maintainerExists = false then 1 else 0
  | .moveRequests => if s.unstarted r then s.locker.inProgressRequests.keys.count r else 0
  | _ => 0

/-- Setting the callbacks of another request aside, an attempt makes the request started. -/
theorem unstarted_init (q : ℕ) : (s.init q).unstarted r = true → s.unstarted r = true := by
  intro h
  by_cases hqr : r = q
  · subst hqr
    simp [unstarted, init, setRequest] at h
  · simpa [unstarted, init, setRequest, hqr] using h

theorem tally_init (q : ℕ) : (s.init q).tally r = s.tally r + if q = r then 1 else 0 := by
  have hcompletions : ((s.init q).requests r).completions = (s.requests r).completions := by
    by_cases hqr : r = q
    · subst hqr
      simp [init, setRequest]
    · simp [init, setRequest, hqr]
  unfold tally
  rw [hcompletions, attempts_init]
  change s.locker.waits r + _ + _ = _
  omega

theorem tally_setSessionToken (q : ℕ) (st : SessionTokenData) :
    (s.setSessionToken q st).tally r = s.tally r := by
  have hcompletions : ((s.setSessionToken q st).requests r).completions =
      (s.requests r).completions := by
    by_cases hqr : r = q
    · subst hqr
      simp [setSessionToken, setRequest]
    · simp [setSessionToken, setRequest, hqr]
  unfold tally
  rw [hcompletions]
  rfl

theorem unstarted_setSessionToken (q : ℕ) (st : SessionTokenData) :
    (s.setSessionToken q st).unstarted r = s.unstarted r := by
  by_cases hqr : r = q
  · subst hqr
    simp [unstarted, setSessionToken, setRequest]
  · simp [unstarted, setSessionToken, setRequest, hqr]

theorem tally_of_quiet (h : Quiet s s') : s'.tally r = s.tally r := by
  rw [State.tally, h.waits, h.attempts, h.requests, State.tally]

theorem tally_setLocker (s : State) (r : ℕ) (l : SessionMaintainerLocker) :
    (s.setLocker l).tally r + s.locker.waits r = s.tally r + l.waits r := by
  change l.waits r + s.attempts r + (s.requests r).completions + s.locker.waits r =
    s.locker.waits r + s.attempts r + (s.requests r).completions + l.waits r
  omega

theorem unstarted_exec (i : Instr) (h : (s.exec i).1.unstarted r = true) : s.unstarted r = true := by
  by_cases hwrites : i.writes = some r
  · cases i with
    | init q => exact unstarted_init q h
    | initWithToken q st =>
      have hinit := unstarted_init q h
      rwa [unstarted_setSessionToken] at hinit
    | completionCallback q =>
      cases hwrites
      simpa [exec, unstarted, setRequest] using h
    | _ => cases hwrites
  · rwa [unstarted, s.requests_exec hwrites] at h

/-- What an instruction does to the account of a request. -/
theorem tally_exec (s : State) (r : ℕ) (i : Instr) :
    (s.exec i).1.tally r + ((s.exec i).2.map (Instr.owes ((s.exec i).1.unstarted r) r)).sum +
        s.lost r i =
      s.tally r + i.owes ((s.exec i).1.unstarted r) r + s.gained r i := by
  by_cases hquiet : i.quiet = true
  · obtain ⟨hsame, hpushed⟩ := quiet_exec (s := s) hquiet
    rw [tally_of_quiet hsame, sum_owes_eq_zero hpushed]
    cases i <;> first | rfl | cases hquiet
  cases i with
  | addWaitingRequest q =>
    have hwaits := s.locker.waits_addWaitingRequest s.now (s.requests q).timeoutSeconds
      (s.requests q).usesSessionToken q r
    have htally := s.tally_setLocker r (s.locker.addWaitingRequest s.now
      (s.requests q).timeoutSeconds (s.requests q).usesSessionToken q)
    simp only [exec, List.map_nil, List.sum_nil, Instr.owes,
      lost, gained]
    omega
  | nextWaitingNonSessionTokenRequest =>
    rcases s.attemptNonSessionTokenRequest_cases with ⟨q, l, hl, heq⟩ | heq
    · have hwaits := SessionMaintainerLocker.waits_nextWaitingNonSt hl r
      have htally := s.tally_setLocker r l
      simp only [exec, heq, List.map_cons, List.map_nil, List.sum_cons, List.sum_nil, Instr.owes,
        lost, gained]
      omega
    · simp [exec, heq, Instr.owes, lost, gained]
  | nextWaitingSessionTokenRequest =>
    rcases s.attemptSessionTokenRequest_cases with ⟨q, st, l, hl, heq⟩ | heq
    · have hwaits := SessionMaintainerLocker.waits_nextWaitingSt hl r
      have htally := s.tally_setLocker r l
      simp only [exec, heq, List.map_cons, List.map_nil, List.sum_cons, List.sum_nil, Instr.owes,
        lost, gained]
      omega
    · simp [exec, heq, Instr.owes, lost, gained]
  | init q =>
    simp only [exec, tally_init, List.map_cons, List.map_nil, List.sum_cons, List.sum_nil,
      Instr.owes,
      lost, gained]
    omega
  | initWithToken q st =>
    simp only [exec, tally_init, tally_setSessionToken, List.map_cons, List.map_nil, List.sum_cons,
      List.sum_nil, Instr.owes,
      lost, gained]
    omega
  | moveInProgressToWaiting q a =>
    have hwaits := s.locker.waits_moveInProgressToWaiting (s.requests q).usesSessionToken q r
    have htally := s.tally_setLocker r
      (s.locker.moveInProgressToWaiting (s.requests q).usesSessionToken q)
    simp only [exec, List.map_nil, List.sum_nil, Instr.owes,
      lost, gained]
    omega
  | moveInProgressToDelayed q a =>
    have hwaits := s.locker.waits_moveInProgressToDelayed s.now 1 q r
    have htally := s.tally_setLocker r (s.locker.moveInProgressToDelayed s.now q 1)
    simp only [exec, List.map_nil, List.sum_nil, Instr.owes,
      lost, gained]
    omega
  | reuseToken q a newKey =>
    have hsame : Quiet s (s.exec (.reuseToken q a newKey)).1 :=
      ⟨s.locker.sameRequests_reuseToken (s.requests q).usesSessionToken q newKey, rfl, rfl, rfl, rfl⟩
    rw [tally_of_quiet hsame]
    simp [exec, Instr.owes, lost, gained]
  | addInProgressRequest q a | addInProgressRequestWithToken q a st | removeInProgressRequest q a
  | deleteCheckedOutToken q a | release rs =>
    rfl
  | retryOrComplete q a response =>
    simp only [exec]
    split_ifs <;> simp [Instr.owes, lost, gained]
  | completionAlert q a response =>
    change s.tally r + (List.map (Instr.owes (s.unstarted r) r) (if s.maintainerExists then
      handleCompletion q a response else [.cancel q])).sum + 0 = s.tally r + 0 +
      if q = r ∧ s.unstarted r = true ∧ s.maintainerExists = false then 1 else 0
    cases s.maintainerExists
    · simp [Instr.owes]
    · unfold handleCompletion
      split_ifs <;> simp_all [Instr.owes]
  | requestRetryAlert q a response =>
    change s.tally r + (List.map (Instr.owes (s.unstarted r) r) (if s.maintainerExists then
      handleRetryRequest q a response else [.cancel q])).sum +
      (if q = r ∧ s.unstarted r = false ∧ s.maintainerExists = false then 1 else 0) =
      s.tally r + (if q = r then 1 else 0) + 0
    cases s.maintainerExists
    · cases s.unstarted r <;> simp [Instr.owes]
    · unfold handleRetryRequest
      split_ifs <;> simp_all [Instr.owes]
  | completionCallback q =>
    by_cases hqr : q = r
    · subst hqr
      simp [exec, Instr.owes, tally, setRequest, attempts, lost, gained]
      omega
    · simp [exec, Instr.owes, tally, setRequest, attempts, lost, gained, hqr, Ne.symm hqr]
  | cancel q | fail q =>
    change s.tally r + (List.map (Instr.owes (s.unstarted r) r)
      (if (s.requests q).request = none then [.completionCallback q] else [])).sum + 0 =
      s.tally r + (if q = r ∧ s.unstarted r = true then 1 else 0) + 0
    by_cases hqr : q = r
    · subst hqr
      by_cases hnone : (s.requests q).request = none
      · simp [hnone, unstarted, Instr.owes]
      · simp [hnone, unstarted]
    · split_ifs <;> simp_all [Instr.owes]
  | handleTimedOutRequest q =>
    rcases s.handleTimedOutRequest_cases q with ⟨l, hl, heq⟩ | ⟨hl, heq⟩
    · have hwaits := SessionMaintainerLocker.waits_handleTimedOut hl r
      have htally := s.tally_setLocker r l
      have hunstarted : (s.setLocker l).unstarted r = s.unstarted r := rfl
      simp only [exec, heq, List.map_cons, List.map_nil, List.sum_cons, List.sum_nil, Instr.owes,
        lost, gained, hl, Option.isSome_some, hunstarted]
      by_cases hqr : q = r
      · subst hqr
        cases s.unstarted q <;> simp at hwaits ⊢ <;> omega
      · simp [hqr] at hwaits ⊢
        omega
    · simp [exec, heq, Instr.owes, lost, gained, hl]
  | stopTimeouts =>
    have hwaits := s.locker.waits_stopTimeouts r
    have htally := s.tally_setLocker r s.locker.stopTimeouts
    simp only [exec, List.map_nil, List.sum_nil, Instr.owes,
      lost, gained]
    omega
  | moveRequests =>
    have hwaits := s.locker.waits_moveRequests r
    have htally := s.tally_setLocker r s.locker.moveRequests
    change (s.setLocker s.locker.moveRequests).tally r +
      (List.map (Instr.owes (s.unstarted r) r)
        (s.locker.allRequests.map .cancel ++ [.release s.locker.allRequests])).sum +
      s.lost r .moveRequests = s.tally r + 0 + s.gained r .moveRequests
    rw [List.map_append, List.sum_append, sum_owes_cancel, List.map_cons, List.map_nil,
      List.sum_singleton, show Instr.owes (s.unstarted r) r
        (.release s.locker.allRequests) = 0 from rfl]
    simp only [lost, gained, SessionMaintainerLocker.allRequests, List.count_append]
    split_ifs <;> omega
  | _ => exact absurd rfl hquiet

theorem account_spawn (program : List Instr) :
    (s.spawn program).account r =
      s.account r + (program.map (Instr.owes (s.unstarted r) r)).sum := by
  change s.tally r + load (Instr.owes (s.unstarted r) r) (Threads.spawn program s.threads) = _
  rw [load_spawn, account]
  omega

end State

end MediafireSdk.Api
