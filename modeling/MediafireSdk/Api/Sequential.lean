import MediafireSdk.Api.GiveBack
import MediafireSdk.Api.Tokens

/-! Handlers that run one at a time. A handler goes through stages: it takes a request
out, gives its token back and attempts requests, or reads the session state, acts
on it and attempts requests. What carries a token or is about to be recorded comes
first in its program. -/

namespace MediafireSdk.Api

open Threads Runs

/-! ### Stages of a handler -/

/-- The stage an instruction belongs to; what goes on with something taken comes first. -/
def Instr.first : Instr → ℕ
  | .removeInProgressRequest _ _ | .moveInProgressToWaiting _ _ | .moveInProgressToDelayed _ _
  | .compareCredentials _ _ _ | .getFailureCount _ _ _ _ _ | .addSessionToken _ _ _ _
  | .setSessionStateSafe _ _ _ | .retryOrComplete _ _ _ | .completionAlert _ _ _
  | .requestRetryAlert _ _ _ => 1
  | .deleteCheckedOutToken _ _ | .reuseToken _ _ _ => 2
  | .attemptRequests | .attemptConnection | .nextWaitingNonSessionTokenRequest | .whileRunning
  | .nextWaitingSessionTokenRequest | .requestNeededSessionTokens _ | .getCredentials _
  | .tryRequestSessionToken _ _ | .attemptIfConnected | .waitFailureTimer => 3
  | .completionCallback _ | .cancel _ | .fail _ | .handleTimedOutRequest _ | .moveRequests
  | .release _ => 4
  | _ => 0

/-- The last stage that an instruction may lead to. -/
def Instr.last : Instr → ℕ
  | .addWaitingRequest _ | .setConnectionState _ | .expireRecheckTimer | .waitRecheckTimer
  | .incrementFailureCount | .resetFailureCount | .expireFailureTimer _
  | .completionNotification _ | .stopTimeouts => 0
  | .removeInProgressRequest _ _ | .moveInProgressToWaiting _ _
  | .moveInProgressToDelayed _ _ => 1
  | .deleteCheckedOutToken _ _ | .reuseToken _ _ _ | .compareCredentials _ _ _
  | .getFailureCount _ _ _ _ _ | .addSessionToken _ _ _ _ | .setSessionStateSafe _ _ _ => 2
  | .retryOrComplete _ _ _ | .completionAlert _ _ _ | .requestRetryAlert _ _ _
  | .completionCallback _ | .cancel _ | .fail _ | .handleTimedOutRequest _ | .moveRequests
  | .release _ => 4
  | _ => 3

namespace State

variable {s s' : State}

/-- A handler starts only where none is left. -/
def OneAtATime (s : State) (a : Act) (_ : State) : Prop := a.starts = true → s.threads = []

/-- Whether a handler starts while another is left. -/
def oneAtATime (s : State) (a : Act) : Bool := !a.starts || s.threads.isEmpty

theorem oneAtATime_of_check (s : State) (a : Act) (s' : State) (h : s.oneAtATime a = true) :
    OneAtATime s a s' := by
  intro hstarts
  simpa [oneAtATime, hstarts] using h

structure InOrder (s : State) : Prop where
  alone : s.threads.length ≤ 1
  staged : Staged Instr.first Instr.last s.threads

/-- A program whose instructions lead to no stage beyond `bound`. -/
abbrev Leads (bound : ℕ) (program : List Instr) : Prop :=
  InStages Instr.first Instr.last bound program

theorem last_updateConnectionState (ec : Option ErrorCode) :
    ∀ j ∈ updateConnectionState ec, j.last = 0 := by
  unfold updateConnectionState
  split
  · exact List.forall_mem_singleton.mpr rfl
  · split_ifs
    · exact List.forall_mem_cons.mpr ⟨rfl, List.forall_mem_cons.mpr ⟨rfl,
        List.forall_mem_singleton.mpr rfl⟩⟩
    · exact List.forall_mem_singleton.mpr rfl

theorem leads_failToken (response : TokenResponse) (ec : ErrorCode) (c : Credentials)
    (state : SessionState) (count : ℕ) : Leads 2 (failToken response ec c state count) := by
  unfold failToken
  by_cases hinvalid : ec.isInvalidCredentialsError = true
  · rw [if_pos hinvalid, failCredentials]
    by_cases hstate : (!state.isUninitialized && !state.isCredentialsError) = true
    · rw [if_pos hstate]
      exact inStages_two (Nat.zero_le _) (Nat.zero_le _) le_rfl
    · rw [if_neg hstate]
      exact inStages_one (Nat.zero_le _)
  · rw [if_neg hinvalid]
    exact inStages_two (Nat.zero_le _) (Nat.zero_le _) le_rfl

theorem leads_finishToken (response : TokenResponse) (c : Credentials) (state : SessionState)
    (count : ℕ) : Leads 3 (finishToken response c state count) := by
  unfold finishToken
  split
  next ec _ =>
    have hfail := leads_failToken response ec c state count
    refine InStages.append ((hfail.mono (by decide)).cons (Nat.zero_le _) fun _ _ => Nat.zero_le _)
      (inStages_one le_rfl) fun i hi j hj => ?_
    rw [List.mem_singleton.mp hj]
    rcases List.mem_cons.mp hi with rfl | hi
    · exact Nat.zero_le _
    · exact (hfail.bounded i hi).trans (Nat.le_succ 2)
  next =>
    exact InStages.cons (inStages_two (Nat.le_succ 2) (Nat.le_succ 2) le_rfl) (Nat.zero_le _)
      fun _ _ => Nat.zero_le _

/-- The request goes out of its set, its token out of the map, and requests are attempted. -/
theorem leads_answer {i j : Instr} (hi : i.last = 1) (hj : j.first = 2) (hj' : j.last = 2) :
    Leads 4 [i, j, .attemptRequests] := by
  refine InStages.cons (inStages_two (hj'.trans_le (Nat.le_succ 2)) (by omega) (Nat.le_succ 3))
    (by omega) fun j' hmem => ?_
  rcases List.mem_pair.mp hmem with rfl | rfl
  · omega
  · exact hi.trans_le (by decide)

/-- What an instruction leads to is in stages, up to its last one. -/
theorem leads_exec (s : State) (i : Instr) : Leads i.last (s.exec i).2 := by
  cases i with
  | nextWaitingNonSessionTokenRequest =>
    rcases s.attemptNonSessionTokenRequest_cases with ⟨q, l, -, heq⟩ | heq <;>
      simp only [exec, heq]
    · exact inStages_two le_rfl le_rfl le_rfl
    · exact inStages_one le_rfl
  | nextWaitingSessionTokenRequest =>
    rcases s.attemptSessionTokenRequest_cases with ⟨q, st, l, -, heq⟩ | heq <;>
      simp only [exec, heq]
    · exact inStages_two le_rfl le_rfl le_rfl
    · exact inStages_one le_rfl
  | tryRequestSessionToken c loop =>
    rcases s.tryRequestSessionToken_cases c loop with ⟨l, -, heq⟩ | heq <;> simp only [exec, heq]
    · cases loop with
      | true => exact inStages_two le_rfl le_rfl le_rfl
      | false => exact inStages_one le_rfl
    · exact inStages_nil
  | addSessionToken response c state count =>
    rcases s.addSessionToken_cases response c state count with ⟨l, -, heq⟩ | ⟨-, heq⟩ <;>
      simp only [exec, heq]
    · split_ifs
      · exact inStages_one le_rfl
      · exact inStages_nil
    · exact inStages_nil
  | handleTimedOutRequest q =>
    rcases s.handleTimedOutRequest_cases q with ⟨l, -, heq⟩ | ⟨-, heq⟩ <;> simp only [exec, heq]
    · exact inStages_one le_rfl
    · exact inStages_nil
  | getSessionState response c =>
    have hconnection := last_updateConnectionState response.errorCode
    exact (inStages_of_last_eq_zero hconnection).append (leads_finishToken _ _ _ _)
      fun j hj j' _ => (hconnection j hj).symm ▸ Nat.zero_le _
  | completionNotification ec =>
    simp only [exec]
    split_ifs
    · exact inStages_of_last_eq_zero (last_updateConnectionState ec)
    · exact inStages_nil
  | retryOrComplete q a response =>
    simp only [exec]
    split_ifs
    · exact inStages_one le_rfl
    · exact inStages_two le_rfl le_rfl le_rfl
  | completionAlert q a response =>
    simp only [exec, handleCompletion]
    split_ifs
    · exact leads_answer rfl rfl rfl
    · exact leads_answer rfl rfl rfl
    · exact inStages_one le_rfl
  | requestRetryAlert q a response =>
    simp only [exec, handleRetryRequest]
    split_ifs
    · exact leads_answer rfl rfl rfl
    · exact leads_answer rfl rfl rfl
    · exact inStages_one le_rfl
  | moveRequests =>
    have hall : ∀ j ∈ (s.exec .moveRequests).2, j.first = 4 ∧ j.last = 4 := by
      intro j hj
      rcases List.mem_append.mp hj with hj | hj
      · obtain ⟨r, -, rfl⟩ := List.mem_map.mp hj
        exact ⟨rfl, rfl⟩
      · rw [List.mem_singleton.mp hj]
        exact ⟨rfl, rfl⟩
    exact ⟨List.pairwise_of_forall_mem_list fun i hi j hj =>
      ((hall i hi).2.trans (hall j hj).1.symm).le, fun j hj => (hall j hj).2.le⟩
  | getCredentials haveBadCredentials =>
    simp only [exec]
    split
    · exact inStages_one le_rfl
    · exact inStages_nil
  | attemptRequests | whileRunning =>
    simp only [exec]
    split_ifs <;> exact inStages_one le_rfl
  | requestNeededSessionTokens _ | attemptIfConnected | compareCredentials _ _ _
  | getFailureCount _ _ _ _ _ | cancel _ | fail _ =>
    simp only [exec]
    split_ifs
    · exact inStages_one le_rfl
    · exact inStages_nil
  | init q | initWithToken q st | handleSessionTokenResponse response c => exact inStages_one le_rfl
  | _ => exact inStages_nil

/-! ### Handlers one at a time -/

theorem inOrder_created : InOrder created := ⟨Nat.zero_le _, fun _ h => by cases h⟩

theorem InOrder.congr (h : InOrder s) (hthreads : s'.threads = s.threads) : InOrder s' :=
  ⟨hthreads ▸ h.alone, hthreads ▸ h.staged⟩

/-- A handler starts alone. -/
theorem InOrder.starts (program : List Instr) (hnone : s.threads = [])
    (hthreads : s'.threads = Threads.spawn program s.threads) (hprogram : Leads 4 program) :
    InOrder s' := by
  rw [hnone] at hthreads
  refine ⟨?_, ?_⟩
  · rw [hthreads, Threads.spawn]
    split_ifs <;> simp
  · rw [hthreads]
    exact Staged.spawn (fun _ h => by cases h) hprogram

theorem InOrder.step {a : Act} (h : InOrder s) (hguard : s.OneAtATime a s')
    (hs : s.step a = some s') : InOrder s' := by
  unfold State.step at hs
  split_ifs at hs
  cases a with
  | setLoginCredentials c =>
    cases hs
    exact InOrder.starts [.setCredentials c, .attemptRequests] (hguard rfl) rfl
      (inStages_two le_rfl (Nat.le_succ 3) (Nat.le_succ 3))
  | call usesSessionToken =>
    cases hs
    exact InOrder.starts [.addWaitingRequest s.called, .attemptRequests] (hguard rfl) rfl
      (inStages_two (Nat.zero_le _) (Nat.zero_le _) (Nat.le_succ 3))
  | setTimeoutSeconds timeoutSeconds | clock ms =>
    cases hs
    exact h.congr rfl
  | cancelRequest r =>
    simp only [act] at hs
    split_ifs at hs
    cases hs
    exact InOrder.starts [.cancel r] (hguard rfl) rfl (inStages_one le_rfl)
  | dropRequest r =>
    simp only [act] at hs
    split_ifs at hs
    cases hs
    exact h.congr rfl
  | apiResponse n r response =>
    simp only [act] at hs
    split_ifs at hs
    cases hs
    unfold apiResponse
    split_ifs
    · exact InOrder.starts [.completionNotification response.errorCode, .retryOrComplete r n response]
        (hguard rfl) rfl (inStages_two (Nat.zero_le _) (Nat.zero_le _) le_rfl)
    · exact h.congr rfl
  | tokenResponse n c response =>
    simp only [act] at hs
    split_ifs at hs
    cases hs
    by_cases hmaintainer : s.maintainerExists = true
    · rw [State.tokenResponse, if_pos hmaintainer]
      exact InOrder.starts [.handleSessionTokenResponse response c] (hguard rfl) rfl
        (inStages_one (Nat.le_succ 3))
    · rw [State.tokenResponse, if_neg hmaintainer]
      exact h.congr rfl
  | statusResponse n ec =>
    simp only [act] at hs
    split_ifs at hs
    cases hs
    have hconnection := last_updateConnectionState ec
    unfold statusResponse
    split_ifs
    · exact InOrder.starts _ (hguard rfl) rfl ((inStages_of_last_eq_zero hconnection).append
        (inStages_one (Nat.le_succ 3)) fun j hj _ _ => (hconnection j hj).symm ▸ Nat.zero_le _)
    · exact h.congr rfl
  | failureTimerExpires | recheckTimerExpires =>
    obtain ⟨t, -, rfl⟩ := Option.map_eq_some_iff.mp hs
    exact h.congr rfl
  | failureTimerFires =>
    obtain ⟨t, -, rfl⟩ := Option.map_eq_some_iff.mp hs
    exact InOrder.starts [.attemptRequests, .requestNeededSessionTokens true] (hguard rfl) rfl
      (inStages_two le_rfl (Nat.le_succ 3) (Nat.le_succ 3))
  | recheckTimerFires =>
    obtain ⟨t, -, rfl⟩ := Option.map_eq_some_iff.mp hs
    exact InOrder.starts [.attemptRequests] (hguard rfl) rfl (inStages_one (Nat.le_succ 3))
  | delayedFires =>
    obtain ⟨⟨r, l⟩, -, rfl⟩ := Option.map_eq_some_iff.mp hs
    exact InOrder.starts (s := s.setLocker l) [.addWaitingRequest r, .attemptRequests]
      (hguard rfl) rfl (inStages_two (Nat.zero_le _) (Nat.zero_le _) (Nat.le_succ 3))
  | timeoutFires =>
    obtain ⟨⟨r, l⟩, -, rfl⟩ := Option.map_eq_some_iff.mp hs
    change InOrder (s.timeoutFires r l)
    unfold State.timeoutFires
    split_ifs
    · exact InOrder.starts (s := s.setLocker l) [.handleTimedOutRequest r] (hguard rfl) rfl
        (inStages_one le_rfl)
    · exact h.congr rfl
  | stopTimeouts =>
    cases hs
    exact InOrder.starts [.stopTimeouts] (hguard rfl) rfl (inStages_one (Nat.zero_le _))
  | destroy =>
    simp only [act] at hs
    split_ifs at hs
    cases hs
    exact InOrder.starts (s := s.destroy) [.stopTimeouts, .moveRequests] (hguard rfl) rfl
      (inStages_two (Nat.zero_le _) (Nat.zero_le _) le_rfl)
  | run k =>
    simp only [act] at hs
    split at hs
    · rename_i i rest hk
      cases hs
      exact ⟨(length_resume_le _).trans h.alone, h.staged.resume hk (s.leads_exec i)⟩
    · cases hs

/-- The thread that runs is the only one, and goes on with what its instruction left. -/
theorem InOrder.pending_runThread (h : InOrder s) {k : ℕ} {i : Instr} {rest : List Instr}
    (hk : s.threads[k]? = some (i :: rest)) :
    pending s.threads = i :: rest ∧
      pending (s.runThread k i rest).threads = (s.exec i).2 ++ rest := by
  refine ⟨?_, pending_resume_of_alone h.alone hk _⟩
  rw [eq_of_alone h.alone hk]
  exact List.append_nil _

end State

end MediafireSdk.Api
