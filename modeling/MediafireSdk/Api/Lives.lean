import MediafireSdk.Api.Stepping

/-! A request has one life: it waits at one place, has one attempt in flight or is in
the hands of one handler, from `Call` to the end of its last attempt. This holds
whatever the order of the steps. -/

namespace MediafireSdk.Api

open Threads

/-- The life of a request, which is at one place at a time, up to the end of its attempt. -/
def Instr.life (r : ℕ) : Instr → ℕ
  | .addWaitingRequest q | .init q | .initWithToken q _ | .moveInProgressToWaiting q _
  | .moveInProgressToDelayed q _ | .retryOrComplete q _ _ | .requestRetryAlert q _ _
  | .completionAlert q _ _ | .removeInProgressRequest q _ => if q = r then 1 else 0
  | _ => 0

theorem Instr.life_eq_zero {j : Instr} (h : j.requests = []) (r : ℕ) : j.life r = 0 := by
  cases j <;> first | rfl | cases h

theorem sum_life_eq_zero {program : List Instr} (h : ∀ j ∈ program, j.requests = []) (r : ℕ) :
    (program.map (Instr.life r)).sum = 0 := by
  apply List.sum_eq_zero
  intro n hn
  obtain ⟨j, hj, rfl⟩ := List.mem_map.mp hn
  exact Instr.life_eq_zero (h j hj) r

namespace State

variable {s s' : State} {r : ℕ}

def lives (s : State) (r : ℕ) : ℕ :=
  s.locker.waits r + s.attempts r + load (Instr.life r) s.threads

def OneLife (s : State) : Prop := ∀ r, s.lives r ≤ if r < s.called then 1 else 0

theorem mem_of_attempts_pos (h : 0 < s.attempts r) : ∃ a, (a, r) ∈ s.apiRequests := by
  obtain ⟨⟨a, q⟩, hmem, rfl⟩ := List.mem_map.mp (List.count_pos_iff.mp h)
  exact ⟨a, hmem⟩

theorem attempts_pos {a : ℕ} (h : (a, r) ∈ s.apiRequests) : 0 < s.attempts r :=
  List.count_pos_iff.mpr (List.mem_map_of_mem (f := Prod.snd) h)

/-- A request has no second life. -/
theorem life_exec (s : State) (r : ℕ) (i : Instr) :
    (s.exec i).1.locker.waits r + (s.exec i).1.attempts r +
        ((s.exec i).2.map (Instr.life r)).sum ≤
      s.locker.waits r + s.attempts r + i.life r := by
  by_cases hquiet : i.quiet = true
  · obtain ⟨hsame, hpushed⟩ := quiet_exec (s := s) hquiet
    rw [hsame.waits, hsame.attempts, sum_life_eq_zero hpushed]
    omega
  cases i with
  | addWaitingRequest q =>
    have hwaits := s.locker.waits_addWaitingRequest s.now (s.requests q).timeoutSeconds
      (s.requests q).usesSessionToken q r
    simp only [exec, setLocker_locker, attempts_setLocker, List.map_nil, List.sum_nil, Instr.life]
    omega
  | nextWaitingNonSessionTokenRequest =>
    rcases s.attemptNonSessionTokenRequest_cases with ⟨q, l, hl, heq⟩ | heq
    · have hwaits := SessionMaintainerLocker.waits_nextWaitingNonSt hl r
      simp only [exec, heq, setLocker_locker, attempts_setLocker, List.map_cons, List.map_nil,
        List.sum_cons, List.sum_nil, Instr.life]
      omega
    · simp [exec, heq, Instr.life]
  | nextWaitingSessionTokenRequest =>
    rcases s.attemptSessionTokenRequest_cases with ⟨q, st, l, hl, heq⟩ | heq
    · have hwaits := SessionMaintainerLocker.waits_nextWaitingSt hl r
      simp only [exec, heq, setLocker_locker, attempts_setLocker, List.map_cons, List.map_nil,
        List.sum_cons, List.sum_nil, Instr.life]
      omega
    · simp [exec, heq, Instr.life]
  | init q | initWithToken q st =>
    simp only [exec, init_locker, setSessionToken_locker, attempts_init, attempts_setSessionToken,
      List.map_cons, List.map_nil, List.sum_cons, List.sum_nil, Instr.life]
    omega
  | moveInProgressToWaiting q a =>
    have hwaits := s.locker.waits_moveInProgressToWaiting (s.requests q).usesSessionToken q r
    simp only [exec, setLocker_locker, attempts_setLocker, List.map_nil, List.sum_nil, Instr.life]
    omega
  | moveInProgressToDelayed q a =>
    have hwaits := s.locker.waits_moveInProgressToDelayed s.now 1 q r
    simp only [exec, setLocker_locker, attempts_setLocker, List.map_nil, List.sum_nil, Instr.life]
    omega
  | reuseToken q a newKey =>
    have hsame : Quiet s (s.exec (.reuseToken q a newKey)).1 :=
      ⟨s.locker.sameRequests_reuseToken (s.requests q).usesSessionToken q newKey, rfl, rfl, rfl, rfl⟩
    rw [hsame.waits, hsame.attempts]
    simp [exec, Instr.life]
  | addInProgressRequest q a | addInProgressRequestWithToken q a st | deleteCheckedOutToken q a
  | release rs | completionCallback q =>
    exact le_rfl
  | removeInProgressRequest q a => exact Nat.le_add_right _ _
  | retryOrComplete q a response =>
    simp only [exec]
    split_ifs <;> simp [Instr.life]
  | completionAlert q a response =>
    simp only [exec, handleCompletion]
    split_ifs <;> simp [Instr.life]
  | requestRetryAlert q a response =>
    simp only [exec, handleRetryRequest]
    split_ifs <;> simp [Instr.life]
  | cancel q | fail q =>
    simp only [exec]
    split_ifs <;> simp [Instr.life]
  | handleTimedOutRequest q =>
    rcases s.handleTimedOutRequest_cases q with ⟨l, hl, heq⟩ | ⟨-, heq⟩
    · have hwaits := SessionMaintainerLocker.waits_handleTimedOut hl r
      simp only [exec, heq, setLocker_locker, attempts_setLocker, List.map_cons, List.map_nil,
        List.sum_cons, List.sum_nil, Instr.life]
      omega
    · simp [exec, heq, Instr.life]
  | stopTimeouts =>
    have hwaits := s.locker.waits_stopTimeouts r
    simp only [exec, setLocker_locker, attempts_setLocker, List.map_nil, List.sum_nil, Instr.life]
    omega
  | moveRequests =>
    have hwaits := s.locker.waits_moveRequests r
    have hcancels : ((s.locker.allRequests.map Instr.cancel).map (Instr.life r)).sum = 0 := by
      rw [List.map_map]
      exact List.sum_eq_zero (by simp [Instr.life])
    simp only [exec, setLocker_locker, attempts_setLocker, List.map_append, List.sum_append,
      hcancels, List.map_cons, List.map_nil, List.sum_cons, List.sum_nil, Instr.life]
    omega
  | _ => exact absurd rfl hquiet

/-- A handler starts, with requests taken from where they waited. -/
theorem OneLife.starts (h : OneLife s) {t : State} {program : List Instr}
    (hthreads : t.threads = s.threads) (hcalled : t.called = s.called)
    (hlife : ∀ r, t.locker.waits r + t.attempts r + (program.map (Instr.life r)).sum ≤
      s.locker.waits r + s.attempts r) : OneLife (t.spawn program) := by
  intro r
  have hbefore := h r
  have hmoved := hlife r
  change t.locker.waits r + t.attempts r + load (Instr.life r)
    (Threads.spawn program t.threads) ≤ if r < t.called then 1 else 0
  rw [load_spawn, hthreads, hcalled]
  unfold lives at hbefore
  omega

theorem spawn_nil : s.spawn [] = s := by
  rw [State.spawn, Threads.spawn, if_pos rfl]

theorem OneLife.step {a : Act} (h : OneLife s) (hs : s.step a = some s') : OneLife s' := by
  cases moves_of_step hs with
  | quiet program hquiet hthreads hprogram =>
    have hstarts : OneLife (State.spawn { s' with threads := s.threads } program) := by
      refine h.starts rfl hquiet.called fun r => ?_
      have hw := hquiet.waits r
      have ha := hquiet.attempts r
      change s'.locker.waits r + s'.attempts r + _ ≤ _
      rw [sum_life_eq_zero hprogram]
      omega
    rwa [State.spawn, ← hthreads] at hstarts
  | call uses hexists =>
    intro r
    have hbefore := h r
    change s.locker.waits r + s.attempts r + load (Instr.life r)
      (Threads.spawn [.addWaitingRequest s.called, .attemptRequests] s.threads) ≤
        if r < s.called + 1 then 1 else 0
    rw [load_spawn]
    unfold lives at hbefore
    simp only [List.map_cons, List.map_nil, List.sum_cons, List.sum_nil, Instr.life]
    split_ifs at hbefore ⊢ <;> omega
  | cancelRequest q hheld => exact h.starts rfl rfl fun r => le_rfl
  | dropRequest q hheld => exact h
  | apiResponse n q response hmem =>
    have hattempts (r : ℕ) := attempts_answered hmem r
    unfold State.apiResponse
    split_ifs
    · refine h.starts rfl rfl fun r => ?_
      have hr := hattempts r
      change s.locker.waits r + _ + _ ≤ _
      simp only [List.map_cons, List.map_nil, List.sum_cons, List.sum_nil, Instr.life]
      omega
    · rw [← spawn_nil (s := s.answered n q)]
      refine h.starts rfl rfl fun r => ?_
      have hr := hattempts r
      change s.locker.waits r + (s.answered n q).attempts r + 0 ≤ _
      omega
  | delayedFires q l hexists hl =>
    refine h.starts rfl rfl fun r => ?_
    have hr := SessionMaintainerLocker.waits_nextDelayed hl r
    simp only [setLocker_locker, attempts_setLocker, List.map_cons, List.map_nil, List.sum_cons,
      List.sum_nil, Instr.life]
    omega
  | timeoutFires q l hexists hl =>
    have hquiet : Quiet s (s.setLocker l) :=
      ⟨SessionMaintainerLocker.sameRequests_nextTimedOutRequest hl, rfl, rfl, rfl, rfl⟩
    unfold State.timeoutFires
    split_ifs
    · exact h.starts rfl rfl fun r => by rw [hquiet.waits, hquiet.attempts]; exact le_rfl
    · rw [← spawn_nil (s := s.setLocker l)]
      exact h.starts rfl rfl fun r => by rw [hquiet.waits, hquiet.attempts]; exact le_rfl
  | destroy hexists hout => exact h.starts rfl rfl fun r => le_rfl
  | run k i rest hk =>
    intro r
    have hbefore := h r
    have hexec := s.life_exec r i
    have hload := (stepped_runThread hk).load (Instr.life r)
    change (s.exec i).1.locker.waits r + (s.exec i).1.attempts r + load (Instr.life r)
      (s.runThread k i rest).threads ≤ if r < (s.exec i).1.called then 1 else 0
    rw [(s.frame_exec i).called]
    unfold lives at hbefore
    omega

theorem oneLife_created : OneLife created := fun _ => Nat.zero_le _

/-- A handler holds only requests that were handed to `Call`. -/
theorem OneLife.lt_called (h : OneLife s) {i : Instr} (hi : i ∈ pending s.threads)
    (hlife : i.life r = 1) : r < s.called := by
  have hbefore := h r
  have hle := le_load (Instr.life r) hi
  unfold lives at hbefore
  split_ifs at hbefore with hr
  · exact hr
  · omega

end State

end MediafireSdk.Api
