import MediafireSdk.Api.Accounts

/-! At most one completion callback. No step adds to the account of a request, except
that the user cancels a request without an attempt: then its callback is called and
the request stays where it is. What is in progress has had an attempt, so that the
destructor and the alerts behind it cancel no request without one. -/

namespace MediafireSdk.Api

open Threads Runs

/-- The request that an instruction follows an attempt of. -/
def Instr.attempted : Instr → Option ℕ
  | .addInProgressRequest q _ | .addInProgressRequestWithToken q _ _ | .retryOrComplete q _ _
  | .completionAlert q _ _ | .requestRetryAlert q _ _ => some q
  | _ => none

theorem Instr.attempted_eq_none {j : Instr} (h : j.requests = []) : j.attempted = none := by
  cases j <;> first | rfl | cases h

namespace State

variable {s s' : State} {r : ℕ}

/-- There is, or just was, an attempt of the request. -/
def Attempted (s : State) (r : ℕ) : Prop :=
  r ∈ s.locker.inProgressRequests ∨ (∃ i ∈ pending s.threads, i.attempted = some r) ∨
    ∃ a, (a, r) ∈ s.apiRequests

/-- The account of a request is at most one. -/
structure CalledOnce (s : State) : Prop where
  account : ∀ r, s.account r ≤ if r < s.called then 1 else 0
  attempted : ∀ r, s.Attempted r → s.unstarted r = false
  fresh : ∀ r, s.called ≤ r → s.requests r = {}

/-- The completion callback of every request was called at most once. -/
def AtMostOnce (s : State) : Prop := ∀ r, (s.requests r).completions ≤ 1

/-- The user cancels only requests that have had an attempt. -/
def CancelsStarted (s : State) (a : Act) (_ : State) : Prop :=
  ∀ r, a = .cancelRequest r → (s.requests r).request ≠ none

theorem CalledOnce.atMostOnce (h : CalledOnce s) : s.AtMostOnce := by
  intro r
  have haccount := h.account r
  unfold State.account tally at haccount
  split_ifs at haccount <;> omega

theorem Attempted.of_pending {i : Instr} (hi : i ∈ pending s.threads) (hr : i.attempted = some r) :
    s.Attempted r := Or.inr (Or.inl ⟨i, hi, hr⟩)

/-! ### One instruction -/

theorem CalledOnce.gained_eq_zero (h : CalledOnce s) {i : Instr} (hi : i ∈ pending s.threads) :
    s.gained r i = 0 := by
  cases i with
  | completionAlert q a response =>
    refine if_neg ?_
    rintro ⟨rfl, hunstarted, -⟩
    rw [h.attempted q (.of_pending hi rfl)] at hunstarted
    exact Bool.false_ne_true hunstarted
  | moveRequests =>
    unfold gained
    split_ifs with hunstarted
    · apply List.count_eq_zero_of_not_mem
      intro hmem
      rw [h.attempted r (Or.inl hmem)] at hunstarted
      exact Bool.false_ne_true hunstarted
    · rfl
  | _ => rfl

theorem mem_inProgress_exec {i : Instr} (h : r ∈ (s.exec i).1.locker.inProgressRequests) :
    r ∈ s.locker.inProgressRequests ∨ i.attempted = some r := by
  cases hmoves : i.movesInProgress with
  | false => exact Or.inl (s.inProgress_exec hmoves ▸ h)
  | true =>
    cases i with
    | addInProgressRequest q a | addInProgressRequestWithToken q a st =>
      exact (Table.mem_add.mp h).symm.imp_right fun hr => congrArg some hr.symm
    | removeInProgressRequest q a | moveInProgressToDelayed q a =>
      exact Or.inl (Table.mem_erase.mp h).2
    | moveInProgressToWaiting q a =>
      change r ∈ (SessionMaintainerLocker.pushWaiting _ _ _).inProgressRequests at h
      rw [SessionMaintainerLocker.inProgress_pushWaiting] at h
      exact Or.inl (Table.mem_erase.mp h).2
    | moveRequests => cases h
    | _ => cases hmoves

/-- An attempt is followed up to the alerts. -/
theorem attempted_pushed {i j : Instr} (hj : j ∈ (s.exec i).2) (hr : j.attempted = some r) :
    i.attempted = some r ∨ (s.exec i).1.unstarted r = false := by
  by_cases hquiet : i.quiet = true
  · rw [Instr.attempted_eq_none ((quiet_exec hquiet).2 j hj)] at hr
    cases hr
  cases i with
  | init q | initWithToken q st =>
    rw [List.mem_singleton.mp hj] at hr
    cases hr
    exact Or.inr (by simp [exec, unstarted, init, setRequest])
  | nextWaitingNonSessionTokenRequest =>
    rcases s.attemptNonSessionTokenRequest_cases with ⟨q, l, -, heq⟩ | heq <;>
      simp only [exec, heq] at hj <;> simp at hj <;> rcases hj with rfl | rfl <;> cases hr
  | nextWaitingSessionTokenRequest =>
    rcases s.attemptSessionTokenRequest_cases with ⟨q, st, l, -, heq⟩ | heq <;>
      simp only [exec, heq] at hj <;> simp at hj <;> rcases hj with rfl | rfl <;> cases hr
  | handleTimedOutRequest q =>
    rcases s.handleTimedOutRequest_cases q with ⟨l, -, heq⟩ | ⟨-, heq⟩ <;>
      simp only [exec, heq] at hj <;> simp at hj
    rw [hj] at hr
    cases hr
  | retryOrComplete q a response =>
    refine Or.inl ?_
    simp only [exec] at hj
    split_ifs at hj
    · rw [List.mem_singleton.mp hj] at hr
      exact hr
    · rcases List.mem_pair.mp hj with rfl | rfl
      · exact hr
      · cases hr
  | completionAlert q a response =>
    simp only [exec, handleCompletion] at hj
    split_ifs at hj <;> simp at hj <;> rcases hj with rfl | rfl | rfl <;> cases hr
  | requestRetryAlert q a response =>
    simp only [exec, handleRetryRequest] at hj
    split_ifs at hj <;> simp at hj <;> rcases hj with rfl | rfl | rfl <;> cases hr
  | cancel q | fail q =>
    simp only [exec] at hj
    split_ifs at hj
    · rw [List.mem_singleton.mp hj] at hr
      cases hr
    · cases hj
  | moveRequests =>
    rcases List.mem_append.mp hj with hj | hj
    · obtain ⟨q, -, rfl⟩ := List.mem_map.mp hj
      cases hr
    · rw [List.mem_singleton.mp hj] at hr
      cases hr
  | _ => first | exact absurd rfl hquiet | cases hj

theorem mem_apiRequests_exec {i : Instr} {a : ℕ} (h : (a, r) ∈ (s.exec i).1.apiRequests) :
    (a, r) ∈ s.apiRequests ∨ (s.exec i).1.unstarted r = false := by
  cases i with
  | init q | initWithToken q st =>
    rcases List.mem_append.mp h with h | h
    · exact Or.inl h
    · cases List.mem_singleton.mp h
      exact Or.inr (by simp [exec, unstarted, init, setRequest])
  | _ =>
    rw [s.apiRequests_exec (by simp) (by simp)] at h
    exact Or.inl h

/-! ### Steps -/

theorem attempted_spawn {program : List Instr} :
    (s.spawn program).Attempted r ↔
      s.Attempted r ∨ ∃ j ∈ program, j.attempted = some r := by
  have hpending : (∃ i ∈ pending (s.spawn program).threads, i.attempted = some r) ↔
      (∃ i ∈ pending s.threads, i.attempted = some r) ∨ ∃ j ∈ program, j.attempted = some r := by
    simp only [State.spawn, mem_pending_spawn, or_and_right, exists_or]
  unfold Attempted
  rw [hpending]
  change r ∈ s.locker.inProgressRequests ∨ _ ∨ (∃ a, (a, r) ∈ s.apiRequests) ↔ _
  generalize (∃ i ∈ pending s.threads, i.attempted = some r) = p
  generalize (∃ j ∈ program, j.attempted = some r) = q
  generalize (∃ a, (a, r) ∈ s.apiRequests) = t
  tauto

/-- What a handler adds at its start has to be in the accounts. -/
theorem CalledOnce.spawn (h : CalledOnce s) {program : List Instr}
    (howes : ∀ r, s.account r + (program.map (Instr.owes (s.unstarted r) r)).sum ≤
      if r < s.called then 1 else 0)
    (hattempted : ∀ r, ∀ j ∈ program, j.attempted = some r → s.unstarted r = false) :
    CalledOnce (s.spawn program) where
  account r := by
    rw [account_spawn]
    exact howes r
  attempted r hr := by
    rcases attempted_spawn.mp hr with hr | ⟨j, hj, hr⟩
    · exact h.attempted r hr
    · exact hattempted r j hj hr
  fresh := h.fresh

/-- Programs without requests. -/
theorem CalledOnce.spawn_quiet (h : CalledOnce s) {program : List Instr}
    (hprogram : ∀ j ∈ program, j.requests = []) : CalledOnce (s.spawn program) := by
  refine h.spawn (fun r => ?_) fun r j hj hr => ?_
  · rw [sum_owes_eq_zero hprogram]
    exact h.account r
  · rw [Instr.attempted_eq_none (hprogram j hj)] at hr
    cases hr

/-- Only what the accounts are made of matters. -/
theorem CalledOnce.congr (h : CalledOnce s) (hwaits : ∀ r, s'.locker.waits r ≤ s.locker.waits r)
    (hinProgress : s'.locker.inProgressRequests = s.locker.inProgressRequests)
    (hrequests : ∀ r, (s'.requests r).request = (s.requests r).request ∧
      (s'.requests r).completions = (s.requests r).completions)
    (hfresh : ∀ r, s.called ≤ r → s'.requests r = s.requests r)
    (hapi : ∀ f, f ∈ s'.apiRequests → f ∈ s.apiRequests)
    (hattempts : ∀ r, s'.attempts r ≤ s.attempts r)
    (hcalled : s'.called = s.called) (hthreads : s'.threads = s.threads) : CalledOnce s' where
  account r := by
    have hunstarted : s'.unstarted r = s.unstarted r := by
      rw [unstarted, (hrequests r).1, unstarted]
    have haccount := h.account r
    have hw := hwaits r
    have ha := hattempts r
    have hc := (hrequests r).2
    unfold State.account tally at haccount ⊢
    rw [hunstarted, hthreads, hcalled, hc]
    omega
  attempted r hr := by
    rw [unstarted, (hrequests r).1]
    refine h.attempted r ?_
    unfold Attempted at hr ⊢
    rw [hinProgress, hthreads] at hr
    refine hr.imp_right (Or.imp_right ?_)
    rintro ⟨a, ha⟩
    exact ⟨a, hapi _ ha⟩
  fresh r hr := by
    rw [hcalled] at hr
    rw [hfresh r hr, h.fresh r hr]

/-- A new request has an empty account. -/
theorem CalledOnce.account_eq_zero (h : CalledOnce s) (hr : s.called ≤ r) : s.account r = 0 := by
  have haccount := h.account r
  rw [if_neg (not_lt.mpr hr)] at haccount
  exact Nat.le_zero.mp haccount

theorem CalledOnce.call (h : CalledOnce s) (uses : Bool) : CalledOnce (s.call uses) := by
  have hrequests (r : ℕ) : ((s.create uses).requests r).request = (s.requests r).request ∧
      ((s.create uses).requests r).completions = (s.requests r).completions := by
    by_cases hr : r = s.called
    · subst hr
      rw [h.fresh s.called le_rfl]
      simp [State.create, setRequest, newRequest]
    · simp [State.create, setRequest, hr]
  have hunstarted (r : ℕ) : (s.create uses).unstarted r = s.unstarted r := by
    rw [unstarted, (hrequests r).1, unstarted]
  have haccount (r : ℕ) : (s.create uses).account r = s.account r := by
    unfold State.account tally
    rw [hunstarted, (hrequests r).2]
    rfl
  constructor
  · intro r
    have hle := h.account r
    change ((s.create uses).spawn _).account r ≤ if r < s.called + 1 then 1 else 0
    rw [account_spawn, haccount]
    simp only [List.map_cons, List.map_nil, List.sum_cons, List.sum_nil, Instr.owes]
    by_cases hr : s.called = r
    · subst hr
      rw [h.account_eq_zero le_rfl, if_pos rfl, if_pos (Nat.lt_succ_self _)]
      omega
    · rw [if_neg hr]
      split_ifs at hle ⊢ <;> omega
  · intro r hr
    rcases attempted_spawn.mp hr with hr | ⟨j, hj, hr⟩
    · change (s.create uses).unstarted r = false
      rw [hunstarted]
      exact h.attempted r hr
    · rcases List.mem_pair.mp hj with rfl | rfl <;> cases hr
  · intro r hr
    change s.called + 1 ≤ r at hr
    have hne : r ≠ s.called := by omega
    change (s.create uses).requests r = {}
    rw [State.create, setRequest]
    exact (Function.update_of_ne hne _ _).trans (h.fresh r (by omega))

theorem CalledOnce.apiResponse (h : CalledOnce s) {n q : ℕ} (response : ApiResponse)
    (hmem : (n, q) ∈ s.apiRequests) : CalledOnce (s.apiResponse n q response) := by
  have hattempts (r : ℕ) := attempts_answered hmem r
  have hanswered : CalledOnce (s.answered n q) :=
    h.congr (fun _ => le_rfl) rfl (fun _ => ⟨rfl, rfl⟩) (fun _ _ => rfl)
      (fun f hf => List.mem_of_mem_erase hf) (fun r => by have := hattempts r; omega) rfl rfl
  unfold State.apiResponse
  split_ifs
  · refine hanswered.spawn (fun r => ?_) fun r j hj hr => ?_
    · have haccount := h.account r
      have hsame : (s.answered n q).account r + (if q = r then 1 else 0) = s.account r := by
        have hr := hattempts r
        have htally : (s.answered n q).tally r + (if q = r then 1 else 0) = s.tally r := by
          change s.locker.waits r + (s.answered n q).attempts r + (s.requests r).completions + _ =
            s.locker.waits r + s.attempts r + (s.requests r).completions
          omega
        change (s.answered n q).tally r + load (Instr.owes (s.unstarted r) r) s.threads + _ =
          s.tally r + load (Instr.owes (s.unstarted r) r) s.threads
        omega
      simp only [List.map_cons, List.map_nil, List.sum_cons, List.sum_nil, Instr.owes]
      change _ ≤ if r < s.called then 1 else 0
      omega
    · rcases List.mem_pair.mp hj with rfl | rfl
      · cases hr
      · cases hr
        exact h.attempted q (Or.inr (Or.inr ⟨n, hmem⟩))
  · exact hanswered

theorem CalledOnce.delayedFires (h : CalledOnce s) {q : ℕ} {l : SessionMaintainerLocker}
    (hl : s.locker.nextDelayedRequest s.now = some (q, l)) :
    CalledOnce ((s.setLocker l).spawn [.addWaitingRequest q, .attemptRequests]) := by
  have hwaits (r : ℕ) := SessionMaintainerLocker.waits_nextDelayed hl r
  have hlocker : CalledOnce (s.setLocker l) := by
    obtain ⟨events, -, rfl⟩ := SessionMaintainerLocker.nextDelayedRequest_eq_some hl
    exact h.congr (fun r => by have := hwaits r; exact Nat.le.intro this) rfl
      (fun _ => ⟨rfl, rfl⟩) (fun _ _ => rfl) (fun _ hf => hf) (fun _ => le_rfl) rfl rfl
  refine hlocker.spawn (fun r => ?_) fun r j hj hr => ?_
  · have haccount := h.account r
    have hr := hwaits r
    have htally := s.tally_setLocker r l
    have hsame : (s.setLocker l).account r + (if q = r then 1 else 0) = s.account r := by
      change (s.setLocker l).tally r + load (Instr.owes (s.unstarted r) r) s.threads + _ =
        s.tally r + load (Instr.owes (s.unstarted r) r) s.threads
      omega
    simp only [List.map_cons, List.map_nil, List.sum_cons, List.sum_nil, Instr.owes]
    change _ ≤ if r < s.called then 1 else 0
    omega
  · rcases List.mem_pair.mp hj with rfl | rfl <;> cases hr

theorem CalledOnce.runThread (h : CalledOnce s) {k : ℕ} {i : Instr} {rest : List Instr}
    (hk : s.threads[k]? = some (i :: rest)) : CalledOnce (s.runThread k i rest) := by
  have hstepped := stepped_runThread hk
  have hi := hstepped.head_mem
  have hcalled : (s.runThread k i rest).called = s.called := (s.frame_exec i).called
  constructor
  · intro r
    have haccount := h.account r
    have hexec := s.tally_exec r i
    have hgained := h.gained_eq_zero (r := r) hi
    have hload := hstepped.load (Instr.owes ((s.exec i).1.unstarted r) r)
    have hmono : load (Instr.owes ((s.exec i).1.unstarted r) r) s.threads ≤
        load (Instr.owes (s.unstarted r) r) s.threads :=
      load_mono fun j _ => Instr.owes_mono r (unstarted_exec i) j
    change (s.exec i).1.tally r + load (Instr.owes ((s.exec i).1.unstarted r) r)
      (s.runThread k i rest).threads ≤ _
    rw [hcalled]
    unfold State.account at haccount
    omega
  · intro r hr
    have hmono : s.unstarted r = false → (s.exec i).1.unstarted r = false := by
      intro hfalse
      by_contra htrue
      rw [Bool.not_eq_false] at htrue
      rw [unstarted_exec i htrue] at hfalse
      cases hfalse
    change (s.exec i).1.unstarted r = false
    rcases hr with hr | ⟨j, hj, hr⟩ | ⟨a, hr⟩
    · rcases mem_inProgress_exec hr with hr | hr
      · exact hmono (h.attempted r (Or.inl hr))
      · exact hmono (h.attempted r (.of_pending hi hr))
    · rcases hstepped.mem hj with hj | hj
      · rcases attempted_pushed hj hr with hr | hr
        · exact hmono (h.attempted r (.of_pending hi hr))
        · exact hr
      · exact hmono (h.attempted r (.of_pending hj hr))
    · rcases mem_apiRequests_exec hr with hr | hr
      · exact hmono (h.attempted r (Or.inr (Or.inr ⟨a, hr⟩)))
      · exact hr
  · intro r hr
    rw [hcalled] at hr
    have hwrites : i.writes ≠ some r := by
      intro hwrites
      have howes : i.owes (s.unstarted r) r = 1 := by
        cases i <;> cases hwrites <;> exact if_pos rfl
      have hle := le_load (Instr.owes (s.unstarted r) r) hi
      have hzero := h.account_eq_zero hr
      unfold State.account at hzero
      omega
    exact (s.requests_exec hwrites).trans (h.fresh r hr)

theorem CalledOnce.step {a : Act} (h : CalledOnce s) (hguard : CancelsStarted s a s')
    (hs : s.step a = some s') : CalledOnce s' := by
  cases moves_of_step hs with
  | quiet program hquiet hthreads hprogram =>
    have hsame : CalledOnce { s' with threads := s.threads } :=
      h.congr (fun r => (hquiet.waits r).le) hquiet.locker.inProgress
        (fun r => by rw [hquiet.requests]; exact ⟨rfl, rfl⟩) (fun r _ => by rw [hquiet.requests])
        (fun f hf => hquiet.apiRequests ▸ hf) (fun r => (hquiet.attempts r).le) hquiet.called rfl
    have hspawn := hsame.spawn_quiet hprogram
    rwa [State.spawn, ← hthreads] at hspawn
  | call uses hexists => exact h.call uses
  | cancelRequest q hheld =>
    have hstarted : s.unstarted q = false := by
      have hne := hguard q rfl
      rw [unstarted]
      simpa [Option.isSome_iff_ne_none] using hne
    refine h.spawn (fun r => ?_) fun r j hj hr => ?_
    · have hzero : (Instr.cancel q).owes (s.unstarted r) r = 0 := by
        refine if_neg ?_
        rintro ⟨rfl, htrue⟩
        rw [hstarted] at htrue
        exact Bool.false_ne_true htrue
      simpa [hzero] using h.account r
    · rw [List.mem_singleton.mp hj] at hr
      cases hr
  | dropRequest q hheld =>
    refine h.congr (fun _ => le_rfl) rfl (fun r => ?_) (fun r hr => ?_) (fun _ hf => hf)
      (fun _ => le_rfl) rfl rfl
    · by_cases hrq : r = q
      · subst hrq
        simp [setRequest]
      · simp [setRequest, hrq]
    · refine Function.update_of_ne ?_ _ _
      rintro rfl
      rw [h.fresh r hr] at hheld
      cases hheld
  | apiResponse n q response hmem => exact h.apiResponse response hmem
  | delayedFires q l hexists hl => exact h.delayedFires hl
  | timeoutFires q l hexists hl =>
    have hsame : Quiet s (s.setLocker l) :=
      ⟨SessionMaintainerLocker.sameRequests_nextTimedOutRequest hl, rfl, rfl, rfl, rfl⟩
    have hlocker : CalledOnce (s.setLocker l) :=
      h.congr (fun r => (hsame.waits r).le) hsame.locker.inProgress (fun _ => ⟨rfl, rfl⟩)
        (fun _ _ => rfl) (fun _ hf => hf) (fun _ => le_rfl) rfl rfl
    unfold State.timeoutFires
    split_ifs
    · refine hlocker.spawn (fun r => ?_) fun r j hj hr => ?_
      · exact hlocker.account r
      · rw [List.mem_singleton.mp hj] at hr
        cases hr
    · exact hlocker
  | destroy hexists hout =>
    have hdestroy : CalledOnce s.destroy :=
      h.congr (fun _ => le_rfl) rfl (fun _ => ⟨rfl, rfl⟩) (fun _ _ => rfl) (fun _ hf => hf)
        (fun _ => le_rfl) rfl rfl
    exact hdestroy.spawn_quiet (by simp [Instr.requests])
  | run k i rest hk => exact h.runThread hk

/-! ### Runs -/

theorem calledOnce_created : CalledOnce created where
  account r := Nat.zero_le _
  attempted r hr := by
    rcases hr with hr | ⟨i, hi, -⟩ | ⟨a, ha⟩
    · cases hr
    · cases hi
    · cases ha
  fresh _ _ := rfl

/-- As long as the user cancels only requests that have had an attempt, every completion callback
is called at most once. -/
theorem atMostOnce_of_cancelsStarted {acts : List Act}
    (hguard : Along State.step CancelsStarted created acts) :
    Always State.step AtMostOnce created acts :=
  Always.of_guarded (fun _ h => h.atMostOnce) (fun _ _ _ h hg hs => h.step hg hs)
    calledOnce_created hguard

/-- A call without a session token is answered and its request cancelled meanwhile. -/
def cancelledInFlight : List Act :=
  .call false :: List.replicate 5 (.run 0) ++ [.cancelRequest 0, .run 1] ++
    List.replicate 4 (.run 0) ++ .apiResponse 0 0 {} :: List.replicate 12 (.run 0)

theorem atMostOnce_cancelledInFlight : Always State.step AtMostOnce created cancelledInFlight :=
  atMostOnce_of_cancelsStarted <| along_of_check
    (p := fun s a => match a with
      | .cancelRequest r => (s.requests r).request.isSome
      | _ => true)
    (fun s a s' hp r ha => by subst ha; exact Option.isSome_iff_ne_none.mp hp) (by decide)

/-- A call waits for a session token, is cancelled and times out. -/
def cancelledWaiting : List Act :=
  .call true :: List.replicate 6 (.run 0) ++ [.cancelRequest 0, .run 0, .run 0, .clock 60000,
    .timeoutFires, .run 0, .run 0, .run 0]

theorem not_atMostOnce : ¬ ∀ acts, Always State.step AtMostOnce created acts := by
  intro h
  have hrun : (run State.step created cancelledWaiting).map
      (fun s => (s.requests 0).completions) = some 2 := by decide
  obtain ⟨s, hs, htwo⟩ := Option.map_eq_some_iff.mp hrun
  have hle := (h cancelledWaiting).last hs 0
  omega

end State

end MediafireSdk.Api
