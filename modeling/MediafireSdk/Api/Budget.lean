import MediafireSdk.Api.Tokens

/-! The budget of session tokens. `StartRequestSessionToken` counts the tokens of both
tables and the requests for more, not the tokens that are on their way from one
to the other: these count when `AddInProgressRequest` or `AddSessionToken` comes,
whatever was admitted meanwhile. -/

namespace MediafireSdk.Api

open Threads Runs Words

/-- What `max_tokens` bounds. -/
def SessionMaintainerLocker.tokenCount (l : SessionMaintainerLocker) : ℕ :=
  l.sessionTokens.length + l.checkedOutTokens.size + l.inProgressSessionTokenRequests

/-- An admitted `user/get_session_token` request that still has to start, or whose response still
has to be processed. -/
def Instr.asks : Instr → ℕ
  | .getSessionToken _ | .handleSessionTokenResponse _ _ => 1
  | _ => 0

theorem Instr.asks_of_tokenless {i : Instr} (h : i.tokenless = true) : i.asks = 0 := by
  cases i <;> first | rfl | cases h

namespace State

variable {s s' : State}

/-- The `user/get_session_token` requests whose response has not been processed. -/
def unprocessed (s : State) : ℕ := s.tokenRequests.length + load Instr.asks s.threads

/-- The tokens that are in no table. -/
def inTransit (s : State) : ℕ := load (Instr.weight fun _ => 1) s.threads

structure WithinBudget (s : State) : Prop where
  tokens : s.locker.tokenCount ≤ SessionMaintainer.maxTokens
  requests :
    s.locker.inProgressSessionTokenRequests ≤ SessionMaintainer.maxInProgressTokenRequests
  unprocessed : s.maintainerExists = true →
    s.locker.inProgressSessionTokenRequests = s.unprocessed
  decrement : ∀ response c, .handleSessionTokenResponse response c ∈ pending s.threads →
    0 < s.locker.inProgressSessionTokenRequests

/-- The condition on a step: where a token request is admitted there is room for it beside the
tokens that are in no table. -/
def RoomForToken (s : State) (a : Act) (_ : State) : Prop :=
  ∀ k c loop rest, a = .run k → s.threads[k]? = some (.tryRequestSessionToken c loop :: rest) →
    s.locker.mayRequestSessionToken →
      s.locker.tokenCount + s.inTransit < SessionMaintainer.maxTokens

structure Counted (s : State) : Prop where
  requests :
    s.locker.inProgressSessionTokenRequests ≤ SessionMaintainer.maxInProgressTokenRequests
  unprocessed : s.maintainerExists = true →
    s.locker.inProgressSessionTokenRequests = s.unprocessed
  asked : load Instr.asks s.threads ≤ s.locker.inProgressSessionTokenRequests

structure Budgeted (s : State) : Prop extends Counted s where
  tokens : s.locker.tokenCount + s.inTransit ≤ SessionMaintainer.maxTokens

theorem Budgeted.withinBudget (h : Budgeted s) : WithinBudget s where
  tokens := le_trans (Nat.le_add_right _ _) h.tokens
  requests := h.requests
  unprocessed := h.unprocessed
  decrement _ _ hi := lt_of_lt_of_le (le_load Instr.asks hi) h.asked

theorem tokenCount_eq (l : SessionMaintainerLocker) :
    l.tokenCount = l.tokenWeight (fun _ => 1) + l.inProgressSessionTokenRequests := by
  rw [SessionMaintainerLocker.tokenCount, SessionMaintainerLocker.tokenWeight, List.map_const',
    List.sum_replicate, smul_eq_mul, mul_one, Table.size_eq_weigh]

/-! ### Steps -/

theorem asks_pushed {i j : Instr} (hj : j ∈ (s.exec i).2)
    (hi : ∀ c loop, i ≠ .tryRequestSessionToken c loop) : j.asks = 0 := by
  cases pushes_exec hj with
  | control h => exact Instr.asks_of_tokenless (Instr.tokenless_of_control h)
  | getSessionToken => exact absurd rfl (hi _ _)
  | handleCompletion _ h => rcases mem_handleCompletion h with rfl | rfl | rfl | rfl <;> rfl
  | handleRetryRequest _ h =>
    rcases mem_handleRetryRequest h with rfl | rfl | rfl | rfl | rfl <;> rfl
  | _ => rfl

theorem sum_asks_eq_zero {program : List Instr} (h : ∀ j ∈ program, j.asks = 0) :
    (program.map Instr.asks).sum = 0 := by
  apply List.sum_eq_zero
  intro n hn
  obtain ⟨j, hj, rfl⟩ := List.mem_map.mp hn
  exact h j hj

/-- Only these two sections count token requests. -/
theorem requested_exec (s : State) {i : Instr} (htry : ∀ c loop, i ≠ .tryRequestSessionToken c loop)
    (hhandle : ∀ response c, i ≠ .handleSessionTokenResponse response c) :
    (s.exec i).1.locker.inProgressSessionTokenRequests =
      s.locker.inProgressSessionTokenRequests := by
  cases hmoves : i.movesTokens with
  | false => exact (s.sameTokens_exec hmoves).requested
  | true =>
    cases i with
    | setCredentials c =>
      rcases s.locker.setCredentials_cases c with ⟨-, heq⟩ | ⟨-, -, heq⟩ | ⟨-, -, hchanged⟩
      · simp only [exec, setLocker_locker, heq]
      · simp only [exec, setLocker_locker, heq]
      · exact hchanged.requested
    | setSessionStateSafe newState count c =>
      rcases s.locker.setSessionStateSafe_cases newState count with ⟨-, heq⟩ | ⟨-, -, hchanged⟩
      · simp only [exec, setLocker_locker, heq]
      · exact hchanged.requested
    | nextWaitingSessionTokenRequest =>
      rcases s.attemptSessionTokenRequest_cases with ⟨r, st, l, hl, heq⟩ | heq
      · obtain ⟨waiting, tokens, -, -, rfl⟩ :=
          SessionMaintainerLocker.nextWaitingSessionTokenRequest_eq_some hl
        simp only [exec, heq, setLocker_locker]
      · simp only [exec, heq]
    | reuseToken r a newKey =>
      simp only [exec, setLocker_locker, SessionMaintainerLocker.reuseToken]
      split_ifs
      · cases s.locker.checkedOutTokens.find? r <;> rfl
      · rfl
    | addSessionToken response c state count =>
      rcases s.addSessionToken_cases response c state count with ⟨l, hl, heq⟩ | ⟨-, heq⟩
      · obtain ⟨-, rfl⟩ := SessionMaintainerLocker.addSessionToken_eq_some hl
        simp only [exec, heq, setLocker_locker]
      · simp only [exec, heq]
    | tryRequestSessionToken c loop => exact absurd rfl (htry c loop)
    | handleSessionTokenResponse response c => exact absurd rfl (hhandle response c)
    | _ => first | rfl | cases hmoves

/-- What an instruction does to the count of token requests. -/
structure Counts (s : State) (i : Instr) (admitted : ℕ) : Prop where
  pushed : ((s.exec i).2.map Instr.asks).sum = admitted
  le : (s.exec i).1.locker.inProgressSessionTokenRequests + i.arrivingWeight (fun _ => 1) ≤
    s.locker.inProgressSessionTokenRequests + admitted
  eq : (s.exec i).1.locker.inProgressSessionTokenRequests + s.tokenRequests.length + i.asks =
    s.locker.inProgressSessionTokenRequests + (s.exec i).1.tokenRequests.length + admitted

theorem counts_handleSessionTokenResponse {response : TokenResponse} {c : Credentials}
    (h : 0 < s.locker.inProgressSessionTokenRequests) :
    Counts s (.handleSessionTokenResponse response c) 0 := by
  have hdecrement :
      s.locker.decrementSessionTokenInProgressCount.inProgressSessionTokenRequests =
        s.locker.inProgressSessionTokenRequests - 1 := decrement_of_pos h
  refine ⟨rfl, ?_, ?_⟩
  · simp only [exec, setLocker_locker, hdecrement, Instr.arrivingWeight, Instr.arriving]
    split_ifs
    · simp only [List.map_cons, List.map_nil, List.sum_cons, List.sum_nil]
      omega
    · simp only [List.map_nil, List.sum_nil]
      omega
  · simp only [exec, setLocker_locker, setLocker_tokenRequests, hdecrement, Instr.asks]
    omega

theorem counts_tryRequestSessionToken (s : State) (c : Credentials) (loop : Bool) :
    Counts s (.tryRequestSessionToken c loop) 0 ∨
      (s.locker.mayRequestSessionToken ∧ Counts s (.tryRequestSessionToken c loop) 1) := by
  rcases s.tryRequestSessionToken_cases c loop with ⟨l, hl, heq⟩ | heq
  · obtain ⟨hmay, rfl⟩ := SessionMaintainerLocker.startRequestSessionToken_eq_some hl
    refine Or.inr ⟨hmay, ?_, ?_, ?_⟩
    · simp only [exec, heq]
      cases loop <;> rfl
    · simp only [exec, heq, setLocker_locker]
      exact le_rfl
    · simp only [exec, heq, setLocker_locker, setLocker_tokenRequests, Instr.asks]
      omega
  · refine Or.inl ⟨?_, ?_, ?_⟩
    · simp only [exec, heq, List.map_nil, List.sum_nil]
    · simp only [exec, heq]
      exact le_rfl
    · simp only [exec, heq]
      rfl

/-- A token request is admitted only by `StartRequestSessionToken`. -/
theorem counts_exec (s : State) (i : Instr)
    (hasked : i.asks ≤ s.locker.inProgressSessionTokenRequests) :
    Counts s i 0 ∨ ((∃ c loop, i = .tryRequestSessionToken c loop) ∧
      s.locker.mayRequestSessionToken ∧ Counts s i 1) := by
  by_cases htry : ∃ c loop, i = .tryRequestSessionToken c loop
  · obtain ⟨c, loop, rfl⟩ := htry
    exact (s.counts_tryRequestSessionToken c loop).imp_right fun h => ⟨⟨c, loop, rfl⟩, h⟩
  have hpushed : ((s.exec i).2.map Instr.asks).sum = 0 :=
    sum_asks_eq_zero fun j hj => asks_pushed hj fun c loop heq => htry ⟨c, loop, heq⟩
  by_cases hhandle : ∃ response c, i = .handleSessionTokenResponse response c
  · obtain ⟨response, c, rfl⟩ := hhandle
    exact Or.inl (counts_handleSessionTokenResponse hasked)
  have hsame := s.requested_exec (fun c loop heq => htry ⟨c, loop, heq⟩)
    fun response c heq => hhandle ⟨response, c, heq⟩
  have harriving : i.arrivingWeight (fun _ => 1) = 0 := by
    cases i <;> first | rfl | exact absurd ⟨_, _, rfl⟩ hhandle
  refine Or.inl ⟨hpushed, by omega, ?_⟩
  rw [hsame]
  by_cases hget : ∃ c, i = .getSessionToken c
  · obtain ⟨c, rfl⟩ := hget
    simp only [exec, startGetSessionToken, List.length_append, List.length_singleton, Instr.asks]
    omega
  · rw [s.tokenRequests_exec fun c heq => hget ⟨c, heq⟩]
    cases i <;>
      first | rfl | exact absurd ⟨_, _, rfl⟩ hhandle | exact absurd ⟨_, rfl⟩ hget

theorem tokenRequests_le_exec (s : State) (i : Instr) :
    s.tokenRequests.length ≤ (s.exec i).1.tokenRequests.length := by
  by_cases hget : ∃ c, i = .getSessionToken c
  · obtain ⟨c, rfl⟩ := hget
    simp [exec, startGetSessionToken]
  · rw [s.tokenRequests_exec fun c heq => hget ⟨c, heq⟩]

/-- Token requests are counted right whatever the order of the steps. -/
theorem Counted.runs (h : Counted s) {k : ℕ} {i : Instr} {rest : List Instr}
    (hk : s.threads[k]? = some (i :: rest)) : Counted (s.runThread k i rest) := by
  have hthread := stepped_runThread hk
  have hasks := hthread.load Instr.asks
  have hexists := (s.frame_exec i).maintainerExists
  have hgrows := s.tokenRequests_le_exec i
  have hasked := h.asked
  obtain ⟨admitted, hcounts, hmay⟩ : ∃ admitted, Counts s i admitted ∧
      s.locker.inProgressSessionTokenRequests + admitted ≤
        SessionMaintainer.maxInProgressTokenRequests := by
    rcases s.counts_exec i (le_trans (le_load Instr.asks hthread.head_mem) hasked) with
      hcounts | ⟨-, hmay, hcounts⟩
    · exact ⟨0, hcounts, h.requests⟩
    · refine ⟨1, hcounts, ?_⟩
      rcases hmay with ⟨hzero, -⟩ | ⟨-, hlt, -⟩
      · rw [hzero]
        decide
      · exact hlt
  have hpushed := hcounts.pushed
  have hle := hcounts.le
  have heq := hcounts.eq
  refine ⟨?_, fun hmaintainer => ?_, ?_⟩
  · change (s.exec i).1.locker.inProgressSessionTokenRequests ≤ _
    omega
  · have hbefore := h.unprocessed (hexists ▸ hmaintainer)
    change (s.exec i).1.locker.inProgressSessionTokenRequests =
      (s.exec i).1.tokenRequests.length + load Instr.asks (s.runThread k i rest).threads
    rw [State.unprocessed] at hbefore
    omega
  · change _ ≤ (s.exec i).1.locker.inProgressSessionTokenRequests
    omega

theorem load_asks_spawn (program : List Instr) (h : ∀ j ∈ program, j.tokenless = true)
    (threads : List (List Instr)) :
    load Instr.asks (Threads.spawn program threads) = load Instr.asks threads := by
  rw [load_spawn, sum_asks_eq_zero fun j hj => Instr.asks_of_tokenless (h j hj), Nat.add_zero]

theorem Counted.step {a : Act} (h : Counted s) (hs : s.step a = some s') : Counted s' := by
  cases tokenMoves_of_step hs with
  | starts program hlocker htokenRequests _ hexists hthreads hprogram =>
    have hload : load Instr.asks s'.threads = load Instr.asks s.threads := by
      rw [hthreads, load_asks_spawn program hprogram]
    refine ⟨hlocker.requested ▸ h.requests, fun hmaintainer => ?_, ?_⟩
    · rw [State.unprocessed, htokenRequests, hload, hlocker.requested]
      exact h.unprocessed (hexists ▸ hmaintainer)
    · rw [hload, hlocker.requested]
      exact h.asked
  | setLoginCredentials c _ =>
    have hload : load Instr.asks (Threads.spawn [.setCredentials c, .attemptRequests] s.threads) =
        load Instr.asks s.threads := load_spawn _ _ _
    exact ⟨h.requests, fun hmaintainer => (h.unprocessed hmaintainer).trans
      (congrArg (s.tokenRequests.length + ·) hload.symm), hload ▸ h.asked⟩
  | tokenResponse n c response hmem =>
    by_cases hmaintainer : s.maintainerExists = true
    · rw [State.tokenResponse, if_pos hmaintainer]
      have hlength := List.length_erase_of_mem hmem
      have hpos := List.length_pos_of_mem hmem
      have hbefore := h.unprocessed hmaintainer
      have hload : load Instr.asks
          (Threads.spawn [.handleSessionTokenResponse response c] s.threads) =
          load Instr.asks s.threads + 1 := load_spawn _ _ _
      rw [State.unprocessed] at hbefore
      refine ⟨h.requests, fun _ => ?_, ?_⟩
      · change s.locker.inProgressSessionTokenRequests = (s.tokenRequests.erase (n, c)).length +
          load Instr.asks (Threads.spawn [.handleSessionTokenResponse response c] s.threads)
        omega
      · change load Instr.asks (Threads.spawn [.handleSessionTokenResponse response c] s.threads) ≤
          s.locker.inProgressSessionTokenRequests
        omega
    · rw [State.tokenResponse, if_neg hmaintainer]
      exact ⟨h.requests, fun h => absurd h hmaintainer, h.asked⟩
  | destroy hexists hout =>
    have hload := load_asks_spawn [.stopTimeouts, .moveRequests]
      (by simp [Instr.tokenless]) s.threads
    exact ⟨h.requests, fun hmaintainer => absurd hmaintainer Bool.false_ne_true,
      hload.symm ▸ h.asked⟩
  | run k i rest hk => exact h.runs hk

theorem tokens_runThread (h : Budgeted s) {k : ℕ} {i : Instr} {rest : List Instr}
    (hk : s.threads[k]? = some (i :: rest))
    (hguard : ∀ c loop, i = .tryRequestSessionToken c loop → s.locker.mayRequestSessionToken →
      s.locker.tokenCount + s.inTransit < SessionMaintainer.maxTokens) :
    (s.runThread k i rest).locker.tokenCount + (s.runThread k i rest).inTransit ≤
      SessionMaintainer.maxTokens := by
  have hthread := stepped_runThread hk
  have htransit : (s.runThread k i rest).inTransit + i.weight (fun _ => 1) =
      s.inTransit + ((s.exec i).2.map (Instr.weight fun _ => 1)).sum :=
    hthread.load (Instr.weight fun _ => 1)
  have hweight := s.weight_exec (fun _ => 1) (fun _ _ => rfl) i
  obtain ⟨admitted, hcounts, hroom⟩ : ∃ admitted, Counts s i admitted ∧
      s.locker.tokenCount + s.inTransit + admitted ≤ SessionMaintainer.maxTokens := by
    rcases s.counts_exec i (le_trans (le_load Instr.asks hthread.head_mem) h.asked) with
      hcounts | ⟨⟨c, loop, rfl⟩, hmay, hcounts⟩
    · exact ⟨0, hcounts, h.tokens⟩
    · exact ⟨1, hcounts, hguard c loop rfl hmay⟩
  have hle := hcounts.le
  rw [tokenCount_eq] at hroom ⊢
  change (s.exec i).1.locker.tokenWeight (fun _ => 1) +
    (s.exec i).1.locker.inProgressSessionTokenRequests + _ ≤ _
  omega

theorem Budgeted.step {a : Act} (h : Budgeted s) (hguard : s.RoomForToken a s')
    (hs : s.step a = some s') : Budgeted s' := by
  refine ⟨h.toCounted.step hs, ?_⟩
  cases tokenMoves_of_step hs with
  | starts program hlocker _ _ _ hthreads hprogram =>
    rw [tokenCount_eq, hlocker.tokenWeight, hlocker.requested, ← tokenCount_eq, inTransit, hthreads,
      load_spawn, sum_weight_of_tokenless hprogram]
    exact h.tokens
  | setLoginCredentials c _ =>
    have htransit : load (Instr.weight fun _ => 1)
        (Threads.spawn [.setCredentials c, .attemptRequests] s.threads) = s.inTransit :=
      load_spawn _ _ _
    exact le_of_eq_of_le (congrArg (s.locker.tokenCount + ·) htransit) h.tokens
  | tokenResponse n c response hmem =>
    have htransit : load (Instr.weight fun _ => 1)
        (Threads.spawn [.handleSessionTokenResponse response c] s.threads) = s.inTransit :=
      load_spawn _ _ _
    by_cases hmaintainer : s.maintainerExists = true
    · rw [State.tokenResponse, if_pos hmaintainer]
      exact le_of_eq_of_le (congrArg (s.locker.tokenCount + ·) htransit) h.tokens
    · rw [State.tokenResponse, if_neg hmaintainer]
      exact h.tokens
  | destroy hexists hout =>
    have htransit : load (Instr.weight fun _ => 1)
        (Threads.spawn [.stopTimeouts, .moveRequests] s.threads) = s.inTransit := load_spawn _ _ _
    exact le_of_eq_of_le (congrArg (s.locker.tokenCount + ·) htransit) h.tokens
  | run k i rest hk =>
    exact tokens_runThread h hk fun c loop hi hmay => hguard k c loop rest rfl (hi ▸ hk) hmay

/-! ### Runs -/

theorem budgeted_created : Budgeted created where
  tokens := Nat.zero_le _
  requests := Nat.zero_le _
  unprocessed _ := rfl
  asked := le_rfl

/-- Token requests are counted right in every run. -/
theorem counted_of_run (acts : List Act) : Always State.step Counted created acts :=
  Always.of_guarded (G := fun _ _ _ => True) (fun _ h => h) (fun _ _ _ h _ hs => h.step hs)
    budgeted_created.toCounted along_true

/-- Where token requests are admitted only beside room for the tokens that are in no table, the
budget is kept. -/
theorem withinBudget_of_roomForToken {acts : List Act}
    (hguard : Along State.step RoomForToken created acts) :
    Always State.step WithinBudget created acts :=
  Always.of_guarded (fun _ h => h.withinBudget) (fun _ _ _ h hg hs => h.step hg hs)
    budgeted_created hguard

def tokenFor (n : ℕ) : TokenResponse := { sessionToken := toString n, secretKey := 7 }

/-- Ten calls wait, and six tokens come for them; four more are asked for. -/
def crowded : List Act :=
  (List.replicate 10 (.call true :: List.replicate 6 (.run 0))).flatten ++
    .setLoginCredentials user :: List.replicate 15 (.run 0) ++
    .tokenResponse 0 user (tokenFor 0) :: List.replicate 19 (.run 0) ++
    [1, 2, 3, 5, 7].flatMap fun n =>
      .tokenResponse n user (tokenFor n) :: List.replicate 18 (.run 0)

theorem withinBudget_crowded : Always State.step WithinBudget created crowded :=
  withinBudget_of_roomForToken <| along_of_check
    (p := fun s a => match a with
      | .run k => decide (s.threads[k]?.isSome → s.locker.mayRequestSessionToken →
        s.locker.tokenCount + s.inTransit < SessionMaintainer.maxTokens)
      | _ => true)
    (fun s a s' hp k c loop rest ha hk hmay => by
      subst ha
      exact of_decide_eq_true hp (hk ▸ rfl) hmay) (by decide +kernel)

/-- A seventh token has arrived and is not stored yet when another call asks for one more. -/
def overdrawn : List Act :=
  crowded ++ [.tokenResponse 9 user (tokenFor 9), .run 0] ++
    .call true :: List.replicate 8 (.run 1) ++ List.replicate 4 (.run 0)

theorem not_withinBudget : ¬ ∀ acts, Always State.step WithinBudget created acts := by
  intro h
  have hrun : (run State.step created overdrawn).map (·.locker.tokenCount) = some 11 := by
    decide +kernel
  obtain ⟨s, hs, hcount⟩ := Option.map_eq_some_iff.mp hrun
  have hle : s.locker.tokenCount ≤ 10 := ((h overdrawn).last hs).tokens
  omega

end State

end MediafireSdk.Api
