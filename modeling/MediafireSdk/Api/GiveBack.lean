import MediafireSdk.Api.Lives

/-! Finished requests give back what they hold. Every entry of the tables is there for
an attempt that is in flight or whose handlers still have to take it out again. This
needs the entry to be made before the handlers of the answer look for it:
`AttemptRequests` starts the attempt first. -/

namespace MediafireSdk.Api

open Threads Runs

namespace Instr

/-- The attempt of a request that an instruction is about. -/
def attempt : Instr → Option (ℕ × ℕ)
  | .addInProgressRequest r a | .addInProgressRequestWithToken r a _
  | .removeInProgressRequest r a | .moveInProgressToWaiting r a | .moveInProgressToDelayed r a
  | .deleteCheckedOutToken r a | .reuseToken r a _ | .retryOrComplete r a _
  | .completionAlert r a _ | .requestRetryAlert r a _ => some (r, a)
  | _ => none

/-- `AddInProgressRequest`. -/
def adds : Instr → Option (ℕ × ℕ)
  | .addInProgressRequest r a | .addInProgressRequestWithToken r a _ => some (r, a)
  | _ => none

def addsToken : Instr → Option (ℕ × ℕ)
  | .addInProgressRequestWithToken r a _ => some (r, a)
  | _ => none

/-- The sections that take an entry out. -/
def takesBack : Instr → Option (ℕ × ℕ)
  | .removeInProgressRequest r a | .moveInProgressToWaiting r a | .moveInProgressToDelayed r a
  | .deleteCheckedOutToken r a | .reuseToken r a _ => some (r, a)
  | _ => none

/-- The instructions that lead to taking the request out of `in_progress_requests_`. -/
def removes : Instr → Option (ℕ × ℕ)
  | .retryOrComplete r a _ | .completionAlert r a _ | .requestRetryAlert r a _
  | .removeInProgressRequest r a | .moveInProgressToWaiting r a
  | .moveInProgressToDelayed r a => some (r, a)
  | _ => none

/-- The instructions that lead to taking the token out of `checked_out_tokens_`. -/
def removesToken : Instr → Option (ℕ × ℕ)
  | .retryOrComplete r a _ | .completionAlert r a _ | .requestRetryAlert r a _
  | .deleteCheckedOutToken r a | .reuseToken r a _ => some (r, a)
  | _ => none

/-- The request that a session token is for. -/
def carriesToken : Instr → Option ℕ
  | .initWithToken r _ | .addInProgressRequestWithToken r _ _ => some r
  | _ => none

/-- The request that is put into a queue. -/
def puts : Instr → Option ℕ
  | .addWaitingRequest r | .moveInProgressToWaiting r _ => some r
  | _ => none

theorem life_of_puts {i : Instr} {r : ℕ} (h : i.puts = some r) : i.life r = 1 := by
  cases i <;> cases h <;> exact if_pos rfl

theorem attempt_of_removes {i : Instr} {p : ℕ × ℕ} (h : i.removes = some p) :
    i.attempt = some p := by
  cases i <;> first | exact h | cases h

theorem attempt_of_removesToken {i : Instr} {p : ℕ × ℕ} (h : i.removesToken = some p) :
    i.attempt = some p := by
  cases i <;> first | exact h | cases h

theorem movesInProgress_of_removes {i : Instr} {p : ℕ × ℕ} (h : i.removes = some p)
    (h' : i.takesBack = some p) : i.movesInProgress = true := by
  cases i with
  | retryOrComplete | completionAlert | requestRetryAlert => cases h'
  | _ => first | rfl | cases h

theorem mem_requests_of_adds {i : Instr} {p : ℕ × ℕ} (h : i.adds = some p) :
    p.1 ∈ i.requests := by
  cases i <;> cases h <;> exact List.mem_singleton_self _

theorem carriesToken_eq_none {i : Instr} (h : i.requests = []) : i.carriesToken = none := by
  cases i <;> first | rfl | cases h

theorem adds_of_addsToken {i : Instr} {p : ℕ × ℕ} (h : i.addsToken = some p) :
    i.adds = some p := by
  cases i <;> first | exact h | cases h

end Instr

namespace State

variable {s s' : State} {r : ℕ}

/-- An attempt with no handler left holds no entry. -/
def GivenBack (s : State) : Prop :=
  s.maintainerExists = true → ∀ r a, (a, r) ∉ s.apiRequests →
    (∀ i ∈ pending s.threads, i.attempt ≠ some (r, a)) →
    s.locker.inProgressRequests.find? r ≠ some a ∧
      ∀ st, s.locker.checkedOutTokens.find? r = some st → st.attempt ≠ a

/-- The condition on a step: what an attempt holds is taken back when `AddInProgressRequest` for it
has run. -/
def AddsFirst (s : State) (a : Act) (_ : State) : Prop :=
  ∀ k i rest p, a = .run k → s.threads[k]? = some (i :: rest) → i.takesBack = some p →
    ∀ j ∈ pending s.threads, j.adds ≠ some p

/-- The attempt is in flight, or a handler of its answer is left. -/
def Returns (s : State) (removes : Instr → Option (ℕ × ℕ)) (p : ℕ × ℕ) : Prop :=
  (p.2, p.1) ∈ s.apiRequests ∨ ∃ i ∈ pending s.threads, removes i = some p

/-- The request waits for a session token, gets one or has one. -/
def WantsToken (s : State) (r : ℕ) : Prop :=
  r ∈ s.locker.waitingStRequests ∨ (∃ i ∈ pending s.threads, i.carriesToken = some r) ∨
    r ∈ s.locker.checkedOutTokens

def TokensUsed (s : State) : Prop :=
  ∀ r, s.WantsToken r → r < s.called ∧ (s.requests r).usesSessionToken = true

/-- What the tables hold is on its way back. -/
structure Returning (s : State) : Prop where
  inProgress : ∀ r a, s.locker.inProgressRequests.find? r = some a →
    s.Returns Instr.removes (r, a)
  adding : ∀ j ∈ pending s.threads, ∀ p, j.adds = some p → s.Returns Instr.removes p
  checkedOut : ∀ r st, s.locker.checkedOutTokens.find? r = some st →
    s.Returns Instr.removesToken (r, st.attempt)
  addingToken : ∀ j ∈ pending s.threads, ∀ p, j.addsToken = some p →
    s.Returns Instr.removesToken p

theorem Returning.givenBack (h : s.maintainerExists = true → Returning s) : s.GivenBack := by
  intro hexists r a hflight hpending
  refine ⟨fun hfind => ?_, ?_⟩
  · rcases (h hexists).inProgress r a hfind with hmem | ⟨i, hi, hremoves⟩
    · exact hflight hmem
    · exact hpending i hi (Instr.attempt_of_removes hremoves)
  · rintro st hfind rfl
    rcases (h hexists).checkedOut r st hfind with hmem | ⟨i, hi, hremoves⟩
    · exact hflight hmem
    · exact hpending i hi (Instr.attempt_of_removesToken hremoves)

/-! ### Requests that use session tokens -/

theorem mem_waitingSt_exec {i : Instr} (h : r ∈ (s.exec i).1.locker.waitingStRequests) :
    r ∈ s.locker.waitingStRequests ∨
      (i.puts = some r ∧ (s.requests r).usesSessionToken = true) := by
  by_cases hquiet : i.quiet = true
  · exact Or.inl ((quiet_exec hquiet).1.locker.waitingSt ▸ h)
  cases i with
  | addWaitingRequest q | moveInProgressToWaiting q a =>
    change r ∈ (SessionMaintainerLocker.pushWaiting _ _ _).waitingStRequests at h
    cases huses : (s.requests q).usesSessionToken with
    | false =>
      rw [huses] at h
      exact Or.inl h
    | true =>
      rw [huses] at h
      rcases List.mem_append.mp h with h | h
      · exact Or.inl h
      · cases List.mem_singleton.mp h
        exact Or.inr ⟨rfl, huses⟩
  | nextWaitingNonSessionTokenRequest =>
    rcases s.attemptNonSessionTokenRequest_cases with ⟨q, l, hl, heq⟩ | heq
    · obtain ⟨waiting, -, rfl⟩ :=
        SessionMaintainerLocker.nextWaitingNonSessionTokenRequest_eq_some hl
      simp only [exec, heq, setLocker_locker] at h
      exact Or.inl h
    · simp only [exec, heq] at h
      exact Or.inl h
  | nextWaitingSessionTokenRequest =>
    rcases s.attemptSessionTokenRequest_cases with ⟨q, st, l, hl, heq⟩ | heq
    · obtain ⟨waiting, tokens, hwaiting, -, rfl⟩ :=
        SessionMaintainerLocker.nextWaitingSessionTokenRequest_eq_some hl
      simp only [exec, heq, setLocker_locker] at h
      exact Or.inl (hwaiting ▸ List.mem_cons_of_mem q h)
    · simp only [exec, heq] at h
      exact Or.inl h
  | handleTimedOutRequest q =>
    rcases s.handleTimedOutRequest_cases q with ⟨l, hl, heq⟩ | ⟨-, heq⟩
    · rcases SessionMaintainerLocker.handleTimedOutRequest_eq_some hl with ⟨-, rfl⟩ | ⟨-, rfl⟩
      · simp only [exec, heq, setLocker_locker] at h
        exact Or.inl (List.mem_of_mem_erase h)
      · simp only [exec, heq, setLocker_locker] at h
        exact Or.inl h
    · simp only [exec, heq] at h
      exact Or.inl h
  | reuseToken q a newKey =>
    exact Or.inl ((s.locker.sameRequests_reuseToken (s.requests q).usesSessionToken q
      newKey).waitingSt ▸ h)
  | moveRequests => cases h
  | _ => first | exact Or.inl h | exact absurd rfl hquiet

theorem carriesToken_pushed {i j : Instr} (hj : j ∈ (s.exec i).2)
    (hr : j.carriesToken = some r) :
    r ∈ s.locker.waitingStRequests ∨ i.carriesToken = some r := by
  cases pushes_exec hj with
  | control h =>
    rw [Instr.carriesToken_eq_none (Instr.requests_of_control h)] at hr
    cases hr
  | initWithToken h =>
    cases hr
    exact Or.inl h
  | addWithToken => exact Or.inr hr
  | handleCompletion _ h =>
    rcases mem_handleCompletion h with rfl | rfl | rfl | rfl <;> cases hr
  | handleRetryRequest _ h =>
    rcases mem_handleRetryRequest h with rfl | rfl | rfl | rfl | rfl <;> cases hr
  | _ => cases hr

theorem wantsToken_exec {k : ℕ} {i : Instr} {rest : List Instr}
    (hk : s.threads[k]? = some (i :: rest)) (h : (s.runThread k i rest).WantsToken r) :
    s.WantsToken r ∨ (i.life r = 1 ∧ (s.requests r).usesSessionToken = true) := by
  have hthread := stepped_runThread hk
  rcases h with hwaits | ⟨j, hj, hr⟩ | hout
  · exact (mem_waitingSt_exec hwaits).imp Or.inl (And.imp_left Instr.life_of_puts)
  · rcases hthread.mem hj with hj | hj
    · rcases carriesToken_pushed hj hr with hwaits | hr
      · exact Or.inl (Or.inl hwaits)
      · exact Or.inl (Or.inr (Or.inl ⟨i, hthread.head_mem, hr⟩))
    · exact Or.inl (Or.inr (Or.inl ⟨j, hj, hr⟩))
  · obtain ⟨st, hst⟩ := Table.exists_find? hout
    rcases checkedOut_exec s hst with hst | rfl
    · exact Or.inl (Or.inr (Or.inr (Table.mem_of_find? hst)))
    · exact Or.inl (Or.inr (Or.inl ⟨_, hthread.head_mem, rfl⟩))

/-- Handlers start without tokens. -/
theorem wantsToken_spawn {t : State} (program : List Instr)
    (hwaiting : t.locker.waitingStRequests = s.locker.waitingStRequests)
    (hout : ∀ st, t.locker.checkedOutTokens.find? r = some st →
      s.locker.checkedOutTokens.find? r = some st)
    (hthreads : t.threads = Threads.spawn program s.threads)
    (hprogram : ∀ j ∈ program, j.carriesToken = none) (h : t.WantsToken r) : s.WantsToken r := by
  rcases h with hr | ⟨j, hj, hr⟩ | hr
  · exact Or.inl (hwaiting ▸ hr)
  · rw [hthreads] at hj
    rcases mem_pending_spawn.mp hj with hj | hj
    · exact Or.inr (Or.inl ⟨j, hj, hr⟩)
    · rw [hprogram j hj] at hr
      cases hr
  · obtain ⟨st, hst⟩ := Table.exists_find? hr
    exact Or.inr (Or.inr (Table.mem_of_find? (hout st hst)))

theorem TokensUsed.of_wantsToken (h : TokensUsed s) (hwants : ∀ r, s'.WantsToken r → s.WantsToken r)
    (hcalled : s'.called = s.called)
    (huses : ∀ r, (s'.requests r).usesSessionToken = (s.requests r).usesSessionToken) :
    TokensUsed s' := by
  intro r hr
  rw [hcalled, huses]
  exact h r (hwants r hr)

theorem TokensUsed.step {a : Act} (h : TokensUsed s) (hlife : OneLife s)
    (hs : s.step a = some s') : TokensUsed s' := by
  cases moves_of_step hs with
  | quiet program hquiet hthreads hprogram =>
    refine h.of_wantsToken (fun r => wantsToken_spawn program hquiet.locker.waitingSt
      (hquiet.locker.checkedOut r) hthreads fun j hj =>
        Instr.carriesToken_eq_none (hprogram j hj)) hquiet.called fun r => ?_
    rw [hquiet.requests]
  | call uses hexists =>
    intro r hr
    obtain ⟨hlt, huses⟩ := h r (wantsToken_spawn (t := s.call uses)
      [.addWaitingRequest s.called, .attemptRequests] rfl (fun _ hst => hst) rfl
      (by simp [Instr.carriesToken]) hr)
    refine ⟨Nat.lt_succ_of_lt hlt, ?_⟩
    change (Function.update s.requests s.called (s.newRequest uses) r).usesSessionToken = true
    rwa [Function.update_of_ne (Nat.ne_of_lt hlt)]
  | cancelRequest q hheld =>
    exact h.of_wantsToken (fun r => wantsToken_spawn [.cancel q] rfl
      (fun _ hst => hst) rfl (by simp [Instr.carriesToken])) rfl fun r => rfl
  | dropRequest q hheld =>
    refine h.of_wantsToken (fun r => id) rfl fun r => ?_
    by_cases hr : r = q
    · simp [hr, setRequest]
    · simp [setRequest, Function.update_of_ne hr]
  | apiResponse n q response hmem =>
    unfold State.apiResponse
    split_ifs
    · exact h.of_wantsToken (fun r => wantsToken_spawn
        [.completionNotification response.errorCode, .retryOrComplete q n response]
        rfl (fun _ hst => hst) rfl (by simp [Instr.carriesToken])) rfl fun r => rfl
    · exact h.of_wantsToken (fun r => id) rfl fun r => rfl
  | delayedFires q l hexists hl =>
    obtain ⟨events, -, rfl⟩ := SessionMaintainerLocker.nextDelayedRequest_eq_some hl
    exact h.of_wantsToken (fun r => wantsToken_spawn
      [.addWaitingRequest q, .attemptRequests] rfl (fun _ hst => hst) rfl
      (by simp [Instr.carriesToken])) rfl fun r => rfl
  | timeoutFires q l hexists hl =>
    have hsame := SessionMaintainerLocker.sameRequests_nextTimedOutRequest hl
    unfold State.timeoutFires
    split_ifs
    · exact h.of_wantsToken (fun r => wantsToken_spawn [.handleTimedOutRequest q]
        hsame.waitingSt (hsame.checkedOut r) rfl (by simp [Instr.carriesToken])) rfl fun r => rfl
    · exact h.of_wantsToken (fun r => wantsToken_spawn [] hsame.waitingSt
        (hsame.checkedOut r) (by simp [Threads.spawn, setLocker]) (by simp)) rfl fun r => rfl
  | destroy hexists hout =>
    exact h.of_wantsToken (fun r => wantsToken_spawn [.stopTimeouts, .moveRequests]
      rfl (fun _ hst => hst) rfl (by simp [Instr.carriesToken])) rfl fun r => rfl
  | run k i rest hk =>
    intro r hr
    change r < (s.exec i).1.called ∧ ((s.exec i).1.requests r).usesSessionToken = true
    rw [(s.frame_exec i).called, uses_exec]
    rcases wantsToken_exec hk hr with hr | ⟨hone, huses⟩
    · exact h r hr
    · exact ⟨hlife.lt_called (stepped_runThread hk).head_mem hone, huses⟩

/-! ### On the way back -/

/-- What is on its way back stays so until it is taken back. -/
theorem Returns.run {removes : Instr → Option (ℕ × ℕ)} {p : ℕ × ℕ} {k : ℕ} {i : Instr}
    {rest : List Instr} (hk : s.threads[k]? = some (i :: rest)) (h : s.Returns removes p)
    (hcarry : removes i = some p → i.takesBack = some p ∨
      ∃ j ∈ (s.exec i).2, removes j = some p) :
    (s.runThread k i rest).Returns removes p ∨ (removes i = some p ∧ i.takesBack = some p) := by
  have hthread := stepped_runThread hk
  rcases h with hmem | ⟨j, hj, hremoves⟩
  · refine Or.inl (Or.inl ?_)
    change _ ∈ (s.exec i).1.apiRequests
    cases i with
    | init q | initWithToken q st => exact List.mem_append_left _ hmem
    | _ => rwa [apiRequests_exec s (fun _ h => by cases h) (fun _ _ h => by cases h)]
  · by_cases heq : j = i
    · subst heq
      rcases hcarry hremoves with htakes | ⟨next, hnext, hremoves'⟩
      · exact Or.inr ⟨hremoves, htakes⟩
      · exact Or.inl (Or.inr ⟨next, hthread.pushed_mem hnext, hremoves'⟩)
    · exact Or.inl (Or.inr ⟨j, hthread.stays hj heq, hremoves⟩)

/-- Each handler of an answer goes on to take the request out. -/
theorem removes_carries (hexists : s.maintainerExists = true) {i : Instr} {p : ℕ × ℕ}
    (h : i.removes = some p) :
    i.takesBack = some p ∨ ∃ j ∈ (s.exec i).2, j.removes = some p := by
  cases i with
  | removeInProgressRequest q a | moveInProgressToWaiting q a | moveInProgressToDelayed q a =>
    exact Or.inl h
  | retryOrComplete q a response =>
    cases h
    refine Or.inr ?_
    simp only [exec]
    split_ifs <;> exact ⟨_, List.mem_cons_self, rfl⟩
  | completionAlert q a response =>
    cases h
    simp only [exec, hexists, if_true, handleCompletion]
    exact Or.inr ⟨_, List.mem_cons_self, rfl⟩
  | requestRetryAlert q a response =>
    cases h
    simp only [exec, hexists, if_true, handleRetryRequest]
    refine Or.inr ?_
    split_ifs <;> exact ⟨_, List.mem_cons_self, rfl⟩
  | _ => cases h

theorem removesToken_carries (hexists : s.maintainerExists = true) {i : Instr} {p : ℕ × ℕ}
    (h : i.removesToken = some p) :
    i.takesBack = some p ∨ ∃ j ∈ (s.exec i).2, j.removesToken = some p := by
  cases i with
  | deleteCheckedOutToken q a | reuseToken q a newKey => exact Or.inl h
  | retryOrComplete q a response =>
    cases h
    refine Or.inr ?_
    simp only [exec]
    split_ifs <;> exact ⟨_, List.mem_cons_self, rfl⟩
  | completionAlert q a response =>
    cases h
    simp only [exec, hexists, if_true, handleCompletion]
    refine Or.inr ⟨_, List.mem_cons_of_mem _ List.mem_cons_self, ?_⟩
    split_ifs <;> rfl
  | requestRetryAlert q a response =>
    cases h
    simp only [exec, hexists, if_true, handleRetryRequest]
    refine Or.inr ?_
    split_ifs <;> exact ⟨_, List.mem_cons_of_mem _ List.mem_cons_self, rfl⟩
  | _ => cases h

theorem find?_inProgress_exec {i : Instr} {a : ℕ}
    (h : (s.exec i).1.locker.inProgressRequests.find? r = some a) :
    i.adds = some (r, a) ∨ (s.locker.inProgressRequests.find? r = some a ∧
      ¬ (i.removes = some (r, a) ∧ i.takesBack = some (r, a))) := by
  cases hmoves : i.movesInProgress with
  | false =>
    rw [inProgress_exec s hmoves] at h
    refine Or.inr ⟨h, ?_⟩
    rintro ⟨hremoves, htakes⟩
    rw [Instr.movesInProgress_of_removes hremoves htakes] at hmoves
    cases hmoves
  | true =>
    cases i with
    | addInProgressRequest q n | addInProgressRequestWithToken q n st =>
      rcases Table.find?_add h with ⟨rfl, -, rfl⟩ | h
      · exact Or.inl rfl
      · refine Or.inr ⟨h, ?_⟩
        rintro ⟨h, -⟩
        cases h
    | removeInProgressRequest q n | moveInProgressToDelayed q n =>
      obtain ⟨hne, h⟩ := Table.find?_erase h
      refine Or.inr ⟨h, ?_⟩
      rintro ⟨h, -⟩
      cases h
      exact hne rfl
    | moveInProgressToWaiting q n =>
      change (SessionMaintainerLocker.pushWaiting _ _ _).inProgressRequests.find? r = _ at h
      rw [SessionMaintainerLocker.inProgress_pushWaiting] at h
      obtain ⟨hne, h⟩ := Table.find?_erase h
      refine Or.inr ⟨h, ?_⟩
      rintro ⟨h, -⟩
      cases h
      exact hne rfl
    | moveRequests => cases h
    | _ => cases hmoves

/-- A token goes out of the table with the sections that take it back. -/
theorem find?_checkedOut_exec (htokens : TokensUsed s) {i : Instr} {st : CheckedOut}
    (h : (s.exec i).1.locker.checkedOutTokens.find? r = some st) :
    i.addsToken = some (r, st.attempt) ∨ (s.locker.checkedOutTokens.find? r = some st ∧
      ¬ (i.removesToken = some (r, st.attempt) ∧ i.takesBack = some (r, st.attempt))) := by
  rcases checkedOut_exec s h with hold | rfl
  · refine Or.inr ⟨hold, ?_⟩
    rintro ⟨hremoves, htakes⟩
    cases i with
    | deleteCheckedOutToken q n =>
      cases htakes
      exact (Table.find?_erase h).1 rfl
    | reuseToken q n newKey =>
      cases htakes
      obtain ⟨-, huses⟩ := htokens r (Or.inr (Or.inr (Table.mem_of_find? hold)))
      simp only [exec, setLocker_locker, SessionMaintainerLocker.reuseToken, huses, if_true,
        hold] at h
      exact (Table.find?_erase h).1 rfl
    | retryOrComplete | completionAlert | requestRetryAlert => cases htakes
    | _ => cases hremoves
  · exact Or.inl rfl

/-- `AttemptRequests` starts an attempt before it adds it. -/
theorem adds_pushed {i j : Instr} {p : ℕ × ℕ} (hj : j ∈ (s.exec i).2) (hadds : j.adds = some p) :
    (p.2, p.1) ∈ (s.exec i).1.apiRequests := by
  cases pushes_exec hj with
  | control h =>
    have hp := Instr.mem_requests_of_adds hadds
    rw [Instr.requests_of_control h] at hp
    cases hp
  | add | addWithToken =>
    cases hadds
    exact List.mem_append_right _ (List.mem_singleton_self _)
  | handleCompletion _ h =>
    rcases mem_handleCompletion h with rfl | rfl | rfl | rfl <;> cases hadds
  | handleRetryRequest _ h =>
    rcases mem_handleRetryRequest h with rfl | rfl | rfl | rfl | rfl <;> cases hadds
  | _ => cases hadds

theorem Returning.runs (h : Returning s) (htokens : TokensUsed s)
    (hexists : s.maintainerExists = true) {k : ℕ} {i : Instr} {rest : List Instr}
    (hk : s.threads[k]? = some (i :: rest))
    (hguard : ∀ p, i.takesBack = some p → ∀ j ∈ pending s.threads, j.adds ≠ some p) :
    Returning (s.runThread k i rest) := by
  have hthread := stepped_runThread hk
  refine ⟨fun r a hfind => ?_, fun j hj p hadds => ?_, fun r st hfind => ?_,
    fun j hj p hadds => ?_⟩
  · rcases find?_inProgress_exec hfind with hadds | ⟨hold, hnot⟩
    · refine ((h.adding i hthread.head_mem _ hadds).run hk (removes_carries hexists)).resolve_right ?_
      rintro ⟨-, htakes⟩
      exact hguard _ htakes i hthread.head_mem hadds
    · exact ((h.inProgress r a hold).run hk (removes_carries hexists)).resolve_right hnot
  · rcases hthread.mem hj with hj | hj
    · exact Or.inl (adds_pushed hj hadds)
    · refine ((h.adding j hj p hadds).run hk (removes_carries hexists)).resolve_right ?_
      rintro ⟨-, htakes⟩
      exact hguard p htakes j hj hadds
  · rcases find?_checkedOut_exec htokens hfind with hadds | ⟨hold, hnot⟩
    · refine ((h.addingToken i hthread.head_mem _ hadds).run hk
        (removesToken_carries hexists)).resolve_right ?_
      rintro ⟨-, htakes⟩
      exact hguard _ htakes i hthread.head_mem (Instr.adds_of_addsToken hadds)
    · exact ((h.checkedOut r st hold).run hk (removesToken_carries hexists)).resolve_right hnot
  · rcases hthread.mem hj with hj | hj
    · exact Or.inl (adds_pushed hj (Instr.adds_of_addsToken hadds))
    · refine ((h.addingToken j hj p hadds).run hk (removesToken_carries hexists)).resolve_right ?_
      rintro ⟨-, htakes⟩
      exact hguard p htakes j hj (Instr.adds_of_addsToken hadds)

/-- Handlers start without attempts to add. -/
theorem Returning.spawns (h : Returning s) {t : State} (program : List Instr)
    (hinProgress : t.locker.inProgressRequests = s.locker.inProgressRequests)
    (hout : ∀ r st, t.locker.checkedOutTokens.find? r = some st →
      s.locker.checkedOutTokens.find? r = some st)
    (hthreads : t.threads = Threads.spawn program s.threads)
    (hprogram : ∀ j ∈ program, j.adds = none)
    (hreturns : ∀ p : ℕ × ℕ, s.Alive p.1 → ((p.2, p.1) ∈ s.apiRequests → (p.2, p.1) ∈ t.apiRequests ∨
      ∃ response, .retryOrComplete p.1 p.2 response ∈ program)) : Returning t := by
  have hpending {j : Instr} (hj : j ∈ pending s.threads) : j ∈ pending t.threads := by
    rw [hthreads]
    exact mem_pending_spawn.mpr (Or.inl hj)
  have hback {removes : Instr → Option (ℕ × ℕ)} {p : ℕ × ℕ}
      (hretry : ∀ response, removes (.retryOrComplete p.1 p.2 response) = some p)
      (halive : s.Alive p.1) (hp : s.Returns removes p) : t.Returns removes p := by
    rcases hp with hmem | ⟨j, hj, hremoves⟩
    · rcases hreturns p halive hmem with hmem | ⟨response, hmem⟩
      · exact Or.inl hmem
      · refine Or.inr ⟨_, ?_, hretry response⟩
        rw [hthreads]
        exact mem_pending_spawn.mpr (Or.inr hmem)
    · exact Or.inr ⟨j, hpending hj, hremoves⟩
  have hadding {j : Instr} (hj : j ∈ pending t.threads) {p : ℕ × ℕ} (hadds : j.adds = some p) :
      j ∈ pending s.threads ∧ s.Alive p.1 := by
    rw [hthreads] at hj
    rcases mem_pending_spawn.mp hj with hj | hj
    · exact ⟨hj, Or.inr (Or.inr (Or.inr (Or.inr (Or.inr
        (Or.inl ⟨j, hj, Instr.mem_requests_of_adds hadds⟩)))))⟩
    · rw [hprogram j hj] at hadds
      cases hadds
  refine ⟨fun r a hfind => ?_, fun j hj p hadds => ?_, fun r st hfind => ?_,
    fun j hj p hadds => ?_⟩
  · rw [hinProgress] at hfind
    exact hback (fun _ => rfl) (Or.inr (Or.inr (Or.inl (Table.mem_of_find? hfind))))
      (h.inProgress r a hfind)
  · obtain ⟨hj, halive⟩ := hadding hj hadds
    exact hback (fun _ => rfl) halive (h.adding j hj p hadds)
  · have hfind := hout r st hfind
    exact hback (fun _ => rfl) (Or.inr (Or.inr (Or.inr (Or.inr (Or.inl
      (Table.mem_of_find? hfind))))))
      (h.checkedOut r st hfind)
  · obtain ⟨hj, halive⟩ := hadding hj (Instr.adds_of_addsToken hadds)
    exact hback (fun _ => rfl) halive (h.addingToken j hj p hadds)

theorem Returning.step {a : Act} (h : Returning s) (htokens : TokensUsed s)
    (hguard : s.AddsFirst a s') (hs : s.step a = some s') (hexists : s'.maintainerExists = true) :
    Returning s' := by
  cases moves_of_step hs with
  | quiet program hquiet hthreads hprogram =>
    refine h.spawns program hquiet.locker.inProgress hquiet.locker.checkedOut hthreads (fun j hj => ?_)
      fun p _ hmem => Or.inl (hquiet.apiRequests ▸ hmem)
    cases hadds : j.adds with
    | none => rfl
    | some p =>
      have hp := Instr.mem_requests_of_adds hadds
      rw [hprogram j hj] at hp
      cases hp
  | call uses hexists =>
    exact h.spawns [.addWaitingRequest s.called, .attemptRequests] rfl
      (fun _ _ hst => hst) rfl (by simp [Instr.adds]) fun p _ hmem => Or.inl hmem
  | cancelRequest q hheld =>
    exact h.spawns [.cancel q] rfl (fun _ _ hst => hst) rfl (by simp [Instr.adds])
      fun p _ hmem => Or.inl hmem
  | dropRequest q hheld =>
    exact h.spawns [] rfl (fun _ _ hst => hst) rfl (by simp)
      fun p _ hmem => Or.inl hmem
  | apiResponse n q response hmem =>
    have hother {p : ℕ × ℕ} (hp : (p.2, p.1) ∈ s.apiRequests) (hne : (p.2, p.1) ≠ (n, q)) :
        (p.2, p.1) ∈ (s.answered n q).apiRequests := (List.mem_erase_of_ne hne).mpr hp
    unfold State.apiResponse at hexists ⊢
    split_ifs with halive
    · refine h.spawns [.completionNotification response.errorCode,
        .retryOrComplete q n response] rfl (fun _ _ hst => hst) rfl (by simp [Instr.adds])
        fun p _ hp => ?_
      by_cases heq : (p.2, p.1) = (n, q)
      · cases heq
        exact Or.inr ⟨response, by simp⟩
      · exact Or.inl (hother hp heq)
    · refine h.spawns [] rfl (fun _ _ hst => hst) rfl (by simp) fun p hlives hp => ?_
      by_cases heq : (p.2, p.1) = (n, q)
      · cases heq
        exact absurd hlives halive
      · exact Or.inl (hother hp heq)
  | delayedFires q l hexists hl =>
    obtain ⟨events, -, rfl⟩ := SessionMaintainerLocker.nextDelayedRequest_eq_some hl
    exact h.spawns [.addWaitingRequest q, .attemptRequests] rfl
      (fun _ _ hst => hst) rfl (by simp [Instr.adds]) fun p _ hmem => Or.inl hmem
  | timeoutFires q l hexists hl =>
    have hsame := SessionMaintainerLocker.sameRequests_nextTimedOutRequest hl
    unfold State.timeoutFires
    split_ifs
    · exact h.spawns [.handleTimedOutRequest q] hsame.inProgress hsame.checkedOut rfl
        (by simp [Instr.adds]) fun p _ hmem => Or.inl hmem
    · exact h.spawns [] hsame.inProgress hsame.checkedOut
        (by simp [Threads.spawn, setLocker]) (by simp) fun p _ hmem => Or.inl hmem
  | destroy hexists' hout => cases hexists
  | run k i rest hk =>
    have hexists : s.maintainerExists = true := (s.frame_exec i).maintainerExists ▸ hexists
    exact h.runs htokens hexists hk fun p htakes => hguard k i rest p rfl hk htakes

/-- The invariant of the runs whose steps all add first. -/
structure Tidy (s : State) : Prop where
  oneLife : OneLife s
  tokensUsed : TokensUsed s
  returning : s.maintainerExists = true → Returning s

theorem exists_of_step {a : Act} (hs : s.step a = some s') (h : s'.maintainerExists = true) :
    s.maintainerExists = true := by
  cases moves_of_step hs with
  | quiet program hquiet _ _ => rwa [← hquiet.maintainerExists]
  | call _ hexists | delayedFires _ _ hexists _ | timeoutFires _ _ hexists _ => exact hexists
  | cancelRequest q _ | dropRequest q _ => exact h
  | apiResponse n q response _ =>
    unfold State.apiResponse at h
    split_ifs at h <;> exact h
  | destroy _ _ => cases h
  | run k i rest _ => exact (s.frame_exec i).maintainerExists ▸ h

theorem Tidy.step {a : Act} (h : Tidy s) (hguard : s.AddsFirst a s') (hs : s.step a = some s') :
    Tidy s' where
  oneLife := h.oneLife.step hs
  tokensUsed := h.tokensUsed.step h.oneLife hs
  returning hexists :=
    (h.returning (exists_of_step hs hexists)).step h.tokensUsed hguard hs hexists

theorem tidy_created : Tidy created where
  oneLife := oneLife_created
  tokensUsed r h := by
    rcases h with hmem | ⟨i, hi, -⟩ | hmem
    · cases hmem
    · cases hi
    · cases hmem
  returning _ := by
    refine ⟨fun r a h => ?_, fun j hj => ?_, fun r st h => ?_, fun j hj => ?_⟩
    · cases h
    · cases hj
    · cases h
    · cases hj

/-- Where what an attempt holds is taken back only when it has been added, every finished attempt
has given back everything. -/
theorem givenBack_of_addsFirst {acts : List Act}
    (hguard : Along State.step AddsFirst created acts) :
    Always State.step GivenBack created acts :=
  Always.of_guarded (fun _ (h : Tidy _) => Returning.givenBack h.returning)
    (fun _ _ _ h hg hs => h.step hg hs) tidy_created hguard

/-- A call is answered when it has been added. -/
def answeredAfterAdd : List Act := loginAndCall ++ .apiResponse 1 0 {} :: List.replicate 14 (.run 0)

theorem givenBack_answeredAfterAdd : Always State.step GivenBack created answeredAfterAdd :=
  givenBack_of_addsFirst <| along_of_check
    (p := fun s a => match a with
      | .run k => (s.threads[k]?.bind List.head?).all fun i =>
        i.takesBack.all fun p => (pending s.threads).all fun j => j.adds ≠ some p
      | _ => true)
    (fun s a s' hp k i rest p ha hk htakes j hj => by
      subst ha
      simp only [hk, Option.bind_some, List.head?_cons, Option.all_some, htakes, List.all_eq_true,
        decide_eq_true_eq] at hp
      exact hp j hj) (by decide +kernel)

/-- The answer is handled on another thread before `AttemptRequests` adds the request. -/
def answeredBeforeAdd : List Act :=
  login ++ .call true :: List.replicate 6 (.run 0) ++
    .apiResponse 1 0 {} :: List.replicate 16 (.run 1) ++ List.replicate 6 (.run 0)

theorem not_givenBack : ¬ ∀ acts, Always State.step GivenBack created acts := by
  intro h
  have hrun : (run State.step created answeredBeforeAdd).map (fun s =>
      decide (s.maintainerExists = true ∧ s.apiRequests = [] ∧ s.threads = [] ∧
        s.locker.inProgressRequests.find? 0 = some 1 ∧
        (s.locker.checkedOutTokens.find? 0).isSome)) = some true := by decide +kernel
  obtain ⟨s, hs, hheld⟩ := Option.map_eq_some_iff.mp hrun
  obtain ⟨hexists, hflight, hthreads, hfind, -⟩ := of_decide_eq_true hheld
  refine (((h answeredBeforeAdd).last hs hexists 0 1 (by simp [hflight]) ?_).1) hfind
  simp [hthreads, pending]

end State

end MediafireSdk.Api
