import MediafireSdk.Api.Sequential

/-! A session token is in one place at a time, and no two requests in progress were
started with the same one. Steps only move tokens, so there are no more copies of a
token than answers of the server brought; while the request it was taken for is in
progress, the token is checked out for that request or gone for good. -/

namespace MediafireSdk.Api

open Threads Runs

def SessionTokenData.is (t : String) (st : SessionTokenData) : ℕ :=
  if st.sessionToken = t then 1 else 0

theorem SessionTokenData.is_self (st : SessionTokenData) : st.is st.sessionToken = 1 := if_pos rfl

namespace State

variable {s s' : State} {t : String}

def issuedTokens (s : State) : List String := s.issued.map SessionTokenData.sessionToken

/-- The condition on the server: its tokens are distinct, with keys in range. -/
structure ServerTokens (s : State) (a : Act) (_ : State) : Prop where
  distinct : ∀ n c response, a = .tokenResponse n c response → response.errorCode = none →
    response.sessionToken ∉ s.issuedTokens
  key : ∀ n c response, a = .tokenResponse n c response → response.errorCode = none →
    1 ≤ response.secretKey ∧ response.secretKey ≤ 2147483646

/-! ### Copies of a token -/

/-- In the tables, between them, and in answers still to be looked at. -/
def copies (s : State) (t : String) : ℕ :=
  s.locker.tokenWeight (SessionTokenData.is t) + load (Instr.weight (SessionTokenData.is t)) s.threads +
    load (Instr.arrivingWeight (SessionTokenData.is t)) s.threads

structure Distinct (s : State) : Prop where
  issued : s.issuedTokens.Nodup
  copies : ∀ t, s.copies t ≤ s.issuedTokens.count t

theorem Distinct.copies_le_one (h : Distinct s) (t : String) : s.copies t ≤ 1 :=
  (h.copies t).trans (List.nodup_iff_count_le_one.mp h.issued t)

theorem Distinct.mem_issued (h : Distinct s) (ht : 0 < s.copies t) : t ∈ s.issuedTokens :=
  List.count_pos_iff.mp (ht.trans_le (h.copies t))

theorem one_le_stored {l : SessionMaintainerLocker} {st : SessionTokenData}
    (h : st ∈ l.sessionTokens) :
    1 ≤ (l.sessionTokens.map (SessionTokenData.is st.sessionToken)).sum :=
  st.is_self ▸ List.single_le_sum (by simp) _ (List.mem_map_of_mem h)

theorem one_le_checkedOut {l : SessionMaintainerLocker} {r : ℕ} {out : CheckedOut}
    (h : l.checkedOutTokens.find? r = some out) :
    1 ≤ l.checkedOutTokens.weigh fun o => o.token.is out.token.sessionToken :=
  out.token.is_self ▸ Table.le_weigh (fun o => o.token.is out.token.sessionToken) h

theorem one_le_moving {i : Instr} {st : SessionTokenData} (hi : i ∈ pending s.threads)
    (hst : st ∈ i.tokens) : 1 ≤ load
      (Instr.weight (SessionTokenData.is st.sessionToken)) s.threads := by
  refine le_trans ?_ (le_load _ hi)
  exact st.is_self ▸ List.single_le_sum (by simp) _ (List.mem_map_of_mem hst)

theorem arriving_pushed {i j : Instr} (hj : j ∈ (s.exec i).2) : j.arriving = [] := by
  cases pushes_exec hj with
  | control h => exact Instr.arriving_of_tokenless (Instr.tokenless_of_control h)
  | handleCompletion _ h => rcases mem_handleCompletion h with rfl | rfl | rfl | rfl <;> rfl
  | handleRetryRequest _ h =>
    rcases mem_handleRetryRequest h with rfl | rfl | rfl | rfl | rfl <;> rfl
  | _ => rfl

theorem copies_runThread {k : ℕ} {i : Instr} {rest : List Instr}
    (hk : s.threads[k]? = some (i :: rest)) (t : String) :
    (s.runThread k i rest).copies t ≤ s.copies t := by
  have hthread := stepped_runThread hk
  have hmoving := hthread.load (Instr.weight (SessionTokenData.is t))
  have harriving := hthread.load (Instr.arrivingWeight (SessionTokenData.is t))
  have hnone : ((s.exec i).2.map (Instr.arrivingWeight (SessionTokenData.is t))).sum = 0 := by
    apply List.sum_eq_zero
    intro n hn
    obtain ⟨j, hj, rfl⟩ := List.mem_map.mp hn
    rw [Instr.arrivingWeight, arriving_pushed hj]
    rfl
  have hweight := s.weight_exec (SessionTokenData.is t)
    (fun newKey st => by
      simp only [SessionTokenData.is, SessionMaintainerLocker.renewKey_sessionToken]) i
  have hlocker : (s.runThread k i rest).locker = (s.exec i).1.locker := rfl
  simp only [copies, hlocker]
  omega

theorem arrivingWeight_of_tokenless {program : List Instr} {weight : SessionTokenData → ℕ}
    (h : ∀ j ∈ program, j.tokenless = true) :
    (program.map (Instr.arrivingWeight weight)).sum = 0 := by
  apply List.sum_eq_zero
  intro n hn
  obtain ⟨j, hj, rfl⟩ := List.mem_map.mp hn
  rw [Instr.arrivingWeight, Instr.arriving_of_tokenless (h j hj)]
  rfl

/-- What an action brings is a token of the server. -/
theorem copies_of_step {a : Act} (hs : s.step a = some s') (t : String) :
    s'.copies t ≤ s.copies t ∧ s'.issued = s.issued ∨
      ∃ n c response, a = .tokenResponse n c response ∧ response.errorCode = none ∧
        s'.issued = s.issued ++ [response.token c] ∧
        s'.copies t ≤ s.copies t + (response.token c).is t := by
  cases tokenMoves_of_step hs with
  | starts program hlocker _ hissued _ hthreads hprogram =>
    refine Or.inl ⟨?_, hissued⟩
    rw [copies, hlocker.tokenWeight, hthreads, load_spawn, load_spawn,
      sum_weight_of_tokenless hprogram, arrivingWeight_of_tokenless hprogram]
    exact le_rfl
  | setLoginCredentials c _ =>
    refine Or.inl ⟨?_, rfl⟩
    simp only [copies, State.spawn, load_spawn]
    exact le_rfl
  | destroy _ _ =>
    refine Or.inl ⟨?_, rfl⟩
    simp only [copies, State.spawn, load_spawn]
    exact le_rfl
  | tokenResponse n c response hmem =>
    by_cases hmaintainer : s.maintainerExists = true
    · rw [State.tokenResponse, if_pos hmaintainer]
      by_cases hec : response.errorCode = none
      · refine Or.inr ⟨n, c, response, rfl, hec, if_pos hec, ?_⟩
        simp only [copies, State.spawn, load_spawn, List.map_cons, List.map_nil, List.sum_cons,
          List.sum_nil, Instr.weight, Instr.arrivingWeight, Instr.tokens, Instr.arriving, hec, if_true]
        omega
      · refine Or.inl ⟨?_, if_neg hec⟩
        simp only [copies, State.spawn, load_spawn, List.map_cons, List.map_nil, List.sum_cons,
          List.sum_nil, Instr.weight, Instr.arrivingWeight, Instr.tokens, Instr.arriving, hec, if_false]
        exact le_rfl
    · rw [State.tokenResponse, if_neg hmaintainer]
      exact Or.inl ⟨le_rfl, rfl⟩
  | run k i rest hk => exact Or.inl ⟨copies_runThread hk t, (s.frame_exec i).issued⟩

theorem Distinct.step {a : Act} (h : Distinct s) (hguard : s.ServerTokens a s')
    (hs : s.step a = some s') : Distinct s' := by
  refine ⟨?_, fun t => ?_⟩
  · rcases copies_of_step hs "" with ⟨-, hissued⟩ | ⟨n, c, response, ha, hec, hissued, -⟩
    · rw [issuedTokens, hissued]
      exact h.issued
    · rw [issuedTokens, hissued, List.map_append, List.map_singleton]
      refine List.nodup_append.mpr ⟨h.issued, List.nodup_singleton _, fun t ht t' ht' => ?_⟩
      rintro rfl
      rw [List.mem_singleton.mp ht'] at ht
      exact hguard.distinct n c response ha hec ht
  · have hbefore := h.copies t
    rcases copies_of_step hs t with ⟨hle, hissued⟩ | ⟨n, c, response, -, -, hissued, hle⟩
    · rw [issuedTokens, hissued]
      exact hle.trans hbefore
    · have hone : (response.token c).is t = if response.sessionToken = t then 1 else 0 := rfl
      have hcount : s'.issuedTokens.count t =
          s.issuedTokens.count t + if response.sessionToken = t then 1 else 0 := by
        rw [issuedTokens, hissued, List.map_append, List.count_append, List.map_singleton,
          List.count_singleton]
        simp only [beq_iff_eq]
        rfl
      omega

theorem distinct_created : Distinct created := ⟨List.nodup_nil, fun _ => Nat.zero_le _⟩

end State

/-! ### Requests in progress -/

namespace Instr

/-- A request that is started without a token. -/
def untokened : Instr → Option ℕ
  | .init r | .addInProgressRequest r _ => some r
  | _ => none

/-- The request whose token an instruction takes back. -/
def givesBack : Instr → Option ℕ
  | .deleteCheckedOutToken r _ | .reuseToken r _ _ => some r
  | _ => none

/-- The request that goes out of `in_progress_requests_`. -/
def movesOut : Instr → Option ℕ
  | .removeInProgressRequest r _ | .moveInProgressToWaiting r _
  | .moveInProgressToDelayed r _ => some r
  | _ => none

/-- What a handler may start with: no request is half started or half given back. -/
def opens (i : Instr) : Prop := i.untokened = none ∧ i.givesBack = none ∧ i.adds = none

theorem opens_of_requests {i : Instr} (h : i.requests = []) : i.opens := by
  cases i <;> first | exact ⟨rfl, rfl, rfl⟩ | cases h

theorem requests_of_untokened {i : Instr} {r : ℕ} (h : i.untokened = some r) :
    r ∈ i.requests := by
  cases i <;> cases h <;> exact List.mem_singleton_self _

theorem requests_of_givesBack {i : Instr} {r : ℕ} (h : i.givesBack = some r) :
    r ∈ i.requests := by
  cases i <;> cases h <;> exact List.mem_singleton_self _

theorem first_of_givesBack {i : Instr} {r : ℕ} (h : i.givesBack = some r) : i.first = 2 := by
  cases i <;> first | rfl | cases h

theorem last_of_givesBack {i : Instr} {r : ℕ} (h : i.givesBack = some r) : i.last = 2 := by
  cases i <;> first | rfl | cases h

theorem only_givesBack {i : Instr} {r : ℕ} (h : i.givesBack = some r) :
    i.adds = none ∧ i.movesOut = none := by
  cases i <;> first | exact ⟨rfl, rfl⟩ | cases h

theorem first_of_movesOut {i : Instr} {r : ℕ} (h : i.movesOut = some r) : i.first = 1 := by
  cases i <;> first | rfl | cases h

theorem first_of_removes {i : Instr} {p : ℕ × ℕ} (h : i.removes = some p) : i.first = 1 := by
  cases i <;> first | rfl | cases h

theorem stages_of_adds {i : Instr} {p : ℕ × ℕ} (h : i.adds = some p) :
    i.first = 0 ∧ i.last = 3 := by
  cases i <;> first | exact ⟨rfl, rfl⟩ | cases h

theorem last_of_takesBack {i : Instr} {p : ℕ × ℕ} (h : i.takesBack = some p) : 1 ≤ i.last := by
  cases i <;> first | exact le_rfl | exact Nat.le_succ 1 | cases h

end Instr

namespace State

variable {s s' : State} {r : ℕ} {t : String}

/-- Handlers one at a time add a request before they take it back. -/
theorem InOrder.addsFirst {a : Act} (h : InOrder s) : s.AddsFirst a s' := by
  intro k i rest p _ hk htakes j hj hadds
  rw [(h.pending_runThread hk).1] at hj
  rcases List.mem_cons.mp hj with rfl | hj
  · cases j with
    | addInProgressRequest q n | addInProgressRequestWithToken q n st => cases htakes
    | _ => cases hadds
  · have hbehind := h.staged.behind hk hj
    have hlast := Instr.last_of_takesBack htakes
    have hfirst := (Instr.stages_of_adds hadds).1
    omega

/-- A request gets its token when it is not in progress. -/
theorem notMem_inProgress_of_initWithToken (htidy : Tidy s) (hexists : s.maintainerExists = true)
    (horder : InOrder s) {k : ℕ} {st : SessionTokenData} {rest : List Instr}
    (hk : s.threads[k]? = some (.initWithToken r st :: rest)) :
    r ∉ s.locker.inProgressRequests := by
  intro hr
  obtain ⟨a, ha⟩ := Table.exists_find? hr
  have hhead := (stepped_runThread hk).head_mem
  rcases (htidy.returning hexists).inProgress r a ha with hmem | ⟨j, hj, hremoves⟩
  · have hpos : 0 < s.attempts r := attempts_pos hmem
    have hone : (Instr.initWithToken r st).life r = 1 := if_pos rfl
    have hle := le_load (Instr.life r) hhead
    have hlives := htidy.oneLife r
    unfold lives at hlives
    split_ifs at hlives <;> omega
  · rw [(horder.pending_runThread hk).1] at hj
    rcases List.mem_cons.mp hj with rfl | hj
    · cases hremoves
    · have hbehind := horder.staged.behind hk hj
      rw [Instr.first_of_removes hremoves] at hbehind
      exact absurd hbehind (by simp [Instr.last])

theorem sessionToken_exec (s : State) {i : Instr} (h : ∀ st, i ≠ .initWithToken r st) :
    ((s.exec i).1.requests r).sessionToken = (s.requests r).sessionToken := by
  by_cases hwrites : i.writes = some r
  · cases i with
    | init q | completionCallback q =>
      cases hwrites
      simp [exec, init, setRequest]
    | initWithToken q st =>
      cases hwrites
      exact absurd rfl (h st)
    | _ => cases hwrites
  · rw [s.requests_exec hwrites]

theorem mem_waitingNonSt_exec {i : Instr} (h : r ∈ (s.exec i).1.locker.waitingNonStRequests) :
    r ∈ s.locker.waitingNonStRequests ∨
      (i.puts = some r ∧ (s.requests r).usesSessionToken = false) := by
  by_cases hquiet : i.quiet = true
  · exact Or.inl ((quiet_exec hquiet).1.locker.waitingNonSt ▸ h)
  cases i with
  | addWaitingRequest q | moveInProgressToWaiting q a =>
    change r ∈ (SessionMaintainerLocker.pushWaiting _ _ _).waitingNonStRequests at h
    cases huses : (s.requests q).usesSessionToken with
    | true =>
      rw [huses] at h
      exact Or.inl h
    | false =>
      rw [huses] at h
      rcases List.mem_append.mp h with h | h
      · exact Or.inl h
      · cases List.mem_singleton.mp h
        exact Or.inr ⟨rfl, huses⟩
  | nextWaitingNonSessionTokenRequest =>
    rcases s.attemptNonSessionTokenRequest_cases with ⟨q, l, hl, heq⟩ | heq
    · obtain ⟨waiting, hwaiting, rfl⟩ :=
        SessionMaintainerLocker.nextWaitingNonSessionTokenRequest_eq_some hl
      simp only [exec, heq, setLocker_locker] at h
      exact Or.inl (hwaiting ▸ List.mem_cons_of_mem q h)
    · simp only [exec, heq] at h
      exact Or.inl h
  | nextWaitingSessionTokenRequest =>
    rcases s.attemptSessionTokenRequest_cases with ⟨q, st, l, hl, heq⟩ | heq
    · obtain ⟨waiting, tokens, -, -, rfl⟩ :=
        SessionMaintainerLocker.nextWaitingSessionTokenRequest_eq_some hl
      simp only [exec, heq, setLocker_locker] at h
      exact Or.inl h
    · simp only [exec, heq] at h
      exact Or.inl h
  | handleTimedOutRequest q =>
    rcases s.handleTimedOutRequest_cases q with ⟨l, hl, heq⟩ | ⟨-, heq⟩
    · rcases SessionMaintainerLocker.handleTimedOutRequest_eq_some hl with ⟨-, rfl⟩ | ⟨-, rfl⟩
      · simp only [exec, heq, setLocker_locker] at h
        exact Or.inl h
      · simp only [exec, heq, setLocker_locker] at h
        exact Or.inl (List.mem_of_mem_erase h)
    · simp only [exec, heq] at h
      exact Or.inl h
  | reuseToken q a newKey =>
    exact Or.inl ((s.locker.sameRequests_reuseToken (s.requests q).usesSessionToken q
      newKey).waitingNonSt ▸ h)
  | moveRequests => cases h
  | _ => first | exact Or.inl h | exact absurd rfl hquiet

/-- The token is checked out for the request, or gone. -/
def HoldsOrSpent (s : State) (r : ℕ) (t : String) : Prop :=
  (∃ out, s.locker.checkedOutTokens.find? r = some out ∧ out.token.sessionToken = t) ∨
    (t ∈ s.issuedTokens ∧ s.copies t = 0)

/-- The invariant of the requests in progress. -/
structure Shares (s : State) : Prop where
  uses : ∀ r t, (s.requests r).sessionToken = some t → (s.requests r).usesSessionToken = true
  waitingNonSt : ∀ r ∈ s.locker.waitingNonStRequests, (s.requests r).usesSessionToken = false
  starting : ∀ i ∈ pending s.threads, ∀ r, i.untokened = some r →
    (s.requests r).usesSessionToken = false
  adding : ∀ r a st, .addInProgressRequestWithToken r a st ∈ pending s.threads →
    (s.requests r).sessionToken = some st.sessionToken
  givingBack : ∀ i ∈ pending s.threads, ∀ r, i.givesBack = some r →
    r ∈ s.locker.inProgressRequests → ∃ j ∈ pending s.threads, j.movesOut = some r
  held : ∀ r ∈ s.locker.inProgressRequests, ∀ t, (s.requests r).sessionToken = some t →
    s.HoldsOrSpent r t
  alone : ∀ r ∈ s.locker.inProgressRequests, ∀ r' ∈ s.locker.inProgressRequests, ∀ t,
    (s.requests r).sessionToken = some t → (s.requests r').sessionToken = some t → r = r'

/-! ### One section of a handler -/

section Section

variable {k : ℕ} {i : Instr} {rest : List Instr}

theorem one_le_copies_of_checkedOut {out : CheckedOut}
    (h : s.locker.checkedOutTokens.find? r = some out) : 1 ≤ s.copies out.token.sessionToken := by
  have hone := one_le_checkedOut h
  unfold copies SessionMaintainerLocker.tokenWeight
  omega

/-- The request that is added held no token, and its token is nowhere else. -/
theorem copies_addInProgressRequestWithToken {a : ℕ} {st : SessionTokenData}
    (hk : s.threads[k]? = some (.addInProgressRequestWithToken r a st :: rest))
    (hout : r ∈ s.locker.checkedOutTokens) :
    (s.runThread k (.addInProgressRequestWithToken r a st) rest).copies st.sessionToken + 1 ≤
      s.copies st.sessionToken := by
  have hthread := stepped_runThread hk
  have hmoving := hthread.load (Instr.weight (SessionTokenData.is st.sessionToken))
  have harriving := hthread.load (Instr.arrivingWeight (SessionTokenData.is st.sessionToken))
  have hweight : Instr.weight (SessionTokenData.is st.sessionToken)
      (.addInProgressRequestWithToken r a st) = 1 := by
    simp [Instr.weight, Instr.tokens, SessionTokenData.is_self]
  have hsame : (s.runThread k (.addInProgressRequestWithToken r a st) rest).locker.tokenWeight
      (SessionTokenData.is st.sessionToken) =
        s.locker.tokenWeight (SessionTokenData.is st.sessionToken) := by
    change (s.locker.addInProgressRequestWithToken r a st).tokenWeight _ = _
    simp only [SessionMaintainerLocker.tokenWeight,
      SessionMaintainerLocker.addInProgressRequestWithToken, Table.add, if_pos hout,
      SessionMaintainerLocker.addInProgressRequest]
  simp only [exec, List.map_nil, List.sum_nil] at hmoving harriving
  unfold copies
  omega

/-- Where the tables are cleared no copy is left of a token that was in one. -/
theorem copies_of_cleared (hk : s.threads[k]? = some (i :: rest)) {out : CheckedOut}
    (hout : s.locker.checkedOutTokens.find? r = some out)
    (hpushed : (s.exec i).2 = [])
    (hcleared : (s.exec i).1.locker.checkedOutTokens = ∅)
    (hstored : (s.exec i).1.locker.sessionTokens = [] ∨
      (s.exec i).1.locker.sessionTokens = s.locker.sessionTokens) :
    (s.runThread k i rest).copies out.token.sessionToken + 1 ≤ s.copies out.token.sessionToken := by
  have hthread := stepped_runThread hk
  have hmoving := hthread.load (Instr.weight (SessionTokenData.is out.token.sessionToken))
  have harriving := hthread.load (Instr.arrivingWeight (SessionTokenData.is out.token.sessionToken))
  have hone := one_le_checkedOut hout
  rw [hpushed, List.map_nil, List.sum_nil] at hmoving harriving
  have hlocker : (s.runThread k i rest).locker = (s.exec i).1.locker := rfl
  unfold copies SessionMaintainerLocker.tokenWeight
  rw [hlocker, hcleared, Table.weigh_empty]
  rcases hstored with hstored | hstored
  · rw [hstored, List.map_nil, List.sum_nil]
    omega
  · rw [hstored]
    omega

/-- A token that is checked out stays so, or every copy of it is gone, unless it is taken back. -/
theorem holdsOrSpent_exec (hdistinct : Distinct s) (hk : s.threads[k]? = some (i :: rest))
    {out : CheckedOut} (hout : s.locker.checkedOutTokens.find? r = some out)
    (hgives : i.givesBack ≠ some r) :
    (s.runThread k i rest).HoldsOrSpent r out.token.sessionToken := by
  have hissued : (s.runThread k i rest).issuedTokens = s.issuedTokens :=
    congrArg (List.map SessionTokenData.sessionToken) (s.frame_exec i).issued
  have hmem : out.token.sessionToken ∈ s.issuedTokens :=
    hdistinct.mem_issued (one_le_copies_of_checkedOut hout)
  have hcopies := hdistinct.copies_le_one out.token.sessionToken
  have hspent (h : (s.runThread k i rest).copies out.token.sessionToken + 1 ≤
      s.copies out.token.sessionToken) :
      (s.runThread k i rest).HoldsOrSpent r out.token.sessionToken :=
    Or.inr ⟨hissued ▸ hmem, by omega⟩
  have hkept (h : (s.exec i).1.locker.checkedOutTokens.find? r = some out) :
      (s.runThread k i rest).HoldsOrSpent r out.token.sessionToken := Or.inl ⟨out, h, rfl⟩
  cases hmoves : i.movesTokens with
  | false => exact hkept ((s.sameTokens_exec hmoves).checkedOut ▸ hout)
  | true =>
    cases i with
    | setCredentials c =>
      have hlocker : (s.exec (.setCredentials c)).1.locker = s.locker.setCredentials c := rfl
      rcases s.locker.setCredentials_cases c with ⟨-, heq⟩ | ⟨-, -, heq⟩ | ⟨-, -, hchanged⟩
      · exact hkept (by rw [hlocker, heq]; exact hout)
      · exact hkept (by rw [hlocker, heq]; exact hout)
      · exact hspent (copies_of_cleared hk hout rfl hchanged.checkedOut (Or.inl hchanged.stored))
    | setSessionStateSafe newState count c =>
      have hlocker : (s.exec (.setSessionStateSafe newState count c)).1.locker =
        s.locker.setSessionStateSafe newState count := rfl
      rcases s.locker.setSessionStateSafe_cases newState count with ⟨-, heq⟩ | ⟨-, -, hchanged⟩
      · exact hkept (by rw [hlocker, heq]; exact hout)
      · cases hclears : newState.clearsTokens with
        | false =>
          refine hkept ?_
          rw [hlocker, hchanged.checkedOut, hclears]
          exact hout
        | true =>
          refine hspent (copies_of_cleared hk hout rfl ?_ (Or.inl ?_))
          · rw [hlocker, hchanged.checkedOut, hclears]
            rfl
          · rw [hlocker, hchanged.stored, hclears]
            rfl
    | release rs => exact hspent (copies_of_cleared hk hout rfl rfl (Or.inr rfl))
    | nextWaitingSessionTokenRequest =>
      rcases s.attemptSessionTokenRequest_cases with ⟨q, st, l, hl, heq⟩ | heq
      · obtain ⟨waiting, tokens, -, -, rfl⟩ :=
          SessionMaintainerLocker.nextWaitingSessionTokenRequest_eq_some hl
        refine hkept ?_
        simp only [exec, heq, setLocker_locker]
        exact hout
      · refine hkept ?_
        simp only [exec, heq]
        exact hout
    | tryRequestSessionToken c loop =>
      rcases s.tryRequestSessionToken_cases c loop with ⟨l, hl, heq⟩ | heq
      · obtain ⟨-, rfl⟩ := SessionMaintainerLocker.startRequestSessionToken_eq_some hl
        refine hkept ?_
        simp only [exec, heq, setLocker_locker]
        exact hout
      · refine hkept ?_
        simp only [exec, heq]
        exact hout
    | addSessionToken response c state count =>
      rcases s.addSessionToken_cases response c state count with ⟨l, hl, heq⟩ | ⟨-, heq⟩
      · obtain ⟨-, rfl⟩ := SessionMaintainerLocker.addSessionToken_eq_some hl
        refine hkept ?_
        simp only [exec, heq, setLocker_locker]
        exact hout
      · refine hkept ?_
        simp only [exec, heq]
        exact hout
    | addInProgressRequestWithToken q a st =>
      refine hkept ?_
      change (s.locker.checkedOutTokens.add q ⟨st, a⟩).find? r = some out
      exact Table.find?_add_of_find? hout
    | deleteCheckedOutToken q a =>
      have hne : r ≠ q := fun heq => hgives (congrArg some heq.symm)
      exact hkept ((Table.find?_erase_of_ne hne).trans hout)
    | reuseToken q a newKey =>
      have hne : r ≠ q := fun heq => hgives (congrArg some heq.symm)
      refine hkept ?_
      rcases s.locker.reuseToken_cases (s.requests q).usesSessionToken q newKey with
        heq | ⟨o, -, -, heq⟩
      · simp only [exec, setLocker_locker, heq]
        exact hout
      · simp only [exec, setLocker_locker, heq]
        exact (Table.find?_erase_of_ne hne).trans hout
    | handleSessionTokenResponse response c => exact hkept hout
    | _ => cases hmoves

theorem mem_inProgress_of_exec (h : r ∈ (s.exec i).1.locker.inProgressRequests) :
    (∃ a, i.adds = some (r, a)) ∨ (r ∈ s.locker.inProgressRequests ∧ i.movesOut ≠ some r) := by
  obtain ⟨a, ha⟩ := Table.exists_find? h
  rcases find?_inProgress_exec ha with hadds | ⟨hold, hnot⟩
  · exact Or.inl ⟨a, hadds⟩
  · refine Or.inr ⟨Table.mem_of_find? hold, fun hout => ?_⟩
    cases i with
    | removeInProgressRequest q n | moveInProgressToDelayed q n =>
      cases hout
      exact (Table.find?_erase ha).1 rfl
    | moveInProgressToWaiting q n =>
      cases hout
      change (SessionMaintainerLocker.pushWaiting _ _ _).inProgressRequests.find? r = _ at ha
      rw [SessionMaintainerLocker.inProgress_pushWaiting] at ha
      exact (Table.find?_erase ha).1 rfl
    | _ => cases hout

theorem untokened_pushed {j : Instr} (h : Shares s) (hi : i ∈ pending s.threads)
    (hj : j ∈ (s.exec i).2) (hr : j.untokened = some r) :
    (s.requests r).usesSessionToken = false := by
  cases pushes_exec hj with
  | control hcontrol =>
    have hmem := Instr.requests_of_untokened hr
    rw [Instr.requests_of_control hcontrol] at hmem
    cases hmem
  | init hmem =>
    cases hr
    exact h.waitingNonSt r hmem
  | add =>
    cases hr
    exact h.starting _ hi r rfl
  | handleCompletion _ h => rcases mem_handleCompletion h with rfl | rfl | rfl | rfl <;> cases hr
  | handleRetryRequest _ h =>
    rcases mem_handleRetryRequest h with rfl | rfl | rfl | rfl | rfl <;> cases hr
  | _ => cases hr

/-- What gives a token back comes behind what takes its request out. -/
theorem givesBack_pushed {j : Instr} (hj : j ∈ (s.exec i).2) (hr : j.givesBack = some r) :
    ∃ j' ∈ (s.exec i).2, j'.movesOut = some r := by
  cases pushes_exec hj with
  | control hcontrol =>
    have hmem := Instr.requests_of_givesBack hr
    rw [Instr.requests_of_control hcontrol] at hmem
    cases hmem
  | @handleCompletion q a response _ hexists h =>
    simp only [exec, hexists, if_true]
    rcases mem_handleCompletion h with rfl | rfl | rfl | rfl <;> cases hr <;>
      exact ⟨.removeInProgressRequest r a, List.mem_cons_self, rfl⟩
  | @handleRetryRequest q a response _ hexists h =>
    simp only [exec, hexists, if_true]
    obtain ⟨j', hj', hout⟩ : ∃ j' ∈ handleRetryRequest q a response, j'.movesOut = some q := by
      unfold handleRetryRequest
      split_ifs
      · exact ⟨.moveInProgressToWaiting q a, List.mem_cons_self, rfl⟩
      · exact ⟨.moveInProgressToDelayed q a, List.mem_cons_self, rfl⟩
    rcases mem_handleRetryRequest h with rfl | rfl | rfl | rfl | rfl <;> cases hr <;>
      exact ⟨j', hj', hout⟩
  | _ => cases hr

theorem addsWithToken_pushed {j : Instr} {a : ℕ} {st : SessionTokenData}
    (hj : j ∈ (s.exec i).2) (heq : j = .addInProgressRequestWithToken r a st) :
    i = .initWithToken r st := by
  subst heq
  cases pushes_exec hj with
  | control hcontrol => cases hcontrol
  | addWithToken => rfl
  | handleCompletion _ h => rcases mem_handleCompletion h with h | h | h | h <;> cases h
  | handleRetryRequest _ h =>
    rcases mem_handleRetryRequest h with h | h | h | h | h <;> cases h

theorem Shares.runs (h : Shares s) (htidy : Tidy s) (hexists : s.maintainerExists = true)
    (horder : InOrder s) (hdistinct : Distinct s) (hk : s.threads[k]? = some (i :: rest)) :
    Shares (s.runThread k i rest) := by
  have hthread := stepped_runThread hk
  have hpending := (horder.pending_runThread hk).1
  -- a token is set for requests that are neither in progress nor about to be added
  have hsame {r : ℕ} (hr : r ∈ s.locker.inProgressRequests) :
      ((s.runThread k i rest).requests r).sessionToken = (s.requests r).sessionToken := by
    refine s.sessionToken_exec fun st heq => ?_
    subst heq
    exact notMem_inProgress_of_initWithToken htidy hexists horder hk hr
  have hbehind {j : Instr} (hj : j ∈ pending s.threads) (hne : j ≠ i) : i.last ≤ j.first := by
    rw [hpending] at hj
    exact horder.staged.behind hk ((List.mem_cons.mp hj).resolve_left hne)
  have hcopies (t : String) := copies_runThread hk t
  have hissued : (s.runThread k i rest).issuedTokens = s.issuedTokens :=
    congrArg (List.map SessionTokenData.sessionToken) (s.frame_exec i).issued
  have huses (r : ℕ) : ((s.runThread k i rest).requests r).usesSessionToken =
      (s.requests r).usesSessionToken := s.uses_exec i r
  have husesToken {r : ℕ} {t : String}
      (ht : ((s.runThread k i rest).requests r).sessionToken = some t) :
      (s.requests r).usesSessionToken = true := by
    by_cases hinit : ∃ st, i = .initWithToken r st
    · obtain ⟨st, rfl⟩ := hinit
      exact (htidy.tokensUsed r (Or.inr (Or.inl ⟨_, hthread.head_mem, rfl⟩))).2
    · push Not at hinit
      rw [show ((s.runThread k i rest).requests r).sessionToken = (s.requests r).sessionToken from
        s.sessionToken_exec hinit] at ht
      exact h.uses r t ht
  -- the request that is added uses a session token, and this is the one
  have hadded {r a : ℕ} (hadds : i.adds = some (r, a)) {t : String}
      (ht : ((s.runThread k i rest).requests r).sessionToken = some t) :
      ∃ st, i = .addInProgressRequestWithToken r a st ∧ st.sessionToken = t := by
    have huse := husesToken ht
    cases i with
    | addInProgressRequest q n =>
      cases hadds
      rw [h.starting _ hthread.head_mem r rfl] at huse
      cases huse
    | addInProgressRequestWithToken q n st =>
      cases hadds
      refine ⟨st, rfl, ?_⟩
      have hset := h.adding r a st hthread.head_mem
      have hkept : ((s.runThread k (.addInProgressRequestWithToken r a st) rest).requests
        r).sessionToken = (s.requests r).sessionToken := rfl
      rw [hkept, hset] at ht
      exact Option.some.inj ht
    | _ => cases hadds
  refine ⟨fun r t ht => huses r ▸ husesToken ht, fun r hr => ?_, fun j hj r hr => ?_,
    fun r a st hj => ?_, fun j hj r hr hin => ?_, fun r hr t ht => ?_, fun r hr r' hr' t ht ht' => ?_⟩
  · rw [huses]
    exact (mem_waitingNonSt_exec hr).elim (h.waitingNonSt r) And.right
  · rw [huses]
    rcases hthread.mem hj with hj | hj
    · exact untokened_pushed h hthread.head_mem hj hr
    · exact h.starting j hj r hr
  · rcases hthread.mem hj with hj | hj
    · obtain rfl := addsWithToken_pushed hj rfl
      simp [runThread, exec, init, setSessionToken, setRequest]
    · by_cases heq : .addInProgressRequestWithToken r a st = i
      · rw [show ((s.runThread k i rest).requests r).sessionToken = (s.requests r).sessionToken from
          s.sessionToken_exec fun st' hinit => by rw [hinit] at heq; cases heq]
        exact h.adding r a st hj
      · have hstage : i.last ≤ 0 := hbehind hj heq
        rw [show ((s.runThread k i rest).requests r).sessionToken = (s.requests r).sessionToken from
          s.sessionToken_exec fun st' hinit => by
            rw [hinit] at hstage
            exact absurd hstage (by simp [Instr.last])]
        exact h.adding r a st hj
  · rcases hthread.mem hj with hj | hj
    · obtain ⟨j', hj', hout⟩ := givesBack_pushed hj hr
      exact ⟨j', hthread.pushed_mem hj', hout⟩
    · by_cases heq : j = i
      · subst heq
        -- nothing that takes the request out is left behind the head
        have hold : r ∈ s.locker.inProgressRequests := by
          refine ((mem_inProgress_of_exec hin).resolve_left ?_).1
          rintro ⟨a, hadds⟩
          rw [(Instr.only_givesBack hr).1] at hadds
          cases hadds
        obtain ⟨j', hj', hout⟩ := h.givingBack j hthread.head_mem r hr hold
        have hne : j' ≠ j := by
          rintro rfl
          rw [(Instr.only_givesBack hr).2] at hout
          cases hout
        exact ⟨j', hthread.stays hj' hne, hout⟩
      · have hstage := hbehind hj heq
        rw [Instr.first_of_givesBack hr] at hstage
        rcases mem_inProgress_of_exec hin with ⟨a, hadds⟩ | ⟨hold, hnot⟩
        · have hlast := (Instr.stages_of_adds hadds).2
          omega
        · obtain ⟨j', hj', hout⟩ := h.givingBack j hj r hr hold
          exact ⟨j', hthread.stays hj' (by rintro rfl; exact hnot hout), hout⟩
  · rcases mem_inProgress_of_exec hr with ⟨a, hadds⟩ | ⟨hold, -⟩
    · obtain ⟨st, rfl, rfl⟩ := hadded hadds ht
      by_cases hout : r ∈ s.locker.checkedOutTokens
      · have hone := one_le_moving hthread.head_mem (List.mem_singleton_self st)
        have hdec := copies_addInProgressRequestWithToken hk hout
        have hle := hdistinct.copies_le_one st.sessionToken
        refine Or.inr ⟨hissued ▸ hdistinct.mem_issued ?_, ?_⟩ <;> omega
      · refine Or.inl ⟨⟨st, a⟩, ?_, rfl⟩
        exact Table.find?_add_self hout
    · rw [hsame hold] at ht
      rcases h.held r hold t ht with ⟨out, hout, rfl⟩ | ⟨hmem, hnone⟩
      · refine holdsOrSpent_exec hdistinct hk hout fun hgives => ?_
        obtain ⟨j', hj', hmoves⟩ := h.givingBack i hthread.head_mem r hgives hold
        have hne : j' ≠ i := by
          rintro rfl
          rw [(Instr.only_givesBack hgives).2] at hmoves
          cases hmoves
        have hstage := hbehind hj' hne
        rw [Instr.first_of_movesOut hmoves, Instr.last_of_givesBack hgives] at hstage
        omega
      · exact Or.inr ⟨hissued ▸ hmem, Nat.le_zero.mp (hnone ▸ hcopies t)⟩
  · -- a request that is added has a token that no request in progress was started with
    have hnew {q q' a : ℕ} (hadds : i.adds = some (q, a)) (hold : q' ∈ s.locker.inProgressRequests)
        (hq : ((s.runThread k i rest).requests q).sessionToken = some t)
        (hq' : (s.requests q').sessionToken = some t) : False := by
      obtain ⟨st, rfl, rfl⟩ := hadded hadds hq
      have hone := one_le_moving hthread.head_mem (List.mem_singleton_self st)
      have hle := hdistinct.copies_le_one st.sessionToken
      unfold copies SessionMaintainerLocker.tokenWeight at hle
      rcases h.held q' hold _ hq' with ⟨out, hout, heq⟩ | ⟨-, hnone⟩
      · have hother := one_le_checkedOut hout
        rw [heq] at hother
        omega
      · unfold copies at hnone
        omega
    rcases mem_inProgress_of_exec hr with ⟨a, hadds⟩ | ⟨hold, -⟩ <;>
      rcases mem_inProgress_of_exec hr' with ⟨a', hadds'⟩ | ⟨hold', -⟩
    · rw [hadds] at hadds'
      cases hadds'
      rfl
    · exact (hnew hadds hold' ht (hsame hold' ▸ ht')).elim
    · exact (hnew hadds' hold ht' (hsame hold ▸ ht)).elim
    · exact h.alone r hold r' hold' t (hsame hold ▸ ht) (hsame hold' ▸ ht')

end Section

/-! ### Steps -/

/-- An action leaves the table of the tokens that are checked out to its handler. -/
theorem checkedOut_of_step {a : Act} (hs : s.step a = some s') (hrun : ∀ k, a ≠ .run k) :
    s'.locker.checkedOutTokens = s.locker.checkedOutTokens := by
  cases tokenMoves_of_step hs with
  | starts program hlocker _ _ _ _ _ => exact hlocker.checkedOut
  | setLoginCredentials c _ | destroy _ _ => rfl
  | tokenResponse n c response _ =>
    unfold State.tokenResponse
    split_ifs <;> rfl
  | run k i rest hk => exact absurd rfl (hrun k)

/-- A handler starts; the request that `Call` makes is new. -/
theorem Shares.starts (h : Shares s) (htidy : Tidy s) {a : Act}
    (hguard : s.ServerTokens a s') (hs : s.step a = some s') (hrun : ∀ k, a ≠ .run k)
    (program : List Instr)
    (hinProgress : s'.locker.inProgressRequests = s.locker.inProgressRequests)
    (hwaiting : s'.locker.waitingNonStRequests = s.locker.waitingNonStRequests)
    (hthreads : s'.threads = Threads.spawn program s.threads)
    (hprogram : ∀ j ∈ program, j.opens)
    (hrequests : ∀ r, ((s'.requests r).usesSessionToken = (s.requests r).usesSessionToken ∧
      (s'.requests r).sessionToken = (s.requests r).sessionToken) ∨
        ((s'.requests r).sessionToken = none ∧ r = s.called ∧ s.threads = [])) : Shares s' := by
  have hold {j : Instr} (hj : j ∈ pending s'.threads) : j ∈ pending s.threads ∨ j.opens := by
    rw [hthreads] at hj
    exact (mem_pending_spawn.mp hj).imp_right (hprogram j)
  have hstays {j : Instr} (hj : j ∈ pending s.threads) : j ∈ pending s'.threads := by
    rw [hthreads]
    exact mem_pending_spawn.mpr (Or.inl hj)
  have hbusy {j : Instr} (hj : j ∈ pending s.threads) : s.threads ≠ [] := by
    rintro hnil
    rw [hnil] at hj
    cases hj
  have hsame {r : ℕ} {t : String} (ht : (s'.requests r).sessionToken = some t) :
      (s'.requests r).usesSessionToken = (s.requests r).usesSessionToken ∧
        (s.requests r).sessionToken = some t := by
    rcases hrequests r with ⟨huses, htoken⟩ | ⟨hnone, -⟩
    · exact ⟨huses, htoken ▸ ht⟩
    · rw [hnone] at ht
      cases ht
  have hcopies {t : String} (ht : t ∈ s.issuedTokens) :
      t ∈ s'.issuedTokens ∧ s'.copies t ≤ s.copies t := by
    rcases copies_of_step hs t with ⟨hle, hissued⟩ | ⟨n, c, response, ha, hec, hissued, hle⟩
    · exact ⟨by rw [issuedTokens, hissued]; exact ht, hle⟩
    · refine ⟨?_, hle.trans_eq ?_⟩
      · rw [issuedTokens, hissued, List.map_append]
        exact List.mem_append_left _ ht
      · have hne : response.sessionToken ≠ t := by
          rintro rfl
          exact hguard.distinct n c response ha hec ht
        change s.copies t + (if response.sessionToken = t then 1 else 0) = s.copies t
        rw [if_neg hne, Nat.add_zero]
  refine ⟨fun r t ht => ?_, fun r hr => ?_, fun j hj r hr => ?_, fun r n st hj => ?_,
    fun j hj r hr hin => ?_, fun r hr t ht => ?_, fun r hr r' hr' t ht ht' => ?_⟩
  · rw [(hsame ht).1]
    exact h.uses r t (hsame ht).2
  · rw [hwaiting] at hr
    rcases hrequests r with ⟨huses, -⟩ | ⟨-, rfl, -⟩
    · rw [huses]
      exact h.waitingNonSt r hr
    · have hlives := htidy.oneLife s.called
      have hpos : 0 < s.locker.waits s.called := by
        have hcount := List.count_pos_iff.mpr hr
        unfold SessionMaintainerLocker.waits
        omega
      unfold lives at hlives
      rw [if_neg (lt_irrefl _)] at hlives
      omega
  · rcases hold hj with hj | hopens
    · rcases hrequests r with ⟨huses, -⟩ | ⟨-, -, hnil⟩
      · rw [huses]
        exact h.starting j hj r hr
      · exact absurd hnil (hbusy hj)
    · rw [hopens.1] at hr
      cases hr
  · rcases hold hj with hj | hopens
    · rcases hrequests r with ⟨-, htoken⟩ | ⟨-, -, hnil⟩
      · rw [htoken]
        exact h.adding r n st hj
      · exact absurd hnil (hbusy hj)
    · cases hopens.2.2
  · rw [hinProgress] at hin
    rcases hold hj with hj | hopens
    · obtain ⟨j', hj', hout⟩ := h.givingBack j hj r hr hin
      exact ⟨j', hstays hj', hout⟩
    · rw [hopens.2.1] at hr
      cases hr
  · rw [hinProgress] at hr
    rcases h.held r hr t (hsame ht).2 with ⟨out, hout, heq⟩ | ⟨hmem, hnone⟩
    · exact Or.inl ⟨out, (checkedOut_of_step hs hrun) ▸ hout, heq⟩
    · exact Or.inr ⟨(hcopies hmem).1, Nat.le_zero.mp (hnone ▸ (hcopies hmem).2)⟩
  · rw [hinProgress] at hr hr'
    exact h.alone r hr r' hr' t (hsame ht).2 (hsame ht').2

theorem Shares.step {a : Act} (h : Shares s) (htidy : Tidy s) (hdistinct : Distinct s)
    (horder : InOrder s) (honce : s.OneAtATime a s') (hguard : s.ServerTokens a s')
    (hs : s.step a = some s') (hexists : s'.maintainerExists = true) : Shares s' := by
  have hnow := exists_of_step hs hexists
  have hmoves := moves_of_step hs
  cases hmoves with
  | quiet program hquiet hthreads hprogram =>
    by_cases hrun : ∃ k, a = .run k
    · obtain ⟨k, rfl⟩ := hrun
      obtain ⟨i, rest, hk, rfl⟩ := runThread_of_step hs
      exact h.runs htidy hnow horder hdistinct hk
    · push Not at hrun
      refine h.starts htidy hguard hs hrun program hquiet.locker.inProgress
        hquiet.locker.waitingNonSt hthreads (fun j hj => Instr.opens_of_requests (hprogram j hj))
        fun r => Or.inl ?_
      rw [hquiet.requests]
      exact ⟨rfl, rfl⟩
  | call uses _ =>
    refine h.starts htidy hguard hs (by simp) [.addWaitingRequest s.called, .attemptRequests]
      rfl rfl rfl (by simp [Instr.opens, Instr.untokened, Instr.givesBack, Instr.adds]) fun r => ?_
    by_cases hr : r = s.called
    · refine Or.inr ⟨?_, hr, honce rfl⟩
      rw [hr]
      have heq : (s.call uses).requests s.called = s.newRequest uses := Function.update_self _ _ _
      rw [heq]
      rfl
    · refine Or.inl ?_
      have heq : (s.call uses).requests r = s.requests r := Function.update_of_ne hr _ _
      rw [heq]
      exact ⟨rfl, rfl⟩
  | cancelRequest q _ =>
    exact h.starts htidy hguard hs (by simp) [.cancel q] rfl rfl rfl
      (by simp [Instr.opens, Instr.untokened, Instr.givesBack, Instr.adds]) fun r => Or.inl ⟨rfl, rfl⟩
  | dropRequest q _ =>
    refine h.starts htidy hguard hs (by simp) [] rfl rfl rfl (by simp) fun r => Or.inl ?_
    by_cases hr : r = q
    · simp [hr, setRequest]
    · simp [setRequest, Function.update_of_ne hr]
  | apiResponse n q response _ =>
    unfold State.apiResponse at hs hguard ⊢
    split_ifs at hs hguard ⊢
    · exact h.starts htidy hguard hs (by simp)
        [.completionNotification response.errorCode, .retryOrComplete q n response] rfl rfl rfl
        (by simp [Instr.opens, Instr.untokened, Instr.givesBack, Instr.adds])
        fun r => Or.inl ⟨rfl, rfl⟩
    · exact h.starts htidy hguard hs (by simp) [] rfl rfl rfl (by simp)
        fun r => Or.inl ⟨rfl, rfl⟩
  | delayedFires q l _ hl =>
    obtain ⟨events, -, rfl⟩ := SessionMaintainerLocker.nextDelayedRequest_eq_some hl
    exact h.starts htidy hguard hs (by simp) [.addWaitingRequest q, .attemptRequests]
      rfl rfl rfl (by simp [Instr.opens, Instr.untokened, Instr.givesBack, Instr.adds])
      fun r => Or.inl ⟨rfl, rfl⟩
  | timeoutFires q l _ hl =>
    have hsame := SessionMaintainerLocker.sameRequests_nextTimedOutRequest hl
    unfold State.timeoutFires at hs hguard ⊢
    split_ifs at hs hguard ⊢
    · exact h.starts htidy hguard hs (by simp) [.handleTimedOutRequest q]
        hsame.inProgress hsame.waitingNonSt rfl
        (by simp [Instr.opens, Instr.untokened, Instr.givesBack, Instr.adds])
        fun r => Or.inl ⟨rfl, rfl⟩
    · exact h.starts htidy hguard hs (by simp) [] hsame.inProgress hsame.waitingNonSt
        rfl (by simp) fun r => Or.inl ⟨rfl, rfl⟩
  | destroy _ _ => cases hexists
  | run k i rest hk => exact h.runs htidy hnow horder hdistinct hk

theorem shares_created : Shares created where
  uses _ _ h := by cases h
  waitingNonSt _ h := by cases h
  starting _ h := by cases h
  adding _ _ _ h := by cases h
  givingBack _ h := by cases h
  held _ h := by cases h
  alone _ h := by cases h

end State

end MediafireSdk.Api
