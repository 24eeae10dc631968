import MediafireSdk.Api.Tokens

/-! Tokens and verdicts of old credentials. A change of the credentials clears the
tables and the change count guards the session state; both reach only what is in
the tables, and the count moves only when the state does. What a handler took out of
a table, or read before the change, comes through. -/

namespace MediafireSdk.Api

open Threads Runs Words

/-- The states that say something about the credentials. -/
def SessionState.isVerdict (state : SessionState) : Bool :=
  state.isRunning || state.isCredentialsError

/-- The change count after `SetCredentials` with new credentials. -/
def SessionMaintainerLocker.countAfterCredentials (l : SessionMaintainerLocker) : ℕ :=
  if l.sessionState.isInitialized then l.sessionStateChangeCount
  else increment 32 l.sessionStateChangeCount

namespace State

variable {s s' : State}

/-- Every token is the answer to a request with the current credentials. -/
structure TokensCurrent (s : State) : Prop where
  stored : ∀ st ∈ s.locker.sessionTokens, s.locker.credentials = some st.credentials
  checkedOut : ∀ r out, s.locker.checkedOutTokens.find? r = some out →
    s.locker.credentials = some out.token.credentials

/-- A step to `Running` or `CredentialsFailure` is the response to a request with the current
credentials. -/
def VerdictCurrent (s : State) (a : Act) (s' : State) : Prop :=
  s'.locker.sessionState ≠ s.locker.sessionState → s'.locker.sessionState.isVerdict = true →
    ∃ k count c rest, a = .run k ∧
      s.threads[k]? = some (.setSessionStateSafe s'.locker.sessionState count c :: rest) ∧
      s.locker.credentials = some c

/-- The condition on a step. New credentials come when no token is between the tables, the tables
are empty if `Initialized` is already the state, and no verdict of other credentials waits for the
change count that results; nor does one where another state is set. -/
structure NothingStale (s : State) (a : Act) (_ : State) : Prop where
  taken : ∀ k c rest, a = .run k → s.threads[k]? = some (.setCredentials c :: rest) →
    s.locker.credentials ≠ some c → ∀ i ∈ pending s.threads, i.taken = none
  tables : ∀ k c rest, a = .run k → s.threads[k]? = some (.setCredentials c :: rest) →
    s.locker.credentials ≠ some c → s.locker.sessionState.isInitialized = true →
      s.locker.sessionTokens = [] ∧ s.locker.checkedOutTokens = ∅
  credentials : ∀ k c rest, a = .run k → s.threads[k]? = some (.setCredentials c :: rest) →
    s.locker.credentials ≠ some c → ∀ newState c',
      .setSessionStateSafe newState s.locker.countAfterCredentials c' ∈ pending s.threads →
        newState.isVerdict = true → c' = c
  state : ∀ k state count c rest, a = .run k →
    s.threads[k]? = some (.setSessionStateSafe state count c :: rest) →
    s.locker.sessionStateChangeCount = count → s.locker.sessionState.same state = false →
      ∀ newState c', .setSessionStateSafe newState (increment 32 count) c' ∈ pending s.threads →
        newState.isVerdict = true → s.locker.credentials = some c'

structure Current (s : State) : Prop where
  tokens : TokensCurrent s
  taken : ∀ i ∈ pending s.threads, ∀ st, i.taken = some st →
    s.locker.credentials = some st.credentials
  verdicts : ∀ newState c,
    .setSessionStateSafe newState s.locker.sessionStateChangeCount c ∈ pending s.threads →
      newState.isVerdict = true → s.locker.credentials = some c
  wellMade : WellMade s

/-! ### Steps -/

theorem Current.spawn (h : Current s) (program : List Instr)
    (hlocker : SameTokens s.locker s'.locker)
    (hthreads : s'.threads = Threads.spawn program s.threads)
    (htaken : ∀ j ∈ program, j.taken = none) (hwellMade : WellMade s')
    (hstates : ∀ newState count c, .setSessionStateSafe newState count c ∉ program) :
    Current s' := by
  have hcredentials := hlocker.credentials
  refine ⟨⟨fun st hst => ?_, fun r out hout => ?_⟩, fun j hj st hst => ?_,
    fun newState c hj hverdict => ?_, hwellMade⟩
  · rw [hlocker.stored] at hst
    exact hcredentials ▸ h.tokens.stored st hst
  · rw [hlocker.checkedOut] at hout
    exact hcredentials ▸ h.tokens.checkedOut r out hout
  · rw [hthreads] at hj
    rcases mem_pending_spawn.mp hj with hj | hj
    · exact hcredentials ▸ h.taken j hj st hst
    · rw [htaken j hj] at hst
      cases hst
  · rw [hthreads, hlocker.changeCount] at hj
    rcases mem_pending_spawn.mp hj with hj | hj
    · exact hcredentials ▸ h.verdicts newState c hj hverdict
    · exact absurd hj (hstates _ _ _)

/-- A verdict comes from a section that compared the credentials. -/
theorem verdict_pushed {i j : Instr} (hi : i.wellMade = true) (hj : j ∈ (s.exec i).2)
    {newState : SessionState} {count : ℕ} {c : Credentials}
    (heq : j = .setSessionStateSafe newState count c) (hverdict : newState.isVerdict = true) :
    s.locker.credentials = some c := by
  cases pushes_exec hj with
  | control h => cases heq ▸ h
  | credentialsFailure h | running h =>
    cases heq
    exact h
  | prolongedError h =>
    cases heq
    have hprolonged : newState.isProlongedError = true := hi
    cases newState with
    | prolongedError => cases hverdict
    | _ => cases hprolonged
  | handleCompletion _ h => rcases mem_handleCompletion h with rfl | rfl | rfl | rfl <;> cases heq
  | handleRetryRequest _ h =>
    rcases mem_handleRetryRequest h with rfl | rfl | rfl | rfl | rfl <;> cases heq
  | _ => cases heq

/-- Sections that leave credentials and state alone handle only what is current. -/
theorem Current.runs_same (h : Current s) {k : ℕ} {i : Instr} {rest : List Instr}
    (hk : s.threads[k]? = some (i :: rest)) (hi : i.movesSession = false)
    (hwellMade : WellMade (s.runThread k i rest)) : Current (s.runThread k i rest) := by
  have hthread := stepped_runThread hk
  have hsame := s.sameSession_exec hi
  have hcredentials : (s.runThread k i rest).locker.credentials = s.locker.credentials :=
    hsame.credentials
  refine ⟨⟨fun st hst => ?_, fun r out hout => ?_⟩, fun j hj st hst => ?_,
    fun newState c hj hverdict => ?_, hwellMade⟩
  · rw [hcredentials]
    cases storedBy_exec hst with
    | kept hst => exact h.tokens.stored st hst
    | accepted heq hc _ => exact heq ▸ hc
    | returned heq hout =>
      rw [heq, SessionMaintainerLocker.renewKey_credentials]
      exact h.tokens.checkedOut _ _ hout
  · rw [hcredentials]
    rcases checkedOut_exec s hout with hout | rfl
    · exact h.tokens.checkedOut r out hout
    · exact h.taken _ hthread.head_mem out.token rfl
  · rw [hcredentials]
    rcases hthread.mem hj with hj | hj
    · cases pushes_exec hj with
      | control hcontrol =>
        rw [Instr.taken_of_tokenless (Instr.tokenless_of_control hcontrol)] at hst
        cases hst
      | initWithToken _ hstored =>
        cases hst
        exact h.tokens.stored _ hstored
      | addWithToken =>
        cases hst
        exact h.taken _ hthread.head_mem _ rfl
      | handleCompletion _ hj =>
        rcases mem_handleCompletion hj with rfl | rfl | rfl | rfl <;> cases hst
      | handleRetryRequest _ hj =>
        rcases mem_handleRetryRequest hj with rfl | rfl | rfl | rfl | rfl <;> cases hst
      | _ => cases hst
    · exact h.taken j hj st hst
  · rw [hcredentials]
    have hcount : (s.runThread k i rest).locker.sessionStateChangeCount =
        s.locker.sessionStateChangeCount := hsame.changeCount
    rw [hcount] at hj
    rcases hthread.mem hj with hj | hj
    · exact verdict_pushed (h.wellMade i hthread.head_mem) hj rfl hverdict
    · exact h.verdicts newState c hj hverdict

theorem mem_of_runThread_nil {k : ℕ} {i : Instr} {rest : List Instr}
    (hk : s.threads[k]? = some (i :: rest)) (hnil : (s.exec i).2 = []) {j : Instr}
    (hj : j ∈ pending (s.runThread k i rest).threads) : j ∈ pending s.threads := by
  rcases (stepped_runThread hk).mem hj with hj | hj
  · rw [hnil] at hj
    cases hj
  · exact hj

theorem Current.runs_setCredentials (h : Current s) {k : ℕ} {c : Credentials} {rest : List Instr}
    (hk : s.threads[k]? = some (.setCredentials c :: rest)) (hguard : NothingStale s (.run k) s')
    (hwellMade : WellMade (s.runThread k (.setCredentials c) rest)) :
    Current (s.runThread k (.setCredentials c) rest) := by
  have hmem {j : Instr} (hj : j ∈ pending (s.runThread k (.setCredentials c) rest).threads) :
      j ∈ pending s.threads := mem_of_runThread_nil hk rfl hj
  have hlocker : (s.runThread k (.setCredentials c) rest).locker = s.locker.setCredentials c := rfl
  rcases s.locker.setCredentials_cases c with ⟨-, heq⟩ | ⟨hnew, hstate, heq⟩ |
    ⟨hnew, hstate, hchanged⟩
  · rw [heq] at hlocker
    refine ⟨⟨?_, ?_⟩, ?_, ?_, hwellMade⟩ <;> rw [hlocker]
    · exact h.tokens.stored
    · exact h.tokens.checkedOut
    · exact fun j hj => h.taken j (hmem hj)
    · exact fun newState c' hj => h.verdicts newState c' (hmem hj)
  · obtain ⟨hstored, hout⟩ := hguard.tables k c rest rfl hk hnew hstate
    have hcount : s.locker.countAfterCredentials = s.locker.sessionStateChangeCount := if_pos hstate
    rw [heq] at hlocker
    refine ⟨⟨fun st hst => ?_, fun r out hfind => ?_⟩, fun j hj st hst => ?_,
      fun newState c' hj hverdict => ?_, hwellMade⟩
    · rw [hlocker] at hst
      rw [hstored] at hst
      cases hst
    · rw [hlocker] at hfind
      rw [hout] at hfind
      cases hfind
    · rw [hguard.taken k c rest rfl hk hnew j (hmem hj)] at hst
      cases hst
    · rw [hlocker] at hj ⊢
      exact congrArg some
        (hguard.credentials k c rest rfl hk hnew newState c' (hcount.symm ▸ hmem hj) hverdict).symm
  · have hcount : s.locker.countAfterCredentials =
        increment 32 s.locker.sessionStateChangeCount := if_neg (by rw [hstate]; decide)
    refine ⟨⟨fun st hst => ?_, fun r out hfind => ?_⟩, fun j hj st hst => ?_,
      fun newState c' hj hverdict => ?_, hwellMade⟩
    · rw [hlocker, hchanged.stored] at hst
      cases hst
    · rw [hlocker, hchanged.checkedOut] at hfind
      cases hfind
    · rw [hguard.taken k c rest rfl hk hnew j (hmem hj)] at hst
      cases hst
    · rw [hlocker, hchanged.changeCount] at hj
      rw [hlocker, hchanged.credentials]
      exact congrArg some
        (hguard.credentials k c rest rfl hk hnew newState c' (hcount.symm ▸ hmem hj) hverdict).symm

theorem Current.runs_setSessionStateSafe (h : Current s) {k : ℕ} {state : SessionState} {count : ℕ}
    {c : Credentials} {rest : List Instr}
    (hk : s.threads[k]? = some (.setSessionStateSafe state count c :: rest))
    (hguard : NothingStale s (.run k) s')
    (hwellMade : WellMade (s.runThread k (.setSessionStateSafe state count c) rest)) :
    Current (s.runThread k (.setSessionStateSafe state count c) rest) := by
  have hmem {j : Instr}
      (hj : j ∈ pending (s.runThread k (.setSessionStateSafe state count c) rest).threads) :
      j ∈ pending s.threads := mem_of_runThread_nil hk rfl hj
  have hlocker : (s.runThread k (.setSessionStateSafe state count c) rest).locker =
      s.locker.setSessionStateSafe state count := rfl
  rcases s.locker.setSessionStateSafe_cases state count with ⟨-, heq⟩ | ⟨hcount, hsame, hchanged⟩
  · rw [heq] at hlocker
    refine ⟨⟨?_, ?_⟩, ?_, ?_, hwellMade⟩ <;> rw [hlocker]
    · exact h.tokens.stored
    · exact h.tokens.checkedOut
    · exact fun j hj => h.taken j (hmem hj)
    · exact fun newState c' hj => h.verdicts newState c' (hmem hj)
  · have hmade : (Instr.setSessionStateSafe state count c).wellMade = true :=
      h.wellMade _ (stepped_runThread hk).head_mem
    have hcredentials : (s.locker.setSessionStateSafe state count).credentials =
        s.locker.credentials := by
      rw [hchanged.credentials]
      cases state <;> first | rfl | cases hmade
    refine ⟨⟨fun st hst => ?_, fun r out hfind => ?_⟩, fun j hj st hst => ?_,
      fun newState c' hj hverdict => ?_, hwellMade⟩ <;> rw [hlocker, hcredentials]
    · rw [hlocker, hchanged.stored] at hst
      split_ifs at hst
      · cases hst
      · exact h.tokens.stored st hst
    · rw [hlocker, hchanged.checkedOut] at hfind
      split_ifs at hfind
      · cases hfind
      · exact h.tokens.checkedOut r out hfind
    · exact h.taken j (hmem hj) st hst
    · rw [hlocker, hchanged.changeCount, hcount] at hj
      exact hguard.state k state count c rest rfl hk hcount hsame newState c' (hmem hj) hverdict

theorem Current.step {a : Act} (h : Current s) (hguard : s.NothingStale a s')
    (hs : s.step a = some s') : Current s' := by
  have hwellMade := h.wellMade.step hs
  cases tokenMoves_of_step hs with
  | starts program hlocker _ _ _ hthreads hprogram =>
    refine h.spawn program hlocker hthreads
      (fun j hj => Instr.taken_of_tokenless (hprogram j hj)) hwellMade
      fun newState count c hj => ?_
    cases hprogram _ hj
  | setLoginCredentials c _ =>
    exact h.spawn [.setCredentials c, .attemptRequests] sameTokens_rfl rfl
      (by simp [Instr.taken]) hwellMade (by simp)
  | tokenResponse n c response _ =>
    by_cases hmaintainer : s.maintainerExists = true
    · rw [State.tokenResponse, if_pos hmaintainer] at hwellMade ⊢
      exact h.spawn [.handleSessionTokenResponse response c] sameTokens_rfl rfl
        (by simp [Instr.taken]) hwellMade (by simp)
    · rw [State.tokenResponse, if_neg hmaintainer]
      exact ⟨⟨h.tokens.stored, h.tokens.checkedOut⟩, h.taken, h.verdicts, h.wellMade⟩
  | destroy _ _ =>
    exact h.spawn [.stopTimeouts, .moveRequests] sameTokens_rfl rfl
      (by simp [Instr.taken]) hwellMade (by simp)
  | run k i rest hk =>
    cases hmoves : i.movesSession with
    | false => exact h.runs_same hk hmoves hwellMade
    | true =>
      cases i with
      | setCredentials c => exact h.runs_setCredentials hk hguard hwellMade
      | setSessionStateSafe state count c => exact h.runs_setSessionStateSafe hk hguard hwellMade
      | _ => cases hmoves

/-- The session state becomes `Running` or `CredentialsFailure` only with `SetSessionStateSafe`. -/
theorem Current.verdictCurrent {a : Act} (h : Current s) (hs : s.step a = some s') :
    s.VerdictCurrent a s' := by
  intro hne hverdict
  cases tokenMoves_of_step hs with
  | starts program hlocker _ _ _ _ _ => exact absurd hlocker.sessionState hne
  | setLoginCredentials c _ => exact absurd rfl hne
  | tokenResponse n c response _ =>
    by_cases hmaintainer : s.maintainerExists = true
    · rw [State.tokenResponse, if_pos hmaintainer] at hne
      exact absurd rfl hne
    · rw [State.tokenResponse, if_neg hmaintainer] at hne
      exact absurd rfl hne
  | destroy _ _ => exact absurd rfl hne
  | run k i rest hk =>
    cases hmoves : i.movesSession with
    | false => exact absurd (s.sameSession_exec hmoves).sessionState hne
    | true =>
      cases i with
      | setCredentials c =>
        rcases s.locker.setCredentials_cases c with ⟨-, heq⟩ | ⟨-, -, heq⟩ | ⟨-, -, hchanged⟩
        · exact absurd (congrArg SessionMaintainerLocker.sessionState heq) hne
        · exact absurd (congrArg SessionMaintainerLocker.sessionState heq) hne
        · change (s.locker.setCredentials c).sessionState.isVerdict = true at hverdict
          rw [hchanged.sessionState] at hverdict
          cases hverdict
      | setSessionStateSafe state count c =>
        rcases s.locker.setSessionStateSafe_cases state count with
          ⟨-, heq⟩ | ⟨hcount, -, hchanged⟩
        · exact absurd (congrArg SessionMaintainerLocker.sessionState heq) hne
        · have hstate : (s.runThread k (.setSessionStateSafe state count c) rest).locker.sessionState
              = state := hchanged.sessionState
          rw [hstate] at hverdict ⊢
          have hhead := (stepped_runThread hk).head_mem
          rw [← hcount] at hhead
          exact ⟨k, count, c, rest, rfl, hk, h.verdicts state c hhead hverdict⟩
      | _ => cases hmoves

/-! ### Runs -/

theorem current_created : Current created where
  tokens := ⟨fun _ hst => (by cases hst), fun _ _ hout => (by cases hout)⟩
  taken _ hi := by cases hi
  verdicts _ _ hi := by cases hi
  wellMade := wellMade_created

/-- Where nothing of the old credentials is under way at a change, none of it survives. -/
theorem current_of_nothingStale {acts : List Act}
    (hguard : Along State.step NothingStale created acts) :
    Always State.step TokensCurrent created acts ∧
      Along State.step VerdictCurrent created acts := by
  have hstep : ∀ s a s', Current s → NothingStale s a s' → State.step s a = some s' → Current s' :=
    fun _ _ _ h hg hs => h.step hg hs
  refine ⟨Always.of_guarded (fun _ h => h.tokens) hstep current_created hguard, ?_⟩
  exact Along.of_guarded (fun s a s' h hg hs => ⟨h.verdictCurrent hs, hstep s a s' h hg hs⟩)
    current_created hguard

/-- The change count that a verdict waits for. -/
def awaited : Instr → Option ℕ
  | .setSessionStateSafe _ count _ => some count
  | _ => none

/-- The condition on a step, whatever the verdicts are. -/
def nothingStale (s : State) : Act → Bool
  | .run k =>
    match s.threads[k]? with
    | some (.setCredentials _ :: _) =>
      (pending s.threads).all (fun i => i.taken = none ∧ awaited i = none) &&
        decide (s.locker.sessionState.isInitialized = true →
          s.locker.sessionTokens = [] ∧ s.locker.checkedOutTokens = ∅)
    | some (.setSessionStateSafe _ count _ :: _) =>
      (pending s.threads).all fun i => awaited i ≠ some (increment 32 count)
    | _ => true
  | _ => true

theorem nothingStale_of_check (s : State) (a : Act) (s' : State) (h : s.nothingStale a = true) :
    NothingStale s a s' where
  taken k c rest ha hk _ i hi := by
    subst ha
    simp only [nothingStale, hk, Bool.and_eq_true, List.all_eq_true, decide_eq_true_eq] at h
    exact (h.1 i hi).1
  tables k c rest ha hk _ := by
    subst ha
    simp only [nothingStale, hk, Bool.and_eq_true, decide_eq_true_eq] at h
    exact h.2
  credentials k c rest ha hk _ newState c' hi _ := by
    subst ha
    simp only [nothingStale, hk, Bool.and_eq_true, List.all_eq_true, decide_eq_true_eq] at h
    cases (h.1 _ hi).2
  state k state count c rest ha hk _ _ newState c' hi _ := by
    subst ha
    simp only [nothingStale, hk, List.all_eq_true, decide_eq_true_eq] at h
    exact absurd rfl (h _ hi)

/-- The credentials change between two handlers. -/
def changedBetween : List Act :=
  loginAndCall ++ .setLoginCredentials otherUser :: List.replicate 9 (.run 0) ++
    .apiResponse 1 0 {} :: List.replicate 13 (.run 0)

theorem current_changedBetween : Always State.step TokensCurrent created changedBetween ∧
    Along State.step VerdictCurrent created changedBetween :=
  current_of_nothingStale (along_of_check nothingStale_of_check (by decide +kernel))

/-- The credentials change when the first token is stored and the state is not yet `Running`. -/
def changedMeanwhile : List Act :=
  .setLoginCredentials user :: List.replicate 9 (.run 0) ++
    .tokenResponse 0 user tokenA :: List.replicate 5 (.run 0) ++
    [.setLoginCredentials otherUser, .run 1]

theorem not_current : ¬ ∀ acts, Always State.step TokensCurrent created acts ∧
    Along State.step VerdictCurrent created acts := by
  intro h
  have hrun : (run State.step created changedMeanwhile).map (fun s =>
      (s.locker.credentials, s.locker.sessionTokens.map (·.credentials))) =
      some (some otherUser, [user]) := by decide +kernel
  obtain ⟨s, hs, heq⟩ := Option.map_eq_some_iff.mp hrun
  obtain ⟨hcredentials, htokens⟩ := Prod.mk.inj heq
  obtain ⟨st, hst, huser⟩ := List.map_eq_singleton_iff.mp htokens
  have hcurrent := ((h changedMeanwhile).1.last hs).stored st (by simp [hst])
  rw [hcredentials, huser] at hcurrent
  exact absurd hcurrent (by decide)

/-- The verdict on the old credentials then counts as one on the new. -/
theorem not_verdictCurrent :
    ¬ Along State.step VerdictCurrent created (changedMeanwhile ++ [.run 0]) := by
  intro h
  have hrun : ((run State.step created changedMeanwhile).bind fun s =>
      (s.step (.run 0)).map fun s' => (s.locker.credentials, s.threads[0]?.bind List.head?,
        s.locker.sessionState, s'.locker.sessionState)) =
      some (some otherUser, some (.setSessionStateSafe (.running tokenA) 1 user), .initialized,
        .running tokenA) := by decide +kernel
  obtain ⟨s, hs, hstep⟩ := Option.bind_eq_some_iff.mp hrun
  obtain ⟨s', hs', heq⟩ := Option.map_eq_some_iff.mp hstep
  simp only [Prod.mk.injEq] at heq
  obtain ⟨hcredentials, hhead, hbefore, hafter⟩ := heq
  obtain ⟨k, count, c, rest, hk, hthread, hc⟩ := h.step_after hs hs'
    (by rw [hbefore, hafter]; exact fun heq => by cases heq) (by rw [hafter]; rfl)
  cases hk
  rw [hthread, hafter] at hhead
  cases hhead
  rw [hcredentials] at hc
  exact absurd hc (by decide)

end State

end MediafireSdk.Api
