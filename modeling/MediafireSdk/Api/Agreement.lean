import MediafireSdk.Api.Sequential

/-! Session state and token tables agree while handlers run one at a time. What a handler
read of the session state stays current until it acts on it, so each of its changes
of the state succeeds; a token in a table means `Running`, or that the change to it is
what the handler does next. -/

namespace MediafireSdk.Api

open Threads Runs

/-- What an instruction read before is still so. -/
def Instr.UpToDate (l : SessionMaintainerLocker) : Instr → Prop
  | .compareCredentials _ count _ =>
    count = l.sessionStateChangeCount ∧ l.sessionState.isUninitialized = false
  | .getFailureCount _ state _ count _ | .addSessionToken _ _ state count =>
    state = l.sessionState ∧ count = l.sessionStateChangeCount
  | .setSessionStateSafe newState count _ =>
    count = l.sessionStateChangeCount ∧ l.sessionState.isUninitialized = false ∧
      (newState.isProlongedError = true → l.sessionState.isRunning = false)
  | _ => True

theorem Instr.upToDate_of_tokenless {i : Instr} (h : i.tokenless = true)
    (l : SessionMaintainerLocker) : i.UpToDate l := by
  cases i <;> trivial

theorem Instr.UpToDate.congr {i : Instr} {l l' : SessionMaintainerLocker} (h : i.UpToDate l)
    (hsame : SameSession l l') : i.UpToDate l' := by
  obtain ⟨hstate, hcount, -⟩ := hsame
  cases i with
  | compareCredentials _ _ _ | getFailureCount _ _ _ _ _ | addSessionToken _ _ _ _
  | setSessionStateSafe _ _ _ =>
    simp only [Instr.UpToDate] at h ⊢
    rw [hstate, hcount]
    exact h
  | _ => trivial

/-- Behind the second stage nothing was read, and no token is taken behind the start. -/
theorem Instr.upToDate_of_first {i : Instr} (h : 2 ≤ i.first) (l : SessionMaintainerLocker) :
    i.UpToDate l := by
  cases i with
  | compareCredentials _ _ _ | getFailureCount _ _ _ _ _ | addSessionToken _ _ _ _
  | setSessionStateSafe _ _ _ => exact absurd h (by simp [Instr.first])
  | _ => trivial

theorem Instr.taken_of_first {i : Instr} (h : 1 ≤ i.first) : i.taken = none := by
  cases i with
  | initWithToken _ _ | addInProgressRequestWithToken _ _ _ =>
    exact absurd h (by simp [Instr.first])
  | _ => rfl

namespace SessionMaintainerLocker

/-- One of the tables holds a token. -/
def HoldsToken (l : SessionMaintainerLocker) : Prop :=
  l.sessionTokens ≠ [] ∨ l.checkedOutTokens ≠ ∅

theorem holdsToken_of_find? {l : SessionMaintainerLocker} {r : ℕ} {out : CheckedOut}
    (h : l.checkedOutTokens.find? r = some out) : l.HoldsToken := by
  refine Or.inr fun hempty => ?_
  rw [hempty] at h
  cases h

theorem holdsToken_of_mem {l : SessionMaintainerLocker} {st : SessionTokenData}
    (h : st ∈ l.sessionTokens) : l.HoldsToken := Or.inl (List.ne_nil_of_mem h)

theorem HoldsToken.cases {l : SessionMaintainerLocker} (h : l.HoldsToken) :
    (∃ st, st ∈ l.sessionTokens) ∨ ∃ r out, l.checkedOutTokens.find? r = some out := by
  rcases h with hstored | hout
  · exact Or.inl (List.exists_mem_of_ne_nil _ hstored)
  · refine Or.inr ?_
    by_contra hnone
    push Not at hnone
    refine hout (AList.ext_iff.mpr ?_)
    refine List.eq_nil_iff_forall_not_mem.mpr ?_
    rintro ⟨r, out⟩ hmem
    exact hnone r out (AList.mem_lookup_iff.mpr hmem)

end SessionMaintainerLocker

namespace State

variable {s s' : State}

/-- Between handlers a token in a table means `Running`, and credentials are set unless the state is
`Uninitialized`. -/
structure Agrees (s : State) : Prop where
  tables : s.threads = [] → s.locker.HoldsToken → s.locker.sessionState.isRunning = true
  credentials : s.locker.credentials.isSome = true ↔ s.locker.sessionState.isUninitialized = false

/-- A request is started with a token only in `Running`, with one accepted since the tables were
last cleared, and `SetSessionStateSafe` finds the change count that its handler read. -/
structure StepAgrees (s : State) (a : Act) (_ : State) : Prop where
  starts : ∀ k r st rest, a = .run k → s.threads[k]? = some (.initWithToken r st :: rest) →
    s.locker.sessionState.isRunning = true ∧ st.sessionToken ∈ s.locker.accepted
  succeeds : ∀ k newState count c rest, a = .run k →
    s.threads[k]? = some (.setSessionStateSafe newState count c :: rest) →
      s.locker.sessionStateChangeCount = count

/-- The handler is about to set `Running`. -/
def SetsRunning (s : State) : Prop :=
  ∃ response count c, .setSessionStateSafe (.running response) count c ∈ pending s.threads

structure Agreed (s : State) : Prop where
  inOrder : InOrder s
  wellMade : WellMade s
  credentials : s.locker.credentials.isSome = true ↔ s.locker.sessionState.isUninitialized = false
  upToDate : ∀ i ∈ pending s.threads, i.UpToDate s.locker
  tables : s.locker.HoldsToken → s.locker.sessionState.isRunning = true ∨ s.SetsRunning
  taken : ∀ i ∈ pending s.threads, ∀ st, i.taken = some st →
    s.locker.sessionState.isRunning = true ∧ st.sessionToken ∈ s.locker.accepted
  stored : ∀ st ∈ s.locker.sessionTokens, st.sessionToken ∈ s.locker.accepted
  checkedOut : ∀ r out, s.locker.checkedOutTokens.find? r = some out →
    out.token.sessionToken ∈ s.locker.accepted

theorem Agreed.agrees (h : Agreed s) : Agrees s where
  tables hnone hholds := by
    rcases h.tables hholds with hrunning | ⟨response, count, c, hmem⟩
    · exact hrunning
    · rw [hnone] at hmem
      cases hmem
  credentials := h.credentials

theorem Agreed.stepAgrees (h : Agreed s) (a : Act) (s' : State) : StepAgrees s a s' where
  starts _ _ st _ _ hk := h.taken _ (stepped_runThread hk).head_mem st rfl
  succeeds _ _ _ _ _ _ hk := (h.upToDate _ (stepped_runThread hk).head_mem).1.symm

/-! ### Steps -/

theorem Agreed.spawn (h : Agreed s) (program : List Instr)
    (hlocker : SameTokens s.locker s'.locker)
    (hthreads : s'.threads = Threads.spawn program s.threads)
    (huptodate : ∀ j ∈ program, j.UpToDate s.locker) (htaken : ∀ j ∈ program, j.taken = none)
    (hinOrder : InOrder s') (hwellMade : WellMade s') : Agreed s' := by
  have hpending {j : Instr} : j ∈ pending s'.threads ↔ j ∈ pending s.threads ∨ j ∈ program := by
    rw [hthreads]
    exact mem_pending_spawn
  refine ⟨hinOrder, hwellMade, ?_, fun j hj => ?_, fun hholds => ?_, fun j hj st hst => ?_, ?_, ?_⟩
  · rw [hlocker.credentials, hlocker.sessionState]
    exact h.credentials
  · refine Instr.UpToDate.congr ?_ hlocker.sameSession
    exact (hpending.mp hj).elim (h.upToDate j) (huptodate j)
  · unfold SessionMaintainerLocker.HoldsToken at hholds
    rw [hlocker.stored, hlocker.checkedOut] at hholds
    rw [hlocker.sessionState]
    rcases h.tables hholds with hrunning | ⟨response, count, c, hmem⟩
    · exact Or.inl hrunning
    · exact Or.inr ⟨response, count, c, hpending.mpr (Or.inl hmem)⟩
  · rw [hlocker.sessionState, hlocker.accepted]
    rcases hpending.mp hj with hj | hj
    · exact h.taken j hj st hst
    · rw [htaken j hj] at hst
      cases hst
  · rw [hlocker.stored, hlocker.accepted]
    exact h.stored
  · rw [hlocker.checkedOut, hlocker.accepted]
    exact h.checkedOut

/-- What an instruction goes on with was read under the same lock or before. -/
theorem upToDate_pushed {i j : Instr} (hi : i.UpToDate s.locker) (hwellMade : i.wellMade = true)
    (hj : j ∈ (s.exec i).2) : j.UpToDate s.locker := by
  cases pushes_exec hj with
  | control h => exact Instr.upToDate_of_tokenless (Instr.tokenless_of_control h) _
  | compareCredentials hstate _ => exact ⟨rfl, hstate⟩
  | getFailureCount _ => exact ⟨rfl, rfl⟩
  | addSessionToken _ => exact ⟨rfl, rfl⟩
  | @credentialsFailure newState count c _ =>
    refine ⟨hi.1, hi.2, fun hprolonged => ?_⟩
    have hfailure : newState.isCredentialsError = true := hwellMade
    cases newState with
    | prolongedError => cases hfailure
    | _ => cases hprolonged
  | @prolongedError locked state newState count c hstate =>
    obtain ⟨rfl, hcount⟩ := hi
    refine ⟨hcount, ?_, fun _ => ?_⟩ <;>
      (cases hs : s.locker.sessionState <;> simp_all [SessionState.isInitialized,
        SessionState.isProlongedError, SessionState.isUninitialized, SessionState.isRunning])
  | running _ hstate _ =>
    obtain ⟨rfl, hcount⟩ := hi
    exact ⟨hcount, hstate, fun h => by cases h⟩
  | handleCompletion _ h => rcases mem_handleCompletion h with rfl | rfl | rfl | rfl <;> trivial
  | handleRetryRequest _ h =>
    rcases mem_handleRetryRequest h with rfl | rfl | rfl | rfl | rfl <;> trivial
  | _ => trivial

/-- A token is accepted in `Running`, or the handler goes on to set it. -/
theorem runs_or_sets {k : ℕ} {response : TokenResponse} {c : Credentials} {state : SessionState}
    {count : ℕ} {rest : List Instr}
    (hcredentials : s.locker.credentials.isSome = true ↔
      s.locker.sessionState.isUninitialized = false)
    (hk : s.threads[k]? = some (.addSessionToken response c state count :: rest))
    (hi : (Instr.addSessionToken response c state count).UpToDate s.locker)
    (hc : s.locker.credentials = some c) :
    (s.runThread k (.addSessionToken response c state count) rest).locker.sessionState.isRunning =
      true ∨ (s.runThread k (.addSessionToken response c state count) rest).SetsRunning := by
  obtain ⟨rfl, -⟩ := hi
  have huninitialized : s.locker.sessionState.isUninitialized = false :=
    hcredentials.mp (by rw [hc]; rfl)
  rcases s.addSessionToken_cases response c s.locker.sessionState count with
    ⟨l, hl, heq⟩ | ⟨hne, -⟩
  · cases hrunning : s.locker.sessionState.isRunning with
    | true =>
      refine Or.inl ?_
      have hsame := s.sameSession_exec (i := .addSessionToken response c s.locker.sessionState count)
        rfl
      change (s.exec _).1.locker.sessionState.isRunning = true
      rw [hsame.sessionState]
      exact hrunning
    | false =>
      refine Or.inr ⟨response, count, c, (stepped_runThread hk).pushed_mem ?_⟩
      simp [exec, heq, huninitialized, hrunning]
  · exact absurd hc hne

/-- A token is taken where no change of the state is left to do. -/
theorem Agreed.taken_pushed (h : Agreed s) {k : ℕ} {i j : Instr} {rest : List Instr}
    (hk : s.threads[k]? = some (i :: rest)) (hj : j ∈ (s.exec i).2) {st : SessionTokenData}
    (hst : j.taken = some st) :
    s.locker.sessionState.isRunning = true ∧ st.sessionToken ∈ s.locker.accepted := by
  have hpending := (h.inOrder.pending_runThread hk).1
  cases pushes_exec hj with
  | control hcontrol =>
    rw [Instr.taken_of_tokenless (Instr.tokenless_of_control hcontrol)] at hst
    cases hst
  | initWithToken _ hstored =>
    cases hst
    refine ⟨?_, h.stored _ hstored⟩
    rcases h.tables (SessionMaintainerLocker.holdsToken_of_mem hstored) with
      hrunning | ⟨response, count, c, hmem⟩
    · exact hrunning
    · rw [hpending] at hmem
      rcases List.mem_cons.mp hmem with heq | hmem
      · cases heq
      · exact absurd (h.inOrder.staged.behind hk hmem) (by simp [Instr.first, Instr.last])
  | addWithToken =>
    cases hst
    exact h.taken _ (stepped_runThread hk).head_mem _ rfl
  | handleCompletion _ hj => rcases mem_handleCompletion hj with rfl | rfl | rfl | rfl <;> cases hst
  | handleRetryRequest _ hj =>
    rcases mem_handleRetryRequest hj with rfl | rfl | rfl | rfl | rfl <;> cases hst
  | _ => cases hst

/-- Sections that leave the session state alone. -/
theorem Agreed.runs_same (h : Agreed s) {k : ℕ} {i : Instr} {rest : List Instr}
    (hk : s.threads[k]? = some (i :: rest)) (hi : i.movesSession = false)
    (hinOrder : InOrder (s.runThread k i rest)) (hwellMade : WellMade (s.runThread k i rest)) :
    Agreed (s.runThread k i rest) := by
  have hthread := stepped_runThread hk
  have hsame : SameSession s.locker (s.runThread k i rest).locker := s.sameSession_exec hi
  have haccepted {t : String} (ht : t ∈ s.locker.accepted) :
      t ∈ (s.runThread k i rest).locker.accepted := s.accepted_exec hi ht
  have hrunning : s.locker.sessionState.isRunning = true ∨ s.SetsRunning →
      (s.runThread k i rest).locker.sessionState.isRunning = true ∨
        (s.runThread k i rest).SetsRunning := by
    rintro (hrunning | ⟨response, count, c, hmem⟩)
    · exact Or.inl (hsame.sessionState ▸ hrunning)
    · refine Or.inr ⟨response, count, c, hthread.stays hmem ?_⟩
      rintro rfl
      cases hi
  refine ⟨hinOrder, hwellMade, ?_, fun j hj => ?_, fun hholds => ?_, fun j hj st hst => ?_,
    fun st hst => ?_, fun r out hout => ?_⟩
  · rw [hsame.credentials, hsame.sessionState]
    exact h.credentials
  · refine Instr.UpToDate.congr ?_ hsame
    rcases hthread.mem hj with hj | hj
    · exact upToDate_pushed (h.upToDate i hthread.head_mem) (h.wellMade i hthread.head_mem) hj
    · exact h.upToDate j hj
  · rcases hholds.cases with ⟨st, hst⟩ | ⟨r, out, hout⟩
    · cases storedBy_exec hst with
      | kept hst => exact hrunning (h.tables (SessionMaintainerLocker.holdsToken_of_mem hst))
      | accepted _ hc _ => exact runs_or_sets h.credentials hk (h.upToDate _ hthread.head_mem) hc
      | returned _ hout =>
        exact hrunning (h.tables (SessionMaintainerLocker.holdsToken_of_find? hout))
    · rcases checkedOut_exec s hout with hout | rfl
      · exact hrunning (h.tables (SessionMaintainerLocker.holdsToken_of_find? hout))
      · exact hrunning (Or.inl (h.taken _ hthread.head_mem out.token rfl).1)
  · rcases hthread.mem hj with hj | hj
    · obtain ⟨hrunning, ht⟩ := h.taken_pushed hk hj hst
      exact ⟨hsame.sessionState ▸ hrunning, haccepted ht⟩
    · obtain ⟨hrunning, ht⟩ := h.taken j hj st hst
      exact ⟨hsame.sessionState ▸ hrunning, haccepted ht⟩
  · cases storedBy_exec hst with
    | kept hst => exact haccepted (h.stored st hst)
    | accepted _ _ ht => exact ht
    | returned heq hout =>
      rw [heq, SessionMaintainerLocker.renewKey_sessionToken]
      exact haccepted (h.checkedOut _ _ hout)
  · rcases checkedOut_exec s hout with hout | rfl
    · exact haccepted (h.checkedOut r out hout)
    · exact haccepted (h.taken _ hthread.head_mem out.token rfl).2

/-- Behind a change of the session state nothing is left that depends on it. -/
theorem Agreed.changes (h : Agreed s) {k : ℕ} {i : Instr} {rest : List Instr}
    (hk : s.threads[k]? = some (i :: rest)) (hi : 2 ≤ i.last) (hnil : (s.exec i).2 = [])
    (hinOrder : InOrder (s.runThread k i rest)) (hwellMade : WellMade (s.runThread k i rest))
    (hcredentials : (s.exec i).1.locker.credentials.isSome = true ↔
      (s.exec i).1.locker.sessionState.isUninitialized = false)
    (htables : (s.exec i).1.locker.HoldsToken → (s.exec i).1.locker.sessionState.isRunning = true)
    (hstored : ∀ st ∈ (s.exec i).1.locker.sessionTokens,
      st.sessionToken ∈ (s.exec i).1.locker.accepted)
    (hout : ∀ r out, (s.exec i).1.locker.checkedOutTokens.find? r = some out →
      out.token.sessionToken ∈ (s.exec i).1.locker.accepted) :
    Agreed (s.runThread k i rest) := by
  have hrest {j : Instr} (hj : j ∈ pending (s.runThread k i rest).threads) : 2 ≤ j.first := by
    rw [(h.inOrder.pending_runThread hk).2, hnil, List.nil_append] at hj
    exact hi.trans (h.inOrder.staged.behind hk hj)
  refine ⟨hinOrder, hwellMade, hcredentials, fun j hj => Instr.upToDate_of_first (hrest hj) _,
    fun hholds => Or.inl (htables hholds), fun j hj st hst => ?_, hstored, hout⟩
  rw [Instr.taken_of_first (le_trans (by decide) (hrest hj))] at hst
  cases hst

/-- Where the head sets a state and a table holds a token, it is `Running` that it sets, or it is the
state already. -/
theorem Agreed.running_or_head (h : Agreed s) {k : ℕ} {i : Instr} {rest : List Instr}
    (hk : s.threads[k]? = some (i :: rest)) (hi : 2 ≤ i.last) (hholds : s.locker.HoldsToken) :
    s.locker.sessionState.isRunning = true ∨
      ∃ response count c, i = .setSessionStateSafe (.running response) count c := by
  rcases h.tables hholds with hrunning | ⟨response, count, c, hmem⟩
  · exact Or.inl hrunning
  · rw [(h.inOrder.pending_runThread hk).1] at hmem
    rcases List.mem_cons.mp hmem with heq | hmem
    · exact Or.inr ⟨response, count, c, heq.symm⟩
    · have hbehind := hi.trans (h.inOrder.staged.behind hk hmem)
      exact absurd hbehind (by simp [Instr.first])

theorem Agreed.runs_setCredentials (h : Agreed s) {k : ℕ} {c : Credentials} {rest : List Instr}
    (hk : s.threads[k]? = some (.setCredentials c :: rest))
    (hinOrder : InOrder (s.runThread k (.setCredentials c) rest))
    (hwellMade : WellMade (s.runThread k (.setCredentials c) rest)) :
    Agreed (s.runThread k (.setCredentials c) rest) := by
  have hrunning (hholds : s.locker.HoldsToken) : s.locker.sessionState.isRunning = true := by
    rcases h.running_or_head hk (Nat.le_succ 2) hholds with hrunning | ⟨_, _, _, heq⟩
    · exact hrunning
    · cases heq
  have hlocker : (s.exec (.setCredentials c)).1.locker = s.locker.setCredentials c := rfl
  rcases s.locker.setCredentials_cases c with ⟨-, heq⟩ | ⟨-, hstate, heq⟩ | ⟨-, -, hchanged⟩
  · rw [heq] at hlocker
    refine h.changes hk (Nat.le_succ 2) rfl hinOrder hwellMade ?_ ?_ ?_ ?_ <;> rw [hlocker]
    · exact h.credentials
    · exact hrunning
    · exact h.stored
    · exact h.checkedOut
  · rw [heq] at hlocker
    refine h.changes hk (Nat.le_succ 2) rfl hinOrder hwellMade ?_ ?_ ?_ ?_ <;> rw [hlocker]
    · cases hs : s.locker.sessionState <;> simp_all [SessionState.isInitialized,
        SessionState.isUninitialized]
    · intro hholds
      exact hrunning hholds
    · exact h.stored
    · exact h.checkedOut
  · refine h.changes hk (Nat.le_succ 2) rfl hinOrder hwellMade ?_ ?_ ?_ ?_ <;> rw [hlocker]
    · rw [hchanged.credentials, hchanged.sessionState]
      exact iff_of_true rfl rfl
    · rintro (hstored | hout)
      · exact absurd hchanged.stored hstored
      · exact absurd hchanged.checkedOut hout
    · rw [hchanged.stored]
      exact fun st hst => by cases hst
    · rw [hchanged.checkedOut]
      exact fun r out hout => by cases hout

theorem Agreed.runs_setSessionStateSafe (h : Agreed s) {k : ℕ} {state : SessionState} {count : ℕ}
    {c : Credentials} {rest : List Instr}
    (hk : s.threads[k]? = some (.setSessionStateSafe state count c :: rest))
    (hinOrder : InOrder (s.runThread k (.setSessionStateSafe state count c) rest))
    (hwellMade : WellMade (s.runThread k (.setSessionStateSafe state count c) rest)) :
    Agreed (s.runThread k (.setSessionStateSafe state count c) rest) := by
  obtain ⟨hcount, hinitialized, hprolonged⟩ := h.upToDate _ (stepped_runThread hk).head_mem
  have hmade : (Instr.setSessionStateSafe state count c).wellMade = true :=
    h.wellMade _ (stepped_runThread hk).head_mem
  have hlocker : (s.exec (.setSessionStateSafe state count c)).1.locker =
      s.locker.setSessionStateSafe state count := rfl
  have hrunning (hholds : s.locker.HoldsToken) :
      s.locker.sessionState.isRunning = true ∨ state.isRunning = true := by
    rcases h.running_or_head hk le_rfl hholds with hrunning | ⟨_, _, _, heq⟩
    · exact Or.inl hrunning
    · cases heq
      exact Or.inr rfl
  rcases s.locker.setSessionStateSafe_cases state count with ⟨hsame, heq⟩ | ⟨-, -, hchanged⟩
  · rw [heq] at hlocker
    refine h.changes hk le_rfl rfl hinOrder hwellMade ?_ ?_ ?_ ?_ <;> rw [hlocker]
    · exact h.credentials
    · intro hholds
      rcases hrunning hholds with hrunning | hstate
      · exact hrunning
      · rw [SessionState.isRunning_of_same (hsame hcount.symm)]
        exact hstate
    · exact h.stored
    · exact h.checkedOut
  · refine h.changes hk le_rfl rfl hinOrder hwellMade ?_ ?_ ?_ ?_ <;> rw [hlocker]
    · have hsome := h.credentials.mpr hinitialized
      rw [hchanged.credentials, hchanged.sessionState]
      cases state <;> first | exact iff_of_true hsome rfl | cases hmade
    · intro hholds
      rw [hchanged.sessionState]
      unfold SessionMaintainerLocker.HoldsToken at hholds
      rw [hchanged.stored, hchanged.checkedOut] at hholds
      cases state with
      | running response => rfl
      | prolongedError ec response =>
        rcases hrunning hholds with hrunning | hstate
        · rw [hprolonged rfl] at hrunning
          cases hrunning
        · cases hstate
      | _ => exact absurd hholds (by simp [SessionState.clearsTokens])
    · rw [hchanged.stored, hchanged.accepted]
      split_ifs
      · exact fun st hst => by cases hst
      · exact h.stored
    · rw [hchanged.checkedOut, hchanged.accepted]
      split_ifs
      · exact fun r out hout => by cases hout
      · exact h.checkedOut

theorem Agreed.step {a : Act} (h : Agreed s) (hguard : s.OneAtATime a s')
    (hs : s.step a = some s') : Agreed s' := by
  have hinOrder := h.inOrder.step hguard hs
  have hwellMade := h.wellMade.step hs
  cases tokenMoves_of_step hs with
  | starts program hlocker _ _ _ hthreads hprogram =>
    exact h.spawn program hlocker hthreads
      (fun j hj => Instr.upToDate_of_tokenless (hprogram j hj) _)
      (fun j hj => Instr.taken_of_tokenless (hprogram j hj)) hinOrder hwellMade
  | setLoginCredentials c _ =>
    exact h.spawn [.setCredentials c, .attemptRequests] sameTokens_rfl rfl
      (by simp [Instr.UpToDate]) (by simp [Instr.taken]) hinOrder hwellMade
  | tokenResponse n c response _ =>
    by_cases hmaintainer : s.maintainerExists = true
    · rw [State.tokenResponse, if_pos hmaintainer] at hinOrder hwellMade ⊢
      exact h.spawn [.handleSessionTokenResponse response c] sameTokens_rfl rfl
        (by simp [Instr.UpToDate]) (by simp [Instr.taken]) hinOrder hwellMade
    · rw [State.tokenResponse, if_neg hmaintainer] at hinOrder hwellMade ⊢
      exact ⟨hinOrder, hwellMade, h.credentials, h.upToDate, h.tables, h.taken, h.stored,
        h.checkedOut⟩
  | destroy _ _ =>
    exact h.spawn [.stopTimeouts, .moveRequests] sameTokens_rfl rfl (by simp [Instr.UpToDate])
      (by simp [Instr.taken]) hinOrder hwellMade
  | run k i rest hk =>
    cases hmoves : i.movesSession with
    | false => exact h.runs_same hk hmoves hinOrder hwellMade
    | true =>
      cases i with
      | setCredentials c => exact h.runs_setCredentials hk hinOrder hwellMade
      | setSessionStateSafe state count c =>
        exact h.runs_setSessionStateSafe hk hinOrder hwellMade
      | _ => cases hmoves

/-! ### Runs -/

theorem agreed_created : Agreed created where
  inOrder := inOrder_created
  wellMade := wellMade_created
  credentials := by decide
  upToDate _ hi := by cases hi
  tables hholds := by
    rcases hholds with hstored | hout
    · exact absurd rfl hstored
    · exact absurd rfl hout
  taken _ hi := by cases hi
  stored _ hst := by cases hst
  checkedOut _ _ hout := by cases hout

/-- With handlers one at a time the session state and the token tables agree. -/
theorem agrees_of_oneAtATime {acts : List Act}
    (hguard : Along State.step OneAtATime created acts) :
    Always State.step Agrees created acts ∧ Along State.step StepAgrees created acts := by
  have hstep : ∀ s a s', Agreed s → OneAtATime s a s' → State.step s a = some s' → Agreed s' :=
    fun _ _ _ h hg hs => h.step hg hs
  refine ⟨Always.of_guarded (fun _ h => h.agrees) hstep agreed_created hguard, ?_⟩
  exact Along.of_guarded (fun s a s' h hg hs => ⟨h.stepAgrees a s', hstep s a s' h hg hs⟩)
    agreed_created hguard

/-- A call is answered, and its token comes back with a new key. -/
def returnedToken : List Act :=
  loginAndCall ++ .apiResponse 1 0 { newKey := true } :: List.replicate 14 (.run 0)

theorem agrees_returnedToken : Always State.step Agrees created returnedToken ∧
    Along State.step StepAgrees created returnedToken :=
  agrees_of_oneAtATime (along_of_check oneAtATime_of_check (by decide +kernel))

end State

end MediafireSdk.Api
