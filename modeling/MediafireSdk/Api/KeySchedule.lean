import MediafireSdk.Api.Exclusive

/-! The secret keys of session tokens. The key that is stored for a token is the first
one, stepped once for each response that asked for a new key; the step keeps to the
residues of a prime other than `0`, where neither `uint64_t` nor `int` overflows. -/

namespace MediafireSdk.Api

open Threads Runs Words

/-- The step of the key schedule. -/
def keyStep (key : ℤ) : ℤ := key * 16807 % 2147483647

/-- The keys that the server gives out. -/
def KeyInRange (key : ℤ) : Prop := 1 ≤ key ∧ key ≤ 2147483646

namespace KeyInRange

variable {key : ℤ}

theorem step (h : KeyInRange key) : KeyInRange (keyStep key) := by
  have hnonneg : 0 ≤ keyStep key := Int.emod_nonneg _ (by decide)
  have hlt : keyStep key < 2147483647 := Int.emod_lt_of_pos _ (by decide)
  have hne : keyStep key ≠ 0 := by
    intro hzero
    have hdvd : (2147483647 : ℤ) ∣ key * 16807 := Int.dvd_of_emod_eq_zero hzero
    have hcoprime : IsCoprime (2147483647 : ℤ) 16807 := by
      rw [Int.isCoprime_iff_gcd_eq_one]
      norm_num
    have hle := Int.le_of_dvd (by linarith [h.1]) (hcoprime.dvd_of_dvd_mul_right hdvd)
    linarith [h.2]
  exact ⟨by omega, by omega⟩

theorem iterate (h : KeyInRange key) (n : ℕ) : KeyInRange (keyStep^[n] key) := by
  induction n with
  | zero => exact h
  | succ n ih =>
    rw [Function.iterate_succ_apply']
    exact ih.step

/-- The product fits in 64 bits. -/
theorem unsigned_mul_lt (h : KeyInRange key) : unsigned 64 key * 16807 < 2 ^ 64 := by
  obtain ⟨n, rfl⟩ : ∃ n : ℕ, key = n := ⟨key.toNat, (Int.toNat_of_nonneg (by linarith [h.1])).symm⟩
  have hn : n ≤ 2147483646 := by exact_mod_cast h.2
  rw [unsigned_natCast (by omega)]
  omega

theorem inRange (h : KeyInRange key) : InRange 32 key := by
  obtain ⟨hpos, hle⟩ := h
  constructor <;> omega

/-- No conversion changes a value. -/
theorem nextKey (h : KeyInRange key) : SessionMaintainerLocker.nextKey key = keyStep key := by
  have hmul := h.unsigned_mul_lt
  obtain ⟨n, rfl⟩ : ∃ n : ℕ, key = n := ⟨key.toNat, (Int.toNat_of_nonneg (by linarith [h.1])).symm⟩
  have hn : n ≤ 2147483646 := by exact_mod_cast h.2
  have hcast : unsigned 64 (n : ℤ) = n := unsigned_natCast (by omega)
  rw [hcast] at hmul
  have hmod : n * 16807 % 2147483647 < 2147483647 := Nat.mod_lt _ (by decide)
  rw [SessionMaintainerLocker.nextKey, hcast, trunc_of_lt hmul, signed_of_lt (by omega), keyStep]
  push_cast
  rfl

end KeyInRange

namespace State

variable {s s' : State} {st : SessionTokenData}

/-- How often a response that the token came back with asked for a new key. -/
def renewals (s : State) (t : String) : ℕ := s.locker.returned.count (t, true)

/-- The key is the first one, stepped with every renewal. -/
def Scheduled (s : State) (st : SessionTokenData) : Prop :=
  ∃ first ∈ s.issued, first.sessionToken = st.sessionToken ∧
    st.secretKey = keyStep^[s.renewals st.sessionToken] first.secretKey

/-- One of the tables holds the token. -/
def Holds (s : State) (st : SessionTokenData) : Prop :=
  st ∈ s.locker.sessionTokens ∨
    ∃ r out, s.locker.checkedOutTokens.find? r = some out ∧ out.token = st

structure TokensRight (s : State) : Prop where
  exclusive : ∀ t, s.locker.tokenWeight (SessionTokenData.is t) ≤ 1
  alone : s.maintainerExists = true → ∀ r ∈ s.locker.inProgressRequests,
    ∀ r' ∈ s.locker.inProgressRequests, ∀ t, (s.requests r).sessionToken = some t →
      (s.requests r').sessionToken = some t → r = r'
  scheduled : ∀ st, s.Holds st → s.Scheduled st
  nonzero : ∀ st, s.Holds st → 1 ≤ st.secretKey ∧ st.secretKey ≤ 2147483646
  exact : ∀ st, s.Holds st → unsigned 64 st.secretKey * 16807 < 2 ^ 64 ∧
    InRange 32 (keyStep st.secretKey) ∧
    (SessionMaintainerLocker.renewKey true st).secretKey = keyStep st.secretKey

/-- The invariant of the keys. -/
structure Keyed (s : State) : Prop where
  issued : ∀ st ∈ s.issued, KeyInRange st.secretKey
  returned : ∀ p ∈ s.locker.returned, p.1 ∈ s.issuedTokens
  stored : ∀ st ∈ s.locker.sessionTokens, s.Scheduled st
  checkedOut : ∀ r out, s.locker.checkedOutTokens.find? r = some out → s.Scheduled out.token
  moving : ∀ i ∈ pending s.threads, ∀ st ∈ i.tokens ++ i.arriving, s.Scheduled st

theorem Keyed.inRange (h : Keyed s) (hst : s.Scheduled st) : KeyInRange st.secretKey := by
  obtain ⟨first, hfirst, -, heq⟩ := hst
  rw [heq]
  exact (h.issued first hfirst).iterate _

theorem Keyed.scheduled (h : Keyed s) (hst : s.Holds st) : s.Scheduled st := by
  rcases hst with hst | ⟨r, out, hout, rfl⟩
  · exact h.stored st hst
  · exact h.checkedOut r out hout

theorem Scheduled.mono (h : s.Scheduled st) (hissued : ∀ first ∈ s.issued, first ∈ s'.issued)
    (hrenewals : s'.renewals st.sessionToken = s.renewals st.sessionToken) : s'.Scheduled st := by
  obtain ⟨first, hfirst, heq, hkey⟩ := h
  exact ⟨first, hissued first hfirst, heq, hrenewals ▸ hkey⟩

theorem tokens_pushed {i j : Instr} (hj : j ∈ (s.exec i).2) (hst : st ∈ j.tokens) :
    st ∈ i.tokens ++ i.arriving ∨ st ∈ s.locker.sessionTokens := by
  cases pushes_exec hj with
  | control h =>
    rw [Instr.tokens_of_tokenless (Instr.tokenless_of_control h)] at hst
    cases hst
  | initWithToken _ hstored =>
    rw [List.mem_singleton.mp hst]
    exact Or.inr hstored
  | addWithToken => exact Or.inl (List.mem_append_left _ hst)
  | getSessionState => exact Or.inl (List.mem_append_right _ hst)
  | addSessionToken hec =>
    refine Or.inl (List.mem_append_left _ ?_)
    simp only [Instr.tokens, if_pos hec]
    exact hst
  | handleCompletion _ h => rcases mem_handleCompletion h with rfl | rfl | rfl | rfl <;> cases hst
  | handleRetryRequest _ h =>
    rcases mem_handleRetryRequest h with rfl | rfl | rfl | rfl | rfl <;> cases hst
  | _ => cases hst

/-- Only `ReuseToken` logs the return of a token. -/
theorem returned_exec (s : State) {i : Instr} (h : ∀ r a newKey, i ≠ .reuseToken r a newKey) :
    (s.exec i).1.locker.returned = s.locker.returned := by
  cases hmoves : i.movesTokens with
  | false => exact (s.sameTokens_exec hmoves).returned
  | true =>
    cases i with
    | setCredentials c =>
      rcases s.locker.setCredentials_cases c with ⟨-, heq⟩ | ⟨-, -, heq⟩ | ⟨-, -, hchanged⟩
      · simp only [exec, setLocker_locker, heq]
      · simp only [exec, setLocker_locker, heq]
      · exact hchanged.returned
    | setSessionStateSafe newState count c =>
      rcases s.locker.setSessionStateSafe_cases newState count with ⟨-, heq⟩ | ⟨-, -, hchanged⟩
      · simp only [exec, setLocker_locker, heq]
      · exact hchanged.returned
    | nextWaitingSessionTokenRequest =>
      rcases s.attemptSessionTokenRequest_cases with ⟨q, st, l, hl, heq⟩ | heq
      · obtain ⟨waiting, tokens, -, -, rfl⟩ :=
          SessionMaintainerLocker.nextWaitingSessionTokenRequest_eq_some hl
        simp only [exec, heq, setLocker_locker]
      · simp only [exec, heq]
    | tryRequestSessionToken c loop =>
      rcases s.tryRequestSessionToken_cases c loop with ⟨l, hl, heq⟩ | heq
      · obtain ⟨-, rfl⟩ := SessionMaintainerLocker.startRequestSessionToken_eq_some hl
        simp only [exec, heq, setLocker_locker]
      · simp only [exec, heq]
    | addSessionToken response c state count =>
      rcases s.addSessionToken_cases response c state count with ⟨l, hl, heq⟩ | ⟨-, heq⟩
      · obtain ⟨-, rfl⟩ := SessionMaintainerLocker.addSessionToken_eq_some hl
        simp only [exec, heq, setLocker_locker]
      · simp only [exec, heq]
    | reuseToken q a newKey => exact absurd rfl (h q a newKey)
    | _ => first | rfl | cases hmoves

theorem stored_exec {i : Instr} (h : ∀ r a newKey, i ≠ .reuseToken r a newKey)
    (hst : st ∈ (s.exec i).1.locker.sessionTokens) : st ∈ s.locker.sessionTokens ∨ st ∈ i.tokens := by
  cases storedBy_exec hst with
  | kept hst => exact Or.inl hst
  | accepted heq _ _ =>
    rw [heq]
    exact Or.inr (List.mem_singleton_self _)
  | returned _ _ => exact absurd rfl (h _ _ _)

/-- A token that is checked out is nowhere else. -/
theorem Distinct.only_checkedOut (h : Distinct s) {r : ℕ} {out : CheckedOut}
    (hout : s.locker.checkedOutTokens.find? r = some out) :
    (∀ st ∈ s.locker.sessionTokens, st.sessionToken ≠ out.token.sessionToken) ∧
      (∀ r' out', s.locker.checkedOutTokens.find? r' = some out' → r' ≠ r →
        out'.token.sessionToken ≠ out.token.sessionToken) ∧
      ∀ i ∈ pending s.threads, ∀ st ∈ i.tokens ++ i.arriving,
        st.sessionToken ≠ out.token.sessionToken := by
  have hle := h.copies_le_one out.token.sessionToken
  have hone := one_le_checkedOut hout
  unfold State.copies SessionMaintainerLocker.tokenWeight at hle
  refine ⟨fun st hst heq => ?_, fun r' out' hout' hne heq => ?_, fun i hi st hst heq => ?_⟩
  · have hother := one_le_stored hst
    rw [heq] at hother
    omega
  · have hboth := Table.add_le_weigh (fun o => o.token.is out.token.sessionToken) hout hout' hne
    have hself := out.token.is_self
    have hother : out'.token.is out.token.sessionToken = 1 := if_pos heq
    omega
  · rcases List.mem_append.mp hst with hst | hst
    · have hother := one_le_moving hi hst
      rw [heq] at hother
      omega
    · have hload := le_load (Instr.arrivingWeight (SessionTokenData.is out.token.sessionToken)) hi
      have hother : 1 ≤ i.arrivingWeight (SessionTokenData.is out.token.sessionToken) := by
        have his : st.is out.token.sessionToken = 1 := if_pos heq
        exact his ▸ List.single_le_sum (by simp) _ (List.mem_map_of_mem hst)
      omega

/-- Steps that log no return. -/
theorem Keyed.runs_unlogged (h : Keyed s) {k : ℕ} {i : Instr} {rest : List Instr}
    (hk : s.threads[k]? = some (i :: rest))
    (hreturned : (s.exec i).1.locker.returned = s.locker.returned)
    (hstored : ∀ st ∈ (s.exec i).1.locker.sessionTokens,
      st ∈ s.locker.sessionTokens ∨ st ∈ i.tokens) : Keyed (s.runThread k i rest) := by
  have hthread := stepped_runThread hk
  have hissued : (s.runThread k i rest).issued = s.issued := (s.frame_exec i).issued
  have hsame {st : SessionTokenData} (hst : s.Scheduled st) : (s.runThread k i rest).Scheduled st :=
    hst.mono (hissued ▸ fun _ => id) (congrArg (List.count (st.sessionToken, true)) hreturned)
  have hhead {st : SessionTokenData} (hst : st ∈ i.tokens) : (s.runThread k i rest).Scheduled st :=
    hsame (h.moving _ hthread.head_mem st (List.mem_append_left _ hst))
  refine ⟨fun st hst => h.issued st (hissued ▸ hst), fun p hp => ?_, fun st hst => ?_,
    fun r out hout => ?_, fun j hj st hst => ?_⟩
  · rw [show (s.runThread k i rest).issuedTokens = s.issuedTokens from
      congrArg (List.map SessionTokenData.sessionToken) hissued]
    exact h.returned p (hreturned ▸ hp)
  · exact (hstored st hst).elim (fun hst => hsame (h.stored st hst)) hhead
  · rcases checkedOut_exec s hout with hout | rfl
    · exact hsame (h.checkedOut r out hout)
    · exact hhead (List.mem_singleton_self _)
  · rcases hthread.mem hj with hj | hj
    · rw [arriving_pushed hj, List.append_nil] at hst
      rcases tokens_pushed hj hst with hst | hst
      · exact hsame (h.moving i hthread.head_mem st hst)
      · exact hsame (h.stored st hst)
    · exact hsame (h.moving j hj st hst)

/-- A token comes back: its key and the number of its renewals step together, and no other place
has the token. -/
theorem Keyed.runs_reuseToken (h : Keyed s) (hdistinct : Distinct s) {k r a : ℕ} {newKey : Bool}
    {rest : List Instr} (hk : s.threads[k]? = some (.reuseToken r a newKey :: rest))
    {out : CheckedOut} (hout : s.locker.checkedOutTokens.find? r = some out)
    (hlocker : (s.exec (.reuseToken r a newKey)).1.locker = { s.locker with
      checkedOutTokens := s.locker.checkedOutTokens.erase r
      sessionTokens :=
        s.locker.sessionTokens ++ [SessionMaintainerLocker.renewKey newKey out.token]
      returned := s.locker.returned ++ [(out.token.sessionToken, newKey)] }) :
    Keyed (s.runThread k (.reuseToken r a newKey) rest) := by
  have hthread := stepped_runThread hk
  have hrun : (s.runThread k (.reuseToken r a newKey) rest).locker =
    (s.exec (.reuseToken r a newKey)).1.locker := rfl
  obtain ⟨hstored, hother, hmoving⟩ := hdistinct.only_checkedOut hout
  have hcount (t : String) : (s.runThread k (.reuseToken r a newKey) rest).renewals t =
      s.renewals t + if out.token.sessionToken = t ∧ newKey = true then 1 else 0 := by
    rw [renewals, hrun, hlocker, List.count_append, List.count_singleton]
    simp only [beq_iff_eq, Prod.mk.injEq]
    rfl
  have hsame {st : SessionTokenData} (hst : s.Scheduled st)
      (hne : st.sessionToken ≠ out.token.sessionToken) :
      (s.runThread k (.reuseToken r a newKey) rest).Scheduled st := by
    refine hst.mono (fun _ => id) ?_
    rw [hcount, if_neg fun heq => hne heq.1.symm, Nat.add_zero]
  refine ⟨h.issued, fun p hp => ?_, fun st hst => ?_, fun r' out' hout' => ?_, fun j hj st hst => ?_⟩
  · rw [hrun, hlocker] at hp
    rcases List.mem_append.mp hp with hp | hp
    · exact h.returned p hp
    · rw [List.mem_singleton.mp hp]
      exact hdistinct.mem_issued (one_le_copies_of_checkedOut hout)
  · rw [hrun, hlocker] at hst
    rcases List.mem_append.mp hst with hst | hst
    · exact hsame (h.stored st hst) (hstored st hst)
    · rw [List.mem_singleton.mp hst]
      obtain ⟨first, hmem, heq, hkey⟩ := h.checkedOut r out hout
      have hrange := h.inRange (h.checkedOut r out hout)
      refine ⟨first, hmem, ?_, ?_⟩
      · rw [SessionMaintainerLocker.renewKey_sessionToken]
        exact heq
      · rw [SessionMaintainerLocker.renewKey_sessionToken, hcount]
        cases newKey with
        | false =>
          rw [if_neg (by simp), Nat.add_zero]
          exact hkey
        | true =>
          rw [if_pos ⟨rfl, rfl⟩, Function.iterate_succ_apply', ← hkey]
          exact hrange.nextKey
  · rw [hrun, hlocker] at hout'
    obtain ⟨hne, hold⟩ := Table.find?_erase hout'
    exact hsame (h.checkedOut r' out' hold) (hother r' out' hold hne)
  · rcases hthread.mem hj with hj | hj
    · cases hj
    · exact hsame (h.moving j hj st hst) (hmoving j hj st hst)

theorem Keyed.runs (h : Keyed s) (hdistinct : Distinct s) {k : ℕ} {i : Instr} {rest : List Instr}
    (hk : s.threads[k]? = some (i :: rest)) : Keyed (s.runThread k i rest) := by
  by_cases hreuse : ∃ r a newKey, i = .reuseToken r a newKey
  · obtain ⟨r, a, newKey, rfl⟩ := hreuse
    rcases s.locker.reuseToken_cases (s.requests r).usesSessionToken r newKey with
      heq | ⟨out, -, hout, heq⟩
    · have hlocker : (s.exec (.reuseToken r a newKey)).1.locker = s.locker := heq
      exact h.runs_unlogged hk (congrArg _ hlocker) fun st hst => Or.inl (hlocker ▸ hst)
    · exact h.runs_reuseToken hdistinct hk hout heq
  · push Not at hreuse
    exact h.runs_unlogged hk (s.returned_exec hreuse) fun st hst => stored_exec hreuse hst

theorem Keyed.step {a : Act} (h : Keyed s) (hdistinct : Distinct s) (hguard : s.ServerTokens a s')
    (hs : s.step a = some s') : Keyed s' := by
  cases tokenMoves_of_step hs with
  | starts program hlocker _ hissued _ hthreads hprogram =>
    have hsame {st : SessionTokenData} (hst : s.Scheduled st) : s'.Scheduled st :=
      hst.mono (hissued ▸ fun _ => id)
        (congrArg (List.count (st.sessionToken, true)) hlocker.returned)
    refine ⟨fun st hst => h.issued st (hissued ▸ hst), fun p hp => ?_, fun st hst => ?_,
      fun r out hout => ?_, fun j hj st hst => ?_⟩
    · rw [issuedTokens, hissued]
      exact h.returned p (hlocker.returned ▸ hp)
    · exact hsame (h.stored st (hlocker.stored ▸ hst))
    · exact hsame (h.checkedOut r out (hlocker.checkedOut ▸ hout))
    · rw [hthreads] at hj
      rcases mem_pending_spawn.mp hj with hj | hj
      · exact hsame (h.moving j hj st hst)
      · rw [Instr.tokens_of_tokenless (hprogram j hj),
          Instr.arriving_of_tokenless (hprogram j hj)] at hst
        cases hst
  | setLoginCredentials c _ =>
    refine ⟨h.issued, h.returned, h.stored, h.checkedOut, fun j hj st hst => ?_⟩
    have hstarts : j ∈ pending (Threads.spawn [.setCredentials c, .attemptRequests] s.threads) := hj
    rcases mem_pending_spawn.mp hstarts with hj | hj
    · exact h.moving j hj st hst
    · rcases List.mem_pair.mp hj with rfl | rfl <;> cases hst
  | destroy _ _ =>
    refine ⟨h.issued, h.returned, h.stored, h.checkedOut, fun j hj st hst => ?_⟩
    have hstarts : j ∈ pending (Threads.spawn [.stopTimeouts, .moveRequests] s.threads) := hj
    rcases mem_pending_spawn.mp hstarts with hj | hj
    · exact h.moving j hj st hst
    · rcases List.mem_pair.mp hj with rfl | rfl <;> cases hst
  | tokenResponse n c response _ =>
    by_cases hmaintainer : s.maintainerExists = true
    swap
    · rw [State.tokenResponse, if_neg hmaintainer]
      exact ⟨h.issued, h.returned, h.stored, h.checkedOut, h.moving⟩
    have hissued : (s.tokenResponse n c response).issued =
        if response.errorCode = none then s.issued ++ [response.token c] else s.issued := by
      rw [State.tokenResponse, if_pos hmaintainer]
      rfl
    have hlocker : (s.tokenResponse n c response).locker = s.locker := by
      rw [State.tokenResponse, if_pos hmaintainer]
      rfl
    have hthreads : (s.tokenResponse n c response).threads =
        Threads.spawn [.handleSessionTokenResponse response c] s.threads := by
      rw [State.tokenResponse, if_pos hmaintainer]
      rfl
    have hfirst : ∀ st ∈ s.issued, st ∈ (s.tokenResponse n c response).issued := by
      intro st hst
      rw [hissued]
      split_ifs
      · exact List.mem_append_left _ hst
      · exact hst
    have hrenewals (t : String) : (s.tokenResponse n c response).renewals t = s.renewals t := by
      rw [renewals, hlocker, renewals]
    have hsame {st : SessionTokenData} (hst : s.Scheduled st) :
        (s.tokenResponse n c response).Scheduled st := hst.mono hfirst (hrenewals _)
    refine ⟨fun st hst => ?_, fun p hp => ?_, fun st hst => ?_, fun r out hout => ?_,
      fun j hj st hst => ?_⟩
    · rw [hissued] at hst
      split_ifs at hst with hec
      · rcases List.mem_append.mp hst with hst | hst
        · exact h.issued st hst
        · rw [List.mem_singleton.mp hst]
          exact hguard.key n c response rfl hec
      · exact h.issued st hst
    · rw [hlocker] at hp
      obtain ⟨st, hst, heq⟩ := List.mem_map.mp (h.returned p hp)
      exact List.mem_map.mpr ⟨st, hfirst st hst, heq⟩
    · exact hsame (h.stored st (hlocker ▸ hst))
    · exact hsame (h.checkedOut r out (hlocker ▸ hout))
    · rw [hthreads] at hj
      rcases mem_pending_spawn.mp hj with hj | hj
      · exact hsame (h.moving j hj st hst)
      · rw [List.mem_singleton.mp hj] at hst
        by_cases hec : response.errorCode = none
        · simp only [Instr.tokens, Instr.arriving, if_pos hec, List.nil_append,
            List.mem_singleton] at hst
          subst hst
          -- the token is new, so it has not come back yet
          refine ⟨response.token c, ?_, rfl, ?_⟩
          · rw [hissued, if_pos hec]
            exact List.mem_append_right _ (List.mem_singleton_self _)
          · have hzero : s.renewals response.sessionToken = 0 := by
              refine List.count_eq_zero.mpr fun hmem => ?_
              exact hguard.distinct n c response rfl hec (h.returned _ hmem)
            rw [hrenewals, show (response.token c).sessionToken = response.sessionToken from rfl, hzero]
            rfl
        · simp [Instr.tokens, Instr.arriving, if_neg hec] at hst
  | run k i rest hk => exact h.runs hdistinct hk

theorem keyed_created : Keyed created where
  issued _ h := by cases h
  returned _ h := by cases h
  stored _ h := by cases h
  checkedOut _ _ h := by cases h
  moving _ h := by cases h

/-! ### Runs -/

/-- Everything that is known of the session tokens while handlers run one at a time. -/
structure Traced (s : State) : Prop where
  inOrder : InOrder s
  tidy : Tidy s
  distinct : Distinct s
  keyed : Keyed s
  shares : s.maintainerExists = true → Shares s

theorem Traced.step {a : Act} (h : Traced s) (honce : s.OneAtATime a s')
    (hguard : s.ServerTokens a s') (hs : s.step a = some s') : Traced s' where
  inOrder := h.inOrder.step honce hs
  tidy := h.tidy.step h.inOrder.addsFirst hs
  distinct := h.distinct.step hguard hs
  keyed := h.keyed.step h.distinct hguard hs
  shares hexists := (h.shares (exists_of_step hs hexists)).step h.tidy h.distinct h.inOrder honce
    hguard hs hexists

theorem Traced.tokensRight (h : Traced s) : TokensRight s where
  exclusive t := by
    have hle := h.distinct.copies_le_one t
    unfold State.copies at hle
    omega
  alone hexists := (h.shares hexists).alone
  scheduled _ hst := h.keyed.scheduled hst
  nonzero _ hst := h.keyed.inRange (h.keyed.scheduled hst)
  exact st hst := by
    have hrange := h.keyed.inRange (h.keyed.scheduled hst)
    exact ⟨hrange.unsigned_mul_lt, hrange.step.inRange, hrange.nextKey⟩

theorem traced_created : Traced created where
  inOrder := inOrder_created
  tidy := tidy_created
  distinct := distinct_created
  keyed := keyed_created
  shares _ := shares_created

/-- With handlers one at a time and distinct tokens of the server, each token is in one place, with
one request in progress, and its key follows the schedule. -/
theorem tokensRight_of_serverTokens {acts : List Act}
    (hguard : Along State.step (fun s a s' => s.OneAtATime a s' ∧ s.ServerTokens a s') created acts) :
    Always State.step TokensRight created acts :=
  Always.of_guarded (fun _ (h : Traced _) => h.tokensRight)
    (fun _ _ _ h hg hs => h.step hg.1 hg.2 hs) traced_created hguard

def serverTokens (s : State) : Act → Bool
  | .tokenResponse _ _ response => response.errorCode ≠ none ∨
    (response.sessionToken ∉ s.issuedTokens ∧ 1 ≤ response.secretKey ∧
      response.secretKey ≤ 2147483646)
  | _ => true

theorem serverTokens_of_check (s : State) (a : Act) (s' : State) (h : s.serverTokens a = true) :
    ServerTokens s a s' := by
  have hresponse {n : ℕ} {c : Credentials} {response : TokenResponse}
      (ha : a = .tokenResponse n c response) (hec : response.errorCode = none) :
      response.sessionToken ∉ s.issuedTokens ∧ 1 ≤ response.secretKey ∧
        response.secretKey ≤ 2147483646 := by
    subst ha
    exact (of_decide_eq_true h).resolve_left fun hne => hne hec
  exact ⟨fun _ _ _ ha hec => (hresponse ha hec).1, fun _ _ _ ha hec => (hresponse ha hec).2⟩

/-- A token comes back from two calls with new keys. -/
def renewedTwice : List Act :=
  loginAndCall ++ .apiResponse 1 0 { newKey := true } :: List.replicate 14 (.run 0) ++
    .call true :: List.replicate 12 (.run 0) ++
    .apiResponse 2 1 { newKey := true } :: List.replicate 14 (.run 0)

theorem tokensRight_renewedTwice : Always State.step TokensRight created renewedTwice :=
  tokensRight_of_serverTokens <| along_of_check (p := fun s a => s.oneAtATime a && s.serverTokens a)
    (fun s a s' h => ⟨oneAtATime_of_check s a s' (Bool.and_eq_true_iff.mp h).1,
      serverTokens_of_check s a s' (Bool.and_eq_true_iff.mp h).2⟩) (by decide +kernel)

end State

end MediafireSdk.Api
