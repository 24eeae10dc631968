import MediafireSdk.Api.Accounts
import MediafireSdk.Api.Lives

/-! No call is lost. The account of a request stays at least one as long as nothing
takes out of it, and an attempt in flight is of use only while something keeps the
request object: while the maintainer exists it is in progress or about to be, since
a request has one life at a time, and behind the destructor the user has to keep it. -/

namespace MediafireSdk.Api

open Threads Runs

/-- The request is put in the container that keeps it, or all that were there are kept. -/
def Instr.keeps (r : ℕ) : Instr → Bool
  | .addInProgressRequest q _ | .addInProgressRequestWithToken q _ _ => q = r
  | .release rs => r ∈ rs
  | _ => false

theorem Instr.mem_requests_of_keeps {j : Instr} {r : ℕ} (h : j.keeps r = true) :
    r ∈ j.requests := by
  cases j with
  | addInProgressRequest q a | addInProgressRequestWithToken q a st =>
    exact List.mem_singleton.mpr (of_decide_eq_true h).symm
  | release rs => exact of_decide_eq_true h
  | _ => cases h

namespace State

variable {s s' : State} {r : ℕ}

/-- The completion callback was called or is about to be. -/
def Answered (s : State) (r : ℕ) : Prop :=
  0 < (s.requests r).completions ∨ .completionCallback r ∈ pending s.threads

/-- What keeps the object of a request while it has an attempt in flight. -/
def Kept (s : State) (r : ℕ) : Prop :=
  r ∈ s.locker.inProgressRequests ∨ (∃ i ∈ pending s.threads, i.keeps r = true) ∨
    (s.requests r).held = true

/-- The request is in a container, is moved by a handler that still owes its callback, has its
callback called or queued, or has an attempt in flight whose answer finds it. -/
def NotLost (s : State) (r : ℕ) : Prop :=
  r ∈ s.locker.waitingStRequests ∨ r ∈ s.locker.waitingNonStRequests ∨
    r ∈ s.locker.inProgressRequests ∨ r ∈ s.locker.delayedRequests.events ∨
    (∃ i ∈ pending s.threads, 0 < i.owes (s.unstarted r) r) ∨
    0 < (s.requests r).completions ∨ (r ∈ s.apiRequests.map Prod.snd ∧ s.Alive r)

instance (s : State) (r : ℕ) : Decidable (s.NotLost r) := inferInstanceAs (Decidable (_ ∨ _))

/-- No request that was handed to `Call` is lost. -/
def NoneLost (s : State) : Prop := ∀ r < s.called, s.NotLost r

/-- The condition on a step: a request without an answer that fails, is cancelled by the
destructor or dropped with the delayed ones has never had an attempt or is not among them, and its
object is kept while an attempt is in flight. -/
structure Delivers (s : State) (a : Act) (_ : State) : Prop where
  notLost : ∀ k i rest, a = .run k → s.threads[k]? = some (i :: rest) →
    ∀ r < s.called, ¬ s.Answered r → s.lost r i = 0
  release : ∀ k rs rest, a = .run k → s.threads[k]? = some (.release rs :: rest) →
    ∀ r ∈ rs, (∃ n, (n, r) ∈ s.apiRequests) → ¬ s.Answered r → (s.requests r).held = true
  drop : ∀ r, a = .dropRequest r → (∃ n, (n, r) ∈ s.apiRequests) → ¬ s.Answered r →
    r ∈ s.locker.inProgressRequests ∨ ∃ i ∈ pending s.threads, i.keeps r = true

/-- The account of every request is at least one. -/
structure Delivered (s : State) : Prop where
  owed : ∀ r < s.called, 1 ≤ s.account r
  life : s.OneLife
  kept : ∀ r a, (a, r) ∈ s.apiRequests → s.Answered r ∨ s.Kept r

theorem Kept.alive (h : s.Kept r) : s.Alive r := by
  rcases h with h | ⟨i, hi, h⟩ | h
  · exact Or.inr (Or.inr (Or.inl h))
  · exact Or.inr (Or.inr (Or.inr (Or.inr (Or.inr (Or.inl
      ⟨i, hi, Instr.mem_requests_of_keeps h⟩)))))
  · exact Or.inr (Or.inr (Or.inr (Or.inr (Or.inr (Or.inr h)))))

theorem Answered.one_le_account (h : s.Answered r) : 1 ≤ s.account r := by
  unfold account tally
  rcases h with h | h
  · omega
  · have howes : Instr.owes (s.unstarted r) r (.completionCallback r) = 1 := if_pos rfl
    have hle := le_load (Instr.owes (s.unstarted r) r) h
    omega

theorem Delivered.noneLost (h : Delivered s) : s.NoneLost := by
  intro r hr
  have howed := h.owed r hr
  unfold NotLost
  by_cases hload : 0 < load (Instr.owes (s.unstarted r) r) s.threads
  · exact Or.inr (Or.inr (Or.inr (Or.inr (Or.inl (exists_of_load_pos hload)))))
  by_cases hattempts : 0 < s.attempts r
  · obtain ⟨a, ha⟩ := mem_of_attempts_pos hattempts
    rcases h.kept r a ha with (hcompletions | hpending) | hkept
    · exact Or.inr (Or.inr (Or.inr (Or.inr (Or.inr (Or.inl hcompletions)))))
    · exact Or.inr (Or.inr (Or.inr (Or.inr (Or.inl ⟨_, hpending, by simp [Instr.owes]⟩))))
    · exact Or.inr (Or.inr (Or.inr (Or.inr (Or.inr (Or.inr
        ⟨List.count_pos_iff.mp hattempts, hkept.alive⟩)))))
  by_cases hcompletions : 0 < (s.requests r).completions
  · exact Or.inr (Or.inr (Or.inr (Or.inr (Or.inr (Or.inl hcompletions)))))
  · have hwaits : 0 < s.locker.waits r := by
      unfold account tally at howed
      omega
    unfold SessionMaintainerLocker.waits at hwaits
    simp only [← List.count_pos_iff]
    omega

/-! ### One instruction -/

/-- What keeps a request goes only when the request leaves its container or the destructor ends. -/
theorem kept_exec {i : Instr} (h : r ∈ s.locker.inProgressRequests ∨ i.keeps r = true)
    (hlife : i.life r = 0) (hrelease : ∀ rs, i ≠ .release rs) :
    r ∈ (s.exec i).1.locker.inProgressRequests ∨ ∃ j ∈ (s.exec i).2, j.keeps r = true := by
  cases hmoves : i.movesInProgress with
  | false =>
    refine Or.inl (s.inProgress_exec hmoves ▸ h.resolve_right fun hkeeps => ?_)
    cases i with
    | release rs => exact hrelease rs rfl
    | _ => first | cases hkeeps | cases hmoves
  | true =>
    cases i with
    | addInProgressRequest q a | addInProgressRequestWithToken q a st =>
      exact Or.inl (Table.mem_add.mpr (h.symm.imp_left fun hq => (of_decide_eq_true hq).symm))
    | removeInProgressRequest q a | moveInProgressToDelayed q a =>
      have hne : r ≠ q := by
        rintro rfl
        simp [Instr.life] at hlife
      exact Or.inl (Table.mem_erase.mpr ⟨hne, h.resolve_right Bool.false_ne_true⟩)
    | moveInProgressToWaiting q a =>
      have hne : r ≠ q := by
        rintro rfl
        simp [Instr.life] at hlife
      refine Or.inl ?_
      change r ∈ (SessionMaintainerLocker.pushWaiting _ _ _).inProgressRequests
      rw [SessionMaintainerLocker.inProgress_pushWaiting]
      exact Table.mem_erase.mpr ⟨hne, h.resolve_right Bool.false_ne_true⟩
    | moveRequests =>
      refine Or.inr ⟨.release s.locker.allRequests, List.mem_append_right _ (List.mem_singleton_self _),
        decide_eq_true ?_⟩
      exact List.mem_append_right _ (h.resolve_right Bool.false_ne_true)
    | _ => cases hmoves

/-- A call of the callback is not taken back. -/
theorem completions_exec (s : State) (r : ℕ) (i : Instr) :
    (s.requests r).completions ≤ ((s.exec i).1.requests r).completions := by
  by_cases hwrites : i.writes = some r
  · cases i with
    | init q | initWithToken q st | completionCallback q =>
      cases hwrites
      simp [exec, init, setSessionToken, setRequest]
    | _ => cases hwrites
  · rw [s.requests_exec hwrites]

theorem held_exec (s : State) (r : ℕ) (i : Instr) :
    ((s.exec i).1.requests r).held = (s.requests r).held := by
  by_cases hwrites : i.writes = some r
  · cases i with
    | init q | initWithToken q st | completionCallback q =>
      cases hwrites
      simp [exec, init, setSessionToken, setRequest]
    | _ => cases hwrites
  · rw [s.requests_exec hwrites]

/-- The first attempt is in flight once it is there. -/
theorem attempts_pos_of_unstarted_ne {i : Instr}
    (h : (s.exec i).1.unstarted r ≠ s.unstarted r) : 0 < (s.exec i).1.attempts r := by
  by_cases hwrites : i.writes = some r
  · cases i with
    | init q | initWithToken q st =>
      cases hwrites
      simp [exec, attempts_init]
    | completionCallback q =>
      cases hwrites
      exact absurd (by simp [exec, unstarted, setRequest]) h
    | _ => cases hwrites
  · exact absurd (by rw [unstarted, s.requests_exec hwrites, unstarted]) h

/-- An attempt in flight was so before, or `Init` is followed by what keeps its request. -/
theorem mem_apiRequests_exec_cases {i : Instr} {a : ℕ} (h : (a, r) ∈ (s.exec i).1.apiRequests) :
    (a, r) ∈ s.apiRequests ∨ ∃ j ∈ (s.exec i).2, j.keeps r = true := by
  cases i with
  | init q | initWithToken q st =>
    rcases List.mem_append.mp h with h | h
    · exact Or.inl h
    · cases List.mem_singleton.mp h
      exact Or.inr ⟨_, List.mem_singleton_self _, decide_eq_true rfl⟩
  | _ =>
    rw [s.apiRequests_exec (by simp) (by simp)] at h
    exact Or.inl h

section Run
variable {k : ℕ} {i : Instr} {rest : List Instr}

theorem Answered.runThread (h : s.Answered r) (hk : s.threads[k]? = some (i :: rest)) :
    (s.runThread k i rest).Answered r := by
  rcases h with h | h
  · exact Or.inl (h.trans_le (s.completions_exec r i))
  · by_cases hi : i = .completionCallback r
    · subst hi
      exact Or.inl (by simp [State.runThread, exec, setRequest])
    · exact Or.inr ((stepped_runThread hk).stays h (Ne.symm hi))

theorem Kept.runThread (h : s.Kept r) (hk : s.threads[k]? = some (i :: rest))
    (hlife : i.life r = 0)
    (hrelease : ∀ rs, i = .release rs → r ∈ rs → (s.requests r).held = true) :
    (s.runThread k i rest).Kept r := by
  have hstepped := stepped_runThread hk
  have hheld (hheld : (s.requests r).held = true) : (s.runThread k i rest).Kept r :=
    Or.inr (Or.inr ((s.held_exec r i).trans hheld))
  have hkept (h : r ∈ s.locker.inProgressRequests ∨ i.keeps r = true) :
      (s.runThread k i rest).Kept r := by
    by_cases hrelease' : ∃ rs, i = .release rs
    · obtain ⟨rs, rfl⟩ := hrelease'
      rcases h with h | h
      · exact Or.inl h
      · exact hheld (hrelease rs rfl (of_decide_eq_true h))
    · rcases kept_exec h hlife (fun rs hrs => hrelease' ⟨rs, hrs⟩) with h | ⟨j, hj, h⟩
      · exact Or.inl h
      · exact Or.inr (Or.inl ⟨j, hstepped.pushed_mem hj, h⟩)
  rcases h with h | ⟨j, hj, h⟩ | h
  · exact hkept (Or.inl h)
  · by_cases hij : j = i
    · exact hkept (Or.inr (hij ▸ h))
    · exact Or.inr (Or.inl ⟨j, hstepped.stays hj hij, h⟩)
  · exact hheld h

theorem Delivered.runThread (h : Delivered s) (hguard : Delivers s (.run k) s')
    (hk : s.threads[k]? = some (i :: rest)) (hlife : (s.runThread k i rest).OneLife) :
    Delivered (s.runThread k i rest) := by
  have hstepped := stepped_runThread hk
  have hi := hstepped.head_mem
  have hcalled : (s.runThread k i rest).called = s.called := (s.frame_exec i).called
  constructor
  · intro r hr
    rw [hcalled] at hr
    by_cases hanswered : s.Answered r
    · exact (hanswered.runThread hk).one_le_account
    have hlost := hguard.notLost k i rest rfl hk r hr hanswered
    have howed := h.owed r hr
    have hexec := s.tally_exec r i
    have hload := hstepped.load (Instr.owes ((s.exec i).1.unstarted r) r)
    change 1 ≤ (s.exec i).1.tally r + load (Instr.owes ((s.exec i).1.unstarted r) r)
      (s.runThread k i rest).threads
    by_cases hsame : (s.exec i).1.unstarted r = s.unstarted r
    · rw [hsame] at hexec hload ⊢
      unfold account at howed
      omega
    · -- the attempt that was just started
      have hattempts := attempts_pos_of_unstarted_ne hsame
      unfold tally
      omega
  · exact hlife
  · intro r a ha
    rcases mem_apiRequests_exec_cases ha with ha | ⟨j, hj, hkeeps⟩
    · by_cases hanswered : s.Answered r
      · exact Or.inl (hanswered.runThread hk)
      refine Or.inr (Kept.runThread ((h.kept r a ha).resolve_left hanswered) hk ?_ ?_)
      · have hone := h.life r
        have hattempts := attempts_pos ha
        have hle := le_load (Instr.life r) hi
        unfold lives at hone
        split_ifs at hone <;> omega
      · rintro rs rfl hr
        exact hguard.release k rs rest rfl hk r hr ⟨a, ha⟩ hanswered
    · exact Or.inr (Or.inr (Or.inl ⟨j, hstepped.pushed_mem hj, hkeeps⟩))

end Run

/-! ### Steps -/

theorem Answered.of_pending (h : s.Answered r) (hrequests : s'.requests r = s.requests r)
    (hpending : ∀ j ∈ pending s.threads, j ∈ pending s'.threads) : s'.Answered r :=
  h.imp (hrequests ▸ id) (hpending _)

theorem Kept.of_pending (h : s.Kept r) (hrequests : (s'.requests r).held = (s.requests r).held)
    (hinProgress : s'.locker.inProgressRequests = s.locker.inProgressRequests)
    (hpending : ∀ j ∈ pending s.threads, j ∈ pending s'.threads) : s'.Kept r :=
  h.imp (hinProgress ▸ id) (Or.imp (fun ⟨j, hj, h⟩ => ⟨j, hpending j hj, h⟩) (hrequests ▸ id))

theorem subset_pending_spawn (program : List Instr) :
    ∀ j ∈ pending s.threads, j ∈ pending (s.spawn program).threads :=
  fun _ hj => mem_pending_spawn.mpr (Or.inl hj)

/-- A handler starts, with requests taken from where they waited. -/
theorem Delivered.starts (h : Delivered s) {t : State} {program : List Instr}
    (hrequests : t.requests = s.requests) (hthreads : t.threads = s.threads)
    (hcalled : t.called = s.called)
    (hinProgress : t.locker.inProgressRequests = s.locker.inProgressRequests)
    (hapi : ∀ f ∈ t.apiRequests, f ∈ s.apiRequests)
    (howed : ∀ r, s.locker.waits r + s.attempts r ≤ t.locker.waits r + t.attempts r +
      (program.map (Instr.owes (s.unstarted r) r)).sum)
    (hlife : (t.spawn program).OneLife) : Delivered (t.spawn program) := by
  have hunstarted (r : ℕ) : t.unstarted r = s.unstarted r := by
    rw [unstarted, hrequests, unstarted]
  have hpending : ∀ j ∈ pending s.threads, j ∈ pending (t.spawn program).threads := by
    rw [← hthreads]
    exact subset_pending_spawn program
  constructor
  · intro r hr
    have hbefore := h.owed r (hcalled ▸ hr)
    have hmoved := howed r
    rw [account_spawn, hunstarted, account, hunstarted, hthreads, tally, hrequests]
    unfold account tally at hbefore
    omega
  · exact hlife
  · intro r a ha
    rcases h.kept r a (hapi _ ha) with hanswered | hkept
    · exact Or.inl (hanswered.of_pending (congrFun hrequests r) hpending)
    · refine Or.inr (hkept.of_pending ?_ hinProgress hpending)
      exact congrArg Request.held (congrFun hrequests r)

theorem Delivered.call (h : Delivered s) (uses : Bool) (hlife : (s.call uses).OneLife) :
    Delivered (s.call uses) := by
  have hpending : ∀ j ∈ pending s.threads, j ∈ pending (s.call uses).threads :=
    subset_pending_spawn _
  have hold (r : ℕ) (hr : r ≠ s.called) : (s.call uses).requests r = s.requests r :=
    Function.update_of_ne hr _ _
  constructor
  · intro r hr
    change r < s.called + 1 at hr
    by_cases heq : r = s.called
    · have howes : Instr.owes ((s.call uses).unstarted r) r (.addWaitingRequest s.called) = 1 :=
        if_pos heq.symm
      have hmem : Instr.addWaitingRequest s.called ∈ pending (s.call uses).threads :=
        mem_pending_spawn.mpr (Or.inr List.mem_cons_self)
      have hle := le_load (Instr.owes ((s.call uses).unstarted r) r) hmem
      unfold account
      omega
    · have hbefore := h.owed r (by omega)
      have hload := load_spawn (Instr.owes (s.unstarted r) r)
        [.addWaitingRequest s.called, .attemptRequests] s.threads
      unfold account tally at hbefore ⊢
      rw [unstarted, hold r heq]
      change 1 ≤ s.locker.waits r + s.attempts r + (s.requests r).completions +
        load (Instr.owes (s.unstarted r) r)
          (Threads.spawn [.addWaitingRequest s.called, .attemptRequests] s.threads)
      omega
  · exact hlife
  · intro r a ha
    by_cases heq : r = s.called
    · refine Or.inr (Or.inr (Or.inr ?_))
      subst heq
      simp [State.call, State.spawn, create, setRequest, newRequest]
    · rcases h.kept r a ha with hanswered | hkept
      · exact Or.inl (hanswered.of_pending (hold r heq) hpending)
      · exact Or.inr (hkept.of_pending (by rw [hold r heq]) rfl hpending)

theorem Delivered.dropRequest (h : Delivered s) {q : ℕ} (hguard : Delivers s (.dropRequest q) s') :
    Delivered (s.setRequest q { s.requests q with held := false }) := by
  set t := s.setRequest q { s.requests q with held := false } with ht
  have hsame (r : ℕ) : (t.requests r).request = (s.requests r).request ∧
      (t.requests r).completions = (s.requests r).completions := by
    by_cases hrq : r = q
    · subst hrq
      simp [ht, setRequest]
    · simp [ht, setRequest, hrq]
  constructor
  · intro r hr
    have hbefore := h.owed r hr
    have hunstarted : t.unstarted r = s.unstarted r := by
      rw [unstarted, (hsame r).1, unstarted]
    unfold account tally at hbefore ⊢
    rw [hunstarted, (hsame r).2]
    exact hbefore
  · exact h.life
  · intro r a ha
    by_cases hanswered : s.Answered r
    · exact Or.inl (hanswered.imp (fun hc => (hsame r).2 ▸ hc) id)
    refine Or.inr ?_
    by_cases hrq : r = q
    · subst hrq
      exact (hguard.drop r rfl ⟨a, ha⟩ hanswered).imp id Or.inl
    · refine ((h.kept r a ha).resolve_left hanswered).of_pending ?_ rfl fun _ hj => hj
      simp [ht, setRequest, hrq]

theorem Delivered.apiResponse (h : Delivered s) {n q : ℕ} (response : ApiResponse)
    (hmem : (n, q) ∈ s.apiRequests) (hlife : (s.apiResponse n q response).OneLife) :
    Delivered (s.apiResponse n q response) := by
  have hattempts (r : ℕ) := attempts_answered hmem r
  unfold State.apiResponse at hlife ⊢
  split_ifs at hlife ⊢ with halive
  · refine h.starts rfl rfl rfl rfl (fun f hf => List.mem_of_mem_erase hf) (fun r => ?_) hlife
    have hr := hattempts r
    change _ ≤ s.locker.waits r + _ + _
    simp only [List.map_cons, List.map_nil, List.sum_cons, List.sum_nil, Instr.owes]
    omega
  · -- the answer finds no request: it was answered before
    have hcompletions : 0 < (s.requests q).completions := by
      rcases h.kept q n hmem with (hcompletions | hpending) | hkept
      · exact hcompletions
      · refine absurd ?_ halive
        exact Or.inr (Or.inr (Or.inr (Or.inr (Or.inr (Or.inl
          ⟨_, hpending, List.mem_singleton_self q⟩)))))
      · exact absurd hkept.alive halive
    constructor
    · intro r hr
      have hbefore := h.owed r hr
      have hr' := hattempts r
      change 1 ≤ s.locker.waits r + (s.answered n q).attempts r + (s.requests r).completions +
        load (Instr.owes (s.unstarted r) r) s.threads
      unfold account tally at hbefore
      by_cases hqr : q = r
      · subst hqr
        omega
      · rw [if_neg hqr] at hr'
        omega
    · exact hlife
    · exact fun r a ha => h.kept r a (List.mem_of_mem_erase ha)

theorem Delivered.step {a : Act} (h : Delivered s) (hguard : Delivers s a s')
    (hs : s.step a = some s') : Delivered s' := by
  have hlife := h.life.step hs
  cases moves_of_step hs with
  | quiet program hquiet hthreads hprogram =>
    have hspawn : s' = { s' with threads := s.threads }.spawn program := by
      rw [State.spawn, ← hthreads]
    rw [hspawn] at hlife ⊢
    refine h.starts hquiet.requests rfl hquiet.called hquiet.locker.inProgress
      (fun f hf => hquiet.apiRequests ▸ hf) (fun r => ?_) hlife
    have hw := hquiet.waits r
    have ha := hquiet.attempts r
    change _ ≤ s'.locker.waits r + s'.attempts r + _
    omega
  | call uses hexists => exact h.call uses hlife
  | cancelRequest q hheld =>
    exact h.starts rfl rfl rfl rfl (fun _ hf => hf) (fun r => Nat.le_add_right _ _) hlife
  | dropRequest q hheld => exact h.dropRequest hguard
  | apiResponse n q response hmem => exact h.apiResponse response hmem hlife
  | delayedFires q l hexists hl =>
    have hinProgress : l.inProgressRequests = s.locker.inProgressRequests := by
      obtain ⟨events, -, rfl⟩ := SessionMaintainerLocker.nextDelayedRequest_eq_some hl
      rfl
    refine h.starts rfl rfl rfl hinProgress (fun _ hf => hf) (fun r => ?_) hlife
    have hr := SessionMaintainerLocker.waits_nextDelayed hl r
    simp only [setLocker_locker, attempts_setLocker, List.map_cons, List.map_nil, List.sum_cons,
      List.sum_nil, Instr.owes]
    omega
  | timeoutFires q l hexists hl =>
    have hquiet : Quiet s (s.setLocker l) :=
      ⟨SessionMaintainerLocker.sameRequests_nextTimedOutRequest hl, rfl, rfl, rfl, rfl⟩
    have hstarts (program : List Instr) (hlife : ((s.setLocker l).spawn program).OneLife) :
        Delivered ((s.setLocker l).spawn program) := by
      refine h.starts rfl rfl rfl hquiet.locker.inProgress (fun _ hf => hf) (fun r => ?_) hlife
      have hw := hquiet.waits r
      have ha := hquiet.attempts r
      omega
    unfold State.timeoutFires at hlife ⊢
    split_ifs at hlife ⊢
    · exact hstarts [.handleTimedOutRequest q] hlife
    · rw [← spawn_nil (s := s.setLocker l)] at hlife ⊢
      exact hstarts [] hlife
  | destroy hexists hout =>
    exact h.starts rfl rfl rfl rfl (fun _ hf => hf) (fun r => Nat.le_add_right _ _) hlife
  | run k i rest hk => exact h.runThread hguard hk hlife

/-! ### Runs -/

theorem delivered_created : Delivered created where
  owed _ hr := absurd hr (Nat.not_lt_zero _)
  life := oneLife_created
  kept _ _ ha := by cases ha

/-- As long as nothing takes a request without an answer out of its account, none is lost. -/
theorem noneLost_of_delivers {acts : List Act} (hguard : Along State.step Delivers created acts) :
    Always State.step NoneLost created acts :=
  Always.of_guarded (fun _ h => h.noneLost) (fun _ _ _ h hg hs => h.step hg hs)
    delivered_created hguard

/-- The condition on a step, for requests that are all kept by the user. -/
def delivers (s : State) : Act → Bool
  | .run k =>
    match s.threads[k]? with
    | some (i :: _) =>
      decide (∀ r < s.called, s.lost r i = 0) && decide (∀ r < s.called, (s.requests r).held = true)
        && decide (∀ r ∈ i.requests, r < s.called)
    | _ => true
  | .dropRequest _ => false
  | _ => true

theorem delivers_of_check (s : State) (a : Act) (s' : State) (h : s.delivers a = true) :
    Delivers s a s' where
  notLost k i rest ha hk r hr _ := by
    subst ha
    simp only [delivers, hk, Bool.and_eq_true, decide_eq_true_eq] at h
    exact h.1.1 r hr
  release k rs rest ha hk r hr _ _ := by
    subst ha
    simp only [delivers, hk, Bool.and_eq_true, decide_eq_true_eq] at h
    exact h.1.2 r (h.2 r hr)
  drop r ha _ _ := by
    subst ha
    cases h

/-- The maintainer is destroyed while a call is in flight. -/
def destroyedInFlight : List Act :=
  loginAndCall ++ .destroy :: List.replicate 4 (.run 0) ++
    .apiResponse 1 0 {} :: List.replicate 5 (.run 0)

theorem noneLost_destroyedInFlight : Always State.step NoneLost created destroyedInFlight :=
  noneLost_of_delivers (along_of_check delivers_of_check (by decide +kernel))

/-- The session token of a call is invalid, and none comes before the call times out. -/
def timedOutAfterRetry : List Act :=
  loginAndCall ++ .apiResponse 1 0 { errorCode := some .sessionTokenInvalid } ::
    List.replicate 15 (.run 0) ++ [.clock 60000, .timeoutFires, .run 0, .run 0]

theorem not_noneLost : ¬ ∀ acts, Always State.step NoneLost created acts := by
  intro h
  have hrun : (run State.step created timedOutAfterRetry).map
      (fun s => decide (0 < s.called ∧ ¬ s.NotLost 0)) = some true := by decide +kernel
  obtain ⟨s, hs, hlost⟩ := Option.map_eq_some_iff.mp hrun
  obtain ⟨hcalled, hlost⟩ := of_decide_eq_true hlost
  exact hlost ((h timedOutAfterRetry).last hs 0 hcalled)

end State

end MediafireSdk.Api
