import MediafireSdk.Uploader.Upload

/-! What a finished upload still does. On entering a terminate state the machine
sends its one terminal status, and from then on it drops every event, so no
status follows. Requests can still follow: the poll loop runs outside the machine,
and `RetryPoll` starts another poll without a look at the state. That is the only
way: a run is quiet after its end exactly when no wait for the poll timer ends
without error once the machine is in a terminate state. -/

namespace MediafireSdk.Uploader.Upload

open Runs

/-! ### Statuses -/

/-- The statuses sent. -/
def statuses (effects : List Effect) : List UploadState :=
  effects.filterMap fun
    | .sendStatus s => some s
    | _ => none

/-- The terminal statuses sent. -/
def terminalStatuses (effects : List Effect) : List UploadState :=
  (statuses effects).filter (·.isTerminal)

@[simp] theorem terminalStatuses_append (xs ys : List Effect) :
    terminalStatuses (xs ++ ys) = terminalStatuses xs ++ terminalStatuses ys := by
  simp [terminalStatuses, statuses]

theorem terminalStatuses_eq_nil {effects : List Effect}
    (h : ∀ s, .sendStatus s ∈ effects → s.isTerminal = false) : terminalStatuses effects = [] := by
  refine List.filter_eq_nil_iff.mpr fun s hs => ?_
  obtain ⟨x, hx, hxs⟩ := List.mem_filterMap.mp hs
  cases x <;> cases hxs
  simp [h s hx]

theorem terminalStatuses_setCountState (m : UploadStateMachine) (cs : CountState) :
    terminalStatuses (m.setCountState cs) = [] := by
  refine terminalStatuses_eq_nil fun s hs => ?_
  have hentry : FromEntry .initial (.sendStatus s) := fromEntry_setCountState hs
  cases hentry with
  | sendStatus _ h => exact h

theorem terminalStatuses_assertThat (p : Prop) [Decidable p] (text : String) :
    terminalStatuses (assertThat p text) = [] :=
  terminalStatuses_eq_nil fun _ hs => by cases mem_assertThat hs

/-- A row into a terminate state sends one terminal status. -/
theorem terminalStatuses_onEntry {s target : State} {evt : Event} {hasHash : Bool}
    {action : Action} (hrow : transitionTable s evt hasHash = some (target, action))
    (hterm : target.isTerminal = true) (m : UploadStateMachine) :
    (terminalStatuses (onEntry m target evt)).length = 1 := by
  have hsuccess (quickkey filename : String) (revision : Option ℕ) :
      (terminalStatuses (completeWithSuccessOnEntry m quickkey filename revision)).length = 1 := by
    simp only [completeWithSuccessOnEntry, terminalStatuses_append, terminalStatuses_assertThat,
      terminalStatuses_setCountState]
    rfl
  have herror (ec : ErrorCode) (description : String) :
      (terminalStatuses (completeWithErrorOnEntry m ec description)).length = 1 := by
    simp only [completeWithErrorOnEntry, terminalStatuses_append, terminalStatuses_setCountState]
    rfl
  unfold transitionTable at hrow
  split at hrow
  case h_1 => split_ifs at hrow <;> cases hrow <;> cases hterm
  all_goals
    cases hrow <;> first
    | exact absurd hterm (by decide)
    | simp only [onEntry, hsuccess, herror]

/-! ### Quiet after the end -/

/-- Neither a status nor a request. -/
def Silent (effects : List Effect) : Prop :=
  ∀ x ∈ effects, (∀ s, x ≠ .sendStatus s) ∧ ∀ r, x ≠ .call r

/-- Once the machine is in a terminate state, it entered it with one terminal status sent so far,
and was silent since. -/
def Quiet (u : Upload) : Prop :=
  u.machine.state.isTerminal = true → ∃ before after,
    u.log = before ++ .write (.state u.machine.state) :: after ∧
      (terminalStatuses before).length = 1 ∧ Silent after

/-- No wait for the poll timer ends without error in a terminate state. -/
def NoRetryAfterEnd (u : Upload) (act : Act) (_ : Upload) : Prop :=
  ∀ i, act = .retryPoll i false → u.machine.state.isTerminal = false

structure QuietInv (u : Upload) : Prop where
  running : u.machine.state.isTerminal = false → terminalStatuses u.log = []
  quiet : u.Quiet
  keys : u.PollKeys

/-- Effects that leave the state as it is and are silent keep the invariant. -/
theorem QuietInv.of_silent {u u' : Upload} {events : Multiset Event} {calls : List ApiRequest}
    {timers : List String} {effects : List Effect} (h : u.QuietInv)
    (hexec : u.Executes u' events calls timers effects)
    (hstate : (u.machine.applyAll effects).state = u.machine.state)
    (hsilent : u.machine.state.isTerminal = true → Silent effects)
    (hrunning : u.machine.state.isTerminal = false → terminalStatuses effects = [])
    (hkeys : u'.PollKeys) : u'.QuietInv := by
  have hs : u'.machine.state = u.machine.state := by rw [hexec.machine, hstate]
  refine ⟨fun hterm => ?_, fun hterm => ?_, hkeys⟩
  · rw [hs] at hterm
    rw [hexec.log, terminalStatuses_append, h.running hterm, hrunning hterm]
    rfl
  · rw [hs] at hterm ⊢
    obtain ⟨before, after, hlog, hone, hafter⟩ := h.quiet hterm
    refine ⟨before, after ++ effects, ?_, hone, fun x hx => ?_⟩
    · rw [hexec.log, hlog, List.append_assoc, List.cons_append]
    · exact (List.mem_append.mp hx).elim (hafter x) (hsilent hterm x)

/-- Entering a terminate state. -/
theorem quiet_of_row {u u' : Upload} {w : World} {evt : Event} {target : State} {action : Action}
    {events : Multiset Event} {calls : List ApiRequest} {timers : List String}
    (hrow : transitionTable u.machine.state evt (u.machine.hash ≠ "") = some (target, action))
    (hexec : u.Executes u' events calls timers (u.machine.fire w evt))
    (hlog : terminalStatuses u.log = []) (hterm : target.isTerminal = true) :
    u'.Quiet := by
  intro _
  have hstate : u'.machine.state = target := by
    rw [hexec.machine]
    exact UploadStateMachine.applyAll_fire_row_state hrow
  have hexit : terminalStatuses (onExit w u.machine u.machine.state) = [] :=
    terminalStatuses_eq_nil fun _ hs => by cases fromExit_onExit hs
  have haction : terminalStatuses (action.effects w (u.machine.exited w) evt) = [] :=
    terminalStatuses_eq_nil fun _ hs => by cases fromAction_effects hs
  refine ⟨u.log ++ (onExit w u.machine u.machine.state ++
    action.effects w (u.machine.exited w) evt ++
      onEntry (u.machine.acted w evt action) target evt), [], ?_, ?_, ?_⟩
  · rw [hexec.log, UploadStateMachine.fire_row hrow, hstate]
    simp only [List.append_assoc]
  · simp only [terminalStatuses_append, hlog, hexit, haction, List.nil_append]
    exact terminalStatuses_onEntry hrow hterm _
  · exact fun x hx => absurd hx List.not_mem_nil

theorem QuietInv.step {u u' : Upload} {act : Act} (h : u.QuietInv)
    (hretry : NoRetryAfterEnd u act u') (hs : u.step act = some u') : u'.QuietInv := by
  have hkeys := h.keys.step hs
  cases step_cases hs with
  | arrive _ hexec =>
    refine h.of_silent hexec rfl (fun _ => ?_) (fun _ => rfl) hkeys
    simp [Silent]
  | @event _ evt _ w _ _ hexec =>
    by_cases hterm : u.machine.state.isTerminal = true
    · rw [UploadStateMachine.fire_terminal hterm] at hexec
      exact h.of_silent hexec rfl (fun _ => by simp [Silent]) (fun _ => rfl) hkeys
    · have hlive : u.machine.state.isTerminal = false := by simpa using hterm
      cases hrow : transitionTable u.machine.state evt (u.machine.hash ≠ "") with
      | none =>
        rw [UploadStateMachine.fire_noTransition hlive hrow] at hexec
        exact h.of_silent hexec rfl (fun _ => by simp [Silent]) (fun _ => rfl) hkeys
      | some row =>
        obtain ⟨target, action⟩ := row
        have hstate : u'.machine.state = target := by
          rw [hexec.machine]
          exact UploadStateMachine.applyAll_fire_row_state hrow
        by_cases htarget : target.isTerminal = true
        · refine ⟨fun hno => ?_, quiet_of_row hrow hexec (h.running hlive) htarget, hkeys⟩
          rw [hstate, htarget] at hno
          cases hno
        · refine ⟨fun _ => ?_, fun hyes => absurd (hstate ▸ hyes) htarget, hkeys⟩
          rw [hexec.log, terminalStatuses_append, h.running hlive, List.nil_append]
          refine terminalStatuses_eq_nil fun s hmem => ?_
          rw [UploadStateMachine.fire_row hrow] at hmem
          simp only [List.mem_append] at hmem
          rcases hmem with ((hmem | hmem) | hmem) | hmem
          · cases fromExit_onExit hmem
          · cases fromAction_effects hmem
          · cases fromEntry_onEntry hmem with
            | sendStatus _ hs => simpa [hs] using htarget
          · cases List.mem_singleton.mp hmem
  | answer _ hresponse hexec =>
    refine h.of_silent hexec (UploadStateMachine.applyAll_state fun s hmem => ?_)
      (fun _ x hx => ?_) (fun _ => terminalStatuses_eq_nil fun s hmem => ?_) hkeys
    · cases fromHandler_handleResponse hresponse hmem
    · constructor
      · rintro s rfl
        cases fromHandler_handleResponse hresponse hx
      · rintro r rfl
        cases fromHandler_handleResponse hresponse hx
    · cases fromHandler_handleResponse hresponse hmem
  | @retryPoll i err uploadKey _ hexec =>
    cases err with
    | true => exact h.of_silent hexec rfl (fun _ => by simp [Silent, retryPoll]) (fun _ => rfl) hkeys
    | false =>
      have hlive := hretry i rfl
      refine h.of_silent hexec (UploadStateMachine.applyAll_state fun s hmem => ?_)
        (fun hterm => by simp [hlive] at hterm)
        (fun _ => terminalStatuses_eq_nil fun s hmem => ?_) hkeys
      · cases fromAction_startPoll hmem
      · cases fromAction_startPoll hmem

/-- A poll started in a terminate state shows in the log. -/
theorem noRetryAfterEnd_of_quiet {u u' : Upload} {act : Act} (h : u.QuietInv)
    (hs : u.step act = some u') (hquiet : u'.Quiet) : NoRetryAfterEnd u act u' := by
  rintro i rfl
  by_contra hterm
  rw [Bool.not_eq_false] at hterm
  cases step_cases hs with
  | event _ hact _ _ => cases hact
  | @retryPoll _ _ uploadKey htimer hexec =>
    have hkey : uploadKey ≠ "" := fun hk => h.keys.timers (hk ▸ List.mem_of_getElem? htimer)
    have heffects : retryPoll uploadKey false = [.call (.pollUpload uploadKey)] := if_neg hkey
    rw [heffects] at hexec
    have hstate : u'.machine.state = u.machine.state := by rw [hexec.machine]; rfl
    obtain ⟨before, after, hlog, -, hafter⟩ := hquiet (hstate ▸ hterm)
    rw [hexec.log] at hlog
    -- the last effect logged is the poll, so it comes after the write of the state
    rcases List.eq_nil_or_concat after with rfl | ⟨rest, last, rfl⟩
    · have hlast := congrArg List.getLast? hlog
      simp at hlast
    · have hlast := congrArg List.getLast? hlog
      simp only [List.concat_eq_append, List.getLast?_append, List.getLast?_cons] at hlast
      exact (hafter last (by simp)).2 (.pollUpload uploadKey) (by simpa using hlast.symm)

theorem quietInv_create (pathFilename : String) (cloudFileName : Option String)
    (onDuplicateAction : OnDuplicateAction) :
    (create pathFilename cloudFileName onDuplicateAction).QuietInv where
  running _ := rfl
  quiet h := by cases h
  keys := ⟨List.not_mem_nil, List.not_mem_nil⟩

theorem QuietInv.always_iff {u : Upload} (h : u.QuietInv) (acts : List Act) :
    Always Upload.step Quiet u acts ↔ Along Upload.step NoRetryAfterEnd u acts :=
  always_iff_along (I := QuietInv) (fun _ h => h.quiet) (fun _ _ _ h hg hs => h.step hg hs)
    (fun _ _ _ h hs hq => noRetryAfterEnd_of_quiet h hs hq) h

/-- A run of an upload is quiet after its end exactly when no poll timer fires then. -/
theorem always_quiet_iff (pathFilename : String) (cloudFileName : Option String)
    (onDuplicateAction : OnDuplicateAction) (acts : List Act) :
    Always step Quiet (create pathFilename cloudFileName onDuplicateAction) acts ↔
      Along step NoRetryAfterEnd (create pathFilename cloudFileName onDuplicateAction) acts :=
  (quietInv_create ..).always_iff acts

/-- A one-byte file is uploaded whole and polled for; then it is cancelled, and the timer of the
poll still runs. -/
theorem not_always_quiet_cancel : ¬ ∀ pathFilename cloudFileName onDuplicateAction acts,
    Always step Quiet (create pathFilename cloudFileName onDuplicateAction) acts := by
  intro h
  let handle : Act := .deliver 0 smallFile fun _ => true
  let next : Act := .next smallFile fun _ => true
  let before : List Act :=
    [.arrive .start, handle, .arrive .startHash, handle, next, next, next,
      .arrive (.startUpload "token"), handle, .answer 0 (.check {}), handle,
      .answer 0 (.upload (.content { key := some "key" })), handle, .answer 0 (.poll {}),
      .arrive (.error (.upload .cancelled) "Cancellation requested"), handle]
  have hcompute : (run step (create "file" none .fail) before).map (fun u =>
      (u.machine.state, (u.step (.retryPoll 0 false)).isSome)) =
        some (.completeWithError, true) := by decide +kernel
  obtain ⟨u, hrun, hu⟩ := Option.map_eq_some_iff.mp hcompute
  obtain ⟨hstate, hsome⟩ : _ ∧ _ := by simpa only [Prod.mk.injEq] using hu
  obtain ⟨u', hstep⟩ := Option.isSome_iff_exists.mp hsome
  have halong := ((quietInv_create ..).always_iff _).mp
    (h "file" none .fail (before ++ [.retryPoll 0 false]))
  have hlive := halong.step_after hrun hstep 0 rfl
  rw [hstate] at hlive
  cases hlive

end MediafireSdk.Uploader.Upload
