import MediafireSdk.Http.Retries
import MediafireSdk.Http.TimeoutRaces

/-! A request that is under way waits for something that will come: for an operation whose timer
is running, or for the delay timer. Nothing that it waits for is lost while no caller fails with
the error of a timer. -/

namespace MediafireSdk.Http

open Runs

/-- The read that a wait on the delay timer is for. -/
def AsyncOp.afterDelay : AsyncOp → AsyncOp
  | .contentReadDelay size total => .contentRead size total 0
  | .chunkSizeReadDelay left consumed size => .chunkRead left consumed size
  | a => a

theorem afterDelay_isDelay (a : AsyncOp) : a.afterDelay.isDelay = false := by
  cases a <;> rfl

namespace Machine

/-- Something is under way for the data of the state. -/
def Engaged (s : Machine) : Prop :=
  (∃ op ∈ s.ops, s.live = some op.owner) ∨ ∃ d ∈ s.delays, s.live = some d.owner

/-- What is under way comes to something: a wait on the delay timer to an operation, an operation
to an event that has a row. -/
structure Going (s : Machine) : Prop where
  closed : s.state.isOpen = false → s.live = none
  fits : s.state.isOpen = true → ∀ e, .event e ∈ s.pending → e.isError = false →
    (s.row e).isSome = true
  content : s.state = .readContent → s.readContentData.cancelled = false
  reads : ∀ op ∈ s.ops, s.live = some op.owner → ∀ a, op.kind = .content a → a.isDelay = false
  delays : ∀ d ∈ s.delays, s.live = some d.owner → d.cancelled = false ∧
    s.transmissionDelayTimerEnabled = true ∧ ∀ a, d.kind = .content a → a.isDelay = true
  engaged : s.state.isOpen = true → s.state ≠ .unstarted → s.pending = [] → Engaged s

section Going
variable {s s' : Machine} {answer : Answer} {t : Target}

theorem Going.of_closed (hstate : s.state.isOpen = false) (hlive : s.live = none) : Going s where
  closed _ := hlive
  fits hopen := by simp [hstate] at hopen
  content hreading := by simp [hreading, StateName.isOpen] at hstate
  reads op _ howner := by simp [hlive] at howner
  delays d _ howner := by simp [hlive] at howner
  engaged hopen := by simp [hstate] at hopen

/-- A state without data in which something has been raised. -/
theorem Going.of_raised (hlive : s.live = none) (hreading : s.state ≠ .readContent)
    (hbusy : s.pending ≠ [])
    (hfits : ∀ e, .event e ∈ s.pending → e.isError = false → (s.row e).isSome = true) :
    Going s where
  closed _ := hlive
  fits _ := hfits
  content hstate := absurd hstate hreading
  reads op _ howner := by simp [hlive] at howner
  delays d _ howner := by simp [hlive] at howner
  engaged _ _ hidle := absurd hidle hbusy

/-! ### Entries -/

/-- A state with new data, for which nothing that was there before is. -/
theorem Going.of_fresh (hnumbered : Numbered s) (hlive : s'.live = some s.fresh)
    (hopen : s'.state.isOpen = true)
    (hfits : ∀ e, .event e ∈ s'.pending → e.isError = false → (s'.row e).isSome = true)
    (hcontent : s'.state = .readContent → s'.readContentData.cancelled = false)
    (hops : ∀ op ∈ s'.ops, op ∈ s.ops ∨ ∀ a, op.kind = .content a → a.isDelay = false)
    (hdelays : ∀ d ∈ s'.delays, (∃ d' ∈ s.delays, d'.owner = d.owner ∧ d'.kind = d.kind) ∨
      d.cancelled = false ∧ s'.transmissionDelayTimerEnabled = true ∧
        ∀ a, d.kind = .content a → a.isDelay = true)
    (hengaged : s'.pending = [] → Engaged s') : Going s' where
  closed hclosed := by simp [hopen] at hclosed
  fits _ := hfits
  content := hcontent
  reads op hop howner := by
    refine (hops op hop).resolve_left fun hold => ?_
    rw [hlive] at howner
    exact (hnumbered.ops op hold).1.ne' (Option.some.inj howner)
  delays d hd howner := by
    refine (hdelays d hd).resolve_left ?_
    rintro ⟨d', hd', howner', -⟩
    rw [hlive, ← howner'] at howner
    exact (hnumbered.delays d' hd').ne' (Option.some.inj howner)
  engaged _ _ := hengaged

theorem going_beginAsync {u : Machine} {kind : OpKind} (hkind : ∀ a, kind ≠ .content a)
    (hnumbered : Numbered s) (hopen : u.state.isOpen = true) (hreading : u.state ≠ .readContent)
    (hpending : u.pending = []) (hfresh : u.fresh = s.fresh) (hops : u.ops = s.ops)
    (hdelays : u.delays = s.delays) (reason : String) (timeoutSeconds : ℕ) :
    Going (u.beginAsync reason timeoutSeconds kind) := by
  have hnone : (u.beginAsync reason timeoutSeconds kind).pending = [] := hpending
  refine .of_fresh hnumbered (congrArg some hfresh) hopen (fun e he => ?_)
    (fun hstate => absurd hstate hreading) (fun op hop => ?_)
    (fun d hd => .inl (mem_delays_self (hdelays ▸ hd)))
    fun _ => .inl ⟨_, List.mem_append_right _ (List.mem_singleton_self _), rfl⟩
  · simp [hnone] at he
  · rcases List.mem_append.mp hop with hold | hnew
    · exact .inl (hops ▸ hold)
    · rw [List.mem_singleton.mp hnew]
      exact .inr fun a ha => absurd ha (hkind a)

/-- What the pipe raises has a row in `SendPost`. -/
theorem pipe_fits (hstate : s.state = .sendPost) (answer : Answer) (d : SendPostData) :
    ∀ e ∈ answer.calls.map Call.event ++ d.pipeEvents answer.chunk, e.isError = false →
      (s.row e).isSome = true := by
  intro e he hplain
  have herror (h : e.isError = true) : (s.row e).isSome = true := by simp [hplain] at h
  rcases List.mem_append.mp he with hcall | hpipe
  · exact herror (calls_isError answer e hcall)
  · rcases pipe_cases answer d with ⟨-, hnone⟩ | ⟨-, errors, heq, herrors⟩
    · rw [hnone] at hpipe
      cases hpipe
    · rw [heq] at hpipe
      rcases List.mem_append.mp hpipe with hearlier | hlast
      · exact herror (herrors e hearlier)
      · rw [List.mem_singleton.mp hlast]
        exact finish_row d hstate

theorem pipeEvents_ne_nil (answer : Answer) (d : SendPostData) (h : answer.chunk.bytes = []) :
    d.pipeEvents answer.chunk ≠ [] := by
  rcases pipe_cases answer d with ⟨hbytes, -⟩ | ⟨-, errors, heq, -⟩
  · exact absurd h hbytes
  · simp [heq]

theorem enterSendPost_going (hnumbered : Numbered s) (hstate : s.state = .sendPost)
    (hpending : s.pending = []) (hcrashed : (s.enterSendPost answer).crashed = false) :
    Going (s.enterSendPost answer) := by
  have hopen : s.state.isOpen = true := by simp [hstate, StateName.isOpen]
  have hreading : s.state ≠ .readContent := by simp [hstate]
  unfold enterSendPost at hcrashed ⊢
  split at hcrashed
  case h_1 => cases hcrashed
  case h_2 postData _ =>
    have hbegun := going_beginAsync (u := s.record (.wrotePost postData))
      (by simp : ∀ a, OpKind.postWrite ≠ .content a) hnumbered hopen hreading hpending
      rfl rfl rfl "write request post" s.cfg.timeoutSeconds
    exact ⟨hbegun.closed, hbegun.fits, hbegun.content, hbegun.reads, hbegun.delays, hbegun.engaged⟩
  case h_3 size _ =>
    have hraised (u : Machine) (hqueue : u.queue = s.queue ++ (answer.calls.map Call.event ++
          SendPostData.pipeEvents { postInterfaceSize := size } answer.chunk))
        (htasks : u.tasks = s.tasks) (hu : u.state = .sendPost) :
        ∀ e, .event e ∈ u.pending → e.isError = false → (u.row e).isSome = true := by
      intro e he
      rw [pending_raised hpending hqueue htasks, List.mem_map] at he
      obtain ⟨e', he', heq⟩ := he
      exact pipe_fits hu answer _ e (Task.event.inj heq ▸ he')
    dsimp only
    split_ifs with hbytes
    · refine .of_fresh hnumbered rfl hopen (hraised _ rfl rfl hstate)
        (fun hreading' => absurd hreading' hreading) (fun op hop => .inl hop)
        (fun d hd => .inl (mem_delays_self hd)) fun hidle => ?_
      rw [pending_raised hpending (by rfl) (by rfl), List.map_eq_nil_iff,
        List.append_eq_nil_iff] at hidle
      exact absurd hidle.2 (pipeEvents_ne_nil answer _ hbytes)
    · refine .of_fresh hnumbered rfl hopen (hraised _ rfl rfl hstate)
        (fun hreading' => absurd hreading' hreading) (fun op hop => .inl hop) (fun d hd => ?_)
        fun _ => .inr ⟨_, List.mem_append_right _ (List.mem_singleton_self _), rfl⟩
      rcases List.mem_append.mp hd with hold | hnew
      · exact .inl (mem_delays_cancelled hold)
      · rw [List.mem_singleton.mp hnew]
        exact .inr ⟨rfl, rfl, fun _ => by rintro ⟨⟩⟩

/-- A read is started on entry, or there is an error. -/
theorem onEntry_next (evt : HeadersParsedEvent) :
    (∃ a, (onEntry evt).next = some a ∧ a.isDelay = false) ∨
      ∃ error : ErrorEvent, (onEntry evt).outputs.filterMap Output.event = [.error error] := by
  unfold onEntry
  dsimp only
  split_ifs <;> simp [ReadContentData.finish, Output.event, AsyncOp.isDelay]

theorem enterReadContent_going (evt : HeadersParsedEvent) (hnumbered : Numbered s)
    (hstate : s.state = .readContent) (hpending : s.pending = []) :
    Going (s.enterReadContent evt) := by
  have hopen : s.state.isOpen = true := by simp [hstate, StateName.isOpen]
  have hraised (u : Machine) (hqueue : u.queue =
      s.queue ++ (onEntry evt).outputs.filterMap Output.event) (htasks : u.tasks = s.tasks) :
      u.pending = ((onEntry evt).outputs.filterMap Output.event).map Task.event :=
    pending_raised hpending hqueue htasks
  have hplain (u : Machine) (hu : u.pending =
      ((onEntry evt).outputs.filterMap Output.event).map Task.event) (e : Event)
      (he : .event e ∈ u.pending) (h : e.isError = false) : (u.row e).isSome = true := by
    rw [hu] at he
    rcases onEntry_raises evt with hnone | ⟨-, error, -, hone⟩
    · simp [hnone] at he
    · simp only [hone, List.map_cons, List.map_nil, List.mem_singleton, Task.event.injEq] at he
      simp [he, Event.isError] at h
  unfold enterReadContent
  dsimp only
  split
  case h_1 hnone =>
    refine .of_fresh hnumbered rfl hopen (hplain _ (hraised _ rfl rfl)) (fun _ => rfl)
      (fun op hop => .inl hop) (fun d hd => .inl (mem_delays_self hd)) fun hidle => ?_
    rcases onEntry_next evt with ⟨a, hsome, -⟩ | ⟨error, hone⟩
    · rw [hnone] at hsome
      cases hsome
    · rw [hraised _ (by rfl) (by rfl), hone] at hidle
      cases hidle
  case h_2 a hnext =>
    refine .of_fresh hnumbered rfl hopen (hplain _ (hraised _ rfl rfl)) (fun _ => rfl)
      (fun op hop => ?_) (fun d hd => .inl (mem_delays_self hd))
      fun _ => .inl ⟨_, List.mem_append_right _ (List.mem_singleton_self _), rfl⟩
    rcases List.mem_append.mp hop with hold | hnew
    · exact .inl hold
    · refine .inr fun a' ha => ?_
      rw [List.mem_singleton.mp hnew] at ha
      cases ha
      rcases onEntry_next evt with ⟨a', hsome, hread⟩ | ⟨error, hone⟩
      · rw [hnext] at hsome
        cases hsome
        exact hread
      · rcases onEntry_raises evt with hnone | ⟨hnone, -⟩
        · rw [hnone] at hone
          cases hone
        · rw [hnext] at hnone
          cases hnone

/-- The events of a callback's calls, and the state's own event behind them. -/
theorem headersReceived_going (hlive : s.live = none) (hreading : s.state ≠ .readContent)
    (hpending : s.pending = []) (entry : Entry) (answer : Answer) {e : Event}
    (hrow : ∀ u : Machine, u.state = s.state → (u.row e).isSome = true) :
    Going (s.headersReceived entry answer e) := by
  have hraised : (s.headersReceived entry answer e).pending =
      ((s.record entry).callbackCalls answer ++ [e]).map Task.event :=
    pending_raised hpending rfl rfl
  refine .of_raised hlive hreading (by simp [hraised]) fun e' he' hplain => ?_
  rw [hraised, List.mem_map] at he'
  obtain ⟨e'', he'', heq⟩ := he'
  cases heq
  rcases List.mem_append.mp he'' with hcall | hown
  · have herror := callbackCalls_isError (s.record entry) answer e' hcall
    simp [hplain] at herror
  · rw [List.mem_singleton.mp hown]
    exact hrow _ rfl

theorem OnEntry.going (h : OnEntry s answer t s') (hnumbered : Numbered s) (hlive : s.live = none)
    (hstate : s.state = t.state) (hpending : s.pending = []) (hcrashed : s'.crashed = false) :
    Going s' := by
  have hraised {u : Machine} {e : Event} (hqueue : u.queue = s.queue ++ [e])
      (htasks : u.tasks = s.tasks) (hlive' : u.live = none) (hreading : u.state ≠ .readContent)
      (hfits : e.isError = true ∨ (u.row e).isSome = true) : Going u := by
    have hone : u.pending = [.event e] := pending_raised hpending hqueue htasks
    refine .of_raised hlive' hreading (by simp [hone]) fun e' he' hplain => ?_
    rw [hone, List.mem_singleton] at he'
    cases he'
    exact hfits.resolve_left (by simp [hplain])
  have hbegun (u : Machine) {kind : OpKind} (hu : u.state = s.state) (hopen : s.state.isOpen = true)
      (hreading : s.state ≠ .readContent) (hidle : u.pending = s.pending)
      (hfresh : u.fresh = s.fresh) (hops : u.ops = s.ops) (hdelays : u.delays = s.delays)
      (reason : String) (timeoutSeconds : ℕ) (hkind : ∀ a, kind ≠ .content a) :
      Going (u.beginAsync reason timeoutSeconds kind) :=
    going_beginAsync hkind hnumbered (hu ▸ hopen) (hu ▸ hreading) (hidle.trans hpending) hfresh
      hops hdelays reason timeoutSeconds
  have hopens (hopen : t.state.isOpen = true) : s.state.isOpen = true := hstate ▸ hopen
  have hreads (hreading : t.state ≠ .readContent) : s.state ≠ .readContent := hstate ▸ hreading
  cases h with
  | badUrl => exact hraised rfl rfl hlive (hreads (by rintro ⟨⟩)) (.inl rfl)
  | initUrl url hurl hscheme =>
    refine hraised rfl rfl hlive (hreads (by rintro ⟨⟩)) (.inr ?_)
    simp [row, hstate, Target.state]
  | unsupported => exact hraised rfl rfl hlive (hreads (by rintro ⟨⟩)) (.inl rfl)
  | crash => cases hcrashed
  | resolve url hurl =>
    exact hbegun (s.record (.resolving url)) rfl (hopens rfl) (hreads (by rintro ⟨⟩)) rfl rfl
      rfl rfl _ _ (by simp)
  | connect endpoint url hurl =>
    exact hbegun ((s.setProxy endpoint.proxy).record (.connecting url)) rfl (hopens rfl)
      (hreads (by rintro ⟨⟩)) rfl rfl rfl rfl _ _ (by simp)
  | proxyConnect url hurl =>
    rw [enterProxyConnect, write_eq]
    exact hbegun { s with log := s.log ++ s.written (connectRequest url s.currentProxy) } rfl
      (hopens rfl) (hreads (by rintro ⟨⟩)) rfl rfl rfl rfl _ _ (by simp)
  | sslHandshake =>
    exact hbegun s rfl (hopens rfl) (hreads (by rintro ⟨⟩)) rfl rfl rfl rfl _ _ (by simp)
  | sendHeader url hurl =>
    rw [enterSendHeader, write_eq]
    exact hbegun { s with log := s.log ++ s.written (serverRequest s.cfg.requestMethod url s.isSsl
      s.currentProxy s.cfg.headers) } rfl (hopens rfl) (hreads (by rintro ⟨⟩)) rfl rfl
      rfl rfl _ _ (by simp)
  | sendPost post hpost => exact enterSendPost_going hnumbered hstate hpending hcrashed
  | readHeaders =>
    exact hbegun s rfl (hopens rfl) (hreads (by rintro ⟨⟩)) rfl rfl rfl rfl _ _ (by simp)
  | badRedirect => exact hraised rfl rfl hlive (hreads (by rintro ⟨⟩)) (.inl rfl)
  | redirectHeaders evt url location hpassed =>
    refine headersReceived_going hlive (hreads (by rintro ⟨⟩)) hpending _ answer fun u hu => ?_
    simp [row, hu, hstate, Target.state]
  | responseHeaders evt parsed hpassed =>
    refine headersReceived_going hlive (hreads (by rintro ⟨⟩)) hpending _ answer fun u hu => ?_
    simp [row, hu, hstate, Target.state]
  | refuse => exact hraised rfl rfl hlive (hreads (by rintro ⟨⟩)) (.inl rfl)
  | follow evt redirectUrl url hdeny hdowngrade =>
    refine hraised rfl rfl hlive (hreads (by rintro ⟨⟩)) (.inr ?_)
    simp [row, hstate, Target.state]
  | readContent evt => exact enterReadContent_going evt hnumbered hstate hpending
  | restart => exact .of_closed (by simp [hstate, Target.state, StateName.isOpen]) hlive
  | passOn => exact .of_closed (by simp [hstate, Target.state, StateName.isOpen]) hlive
  | finalError evt =>
    refine .of_closed ?_ ((s.enterFinalError_live answer evt).trans hlive)
    rw [((OnEntry.finalError evt : OnEntry s answer _ _).entered).state, hstate]
    rfl
  | complete => exact .of_closed (by simp [enterComplete, hstate, Target.state, StateName.isOpen]) hlive

/-! ### Events -/

/-- An error leads to a state without data. -/
theorem OnEntry.going_error {evt : ErrorEvent} (hrow : Row s (.error evt) t)
    (hentry : OnEntry (s.leave t.state) answer t s') (hcrashed : s'.crashed = false) :
    Going s' := by
  have hstate := hentry.entered.state
  cases hrow with
  | finalError _ h =>
    refine .of_closed (by simp [hstate, Target.state, StateName.isOpen]) ?_
    cases hentry with
    | crash => cases hcrashed
    | finalError => exact enterFinalError_live _ _ _
  | error _ h h' =>
    refine .of_closed (by simp [hstate, Target.state, StateName.isOpen]) ?_
    cases hentry with
    | crash => cases hcrashed
    | restart => rfl
    | passOn => rfl

/-- The next event of what waits. -/
theorem Going.next (queue : List Event) (tasks : List Task) (h : Going s) (hpaced : Paced s)
    (hcrashed : s.crashed = false) {e : Event}
    (hnumbered : Numbered ((s.setQueue queue).setTasks tasks))
    (hpending : s.pending = .event e :: ((s.setQueue queue).setTasks tasks).pending)
    (hcrashed' : (((s.setQueue queue).setTasks tasks).process e answer).crashed = false) :
    Going (((s.setQueue queue).setTasks tasks).process e answer) := by
  have hstarted : s.state ≠ .unstarted := fun hstate => by
    rw [(hpaced.unstarted hstate).1] at hpending
    cases hpending
  have hfits := fun hopen => h.fits hopen e (hpending ▸ List.mem_cons_self)
  have hcomes := fun hlive => (hpaced.comes hcrashed hlive hpending).drop queue tasks
  have hrows : ((s.setQueue queue).setTasks tasks).row e = s.row e := row_congr rfl rfl rfl e
  have hclosed := h.closed
  have hstate : ((s.setQueue queue).setTasks tasks).state = s.state := rfl
  have hlive : ((s.setQueue queue).setTasks tasks).live = s.live := rfl
  rw [← hrows, ← hstate] at hfits
  rw [← hstate, ← hlive] at hclosed
  rw [← hstate] at hstarted hcomes
  clear hstate hlive hrows
  generalize (s.setQueue queue).setTasks tasks = u at *
  cases hterminate : u.state.isTerminate with
  | true =>
    rw [process, if_pos hterminate]
    have hstate' : u.state.isOpen = false := by
      revert hterminate
      cases u.state <;> simp [StateName.isTerminate, StateName.isOpen]
    exact .of_closed hstate' (hclosed hstate')
  | false =>
    have hnext := hcomes hterminate
    generalize hrest : u.pending = rest at hnext
    have hentered {t : Target} {s' : Machine} (hentry : OnEntry (u.leave t.state) answer t s')
        (hnone : rest = []) : s'.crashed = false → Going s' :=
      hentry.going (hnumbered.leave t.state) rfl rfl (hrest.trans hnone)
    refine process_cases (P := fun s' => s'.crashed = false → Going s') u e answer
      (fun hend => by simp [hterminate] at hend) (fun _ hnone => ?_) (fun t s' _ hrow hentry => ?_)
      hcrashed'
    · cases hnext with
      | last _ hlasts hopen =>
        have hsome := hfits hopen hlasts.isError
        simp [hnone] at hsome
      | restart herror => simp [row, herror] at hnone
      | error evt _ hopen =>
        have hsome := row_isSome_error evt hstarted hterminate
        simp [hnone] at hsome
      | failed _ _ herror =>
        have hclosed' : u.state.isOpen = false := by rw [herror]; rfl
        exact fun _ => .of_closed hclosed' (hclosed hclosed')
    · cases hnext with
      | last => exact hentered hentry rfl
      | restart => exact hentered hentry rfl
      | error evt => exact hentry.going_error hrow
      | failed _ _ herror hfailed =>
        cases hfailed with
        | error evt => exact hentry.going_error hrow
        | behind _ _ he =>
          cases hrow with
          | restart => exact absurd rfl he
          | finalError evt => exact hentry.going_error (.finalError evt herror)
          | error _ _ hne => exact absurd herror hne
          | _ => simp_all

/-! ### What handlers leave to do -/

section Content
variable (fsm : Fsm) (d : ReadContentData) (owner : ℕ)

/-- An end is an event. -/
theorem outcomeTasks_finish_ne (d : ReadContentData) (outputs : List Output) {event : Output}
    (h : (outputTask event).isSome = true) : outcomeTasks owner (d.finish outputs event) ≠ [] := by
  obtain ⟨t, ht⟩ := Option.isSome_iff_exists.mp h
  simp [outcomeTasks_finish, ht]

theorem outcomeTasks_next_ne (d : ReadContentData) (outputs : List Output) (a : AsyncOp) :
    outcomeTasks owner { data := d, outputs := outputs, next := some a } ≠ [] := by
  simp [outcomeTasks]

theorem handleContentRead_busy (h : d.cancelled = false) (total previously transferred : ℕ)
    (err : Option IoError) :
    outcomeTasks owner (handleContentRead fsm d total previously transferred err) ≠ [] := by
  unfold handleContentRead
  rw [if_neg (by simp [h])]
  dsimp only
  generalize (if d.usingGzip = true then d else _) = d'
  split_ifs
  · exact outcomeTasks_finish_ne owner _ _ rfl
  · unfold handleContentComplete
    split_ifs
    · split <;> exact outcomeTasks_finish_ne owner _ _ rfl
    · exact outcomeTasks_finish_ne owner _ _ rfl
  · exact outcomeTasks_next_ne owner _ _ _
  · exact outcomeTasks_finish_ne owner _ _ rfl

theorem handleContentChunkRead_busy (h : d.cancelled = false) (consumed size transferred : ℕ)
    (err : Option IoError) :
    outcomeTasks owner (handleContentChunkRead fsm d consumed size transferred err) ≠ [] := by
  unfold handleContentChunkRead
  rw [if_neg (by simp [h])]
  dsimp only
  split_ifs
  · exact outcomeTasks_next_ne owner _ _ _
  · exact outcomeTasks_next_ne owner _ _ _
  · exact outcomeTasks_finish_ne owner _ _ rfl

theorem handleContentChunkSizeRead_busy (h : d.cancelled = false) (consumed transferred : ℕ)
    (err : Option IoError) :
    outcomeTasks owner (handleContentChunkSizeRead fsm d consumed transferred err) ≠ [] := by
  unfold handleContentChunkSizeRead
  rw [if_neg (by simp [h])]
  dsimp only
  split_ifs
  · split
    · exact outcomeTasks_finish_ne owner _ _ rfl
    · split_ifs
      · unfold handleCompleteAllChunks
        split_ifs
        · split
          · refine outcomeTasks_finish_ne owner _ _ ?_
            unfold compressionError
            split <;> rfl
          · exact outcomeTasks_finish_ne owner _ _ rfl
        · exact outcomeTasks_finish_ne owner _ _ rfl
      · exact outcomeTasks_next_ne owner _ _ _
  · exact outcomeTasks_finish_ne owner _ _ rfl

end Content

/-- The handler of a read goes on. -/
theorem contentOutcome_busy (s : Machine) (owner : ℕ) {a : AsyncOp} (ha : a.isDelay = false)
    (h : s.readContentData.cancelled = false) (received : List UInt8) (err : Option IoError) :
    outcomeTasks owner (s.contentOutcome a received err) ≠ [] := by
  have hkept : (s.readContentData.receive received).cancelled = false := h
  cases a with
  | contentRead size total previously =>
    exact handleContentRead_busy s.contentFsm (s.readContentData.receive received) owner hkept _ _ _ _
  | chunkRead left consumed size =>
    exact handleContentChunkRead_busy s.contentFsm (s.readContentData.receive received) owner hkept
      _ _ _ _
  | chunkSizeRead consumed =>
    exact handleContentChunkSizeRead_busy s.contentFsm (s.readContentData.receive received) owner
      hkept _ _ _
  | contentReadDelay size total => cases ha
  | chunkSizeReadDelay left consumed size => cases ha

/-- The wait on the delay timer is followed by its read. -/
theorem contentDelayed_eq (s : Machine) (owner : ℕ) {a : AsyncOp} (ha : a.isDelay = true)
    (h : s.readContentData.cancelled = false) (henabled : s.transmissionDelayTimerEnabled = true) :
    ∃ enabled, s.contentDelayed owner a = (s.setDelayTimerEnabled enabled).async owner
      (nextReason a.afterDelay) s.cfg.timeoutSeconds (.content a.afterDelay) := by
  cases a with
  | contentReadDelay size total =>
    refine ⟨false, ?_⟩
    simp [contentDelayed, contentDelayOutcome, handleContentReadDelayCallback, h, henabled,
      AsyncOp.afterDelay]
  | chunkSizeReadDelay left consumed size =>
    refine ⟨true, ?_⟩
    simp [contentDelayed, contentDelayOutcome, handleContentChunkSizeReadDelay, h, henabled,
      AsyncOp.afterDelay]
  | _ => cases ha

/-! ### Steps -/

/-- Between two transitions: what is new is read, or it waits on the delay timer. -/
theorem Going.keep (h : Going s) (hstate : s'.state = s.state) (hlive : s'.live = s.live)
    (hcontent : s.readContentData.cancelled = false → s'.readContentData.cancelled = false)
    (hrow : ∀ e, s'.row e = s.row e)
    (hfits : ∀ e, .event e ∈ s'.pending → e.isError = false →
      .event e ∈ s.pending ∨ (s.row e).isSome = true)
    (hops : ∀ op ∈ s'.ops, op ∈ s.ops ∨ ∀ a, op.kind = .content a → a.isDelay = false)
    (hdelays : ∀ d ∈ s'.delays, s.live = some d.owner →
      d ∈ s.delays ∧ s'.transmissionDelayTimerEnabled = s.transmissionDelayTimerEnabled ∨
        d.cancelled = false ∧ s'.transmissionDelayTimerEnabled = true ∧
          ∀ a, d.kind = .content a → a.isDelay = true)
    (hengaged : s.state.isOpen = true → s.state ≠ .unstarted → s'.pending = [] → Engaged s') :
    Going s' where
  closed hclosed := hlive.trans (h.closed (hstate ▸ hclosed))
  fits hopen e he hplain := by
    rw [hrow]
    exact (hfits e he hplain).elim (fun hold => h.fits (hstate ▸ hopen) e hold hplain) id
  content hreading := hcontent (h.content (hstate ▸ hreading))
  reads op hop howner := (hops op hop).elim (fun hold => h.reads op hold (hlive ▸ howner)) id
  delays d hd howner := by
    rcases hdelays d hd (hlive ▸ howner) with ⟨hold, henabled⟩ | hnew
    · rw [henabled]
      exact h.delays d hold (hlive ▸ howner)
    · exact hnew
  engaged hopen hstarted := hengaged (hstate ▸ hopen) (hstate ▸ hstarted)

/-- Where something waits, nothing has to be under way. -/
theorem Going.busy (h : Going s) (hkept : Kept s s')
    (hcontent : s.readContentData.cancelled = false → s'.readContentData.cancelled = false)
    (hbusy : s'.pending ≠ [])
    (hfits : ∀ e, .event e ∈ s'.pending → e.isError = false → (s.row e).isSome = true)
    (hops : s'.ops ⊆ s.ops) (hdelays : s'.delays = s.delays)
    (henabled : s'.transmissionDelayTimerEnabled = s.transmissionDelayTimerEnabled) : Going s' :=
  h.keep hkept.state hkept.live hcontent (row_congr hkept.cfg hkept.state hkept.isSsl)
    (fun e he hplain => .inr (hfits e he hplain)) (fun _ hop => .inl (hops hop))
    (fun _ hd _ => .inl ⟨hdelays ▸ hd, henabled⟩) fun _ _ hidle => absurd hidle hbusy

/-- What is under way is still there. -/
theorem Going.idle (h : Going s) (hkept : Kept s s') (hidle : s.pending = [])
    (hidle' : s'.pending = [])
    (hcontent : s'.readContentData = s.readContentData)
    (hops : s'.ops ⊆ s.ops) (hdelays : s'.delays ⊆ s.delays)
    (hlives : ∀ op ∈ s.ops, s.live = some op.owner → op ∈ s'.ops)
    (hlives' : ∀ d ∈ s.delays, s.live = some d.owner → d ∈ s'.delays)
    (henabled : s'.transmissionDelayTimerEnabled = s.transmissionDelayTimerEnabled) : Going s' := by
  refine h.keep hkept.state hkept.live (fun hcancelled => hcontent ▸ hcancelled)
    (row_congr hkept.cfg hkept.state hkept.isSsl) (fun e he => ?_) (fun op hop => .inl (hops hop))
    (fun d hd _ => .inl ⟨hdelays hd, henabled⟩) fun hopen hstarted _ => ?_
  · rw [hidle'] at he
    cases he
  · unfold Engaged
    rw [hkept.live]
    exact (h.engaged hopen hstarted hidle).imp
      (fun ⟨_, hop, howner⟩ => ⟨_, hlives _ hop howner, howner⟩)
      fun ⟨_, hd, howner⟩ => ⟨_, hlives' _ hd howner, howner⟩

/-- An operation is armed for the data. -/
theorem Going.async (h : Going s) {owner : ℕ} {kind : OpKind}
    (hkind : ∀ a, kind = .content a → a.isDelay = false) (hlive : s.live = some owner)
    {u : Machine} (hstate : u.state = s.state) (hrow : ∀ e, u.row e = s.row e)
    (hlive' : u.live = s.live) (hcontent : u.readContentData = s.readContentData)
    (hops : u.ops ⊆ s.ops) (hfree : ∀ d ∈ u.delays, s.live ≠ some d.owner)
    (hidle : u.pending = []) (reason : String) (timeoutSeconds : ℕ) :
    Going (u.async owner reason timeoutSeconds kind) := by
  refine h.keep hstate hlive' (fun hcancelled => hcontent ▸ hcancelled) hrow (fun e he => ?_)
    (fun op hop => ?_) (fun d hd howner => absurd howner (hfree d hd))
    fun _ _ _ => .inl ⟨_, List.mem_append_right _ (List.mem_singleton_self _), hlive'.trans hlive⟩
  · have hnone : (u.async owner reason timeoutSeconds kind).pending = [] := hidle
    rw [hnone] at he
    cases he
  · rcases List.mem_append.mp hop with hold | hnew
    · exact .inl (hops hold)
    · rw [List.mem_singleton.mp hnew]
      exact .inr hkind

/-- The events of a handler's tasks have a row. -/
theorem handled_fits {owner : ℕ} {kind : OpKind} (h : Handled s owner kind s')
    (hqueue : s.queue = []) (htasks : s.tasks = []) (hstate : s.state = kind.home) :
    ∀ e, .event e ∈ s'.pending → e.isError = false → (s.row e).isSome = true := by
  have hone {s' : Machine} {e : Event} (hpending : s'.pending = [.event e])
      (hrow : (s.row e).isSome = true) (e' : Event) (he : .event e' ∈ s'.pending)
      (_ : e'.isError = false) : (s.row e').isSome = true := by
    rw [hpending, List.mem_singleton] at he
    cases he
    exact hrow
  cases h with
  | event _ e hraises => exact hone (pending_next hqueue htasks _) (raises_row hraises hstate)
  | established =>
    exact hone (pending_next (by exact hqueue) (by exact htasks) _) (raises_row .tunnelled hstate)
  | proxyRead =>
    intro e he
    rw [pending_of_idle (by exact hqueue) (by exact htasks)] at he
    cases he
  | pipe size hpost =>
    intro e he
    rw [pending_next hqueue htasks] at he
    cases List.mem_singleton.mp he
  | content a received tasks d hcontent =>
    intro e he hplain
    rw [pending_next (by exact hqueue) (by exact htasks)] at he
    have hread : (s.row .contentRead).isSome = true := by simp [row, hstate, OpKind.home]
    cases hcontent <;> simp at he
    case failed => simp [he, Event.isError] at hplain
    case exceeded => simp [he, Event.isError] at hplain
    all_goals exact he ▸ hread

/-- A handler leaves an event to do or the pipe, or an operation has been armed. -/
theorem handle_busy {owner : ℕ} {kind : OpKind} (hqueue : s.queue = []) (htasks : s.tasks = [])
    (hread : ∀ a, kind = .content a → a.isDelay = false ∧ s.readContentData.cancelled = false)
    (received : List UInt8) (err : Option IoError) :
    (kind = .proxyWrite ∧ s.handle owner kind received err =
      s.async owner "proxy read response" kProxyReadTimeout .proxyRead) ∨
    (s.handle owner kind received err).pending ≠ [] ∧
      (s.handle owner kind received err).ops = s.ops ∧
      (s.handle owner kind received err).delays = s.delays ∧
      (s.handle owner kind received err).transmissionDelayTimerEnabled =
        s.transmissionDelayTimerEnabled := by
  have hcases := s.handle_cases owner kind received err
  cases kind with
  | proxyWrite =>
    generalize s.handle owner .proxyWrite received err = s' at hcases ⊢
    cases hcases with
    | event _ e hraises => exact .inr ⟨by simp [pending_next hqueue htasks], rfl, rfl, rfl⟩
    | proxyRead => exact .inl ⟨rfl, rfl⟩
  | content a =>
    obtain ⟨ha, hcancelled⟩ := hread a rfl
    have hbusy := contentOutcome_busy s owner ha hcancelled received err
    refine .inr ⟨?_, rfl, rfl, rfl⟩
    simp only [handle, handleContent]
    rwa [pending_next (by exact hqueue) (by exact htasks)]
  | _ =>
    generalize s.handle owner _ received err = s' at hcases ⊢
    cases hcases <;> exact .inr ⟨by simp [pending, hqueue, htasks], rfl, rfl, rfl⟩

theorem Going.handled (h : Going s) {u : Machine} {owner : ℕ} {kind : OpKind} (hkept : Kept s u)
    (hqueue : u.queue = []) (htasks : u.tasks = []) (hstate : u.state = kind.home)
    (hlive : s.live = some owner) (hread : ∀ a, kind = .content a → a.isDelay = false)
    (hcontent : u.readContentData = s.readContentData) (hops : u.ops ⊆ s.ops)
    (hdelays : u.delays = s.delays) (hfree : ∀ d ∈ s.delays, s.live ≠ some d.owner)
    (henabled : u.transmissionDelayTimerEnabled = s.transmissionDelayTimerEnabled)
    (received : List UInt8) (err : Option IoError) : Going (u.handle owner kind received err) := by
  have hrow (e : Event) : u.row e = s.row e := row_congr hkept.cfg hkept.state hkept.isSsl e
  have hreads (a : AsyncOp) (ha : kind = .content a) :
      a.isDelay = false ∧ u.readContentData.cancelled = false := by
    rw [ha, hkept.state] at hstate
    exact ⟨hread a ha, hcontent.symm ▸ h.content hstate⟩
  rcases handle_busy hqueue htasks hreads received err with ⟨rfl, heq⟩ | ⟨hbusy, hops', hd, he⟩
  · rw [heq]
    exact h.async (by simp) hlive hkept.state hrow hkept.live hcontent hops (hdelays ▸ hfree)
      (pending_of_idle hqueue htasks) _ _
  · have hcases := u.handle_cases owner kind received err
    have hfits := handled_fits hcases hqueue htasks hstate
    refine h.busy (hkept.trans hcases.kept) (fun hcancelled => ?_) hbusy
      (fun e he hplain => hrow e ▸ hfits e he hplain) (hops' ▸ hops) (hd.trans hdelays)
      (he.trans henabled)
    cases kind with
    | content a => rfl
    | _ =>
      generalize u.handle owner _ received err = s' at hcases ⊢
      cases hcases <;> exact hcontent.symm ▸ hcancelled

theorem Going.completed {i : ℕ} {op : Op} (h : Going s) (hlone : Lone s) (hhome : AtHome s)
    (hwatched : Watched s) (hqueue : s.queue = []) (htasks : s.tasks = [])
    (hop : s.ops[i]? = some op) (received : List UInt8) (err : Option IoError) :
    Going ((s.setOps (s.ops.eraseIdx i)).completed op received err) := by
  have hidle := pending_of_idle hqueue htasks
  have hset := s.setOps_kept (s.ops.eraseIdx i)
  have hold := (List.eraseIdx_sublist s.ops i).subset
  unfold Machine.completed
  split_ifs with hnot hfirst
  · -- What is waited for is something else.
    have hlives (op' : Op) (hop' : op' ∈ s.ops) (howner : s.live = some op'.owner) :
        op' ∈ s.ops.eraseIdx i :=
      mem_eraseIdx_of_ne hop hop' fun heq => hnot (heq ▸ howner)
    split
    · exact h.idle (hset.trans (take_kept _ _)) hidle hidle rfl hold (List.Subset.refl _) hlives
        (fun _ hd _ => hd) rfl
    · exact h.idle hset hidle hidle rfl hold (List.Subset.refl _) hlives (fun _ hd _ => hd) rfl
  · have hguarded := hwatched.guarded (idle_iff.mpr ⟨hqueue, htasks⟩) (List.mem_of_getElem? hop)
      (not_not.mp hnot)
    exact absurd hfirst hguarded.first
  · have howner : s.live = some op.owner := not_not.mp hnot
    have hload := load_dropOp hop op.owner
    have hone := hlone.one op.owner
    rw [if_pos rfl] at hload
    have hzero : (s.setOps (s.ops.eraseIdx i)).load op.owner = 0 := by omega
    obtain ⟨hfree, -⟩ := free_of_load hzero howner
    exact h.handled ((hset.trans (take_kept _ _)).trans (clearAsyncTimeout_kept _)) hqueue htasks
      (hhome.ops op (List.mem_of_getElem? hop) howner) howner
      (h.reads op (List.mem_of_getElem? hop) howner) rfl hold rfl hfree.2 rfl received err

theorem Going.timedOut {i : ℕ} {t : Timeout} (h : Going s) (hqueue : s.queue = [])
    (htasks : s.tasks = []) (err : Bool) :
    Going ((s.setTimers (s.timers.eraseIdx i)).timedOut t err) := by
  have hidle := pending_of_idle hqueue htasks
  have hset := s.setTimers_kept (s.timers.eraseIdx i)
  have hsame {s' : Machine} (hkept : Kept s s') (hidle' : s'.pending = [])
      (hcontent : s'.readContentData = s.readContentData) (hops : s'.ops = s.ops)
      (hdelays : s'.delays = s.delays)
      (henabled : s'.transmissionDelayTimerEnabled = s.transmissionDelayTimerEnabled) : Going s' :=
    h.idle hkept hidle hidle' hcontent (hops ▸ List.Subset.refl _) (hdelays ▸ List.Subset.refl _)
      (fun _ hop _ => hops ▸ hop) (fun _ hd _ => hdelays ▸ hd) henabled
  refine timedOut_cases (P := Going) _ t err (hsame hset hidle rfl rfl rfl rfl)
    (hsame (hset.trans (take_kept _ _)) hidle rfl rfl rfl rfl) fun _ _ => ?_
  have hpending := pending_next (s := (s.setTimers (s.timers.eraseIdx i)).take t.race) hqueue htasks
    [.event (.error (s.setTimers (s.timers.eraseIdx i)).ioTimeoutError)]
  refine h.busy ((hset.trans (take_kept _ _)).trans (next_kept _ _)) id (by simp [hpending])
    (fun e he hplain => ?_) (List.Subset.refl _) rfl rfl
  rw [hpending, List.mem_singleton] at he
  cases he
  cases hplain

theorem Going.delayed {i : ℕ} {d : Delay} {err : Bool} (h : Going s) (hlone : Lone s)
    (hhome : AtHome s) (hqueue : s.queue = []) (htasks : s.tasks = [])
    (hd : s.delays[i]? = some d) (hcompletes : (d.cancelled || !err) = true) :
    Going ((s.setDelays (s.delays.eraseIdx i)).delayed d err) := by
  have hidle := pending_of_idle hqueue htasks
  have hset := s.setDelays_kept (s.delays.eraseIdx i)
  have hmem := List.mem_of_getElem? hd
  by_cases howner : s.live = some d.owner
  · obtain ⟨hcancelled, henabled, hdelay⟩ := h.delays d hmem howner
    have herr : err = false := by simpa [hcancelled] using hcompletes
    have hload := load_dropDelay hd d.owner
    have hone := hlone.one d.owner
    rw [if_pos rfl] at hload
    have hzero : (s.setDelays (s.delays.eraseIdx i)).load d.owner = 0 := by omega
    obtain ⟨hfree, -⟩ := free_of_load hzero howner
    have hstate := hhome.delays d hmem howner
    have hacts : ¬(err = true ∨ (s.setDelays (s.delays.eraseIdx i)).live ≠ some d.owner) := by
      simp [herr, howner]
    rw [Machine.delayed, if_neg hacts]
    cases hkind : d.kind with
    | post postData =>
      have hon : (s.setDelays (s.delays.eraseIdx i)).transmissionDelayTimerEnabled = true := henabled
      dsimp only
      rw [postDelayed, if_pos hon]
      exact h.async (u := ((s.setDelays (s.delays.eraseIdx i)).setDelayTimerEnabled false).record
        (.wrotePost postData)) (by simp) howner rfl (row_congr rfl rfl rfl) rfl rfl
        (List.Subset.refl _) hfree.2 hidle _ _
    | content a =>
      rw [hkind] at hstate
      obtain ⟨enabled, heq⟩ := contentDelayed_eq
        (s.setDelays (s.delays.eraseIdx i)) d.owner (hdelay a hkind) (h.content hstate) henabled
      dsimp only
      rw [heq]
      refine h.async (u := (s.setDelays (s.delays.eraseIdx i)).setDelayTimerEnabled enabled)
        (fun a ha => ?_) howner rfl (row_congr rfl rfl rfl) rfl rfl (List.Subset.refl _) hfree.2
        hidle _ _
      cases ha
      exact afterDelay_isDelay _
  · have hacts : err = true ∨ (s.setDelays (s.delays.eraseIdx i)).live ≠ some d.owner := .inr howner
    rw [Machine.delayed, if_pos hacts]
    exact h.idle hset hidle hidle rfl (List.Subset.refl _) (List.eraseIdx_sublist s.delays i).subset
      (fun _ hop _ => hop) (fun d' hd' howner' => mem_eraseIdx_of_ne hd hd' fun heq =>
        howner (heq ▸ howner')) rfl

/-- In a state that is open a task with data is that of the state, and nothing waits behind it. -/
theorem Paced.owned (h : Paced s) (hopen : s.state.isOpen = true) {t : Task} {tasks : List Task}
    (hqueue : s.queue = []) (htasks : s.tasks = t :: tasks) {owner : ℕ}
    (howner : t.owner = some owner) : s.live = some owner ∧ tasks = [] := by
  have htodo := h.todo hopen
  rw [pending, hqueue, htasks, List.map_nil, List.nil_append] at htodo
  cases htodo with
  | owned _ owner' howner' hlive => exact ⟨hlive.trans (howner'.symm.trans howner), rfl⟩
  | _ => cases howner

theorem Going.closes (h : Going s) (hstate : s'.state = s.state) (hlive : s'.live = s.live)
    (hclosed : s.state.isOpen = false) : Going s' :=
  .of_closed (hstate ▸ hclosed) (hlive.trans (h.closed hclosed))

/-- A task of the data of the state. -/
theorem Going.task_owned (h : Going s) (hpaced : Paced s) (hlone : Lone s) (hhome : AtHome s)
    (hopen : s.state.isOpen = true) {t : Task} {tasks : List Task} {owner : ℕ}
    (hqueue : s.queue = []) (htasks : s.tasks = t :: tasks) (howner : t.owner = some owner)
    (answer : Answer) : Going ((s.setTasks tasks).runTask t answer) := by
  obtain ⟨hlive, rfl⟩ := hpaced.owned hopen hqueue htasks howner
  have hload := load_dropTask htasks owner
  have hone := hlone.one owner
  rw [if_pos howner] at hload
  have hzero : (s.setTasks []).load owner = 0 := by omega
  obtain ⟨hfree, -⟩ := free_of_load hzero hlive
  have hidle := pending_of_idle (s := s.setTasks []) hqueue rfl
  have hdelayed (kind : DelayKind) (hkind : ∀ a, kind = .content a → a.isDelay = true) :
      Going ((s.setTasks []).delay owner kind) := by
    refine h.keep rfl rfl id (row_congr rfl rfl rfl) (fun e he => ?_) (fun _ hop => .inl hop)
      (fun d hd howner' => ?_) fun _ _ _ =>
        .inr ⟨_, List.mem_append_right _ (List.mem_singleton_self _), hlive⟩
    · have hnone : ((s.setTasks []).delay owner kind).pending = [] := hidle
      rw [hnone] at he
      cases he
    · rcases List.mem_append.mp hd with hold | hnew
      · obtain ⟨d', hd', rfl⟩ := List.mem_map.mp hold
        exact absurd howner' (hfree.2 d' hd')
      · rw [List.mem_singleton.mp hnew]
        exact .inr ⟨rfl, rfl, hkind⟩
  cases t with
  | event e => cases howner
  | content startPos buffer => cases howner
  | start owner' a =>
    cases howner
    show Going ((s.setTasks []).startContent owner a)
    unfold startContent
    split_ifs with ha
    · exact hdelayed _ fun a' ha' => by cases ha'; exact ha
    · exact h.async (u := s.setTasks []) (fun a' ha' => by cases ha'; simpa using ha) hlive rfl
        (row_congr rfl rfl rfl) rfl rfl (List.Subset.refl _) hfree.2 hidle _ _
  | delayPost owner' postData =>
    cases howner
    exact hdelayed _ (by simp)
  | pipe owner' =>
    cases howner
    have hstate : s.state = .sendPost :=
      hhome.tasks (.pipe owner) (htasks ▸ List.mem_cons_self) owner rfl hlive
    have hpending : ((s.setTasks []).runTask (.pipe owner) answer).pending =
        (answer.calls.map Call.event ++ s.sendPostData.pipeEvents answer.chunk).map Task.event ++
          if answer.chunk.bytes = [] then [] else [.delayPost owner answer.chunk.bytes] := by
      simp [pending, runTask, postViaInterface, hqueue]
    refine h.keep rfl rfl id (row_congr rfl rfl rfl) (fun e he hplain => .inr ?_)
      (fun _ hop => .inl hop) (fun _ hd _ => .inl ⟨hd, rfl⟩) fun _ _ hidle' => ?_
    · rw [hpending, List.mem_append, List.mem_map] at he
      rcases he with ⟨e', he', heq⟩ | hlast
      · cases heq
        exact pipe_fits hstate answer s.sendPostData e he' hplain
      · split_ifs at hlast <;> simp at hlast
    · rw [hpending, List.append_eq_nil_iff, List.map_eq_nil_iff, List.append_eq_nil_iff] at hidle'
      have hbytes : answer.chunk.bytes = [] := by
        by_contra hne
        rw [if_neg hne] at hidle'
        cases hidle'.2
      exact absurd hidle'.1.2 (pipeEvents_ne_nil answer s.sendPostData hbytes)

/-- Content is passed on, and what the callback calls comes first. -/
theorem Going.task_content (h : Going s) (hpaced : Paced s) {startPos : ℕ} {buffer : Buffer}
    {tasks : List Task} (hqueue : s.queue = []) (htasks : s.tasks = .content startPos buffer :: tasks)
    (answer : Answer) : Going ((s.setTasks tasks).runTask (.content startPos buffer) answer) := by
  have hpending : ((s.setTasks tasks).runTask (.content startPos buffer) answer).pending =
      ((s.setTasks tasks).callbackCalls answer).map Task.event ++ tasks := by
    simp [pending, runTask, hqueue]
  have hpending' : s.pending = .content startPos buffer :: tasks := by simp [pending, hqueue, htasks]
  refine h.keep rfl rfl id (row_congr rfl rfl rfl) (fun e he hplain => ?_) (fun _ hop => .inl hop)
    (fun _ hd _ => .inl ⟨hd, rfl⟩) fun hopen _ hidle => ?_
  · rw [hpending, List.mem_append, List.mem_map] at he
    rcases he with ⟨e', hcall, heq⟩ | hrest
    · cases heq
      have herror := callbackCalls_isError (s.setTasks tasks) answer e hcall
      simp [hplain] at herror
    · exact .inl (hpending' ▸ List.mem_cons_of_mem _ hrest)
  · have htodo := hpaced.todo hopen
    rw [hpending'] at htodo
    rw [hpending, List.append_eq_nil_iff] at hidle
    cases htodo with
    | owned _ owner howner => cases howner
    | content => cases hidle.2

theorem Going.step {a : Act} (h : Going s) (hpaced : Paced s) (hlone : Lone s)
    (hnumbered : Numbered s) (hhome : AtHome s) (hwatched : Watched s) (hstep : s.step a = some s')
    (hcrashed' : s'.crashed = false) : Going s' := by
  have hcrashed := crashed_of_step hstep
  have hrecord (hidle : s.pending = []) (entry : Entry) : Going (s.record entry) := by
    refine h.keep rfl rfl id (row_congr rfl rfl rfl) (fun e he _ => .inl he) (fun _ hop => .inl hop)
      (fun _ hd _ => .inl ⟨hd, rfl⟩) fun hopen hstarted _ => h.engaged hopen hstarted hidle
  cases step_cases hstep with
  | clock elapsed =>
    exact h.keep rfl rfl id (row_congr rfl rfl rfl) (fun e he _ => .inl he) (fun _ hop => .inl hop)
      (fun _ hd _ => .inl ⟨hd, rfl⟩) h.engaged
  | queued e queue answer hqueue =>
    exact h.next queue s.tasks hpaced hcrashed
      (hnumbered.congr rfl rfl rfl rfl rfl rfl rfl) (pending_of_queue hqueue) hcrashed'
  | task t tasks answer hqueue htasks =>
    cases howner : t.owner with
    | some owner =>
      cases hopen : s.state.isOpen with
      | true => exact h.task_owned hpaced hlone hhome hopen hqueue htasks howner answer
      | false =>
        cases t with
        | start owner' a =>
          have hkept := (s.setTasks_kept tasks).trans (startContent_kept _ owner' a)
          exact h.closes hkept.state hkept.live hopen
        | delayPost owner' postData => exact h.closes rfl rfl hopen
        | pipe owner' => exact h.closes rfl rfl hopen
        | _ => cases howner
    | none =>
      cases t with
      | event e =>
        exact h.next s.queue tasks hpaced hcrashed (hnumbered.dropTask htasks)
          (by simp [pending, hqueue, htasks]) hcrashed'
      | content startPos buffer => exact h.task_content hpaced hqueue htasks answer
      | _ => cases howner
  | start hqueue htasks =>
    have hidle := pending_of_idle hqueue htasks
    refine process_cases (P := fun s' => s'.crashed = false → Going s') s .start {} (fun _ _ => h)
      (fun _ _ _ => hrecord hidle _) (fun t s' _ _ hentry => ?_) hcrashed'
    exact hentry.going (hnumbered.leave t.state) rfl rfl hidle
  | call call hqueue htasks =>
    have hidle := pending_of_idle hqueue htasks
    refine process_cases (P := fun s' => s'.crashed = false → Going s') s call.event {}
      (fun _ _ => h) (fun _ _ _ => hrecord hidle _) (fun t s' _ hrow hentry => ?_) hcrashed'
    cases call <;> exact hentry.going_error hrow
  | complete i op received err hqueue htasks hop =>
    exact h.completed hlone hhome hwatched hqueue htasks hop received err
  | timer i t err hqueue htasks ht hcompletes => exact h.timedOut hqueue htasks err
  | delay i d err hqueue htasks hd =>
    obtain ⟨d', hd', hcompletes, -⟩ := step_delay hstep
    cases hd.symm.trans hd'
    exact h.delayed hlone hhome hqueue htasks hd hcompletes

theorem going_create (cfg : Config) (time : ℕ) : Going (create cfg time) where
  closed := nofun
  fits _ _ he := absurd he List.not_mem_nil
  content := nofun
  reads _ hop := absurd hop List.not_mem_nil
  delays _ hd := absurd hd List.not_mem_nil
  engaged _ hstarted := absurd rfl hstarted

/-- Nothing is started for data that is gone. -/
theorem Paced.strays (h : Paced s) (hgoing : Going s) : s.strays = false := by
  unfold Machine.strays
  split
  case h_1 owner a tasks hqueue htasks =>
    cases hopen : s.state.isOpen with
    | true => simp [(h.owned hopen hqueue htasks rfl).1]
    | false => simp [hgoing.closed hopen]
  case h_2 => rfl

/-! ### Runs -/

/-- An operation that has its timer running and that its handler or its timeout will act for, or a
wait on the delay timer that will. -/
def Awaits (s : Machine) : Prop :=
  (∃ op ∈ s.ops, s.live = some op.owner ∧ Guarded s op.race) ∨
    ∃ d ∈ s.delays, s.live = some d.owner ∧ d.cancelled = false ∧
      s.transmissionDelayTimerEnabled = true

theorem Going.awaits (h : Going s) (hpaced : Paced s) (hwatched : Watched s)
    (hcrashed : s.crashed = false) (hidle : s.idle = true) (hstarted : s.state ≠ .unstarted)
    (hlive : s.state.isTerminate = false) : Awaits s := by
  obtain ⟨hqueue, htasks⟩ := idle_iff.mp hidle
  have hpending := pending_of_idle hqueue htasks
  have hopen := isOpen_of_ne (hpaced.not_error hcrashed hpending) hlive
  rcases h.engaged hopen hstarted hpending with ⟨op, hop, howner⟩ | ⟨d, hd, howner⟩
  · exact .inl ⟨op, hop, howner, hwatched.guarded hidle hop howner⟩
  · obtain ⟨hcancelled, henabled, -⟩ := h.delays d hd howner
    exact .inr ⟨d, hd, howner, hcancelled, henabled⟩

end Going

/-- What a run keeps until a null pointer is followed. -/
structure Served (s : Machine) : Prop where
  regular : Regular s
  working : Working s
  going : s.crashed = false → Going s ∧ Watched s

theorem Served.step {s s' : Machine} {a : Act} (h : Served s)
    (hcalls : ∀ call ∈ a.calls, call.isTimeout = false) (hstep : s.step a = some s') :
    Served s' where
  regular := h.regular.step hcalls hstep
  working := h.working.step hstep
  going hcrashed' := by
    have hcrashed := crashed_of_step hstep
    obtain ⟨hgoing, hwatched⟩ := h.going hcrashed
    obtain ⟨-, hpaced, -, hhome, hlone, hnumbered, -⟩ := h.regular
    obtain ⟨armed, htiming⟩ := timing_step hlone (hpaced.strays hgoing) hstep
    exact ⟨hgoing.step hpaced hlone hnumbered hhome hwatched hstep hcrashed',
      hwatched.step hnumbered h.working htiming hstep⟩

theorem served_create (cfg : Config) (time : ℕ) : Served (create cfg time) :=
  ⟨regular_create cfg time, working_create cfg time, fun _ =>
    ⟨going_create cfg time, watched_create cfg time⟩⟩

/-- While no caller fails with the error of a timer, a request that has been started and has not
ended waits for an operation whose timer runs or for the delay timer as soon as no handler has
anything left to do. -/
theorem run_awaits {cfg : Config} {time : ℕ} {acts : List Act}
    (h : ∀ a ∈ acts, ∀ call ∈ a.calls, call.isTimeout = false) :
    Always step (fun s => s.crashed = false → s.idle = true → s.state ≠ .unstarted →
      s.state.isTerminate = false → Awaits s) (create cfg time) acts := by
  refine Always.of_guarded (I := Served)
    (G := fun _ a _ => ∀ call ∈ a.calls, call.isTimeout = false) (fun s hs hcrashed => ?_)
    (fun _ _ _ hs hcalls hstep => hs.step hcalls hstep) (served_create cfg time)
    (along_of_forall fun a ha _ _ => h a ha)
  obtain ⟨hgoing, hwatched⟩ := hs.going hcrashed
  exact hgoing.awaits hs.regular.paced hwatched hcrashed

theorem run_awaits_timedOutBeforeSending :
    ((run step getPlain (timedOutBeforeSending.take 9)).map fun s =>
      s.idle && !s.crashed && decide (s.state = .connect)) = some true ∧
      Always step (fun s => s.crashed = false → s.idle = true → s.state ≠ .unstarted →
        s.state.isTerminate = false → Awaits s) getPlain timedOutBeforeSending :=
  ⟨by decide +kernel, run_awaits (by decide +kernel)⟩

end Machine

end MediafireSdk.Http
