import MediafireSdk.Http.Homes

/-! The rows of a request are enough for the events that it raises, unless an error overtakes one
of them: an event that waits behind an error is processed in a state that it was not meant for. -/

namespace MediafireSdk.Http

open Runs

/-- An event of the machine's own that no row is for. -/
def Entry.isMissing : Entry → Bool
  | .noTransition _ e => decide (e ≠ .start)
  | _ => false

/-- Every event had a row in the state in which it was processed. -/
def RowsSuffice (log : List Entry) : Prop := ∀ entry ∈ log, entry.isMissing = false

instance (log : List Entry) : Decidable (RowsSuffice log) :=
  inferInstanceAs (Decidable (∀ entry ∈ log, _))

theorem RowsSuffice.append {log later : List Entry} (h : RowsSuffice log)
    (hlater : RowsSuffice later) : RowsSuffice (log ++ later) := by
  intro entry hmem
  rcases List.mem_append.mp hmem with hmem | hmem
  · exact h entry hmem
  · exact hlater entry hmem

/-- A task that can wait for any state. -/
def Task.lasting : Task → Bool
  | .event e => e.isError
  | .pipe _ => false
  | _ => true

theorem Target.state_ne_unstarted (t : Target) : t.state ≠ .unstarted := by
  cases t <;> nofun

namespace Machine

/-- An error is processed next, which leads out of the state, and right behind it waits an event
that is none: in the queue, or in the handler when the error makes the request again. -/
def Overtakes (s : Machine) : Prop :=
  s.state.isTerminate = false ∧ s.state ≠ .error ∧
    match s.queue, s.tasks with
    | .error _ :: e :: _, _ => e.isError = false
    | [], .event (.error evt) :: .event e :: _ =>
      evt.code = .http .ioTimeout ∧ s.now < s.limit ∧ e.isError = false
    | _, _ => False

instance (s : Machine) : Decidable s.Overtakes := by
  unfold Overtakes
  refine @instDecidableAnd _ _ _ (@instDecidableAnd _ _ _ ?_)
  split <;> infer_instance

/-! ### What waits -/

/-- The queue holds one event of the state, or an error comes first. -/
inductive Queued (s : Machine) : List Event → Prop
  | idle (h : s.state ≠ .error) : Queued s []
  | fits (e : Event) (h : (s.row e).isSome = true) : Queued s [e]
  | error (evt : ErrorEvent) (rest : List Event) : Queued s (.error evt :: rest)

/-- A handler ends with one event of the state, in which it comes next or behind errors. -/
inductive Tasked (s : Machine) : List Task → Prop
  | patient (tasks : List Task) (h : ∀ t ∈ tasks, t.lasting = true) : Tasked s tasks
  | event (e : Event) (hqueue : s.queue = []) (h : (s.row e).isSome = true) : Tasked s [.event e]
  | content (startPos : ℕ) (buffer : Buffer) (hqueue : s.queue = [])
      (hstate : s.state = .readContent) :
      Tasked s [.content startPos buffer, .event .contentRead]
  | pipe (owner : ℕ) (hqueue : s.queue = []) (hstate : s.state = .sendPost) :
      Tasked s [.pipe owner]
  | behind (evt : ErrorEvent) (errors : List Event) (herrors : ∀ e ∈ errors, e.isError = true)
      (e : Event) : Tasked s (.event (.error evt) :: (errors.map Task.event ++ [.event e]))
  | ending (tasks : List Task) (evt : ErrorEvent) (rest : List Event) (hstate : s.state = .error)
      (hqueue : s.queue = .error evt :: rest) : Tasked s tasks

structure Orderly (s : Machine) : Prop where
  started : s.state ≠ .unstarted
  queued : s.crashed = false → s.state.isTerminate = false → Queued s s.queue
  tasked : s.crashed = false → s.state.isTerminate = false → Tasked s s.tasks
  log : RowsSuffice s.log

section Orderly
variable {s s' : Machine} {answer : Answer} {t : Target}

theorem row_isSome_error (evt : ErrorEvent) (hstarted : s.state ≠ .unstarted)
    (hstate : s.state.isTerminate = false) : (s.row (.error evt)).isSome = true := by
  unfold row
  cases hwhere : s.state <;> simp_all [StateName.isTerminate]

/-! ### What is raised on entry -/

theorem OnEntry.unmissing (h : OnEntry s answer t s') :
    ∃ later, s'.log = s.log ++ later ∧ RowsSuffice later := by
  have hnone (hlog : s'.log = s.log) : ∃ later, s'.log = s.log ++ later ∧ RowsSuffice later :=
    ⟨[], by rw [hlog, List.append_nil], List.forall_mem_nil _⟩
  have hone (e : Entry) (hentry : e.isMissing = false) (hlog : s'.log = s.log ++ [e]) :
      ∃ later, s'.log = s.log ++ later ∧ RowsSuffice later :=
    ⟨[e], hlog, by simpa [RowsSuffice] using hentry⟩
  have hwritten (request : Request) (hlog : s'.log = s.log ++ s.written request) :
      ∃ later, s'.log = s.log ++ later ∧ RowsSuffice later := by
    refine ⟨_, hlog, ?_⟩
    unfold written
    cases s.socket <;> simp [RowsSuffice, Entry.isMissing]
  cases h with
  | resolve url hurl => exact hone _ rfl rfl
  | connect endpoint url hurl => exact hone _ rfl rfl
  | proxyConnect url hurl => exact hwritten _ (s.enterProxyConnect_log url)
  | sendHeader url hurl => exact hwritten _ (s.enterSendHeader_log url)
  | sendPost post hpost =>
    refine ⟨post.entries, s.enterSendPost_log answer hpost, ?_⟩
    cases post <;> simp [Post.entries, RowsSuffice, Entry.isMissing]
  | redirectHeaders evt url location hpassed => exact hone _ rfl rfl
  | responseHeaders evt parsed hpassed => exact hone _ rfl rfl
  | readContent evt => exact hnone (s.enterReadContent_log evt)
  | finalError evt => exact hone _ rfl (s.enterFinalError_log answer evt)
  | complete => exact hone _ rfl rfl
  | _ => exact hnone rfl

/-- Errors, and one event of the state behind them. -/
theorem queued_errors {errors : List Event} (herrors : ∀ e ∈ errors, e.isError = true) {e : Event}
    (h : (s.row e).isSome = true) : Queued s (errors ++ [e]) := by
  rcases errors with _ | ⟨e', errors⟩
  · exact .fits e h
  · have he' := herrors e' List.mem_cons_self
    cases e' <;> first | exact .error _ _ | cases he'

theorem calls_isError (answer : Answer) :
    ∀ e ∈ answer.calls.map Call.event, e.isError = true := by
  intro e he
  obtain ⟨call, -, rfl⟩ := List.mem_map.mp he
  cases call <;> rfl

/-- The pipe raises errors, and at most one event behind them. -/
theorem pipe_cases (answer : Answer) (d : SendPostData) :
    answer.chunk.bytes ≠ [] ∧ d.pipeEvents answer.chunk = [] ∨
      answer.chunk.bytes = [] ∧ ∃ errors, d.pipeEvents answer.chunk = errors ++ [d.finish] ∧
        ∀ e ∈ errors, e.isError = true := by
  cases hchunk : answer.chunk with
  | data bytes =>
    by_cases hbytes : bytes = []
    · exact .inr ⟨hbytes, [], by simp [SendPostData.pipeEvents, hbytes],
        List.forall_mem_nil _⟩
    · exact .inl ⟨hbytes, by simp [SendPostData.pipeEvents, hbytes]⟩
  | throws what => exact .inr ⟨rfl, [.error (postReadError what)], rfl, by simp [Event.isError]⟩

theorem finish_row (d : SendPostData) (hstate : s.state = .sendPost) :
    (s.row d.finish).isSome = true := by
  unfold SendPostData.finish row
  split_ifs <;> simp [hstate]

theorem enterSendPost_queued (s : Machine) (answer : Answer) (hqueue : s.queue = [])
    (hstate : s.state = .sendPost) :
    Queued (s.enterSendPost answer) (s.enterSendPost answer).queue := by
  have hstate' : (s.enterSendPost answer).state = .sendPost :=
    (s.enterSendPost_entered answer).state.trans hstate
  have hidle : Queued (s.enterSendPost answer) [] := .idle (by rw [hstate']; decide)
  have hraised (d : SendPostData) : Queued (s.enterSendPost answer)
      (answer.calls.map Call.event ++ d.pipeEvents answer.chunk) := by
    have hcalls := calls_isError answer
    rcases pipe_cases answer d with ⟨-, hnone⟩ | ⟨-, errors, hpipe, herrors⟩
    · rw [hnone, List.append_nil]
      rcases hevents : answer.calls.map Call.event with _ | ⟨e, events⟩
      · exact hidle
      · have he := hcalls e (by rw [hevents]; exact List.mem_cons_self)
        cases e <;> first | exact .error _ _ | cases he
    · rw [hpipe, ← List.append_assoc]
      refine queued_errors (fun e he => ?_) (finish_row d hstate')
      exact (List.mem_append.mp he).elim (hcalls e) (herrors e)
  revert hidle hraised
  unfold enterSendPost
  split
  · intro hidle _
    exact hqueue ▸ hidle
  · intro hidle _
    exact hqueue ▸ hidle
  · dsimp only
    split
    · intro _ hraised
      have hd := hraised { postInterfaceSize := ‹_› }
      simpa [hqueue] using hd
    · intro _ hraised
      have hd := hraised { postInterfaceSize := ‹_› }
      simpa [hqueue] using hd

/-- Content is read, or there is an error. -/
theorem onEntry_raises (evt : HeadersParsedEvent) :
    (onEntry evt).outputs.filterMap Output.event = [] ∨
      (onEntry evt).next = none ∧ ∃ error : ErrorEvent, error.Plain ∧
        (onEntry evt).outputs.filterMap Output.event = [.error error] := by
  unfold onEntry
  dsimp only
  split_ifs <;> simp [ReadContentData.finish, Output.event, HttpError.plain]

/-- What is raised on entry of a state other than `Error`. -/
theorem OnEntry.queued (h : OnEntry s answer t s') (hqueue : s.queue = [])
    (hstate : s.state = t.state) (ht : t.state ≠ .error) (hcrashed : s'.crashed = false)
    (hterminate : s'.state.isTerminate = false) : Queued s' s'.queue := by
  have hidle (hstate' : s'.state = s.state) (hqueue' : s'.queue = s.queue) :
      Queued s' s'.queue := by
    rw [hqueue', hqueue]
    exact .idle (by rw [hstate', hstate]; exact ht)
  have hraised (errors : List Event) (herrors : ∀ e ∈ errors, e.isError = true) (e : Event)
      (hqueue' : s'.queue = s.queue ++ (errors ++ [e])) (hrow : (s'.row e).isSome = true) :
      Queued s' s'.queue := by
    rw [hqueue', hqueue]
    exact queued_errors herrors hrow
  have hcalls := s.callbackCalls_isError answer
  cases h with
  | badUrl | unsupported | badRedirect | refuse =>
    exact hraised [] (List.forall_mem_nil _) _ rfl (by simp [row, hstate, Target.state])
  | initUrl => exact hraised [] (List.forall_mem_nil _) _ rfl (by simp [row, hstate, Target.state])
  | crash => cases hcrashed
  | proxyConnect url hurl =>
    rw [enterProxyConnect, write_eq] at hidle ⊢
    exact hidle rfl rfl
  | sendHeader url hurl =>
    rw [enterSendHeader, write_eq] at hidle ⊢
    exact hidle rfl rfl
  | sendPost post hpost => exact s.enterSendPost_queued answer hqueue hstate
  | redirectHeaders evt url location hpassed =>
    exact hraised _ hcalls _ rfl (by simp [row, headersReceived, hstate, Target.state])
  | responseHeaders evt parsed hpassed =>
    exact hraised _ hcalls _ rfl (by simp [row, headersReceived, hstate, Target.state])
  | follow evt redirectUrl url =>
    exact hraised [] (List.forall_mem_nil _) _ rfl (by simp [row, hstate, Target.state])
  | readContent evt =>
    have hqueue' : (s.enterReadContent evt).queue =
        s.queue ++ (onEntry evt).outputs.filterMap Output.event := by
      unfold enterReadContent
      dsimp only
      split <;> rfl
    have hstate' := (s.enterReadContent_entered evt).state
    rcases onEntry_raises evt with hnone | ⟨-, error, -, hone⟩
    · exact hidle hstate' (by rw [hqueue', hnone, List.append_nil])
    · exact hraised [] (List.forall_mem_nil _) _ (by rw [hqueue', hone]; rfl)
        (by simp [row, hstate', hstate, Target.state])
  | restart | passOn => exact absurd rfl ht
  | finalError evt =>
    rw [(OnEntry.finalError evt).entered.state, hstate] at hterminate
    cases hterminate
  | complete =>
    rw [OnEntry.complete.entered.state, hstate] at hterminate
    cases hterminate
  | _ => exact hidle rfl rfl

/-- `Error` makes the request again or ends it. -/
theorem OnEntry.error_queue {evt : ErrorEvent} (h : OnEntry s answer (.error evt) s')
    (hcrashed : s'.crashed = false) : ∃ e, s'.queue = s.queue ++ [e] ∧
      (e = .error evt ∨ e = .restart ∧ evt.code = .http .ioTimeout ∧ s.now < s.limit) := by
  cases h with
  | crash => cases hcrashed
  | restart _ hcode hlimit => exact ⟨_, rfl, .inr ⟨rfl, hcode, hlimit⟩⟩
  | passOn => exact ⟨_, rfl, .inl rfl⟩

/-- What waits is not for the state that is left. -/
def Lasting (tasks : List Task) : Prop :=
  (∀ t ∈ tasks, t.lasting = true) ∨ ∃ (evt : ErrorEvent) (errors : List Event) (e : Event),
    (∀ e ∈ errors, e.isError = true) ∧
      tasks = .event (.error evt) :: (errors.map Task.event ++ [.event e])

theorem Lasting.tasked {tasks : List Task} (h : Lasting tasks) : Tasked s tasks := by
  rcases h with hpatient | ⟨evt, errors, e, herrors, rfl⟩
  · exact .patient _ hpatient
  · exact .behind evt errors herrors e

/-! ### Transitions -/

theorem Row.state_ne_error {e : Event} (h : Row s e t) (he : e.isError = false) :
    t.state ≠ .error := by
  cases h with
  | connected => split_ifs <;> nofun
  | tunnelled => split_ifs <;> nofun
  | headersWritten => split_ifs <;> nofun
  | finalError => cases he
  | error => cases he
  | _ => nofun

/-- A transition whose event leaves the right things behind. -/
theorem OnEntry.orderly (h : OnEntry (s.leave t.state) answer t s') (hlog : RowsSuffice s.log)
    (hqueued : s'.crashed = false → s'.state.isTerminate = false → Queued s' s'.queue)
    (htasked : s'.crashed = false → s'.state.isTerminate = false → Tasked s' s'.tasks) :
    Orderly s' := by
  refine ⟨?_, hqueued, htasked, ?_⟩
  · rw [h.entered.state]
    exact t.state_ne_unstarted
  · obtain ⟨later, hlater, hsuffice⟩ := h.unmissing
    rw [hlater, leave_log]
    exact (hlog.append (by simp [RowsSuffice, Entry.isMissing])).append hsuffice

theorem process_terminate (hlog : RowsSuffice s.log) (hstate : s.state.isTerminate = true)
    (e : Event) (answer : Answer) : Orderly (s.process e answer) := by
  unfold process
  rw [if_pos hstate]
  refine ⟨fun hunstarted => ?_, fun _ hlive => absurd (hstate.symm.trans hlive) nofun,
    fun _ hlive => absurd (hstate.symm.trans hlive) nofun, hlog⟩
  rw [hunstarted] at hstate
  cases hstate

/-- An event of the state, when no error waits. -/
theorem process_fits (hlog : RowsSuffice s.log) (hstate : s.state.isTerminate = false)
    (hqueue : s.queue = []) {e : Event} (hrow : (s.row e).isSome = true) (he : e.isError = false)
    (htasks : Lasting s.tasks) (answer : Answer) : Orderly (s.process e answer) := by
  refine process_cases s e answer (fun hend => ?_) (fun _ hnone => ?_)
    fun t s' _ hentered hentry => ?_
  · rw [hstate] at hend
    cases hend
  · rw [hnone] at hrow
    cases hrow
  · refine hentry.orderly hlog (hentry.queued hqueue rfl (hentered.state_ne_error he)) fun _ _ => ?_
    rw [hentry.entered.tasks]
    exact htasks.tasked

/-- An error. -/
theorem process_error (hlog : RowsSuffice s.log) (hstarted : s.state ≠ .unstarted)
    (hstate : s.state.isTerminate = false) {evt : ErrorEvent}
    (hqueue : s.state ≠ .error → s.queue = [] ∨ ∃ evt rest, s.queue = .error evt :: rest)
    (htasks : s.state ≠ .error → Lasting s.tasks ∨ s.queue = [] ∧ ∃ e, s.tasks = [.event e] ∧
      ¬(evt.code = .http .ioTimeout ∧ s.now < s.limit)) (answer : Answer) :
    Orderly (s.process (.error evt) answer) := by
  refine process_cases s _ answer (fun hend => ?_) (fun _ hnone => ?_)
    fun t s' _ hentered hentry => ?_
  · rw [hstate] at hend
    cases hend
  · have hrow := row_isSome_error evt hstarted hstate
    rw [hnone] at hrow
    cases hrow
  cases hentered with
  | finalError _ herror =>
    have hend : s'.state.isTerminate = true := by
      rw [hentry.entered.state]
      rfl
    exact hentry.orderly hlog (fun _ hlive => absurd (hend.symm.trans hlive) nofun)
      fun _ hlive => absurd (hend.symm.trans hlive) nofun
  | error _ _ hne =>
    refine hentry.orderly hlog (fun hcrashed _ => ?_) fun hcrashed _ => ?_
    · obtain ⟨e, hqueue', he⟩ := hentry.error_queue hcrashed
      rw [hqueue', leave_queue]
      rcases hqueue hne with hempty | ⟨evt', rest, herror⟩
      · rw [hempty, List.nil_append]
        refine .fits e ?_
        rcases he with rfl | ⟨rfl, -⟩ <;> simp [row, hentry.entered.state, Target.state]
      · rw [herror]
        exact .error _ _
    · rw [hentry.entered.tasks]
      rcases htasks hne with hlasting | ⟨hempty, e, hone, hfinal⟩
      · exact hlasting.tasked
      · obtain ⟨e', hqueue', he⟩ := hentry.error_queue hcrashed
        rcases he with rfl | ⟨rfl, htimeout⟩
        · exact .ending _ evt [] hentry.entered.state (by rw [hqueue', leave_queue, hempty]; rfl)
        · exact absurd htimeout hfinal

/-! ### Steps -/

/-- The next event of the queue. -/
theorem Orderly.queued_step (h : Orderly s) (hcrashed : s.crashed = false) {e : Event}
    {queue : List Event} (hqueue : s.queue = e :: queue) (hfair : ¬s.Overtakes) (answer : Answer) :
    Orderly ((s.setQueue queue).process e answer) := by
  cases hstate : s.state.isTerminate with
  | true => exact process_terminate (s := s.setQueue queue) h.log hstate e answer
  | false =>
    have hqueued := h.queued hcrashed hstate
    have htasked := h.tasked hcrashed hstate
    rw [hqueue] at hqueued
    have hlasting : s.state ≠ .error ∨ e.isError = false → Lasting s.tasks := by
      intro hcase
      generalize s.tasks = tasks at htasked ⊢
      cases htasked with
      | patient _ hpatient => exact .inl hpatient
      | behind evt errors herrors e => exact .inr ⟨evt, errors, e, herrors, rfl⟩
      | ending _ evt rest hwhere herror =>
        rcases hcase with hne | he
        · exact absurd hwhere hne
        · rw [hqueue, List.cons.injEq] at herror
          rw [herror.1] at he
          cases he
      | event _ hempty => rw [hempty] at hqueue; cases hqueue
      | content _ _ hempty => rw [hempty] at hqueue; cases hqueue
      | pipe _ hempty => rw [hempty] at hqueue; cases hqueue
    cases he : e.isError with
    | false =>
      cases hqueued with
      | fits _ hrow =>
        exact process_fits (s := s.setQueue []) h.log hstate rfl hrow he (hlasting (.inr he)) answer
      | error => cases he
    | true =>
      cases e with
      | error evt =>
        refine process_error (s := s.setQueue queue) h.log h.started hstate (fun hne => ?_)
          (fun hne => .inl (hlasting (.inl hne))) answer
        rcases queue with _ | ⟨e, rest⟩
        · exact .inl rfl
        · cases he' : e.isError with
          | false => exact (hfair ⟨hstate, hne, by simpa [hqueue] using he'⟩).elim
          | true =>
            cases e with
            | error evt' => exact .inr ⟨evt', rest, rfl⟩
            | _ => cases he'
      | _ => cases he

/-- A handler that has nothing left to do but errors and one event of the state. -/
theorem tasked_raised (hqueue : s.queue = []) (errors : List Event)
    (herrors : ∀ e ∈ errors, e.isError = true) {e : Event} (hrow : (s.row e).isSome = true)
    (htasks : s.tasks = errors.map Task.event ++ [.event e]) : Tasked s s.tasks := by
  rw [htasks]
  rcases errors with _ | ⟨e', errors⟩
  · exact .event e hqueue hrow
  · have he' := herrors e' List.mem_cons_self
    cases e' with
    | error evt => exact .behind evt errors (fun e he => herrors e (List.mem_cons_of_mem _ he)) e
    | _ => cases he'

theorem row_congr (hcfg : s'.cfg = s.cfg) (hstate : s'.state = s.state)
    (hisSsl : s'.isSsl = s.isSsl) (e : Event) : s'.row e = s.row e := by
  unfold row proxyConnectRequired currentProxy
  rw [hcfg, hstate, hisSsl]

/-- The transitions stand still. -/
theorem Orderly.keep (h : Orderly s) (hcrashed : s.crashed = false) (hunmoved : Unmoved s s')
    (hqueue : s'.queue = s.queue)
    (htasked : s.state.isTerminate = false → Tasked s' s'.tasks) : Orderly s' := by
  refine ⟨?_, fun _ hlive => ?_, fun _ hlive => ?_, ?_⟩
  · rw [hunmoved.state]
    exact h.started
  · rw [hunmoved.state] at hlive
    have hqueued := h.queued hcrashed hlive
    rw [hqueue]
    generalize s.queue = queue at hqueued ⊢
    cases hqueued with
    | idle hne => exact .idle (by rwa [hunmoved.state])
    | fits e hrow =>
      exact .fits e (by rwa [row_congr hunmoved.cfg hunmoved.state hunmoved.isSsl])
    | error evt rest => exact .error evt rest
  · rw [hunmoved.state] at hlive
    exact htasked hlive
  · obtain ⟨data, hlog, hdata⟩ := hunmoved.log
    rw [hlog]
    refine h.log.append fun entry hmem => ?_
    cases entry <;> first | rfl | cases hdata _ hmem

theorem Orderly.event_step (h : Orderly s) (hcrashed : s.crashed = false) {e : Event}
    {tasks : List Task} (hqueue : s.queue = []) (htasks : s.tasks = .event e :: tasks)
    (hfair : ¬s.Overtakes) (answer : Answer) : Orderly ((s.setTasks tasks).process e answer) := by
  cases hstate : s.state.isTerminate with
  | true => exact process_terminate (s := s.setTasks tasks) h.log hstate e answer
  | false =>
    have htasked := h.tasked hcrashed hstate
    rw [htasks] at htasked
    have herror (evt : ErrorEvent) (hrest : s.state ≠ .error → Lasting tasks ∨ ∃ e,
        tasks = [.event e] ∧ ¬(evt.code = .http .ioTimeout ∧ s.now < s.limit)) :
        Orderly ((s.setTasks tasks).process (.error evt) answer) :=
      process_error (s := s.setTasks tasks) h.log h.started hstate (fun _ => .inl hqueue)
        (fun hne => (hrest hne).imp_right fun hone => ⟨hqueue, hone⟩) answer
    cases htasked with
    | patient _ hpatient =>
      have he : e.isError = true := hpatient _ List.mem_cons_self
      have hrest : Lasting tasks := .inl fun t ht => hpatient t (List.mem_cons_of_mem _ ht)
      cases e with
      | error evt => exact herror evt fun _ => .inl hrest
      | _ => cases he
    | event _ _ hrow =>
      have hrest : Lasting [] := .inl (List.forall_mem_nil _)
      cases he : e.isError with
      | false => exact process_fits (s := s.setTasks []) h.log hstate hqueue hrow he hrest answer
      | true =>
        cases e with
        | error evt => exact herror evt fun _ => .inl hrest
        | _ => cases he
    | behind evt errors herrors e' =>
      refine herror evt fun hne => ?_
      rcases errors with _ | ⟨e'', errors⟩
      · cases he' : e'.isError with
        | true => exact .inl (.inl (by simpa [Task.lasting] using he'))
        | false =>
          refine .inr ⟨e', rfl, fun htimeout => hfair ⟨hstate, hne, ?_⟩⟩
          simpa [hqueue, htasks, he'] using htimeout
      · have he'' := herrors e'' List.mem_cons_self
        cases e'' with
        | error evt' =>
          exact .inl (.inr ⟨evt', errors, e',
            fun e he => herrors e (List.mem_cons_of_mem _ he), rfl⟩)
        | _ => cases he''
    | ending _ _ _ _ hbusy => rw [hqueue] at hbusy; cases hbusy

/-- Behind a task of an owner that needs no state there is no event of the state. -/
theorem Tasked.tail {t : Task} {tasks : List Task} (h : Tasked s (t :: tasks))
    (hqueue : s.queue = []) (howner : t.owner.isSome = true) (ht : t.lasting = true) :
    ∀ t ∈ tasks, t.lasting = true := by
  cases h with
  | patient _ hpatient => exact fun t ht => hpatient t (List.mem_cons_of_mem _ ht)
  | event => cases howner
  | content => cases howner
  | pipe => cases ht
  | behind => cases howner
  | ending _ _ _ _ hbusy => rw [hqueue] at hbusy; cases hbusy

theorem patient_events {events : List Event} (h : ∀ e ∈ events, e.isError = true) :
    ∀ t ∈ events.map Task.event, t.lasting = true := by
  intro t ht
  obtain ⟨e, he, rfl⟩ := List.mem_map.mp ht
  exact h e he

theorem Orderly.task_step (h : Orderly s) (hcrashed : s.crashed = false) {t : Task}
    {tasks : List Task} (hqueue : s.queue = []) (htasks : s.tasks = t :: tasks)
    (hfair : ¬s.Overtakes) (answer : Answer) : Orderly ((s.setTasks tasks).runTask t answer) := by
  have hset := s.setTasks_kept tasks
  have htasked (hlive : s.state.isTerminate = false) : Tasked s (t :: tasks) :=
    htasks ▸ h.tasked hcrashed hlive
  cases t with
  | event e => exact h.event_step hcrashed hqueue htasks hfair answer
  | content startPos buffer =>
    have hunmoved : Unmoved s ((s.setTasks tasks).runTask (.content startPos buffer) answer) :=
      ⟨rfl, rfl, rfl, rfl, rfl, rfl, [.responseContentReceived startPos buffer], rfl,
        by simp [Entry.isData]⟩
    have hcalls := callbackCalls_isError (s.setTasks tasks) answer
    refine h.keep hcrashed hunmoved rfl fun hlive => ?_
    cases htasked hlive with
    | patient _ hpatient =>
      refine .patient _ fun t ht => ?_
      rcases List.mem_append.mp ht with ht | ht
      · exact patient_events hcalls t ht
      · exact hpatient t (List.mem_cons_of_mem _ ht)
    | content _ _ _ hstate =>
      exact tasked_raised hqueue _ hcalls (by simp [row, hunmoved.state, hstate]) rfl
    | ending _ _ _ _ hbusy => rw [hqueue] at hbusy; cases hbusy
  | start owner op =>
    have hkept := startContent_kept (s.setTasks tasks) owner op
    refine h.keep hcrashed (.of_kept (hset.trans hkept)) hkept.queue fun hlive => ?_
    have hsame : ((s.setTasks tasks).startContent owner op).tasks = tasks := by
      unfold startContent
      split_ifs <;> rfl
    rw [Machine.runTask, hsame]
    exact .patient _ ((htasked hlive).tail hqueue rfl rfl)
  | delayPost owner postData =>
    refine h.keep hcrashed (.of_kept (hset.trans (delay_kept _ owner _))) rfl fun hlive => ?_
    exact .patient _ ((htasked hlive).tail hqueue rfl rfl)
  | pipe owner =>
    have hunmoved : Unmoved s ((s.setTasks tasks).postViaInterface owner answer) :=
      ⟨rfl, rfl, rfl, rfl, rfl, rfl, [], (List.append_nil _).symm, List.forall_mem_nil _⟩
    refine h.keep hcrashed hunmoved rfl fun hlive => ?_
    cases htasked hlive with
    | patient _ hpatient => exact absurd (hpatient _ List.mem_cons_self) nofun
    | ending _ _ _ _ hbusy => rw [hqueue] at hbusy; cases hbusy
    | pipe _ _ hstate =>
      have hcalls := calls_isError answer
      rcases pipe_cases answer s.sendPostData with
        ⟨hbytes, hnone⟩ | ⟨hbytes, errors, hpipe, herrors⟩
      · refine .patient _ fun t ht => ?_
        have ht' : t ∈ (answer.calls.map Call.event).map Task.event ∨
            t = .delayPost owner answer.chunk.bytes := by
          simpa [Machine.runTask, postViaInterface, hbytes, hnone] using ht
        rcases ht' with ht' | rfl
        · exact patient_events hcalls t ht'
        · rfl
      · refine tasked_raised hqueue (answer.calls.map Call.event ++ errors) ?_
          (finish_row s.sendPostData hstate) ?_
        · exact fun e he => (List.mem_append.mp he).elim (hcalls e) (herrors e)
        · simp [Machine.runTask, postViaInterface, hbytes, hpipe]

/-- The event of an operation has a row in the state of the operation. -/
theorem raises_row {kind : OpKind} {e : Event} (h : kind.Raises e) (hstate : s.state = kind.home) :
    (s.row e).isSome = true := by
  cases h with
  | error evt =>
    refine row_isSome_error _ ?_ ?_ <;> rw [hstate] <;> cases kind <;> first | rfl | nofun
  | _ => simp [row, hstate, OpKind.home]

theorem Handled.tasked {owner : ℕ} {kind : OpKind} (h : Handled s owner kind s')
    (hstate : s.state = kind.home) (hqueue : s.queue = []) (htasks : s.tasks = []) :
    Tasked s' s'.tasks := by
  have hnone {s' : Machine} (htasks' : s'.tasks = []) : Tasked s' s'.tasks :=
    htasks' ▸ .patient [] (List.forall_mem_nil _)
  have hevent {s' : Machine} (e : Event) (hkept : Kept s s') (htasks' : s'.tasks = [.event e])
      (hrow : (s.row e).isSome = true) : Tasked s' s'.tasks := by
    rw [htasks']
    refine .event e (hkept.queue.trans hqueue) ?_
    rwa [row_congr hkept.cfg hkept.state hkept.isSsl]
  have hkept := h.kept
  cases h with
  | event _ e hraises => exact hevent e hkept (by simp [htasks]) (raises_row hraises hstate)
  | established =>
    exact hevent .connected hkept (by simp [establish, htasks]) (raises_row .tunnelled hstate)
  | proxyRead => exact hnone htasks
  | pipe size hpost =>
    have hone : (s.next [.pipe owner]).tasks = [.pipe owner] := by simp [htasks]
    rw [hone]
    exact .pipe owner hqueue hstate
  | content op received tasks d hcontent =>
    have hsame : ((s.setContent d).next tasks).tasks = tasks := by simp [htasks]
    rw [hsame]
    cases hcontent with
    | last => exact .content _ _ hqueue hstate
    | inflated => exact .content _ _ hqueue hstate
    | finished => exact .event _ hqueue (by simp [row, hstate, OpKind.home])
    | _ => exact .patient _ (by simp [Task.lasting, Event.isError])

theorem Tasked.congr {tasks : List Task} (h : Tasked s tasks) (hkept : Kept s s') :
    Tasked s' tasks := by
  cases h with
  | patient _ hpatient => exact .patient _ hpatient
  | event e hqueue hrow =>
    refine .event e (hkept.queue.trans hqueue) ?_
    rwa [row_congr hkept.cfg hkept.state hkept.isSsl]
  | content startPos buffer hqueue hstate =>
    exact .content _ _ (hkept.queue.trans hqueue) (hkept.state.trans hstate)
  | pipe owner hqueue hstate =>
    exact .pipe owner (hkept.queue.trans hqueue) (hkept.state.trans hstate)
  | behind evt errors herrors e => exact .behind evt errors herrors e
  | ending _ evt rest hstate hqueue =>
    exact .ending _ evt rest (hkept.state.trans hstate) (hkept.queue.trans hqueue)

/-- An error or a start, when no handler runs. -/
theorem Orderly.call_step (h : Orderly s) (hcrashed : s.crashed = false) (hqueue : s.queue = [])
    (htasks : s.tasks = []) {e : Event} (he : e.isError = true ∨ e = .start) :
    Orderly (s.process e {}) := by
  cases hstate : s.state.isTerminate with
  | true => exact process_terminate h.log hstate e {}
  | false =>
    rcases he with he | rfl
    · cases e with
      | error evt =>
        have hrest : Lasting s.tasks := .inl (htasks ▸ List.forall_mem_nil _)
        exact process_error h.log h.started hstate (fun _ => .inl hqueue) (fun _ => .inl hrest) {}
      | _ => cases he
    · refine process_cases s .start {} (fun _ => h) (fun _ _ => ?_) fun t s' _ hentered _ => ?_
      · refine ⟨h.started, fun _ hlive => ?_, fun _ _ => ?_, h.log.append ?_⟩
        · have hqueued := h.queued hcrashed hstate
          rw [record_queue, hqueue]
          rw [hqueue] at hqueued
          cases hqueued with
          | idle hne => exact .idle hne
        · rw [record_tasks, htasks]
          exact .patient [] (List.forall_mem_nil _)
        · simp [RowsSuffice, Entry.isMissing]
      · cases hentered with
        | start hunstarted => exact absurd hunstarted h.started

theorem Orderly.step {a : Act} (h : Orderly s) (hhome : AtHome s)
    (hfair : ∀ answer, a = .proceed answer → ¬s.Overtakes) (hstep : s.step a = some s') :
    Orderly s' := by
  have hcrashed : s.crashed = false := by
    unfold Machine.step at hstep
    split at hstep
    · cases hstep
    · exact Bool.eq_false_iff.mpr ‹_›
  have hkeep {s' : Machine} (hunmoved : Unmoved s s') (hqueue : s'.queue = s.queue)
      (htasks : s'.tasks = []) : Orderly s' :=
    h.keep hcrashed hunmoved hqueue fun _ => htasks ▸ .patient [] (List.forall_mem_nil _)
  cases step_cases hstep with
  | clock elapsed =>
    refine h.keep hcrashed (.of_kept (s.tick_kept elapsed)) rfl fun hlive => ?_
    exact (h.tasked hcrashed hlive).congr (s.tick_kept elapsed)
  | queued e queue answer hqueue =>
    exact h.queued_step hcrashed hqueue (hfair answer rfl) answer
  | task t tasks answer hqueue htasks =>
    exact h.task_step hcrashed hqueue htasks (hfair answer rfl) answer
  | start hqueue htasks => exact h.call_step hcrashed hqueue htasks (.inr rfl)
  | call call hqueue htasks =>
    exact h.call_step hcrashed hqueue htasks (.inl (by cases call <;> rfl))
  | complete i op received err hqueue htasks hop =>
    have hset := s.setOps_kept (s.ops.eraseIdx i)
    refine completed_cases (P := Orderly) _ op received err (hkeep (.of_kept hset) rfl htasks)
      (hkeep (.of_kept (hset.trans (take_kept _ _))) rfl htasks) fun s' hlive _ hhandled => ?_
    have hkept := (hset.trans (take_kept _ op.race)).trans (clearAsyncTimeout_kept _)
    refine h.keep hcrashed (.of_kept (hkept.trans hhandled.kept))
      (hkept.trans hhandled.kept).queue fun _ => ?_
    exact hhandled.tasked (hhome.ops op (List.mem_of_getElem? hop) hlive) hqueue htasks
  | timer i t err hqueue htasks ht hcompletes =>
    have hset := s.setTimers_kept (s.timers.eraseIdx i)
    have htaken := hset.trans (take_kept _ t.race)
    refine timedOut_cases (P := Orderly) _ t err (hkeep (.of_kept hset) rfl htasks)
      (hkeep (.of_kept htaken) rfl htasks) fun _ _ => ?_
    refine h.keep hcrashed (.of_kept (htaken.trans (next_kept _ _))) rfl fun _ => ?_
    exact .patient _ (by simp [htasks, Task.lasting, Event.isError])
  | delay i d err hqueue htasks hd =>
    have hset := s.setDelays_kept (s.delays.eraseIdx i)
    refine delayed_cases (P := Orderly) _ d err (hkeep (.of_kept hset) rfl htasks)
      (fun postData _ _ => ?_) fun op next enabled _ _ _ => ?_
    · exact hkeep ⟨rfl, rfl, rfl, rfl, rfl, rfl, [.wrotePost postData], rfl,
        by simp [Entry.isData]⟩ rfl htasks
    · exact hkeep ⟨rfl, rfl, rfl, rfl, rfl, rfl, [], (List.append_nil _).symm,
        List.forall_mem_nil _⟩ rfl htasks

theorem orderly_start (cfg : Config) (time : ℕ) :
    Orderly ((create cfg time).process .start {}) := by
  have hrow : (create cfg time).row .start = some .initializing := rfl
  have hlog : RowsSuffice (create cfg time).log := fun _ hmem => absurd hmem List.not_mem_nil
  have hentry := enter_cases ((create cfg time).leave .initializing) {} .initializing
  unfold process
  rw [if_neg (by simp [create, StateName.isTerminate]), hrow]
  show Orderly (((create cfg time).leave .initializing).enter .initializing {})
  refine hentry.orderly (t := .initializing) hlog (hentry.queued rfl rfl nofun) fun _ _ => ?_
  rw [hentry.entered.tasks]
  exact .patient [] (List.forall_mem_nil _)

end Orderly

/-! ### Runs -/

/-- A request in which no error overtakes an event has a row for each of its events. -/
theorem run_rowsSuffice {cfg : Config} {time : ℕ} {acts : List Act}
    (h : Along step (fun s a _ => ∀ answer, a = .proceed answer → ¬s.Overtakes)
      (create cfg time) (.start :: acts)) :
    Always step (fun s => RowsSuffice s.log) (create cfg time) (.start :: acts) := by
  refine ⟨List.forall_mem_nil _, fun s hstart => ?_⟩
  cases hstart
  obtain ⟨-, hrest⟩ := h _ rfl
  have hstarted := orderly_start cfg time
  have hall : Always step (fun s => RowsSuffice s.log) _ acts :=
    Always.of_guarded (I := fun s => Orderly s ∧ AtHome s ∧ Numbered s) (fun s hs => hs.1.log)
      (fun s a s' hs hfair hstep =>
        ⟨hs.1.step hs.2.1 hfair hstep, hs.2.1.step hs.2.2 hstep, hs.2.2.step hstep⟩)
      ⟨hstarted, (atHome_create cfg time).process (numbered_create cfg time) _ _,
        (numbered_create cfg time).process _ _⟩ hrest
  exact ⟨hall.1, hall.2⟩

/-- A request for a URL, with the callbacks inside of the handlers. -/
def getPlain : Machine :=
  create { originalUrl := "http://h/", gunzip := fun _ => .ok [] } 0

/-- A response arrives, and its headers are passed on. -/
def headersArrive (answer : Answer) : List Act :=
  [.start, .proceed {}, .complete 0 [] none, .proceed {}, .complete 0 [] none, .proceed {},
    .complete 0 [] none, .proceed {},
    .complete 0 "HTTP/1.1 200 OK\r\nContent-Length: 0\r\n\r\n".toUTF8.toList none,
    .proceed answer, .proceed {}, .proceed {}]

theorem run_rowsSuffice_headers :
    (run step getPlain (headersArrive { calls := [.cancel, .cancel] })).isSome = true ∧
      Always step (fun s => RowsSuffice s.log) getPlain
        (headersArrive { calls := [.cancel, .cancel] }) := by
  refine ⟨by decide +kernel, run_rowsSuffice
    (along_of_check (p := fun s _ => !decide s.Overtakes) ?_ ?_)⟩
  · intro s a s' hcheck answer _ hovertakes
    simp [hovertakes] at hcheck
  · decide +kernel

/-- The callback that gets the headers cancels the request once. The parsed headers are processed
in the state `Error`. -/
theorem not_rowsSuffice_cancelled :
    ¬Always step (fun s => RowsSuffice s.log) getPlain (headersArrive { calls := [.cancel] }) := by
  intro h
  have hmissing : ((run step getPlain (headersArrive { calls := [.cancel] })).map
      fun s => decide (RowsSuffice s.log)) = some false := by
    decide +kernel
  obtain ⟨s, hs, hlog⟩ := Option.map_eq_some_iff.mp hmissing
  exact of_decide_eq_false hlog (h.last hs)

end Machine

end MediafireSdk.Http
