import MediafireSdk.Http.Tasks

/-! The end of a request. Whatever its operations, its timers and its user do, the callback is
told at most once that the request is over, and nothing afterwards. Content that a handler is
about to pass on comes before anything else of the handler, while the state is still that of the
handler's data. -/

namespace MediafireSdk.Http

open Runs

/-! ### What the callback gets -/

/-- `RequestResponseErrorEvent` and `RequestResponseCompleteEvent`. -/
def Entry.isTerminal : Entry → Bool
  | .requestResponseErrorEvent _ | .requestResponseCompleteEvent => true
  | _ => false

/-- A call of the callback. -/
def Entry.isCallback : Entry → Bool
  | .redirectHeaderReceived _ _ | .responseHeaderReceived _ | .responseContentReceived _ _ => true
  | entry => entry.isTerminal

/-- Behind a terminal callback there is no callback at all. -/
def EndsOnce (log : List Entry) : Prop :=
  log.Pairwise fun entry later => entry.isTerminal = true → later.isCallback = false

/-- Entries behind a log without a terminal one: at most one of them is terminal, at the end. -/
theorem EndsOnce.append {log entries : List Entry} (h : EndsOnce log)
    (hopen : ∀ entry ∈ log, entry.isTerminal = false) (hentries : EndsOnce entries) :
    EndsOnce (log ++ entries) := by
  refine List.pairwise_append.mpr ⟨h, hentries, fun entry hentry later _ hterminal => ?_⟩
  rw [hopen entry hentry] at hterminal
  cases hterminal

/-- Entries behind any log that are no callbacks. -/
theorem EndsOnce.append_other {log : List Entry} (h : EndsOnce log) {entry : Entry}
    (hentry : entry.isCallback = false) : EndsOnce (log ++ [entry]) := by
  refine List.pairwise_append.mpr ⟨h, List.pairwise_singleton _ _, fun _ _ later hlater _ => ?_⟩
  rw [List.mem_singleton.mp hlater, hentry]

theorem endsOnce_of_length {entries : List Entry} (h : entries.length ≤ 1) : EndsOnce entries := by
  rcases entries with _ | ⟨entry, _ | ⟨_, _⟩⟩
  · exact .nil
  · exact List.pairwise_singleton _ entry
  · simp at h

def Task.isContent : Task → Bool
  | .content _ _ => true
  | _ => false

namespace Machine

/-! ### The invariant -/

/-- No content is about to be passed on. -/
def NoContent (tasks : List Task) : Prop := ∀ t ∈ tasks, t.isContent = false

structure Ending (s : Machine) : Prop where
  once : EndsOnce s.log
  /-- Before the end. -/
  pending : s.state.isTerminate = false → ∀ entry ∈ s.log, entry.isTerminal = false
  live : s.state.isTerminate = true → s.live = none
  ended : s.state.isTerminate = true → NoContent s.tasks
  busy : s.queue ≠ [] → NoContent s.tasks
  head : NoContent s.tasks.tail

theorem length_written (s : Machine) (request : Request) : (s.written request).length ≤ 1 := by
  unfold written
  cases s.socket <;> simp

theorem written_isTerminal {s : Machine} {request : Request} :
    ∀ entry ∈ s.written request, entry.isTerminal = false := by
  intro entry h
  obtain ⟨socket, _, rfl⟩ := Option.map_eq_some_iff.mp (Option.mem_toList.mp h)
  rfl

/-- What is logged on entry: a terminal callback only in a terminate state. -/
theorem OnEntry.ending {s s' : Machine} {answer : Answer} {t : Target}
    (h : OnEntry s answer t s') :
    ∃ entries, s'.log = s.log ++ entries ∧ entries.length ≤ 1 ∧
      (t.state.isTerminate = false → ∀ entry ∈ entries, entry.isTerminal = false) ∧
      (t.state.isTerminate = true → s'.live = s.live) := by
  cases h with
  | sendPost post h =>
    exact ⟨post.entries, s.enterSendPost_log answer h, by
      cases post <;> simp [Post.entries, Target.state, StateName.isTerminate, Entry.isTerminal]⟩
  | proxyConnect url h =>
    exact ⟨_, s.enterProxyConnect_log url, s.length_written _, fun _ => written_isTerminal,
      by rintro ⟨⟩⟩
  | sendHeader url h =>
    exact ⟨_, s.enterSendHeader_log url, s.length_written _, fun _ => written_isTerminal,
      by rintro ⟨⟩⟩
  | finalError evt =>
    exact ⟨[_], s.enterFinalError_log answer evt, le_rfl, by rintro ⟨⟩, fun _ => by simp⟩
  | complete => exact ⟨[_], s.enterComplete_log answer, le_rfl, by rintro ⟨⟩, fun _ => rfl⟩
  | _ => simp [Target.state, StateName.isTerminate, Entry.isTerminal]

/-! ### Transitions -/

/-- No content is left, whatever the state. -/
theorem Ending.of_noContent {s : Machine} (hlog : EndsOnce s.log)
    (hpending : s.state.isTerminate = false → ∀ entry ∈ s.log, entry.isTerminal = false)
    (hlive : s.state.isTerminate = true → s.live = none) (htasks : NoContent s.tasks) :
    Ending s where
  once := hlog
  pending := hpending
  live := hlive
  ended _ := htasks
  busy _ := htasks
  head t ht := htasks t (List.mem_of_mem_tail ht)

theorem Ending.record_other {s : Machine} (h : Ending s) (htasks : NoContent s.tasks)
    {entry : Entry} (hentry : entry.isCallback = false) (hterminal : entry.isTerminal = false) :
    Ending (s.record entry) := by
  refine .of_noContent (h.once.append_other hentry) ?_ h.live htasks
  intro hstate entry' hmem
  rw [record_log] at hmem
  rcases List.mem_append.mp hmem with hmem | hmem
  · exact h.pending hstate entry' hmem
  · rw [List.mem_singleton.mp hmem]
    exact hterminal

theorem Ending.process {s : Machine} (h : Ending s) (htasks : NoContent s.tasks) (e : Event)
    (answer : Answer) : Ending (s.process e answer) := by
  refine process_cases s e answer (fun _ => h) (fun _ _ => ?_) (fun t s' hstate _ hentry => ?_)
  · exact h.record_other htasks rfl rfl
  · obtain ⟨entries, hlog, hlength, hterminal, hlive⟩ := hentry.ending
    have hentered := hentry.entered
    have hpending : ∀ entry ∈ s.log ++ [.entered s.state t.state], entry.isTerminal = false := by
      intro entry hmem
      rcases List.mem_append.mp hmem with hmem | hmem
      · exact h.pending hstate entry hmem
      · rw [List.mem_singleton.mp hmem]; rfl
    rw [leave_log] at hlog
    refine .of_noContent ?_ (fun hstate' => ?_) (fun hstate' => ?_) ?_
    · rw [hlog]
      exact (h.once.append_other rfl).append hpending (endsOnce_of_length hlength)
    · rw [hentered.state] at hstate'
      intro entry hmem
      rw [hlog] at hmem
      rcases List.mem_append.mp hmem with hmem | hmem
      · exact hpending entry hmem
      · exact hterminal hstate' entry hmem
    · rw [hentered.state] at hstate'
      exact hlive hstate'
    · rw [hentered.tasks]
      exact htasks

/-! ### Steps -/

/-- Handlers that change only their own data and the tasks. -/
theorem Ending.kept {s s' : Machine} (h : Ending s) (hkept : Kept s s')
    (hended : s.state.isTerminate = true → NoContent s'.tasks)
    (hbusy : s.queue ≠ [] → NoContent s'.tasks) (hhead : NoContent s'.tasks.tail) : Ending s' where
  once := by rw [hkept.log]; exact h.once
  pending := by rw [hkept.state, hkept.log]; exact h.pending
  live := by rw [hkept.state, hkept.live]; exact h.live
  ended := by rw [hkept.state]; exact hended
  busy := by rw [hkept.queue]; exact hbusy
  head := hhead

theorem Ending.kept_noContent {s s' : Machine} (h : Ending s) (hkept : Kept s s')
    (htasks : NoContent s'.tasks) : Ending s' :=
  h.kept hkept (fun _ => htasks) (fun _ => htasks) fun t ht => htasks t (List.mem_of_mem_tail ht)

theorem noContent_events (events : List Event) : NoContent (events.map Task.event) := by
  intro t ht
  obtain ⟨e, _, rfl⟩ := List.mem_map.mp ht
  rfl

theorem NoContent.append {tasks tasks' : List Task} (h : NoContent tasks) (h' : NoContent tasks') :
    NoContent (tasks ++ tasks') := by
  intro t ht
  rcases List.mem_append.mp ht with ht | ht
  · exact h t ht
  · exact h' t ht

theorem noContent_nil : NoContent [] := fun _ h => absurd h List.not_mem_nil

theorem ContentTasks.tail {owner total : ℕ} {d d' : ReadContentData} {tasks : List Task}
    (h : ContentTasks owner d total tasks d') : NoContent tasks.tail := by
  cases h <;> simp [NoContent, Task.isContent]

/-- The tasks of a handler, of which the first alone may be content. -/
theorem Handled.tasks_tail {s s' : Machine} {owner : ℕ} {kind : OpKind} (hs : s.tasks = [])
    (h : Handled s owner kind s') : NoContent s'.tasks.tail := by
  cases h with
  | event e h => simp [hs, NoContent]
  | established => simp [establish, hs, NoContent]
  | proxyRead => simp [hs, NoContent]
  | pipe size h => simp [hs, NoContent]
  | content op received tasks d h => simpa [hs] using h.tail

theorem Ending.task {s : Machine} {t : Task} {tasks : List Task} (h : Ending s)
    (htasks : s.tasks = t :: tasks) (answer : Answer) :
    Ending ((s.setTasks tasks).runTask t answer) := by
  have hrest : NoContent tasks := by simpa [htasks] using h.head
  have hs : Ending (s.setTasks tasks) := .of_noContent h.once h.pending h.live hrest
  cases t with
  | event e => exact hs.process hrest e answer
  | content startPos buffer =>
    have hstate : s.state.isTerminate = false := by
      by_contra hstate
      have hcontent := h.ended (Bool.not_eq_false _ ▸ hstate) (.content startPos buffer)
      simp [htasks, Task.isContent] at hcontent
    simp only [runTask]
    refine .of_noContent ?_ (fun _ entry hmem => ?_) hs.live ((noContent_events _).append hrest)
    · exact h.once.append (h.pending hstate) (List.pairwise_singleton _ _)
    · rcases List.mem_append.mp hmem with hmem | hmem
      · exact h.pending hstate entry hmem
      · rw [List.mem_singleton.mp hmem]; rfl
  | start owner op =>
    refine hs.kept_noContent (startContent_kept _ owner op) ?_
    simp only [runTask, startContent]
    split <;> exact hrest
  | delayPost owner postData => exact hs.kept_noContent (delay_kept _ owner _) hrest
  | pipe owner =>
    have hpipe : Ending ((s.setTasks tasks).readPipe answer.chunk.bytes) :=
      .of_noContent h.once h.pending h.live hrest
    simp only [runTask, postViaInterface]
    refine hpipe.kept_noContent (next_kept _ _) ?_
    refine ((noContent_events _).append ?_).append hrest
    split <;> simp [NoContent, Task.isContent]

theorem Ending.step {s s' : Machine} {a : Act} (h : Ending s) (hstep : s.step a = some s') :
    Ending s' := by
  cases step_cases hstep with
  | clock elapsed => exact .mk h.once h.pending h.live h.ended h.busy h.head
  | queued e queue answer hqueue =>
    have htasks := h.busy (by rw [hqueue]; exact List.cons_ne_nil e queue)
    have hs : Ending (s.setQueue queue) := .of_noContent h.once h.pending h.live htasks
    exact hs.process htasks e answer
  | task t tasks answer hqueue htasks => exact h.task htasks answer
  | start hqueue htasks => exact h.process (htasks ▸ noContent_nil) _ _
  | call call hqueue htasks => exact h.process (htasks ▸ noContent_nil) _ _
  | complete i op received err hqueue htasks hop =>
    have hs : Ending (s.setOps (s.ops.eraseIdx i)) :=
      .mk h.once h.pending h.live h.ended h.busy h.head
    have hnone : NoContent s.tasks := htasks ▸ noContent_nil
    refine completed_cases _ op received err hs (hs.kept_noContent (take_kept _ _) hnone) ?_
    intro s' hlive _ hhandled
    have hkept := ((take_kept _ _).trans (clearAsyncTimeout_kept _)).trans hhandled.kept
    have hstate : s.state.isTerminate ≠ true := fun hstate => by
      rw [setOps_live, h.live hstate] at hlive
      cases hlive
    exact hs.kept hkept (fun hstate' => absurd hstate' hstate) (fun hne => absurd hqueue hne)
      (Handled.tasks_tail (by exact htasks) hhandled)
  | timer i t err hqueue htasks ht hcompletes =>
    have hs : Ending (s.setTimers (s.timers.eraseIdx i)) :=
      .mk h.once h.pending h.live h.ended h.busy h.head
    refine hs.kept_noContent (timedOut_kept _ t err) ?_
    refine timedOut_cases (P := fun s => NoContent s.tasks) _ t err ?_ ?_ fun _ _ => ?_
    all_goals simp [htasks, NoContent, Task.isContent]
  | delay i d err hqueue htasks hd =>
    have hs : Ending (s.setDelays (s.delays.eraseIdx i)) :=
      .mk h.once h.pending h.live h.ended h.busy h.head
    have hnone : NoContent s.tasks := htasks ▸ noContent_nil
    refine delayed_cases _ d err hs (fun postData _ _ => ?_) (fun op next enabled _ _ _ => ?_)
    · have henabled : Ending ((s.setDelays (s.delays.eraseIdx i)).setDelayTimerEnabled false) :=
        hs.kept_noContent (setDelayTimerEnabled_kept _ _) hnone
      exact (henabled.record_other hnone rfl rfl).kept_noContent (async_kept _ _ _ _ _) hnone
    · exact hs.kept_noContent ((setDelayTimerEnabled_kept _ _).trans (async_kept _ _ _ _ _)) hnone

theorem ending_create (cfg : Config) (time : ℕ) : Ending (create cfg time) where
  once := .nil
  pending _ := fun _ h => absurd h List.not_mem_nil
  live _ := rfl
  ended _ := noContent_nil
  busy _ := noContent_nil
  head := noContent_nil

/-- One terminal callback in any run, and no callback after it. -/
theorem run_endsOnce (cfg : Config) (time : ℕ) (acts : List Act) :
    Always Machine.step (fun s => EndsOnce s.log) (create cfg time) acts :=
  Always.of_guarded (fun _ h => Ending.once h) (fun _ _ _ h _ hstep => h.step hstep)
    (ending_create cfg time) along_true

end Machine

end MediafireSdk.Http
