import MediafireSdk.Http.ArmedTimeouts
import MediafireSdk.Http.Overtaking

/-! Which timeouts make a request again. A timer whose race preventer is not taken guards the
operation that the state waits for, and nothing else is left to do then. From `SendHeader` on such
a timer does not run out before the time is over in which the request is made again. -/

namespace MediafireSdk.Http

/-! ### What waits -/

/-- `Fail` with the error of a timer. -/
def Call.isTimeout : Call → Bool
  | .fail code _ => code = .http .ioTimeout
  | .cancel => false

/-- What the user's code calls in a step. -/
def Act.calls : Act → List Call
  | .call c => [c]
  | .proceed answer => answer.calls
  | _ => []

/-- The states before `SendHeader`. -/
def StateName.isUnsent : StateName → Bool
  | .unstarted | .initializing | .resolve | .connect | .proxyConnect | .sslHandshake => true
  | _ => false

/-- Neither an error nor the end. -/
def StateName.isOpen : StateName → Bool
  | .error | .finalError | .complete => false
  | _ => true

def Entry.isResponse : Entry → Bool
  | .responseHeaderReceived _ => true
  | _ => false

/-- How often `ResponseHeaderReceived` was dispatched. -/
def responsesIn (log : List Entry) : ℕ := log.countP Entry.isResponse

/-- An event that can come last of what waits. -/
structure Event.Lasts (log : List Entry) (e : Event) : Prop where
  isError : e.isError = false
  restart : e ≠ .restart
  redirect : ∀ evt redirectUrl, e = .redirect evt redirectUrl → responsesIn log = 0

namespace Machine

/-- What waits in a state that is open: one thing, content in front of it, or an error that ends
the request in front of anything. The error of a timer waits alone. -/
inductive Todo (s : Machine) : List Task → Prop
  | none : Todo s []
  | event (e : Event) (h : e.Lasts s.log) : Todo s [.event e]
  | error (evt : ErrorEvent) (hplain : evt.Plain) (rest : List Task)
      (hrest : .event .restart ∉ rest) : Todo s (.event (.error evt) :: rest)
  | timeout (evt : ErrorEvent) (hlimit : s.state.isUnsent = false → s.limit ≤ s.now) :
      Todo s [.event (.error evt)]
  | owned (t : Task) (owner : ℕ) (howner : t.owner = some owner) (hlive : s.live = some owner) :
      Todo s [t]
  | content (startPos : ℕ) (buffer : Buffer) (t : Task) (hstate : s.state = .readContent)
      (h : Todo s [t]) :
      Todo s [.content startPos buffer, t]

/-- An error waits behind events that do not make the request again. -/
inductive Failed : List Task → Prop
  | error (evt : ErrorEvent) (rest : List Task) : Failed (.event (.error evt) :: rest)
  | behind (e : Event) (rest : List Task) (he : e ≠ .restart) (h : Failed rest) :
      Failed (.event e :: rest)

/-- Every timer has been beaten or has acted. -/
def Spent (s : Machine) : Prop := ∀ t ∈ s.timers, t.race ∈ s.taken

/-- The timer of the operation that is waited for. -/
structure Current (s : Machine) (t : Timeout) : Prop where
  idle : s.pending = []
  running : t.wait = .running
  op : ∃ op ∈ s.ops, op.race = t.race ∧ s.live = some op.owner
  limit : s.state.isUnsent = false → s.limit ≤ t.deadline

/-- The request is made again, or it ends. -/
inductive Failing (s : Machine) : Prop
  | again (h : s.pending = [.event .restart]) (hspent : Spent s)
  | ends (h : Failed s.pending)

structure Paced (s : Machine) : Prop where
  begun : s.requestCreationTime ≤ s.now
  unstarted : s.state = .unstarted → s.pending = [] ∧ s.timers = [] ∧ s.live = none
  todo : s.state.isOpen = true → Todo s s.pending
  timers : s.state.isOpen = true → ∀ t ∈ s.timers, t.race ∈ s.taken ∨ Current s t
  failing : s.crashed = false → s.state = .error → Failing s

section Paced
variable {s s' : Machine} {answer : Answer} {t : Target}

theorem isOpen_of_ne (herror : s.state ≠ .error) (hlive : s.state.isTerminate = false) :
    s.state.isOpen = true := by
  revert herror hlive
  cases s.state <;> simp [StateName.isOpen, StateName.isTerminate]

theorem pending_of_queue {e : Event} {queue : List Event} (h : s.queue = e :: queue) :
    s.pending = .event e :: (s.setQueue queue).pending := by
  simp [pending, h]

theorem pending_of_task {t : Task} {tasks : List Task} (hqueue : s.queue = [])
    (h : s.tasks = t :: tasks) : s.pending = t :: (s.setTasks tasks).pending := by
  simp [pending, hqueue, h]

/-- While something waits every timer is spent. -/
theorem Paced.spent (h : Paced s) (hstate : s.state.isOpen = true) (hpending : s.pending ≠ []) :
    Spent s := fun t ht => (h.timers hstate t ht).resolve_right fun hcurrent =>
  hpending hcurrent.idle

theorem todo_idle (h : s.pending = []) : Todo s s.pending := by
  rw [h]
  exact .none

theorem Todo.not_restart {tasks : List Task} (h : Todo s tasks) : .event .restart ∉ tasks := by
  induction h with
  | none => exact List.not_mem_nil
  | event e h => simpa using Ne.symm h.restart
  | error evt hplain rest hrest => simpa using hrest
  | timeout evt hlimit => simp
  | owned t owner howner hlive =>
    rw [List.mem_singleton]
    rintro rfl
    cases howner
  | content startPos buffer t hreading h ih => simpa using ih

/-- Only the clock went on, and no response has come. -/
theorem Todo.congr {tasks : List Task} (h : Todo s tasks) (hstate : s'.state = s.state)
    (hlive : s'.live = s.live) (hlimit : s'.limit = s.limit) (hnow : s.now ≤ s'.now)
    (hlog : responsesIn s'.log = responsesIn s.log) : Todo s' tasks := by
  induction h with
  | none => exact .none
  | event e h =>
    exact .event e ⟨h.isError, h.restart, fun evt redirectUrl he =>
      hlog.trans (h.redirect evt redirectUrl he)⟩
  | error evt hplain rest hrest => exact .error evt hplain rest hrest
  | timeout evt hover =>
    refine .timeout evt fun hunsent => ?_
    rw [hstate] at hunsent
    exact hlimit.trans_le ((hover hunsent).trans hnow)
  | owned t owner howner hown => exact .owned t owner howner (hlive.trans hown)
  | content startPos buffer t hreading h ih =>
    exact .content startPos buffer t (hstate.trans hreading) ih

theorem Todo.kept {tasks : List Task} (h : Todo s tasks) (hkept : Kept s s') : Todo s' tasks :=
  h.congr hkept.state hkept.live (by rw [limit, limit, hkept.cfg, hkept.requestCreationTime])
    hkept.now (by rw [hkept.log])

/-- The calls of the user, and something behind them. -/
theorem todo_calls {events : List Event} (hevents : ∀ e ∈ events, ∃ evt : ErrorEvent,
      evt.Plain ∧ e = .error evt) {tasks : List Task} (h : Todo s tasks) :
    Todo s (events.map Task.event ++ tasks) := by
  rcases events with _ | ⟨e, events⟩
  · exact h
  · obtain ⟨evt, hplain, rfl⟩ := hevents e List.mem_cons_self
    refine .error evt hplain _ fun hmem => ?_
    rcases List.mem_append.mp hmem with hmem | hmem
    · obtain ⟨e, he, heq⟩ := List.mem_map.mp hmem
      obtain ⟨evt', -, rfl⟩ := hevents e (List.mem_cons_of_mem _ he)
      cases heq
    · exact h.not_restart hmem

theorem call_plain {call : Call} (h : call.isTimeout = false) :
    ∃ evt : ErrorEvent, evt.Plain ∧ call.event = .error evt := by
  cases call with
  | cancel => exact ⟨_, by simp [ErrorEvent.Plain], rfl⟩
  | fail code description =>
    exact ⟨_, by simpa [Call.isTimeout, ErrorEvent.Plain] using h, rfl⟩

theorem calls_plain (h : ∀ call ∈ answer.calls, call.isTimeout = false) :
    ∀ e ∈ answer.calls.map Call.event, ∃ evt : ErrorEvent, evt.Plain ∧ e = .error evt := by
  intro e he
  obtain ⟨call, hcall, rfl⟩ := List.mem_map.mp he
  exact call_plain (h call hcall)

theorem callbackCalls_plain (s : Machine) (h : ∀ call ∈ answer.calls, call.isTimeout = false) :
    ∀ e ∈ s.callbackCalls answer, ∃ evt : ErrorEvent, evt.Plain ∧ e = .error evt := by
  unfold callbackCalls
  split_ifs
  · exact calls_plain h
  · exact fun _ he => absurd he List.not_mem_nil

theorem crashed_of_step {a : Act} (hstep : s.step a = some s') : s.crashed = false := by
  unfold step at hstep
  split at hstep
  · cases hstep
  · exact Bool.eq_false_iff.mpr ‹_›

/-! ### Ways to be paced -/

theorem Paced.of_terminate (hbegun : s.requestCreationTime ≤ s.now)
    (hstate : s.state.isTerminate = true) : Paced s := by
  refine ⟨hbegun, fun h => ?_, fun h => ?_, fun h => ?_, fun _ h => ?_⟩
  all_goals
    revert hstate
  · rw [h]
    nofun
  · revert h
    cases s.state <;> nofun
  · revert h
    cases s.state <;> nofun
  · rw [h]
    nofun

/-- No timer is left that could act. -/
theorem Paced.of_spent (hbegun : s.requestCreationTime ≤ s.now) (hstarted : s.state ≠ .unstarted)
    (herror : s.state ≠ .error) (hspent : Spent s)
    (htodo : s.state.isOpen = true → Todo s s.pending) : Paced s :=
  ⟨hbegun, fun h => absurd h hstarted, htodo, fun _ t ht => .inl (hspent t ht),
    fun _ h => absurd h herror⟩

/-- One operation is waited for, with its timer. -/
theorem Paced.of_armed (hbegun : s.requestCreationTime ≤ s.now) (hstarted : s.state ≠ .unstarted)
    (herror : s.state ≠ .error) (hspent : Spent s) (hpending : s.pending = []) {owner : ℕ}
    (hlive : s.live = some owner) (reason : String) {timeoutSeconds : ℕ} (kind : OpKind)
    (htimeout : s.state.isUnsent = false → timeoutSeconds = s.cfg.timeoutSeconds) :
    Paced (s.async owner reason timeoutSeconds kind) := by
  refine ⟨hbegun, fun h => absurd h hstarted, fun _ => ?_, fun _ t ht => ?_,
    fun _ h => absurd h herror⟩
  · exact todo_idle (s := s.async owner reason timeoutSeconds kind) hpending
  · rcases List.mem_append.mp ht with ht | ht
    · obtain ⟨t', ht', rfl⟩ := List.mem_map.mp ht
      exact .inl ((cancel_race _ _).symm ▸ hspent t' ht')
    · rw [List.mem_singleton.mp ht]
      refine .inr ⟨hpending, rfl, ⟨_, List.mem_append_right _ (List.mem_singleton_self _), rfl,
        hlive⟩, fun hunsent => ?_⟩
      have hsame := htimeout hunsent
      exact hsame ▸ Nat.add_le_add_right hbegun _

/-! ### Transitions -/

theorem pending_raised (hpending : s.pending = []) {events : List Event}
    (hqueue : s'.queue = s.queue ++ events) (htasks : s'.tasks = s.tasks) :
    s'.pending = events.map Task.event := by
  obtain ⟨hempty, hnone⟩ := List.append_eq_nil_iff.mp hpending
  rw [pending, hqueue, htasks, List.map_append, hempty, hnone, List.nil_append, List.append_nil]

/-- Nothing was armed. -/
theorem Spent.of_same (h : Spent s) (htimers : s'.timers = s.timers) (htaken : s'.taken = s.taken) :
    Spent s' := by
  unfold Spent
  rw [htimers, htaken]
  exact h

theorem Paced.beginAsync (hbegun : s.requestCreationTime ≤ s.now) (hstarted : s.state ≠ .unstarted)
    (herror : s.state ≠ .error) (hspent : Spent s) (hpending : s.pending = []) (reason : String)
    {timeoutSeconds : ℕ} (kind : OpKind)
    (htimeout : s.state.isUnsent = false → timeoutSeconds = s.cfg.timeoutSeconds) :
    Paced (s.beginAsync reason timeoutSeconds kind) := by
  have hspent' : Spent s.begin := hspent
  have hpending' : s.begin.pending = [] := hpending
  exact Paced.of_armed (s := s.begin) hbegun hstarted herror hspent' hpending' rfl reason kind
    htimeout

theorem lasts_finish (log : List Entry) (d : SendPostData) (h : d.finish.isError = false) :
    d.finish.Lasts log := by
  unfold SendPostData.finish at h ⊢
  split_ifs with hsize
  · exact ⟨rfl, nofun, nofun⟩
  · rw [if_neg hsize] at h
    cases h

/-- Events of the pipe, and a chunk behind them that waits for its delay. -/
theorem todo_pipe (d : SendPostData) {tasks : List Task}
    (h : answer.chunk.bytes ≠ [] → Todo s tasks) (hnone : answer.chunk.bytes = [] → tasks = [])
    (hcalls : ∀ call ∈ answer.calls, call.isTimeout = false) :
    Todo s ((answer.calls.map Call.event ++ d.pipeEvents answer.chunk).map Task.event ++ tasks) := by
  have hfinish : Todo s [.event d.finish] := by
    cases he : d.finish.isError with
    | false => exact .event _ (lasts_finish _ d he)
    | true =>
      unfold SendPostData.finish at he ⊢
      split_ifs at he ⊢
      · cases he
      · exact .error _ (by simp [ErrorEvent.Plain, postSizeError]) [] List.not_mem_nil
  rw [List.map_append, List.append_assoc]
  refine todo_calls (calls_plain hcalls) ?_
  cases hchunk : answer.chunk with
  | data bytes =>
    rw [hchunk] at h hnone
    by_cases hbytes : bytes = []
    · rw [hnone hbytes]
      simpa [SendPostData.pipeEvents, hbytes] using hfinish
    · simpa [SendPostData.pipeEvents, hbytes] using h hbytes
  | throws what =>
    rw [hchunk] at hnone
    rw [hnone rfl]
    refine .error _ (by simp [ErrorEvent.Plain, postReadError]) _ ?_
    simpa using hfinish.not_restart

theorem enterSendPost_paced (hbegun : s.requestCreationTime ≤ s.now) (hstate : s.state = .sendPost)
    (hspent : Spent s) (hpending : s.pending = [])
    (hcalls : ∀ call ∈ answer.calls, call.isTimeout = false) : Paced (s.enterSendPost answer) := by
  have hstarted : s.state ≠ .unstarted := by rw [hstate]; nofun
  have herror : s.state ≠ .error := by rw [hstate]; nofun
  obtain ⟨hqueue, htasks⟩ := List.append_eq_nil_iff.mp hpending
  unfold enterSendPost
  split
  case h_1 =>
    exact .of_spent hbegun hstarted herror hspent fun _ => todo_idle (s := s.crash) hpending
  case h_2 postData _ =>
    exact Paced.beginAsync (s := { s.record (.wrotePost postData) with sendPostData := {} }) hbegun
      hstarted herror hspent hpending "write request post" .postWrite fun _ => rfl
  case h_3 size _ =>
    have htodo (u : Machine) := todo_pipe (s := u) { postInterfaceSize := size }
      (fun _ => .none) (fun _ => rfl) hcalls
    dsimp only
    split
    · refine .of_spent hbegun hstarted herror hspent fun _ => ?_
      simpa [pending, hqueue, htasks] using htodo _
    · refine .of_spent hbegun hstarted herror hspent fun _ => ?_
      simpa [pending, hqueue, htasks] using htodo _

theorem enterReadContent_paced (evt : HeadersParsedEvent) (hbegun : s.requestCreationTime ≤ s.now)
    (hstate : s.state = .readContent) (hspent : Spent s) (hpending : s.pending = []) :
    Paced (s.enterReadContent evt) := by
  have hstarted : s.state ≠ .unstarted := by rw [hstate]; nofun
  have herror : s.state ≠ .error := by rw [hstate]; nofun
  obtain ⟨hqueue, htasks⟩ := List.append_eq_nil_iff.mp hpending
  unfold enterReadContent
  dsimp only
  rcases onEntry_raises evt with hnone | ⟨hnext, error, hplain, hone⟩
  · rw [hnone]
    generalize hu : (raiseAll _ _ : Machine) = u
    have hpending' : u.pending = [] := by
      subst hu
      simp [pending, hqueue, htasks]
    have hstarted' : u.state ≠ .unstarted := by subst hu; exact hstarted
    have herror' : u.state ≠ .error := by subst hu; exact herror
    have hspent' : Spent u := by subst hu; exact hspent
    have hbegun' : u.requestCreationTime ≤ u.now := by subst hu; exact hbegun
    split
    · exact .of_spent hbegun' hstarted' herror' hspent' fun _ => todo_idle hpending'
    · have hlive : u.live = some s.fresh := by subst hu; rfl
      exact .of_armed hbegun' hstarted' herror' hspent' hpending' hlive _ _ fun _ => by
        subst hu
        rfl
  · rw [hnext, hone]
    refine .of_spent hbegun hstarted herror hspent fun _ => ?_
    have htodo (u : Machine) : Todo u [.event (.error error)] :=
      .error error hplain [] List.not_mem_nil
    simpa [pending, hqueue, htasks] using htodo _

/-- A transition to any state but `Error` with nothing behind its event. -/
theorem OnEntry.paced (h : OnEntry s answer t s') (hbegun : s.requestCreationTime ≤ s.now)
    (hstate : s.state = t.state) (ht : t.state ≠ .error) (hspent : Spent s)
    (hpending : s.pending = []) (hcalls : ∀ call ∈ answer.calls, call.isTimeout = false)
    (hresponses : t.state = .parseHeaders → responsesIn s.log = 0) : Paced s' := by
  have hstarted : s.state ≠ .unstarted := hstate ▸ t.state_ne_unstarted
  have herror : s.state ≠ .error := hstate ▸ ht
  have hraised {u : Machine} (events : List Event) (hentered : Entered s u)
      (hqueue : u.queue = s.queue ++ events) (htimers : u.timers = s.timers)
      (htodo : Todo u (events.map Task.event)) : Paced u := by
    refine .of_spent ?_ (hentered.state ▸ hstarted) (hentered.state ▸ herror)
      (hspent.of_same htimers hentered.taken) fun _ => ?_
    · rw [hentered.requestCreationTime, hentered.now]
      exact hbegun
    · rwa [pending_raised hpending hqueue hentered.tasks]
  have hentered := h.entered
  have hfails {u : Machine} (evt : ErrorEvent) (hplain : evt.Plain) :
      Todo u [.event (.error evt)] := .error evt hplain [] List.not_mem_nil
  have hcallbacks := s.callbackCalls_plain hcalls
  cases h with
  | badUrl hurl =>
    exact hraised [_] hentered rfl rfl (hfails _ (by simp [ErrorEvent.Plain, badUrlError]))
  | initUrl url hurl hscheme =>
    exact hraised [_] hentered rfl rfl (.event _ ⟨rfl, by rintro ⟨⟩, by rintro _ _ ⟨⟩⟩)
  | unsupported url hurl hhttp hhttps =>
    exact hraised [_] hentered rfl rfl
      (hfails _ (by simp [ErrorEvent.Plain, unsupportedSchemeError]))
  | crash => exact hraised [] hentered (List.append_nil _).symm rfl .none
  | resolve url hurl =>
    exact Paced.beginAsync (s := s.record (.resolving url)) hbegun hstarted herror hspent hpending
      _ _ fun hunsent => absurd (hstate ▸ hunsent) (by rintro ⟨⟩)
  | connect endpoint url hurl =>
    exact Paced.beginAsync (s := (s.setProxy endpoint.proxy).record (.connecting url)) hbegun
      hstarted herror hspent hpending _ _ fun hunsent => absurd (hstate ▸ hunsent) (by rintro ⟨⟩)
  | proxyConnect url hurl =>
    rw [enterProxyConnect, write_eq]
    generalize s.log ++ _ = log
    exact Paced.beginAsync (s := { s with log := log }) hbegun hstarted herror hspent hpending
      _ _ fun hunsent => absurd (hstate ▸ hunsent) (by rintro ⟨⟩)
  | sslHandshake =>
    exact Paced.beginAsync hbegun hstarted herror hspent hpending _ _ fun hunsent =>
      absurd (hstate ▸ hunsent) (by rintro ⟨⟩)
  | sendHeader url hurl =>
    rw [enterSendHeader, write_eq]
    generalize s.log ++ _ = log
    exact Paced.beginAsync (s := { s with log := log }) hbegun hstarted herror hspent hpending
      _ _ fun _ => rfl
  | sendPost post hpost => exact enterSendPost_paced hbegun hstate hspent hpending hcalls
  | readHeaders =>
    exact Paced.beginAsync hbegun hstarted herror hspent hpending _ _ fun _ => rfl
  | badRedirect evt problem =>
    exact hraised [_] hentered rfl rfl (hfails _ (by simp [ErrorEvent.Plain, badRedirectError]))
  | redirectHeaders evt url location hpassed =>
    refine hraised _ hentered rfl rfl ?_
    rw [List.map_append]
    refine todo_calls hcallbacks (.event _ ⟨rfl, by rintro ⟨⟩, fun _ _ _ => ?_⟩)
    simpa [responsesIn, Entry.isResponse] using hresponses rfl
  | responseHeaders evt parsed hpassed =>
    refine hraised _ hentered rfl rfl ?_
    rw [List.map_append]
    exact todo_calls hcallbacks (.event _ ⟨rfl, by rintro ⟨⟩, by rintro _ _ ⟨⟩⟩)
  | refuse evt redirectUrl code target problem hcode =>
    exact hraised [_] hentered rfl rfl
      (hfails _ (by simpa [ErrorEvent.Plain, redirectError] using hcode))
  | follow evt redirectUrl url =>
    exact hraised [_] hentered rfl rfl (.event _ ⟨rfl, by rintro ⟨⟩, by rintro _ _ ⟨⟩⟩)
  | readContent evt => exact enterReadContent_paced evt hbegun hstate hspent hpending
  | restart | passOn => exact absurd rfl ht
  | finalError evt =>
    refine .of_terminate ?_ (by rw [hentered.state, hstate]; rfl)
    rw [hentered.requestCreationTime, hentered.now]
    exact hbegun
  | complete => exact .of_terminate hbegun (by rw [hentered.state, hstate]; rfl)

/-- The row of an event that comes last. -/
theorem paced_row {e : Event} (hbegun : s.requestCreationTime ≤ s.now) (hspent : Spent s)
    (hpending : s.pending = []) (hrow : Row s e t) (he : e.isError = false)
    (hentry : OnEntry (s.leave t.state) answer t s')
    (hcalls : ∀ call ∈ answer.calls, call.isTimeout = false)
    (hresponses : s.state = .readHeaders → responsesIn s.log = 0) : Paced s' := by
  refine hentry.paced hbegun rfl (hrow.state_ne_error he) hspent hpending hcalls fun ht => ?_
  have hlog : responsesIn (s.leave t.state).log = responsesIn s.log := by
    simp [responsesIn, Entry.isResponse]
  rw [hlog]
  refine hresponses ?_
  cases hrow with
  | headersRead evt h => exact h
  | connected | tunnelled | headersWritten => split_ifs at ht <;> cases ht
  | _ => cases ht

/-- An error in a state that is open. -/
theorem paced_error {evt : ErrorEvent} (hbegun : s.requestCreationTime ≤ s.now)
    (hopen : s.state.isOpen = true) (hstarted : s.state ≠ .unstarted)
    (hrest : .event .restart ∉ s.pending)
    (hagain : evt.code = .http .ioTimeout → s.now < s.limit → s.pending = [] ∧ Spent s) :
    Paced (s.process (.error evt) answer) := by
  refine process_cases s _ answer (fun hend => .of_terminate hbegun hend) (fun hlive hnone => ?_)
    fun t s' _ hrow hentry => ?_
  · have hsome := row_isSome_error evt hstarted hlive
    rw [hnone] at hsome
    cases hsome
  cases hrow with
  | finalError _ herror =>
    rw [herror] at hopen
    cases hopen
  | error =>
    have hentered := hentry.entered
    have hstate : s'.state = .error := hentered.state
    refine ⟨?_, fun h => ?_, fun h => ?_, fun h => ?_, fun hcrashed _ => ?_⟩
    · rw [hentered.requestCreationTime, hentered.now]
      exact hbegun
    · rw [hstate] at h
      cases h
    · rw [hstate] at h
      cases h
    · rw [hstate] at h
      cases h
    · cases hentry with
      | crash => cases hcrashed
      | restart _ hcode hlimit =>
        obtain ⟨hpending, hspent⟩ := hagain hcode hlimit
        have hraised :
            ((s.leave .error).disconnect.raiseAll [.restart]).pending =
              [Event.restart].map Task.event :=
          pending_raised (s := s.leave .error) hpending rfl rfl
        exact .again hraised hspent
      | passOn =>
        refine .ends ?_
        have hfailed (queue : List Event) (h : ∀ e ∈ queue, e ≠ .restart) :
            Failed ((queue ++ [Event.error evt]).map Task.event ++ s.tasks) := by
          induction queue with
          | nil => exact .error evt s.tasks
          | cons e queue ih =>
            exact .behind e _ (h e List.mem_cons_self)
              (ih fun e he => h e (List.mem_cons_of_mem _ he))
        refine hfailed s.queue fun e he heq => hrest ?_
        exact List.mem_append_left _ (List.mem_map_of_mem (heq ▸ he))

/-- An error behind which nothing makes the request again. -/
theorem Failed.process (hbegun : s.requestCreationTime ≤ s.now) (hstate : s.state = .error)
    {e : Event} (h : Failed (.event e :: s.pending)) : Paced (s.process e answer) := by
  refine process_cases s e answer (fun hend => .of_terminate hbegun hend) (fun _ hnone => ?_)
    fun t s' _ hrow hentry => ?_
  · refine ⟨hbegun, fun h => ?_, fun h => ?_, fun h => ?_, fun _ _ => ?_⟩
    · rw [record_state, hstate] at h
      cases h
    · rw [record_state, hstate] at h
      cases h
    · rw [record_state, hstate] at h
      cases h
    · cases h with
      | error evt =>
        simp [row, hstate] at hnone
      | behind _ _ _ h => exact .ends h
  · have hend : t.state.isTerminate = true := by
      cases h with
      | error evt =>
        cases hrow with
        | finalError => rfl
        | error _ _ hne => exact absurd hstate hne
      | behind _ _ he h =>
        cases hrow with
        | restart => exact absurd rfl he
        | finalError => rfl
        | error _ _ hne => exact absurd hstate hne
        | _ => simp_all
    refine .of_terminate ?_ (by rw [hentry.entered.state]; exact hend)
    rw [hentry.entered.requestCreationTime, hentry.entered.now]
    exact hbegun

/-- The next event, and what waits behind it. -/
inductive Comes (s : Machine) : Event → List Task → Prop
  | last (e : Event) (h : e.Lasts s.log) (hopen : s.state.isOpen = true) (hspent : Spent s) :
      Comes s e []
  | restart (hstate : s.state = .error) (hspent : Spent s) : Comes s .restart []
  | error (evt : ErrorEvent) (rest : List Task) (hopen : s.state.isOpen = true) (hspent : Spent s)
      (hrest : .event .restart ∉ rest)
      (hagain : evt.code = .http .ioTimeout → s.now < s.limit →
        s.state.isUnsent = true ∧ rest = []) : Comes s (.error evt) rest
  | failed (e : Event) (rest : List Task) (hstate : s.state = .error)
      (h : Failed (.event e :: rest)) : Comes s e rest

theorem Paced.comes (h : Paced s) (hcrashed : s.crashed = false)
    (hlive : s.state.isTerminate = false) {e : Event} {rest : List Task}
    (hpending : s.pending = .event e :: rest) : Comes s e rest := by
  have hbusy : s.pending ≠ [] := hpending ▸ List.cons_ne_nil _ _
  by_cases herror : s.state = .error
  · cases h.failing hcrashed herror with
    | again hone hspent =>
      rw [hpending] at hone
      cases hone
      exact .restart herror hspent
    | ends hfailed => exact .failed e rest herror (hpending ▸ hfailed)
  · have hopen := isOpen_of_ne herror hlive
    have hspent := h.spent hopen hbusy
    have htodo := h.todo hopen
    rw [hpending] at htodo
    cases htodo with
    | event _ hlasts => exact .last e hlasts hopen hspent
    | error evt hplain _ hrest =>
      exact .error evt rest hopen hspent hrest fun hcode => absurd hcode hplain
    | timeout evt hlimit =>
      refine .error evt [] hopen hspent List.not_mem_nil fun _ hearly => ⟨?_, rfl⟩
      by_contra hsent
      exact absurd (hlimit (Bool.eq_false_iff.mpr hsent)) (not_le.mpr hearly)
    | owned _ owner howner => cases howner

theorem Comes.drop {e : Event} {rest : List Task} (h : Comes s e rest) (queue : List Event)
    (tasks : List Task) : Comes ((s.setQueue queue).setTasks tasks) e rest := by
  cases h with
  | last _ hlasts hopen hspent => exact .last e hlasts hopen hspent
  | restart hstate hspent => exact .restart hstate hspent
  | error evt _ hopen hspent hrest hagain => exact .error evt rest hopen hspent hrest hagain
  | failed _ _ hstate hfailed => exact .failed e rest hstate hfailed

/-- The next event of what waits. -/
theorem Paced.next (queue : List Event) (tasks : List Task) (h : Paced s)
    (hcrashed : s.crashed = false) {e : Event}
    (hpending : s.pending = .event e :: ((s.setQueue queue).setTasks tasks).pending)
    (hcalls : ∀ call ∈ answer.calls, call.isTimeout = false)
    (hresponses : s.state = .readHeaders → responsesIn s.log = 0) :
    Paced (((s.setQueue queue).setTasks tasks).process e answer) := by
  have hstarted : s.state ≠ .unstarted := fun hstate => by
    rw [(h.unstarted hstate).1] at hpending
    cases hpending
  have hbegun := h.begun
  have hcomes := fun hlive => (h.comes hcrashed hlive hpending).drop queue tasks
  have hstarted' : ((s.setQueue queue).setTasks tasks).state ≠ .unstarted := hstarted
  have hresponses' : ((s.setQueue queue).setTasks tasks).state = .readHeaders →
    responsesIn ((s.setQueue queue).setTasks tasks).log = 0 := hresponses
  have hbegun' : ((s.setQueue queue).setTasks tasks).requestCreationTime ≤
    ((s.setQueue queue).setTasks tasks).now := hbegun
  have hlive' : ((s.setQueue queue).setTasks tasks).state.isTerminate = s.state.isTerminate := rfl
  generalize (s.setQueue queue).setTasks tasks = u at *
  cases hlive : u.state.isTerminate with
  | true =>
    rw [process, if_pos hlive]
    exact .of_terminate hbegun' hlive
  | false =>
    have hnext := hcomes (hlive'.symm.trans hlive)
    generalize hrest : u.pending = rest at hnext
    cases hnext with
    | last _ hlasts hopen hspent =>
      refine process_cases u e answer (fun hend => .of_terminate hbegun' hend) (fun _ _ => ?_)
        fun t s' _ hrow hentry => ?_
      · refine .of_spent hbegun' hstarted' (fun herror => ?_) hspent fun _ => todo_idle hrest
        rw [show u.state = .error from herror] at hopen
        cases hopen
      · exact paced_row hbegun' hspent hrest hrow hlasts.isError hentry hcalls hresponses'
    | restart herror hspent =>
      refine process_cases u .restart answer (fun hend => .of_terminate hbegun' hend)
        (fun _ hnone => ?_) fun t s' _ hrow hentry => ?_
      · simp [row, herror] at hnone
      · exact paced_row hbegun' hspent hrest hrow rfl hentry hcalls hresponses'
    | error evt _ hopen hspent hnot hagain =>
      exact paced_error hbegun' hopen hstarted' (hrest ▸ hnot) fun hcode hlimit =>
        ⟨hrest.trans (hagain hcode hlimit).2, hspent⟩
    | failed _ _ herror hfailed => exact Failed.process hbegun' herror (hrest ▸ hfailed)

/-! ### Steps -/

/-- In `Error` something waits. -/
theorem Paced.not_error (h : Paced s) (hcrashed : s.crashed = false) (hidle : s.pending = []) :
    s.state ≠ .error := fun hstate => by
  cases h.failing hcrashed hstate with
  | again hone =>
    rw [hidle] at hone
    cases hone
  | ends hfailed =>
    rw [hidle] at hfailed
    cases hfailed

/-- In `Error` an event comes next. -/
theorem Paced.not_error_of_task (h : Paced s) (hcrashed : s.crashed = false) {t : Task}
    {tasks : List Task} (hpending : s.pending = t :: tasks) (ht : ∀ e, t ≠ .event e) :
    s.state ≠ .error := fun hstate => by
  cases h.failing hcrashed hstate with
  | again hone =>
    rw [hpending] at hone
    exact ht _ (List.cons.inj hone).1
  | ends hfailed =>
    rw [hpending] at hfailed
    cases hfailed with
    | error evt => exact ht _ rfl
    | behind e => exact ht e rfl

/-- Nothing waits, and what is waited for is still there. -/
theorem Paced.keep (h : Paced s) (hcrashed : s.crashed = false) (hidle : s.pending = [])
    (hkept : Kept s s') (hidle' : s'.pending = []) (htimers : s'.timers ⊆ s.timers)
    (htaken : s.taken ⊆ s'.taken)
    (hops : ∀ op ∈ s.ops, s.live = some op.owner → op.race ∉ s'.taken → op ∈ s'.ops) :
    Paced s' := by
  refine ⟨?_, fun hstate => ?_, fun _ => hidle' ▸ .none, fun hopen t ht => ?_, fun _ hstate => ?_⟩
  · rw [hkept.requestCreationTime]
    exact h.begun.trans hkept.now
  · obtain ⟨-, hnone, hlive⟩ := h.unstarted (hkept.state ▸ hstate)
    exact ⟨hidle', List.subset_nil.mp (hnone ▸ htimers), hkept.live.trans hlive⟩
  · refine or_iff_not_imp_left.mpr fun hfirst => ?_
    have hcurrent := (h.timers (hkept.state ▸ hopen) t (htimers ht)).resolve_left fun hmem =>
      hfirst (htaken hmem)
    obtain ⟨op, hop, hrace, hlive⟩ := hcurrent.op
    refine ⟨hidle', hcurrent.running, ⟨op, hops op hop hlive (hrace ▸ hfirst), hrace,
      hkept.live.trans hlive⟩, fun hunsent => ?_⟩
    rw [limit, hkept.cfg, hkept.requestCreationTime]
    exact hcurrent.limit (hkept.state ▸ hunsent)
  · exact absurd (hkept.state ▸ hstate) (h.not_error hcrashed hidle)

/-- What is waited for is one operation. -/
theorem Current.race_eq {t : Timeout} (h : Current s t) {i : ℕ} {op : Op} (hop : s.ops[i]? = some op)
    (hfree : ∀ op ∈ s.ops.eraseIdx i, s.live ≠ some op.owner) : t.race = op.race := by
  obtain ⟨op', hop', hrace, hlive⟩ := h.op
  by_contra hne
  have hother : op' ≠ op := fun heq => hne (heq ▸ hrace.symm)
  exact hfree op' (mem_eraseIdx_of_ne hop hop' hother) hlive

theorem Paced.tick (h : Paced s) (elapsed : ℕ) : Paced (s.tick elapsed) := by
  have hkept := s.tick_kept elapsed
  refine ⟨h.begun.trans hkept.now, h.unstarted, fun hopen => (h.todo hopen).kept hkept,
    fun hopen t ht => (h.timers hopen t ht).imp_right fun hcurrent =>
      ⟨hcurrent.idle, hcurrent.running, hcurrent.op, hcurrent.limit⟩, fun hcrashed hstate => ?_⟩
  cases h.failing hcrashed hstate with
  | again hone hspent => exact .again hone hspent
  | ends hfailed => exact .ends hfailed

/-- An event that nothing waits for. -/
theorem Paced.record (h : Paced s) (hcrashed : s.crashed = false) (hidle : s.pending = [])
    (entry : Entry) : Paced (s.record entry) :=
  ⟨h.begun, h.unstarted, fun _ => todo_idle (s := s.record entry) hidle,
    fun hopen t ht => (h.timers hopen t ht).imp_right fun hcurrent =>
      ⟨hcurrent.idle, hcurrent.running, hcurrent.op, hcurrent.limit⟩,
    fun _ hstate => absurd hstate (h.not_error hcrashed hidle)⟩

/-- The handler of the operation that is waited for, or a timer in its place. -/
theorem Paced.of_handled (h : Paced s) (hcrashed : s.crashed = false) (hidle : s.pending = [])
    (hstarted : s.state ≠ .unstarted) (hkept : Kept s s')
    (hspent : Spent s') (htodo : Todo s' s'.pending) : Paced s' := by
  refine .of_spent ?_ (hkept.state ▸ hstarted) ?_ hspent fun _ => htodo
  · rw [hkept.requestCreationTime]
    exact h.begun.trans hkept.now
  · rw [hkept.state]
    exact h.not_error hcrashed hidle

theorem todo_raises {kind : OpKind} {e : Event} (h : kind.Raises e) : Todo s [.event e] := by
  cases h with
  | error _ evt hplain => exact .error evt hplain [] List.not_mem_nil
  | _ => exact .event _ ⟨rfl, nofun, nofun⟩

theorem todo_content {owner total : ℕ} {d d' : ReadContentData} {tasks : List Task}
    (h : ContentTasks owner d total tasks d') (hlive : s.live = some owner)
    (hstate : s.state = .readContent) : Todo s tasks := by
  have hread : Todo s [.event .contentRead] := .event _ ⟨rfl, nofun, nofun⟩
  have hfailed (evt : ErrorEvent) (hplain : evt.Plain) : Todo s [.event (.error evt)] :=
    .error evt hplain [] List.not_mem_nil
  have hstart (op : AsyncOp) : Todo s [.start owner op] := .owned _ owner rfl hlive
  cases h with
  | ignored => exact .none
  | failed evt _ hplain => exact hfailed evt hplain
  | exceeded buffer evt _ hplain _ => exact .content _ _ _ hstate (hfailed evt hplain)
  | last => exact .content _ _ _ hstate hread
  | inflated => exact .content _ _ _ hstate hread
  | finished => exact hread
  | more buffer op => exact .content _ _ _ hstate (hstart op)
  | further op => exact hstart op

theorem Handled.todo {owner : ℕ} {kind : OpKind} (h : Handled s owner kind s')
    (hqueue : s.queue = []) (htasks : s.tasks = []) (hlive : s.live = some owner)
    (hstate : s.state = kind.home) : Todo s' s'.pending := by
  cases h with
  | event _ e hraises =>
    rw [pending_next hqueue htasks]
    exact todo_raises hraises
  | established =>
    rw [pending_next (by exact hqueue) (by exact htasks)]
    exact todo_raises .tunnelled
  | proxyRead =>
    rw [pending_of_idle (by exact hqueue) (by exact htasks)]
    exact .none
  | pipe size hpost =>
    rw [pending_next hqueue htasks]
    exact .owned _ owner rfl hlive
  | content op received tasks d hcontent =>
    rw [pending_next (by exact hqueue) (by exact htasks)]
    exact todo_content hcontent hlive hstate

/-- What the handlers of operations do to the timers, other than that of a proxy's. -/
theorem Handled.same {owner : ℕ} {kind : OpKind} (h : Handled s owner kind s')
    (hkind : kind ≠ .proxyWrite) : s'.timers = s.timers ∧ s'.taken = s.taken := by
  cases h with
  | proxyRead => exact absurd rfl hkind
  | _ => exact ⟨rfl, rfl⟩

theorem Paced.completed {i : ℕ} {op : Op} (h : Paced s) (hcrashed : s.crashed = false)
    (hlone : Lone s) (hhome : AtHome s) (hlive : s.state.isTerminate = false)
    (hqueue : s.queue = []) (htasks : s.tasks = []) (hop : s.ops[i]? = some op)
    (received : List UInt8) (err : Option IoError) :
    Paced ((s.setOps (s.ops.eraseIdx i)).completed op received err) := by
  have hidle := pending_of_idle hqueue htasks
  have hset := s.setOps_kept (s.ops.eraseIdx i)
  unfold Machine.completed
  split_ifs with hnot hfirst
  · -- What is waited for is another operation.
    have hops (op' : Op) (hop' : op' ∈ s.ops) (howner : s.live = some op'.owner) :
        op' ∈ s.ops.eraseIdx i :=
      mem_eraseIdx_of_ne hop hop' fun heq => hnot (heq ▸ howner)
    split
    · exact h.keep hcrashed hidle (hset.trans (take_kept _ _)) hidle (List.Subset.refl _)
        (List.subset_cons_self _ _) fun op' hop' howner _ => hops op' hop' howner
    · exact h.keep hcrashed hidle hset hidle (List.Subset.refl _) (List.Subset.refl _)
        fun op' hop' howner _ => hops op' hop' howner
  · exact h.keep hcrashed hidle hset hidle (List.Subset.refl _) (List.Subset.refl _)
      fun op' hop' _ hfirst' => mem_eraseIdx_of_ne hop hop' fun heq => hfirst' (heq ▸ hfirst)
  · have howner : s.live = some op.owner := not_not.mp hnot
    have hstarted : s.state ≠ .unstarted := fun hstate => by
      rw [(h.unstarted hstate).2.2] at howner
      cases howner
    have hopen := isOpen_of_ne (h.not_error hcrashed hidle) hlive
    have hload := load_dropOp hop op.owner
    have hone := hlone.one op.owner
    rw [if_pos rfl] at hload
    have hzero : (s.setOps (s.ops.eraseIdx i)).load op.owner = 0 := by omega
    have hfree := ops_of_load hzero howner
    generalize hu : ((s.setOps (s.ops.eraseIdx i)).take op.race).clearAsyncTimeout = u
    have hkept : Kept s u := hu ▸ (hset.trans (take_kept _ _)).trans (clearAsyncTimeout_kept _)
    have hspent : Spent u := by
      subst hu
      intro t ht
      obtain ⟨t', ht', rfl⟩ := List.mem_map.mp ht
      rw [cancel_race]
      rcases h.timers hopen t' ht' with hmem | hcurrent
      · exact List.mem_cons_of_mem _ hmem
      · exact hcurrent.race_eq hop hfree ▸ List.mem_cons_self
    have hlive' : u.live = some op.owner := hkept.live.trans howner
    have hqueue' : u.queue = [] := hkept.queue.trans hqueue
    have htasks' : u.tasks = [] := by subst hu; exact htasks
    have hhandled := u.handle_cases op.owner op.kind received err
    have hstate := hhome.ops op (List.mem_of_getElem? hop) howner
    by_cases hkind : op.kind = .proxyWrite
    · rw [hkind] at hhandled hstate ⊢
      generalize u.handle op.owner .proxyWrite received err = s' at hhandled ⊢
      cases hhandled with
      | event _ e hraises =>
        refine h.of_handled hcrashed hidle hstarted (hkept.trans (next_kept _ _)) hspent ?_
        rw [pending_next hqueue' htasks']
        exact todo_raises hraises
      | proxyRead =>
        refine .of_armed ?_ (hkept.state ▸ hstarted) ?_ hspent (pending_of_idle hqueue' htasks')
          hlive' _ _ fun hunsent => ?_
        · rw [hkept.requestCreationTime]
          exact h.begun.trans hkept.now
        · rw [hkept.state]
          exact h.not_error hcrashed hidle
        · rw [hkept.state, hstate] at hunsent
          cases hunsent
    · obtain ⟨htimers, htaken⟩ := hhandled.same hkind
      exact h.of_handled hcrashed hidle hstarted (hkept.trans hhandled.kept)
        (hspent.of_same htimers htaken)
        (hhandled.todo hqueue' htasks' hlive' (hkept.state.trans hstate))

theorem Paced.timedOut {i : ℕ} {t : Timeout} {err : Bool} (h : Paced s)
    (hcrashed : s.crashed = false) (hlone : Lone s) (hlive : s.state.isTerminate = false)
    (hqueue : s.queue = []) (htasks : s.tasks = []) (ht : s.timers[i]? = some t)
    (hcompletes : t.completes s.now err = true) :
    Paced ((s.setTimers (s.timers.eraseIdx i)).timedOut t err) := by
  have hidle := pending_of_idle hqueue htasks
  have hset := s.setTimers_kept (s.timers.eraseIdx i)
  have hfewer := (List.eraseIdx_sublist s.timers i).subset
  have hmem := List.mem_of_getElem? ht
  by_cases hfirst : t.race ∈ s.taken
  · rw [Machine.timedOut, if_pos (by exact hfirst)]
    exact h.keep hcrashed hidle hset hidle hfewer (List.Subset.refl _) fun op hop _ _ => hop
  · have hopen := isOpen_of_ne (h.not_error hcrashed hidle) hlive
    have hcurrent := (h.timers hopen t hmem).resolve_left hfirst
    obtain ⟨op, hop, hrace, howner⟩ := hcurrent.op
    have hstarted : s.state ≠ .unstarted := fun hstate => by
      rw [(h.unstarted hstate).2.2] at howner
      cases howner
    obtain ⟨j, hj⟩ := List.getElem?_of_mem hop
    have hload := load_dropOp hj op.owner
    have hone := hlone.one op.owner
    rw [if_pos rfl] at hload
    have hzero : (s.setOps (s.ops.eraseIdx j)).load op.owner = 0 := by omega
    have hfree := ops_of_load hzero howner
    have hspent : Spent ((s.setTimers (s.timers.eraseIdx i)).take t.race) := fun t' ht' => by
      rcases h.timers hopen t' (hfewer ht') with hmem' | hcurrent'
      · exact List.mem_cons_of_mem _ hmem'
      · rw [hcurrent'.race_eq hj hfree, hrace]
        exact List.mem_cons_self
    have hkept := hset.trans (take_kept _ t.race)
    refine timedOut_cases (P := Paced) _ t err
      (h.keep hcrashed hidle hset hidle hfewer (List.Subset.refl _) fun op hop _ _ => hop)
      (h.of_handled hcrashed hidle hstarted hkept hspent ?_) fun _ herr => ?_
    · rw [pending_of_idle (by exact hqueue) (by exact htasks)]
      exact .none
    · refine h.of_handled hcrashed hidle hstarted (hkept.trans (next_kept _ _)) hspent ?_
      rw [pending_next (by exact hqueue) (by exact htasks)]
      refine .timeout _ fun hunsent => ?_
      have hover : t.deadline ≤ s.now := by
        simpa [Timeout.completes, hcurrent.running, herr] using hcompletes
      exact (hcurrent.limit hunsent).trans hover

theorem Paced.delayed {i : ℕ} {d : Delay} (h : Paced s) (hcrashed : s.crashed = false)
    (hlone : Lone s) (hlive : s.state.isTerminate = false) (hqueue : s.queue = [])
    (htasks : s.tasks = []) (hd : s.delays[i]? = some d) (err : Bool) :
    Paced ((s.setDelays (s.delays.eraseIdx i)).delayed d err) := by
  have hidle := pending_of_idle hqueue htasks
  have herror := h.not_error hcrashed hidle
  have hset := s.setDelays_kept (s.delays.eraseIdx i)
  have hload := load_dropDelay hd d.owner
  have hone := hlone.one d.owner
  rw [if_pos rfl] at hload
  have hzero : (s.setDelays (s.delays.eraseIdx i)).load d.owner = 0 := by omega
  -- Nothing is armed for the data that the delay was for.
  have hspent (howner : s.live = some d.owner) : Spent s := fun t ht => by
    refine (h.timers (isOpen_of_ne herror hlive) t ht).resolve_right fun hcurrent => ?_
    obtain ⟨op, hop, -, hlive'⟩ := hcurrent.op
    exact ops_of_load hzero howner op hop hlive'
  have hstarted (howner : s.live = some d.owner) : s.state ≠ .unstarted := fun hstate => by
    rw [(h.unstarted hstate).2.2] at howner
    cases howner
  refine delayed_cases (P := Paced) _ d err
    (h.keep hcrashed hidle hset hidle (List.Subset.refl _) (List.Subset.refl _)
      fun op hop _ _ => hop) (fun postData howner _ => ?_) fun op next enabled howner _ _ => ?_
  · exact Paced.of_armed (s := ((s.setDelays (s.delays.eraseIdx i)).setDelayTimerEnabled
      false).record (.wrotePost postData)) h.begun (hstarted howner) herror (hspent howner) hidle
      howner _ _ fun _ => rfl
  · exact Paced.of_armed (s := (s.setDelays (s.delays.eraseIdx i)).setDelayTimerEnabled enabled)
      h.begun (hstarted howner) herror (hspent howner) hidle howner _ _ fun _ => rfl

theorem Paced.task {t : Task} {tasks : List Task} (h : Paced s) (hcrashed : s.crashed = false)
    (hlive : s.state.isTerminate = false) (hqueue : s.queue = []) (htasks : s.tasks = t :: tasks)
    (hcalls : ∀ call ∈ answer.calls, call.isTimeout = false)
    (hresponses : s.state = .readHeaders → responsesIn s.log = 0) :
    Paced ((s.setTasks tasks).runTask t answer) := by
  have hpending : s.pending = t :: tasks := by simp [pending, hqueue, htasks]
  have hbusy : s.pending ≠ [] := hpending ▸ List.cons_ne_nil _ _
  have hstarted : s.state ≠ .unstarted := fun hstate => hbusy (h.unstarted hstate).1
  by_cases he : ∃ e, t = .event e
  · obtain ⟨e, rfl⟩ := he
    exact h.next s.queue tasks hcrashed
      (by simp [pending, hqueue, htasks]) hcalls hresponses
  have herror := h.not_error_of_task hcrashed hpending fun e heq => he ⟨e, heq⟩
  have hopen := isOpen_of_ne herror hlive
  have hspent := h.spent hopen hbusy
  have htodo := h.todo hopen
  rw [hpending] at htodo
  cases t with
  | event e => exact absurd ⟨e, rfl⟩ he
  | content startPos buffer =>
    cases htodo with
    | owned _ owner howner => cases howner
    | content _ _ t _ htodo' =>
      refine .of_spent h.begun hstarted herror hspent fun _ => ?_
      have hraised : ((s.setTasks [t]).runTask (.content startPos buffer) answer).pending =
          ((s.setTasks [t]).callbackCalls answer).map Task.event ++ [t] := by
        simp [pending, runTask, hqueue]
      rw [hraised]
      refine todo_calls ((s.setTasks [t]).callbackCalls_plain hcalls) ?_
      exact htodo'.congr rfl rfl rfl le_rfl (by simp [runTask, responsesIn, Entry.isResponse])
  | start owner op =>
    cases htodo with
    | owned _ owner' howner hlive' =>
      cases howner
      show Paced ((s.setTasks []).startContent owner op)
      unfold startContent
      have hidle := pending_of_idle (s := s.setTasks []) hqueue rfl
      split_ifs
      · exact .of_spent h.begun hstarted herror hspent fun _ => todo_idle hidle
      · exact Paced.of_armed (s := s.setTasks []) h.begun hstarted herror hspent hidle hlive' _ _
          fun _ => rfl
  | delayPost owner postData =>
    cases htodo with
    | owned _ owner' howner hlive' =>
      have hidle := pending_of_idle (s := s.setTasks []) hqueue rfl
      exact .of_spent h.begun hstarted herror hspent fun _ => todo_idle hidle
  | pipe owner =>
    cases htodo with
    | owned _ owner' howner hlive' =>
      cases howner
      refine .of_spent h.begun hstarted herror hspent fun _ => ?_
      have hraised : ((s.setTasks []).runTask (.pipe owner) answer).pending =
          (answer.calls.map Call.event ++ s.sendPostData.pipeEvents answer.chunk).map Task.event ++
            if answer.chunk.bytes = [] then [] else [.delayPost owner answer.chunk.bytes] := by
        simp [pending, runTask, postViaInterface, hqueue]
      rw [hraised]
      refine todo_pipe s.sendPostData (fun hbytes => ?_) (fun hbytes => if_pos hbytes) hcalls
      rw [if_neg hbytes]
      exact .owned _ owner rfl hlive'

/-- The terminate states stay. -/
theorem Paced.step_terminate {a : Act} (h : Paced s) (hstate : s.state.isTerminate = true)
    (hstep : s.step a = some s') : Paced s' := by
  have hkeep {s' : Machine} (hkept : Kept s s') : Paced s' := by
    refine .of_terminate ?_ (hkept.state ▸ hstate)
    rw [hkept.requestCreationTime]
    exact h.begun.trans hkept.now
  have hignored (u : Machine) (hu : u.state.isTerminate = true)
      (hbegun : u.requestCreationTime ≤ u.now) (e : Event) (answer : Answer) :
      Paced (u.process e answer) := by
    rw [process, if_pos hu]
    exact .of_terminate hbegun hu
  cases step_cases hstep with
  | clock elapsed => exact hkeep (s.tick_kept elapsed)
  | queued e queue answer hqueue => exact hignored (s.setQueue queue) hstate h.begun e answer
  | task t tasks answer hqueue htasks =>
    cases t with
    | event e => exact hignored (s.setTasks tasks) hstate h.begun e answer
    | start owner op =>
      exact hkeep ((s.setTasks_kept tasks).trans (startContent_kept _ owner op))
    | _ => exact .of_terminate h.begun hstate
  | start hqueue htasks => exact hignored s hstate h.begun _ _
  | call call hqueue htasks => exact hignored s hstate h.begun _ _
  | complete i op received err hqueue htasks hop =>
    exact hkeep ((s.setOps_kept _).trans (completed_kept _ op received err))
  | timer i t err hqueue htasks ht hcompletes =>
    exact hkeep ((s.setTimers_kept _).trans (timedOut_kept _ t err))
  | delay i d err hqueue htasks hd =>
    exact delayed_cases (P := Paced) _ d err (hkeep (s.setDelays_kept _))
      (fun _ _ _ => .of_terminate h.begun hstate) fun _ _ _ _ _ _ => .of_terminate h.begun hstate

theorem Paced.step {a : Act} (h : Paced s) (hlone : Lone s) (hhome : AtHome s)
    (hcalls : ∀ call ∈ a.calls, call.isTimeout = false)
    (hresponses : s.state = .readHeaders → responsesIn s.log = 0) (hstep : s.step a = some s') :
    Paced s' := by
  cases hlive : s.state.isTerminate with
  | true => exact h.step_terminate hlive hstep
  | false =>
    have hcrashed := crashed_of_step hstep
    cases step_cases hstep with
    | clock elapsed => exact h.tick elapsed
    | queued e queue answer hqueue =>
      exact h.next queue s.tasks hcrashed (pending_of_queue hqueue) hcalls
        hresponses
    | task t tasks answer hqueue htasks =>
      exact h.task hcrashed hlive hqueue htasks hcalls hresponses
    | start hqueue htasks =>
      have hidle := pending_of_idle hqueue htasks
      refine process_cases s .start {} (fun _ => h) (fun _ _ => h.record hcrashed hidle _)
        fun t s' _ hrow hentry => ?_
      cases hrow with
      | start hstate =>
        refine paced_row h.begun (fun t ht => ?_) hidle (.start hstate) rfl hentry
          (fun _ hcall => absurd hcall List.not_mem_nil) hresponses
        rw [(h.unstarted hstate).2.1] at ht
        cases ht
    | call call hqueue htasks =>
      have hidle := pending_of_idle hqueue htasks
      have hopen := isOpen_of_ne (h.not_error hcrashed hidle) hlive
      obtain ⟨evt, hevt, hevent⟩ := call_plain (hcalls call (List.mem_singleton_self _))
      rw [hevent]
      by_cases hstate : s.state = .unstarted
      · have hnone : s.row (.error evt) = none := by simp [row, hstate]
        rw [process, if_neg (by simp [hlive]), hnone]
        exact h.record hcrashed hidle _
      · exact paced_error h.begun hopen hstate (hidle ▸ List.not_mem_nil) fun hcode =>
          absurd hcode hevt
    | complete i op received err hqueue htasks hop =>
      exact h.completed hcrashed hlone hhome hlive hqueue htasks hop received err
    | timer i t err hqueue htasks ht hcompletes =>
      exact h.timedOut hcrashed hlone hlive hqueue htasks ht hcompletes
    | delay i d err hqueue htasks hd => exact h.delayed hcrashed hlone hlive hqueue htasks hd err

theorem paced_create (cfg : Config) (time : ℕ) : Paced (create cfg time) :=
  ⟨le_rfl, fun _ => ⟨rfl, rfl, rfl⟩, fun _ => .none, fun _ _ ht => absurd ht List.not_mem_nil,
    fun _ => nofun⟩

end Paced

end Machine

end MediafireSdk.Http
