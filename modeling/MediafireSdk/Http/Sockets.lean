import MediafireSdk.Http.Waiting

/-! When a null pointer is followed. A state that uses the connection has a socket and a URL. Only
the handler of a chunk goes on behind the callback that it passes the chunk to: a callback that
fails the request has the socket closed under it. -/

namespace MediafireSdk.Http

open Runs

/-- The states that use the connection. -/
def StateName.isConnected : StateName → Bool
  | .resolve | .connect | .proxyConnect | .sslHandshake | .sendHeader | .sendPost | .readHeaders
  | .parseHeaders | .readContent => true
  | _ => false

namespace Machine

/-- The pointers to the socket and to the URL are set. -/
structure Wired (s : Machine) : Prop where
  socket : s.socket.isSome = true
  parsedUrl : s.parsedUrl.isSome = true

/-- A chunk goes to its callback, and its handler goes on to read the size of the next one. -/
def readsOn : List Task → Bool
  | [.content _ _, .start _ a] => !a.isDelay
  | _ => false

/-- The callback that gets a chunk calls the request before the handler of the chunk goes on. -/
def Interrupts (s : Machine) : Act → Prop
  | .proceed answer => s.queue = [] ∧ readsOn s.tasks = true ∧ s.callbackCalls answer ≠ []
  | _ => False

instance (s : Machine) : (a : Act) → Decidable (s.Interrupts a)
  | .proceed answer => inferInstanceAs
      (Decidable (s.queue = [] ∧ readsOn s.tasks = true ∧ s.callbackCalls answer ≠ []))
  | .start | .call _ | .clock _ | .complete _ _ _ | .timer _ _ | .delay _ _ =>
    inferInstanceAs (Decidable False)

/-- No null pointer was followed, and none is about to be. -/
structure Unbroken (s : Machine) : Prop where
  crashed : s.crashed = false
  connected : s.state.isConnected = true → Wired s
  initialized : s.state = .initializing → .event .initialized ∈ s.pending → Wired s
  reads : ∀ owner a, .start owner a ∈ s.tasks → a.isDelay = false →
    s.state = .readContent ∧ ∀ e, .event e ∉ s.pending

section Unbroken
variable {s s' : Machine} {answer : Answer} {e : Event} {t : Target}

/-! ### Entries -/

theorem Wired.congr (h : Wired s) (hsocket : s'.socket = s.socket)
    (hurl : s'.parsedUrl = s.parsedUrl) : Wired s' :=
  ⟨hsocket ▸ h.socket, hurl ▸ h.parsedUrl⟩

theorem Wired.async (h : Wired s) (owner : ℕ) (reason : String) (timeoutSeconds : ℕ)
    (kind : OpKind) : (s.async owner reason timeoutSeconds kind).crashed = s.crashed ∧
      Wired (s.async owner reason timeoutSeconds kind) := by
  refine ⟨?_, h.congr rfl rfl⟩
  obtain ⟨socket, hsome⟩ := Option.isSome_iff_exists.mp h.socket
  simp [hsome]

theorem Wired.beginAsync (h : Wired s) (reason : String) (timeoutSeconds : ℕ) (kind : OpKind) :
    (s.beginAsync reason timeoutSeconds kind).crashed = s.crashed ∧
      Wired (s.beginAsync reason timeoutSeconds kind) :=
  Wired.async (s := s.begin) (h.congr rfl rfl) _ _ _ _

/-- A state that uses the connection follows pointers that are set. -/
theorem Wired.enter (h : Wired s) (ht : t.state.isConnected = true)
    (hpost : t = .sendPost → s.cfg.post.isSome = true) (answer : Answer) :
    (s.enter t answer).crashed = s.crashed ∧ Wired (s.enter t answer) := by
  obtain ⟨url, hurl⟩ := Option.isSome_iff_exists.mp h.parsedUrl
  have hwrite (request : Request) :
      (s.write request).crashed = s.crashed ∧ Wired (s.write request) := by
    rw [write_eq]
    exact ⟨rfl, h.congr rfl rfl⟩
  cases t with
  | resolve =>
    simp only [Machine.enter, withUrl, hurl]
    exact (h.congr rfl rfl : Wired (s.record (.resolving url))).beginAsync _ _ _
  | connect endpoint =>
    have hset : Wired ((s.setProxy endpoint.proxy).record (.connecting url)) :=
      ⟨by simpa using h.socket, h.parsedUrl⟩
    simp only [Machine.enter, withUrl, hurl]
    exact hset.beginAsync _ _ _
  | proxyConnect =>
    obtain ⟨hcrashed, hwired⟩ := hwrite (connectRequest url s.currentProxy)
    simp only [Machine.enter, withUrl, hurl, enterProxyConnect, ← hcrashed]
    exact hwired.beginAsync _ _ _
  | sslHandshake =>
    simp only [Machine.enter, withUrl, hurl]
    exact h.beginAsync _ _ _
  | sendHeader =>
    obtain ⟨hcrashed, hwired⟩ := hwrite (serverRequest s.cfg.requestMethod url s.isSsl
      s.currentProxy s.cfg.headers)
    simp only [Machine.enter, withUrl, hurl, enterSendHeader, ← hcrashed]
    exact hwired.beginAsync _ _ _
  | sendPost =>
    have hsome := hpost rfl
    simp only [Machine.enter]
    unfold enterSendPost
    split
    case h_1 hnone => simp [hnone] at hsome
    case h_2 postData _ =>
      have hrecord : Wired (s.record (.wrotePost postData)) := h.congr rfl rfl
      obtain ⟨hcrashed, hwired⟩ := hrecord.beginAsync "write request post" s.cfg.timeoutSeconds
        .postWrite
      exact ⟨hcrashed, hwired.congr rfl rfl⟩
    case h_3 =>
      dsimp only
      split_ifs <;> exact ⟨rfl, h.congr rfl rfl⟩
  | readHeaders => exact h.beginAsync _ _ _
  | parseHeaders evt =>
    simp only [Machine.enter]
    unfold enterParseHeaders
    split_ifs
    · split
      · exact ⟨rfl, h.congr rfl rfl⟩
      · split <;> exact ⟨rfl, h.congr rfl rfl⟩
    · exact ⟨rfl, h.congr rfl rfl⟩
  | readContent evt =>
    simp only [Machine.enter]
    unfold enterReadContent
    dsimp only
    split
    · exact ⟨rfl, h.congr rfl rfl⟩
    · exact Wired.async (s := { s.begin with readContentData := _ }.raiseAll _)
        (h.congr rfl rfl) _ _ _ _
  | _ => simp [Target.state, StateName.isConnected] at ht

/-- The other states follow no pointer. -/
theorem enter_crashed (s : Machine) (ht : t.state.isConnected = false) (answer : Answer) :
    (s.enter t answer).crashed = s.crashed := by
  cases t with
  | initializing =>
    simp only [enter, doInit]
    split
    · rfl
    · split_ifs <;> rfl
  | redirect evt redirectUrl =>
    simp only [enter, enterRedirect]
    split
    · rfl
    · split_ifs <;> rfl
  | error evt => rfl
  | finalError evt =>
    simp only [enter, enterFinalError, cancelDelays]
    split <;> rfl
  | complete => rfl
  | _ => simp [Target.state, StateName.isConnected] at ht

/-- What `DoInit` raises tells whether it has set the pointers. -/
theorem doInit_wired (hpending : s.pending = []) (h : .event .initialized ∈ s.doInit.pending) :
    Wired s.doInit := by
  have hraised {u : Machine} {e : Event} (h : .event .initialized ∈ u.pending)
      (hqueue : u.queue = s.queue ++ [e]) (htasks : u.tasks = s.tasks) : .initialized = e := by
    rw [pending_raised hpending hqueue htasks] at h
    simpa using h
  have hentry := s.doInit_cases {}
  generalize s.doInit = s' at h hentry ⊢
  cases hentry with
  | badUrl => cases hraised h rfl rfl
  | initUrl url => exact ⟨rfl, rfl⟩
  | unsupported => cases hraised h rfl rfl
  | crash =>
    have hnone : s.crash.pending = [] := hpending
    rw [hnone] at h
    cases h

/-! ### Events -/

theorem Row.connected_source (h : Row s e t) (ht : t.state.isConnected = true) :
    s.state.isConnected = true ∨ s.state = .initializing ∧ e = .initialized := by
  cases h with
  | initialized hstate => exact .inr ⟨hstate, rfl⟩
  | resolved _ hstate | proxyRequired hstate | connected hstate | tunnelled hstate
  | handshake hstate | headersWritten hstate | postSent hstate | headersRead _ hstate
  | headersParsed _ hstate => exact .inl (by rw [hstate]; rfl)
  | _ => cases ht

theorem Row.post_source (h : Row s e t) (ht : t = .sendPost) : s.cfg.post.isSome = true := by
  cases h with
  | headersWritten => by_contra hnone; simp [hnone] at ht
  | connected | tunnelled => split_ifs at ht
  | _ => cases ht

theorem Row.init_source (h : Row s e t) (ht : t = .initializing) :
    s.state = .unstarted ∧ e = .start ∨ s.state = .redirect ∧ e = .redirected ∨
      s.state = .error ∧ e = .restart := by
  cases h with
  | start hstate => exact .inl ⟨hstate, rfl⟩
  | redirected hstate => exact .inr (.inl ⟨hstate, rfl⟩)
  | restart hstate => exact .inr (.inr ⟨hstate, rfl⟩)
  | connected | tunnelled | headersWritten => split_ifs at ht
  | _ => cases ht

/-- An event of what waits, with nothing behind it when it leads to `Initializing`. -/
theorem Unbroken.process (hcrashed : s.crashed = false)
    (hconnected : s.state.isConnected = true → Wired s)
    (hinitialized : s.state = .initializing →
      e = .initialized ∨ .event .initialized ∈ s.pending → Wired s)
    (hinit : Row s e .initializing → s.pending = [])
    (hreads : ∀ owner a, .start owner a ∈ s.tasks → a.isDelay = true) (answer : Answer) :
    Unbroken (s.process e answer) := by
  have hdelays {P : Prop} {owner : ℕ} {a : AsyncOp} (htask : .start owner a ∈ s.tasks)
      (ha : a.isDelay = false) : P := by
    simp [hreads owner a htask] at ha
  unfold Machine.process
  split_ifs with hend
  · exact ⟨hcrashed, hconnected, fun hstate h => hinitialized hstate (.inr h),
      fun _ _ htask ha => hdelays htask ha⟩
  · split
    case h_1 =>
      exact ⟨hcrashed, fun hstate => (hconnected hstate).congr rfl rfl,
        fun hstate h => (hinitialized hstate (.inr h)).congr rfl rfl,
        fun _ _ htask ha => hdelays htask ha⟩
    case h_2 t hsome =>
      have hrow := row_cases hsome
      have hentered := (enter_cases (s.leave t.state) answer t).entered
      have hstate : ((s.leave t.state).enter t answer).state = t.state := hentered.state
      have hwired (ht : t.state.isConnected = true) : Wired (s.leave t.state) := by
        have h : Wired s := (hrow.connected_source ht).elim hconnected
          fun h => hinitialized h.1 (.inl h.2)
        exact h.congr rfl rfl
      have hpost : t = .sendPost → (s.leave t.state).cfg.post.isSome = true := hrow.post_source
      refine ⟨?_, fun ht => ?_, fun ht h => ?_, fun owner a htask ha => ?_⟩
      · cases ht : t.state.isConnected with
        | true => exact ((hwired ht).enter ht hpost answer).1.trans hcrashed
        | false => exact (enter_crashed _ ht answer).trans hcrashed
      · rw [hstate] at ht
        exact ((hwired ht).enter ht hpost answer).2
      · rw [hstate] at ht
        cases t with
        | initializing => exact doInit_wired (hinit hrow) h
        | _ => cases ht
      · rw [hentered.tasks] at htask
        exact hdelays htask ha

/-- The next event of what waits. -/
theorem Unbroken.next (queue : List Event) (tasks : List Task) (h : Unbroken s) (hpaced : Paced s)
    (hpending : s.pending = .event e :: ((s.setQueue queue).setTasks tasks).pending)
    (htasks : tasks ⊆ s.tasks) (answer : Answer) :
    Unbroken (((s.setQueue queue).setTasks tasks).process e answer) := by
  have hfirst : .event e ∈ s.pending := hpending ▸ List.mem_cons_self
  refine Unbroken.process (s := (s.setQueue queue).setTasks tasks) h.crashed
    (fun hstate => (h.connected hstate).congr rfl rfl)
    (fun hstate hcomes => (h.initialized hstate ?_).congr rfl rfl) (fun hrow => ?_)
    (fun owner a htask => ?_) answer
  · rcases hcomes with rfl | hlater
    · exact hfirst
    · exact hpending ▸ List.mem_cons_of_mem _ hlater
  · have hsource : s.state = .unstarted ∧ e = .start ∨ s.state = .redirect ∧ e = .redirected ∨
        s.state = .error ∧ e = .restart := hrow.init_source rfl
    have hlive : s.state.isTerminate = false := by
      rcases hsource with ⟨hstate, -⟩ | ⟨hstate, -⟩ | ⟨hstate, -⟩ <;> rw [hstate] <;> rfl
    have hcomes := hpaced.comes h.crashed hlive hpending
    generalize ((s.setQueue queue).setTasks tasks).pending = rest at hcomes
    cases hcomes with
    | last => rfl
    | restart => rfl
    | error evt => simp at hsource
    | failed _ _ hstate hfailed =>
      have he : e = .restart := by simpa [hstate] using hsource
      cases hfailed with
      | error evt => cases he
      | behind _ _ hnot => exact absurd he hnot
  · by_contra ha
    exact (h.reads owner a (htasks htask) (by simpa using ha)).2 e hfirst

/-! ### Steps -/

/-- Between two transitions. -/
theorem Unbroken.keep (h : Unbroken s) (hcrashed : s'.crashed = s.crashed)
    (hstate : s'.state = s.state) (hsocket : s'.socket.isSome = s.socket.isSome)
    (hurl : s'.parsedUrl = s.parsedUrl)
    (hinitialized : .event .initialized ∈ s'.pending → .event .initialized ∈ s.pending)
    (hreads : ∀ owner a, .start owner a ∈ s'.tasks → a.isDelay = false →
      s.state = .readContent ∧ ∀ e, .event e ∉ s'.pending) : Unbroken s' where
  crashed := hcrashed.trans h.crashed
  connected hopen := by
    have hwired := h.connected (hstate ▸ hopen)
    exact ⟨hsocket.trans hwired.socket, hurl ▸ hwired.parsedUrl⟩
  initialized hinit hcomes := by
    have hwired := h.initialized (hstate ▸ hinit) (hinitialized hcomes)
    exact ⟨hsocket.trans hwired.socket, hurl ▸ hwired.parsedUrl⟩
  reads owner a htask ha := hstate.symm ▸ hreads owner a htask ha

/-- With less left to do. -/
theorem Unbroken.fewer (h : Unbroken s) (hcrashed : s'.crashed = s.crashed)
    (hstate : s'.state = s.state) (hsocket : s'.socket.isSome = s.socket.isSome)
    (hurl : s'.parsedUrl = s.parsedUrl) (hpending : s'.pending ⊆ s.pending)
    (htasks : s'.tasks ⊆ s.tasks) : Unbroken s' :=
  h.keep hcrashed hstate hsocket hurl (fun hcomes => hpending hcomes) fun owner a htask ha => by
    obtain ⟨hreading, hnone⟩ := h.reads owner a (htasks htask) ha
    exact ⟨hreading, fun e he => hnone e (hpending he)⟩

theorem Unbroken.congr (h : Unbroken s) (hcrashed : s'.crashed = s.crashed)
    (hstate : s'.state = s.state) (hsocket : s'.socket = s.socket)
    (hurl : s'.parsedUrl = s.parsedUrl) (hqueue : s'.queue = s.queue)
    (htasks : s'.tasks = s.tasks) : Unbroken s' := by
  have hpending : s'.pending = s.pending := by rw [pending, pending, hqueue, htasks]
  exact h.fewer hcrashed hstate (by rw [hsocket]) hurl (hpending ▸ List.Subset.refl _)
    (htasks ▸ List.Subset.refl _)

/-- An operation is armed in a state that uses the connection. -/
theorem Unbroken.async (h : Unbroken s) (hconnected : s.state.isConnected = true) (owner : ℕ)
    (reason : String) (timeoutSeconds : ℕ) (kind : OpKind) :
    Unbroken (s.async owner reason timeoutSeconds kind) :=
  h.fewer ((h.connected hconnected).async owner reason timeoutSeconds kind).1 rfl rfl rfl
    (List.Subset.refl _) (List.Subset.refl _)

theorem home_isConnected (kind : OpKind) : kind.home.isConnected = true := by
  cases kind <;> rfl

theorem ContentTasks.unbroken {owner total : ℕ} {d d' : ReadContentData} {tasks : List Task}
    (h : ContentTasks owner d total tasks d') :
    .event .initialized ∉ tasks ∧
      ∀ owner' a, .start owner' a ∈ tasks → ∀ e, .event e ∉ tasks := by
  cases h <;> simp

/-- One thing is left to do that neither initializes nor reads. -/
theorem Unbroken.next_one (h : Unbroken s) (hqueue : s.queue = []) (htasks : s.tasks = [])
    {x : Task} (hevent : x ≠ .event .initialized) (hstart : ∀ owner a, x ≠ .start owner a) :
    Unbroken (s.next [x]) := by
  refine h.keep rfl rfl rfl rfl (fun hcomes => ?_) fun owner a htask => ?_
  · rw [pending_next hqueue htasks, List.mem_singleton] at hcomes
    exact absurd hcomes.symm hevent
  · have hone : (s.next [x]).tasks = [x] := by simp [htasks]
    rw [hone, List.mem_singleton] at htask
    exact absurd htask.symm (hstart owner a)

/-- The handler of an operation. -/
theorem Handled.unbroken {owner : ℕ} {kind : OpKind} (hhandled : Handled s owner kind s')
    (h : Unbroken s) (hqueue : s.queue = []) (htasks : s.tasks = [])
    (hstate : s.state = kind.home) : Unbroken s' := by
  cases hhandled with
  | event _ e hraises =>
    refine h.next_one hqueue htasks (fun heq => ?_) (fun _ _ => by rintro ⟨⟩)
    cases heq
    cases hraises
  | established =>
    have hestablished : Unbroken s.establish :=
      h.fewer rfl rfl (by simp [establish]) rfl (List.Subset.refl _) (List.Subset.refl _)
    exact hestablished.next_one hqueue htasks (by rintro ⟨⟩) (fun _ _ => by rintro ⟨⟩)
  | proxyRead => exact h.async (hstate ▸ home_isConnected _) _ _ _ _
  | pipe size => exact h.next_one hqueue htasks (by rintro ⟨⟩) (fun _ _ => by rintro ⟨⟩)
  | content op received tasks d hcontent =>
    obtain ⟨hnot, hreads⟩ := hcontent.unbroken
    have hpending : ((s.setContent d).next tasks).pending = tasks :=
      pending_next (by exact hqueue) (by exact htasks) tasks
    have htasks' : ((s.setContent d).next tasks).tasks = tasks := by simp [htasks]
    refine h.keep rfl rfl rfl rfl (fun hcomes => absurd (hpending ▸ hcomes) hnot)
      fun owner' a htask _ => ⟨hstate, ?_⟩
    rw [hpending]
    exact hreads owner' a (htasks' ▸ htask)

theorem not_initialized_pipe (d : SendPostData) (chunk : PipeChunk) :
    .initialized ∉ d.pipeEvents chunk := by
  cases chunk <;> simp only [SendPostData.pipeEvents, SendPostData.finish] <;> split_ifs <;> simp

/-- Nothing that reads waits behind the pipe. -/
theorem Unbroken.task_pipe (h : Unbroken s) (hpaced : Paced s) {owner : ℕ} {tasks : List Task}
    (hqueue : s.queue = []) (htasks : s.tasks = .pipe owner :: tasks) (answer : Answer) :
    Unbroken ((s.setTasks tasks).postViaInterface owner answer) := by
  have hpending : ((s.setTasks tasks).postViaInterface owner answer).pending =
      (answer.calls.map Call.event ++ s.sendPostData.pipeEvents answer.chunk).map Task.event ++
        (if answer.chunk.bytes = [] then [] else [.delayPost owner answer.chunk.bytes]) ++
        tasks := by
    simp [pending, postViaInterface, hqueue]
  refine h.keep rfl rfl rfl rfl (fun hcomes => ?_) fun owner' a htask ha => ?_
  · rw [hpending, List.mem_append, List.mem_append, List.mem_map] at hcomes
    rcases hcomes with (⟨e, he, heq⟩ | hdelay) | hlater
    · cases heq
      rcases List.mem_append.mp he with hcalled | hpiped
      · have herror := calls_isError answer _ hcalled
        cases herror
      · exact absurd hpiped (not_initialized_pipe _ _)
    · split_ifs at hdelay <;> simp at hdelay
    · have hlater' : .event .initialized ∈ (s.setTasks tasks).pending := by
        simpa [pending, hqueue] using hlater
      exact pending_of_task hqueue htasks ▸ List.mem_cons_of_mem _ hlater'
  · have hold : .start owner' a ∈ tasks := by
      simp only [postViaInterface, next_tasks, readPipe_tasks, setTasks_tasks] at htask
      split_ifs at htask <;> simpa using htask
    have hopen : s.state.isOpen = true := by
      have hreading := (h.reads owner' a (htasks ▸ List.mem_cons_of_mem _ hold) ha).1
      rw [hreading]
      rfl
    rw [(hpaced.owned hopen hqueue htasks rfl).2] at hold
    cases hold

/-- Content is passed on, and its callback does not call where the handler goes on. -/
theorem Unbroken.task_content (h : Unbroken s) (hpaced : Paced s) {startPos : ℕ} {buffer : Buffer}
    {tasks : List Task} (hqueue : s.queue = [])
    (htasks : s.tasks = .content startPos buffer :: tasks)
    (hquiet : ¬s.Interrupts (.proceed answer)) :
    Unbroken ((s.setTasks tasks).runTask (.content startPos buffer) answer) := by
  have hpending : ((s.setTasks tasks).runTask (.content startPos buffer) answer).pending =
      (s.callbackCalls answer).map Task.event ++ tasks := by
    simp [pending, runTask, hqueue, callbackCalls]
  have hpending' : s.pending = .content startPos buffer :: tasks := by
    simp [pending, hqueue, htasks]
  have hcall {e : Event} (he : .event e ∈ (s.callbackCalls answer).map Task.event) :
      e ∈ s.callbackCalls answer := by simpa using he
  refine h.keep rfl rfl rfl rfl (fun hcomes => ?_) fun owner a htask ha => ?_
  · rw [hpending, List.mem_append] at hcomes
    rcases hcomes with hcalled | hlater
    · have herror := callbackCalls_isError s answer _ (hcall hcalled)
      cases herror
    · exact hpending' ▸ List.mem_cons_of_mem _ hlater
  · have hold : .start owner a ∈ s.tasks := by
      have hsplit : .start owner a ∈ (s.callbackCalls answer).map Task.event ++ tasks := htask
      rw [htasks]
      rcases List.mem_append.mp hsplit with hcalled | hlater
      · simp at hcalled
      · exact List.mem_cons_of_mem _ hlater
    obtain ⟨hreading, hnone⟩ := h.reads owner a hold ha
    refine ⟨hreading, fun e he => ?_⟩
    have htodo := hpaced.todo (by rw [hreading]; rfl)
    rw [hpending'] at htodo
    cases htodo with
    | owned _ owner' howner => cases howner
    | content _ _ x =>
      have hx : x = .start owner a := by simpa [htasks, eq_comm] using hold
      rw [hpending, hx] at he
      refine hquiet ?_
      exact ⟨hqueue, by simp [readsOn, htasks, hx, ha], fun hnil => by simp [hnil] at he⟩

theorem Unbroken.step {a : Act} (h : Unbroken s) (hpaced : Paced s) (hhome : AtHome s)
    (hquiet : ¬s.Interrupts a) (hstep : s.step a = some s') : Unbroken s' := by
  have hstart {e : Event} (hqueue : s.queue = []) (htasks : s.tasks = []) (he : e ≠ .initialized) :
      Unbroken (s.process e {}) := by
    have hidle := pending_of_idle hqueue htasks
    refine .process h.crashed h.connected (fun hstate hcomes => h.initialized hstate ?_)
      (fun _ => hidle) (fun owner a htask => ?_) {}
    · exact hcomes.resolve_left he
    · rw [htasks] at htask
      cases htask
  cases step_cases hstep with
  | clock elapsed =>
    exact h.congr rfl rfl rfl rfl rfl rfl
  | queued e queue answer hqueue =>
    exact h.next queue s.tasks hpaced (pending_of_queue hqueue) (List.Subset.refl _) answer
  | task t tasks answer hqueue htasks =>
    have hsub : tasks ⊆ s.tasks := htasks ▸ List.subset_cons_self t tasks
    have hpending : s.pending = t :: tasks := by simp [pending, hqueue, htasks]
    have hdropped : Unbroken (s.setTasks tasks) := by
      refine h.fewer rfl rfl rfl rfl ?_ hsub
      rw [pending_of_task hqueue htasks]
      exact List.subset_cons_self _ _
    cases t with
    | event e => exact h.next s.queue tasks hpaced (pending_of_task hqueue htasks) hsub answer
    | content startPos buffer => exact h.task_content hpaced hqueue htasks hquiet
    | start owner a =>
      show Unbroken ((s.setTasks tasks).startContent owner a)
      unfold startContent
      split_ifs with ha
      · exact hdropped.congr rfl rfl rfl rfl rfl rfl
      · have hreading := (h.reads owner a (htasks ▸ List.mem_cons_self) (by simpa using ha)).1
        exact hdropped.async (by simp [hreading, StateName.isConnected]) _ _ _ _
    | delayPost owner postData =>
      exact hdropped.congr rfl rfl rfl rfl rfl rfl
    | pipe owner => exact h.task_pipe hpaced hqueue htasks answer
  | start hqueue htasks => exact hstart hqueue htasks (by rintro ⟨⟩)
  | call call hqueue htasks => exact hstart hqueue htasks (by cases call <;> rintro ⟨⟩)
  | complete i op received err hqueue htasks hop =>
    have hset : Unbroken (s.setOps (s.ops.eraseIdx i)) :=
      h.congr rfl rfl rfl rfl rfl rfl
    have htaken : Unbroken ((s.setOps (s.ops.eraseIdx i)).take op.race) :=
      hset.congr rfl rfl rfl rfl rfl rfl
    refine completed_cases (P := Unbroken) _ op received err hset htaken
      fun s' hlive _ hhandled => ?_
    exact hhandled.unbroken
      (htaken.congr rfl rfl rfl rfl rfl rfl) hqueue htasks
      (hhome.ops op (List.mem_of_getElem? hop) hlive)
  | timer i t err hqueue htasks ht hcompletes =>
    have hset : Unbroken (s.setTimers (s.timers.eraseIdx i)) :=
      h.congr rfl rfl rfl rfl rfl rfl
    have htaken : Unbroken ((s.setTimers (s.timers.eraseIdx i)).take t.race) :=
      hset.congr rfl rfl rfl rfl rfl rfl
    exact timedOut_cases (P := Unbroken) _ t err hset htaken fun _ _ =>
      htaken.next_one hqueue htasks (by rintro ⟨⟩) (fun _ _ => by rintro ⟨⟩)
  | delay i d err hqueue htasks hd =>
    have hset : Unbroken (s.setDelays (s.delays.eraseIdx i)) :=
      h.congr rfl rfl rfl rfl rfl rfl
    have hmem := List.mem_of_getElem? hd
    refine delayed_cases (P := Unbroken) _ d err hset (fun postData hlive hkind => ?_)
      fun op next enabled hlive hkind _ => ?_
    · have hposting : s.state = .sendPost := (hhome.delays d hmem hlive).trans (by rw [hkind]; rfl)
      have hrecord : Unbroken (((s.setDelays (s.delays.eraseIdx i)).setDelayTimerEnabled
          false).record (.wrotePost postData)) :=
        hset.congr rfl rfl rfl rfl rfl rfl
      exact hrecord.async (by simp [hposting, StateName.isConnected]) _ _ _ _
    · have hreading : s.state = .readContent :=
        (hhome.delays d hmem hlive).trans (by rw [hkind]; rfl)
      have henabled : Unbroken ((s.setDelays (s.delays.eraseIdx i)).setDelayTimerEnabled enabled) :=
        hset.congr rfl rfl rfl rfl rfl rfl
      exact henabled.async (by simp [hreading, StateName.isConnected]) _ _ _ _

theorem unbroken_create (cfg : Config) (time : ℕ) : Unbroken (create cfg time) where
  crashed := rfl
  connected := nofun
  initialized := nofun
  reads _ _ htask := absurd htask List.not_mem_nil

/-! ### Interrupted reads -/

/-- The handler of a chunk will follow the pointer to the socket that an error closes. -/
inductive Dangling (s : Machine) : Prop
  | failing (owner : ℕ) (a : AsyncOp) (evt : ErrorEvent) (errors : List Task)
      (ha : a.isDelay = false) (hstate : s.state = .readContent) (hqueue : s.queue = [])
      (htasks : s.tasks = .event (.error evt) :: (errors ++ [.start owner a])) (hplain : evt.Plain)
      (herrors : ∀ t ∈ errors, ∃ e, t = .event e)
  | failed (owner : ℕ) (a : AsyncOp) (evt : ErrorEvent) (errors : List Task)
      (ha : a.isDelay = false) (hstate : s.state = .error) (hqueue : s.queue = [.error evt])
      (htasks : s.tasks = errors ++ [.start owner a]) (hsocket : s.socket = none)
      (herrors : ∀ t ∈ errors, ∃ e, t = .event e)
  | ended (owner : ℕ) (a : AsyncOp) (errors : List Task) (ha : a.isDelay = false)
      (hstate : s.state = .finalError) (htasks : s.tasks = errors ++ [.start owner a])
      (hsocket : s.socket = none) (herrors : ∀ t ∈ errors, ∃ e, t = .event e)

theorem Dangling.busy (h : Dangling s) : s.tasks ≠ [] := by
  cases h with
  | failing _ _ _ _ _ _ _ htasks => simp [htasks]
  | failed _ _ _ _ _ _ _ htasks => simp [htasks]
  | ended _ _ _ _ _ htasks => simp [htasks]

theorem exists_of_readsOn {tasks : List Task} (h : readsOn tasks = true) :
    ∃ startPos buffer owner op, tasks = [.content startPos buffer, .start owner op] ∧
      op.isDelay = false := by
  unfold readsOn at h
  split at h
  · exact ⟨_, _, _, _, rfl, by simpa using h⟩
  · cases h

theorem Interrupts.reads {a : Act} (h : s.Interrupts a) :
    ∃ answer startPos buffer owner op, a = .proceed answer ∧ s.queue = [] ∧
      s.tasks = [.content startPos buffer, .start owner op] ∧ op.isDelay = false ∧
      s.callbackCalls answer ≠ [] := by
  cases a with
  | proceed answer =>
    obtain ⟨hqueue, hreads, hcalls⟩ := h
    obtain ⟨startPos, buffer, owner, op, htasks, hop⟩ := exists_of_readsOn hreads
    exact ⟨answer, startPos, buffer, owner, op, rfl, hqueue, htasks, hop, hcalls⟩
  | _ => cases h

theorem Unbroken.interrupted {a : Act} (h : Unbroken s) (hinterrupts : s.Interrupts a)
    (hcalls : ∀ call ∈ a.calls, call.isTimeout = false) (hstep : s.step a = some s') :
    Dangling s' := by
  obtain ⟨answer, startPos, buffer, owner, op, rfl, hqueue, htasks, hop, hcalled⟩ :=
    hinterrupts.reads
  have hreading := (h.reads owner op (by simp [htasks]) hop).1
  obtain ⟨e, later, heq⟩ := List.exists_cons_of_ne_nil hcalled
  obtain ⟨evt, hplain, rfl⟩ := callbackCalls_plain s hcalls e (heq ▸ List.mem_cons_self)
  cases step_cases hstep with
  | queued e' queue _ hqueue' =>
    rw [hqueue] at hqueue'
    cases hqueue'
  | task t tasks _ hqueue' htasks' =>
    rw [htasks] at htasks'
    cases htasks'
    refine .failing owner op evt (later.map Task.event) hop hreading hqueue ?_ hplain (by simp)
    show (s.callbackCalls answer).map Task.event ++ [.start owner op] = _
    rw [heq]
    rfl

theorem enterFinalError_socket (evt : ErrorEvent) :
    (s.enterFinalError evt answer).socket = none := by
  unfold enterFinalError cancelDelays
  split <;> rfl

/-- The error that closes the socket ends the request. -/
theorem Dangling.queued (h : Dangling s) {queue : List Event} (hqueue : s.queue = e :: queue)
    (answer : Answer) : Dangling ((s.setQueue queue).process e answer) := by
  cases h with
  | failing _ _ _ _ _ _ hqueue' =>
    rw [hqueue'] at hqueue
    cases hqueue
  | failed owner a evt errors ha hstate hqueue' htasks hsocket herrors =>
    rw [hqueue'] at hqueue
    cases hqueue
    have hprocess : (s.setQueue []).process (.error evt) answer =
        ((s.setQueue []).leave .finalError).enterFinalError evt answer := by
      simp [Machine.process, hstate, StateName.isTerminate, row, Target.state, enter]
    have hentry : OnEntry ((s.setQueue []).leave .finalError) answer (.finalError evt)
        (((s.setQueue []).leave .finalError).enterFinalError evt answer) := .finalError evt
    rw [hprocess]
    exact .ended owner a errors ha hentry.entered.state (hentry.entered.tasks.trans htasks)
      (enterFinalError_socket evt) herrors
  | ended owner a errors ha hstate htasks hsocket herrors =>
    have hprocess : (s.setQueue queue).process e answer = s.setQueue queue := by
      simp [Machine.process, hstate, StateName.isTerminate]
    rw [hprocess]
    exact .ended owner a errors ha hstate htasks hsocket herrors

/-- The calls of the callback come first, and then the pointer to the socket. -/
theorem Dangling.task (h : Dangling s) {x : Task} {tasks : List Task} (hqueue : s.queue = [])
    (hnext : s.tasks = x :: tasks) (answer : Answer) :
    Dangling ((s.setTasks tasks).runTask x answer) ∨
      ((s.setTasks tasks).runTask x answer).crashed = true := by
  cases h with
  | failing owner a evt errors ha hstate _ htasks hplain herrors =>
    rw [htasks] at hnext
    cases hnext
    have hcode : evt.code ≠ .http .ioTimeout := hplain
    have hprocess : (s.setTasks (errors ++ [.start owner a])).process (.error evt) answer =
        (((s.setTasks (errors ++ [.start owner a])).leave .error).disconnect).raiseAll
          [.error evt] := by
      simp [Machine.process, hstate, StateName.isTerminate, row, Target.state, enter, enterError,
        hcode]
    refine .inl (.failed owner a evt errors ha ?_ ?_ ?_ ?_ herrors) <;>
      simp [runTask, hprocess, hqueue]
  | failed _ _ _ _ _ _ hqueue' =>
    rw [hqueue'] at hqueue
    cases hqueue
  | ended owner a errors ha hstate htasks hsocket herrors =>
    rw [htasks] at hnext
    cases errors with
    | nil =>
      cases hnext
      refine .inr ?_
      simp [runTask, startContent, ha, hsocket]
    | cons x' errors =>
      cases hnext
      obtain ⟨e, rfl⟩ := herrors x List.mem_cons_self
      have hprocess : (s.setTasks (errors ++ [.start owner a])).process e answer =
          s.setTasks (errors ++ [.start owner a]) := by
        simp [Machine.process, hstate, StateName.isTerminate]
      refine .inl (.ended owner a errors ha ?_ ?_ ?_ fun y hy => herrors y
        (List.mem_cons_of_mem _ hy)) <;> simp [runTask, hprocess, hstate, hsocket]

theorem Dangling.step {a : Act} (h : Dangling s) (hstep : s.step a = some s') :
    Dangling s' ∨ s'.crashed = true := by
  cases step_cases hstep with
  | clock elapsed =>
    cases h with
    | failing owner a evt errors ha hstate hqueue htasks hplain herrors =>
      exact .inl (.failing owner a evt errors ha hstate hqueue htasks hplain herrors)
    | failed owner a evt errors ha hstate hqueue htasks hsocket herrors =>
      exact .inl (.failed owner a evt errors ha hstate hqueue htasks hsocket herrors)
    | ended owner a errors ha hstate htasks hsocket herrors =>
      exact .inl (.ended owner a errors ha hstate htasks hsocket herrors)
  | queued e queue answer hqueue => exact .inl (h.queued hqueue answer)
  | task x tasks answer hqueue hnext => exact h.task hqueue hnext answer
  | start _ htasks | call _ _ htasks | complete _ _ _ _ _ htasks | timer _ _ _ _ htasks
  | delay _ _ _ _ htasks => exact absurd htasks h.busy

/-! ### Runs -/

/-- A handler that a callback has interrupted does not come to its end. -/
theorem Unbroken.along {acts : List Act} (h : Unbroken s) (hregular : Regular s)
    (hcalls : ∀ a ∈ acts, ∀ call ∈ a.calls, call.isTimeout = false)
    (hrun : run Machine.step s acts = some s') (hidle : s'.idle = true)
    (hcrashed : s'.crashed = false) : Along Machine.step (fun s a _ => ¬s.Interrupts a) s acts := by
  induction acts generalizing s with
  | nil => trivial
  | cons a acts ih =>
    obtain ⟨t, ht, hrest⟩ := run_cons.mp hrun
    have ha := hcalls a List.mem_cons_self
    have hquiet : ¬s.Interrupts a := fun hinterrupts => by
      have hlast : Dangling s' ∨ s'.crashed = true := by
        refine run_invariant (I := fun u => Dangling u ∨ u.crashed = true)
          (fun u b u' hu hstep => ?_) (.inl (h.interrupted hinterrupts ha ht)) hrest
        rcases hu with hdangling | hcrash
        · exact hdangling.step hstep
        · simp [crashed_of_step hstep] at hcrash
      rcases hlast with hdangling | hcrash
      · exact hdangling.busy (idle_iff.mp hidle).2
      · simp [hcrashed] at hcrash
    intro u hu
    cases hu.symm.trans ht
    exact ⟨hquiet, ih (h.step hregular.paced hregular.home hquiet ht) (hregular.step ha ht)
      (fun b hb => hcalls b (List.mem_cons_of_mem _ hb)) hrest⟩

end Unbroken

/-- While no caller fails with the error of a timer: when the last handler of a run has come to its
end, or to a null pointer, no null pointer was followed if and only if no callback has called the
request where its handler goes on to read. -/
theorem run_unbroken_iff {cfg : Config} {time : ℕ} {acts : List Act} {s : Machine}
    (h : ∀ a ∈ acts, ∀ call ∈ a.calls, call.isTimeout = false)
    (hrun : run step (create cfg time) acts = some s) (hend : s.idle = true ∨ s.crashed = true) :
    s.crashed = false ↔ Along step (fun s a _ => ¬s.Interrupts a) (create cfg time) acts := by
  constructor
  · intro hcrashed
    exact (unbroken_create cfg time).along (regular_create cfg time) h hrun
      (hend.resolve_right (by simp [hcrashed])) hcrashed
  · intro hquiet
    have hsafe : Always step (fun s => s.crashed = false) (create cfg time) acts :=
      Always.of_guarded (I := fun s => Unbroken s ∧ Regular s)
        (G := fun s a _ => ¬s.Interrupts a ∧ ∀ call ∈ a.calls, call.isTimeout = false)
        (fun _ hs => hs.1.crashed) (fun _ _ _ hs hg hstep =>
          ⟨hs.1.step hs.2.paced hs.2.home hg.1 hstep, hs.2.step hg.2 hstep⟩)
        ⟨unbroken_create cfg time, regular_create cfg time⟩
        (hquiet.and (along_of_forall fun a ha _ _ => h a ha))
    exact hsafe.last hrun

/-- The callback that gets the first chunk cancels the request. -/
def cancelledInChunk : List Act :=
  [.start, .proceed {}, .complete 0 [] none, .proceed {}, .complete 0 [] none, .proceed {},
    .complete 0 [] none, .proceed {},
    .complete 0 "HTTP/1.1 200 OK\r\nTransfer-Encoding: chunked\r\n\r\n".toUTF8.toList none,
    .proceed {}, .proceed {}, .complete 0 "1\r\n".toUTF8.toList none, .proceed {}, .delay 0 false,
    .complete 0 "a\r\n".toUTF8.toList none, .proceed { calls := [.cancel] }, .proceed {},
    .proceed {}, .proceed {}]

example : check step (fun s a => !decide (s.Interrupts a)) getPlain cancelledInChunk = false := by
  decide +kernel

theorem run_unbroken_iff_cancelledInChunk :
    ¬Along step (fun s a _ => ¬s.Interrupts a) getPlain cancelledInChunk := by
  intro hquiet
  have hcrash : ((run step getPlain cancelledInChunk).map fun s => s.crashed) = some true := by
    decide +kernel
  obtain ⟨s, hs, hcrashed⟩ := Option.map_eq_some_iff.mp hcrash
  have hsafe := (run_unbroken_iff (by decide +kernel) hs (.inr hcrashed)).mpr hquiet
  simp [hcrashed] at hsafe

end Machine

end MediafireSdk.Http
