import MediafireSdk.Http.Handlers

/-! What the steps of a request do. A step runs one transition, or lets content through, or puts
POST data on its way, or leaves everything alone that the transitions depend on. -/

namespace MediafireSdk.Http

/-- The entry of POST data that is written at once. -/
def Post.entries : Post → List Entry
  | .data postData => [.wrotePost postData]
  | .pipe _ => []

/-- The headers are passed on, other than those of a redirect that leads nowhere. -/
def HeadersReadEvent.passedOn (evt : HeadersReadEvent) : Bool :=
  !(evt.statusCode = 301 || evt.statusCode = 302) ||
    ((evt.headers.lookup "location").bind Url.parse).isSome

namespace Machine

/-! ### Rows -/

/-- The rows of the transition table, each with its source. -/
inductive Row (s : Machine) : Event → Target → Prop
  | start (h : s.state = .unstarted) : Row s .start .initializing
  | initialized (h : s.state = .initializing) : Row s .initialized .resolve
  | resolved (endpoint : Endpoint) (h : s.state = .resolve) :
      Row s (.resolved endpoint) (.connect endpoint)
  | proxyRequired (h : s.state = .connect) (hproxy : s.proxyConnectRequired = true) :
      Row s .connected .proxyConnect
  | connected (h : s.state = .connect) (hproxy : s.proxyConnectRequired = false) :
      Row s .connected (if s.isSsl then .sslHandshake else .sendHeader)
  | tunnelled (h : s.state = .proxyConnect) :
      Row s .connected (if s.isSsl then .sslHandshake else .sendHeader)
  | handshake (h : s.state = .sslHandshake) : Row s .handshake .sendHeader
  | headersWritten (h : s.state = .sendHeader) :
      Row s .headersWritten (if s.cfg.post.isSome then .sendPost else .readHeaders)
  | postSent (h : s.state = .sendPost) : Row s .postSent .readHeaders
  | headersRead (evt : HeadersReadEvent) (h : s.state = .readHeaders) :
      Row s (.headersRead evt) (.parseHeaders evt)
  | headersParsed (evt : HeadersParsedEvent) (h : s.state = .parseHeaders) :
      Row s (.headersParsed evt) (.readContent evt)
  | redirect (evt : HeadersReadEvent) (redirectUrl : String) (h : s.state = .parseHeaders) :
      Row s (.redirect evt redirectUrl) (.redirect evt redirectUrl)
  | redirected (h : s.state = .redirect) : Row s .redirected .initializing
  | contentRead (h : s.state = .readContent) : Row s .contentRead .complete
  | restart (h : s.state = .error) : Row s .restart .initializing
  | finalError (evt : ErrorEvent) (h : s.state = .error) : Row s (.error evt) (.finalError evt)
  | error (evt : ErrorEvent) (h : s.state ≠ .unstarted) (h' : s.state ≠ .error) :
      Row s (.error evt) (.error evt)

theorem row_cases {s : Machine} {e : Event} {t : Target} (h : s.row e = some t) : Row s e t := by
  unfold row at h
  split at h <;> cases h
  case h_4.refl hstate =>
    cases hproxy : s.proxyConnectRequired with
    | true => exact .proxyRequired hstate hproxy
    | false => exact .connected hstate hproxy
  case h_5.refl hstate => exact .tunnelled hstate
  case h_19.refl hunstarted _ _ =>
    exact .error _ hunstarted ‹s.state = .error → False›
  all_goals constructor; assumption

/-! ### What is done on entry -/

/-- The branches of every `on_entry`. -/
inductive OnEntry (s : Machine) (answer : Answer) : Target → Machine → Prop
  | badUrl (h : s.parsedUrl.or (Url.parse s.url) = none) :
      OnEntry s answer .initializing (s.disconnect.raiseAll [.error (badUrlError s.url)])
  | initUrl (url : Url) (h : s.parsedUrl.or (Url.parse s.url) = some url)
      (hscheme : url.scheme = "http" ∨ url.scheme = "https") :
      OnEntry s answer .initializing
        ({ s with
          parsedUrl := some url
          isSsl := decide (url.scheme = "https")
          socket := some {} }.raiseAll [.initialized])
  | unsupported (url : Url) (h : s.parsedUrl.or (Url.parse s.url) = some url)
      (hhttp : url.scheme ≠ "http") (hhttps : url.scheme ≠ "https") :
      OnEntry s answer .initializing
        ({ s.disconnect with parsedUrl := some url }.raiseAll
          [.error (unsupportedSchemeError s.url)])
  | crash (t : Target) : OnEntry s answer t s.crash
  | resolve (url : Url) (h : s.parsedUrl = some url) : OnEntry s answer .resolve (s.enterResolve url)
  | connect (endpoint : Endpoint) (url : Url) (h : s.parsedUrl = some url) :
      OnEntry s answer (.connect endpoint) (s.enterConnect url endpoint)
  | proxyConnect (url : Url) (h : s.parsedUrl = some url) :
      OnEntry s answer .proxyConnect (s.enterProxyConnect url)
  | sslHandshake : OnEntry s answer .sslHandshake s.enterSslHandshake
  | sendHeader (url : Url) (h : s.parsedUrl = some url) :
      OnEntry s answer .sendHeader (s.enterSendHeader url)
  | sendPost (post : Post) (h : s.cfg.post = some post) :
      OnEntry s answer .sendPost (s.enterSendPost answer)
  | readHeaders : OnEntry s answer .readHeaders s.enterReadHeaders
  | badRedirect (evt : HeadersReadEvent) (problem : String) :
      OnEntry s answer (.parseHeaders evt)
        (s.raiseAll [.error (badRedirectError evt.statusCode s.url problem)])
  | redirectHeaders (evt : HeadersReadEvent) (url : Url) (location : String)
      (h : evt.passedOn = true) :
      OnEntry s answer (.parseHeaders evt)
        (s.headersReceived (.redirectHeaderReceived evt url) answer (.redirect evt location))
  | responseHeaders (evt : HeadersReadEvent) (parsed : HeadersParsedEvent)
      (h : evt.passedOn = true) :
      OnEntry s answer (.parseHeaders evt)
        (s.headersReceived (.responseHeaderReceived evt) answer (.headersParsed parsed))
  | refuse (evt : HeadersReadEvent) (redirectUrl : String) (code : HttpErrorCode)
      (target problem : String) (hcode : code ≠ .ioTimeout) :
      OnEntry s answer (.redirect evt redirectUrl)
        (s.raiseAll [.error (redirectError code target problem s.url)])
  | follow (evt : HeadersReadEvent) (redirectUrl : String) (url : Url)
      (hdeny : s.cfg.redirectPolicy ≠ .deny)
      (hdowngrade : s.cfg.redirectPolicy = .denyDowngrade → s.isSsl = true → url.scheme ≠ "http") :
      OnEntry s answer (.redirect evt redirectUrl)
        ({ s with parsedUrl := some url, url := redirectUrl, socket := none }.raiseAll
          [.redirected])
  | readContent (evt : HeadersParsedEvent) :
      OnEntry s answer (.readContent evt) (s.enterReadContent evt)
  | restart (evt : ErrorEvent) (hcode : evt.code = .http .ioTimeout) (hlimit : s.now < s.limit) :
      OnEntry s answer (.error evt) (s.disconnect.raiseAll [.restart])
  | passOn (evt : ErrorEvent) (h : evt.code = .http .ioTimeout → s.limit ≤ s.now) :
      OnEntry s answer (.error evt) (s.disconnect.raiseAll [.error evt])
  | finalError (evt : ErrorEvent) :
      OnEntry s answer (.finalError evt) (s.enterFinalError evt answer)
  | complete : OnEntry s answer .complete (s.enterComplete answer)

section
variable (s : Machine) (answer : Answer)

theorem doInit_cases : OnEntry s answer .initializing s.doInit := by
  unfold doInit
  cases hurl : s.parsedUrl.or (Url.parse s.url) with
  | none => simpa only [disconnect_parsedUrl, disconnect_url, hurl] using .badUrl hurl
  | some url =>
    simp only [disconnect_parsedUrl, disconnect_url, hurl]
    split_ifs with hhttp hhttps
    · have hentry : OnEntry s answer _ _ := .initUrl url hurl (.inl hhttp)
      simpa [hhttp] using hentry
    · have hentry : OnEntry s answer _ _ := .initUrl url hurl (.inr hhttps)
      simpa [hhttps] using hentry
    · exact .unsupported url hurl hhttp hhttps

theorem enterParseHeaders_cases (evt : HeadersReadEvent) :
    OnEntry s answer (.parseHeaders evt) (s.enterParseHeaders evt answer) := by
  unfold enterParseHeaders
  split_ifs with hredirect
  · split
    case h_1 => exact .badRedirect evt _
    case h_2 location hlocation =>
      split
      case h_1 => exact .badRedirect evt _
      case h_2 url hurl =>
        exact .redirectHeaders evt url location
          (by simp [HeadersReadEvent.passedOn, hlocation, hurl])
  · exact .responseHeaders evt _ (by simp_all [HeadersReadEvent.passedOn])

theorem enterRedirect_cases (evt : HeadersReadEvent) (redirectUrl : String) :
    OnEntry s answer (.redirect evt redirectUrl) (s.enterRedirect redirectUrl) := by
  unfold enterRedirect
  split
  · exact .refuse evt redirectUrl _ _ _ (by decide)
  · split_ifs with hdeny hdowngrade
    · exact .refuse evt redirectUrl _ _ _ (by decide)
    · exact .refuse evt redirectUrl _ _ _ (by decide)
    · exact .follow evt redirectUrl _ hdeny fun hpolicy hssl hhttp =>
        hdowngrade ⟨hpolicy, hssl, hhttp⟩

theorem enterError_cases (evt : ErrorEvent) :
    OnEntry s answer (.error evt) (s.enterError evt) := by
  unfold enterError
  split_ifs with h
  · exact .restart evt h.1 h.2
  · exact .passOn evt fun hcode => Nat.le_of_not_lt fun hlimit => h ⟨hcode, hlimit⟩

theorem enter_cases (t : Target) : OnEntry s answer t (s.enter t answer) := by
  cases t
  case initializing => exact s.doInit_cases answer
  case parseHeaders evt => exact s.enterParseHeaders_cases answer evt
  case redirect evt redirectUrl => exact s.enterRedirect_cases answer evt redirectUrl
  case error evt => exact s.enterError_cases answer evt
  case readHeaders => exact .readHeaders
  case readContent evt => exact .readContent evt
  case finalError evt => exact .finalError evt
  case complete => exact .complete
  case sendPost =>
    cases hpost : s.cfg.post with
    | none =>
      have hentry : OnEntry s answer .sendPost s.crash := .crash _
      simpa [enter, enterSendPost, hpost] using hentry
    | some post => exact .sendPost post hpost
  all_goals
    simp only [enter, withUrl]
    split
    · exact .crash _
    · constructor
      try assumption

end

/-! What the `on_entry` functions log and raise. -/

/-- The entry of a request that goes through the socket. -/
def written (s : Machine) (request : Request) : List Entry :=
  (s.socket.map fun socket => .wrote socket.proxy socket.tunnelled request).toList

section
variable (s : Machine) (answer : Answer)

theorem write_eq (request : Request) :
    s.write request = { s with log := s.log ++ s.written request } := by
  unfold write
  split
  case h_1 hsocket =>
    have hwritten : s.written request = [] := by simp [written, hsocket]
    rw [hwritten, List.append_nil]
  case h_2 socket hsocket =>
    have hwritten : s.written request = [.wrote socket.proxy socket.tunnelled request] := by
      simp [written, hsocket]
    rw [hwritten]
    rfl

@[simp] theorem enterResolve_log (url : Url) :
    (s.enterResolve url).log = s.log ++ [.resolving url] := rfl

@[simp] theorem enterConnect_log (url : Url) (endpoint : Endpoint) :
    (s.enterConnect url endpoint).log = s.log ++ [.connecting url] := rfl

@[simp] theorem enterProxyConnect_log (url : Url) :
    (s.enterProxyConnect url).log = s.log ++ s.written (connectRequest url s.currentProxy) := by
  rw [enterProxyConnect, write_eq]
  rfl

@[simp] theorem enterSslHandshake_log : s.enterSslHandshake.log = s.log := rfl

@[simp] theorem enterSendHeader_log (url : Url) :
    (s.enterSendHeader url).log = s.log ++ s.written (serverRequest s.cfg.requestMethod url s.isSsl
      s.currentProxy s.cfg.headers) := by
  rw [enterSendHeader, write_eq]
  rfl

theorem enterSendPost_log {post : Post} (h : s.cfg.post = some post) :
    (s.enterSendPost answer).log = s.log ++ post.entries := by
  unfold enterSendPost
  cases post with
  | data postData => simp only [h]; rfl
  | pipe size =>
    simp only [h]
    split <;> simp [Post.entries]

@[simp] theorem enterReadHeaders_log : s.enterReadHeaders.log = s.log := rfl

@[simp] theorem headersReceived_log (entry : Entry) (e : Event) :
    (s.headersReceived entry answer e).log = s.log ++ [entry] := rfl

@[simp] theorem enterReadContent_log (evt : HeadersParsedEvent) :
    (s.enterReadContent evt).log = s.log := by
  unfold enterReadContent
  dsimp only
  split <;> rfl

@[simp] theorem enterFinalError_log (evt : ErrorEvent) :
    (s.enterFinalError evt answer).log = s.log ++ [.requestResponseErrorEvent evt] := by
  unfold enterFinalError cancelDelays
  split <;> rfl

@[simp] theorem enterComplete_log :
    (s.enterComplete answer).log = s.log ++ [.requestResponseCompleteEvent] := rfl

@[simp] theorem enterFinalError_live (evt : ErrorEvent) :
    (s.enterFinalError evt answer).live = s.live := by
  unfold enterFinalError cancelDelays
  split <;> rfl

@[simp] theorem enterComplete_live : (s.enterComplete answer).live = s.live := rfl

end

/-- What no `on_entry` touches. -/
structure Entered (s s' : Machine) : Prop where
  cfg : s'.cfg = s.cfg
  requestCreationTime : s'.requestCreationTime = s.requestCreationTime
  now : s'.now = s.now
  state : s'.state = s.state
  taken : s'.taken = s.taken
  tasks : s'.tasks = s.tasks

section
variable {s s' : Machine} {answer : Answer}

theorem enterSendPost_entered (s : Machine) (answer : Answer) :
    Entered s (s.enterSendPost answer) := by
  unfold enterSendPost
  split
  · exact ⟨rfl, rfl, rfl, rfl, rfl, rfl⟩
  · exact ⟨rfl, rfl, rfl, rfl, rfl, rfl⟩
  · dsimp only
    split <;> exact ⟨rfl, rfl, rfl, rfl, rfl, rfl⟩

theorem enterReadContent_entered (s : Machine) (evt : HeadersParsedEvent) :
    Entered s (s.enterReadContent evt) := by
  unfold enterReadContent
  dsimp only
  split <;> exact ⟨rfl, rfl, rfl, rfl, rfl, rfl⟩

theorem cancelDelays_entered (s : Machine) : Entered s s.cancelDelays := by
  unfold cancelDelays
  split <;> exact ⟨rfl, rfl, rfl, rfl, rfl, rfl⟩

theorem OnEntry.entered {t : Target} (h : OnEntry s answer t s') : Entered s s' := by
  cases h
  case sendPost => exact s.enterSendPost_entered answer
  case readContent evt => exact s.enterReadContent_entered evt
  case proxyConnect url h =>
    rw [enterProxyConnect, write_eq]
    exact ⟨rfl, rfl, rfl, rfl, rfl, rfl⟩
  case sendHeader url h =>
    rw [enterSendHeader, write_eq]
    exact ⟨rfl, rfl, rfl, rfl, rfl, rfl⟩
  case finalError evt =>
    obtain ⟨h1, h2, h3, h4, h5, h6⟩ := s.disconnect.cancelDelays_entered
    exact ⟨h1, h2, h3, h4, h5, h6⟩
  all_goals exact ⟨rfl, rfl, rfl, rfl, rfl, rfl⟩

end

/-! ### Transitions -/

/-- What an event does: nothing in a terminate state, else a row or none. -/
theorem process_cases {P : Machine → Prop} (s : Machine) (e : Event) (answer : Answer)
    (hterminate : s.state.isTerminate = true → P s)
    (hnone : s.state.isTerminate = false → s.row e = none → P (s.record (.noTransition s.state e)))
    (hrow : ∀ t s', s.state.isTerminate = false → Row s e t →
      OnEntry (s.leave t.state) answer t s' → P s') :
    P (s.process e answer) := by
  unfold process
  split_ifs with hstate
  · exact hterminate hstate
  · have hstate' : s.state.isTerminate = false := Bool.eq_false_iff.mpr hstate
    split
    case h_1 hnorow => exact hnone hstate' hnorow
    case h_2 t hsome => exact hrow t _ hstate' (row_cases hsome) (enter_cases _ answer t)

/-! ### What the handlers leave alone -/

/-- Nothing is different that a transition depends on or that is seen from outside; the clock may
have gone on. -/
structure Kept (s s' : Machine) : Prop where
  cfg : s'.cfg = s.cfg
  requestCreationTime : s'.requestCreationTime = s.requestCreationTime
  now : s.now ≤ s'.now
  url : s'.url = s.url
  state : s'.state = s.state
  parsedUrl : s'.parsedUrl = s.parsedUrl
  isSsl : s'.isSsl = s.isSsl
  live : s'.live = s.live
  queue : s'.queue = s.queue
  log : s'.log = s.log

theorem Kept.trans {s s' s'' : Machine} (h : Kept s s') (h' : Kept s' s'') : Kept s s'' where
  cfg := h'.cfg.trans h.cfg
  requestCreationTime := h'.requestCreationTime.trans h.requestCreationTime
  now := h.now.trans h'.now
  url := h'.url.trans h.url
  state := h'.state.trans h.state
  parsedUrl := h'.parsedUrl.trans h.parsedUrl
  isSsl := h'.isSsl.trans h.isSsl
  live := h'.live.trans h.live
  queue := h'.queue.trans h.queue
  log := h'.log.trans h.log

section Handlers
variable (s : Machine)

theorem Kept.refl : Kept s s := ⟨rfl, rfl, le_rfl, rfl, rfl, rfl, rfl, rfl, rfl, rfl⟩

theorem next_kept (tasks : List Task) : Kept s (s.next tasks) :=
  ⟨rfl, rfl, le_rfl, rfl, rfl, rfl, rfl, rfl, rfl, rfl⟩

theorem take_kept (race : ℕ) : Kept s (s.take race) :=
  ⟨rfl, rfl, le_rfl, rfl, rfl, rfl, rfl, rfl, rfl, rfl⟩

theorem clearAsyncTimeout_kept : Kept s s.clearAsyncTimeout :=
  ⟨rfl, rfl, le_rfl, rfl, rfl, rfl, rfl, rfl, rfl, rfl⟩

theorem async_kept (owner : ℕ) (reason : String) (n : ℕ) (kind : OpKind) :
    Kept s (s.async owner reason n kind) :=
  ⟨rfl, rfl, le_rfl, rfl, rfl, rfl, rfl, rfl, rfl, rfl⟩

theorem delay_kept (owner : ℕ) (kind : DelayKind) : Kept s (s.delay owner kind) :=
  ⟨rfl, rfl, le_rfl, rfl, rfl, rfl, rfl, rfl, rfl, rfl⟩

theorem establish_kept : Kept s s.establish :=
  ⟨rfl, rfl, le_rfl, rfl, rfl, rfl, rfl, rfl, rfl, rfl⟩

theorem setContent_kept (d : ReadContentData) : Kept s (s.setContent d) :=
  ⟨rfl, rfl, le_rfl, rfl, rfl, rfl, rfl, rfl, rfl, rfl⟩

theorem setDelayTimerEnabled_kept (enabled : Bool) : Kept s (s.setDelayTimerEnabled enabled) :=
  ⟨rfl, rfl, le_rfl, rfl, rfl, rfl, rfl, rfl, rfl, rfl⟩

theorem tick_kept (elapsed : ℕ) : Kept s (s.tick elapsed) :=
  ⟨rfl, rfl, Nat.le_add_right _ _, rfl, rfl, rfl, rfl, rfl, rfl, rfl⟩

theorem setTasks_kept (tasks : List Task) : Kept s (s.setTasks tasks) :=
  ⟨rfl, rfl, le_rfl, rfl, rfl, rfl, rfl, rfl, rfl, rfl⟩

theorem setOps_kept (ops : List Op) : Kept s (s.setOps ops) :=
  ⟨rfl, rfl, le_rfl, rfl, rfl, rfl, rfl, rfl, rfl, rfl⟩

theorem setTimers_kept (timers : List Timeout) : Kept s (s.setTimers timers) :=
  ⟨rfl, rfl, le_rfl, rfl, rfl, rfl, rfl, rfl, rfl, rfl⟩

theorem setDelays_kept (delays : List Delay) : Kept s (s.setDelays delays) :=
  ⟨rfl, rfl, le_rfl, rfl, rfl, rfl, rfl, rfl, rfl, rfl⟩

theorem startContent_kept (owner : ℕ) (op : AsyncOp) : Kept s (s.startContent owner op) := by
  unfold startContent
  split_ifs
  · exact s.delay_kept _ _
  · exact s.async_kept _ _ _ _

end Handlers

/-! ### Steps -/

/-- What a step does. -/
inductive Stepped (s : Machine) : Act → Machine → Prop
  | clock (elapsed : ℕ) : Stepped s (.clock elapsed) (s.tick elapsed)
  | queued (e : Event) (queue : List Event) (answer : Answer) (h : s.queue = e :: queue) :
      Stepped s (.proceed answer) ((s.setQueue queue).process e answer)
  | task (t : Task) (tasks : List Task) (answer : Answer) (hqueue : s.queue = [])
      (h : s.tasks = t :: tasks) :
      Stepped s (.proceed answer) ((s.setTasks tasks).runTask t answer)
  | start (hqueue : s.queue = []) (htasks : s.tasks = []) : Stepped s .start (s.process .start {})
  | call (call : Call) (hqueue : s.queue = []) (htasks : s.tasks = []) :
      Stepped s (.call call) (s.process call.event {})
  | complete (i : ℕ) (op : Op) (received : List UInt8) (err : Option IoError)
      (hqueue : s.queue = []) (htasks : s.tasks = []) (h : s.ops[i]? = some op) :
      Stepped s (.complete i received err)
        ((s.setOps (s.ops.eraseIdx i)).completed op received err)
  | timer (i : ℕ) (t : Timeout) (err : Bool) (hqueue : s.queue = []) (htasks : s.tasks = [])
      (h : s.timers[i]? = some t) (hcompletes : t.completes s.now err = true) :
      Stepped s (.timer i err) ((s.setTimers (s.timers.eraseIdx i)).timedOut t err)
  | delay (i : ℕ) (d : Delay) (err : Bool) (hqueue : s.queue = []) (htasks : s.tasks = [])
      (h : s.delays[i]? = some d) :
      Stepped s (.delay i err) ((s.setDelays (s.delays.eraseIdx i)).delayed d err)

theorem idle_iff {s : Machine} : s.idle = true ↔ s.queue = [] ∧ s.tasks = [] := by
  simp [idle]

theorem proceed_cases {s s' : Machine} {answer : Answer} (h : s.proceed answer = some s') :
    Stepped s (.proceed answer) s' := by
  unfold proceed at h
  split at h
  case h_1 e queue hqueue => cases h; exact .queued e queue answer hqueue
  case h_2 t tasks hqueue htasks => cases h; exact .task t tasks answer hqueue htasks
  case h_3 => cases h

theorem begun_cases {s s' : Machine} {a : Act} (hqueue : s.queue = []) (htasks : s.tasks = [])
    (h : s.begun a = some s') : Stepped s a s' := by
  cases a with
  | start => cases h; exact .start hqueue htasks
  | call call => cases h; exact .call call hqueue htasks
  | clock elapsed => cases h
  | complete i received err =>
    obtain ⟨op, hop, h⟩ := Option.bind_eq_some_iff.mp h
    split_ifs at h
    cases h
    exact .complete i op received err hqueue htasks hop
  | timer i err =>
    obtain ⟨t, ht, h⟩ := Option.bind_eq_some_iff.mp h
    split_ifs at h with hcompletes
    cases h
    exact .timer i t err hqueue htasks ht hcompletes
  | delay i err =>
    obtain ⟨d, hd, h⟩ := Option.bind_eq_some_iff.mp h
    split_ifs at h
    cases h
    exact .delay i d err hqueue htasks hd
  | proceed answer => cases h

theorem step_cases {s s' : Machine} {a : Act} (h : s.step a = some s') : Stepped s a s' := by
  unfold step at h
  split at h
  · cases h
  · split at h
    case h_1 elapsed => cases h; exact .clock elapsed
    case h_2 answer => exact proceed_cases h
    case h_3 =>
      split at h
      case isTrue hidle =>
        obtain ⟨hqueue, htasks⟩ := idle_iff.mp hidle
        exact begun_cases hqueue htasks h
      case isFalse => cases h

end Machine

end MediafireSdk.Http
