import MediafireSdk.Http.Tasks
import MediafireSdk.Http.Urls

/-! Where a request connects to behind a redirect. The state machine parses the Location as a URL
of its own, once when the headers are parsed and again when they are followed, and it never asks
`FromRedirect`. A Location without a separator of a scheme is an error therefore, wherever it would
lead. -/

namespace MediafireSdk.Http

open Words Runs

/-! ### Connections -/

def Entry.connection : Entry → Option Url
  | .resolving url | .connecting url => some url
  | _ => none

/-- No callback calls the request. -/
def Act.Calm : Act → Prop
  | .proceed answer => answer.calls = []
  | _ => True

namespace Machine

/-- Where the machine has gone to since. -/
def connectionsSince (s s' : Machine) : List Url :=
  (s'.log.drop s.log.length).filterMap Entry.connection

/-- However far a run has come, it goes on to a connection, and its first one is to this URL. -/
def ConnectsTo (s : Machine) (url : Url) : Prop :=
  ∀ acts s', (∀ a ∈ acts, a.Calm) → run step s acts = some s' →
    ∃ acts' s'', (∀ a ∈ acts', a.Calm) ∧ run step s' acts' = some s'' ∧
      (s.connectionsSince s'').head? = some url

/-- The handler of the headers has read a redirect. -/
structure Redirected (s : Machine) (base : FullUrl) (evt : HeadersReadEvent) (location : String) :
    Prop where
  crashed : s.crashed = false
  state : s.state = .readHeaders
  queue : s.queue = []
  tasks : s.tasks = [.event (.headersRead evt)]
  base : FullUrl.parse s.url.toList = some base
  status : evt.statusCode = 301 ∨ evt.statusCode = 302
  location : evt.headers.lookup "location" = some location

/-- The redirect policy lets the request go on to the URL. -/
def Allows (s : Machine) (url : Url) : Prop :=
  s.cfg.redirectPolicy ≠ .deny ∧
    ¬(s.cfg.redirectPolicy = .denyDowngrade ∧ s.isSsl = true ∧ url.scheme = "http")

/-- The callback is told that the redirect leads to the URL. -/
def Reports (s : Machine) (evt : HeadersReadEvent) (url : Url) : Prop :=
  ∀ answer s', s.step (.proceed answer) = some s' →
    .redirectHeaderReceived evt url ∈ s'.log.drop s.log.length

/-- What stands in front of the first separator is a scheme that can be connected to. -/
def SchemeFirst (location : String) : Prop :=
  ∃ scheme rest, search "://".toList location.toList = some (scheme, rest) ∧
    (scheme = "http".toList ∨ scheme = "https".toList)

/-! ### The log -/

/-- Nothing is connected to by these entries. -/
def Unconnected (entries : List Entry) : Prop := entries.filterMap Entry.connection = []

theorem unconnected_singleton {entry : Entry} (h : entry.connection = none) :
    Unconnected [entry] := by
  simp [Unconnected, h]

/-- A step adds entries to the log. In a terminate state it stays there and connects nowhere. -/
structure Logged (s s' : Machine) : Prop where
  grows : s.log <+: s'.log
  ended : s.state.isTerminate = true → s'.state = s.state ∧
    ∃ later, s'.log = s.log ++ later ∧ Unconnected later

theorem Logged.of_kept {s s' : Machine} (h : Kept s s') : Logged s s' where
  grows := h.log ▸ List.prefix_rfl
  ended _ := ⟨h.state, [], by rw [h.log, List.append_nil], rfl⟩

theorem Logged.of_record {s s' : Machine} {entry : Entry} (hstate : s'.state = s.state)
    (hlog : s'.log = s.log ++ [entry]) (h : entry.connection = none) : Logged s s' where
  grows := hlog ▸ List.prefix_append s.log [entry]
  ended _ := ⟨hstate, [entry], hlog, unconnected_singleton h⟩

theorem OnEntry.log_prefix {s s' : Machine} {answer : Answer} {t : Target}
    (h : OnEntry s answer t s') : s.log <+: s'.log := by
  cases h with
  | sendPost post h =>
    rw [s.enterSendPost_log answer h]
    exact List.prefix_append s.log post.entries
  | proxyConnect url h =>
    rw [enterProxyConnect_log]
    exact List.prefix_append s.log _
  | sendHeader url h =>
    rw [enterSendHeader_log]
    exact List.prefix_append s.log _
  | _ => simp

theorem process_logged (s : Machine) (e : Event) (answer : Answer) :
    Logged s (s.process e answer) := by
  have hnot : ∀ {P : Prop}, s.state.isTerminate = false → s.state.isTerminate = true → P :=
    fun hfalse htrue => absurd (hfalse.symm.trans htrue) Bool.false_ne_true
  refine process_cases s e answer (fun _ => .of_kept (.refl s))
    (fun _ _ => .of_record rfl rfl rfl) (fun t s' hstate _ hentry => ⟨?_, hnot hstate⟩)
  exact (List.prefix_append s.log [.entered s.state t.state]).trans hentry.log_prefix

theorem runTask_logged (s : Machine) (t : Task) (answer : Answer) :
    Logged s (s.runTask t answer) := by
  cases t with
  | event e => exact s.process_logged e answer
  | content startPos buffer => exact .of_record rfl rfl rfl
  | start owner op => exact .of_kept (s.startContent_kept owner op)
  | delayPost owner postData => exact .of_kept (s.delay_kept owner _)
  | pipe owner => exact .of_kept ⟨rfl, rfl, le_rfl, rfl, rfl, rfl, rfl, rfl, rfl, rfl⟩

theorem step_logged {s s' : Machine} {a : Act} (hstep : s.step a = some s') : Logged s s' := by
  cases step_cases hstep with
  | clock elapsed => exact .of_kept (s.tick_kept elapsed)
  | queued e queue answer hqueue =>
    have h := (s.setQueue queue).process_logged e answer
    exact ⟨h.grows, h.ended⟩
  | task t tasks answer hqueue htasks =>
    have h := (s.setTasks tasks).runTask_logged t answer
    exact ⟨h.grows, h.ended⟩
  | start hqueue htasks => exact s.process_logged _ _
  | call call hqueue htasks => exact s.process_logged _ _
  | complete i op received err hqueue htasks hop =>
    exact .of_kept ((s.setOps_kept _).trans (completed_kept _ op received err))
  | timer i t err hqueue htasks ht hcompletes =>
    exact .of_kept ((s.setTimers_kept _).trans (timedOut_kept _ t err))
  | delay i d err hqueue htasks hd =>
    refine delayed_cases _ d err (.of_kept (s.setDelays_kept _)) (fun postData _ _ => ?_)
      fun op next enabled _ _ _ => .of_kept ?_
    · exact .of_record rfl rfl rfl
    · exact (s.setDelays_kept _).trans
        ((setDelayTimerEnabled_kept _ _).trans (async_kept _ _ _ _ _))

/-- In a terminate state since, and nowhere connected to. -/
def Ended (s s' : Machine) : Prop :=
  s'.state.isTerminate = true ∧ ∃ later, s'.log = s.log ++ later ∧ Unconnected later

theorem Ended.step {s t t' : Machine} {a : Act} (h : Ended s t) (hstep : t.step a = some t') :
    Ended s t' := by
  obtain ⟨ht, later, hlog, hlater⟩ := h
  obtain ⟨hstate, later', hlog', hlater'⟩ := (step_logged hstep).ended ht
  refine ⟨hstate ▸ ht, later ++ later', ?_, ?_⟩
  · rw [hlog', hlog, List.append_assoc]
  · rw [Unconnected, List.filterMap_append, hlater, hlater', List.append_nil]

theorem Ended.connectionsSince {s s' : Machine} (h : Ended s s') : s.connectionsSince s' = [] := by
  obtain ⟨-, later, hlog, hlater⟩ := h
  rw [Machine.connectionsSince, hlog, List.drop_left]
  exact hlater

/-- A run of calm steps into a terminate state connects nowhere. -/
theorem Ended.not_connectsTo {s s' : Machine} {acts : List Act} (h : Ended s s')
    (hcalm : ∀ a ∈ acts, a.Calm) (hrun : run Machine.step s acts = some s') (url : Url) :
    ¬s.ConnectsTo url := by
  intro hconnects
  obtain ⟨acts', s'', -, hrun', hhead⟩ := hconnects acts s' hcalm hrun
  have hended : Ended s s'' := run_invariant (fun _ _ _ h hstep => h.step hstep) h hrun'
  rw [hended.connectionsSince] at hhead
  cases hhead

/-! ### Transitions on the way -/

/-- What is left once the event that is next has been taken. -/
@[simps] def dequeue (s : Machine) : Machine :=
  { s with queue := s.queue.tail, tasks := if s.queue = [] then s.tasks.tail else s.tasks }

/-- One event waits in a state, and nothing was connected to since. -/
structure Waiting (s t : Machine) (state : StateName) (e : Event) : Prop where
  crashed : t.crashed = false
  cfg : t.cfg = s.cfg
  state : t.state = state
  pending : t.queue = [e] ∨ t.queue = [] ∧ t.tasks = [.event e]
  log : ∃ later, t.log = s.log ++ later ∧ Unconnected later

theorem process_of_row {s : Machine} {e : Event} {target : Target} (answer : Answer)
    (hstate : s.state.isTerminate = false) (hrow : s.row e = some target) :
    s.process e answer = (s.leave target.state).enter target answer := by
  rw [process, hstate, hrow]
  rfl

theorem callbackCalls_calm {s : Machine} {answer : Answer} (h : answer.calls = []) :
    s.callbackCalls answer = [] := by
  simp [callbackCalls, h]

namespace Waiting
variable {s t t' : Machine} {state : StateName} {e : Event}

theorem tick (h : Waiting s t state e) (elapsed : ℕ) : Waiting s (t.tick elapsed) state e :=
  ⟨h.crashed, h.cfg, h.state, h.pending, h.log⟩

theorem queue_tail (h : Waiting s t state e) : t.queue.tail = [] := by
  rcases h.pending with hqueue | ⟨hqueue, -⟩ <;> simp [hqueue]

theorem proceeds (h : Waiting s t state e) (answer : Answer) :
    t.step (.proceed answer) = some (t.dequeue.process e answer) := by
  have hcrashed := h.crashed
  rcases h.pending with hqueue | ⟨hqueue, htasks⟩
  · simp [Machine.step, proceed, hcrashed, hqueue, dequeue, setQueue]
  · simp [Machine.step, proceed, hcrashed, hqueue, htasks, dequeue, setTasks, runTask]

/-- The clock goes on, or the event that waits is processed. -/
theorem step_cases {a : Act} (h : Waiting s t state e) (hstep : t.step a = some t') :
    (∃ elapsed, t' = t.tick elapsed) ∨
      ∃ answer, a = .proceed answer ∧ t' = t.dequeue.process e answer := by
  have hbusy : ¬(t.queue = [] ∧ t.tasks = []) := by
    rcases h.pending with hqueue | ⟨hqueue, htasks⟩ <;> simp_all
  cases Machine.step_cases hstep with
  | clock elapsed => exact .inl ⟨elapsed, rfl⟩
  | queued _ _ answer | task _ _ answer =>
    rw [h.proceeds answer] at hstep
    exact .inr ⟨answer, rfl, (Option.some.inj hstep).symm⟩
  | start hqueue htasks | call _ hqueue htasks | complete _ _ _ _ hqueue htasks
  | timer _ _ _ hqueue htasks | delay _ _ _ hqueue htasks => exact absurd ⟨hqueue, htasks⟩ hbusy

/-- The transition of the event that waits, by the state that it enters. -/
theorem process_eq (h : Waiting s t state e) (answer : Answer) (target : Target)
    (hstate : state.isTerminate = false) (hrow : t.dequeue.row e = some target) :
    t.dequeue.process e answer = (t.dequeue.leave target.state).enter target answer :=
  process_of_row answer (h.state ▸ hstate) hrow

/-- Another event waits behind a transition that has connected nowhere. -/
theorem next (h : Waiting s t state e) {u : Machine} {state' : StateName} {e' : Event}
    {entries : List Entry} (hcrashed : u.crashed = false) (hcfg : u.cfg = t.cfg)
    (hstate : u.state = state') (hqueue : u.queue = [e']) (hlog : u.log = t.log ++ entries)
    (hentries : Unconnected entries) : Waiting s u state' e' := by
  refine ⟨hcrashed, hcfg.trans h.cfg, hstate, .inl hqueue, ?_⟩
  obtain ⟨later, hlater, hnone⟩ := h.log
  refine ⟨later ++ entries, ?_, ?_⟩
  · rw [hlog, hlater, List.append_assoc]
  · rw [Unconnected, List.filterMap_append, hnone, hentries, List.append_nil]

end Waiting

theorem Redirected.waiting {s : Machine} {base : FullUrl} {evt : HeadersReadEvent}
    {location : String} (h : Redirected s base evt location) :
    Waiting s s .readHeaders (.headersRead evt) :=
  ⟨h.crashed, rfl, h.state, .inr ⟨h.queue, h.tasks⟩, [], (List.append_nil _).symm, rfl⟩

/-! ### A Location that is followed -/

/-- How far the way to the URL still is. -/
inductive OnWay (s : Machine) (evt : HeadersReadEvent) (location : String) (url : Url) :
    ℕ → Machine → Prop
  | headersRead (t : Machine) (h : Waiting s t .readHeaders (.headersRead evt))
      (hssl : t.isSsl = s.isSsl) : OnWay s evt location url 4 t
  | redirect (t : Machine) (h : Waiting s t .parseHeaders (.redirect evt location))
      (hssl : t.isSsl = s.isSsl) : OnWay s evt location url 3 t
  | redirected (t : Machine) (h : Waiting s t .redirect .redirected)
      (hurl : t.parsedUrl = some url) : OnWay s evt location url 2 t
  | initialized (t : Machine) (h : Waiting s t .initializing .initialized)
      (hurl : t.parsedUrl = some url) : OnWay s evt location url 1 t
  | connected (t : Machine) (hgrows : s.log <+: t.log)
      (h : (s.connectionsSince t).head? = some url) : OnWay s evt location url 0 t

section Followed
variable {s t : Machine} {evt : HeadersReadEvent} {location : String} {url : Url}
  {answer : Answer}

theorem Waiting.process_headersRead (h : Waiting s t .readHeaders (.headersRead evt)) :
    t.dequeue.process (.headersRead evt) answer =
      (t.dequeue.leave .parseHeaders).enterParseHeaders evt answer :=
  h.process_eq answer (.parseHeaders evt) rfl (by simp [row, h.state])

theorem Waiting.process_redirect (h : Waiting s t .parseHeaders (.redirect evt location)) :
    t.dequeue.process (.redirect evt location) answer =
      (t.dequeue.leave .redirect).enterRedirect location :=
  h.process_eq answer (.redirect evt location) rfl (by simp [row, h.state])

theorem Waiting.process_redirected (h : Waiting s t .redirect .redirected) :
    t.dequeue.process .redirected answer = (t.dequeue.leave .initializing).doInit :=
  h.process_eq answer .initializing rfl (by simp [row, h.state])

theorem Waiting.process_initialized (h : Waiting s t .initializing .initialized)
    (hurl : t.parsedUrl = some url) :
    t.dequeue.process .initialized answer = (t.dequeue.leave .resolve).enterResolve url := by
  rw [h.process_eq answer .resolve rfl (by simp [row, h.state])]
  have hleave : (t.dequeue.leave .resolve).parsedUrl = some url := hurl
  simp only [enter, withUrl, Target.state, hleave]

theorem enterParseHeaders_redirect (hstatus : evt.statusCode = 301 ∨ evt.statusCode = 302)
    (hlocation : evt.headers.lookup "location" = some location)
    (hparse : Url.parse location = some url) :
    s.enterParseHeaders evt answer =
      s.headersReceived (.redirectHeaderReceived evt url) answer (.redirect evt location) := by
  rw [enterParseHeaders, if_pos hstatus, hlocation]
  simp only [hparse]

/-- The headers are passed on, and the redirect waits. -/
theorem Waiting.redirect (h : Waiting s t .readHeaders (.headersRead evt))
    (hstatus : evt.statusCode = 301 ∨ evt.statusCode = 302)
    (hlocation : evt.headers.lookup "location" = some location)
    (hparse : Url.parse location = some url) (hcalm : answer.calls = []) :
    Waiting s (t.dequeue.process (.headersRead evt) answer) .parseHeaders
      (.redirect evt location) := by
  rw [h.process_headersRead, enterParseHeaders_redirect hstatus hlocation hparse]
  refine h.next h.crashed rfl rfl ?_ (List.append_assoc _ _ _) rfl
  simp [headersReceived, callbackCalls_calm hcalm, h.queue_tail]

/-- A redirect that is allowed is followed. -/
theorem Waiting.redirected (h : Waiting s t .parseHeaders (.redirect evt location))
    (hssl : t.isSsl = s.isSsl) (hparse : Url.parse location = some url) (hallows : s.Allows url) :
    Waiting s (t.dequeue.process (.redirect evt location) answer) .redirect .redirected ∧
      (t.dequeue.process (.redirect evt location) answer).parsedUrl = some url := by
  have hdeny : (t.dequeue.leave .redirect).cfg.redirectPolicy ≠ .deny := by
    rw [leave_cfg, dequeue_cfg, h.cfg]
    exact hallows.1
  have hdowngrade : ¬((t.dequeue.leave .redirect).cfg.redirectPolicy = .denyDowngrade ∧
      (t.dequeue.leave .redirect).isSsl = true ∧ url.scheme = "http") := by
    rw [leave_cfg, dequeue_cfg, h.cfg, leave_isSsl, dequeue_isSsl, hssl]
    exact hallows.2
  rw [h.process_redirect, enterRedirect]
  simp only [hparse, if_neg hdeny, if_neg hdowngrade]
  refine ⟨h.next h.crashed rfl rfl ?_ rfl rfl, rfl⟩
  simp [h.queue_tail]

theorem doInit_of_parsedUrl (hurl : s.parsedUrl = some url) : s.doInit =
    if url.scheme = "http" ∨ url.scheme = "https" then
      { s with
        parsedUrl := some url
        isSsl := decide (url.scheme = "https")
        socket := some {} }.raiseAll [.initialized]
    else
      { s.disconnect with parsedUrl := some url }.raiseAll
        [.error (unsupportedSchemeError s.url)] := by
  unfold doInit
  simp only [disconnect_parsedUrl, hurl, Option.some_or]
  by_cases hhttp : url.scheme = "http"
  · simp [hhttp]
  · by_cases hhttps : url.scheme = "https"
    · simp [hhttps]
    · simp [hhttp, hhttps]

/-- A scheme that can be connected to. -/
theorem Waiting.initialized (h : Waiting s t .redirect .redirected) (hurl : t.parsedUrl = some url)
    (hscheme : url.scheme = "http" ∨ url.scheme = "https") :
    Waiting s (t.dequeue.process .redirected answer) .initializing .initialized ∧
      (t.dequeue.process .redirected answer).parsedUrl = some url := by
  rw [h.process_redirected, doInit_of_parsedUrl (s := t.dequeue.leave _) hurl, if_pos hscheme]
  refine ⟨h.next h.crashed rfl rfl ?_ rfl rfl, rfl⟩
  simp [h.queue_tail]

/-- Processing what waits brings the machine one transition closer. -/
theorem OnWay.proceed {n : ℕ} (hstatus : evt.statusCode = 301 ∨ evt.statusCode = 302)
    (hlocation : evt.headers.lookup "location" = some location)
    (hparse : Url.parse location = some url) (hallows : s.Allows url)
    (hscheme : url.scheme = "http" ∨ url.scheme = "https")
    (h : OnWay s evt location url (n + 1) t) (hcalm : answer.calls = []) :
    ∃ t', t.step (.proceed answer) = some t' ∧ OnWay s evt location url n t' := by
  generalize hn : n + 1 = rank at h
  cases h with
  | headersRead t h hssl =>
    cases hn
    have hssl' : (t.dequeue.process (.headersRead evt) answer).isSsl = s.isSsl := by
      rw [h.process_headersRead, enterParseHeaders_redirect hstatus hlocation hparse]
      exact hssl
    exact ⟨_, h.proceeds answer,
      .redirect _ (h.redirect hstatus hlocation hparse hcalm) hssl'⟩
  | redirect t h hssl =>
    cases hn
    obtain ⟨hwaiting, hurl⟩ := h.redirected hssl hparse hallows
    exact ⟨_, h.proceeds answer, .redirected _ hwaiting hurl⟩
  | redirected t h hurl =>
    cases hn
    obtain ⟨hwaiting, hurl'⟩ := h.initialized hurl hscheme
    exact ⟨_, h.proceeds answer, .initialized _ hwaiting hurl'⟩
  | initialized t h hurl =>
    cases hn
    refine ⟨_, h.proceeds answer, ?_⟩
    obtain ⟨later, hlog, hlater⟩ := h.log
    have hlog' : (t.dequeue.process .initialized answer).log =
        s.log ++ (later ++ [.entered t.state .resolve, .resolving url]) := by
      simp [h.process_initialized hurl, hlog]
    refine .connected _ (hlog' ▸ List.prefix_append _ _) ?_
    rw [connectionsSince, hlog', List.drop_left, List.filterMap_append, hlater]
    rfl
  | connected => cases hn

theorem OnWay.waiting {n : ℕ} (h : OnWay s evt location url (n + 1) t) :
    ∃ state e, Waiting s t state e ∧
      ∀ elapsed, OnWay s evt location url (n + 1) (t.tick elapsed) := by
  generalize hn : n + 1 = rank at h
  cases h with
  | headersRead t h hssl => exact ⟨_, _, h, fun elapsed => .headersRead _ (h.tick elapsed) hssl⟩
  | redirect t h hssl => exact ⟨_, _, h, fun elapsed => .redirect _ (h.tick elapsed) hssl⟩
  | redirected t h hurl => exact ⟨_, _, h, fun elapsed => .redirected _ (h.tick elapsed) hurl⟩
  | initialized t h hurl => exact ⟨_, _, h, fun elapsed => .initialized _ (h.tick elapsed) hurl⟩
  | connected => cases hn

/-- Once it is connected to the URL the first connection stays that one. -/
theorem connected_step {t' : Machine} {a : Act} (hgrows : s.log <+: t.log)
    (h : (s.connectionsSince t).head? = some url) (hstep : t.step a = some t') :
    OnWay s evt location url 0 t' := by
  obtain ⟨later, hlater⟩ := hgrows
  obtain ⟨further, hfurther⟩ := (step_logged hstep).grows
  have hlog : t'.log = s.log ++ (later ++ further) := by
    rw [← hfurther, ← hlater, List.append_assoc]
  refine .connected t' (hlog ▸ List.prefix_append _ _) ?_
  rw [connectionsSince, ← hlater, List.drop_left] at h
  rw [connectionsSince, hlog, List.drop_left, List.filterMap_append, List.head?_append, h]
  rfl

/-- A redirect to a URL that is parsed, allowed and of a scheme that can be connected to. -/
theorem connectsTo_of_parse {base : FullUrl} (h : Redirected s base evt location)
    (hparse : Url.parse location = some url) (hallows : s.Allows url)
    (hscheme : url.scheme = "http" ∨ url.scheme = "https") : s.ConnectsTo url := by
  intro acts s' hcalm hrun
  have hproceed : ∀ n t answer, OnWay s evt location url (n + 1) t → answer.calls = [] →
      ∃ t', t.step (.proceed answer) = some t' ∧ OnWay s evt location url n t' :=
    fun _ _ _ => OnWay.proceed h.status h.location hparse hallows hscheme
  have hway : ∃ n, OnWay s evt location url n s' := by
    refine run_guarded (I := fun t => ∃ n, OnWay s evt location url n t)
      (G := fun _ a _ => a.Calm) ?_ ⟨4, .headersRead s h.waiting rfl⟩
      (along_of_forall fun a ha _ _ => hcalm a ha) hrun
    rintro t a t' ⟨_ | n, hway⟩ ha hstep
    · cases hway with
      | connected _ hgrows hhead => exact ⟨0, connected_step hgrows hhead hstep⟩
    · obtain ⟨state, e, hwaiting, htick⟩ := hway.waiting
      rcases hwaiting.step_cases hstep with ⟨elapsed, rfl⟩ | ⟨answer, rfl, -⟩
      · exact ⟨n + 1, htick elapsed⟩
      · obtain ⟨t'', hstep', hnext⟩ := hproceed n t answer hway ha
        rw [hstep] at hstep'
        cases hstep'
        exact ⟨n, hnext⟩
  obtain ⟨n, hway⟩ := hway
  have hnext : ∀ n t, OnWay s evt location url (n + 1) t →
      ∃ a t', a.Calm ∧ t.step a = some t' ∧ OnWay s evt location url n t' :=
    fun n t hway => ⟨.proceed {}, (hproceed n t {} hway rfl).imp fun _ ht => ⟨rfl, ht⟩⟩
  obtain ⟨acts', s'', hcalm', hrun', hzero⟩ := exists_run_to_zero hnext hway
  cases hzero with
  | connected _ _ hhead => exact ⟨acts', s'', hcalm', hrun', hhead⟩

/-! ### A Location that is not followed -/

theorem enterError_plain {error : ErrorEvent} (hplain : error.Plain) :
    s.enterError error = s.disconnect.raiseAll [.error error] := by
  rw [enterError, if_neg (mt And.left hplain)]

/-- An error that is no timeout ends the request. -/
theorem Waiting.ended {state : StateName} {error : ErrorEvent}
    (h : Waiting s t state (.error error)) (hplain : error.Plain)
    (hstate : state.isTerminate = false)
    (hrow : t.dequeue.row (.error error) = some (.error error)) :
    ∃ t', run Machine.step t [.proceed {}, .proceed {}] = some t' ∧ Ended s t' := by
  have hnext : Waiting s (t.dequeue.process (.error error) {}) .error (.error error) := by
    rw [h.process_eq {} (.error error) hstate hrow, enter, enterError_plain hplain]
    refine h.next h.crashed rfl rfl ?_ rfl rfl
    simp [h.queue_tail]
  refine ⟨_, run_cons.mpr ⟨_, h.proceeds {}, run_cons.mpr ⟨_, hnext.proceeds {}, rfl⟩⟩, ?_⟩
  generalize t.dequeue.process (.error error) {} = u at hnext
  rw [hnext.process_eq {} (.finalError error) rfl (by simp [row, hnext.state]), enter]
  obtain ⟨later, hlog, hlater⟩ := hnext.log
  have hentry : OnEntry (u.dequeue.leave .finalError) {} _ _ := .finalError error
  refine ⟨?_, later ++ [.entered u.state .finalError, .requestResponseErrorEvent error], ?_, ?_⟩
  · rw [Target.state, hentry.entered.state]
    rfl
  · simp [Target.state, hlog]
  · rw [Unconnected, List.filterMap_append, hlater]
    rfl

theorem badRedirectError_plain (statusCode : ℕ) (source problem : String) :
    (badRedirectError statusCode source problem).Plain := by
  simp [badRedirectError, ErrorEvent.Plain]

/-- A Location that is no URL by itself is an error. -/
theorem not_connectsTo_of_parse_none {base : FullUrl} (h : Redirected s base evt location)
    (hparse : Url.parse location = none) (target : Url) : ¬s.ConnectsTo target := by
  have hwaiting := h.waiting
  have hprocess : s.dequeue.process (.headersRead evt) {} =
      (s.dequeue.leave .parseHeaders).raiseAll [.error (badRedirectError evt.statusCode s.url
        (" Invalid redirect url: " ++ location))] := by
    rw [hwaiting.process_headersRead, enterParseHeaders, if_pos h.status, h.location]
    simp only [hparse]
    rfl
  have hnext : Waiting s (s.dequeue.process (.headersRead evt) {}) .parseHeaders
      (.error (badRedirectError evt.statusCode s.url (" Invalid redirect url: " ++ location))) := by
    rw [hprocess]
    refine hwaiting.next hwaiting.crashed rfl rfl ?_ rfl rfl
    simp [hwaiting.queue_tail]
  obtain ⟨t', hrun, hended⟩ := hnext.ended (badRedirectError_plain _ _ _) rfl
    (by simp [row, hnext.state])
  have hrun' : run Machine.step s [.proceed {}, .proceed {}, .proceed {}] = some t' :=
    run_cons.mpr ⟨_, hwaiting.proceeds {}, hrun⟩
  exact hended.not_connectsTo (by simp [Act.Calm]) hrun' target

/-- A URL with another scheme is an error once it is to be connected to. -/
theorem not_connectsTo_of_scheme {base : FullUrl} (h : Redirected s base evt location)
    (hparse : Url.parse location = some url) (hallows : s.Allows url)
    (hscheme : ¬(url.scheme = "http" ∨ url.scheme = "https")) (target : Url) :
    ¬s.ConnectsTo target := by
  obtain ⟨u, hu, hredirect, hssl⟩ : ∃ u, s.step (.proceed {}) = some u ∧
      Waiting s u .parseHeaders (.redirect evt location) ∧ u.isSsl = s.isSsl := by
    have hwaiting := h.waiting
    refine ⟨_, hwaiting.proceeds {}, hwaiting.redirect h.status h.location hparse rfl, ?_⟩
    rw [hwaiting.process_headersRead, enterParseHeaders_redirect h.status h.location hparse]
    rfl
  obtain ⟨v, hv, hredirected, hurl⟩ : ∃ v, u.step (.proceed {}) = some v ∧
      Waiting s v .redirect .redirected ∧ v.parsedUrl = some url :=
    ⟨_, hredirect.proceeds {}, hredirect.redirected hssl hparse hallows⟩
  have hnext : Waiting s (v.dequeue.process .redirected {}) .initializing
      (.error (unsupportedSchemeError v.url)) := by
    rw [hredirected.process_redirected, doInit_of_parsedUrl (s := v.dequeue.leave _) hurl,
      if_neg hscheme]
    refine hredirected.next hredirected.crashed rfl rfl ?_ rfl rfl
    simp [hredirected.queue_tail]
  obtain ⟨t', hrun, hended⟩ := hnext.ended (by simp [unsupportedSchemeError, ErrorEvent.Plain]) rfl
    (by simp [row, hnext.state])
  have hrest : run Machine.step v [.proceed {}, .proceed {}, .proceed {}] = some t' :=
    run_cons.mpr ⟨_, hredirected.proceeds {}, hrun⟩
  have hrun' : run Machine.step s (.proceed {} :: .proceed {} ::
      [.proceed {}, .proceed {}, .proceed {}]) = some t' :=
    run_cons.mpr ⟨u, hu, run_cons.mpr ⟨v, hv, hrest⟩⟩
  exact hended.not_connectsTo (by simp [Act.Calm]) hrun' target

/-! ### What the callback is told -/

theorem reports_iff_parse {base : FullUrl} (h : Redirected s base evt location) :
    s.Reports evt url ↔ Url.parse location = some url := by
  have hwaiting := h.waiting
  have hlog : ∀ answer, ∃ urls, (Url.parse location).toList = urls ∧
      (s.dequeue.process (.headersRead evt) answer).log = s.log ++
        .entered s.state .parseHeaders :: urls.map (.redirectHeaderReceived evt) := by
    intro answer
    rw [hwaiting.process_headersRead]
    cases hparse : Url.parse location with
    | none =>
      refine ⟨[], rfl, ?_⟩
      rw [enterParseHeaders, if_pos h.status, h.location]
      simp only [hparse]
      rfl
    | some url' =>
      refine ⟨[url'], rfl, ?_⟩
      rw [enterParseHeaders_redirect h.status h.location hparse]
      exact List.append_assoc _ _ _
  constructor
  · intro hreports
    obtain ⟨urls, hurls, hlog⟩ := hlog {}
    have hmem := hreports {} _ (hwaiting.proceeds {})
    rw [hlog, List.drop_left, ← hurls] at hmem
    simpa using hmem
  · intro hparse answer s' hstep
    obtain ⟨urls, hurls, hlog⟩ := hlog answer
    rw [hwaiting.proceeds answer] at hstep
    cases hstep
    rw [hlog, List.drop_left, ← hurls, hparse]
    simp

end Followed

/-! ### The machine against `FromRedirect` -/

section Resolution
variable {s : Machine} {base v : FullUrl} {evt : HeadersReadEvent} {location : String}

theorem parse_eq_none_iff : Url.parse location = none ↔ ¬"://".toList <:+: location.toList := by
  rw [← parse_toUrl, Option.map_eq_none_iff, ← isSome_search (by simp), FullUrl.parse]
  cases search "://".toList location.toList <;> simp

theorem parse_of_fromRedirect (hv : base.fromRedirect location.toList = some v)
    (hsep : "://".toList <:+: location.toList) :
    Url.parse location = some v.toUrl ∧
      ∃ rest, search "://".toList location.toList = some (v.scheme, rest) := by
  have hfound := (isSome_search (by simp)).mpr hsep
  rw [FullUrl.fromRedirect, if_pos hfound] at hv
  refine ⟨by rw [← parse_toUrl, hv, Option.map_some], ?_⟩
  obtain ⟨⟨scheme, rest⟩, hsearch⟩ := Option.isSome_iff_exists.mp hfound
  have hscheme : v.scheme = scheme := by
    rw [FullUrl.parse, hsearch] at hv
    have hv' := Option.some.inj hv
    rw [← hv']
    split_ifs
    · rfl
    · unfold FullUrl.parsePath
      split <;> rfl
  exact ⟨rest, hscheme ▸ hsearch⟩

/-- The callback is told the target of `FromRedirect` for every Location with a separator of a
scheme, and that target is connected to where the scheme is known. -/
theorem follows_iff (h : Redirected s base evt location)
    (hv : base.fromRedirect location.toList = some v) :
    (s.Reports evt v.toUrl ↔ "://".toList <:+: location.toList) ∧
      (s.Allows v.toUrl → (s.ConnectsTo v.toUrl ↔ SchemeFirst location)) := by
  by_cases hsep : "://".toList <:+: location.toList
  · obtain ⟨hparse, rest, hsearch⟩ := parse_of_fromRedirect hv hsep
    refine ⟨iff_of_true ((reports_iff_parse h).mpr hparse) hsep, fun hallows => ?_⟩
    have hscheme : SchemeFirst location ↔
        v.toUrl.scheme = "http" ∨ v.toUrl.scheme = "https" := by
      have hto : ∀ name : String, v.toUrl.scheme = name ↔ v.scheme = name.toList := fun name => by
        rw [FullUrl.toUrl, ← String.toList_inj, String.toList_ofList]
      rw [SchemeFirst, hsearch, hto, hto]
      constructor
      · rintro ⟨_, _, heq, hscheme⟩
        cases heq
        exact hscheme
      · exact fun hscheme => ⟨_, _, rfl, hscheme⟩
    rw [hscheme]
    constructor
    · intro hconnects
      by_contra hunknown
      exact not_connectsTo_of_scheme h hparse hallows hunknown _ hconnects
    · exact connectsTo_of_parse h hparse hallows
  · have hparse := parse_eq_none_iff.mpr hsep
    have hfirst : ¬SchemeFirst location := by
      rintro ⟨scheme, rest, hsearch, -⟩
      exact hsep ((isSome_search (by simp)).mp (hsearch ▸ rfl))
    refine ⟨iff_of_false (fun hreports => ?_) hsep, fun _ =>
      iff_of_false (not_connectsTo_of_parse_none h hparse _) hfirst⟩
    rw [(reports_iff_parse h).mp hreports] at hparse
    cases hparse

end Resolution

/-- A request for `http://h/a` that is redirected to `/new`, and what it has gone through. -/
def pathOnlyActs : List Act :=
  [.start, .proceed {}, .complete 0 [] none, .proceed {}, .complete 0 [] none, .proceed {},
    .complete 0 [] none, .proceed {},
    .complete 0 "HTTP/1.1 301 Moved\r\nLocation: /new\r\n\r\n".toUTF8.toList none]

def pathOnlyStart : Machine :=
  create { originalUrl := "http://h/a", gunzip := fun _ => .error (.exception "") } 0

def pathOnlyMachine : Machine := (run step pathOnlyStart pathOnlyActs).getD pathOnlyStart

def pathOnlyEvent : HeadersReadEvent where
  rawHeaders := "HTTP/1.1 301 Moved\r\nLocation: /new\r\n\r\n"
  httpVersion := "HTTP/1.1"
  statusCode := 301
  statusMessage := " Moved\r"
  contentLength := 0
  headers := [("location", "/new")]
  readBuffer := []

def pathOnlyBase : FullUrl where
  fullUrl := "http://h/a".toList
  scheme := "http".toList
  host := "h".toList
  port := []
  path := "/a".toList
  fullPath := "/a".toList

def pathOnlyTarget : FullUrl where
  fullUrl := "http://h/new".toList
  scheme := "http".toList
  host := "h".toList
  port := []
  path := "/new".toList
  fullPath := "/new".toList

theorem run_pathOnly : run step pathOnlyStart pathOnlyActs = some pathOnlyMachine := by
  have hsome : (run step pathOnlyStart pathOnlyActs).isSome = true := by decide +kernel
  obtain ⟨s, hs⟩ := Option.isSome_iff_exists.mp hsome
  rw [pathOnlyMachine, hs]
  rfl

theorem pathOnly_redirected :
    Redirected pathOnlyMachine pathOnlyBase pathOnlyEvent "/new" where
  crashed := by decide +kernel
  state := by decide +kernel
  queue := by decide +kernel
  tasks := by decide +kernel
  base := by decide +kernel
  status := .inl rfl
  location := rfl

theorem pathOnly_allows : pathOnlyMachine.Allows pathOnlyTarget.toUrl :=
  ⟨by decide +kernel, fun h => absurd h.2.1 (by decide +kernel)⟩

theorem pathOnly_fromRedirect :
    pathOnlyBase.fromRedirect "/new".toList = some pathOnlyTarget := by decide

/-- The machine does not follow `/new`, which leads to `http://h/new`. -/
theorem not_follows_pathOnly :
    ∃ s, run step pathOnlyStart pathOnlyActs = some s ∧
      ∃ base v, Redirected s base pathOnlyEvent "/new" ∧ base.fromRedirect "/new".toList = some v ∧
        s.Allows v.toUrl ∧ ¬s.ConnectsTo v.toUrl ∧ ¬s.Reports pathOnlyEvent v.toUrl := by
  have hparse : Url.parse "/new" = none := by decide
  refine ⟨_, run_pathOnly, _, _, pathOnly_redirected, pathOnly_fromRedirect, pathOnly_allows,
    not_connectsTo_of_parse_none pathOnly_redirected hparse _, fun hreports => ?_⟩
  rw [(reports_iff_parse pathOnly_redirected).mp hreports] at hparse
  cases hparse

theorem follows_iff_pathOnly :
    (pathOnlyMachine.Reports pathOnlyEvent pathOnlyTarget.toUrl ↔
        "://".toList <:+: "/new".toList) ∧
      (pathOnlyMachine.Allows pathOnlyTarget.toUrl →
        (pathOnlyMachine.ConnectsTo pathOnlyTarget.toUrl ↔ SchemeFirst "/new")) :=
  follows_iff pathOnly_redirected pathOnly_fromRedirect

end Machine

end MediafireSdk.Http
