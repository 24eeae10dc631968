import MediafireSdk.Http.FreshNumbers
import MediafireSdk.Http.Posting
import MediafireSdk.Http.RedirectPolicies

/-! Where the credentials of a proxy go. `ProxyConnect` writes them for a tunnel, and `SendHeader`
for a URL without SSL. Since a proxy with credentials is always asked for a tunnel, those of
`SendHeader` go through it. -/

namespace MediafireSdk.Http

open Runs

/-- The credentials of a proxy are written on a connection to a proxy, and not into a tunnel. -/
def KeepsCredentials (log : List Entry) : Prop :=
  ∀ proxy tunnelled request, Entry.wrote proxy tunnelled request ∈ log →
    request.proxyAuthorization.isSome = true → proxy.isSome = true ∧ tunnelled = false

def Entry.leaks : Entry → Bool
  | .wrote proxy tunnelled request =>
    request.proxyAuthorization.isSome && (proxy.isNone || tunnelled)
  | _ => false

theorem keepsCredentials_iff {log : List Entry} :
    KeepsCredentials log ↔ ∀ e ∈ log, e.leaks = false := by
  constructor
  · intro h e he
    cases e with
    | wrote proxy tunnelled request =>
      by_contra hleaks
      simp only [Entry.leaks, Bool.not_eq_false, Bool.and_eq_true] at hleaks
      obtain ⟨hproxy, rfl⟩ := h proxy tunnelled request he hleaks.1
      simp [Option.isSome_iff_ne_none.mp hproxy] at hleaks
    | _ => rfl
  · intro h proxy tunnelled request he hsome
    have hkeeps := h _ he
    cases proxy <;> cases tunnelled <;> simp_all [Entry.leaks]

instance (log : List Entry) : Decidable (KeepsCredentials log) :=
  decidable_of_iff _ keepsCredentials_iff.symm

def Entry.isRequest : Entry → Bool
  | .wrote _ _ _ => true
  | _ => false

theorem KeepsCredentials.append {log later : List Entry} (h : KeepsCredentials log)
    (hlater : KeepsCredentials later) : KeepsCredentials (log ++ later) := by
  intro proxy tunnelled request hmem
  rcases List.mem_append.mp hmem with hmem | hmem
  · exact h proxy tunnelled request hmem
  · exact hlater proxy tunnelled request hmem

theorem keepsCredentials_of_isRequest {log : List Entry} (h : ∀ e ∈ log, e.isRequest = false) :
    KeepsCredentials log := by
  intro proxy tunnelled request hmem
  cases h _ hmem

theorem Entry.isRequest_of_isData {e : Entry} (h : e.isData = true) : e.isRequest = false := by
  cases e <;> first | rfl | cases h

namespace Machine

/-- The event that is processed next. -/
def upcoming (s : Machine) : Option Event :=
  match s.queue, s.tasks with
  | e :: _, _ => some e
  | [], .event e :: _ => some e
  | _, _ => none

/-- The tunnel of a URL without SSL has been established, and `SendHeader` is next. -/
def IntoTunnel (s : Machine) : Prop :=
  s.state = .proxyConnect ∧ s.isSsl = false ∧ s.upcoming = some .connected

instance (s : Machine) : Decidable s.IntoTunnel := inferInstanceAs (Decidable (_ ∧ _ ∧ _))

/-! ### Transitions -/

section Entries
variable {s s' : Machine} {answer : Answer} {t : Target}

/-- What an `on_entry` does with the socket. -/
inductive Sockets (s : Machine) : Target → Machine → Prop
  | same {t : Target} {s' : Machine} (h : s'.socket = s.socket)
      (hstate : t.state = .initializing ∨ t.state = .connect → s'.crashed = true) : Sockets s t s'
  | closed {t : Target} {s' : Machine} (h : s'.socket = none) : Sockets s t s'
  | opened {t : Target} {s' : Machine} (ht : t.state = .initializing) (h : s'.socket = some {}) :
      Sockets s t s'
  | aimed (endpoint : Endpoint) {s' : Machine}
      (h : s'.socket = (s.setProxy endpoint.proxy).socket) : Sockets s (.connect endpoint) s'

theorem OnEntry.sockets (h : OnEntry s answer t s') : Sockets s t s' := by
  have hsame {t : Target} (h : s'.socket = s.socket)
      (ht : t.state ≠ .initializing ∧ t.state ≠ .connect) : Sockets s t s' :=
    .same h fun hstate => (hstate.elim ht.1 ht.2).elim
  cases h with
  | badUrl => exact .closed rfl
  | initUrl => exact .opened rfl rfl
  | unsupported => exact .closed rfl
  | crash => exact .same rfl fun _ => rfl
  | connect endpoint url hurl => exact .aimed endpoint rfl
  | proxyConnect url hurl =>
    rw [enterProxyConnect, write_eq] at hsame ⊢
    exact hsame rfl (by decide)
  | sendHeader url hurl =>
    rw [enterSendHeader, write_eq] at hsame ⊢
    exact hsame rfl (by decide)
  | sendPost post hpost =>
    refine hsame ?_ (by decide)
    unfold enterSendPost
    split
    · rfl
    · rfl
    · dsimp only
      split <;> rfl
  | follow evt redirectUrl url hdeny hdowngrade => exact .closed rfl
  | readContent evt =>
    refine hsame ?_ (by simp [Target.state])
    unfold enterReadContent
    dsimp only
    split <;> rfl
  | restart evt hcode hlimit => exact .closed rfl
  | passOn evt hcode => exact .closed rfl
  | finalError evt =>
    refine .closed ?_
    unfold enterFinalError cancelDelays
    split <;> rfl
  | complete => exact .closed rfl
  | _ => exact hsame rfl (by simp [Target.state])

/-- The credentials in a request that an `on_entry` writes. -/
def credentials (s : Machine) : Target → Option String
  | .proxyConnect => s.currentProxy.bind Proxy.authorization
  | .sendHeader => if s.isSsl then none else s.currentProxy.bind Proxy.authorization
  | _ => none

/-- What an `on_entry` writes goes through the socket. -/
structure Writes (s : Machine) (t : Target) (later : List Entry) (s' : Machine) : Prop where
  log : s'.log = s.log ++ later
  wrote : ∀ proxy tunnelled request, .wrote proxy tunnelled request ∈ later →
    s.socket = some ⟨proxy, tunnelled⟩ ∧ request.proxyAuthorization = s.credentials t

theorem OnEntry.writes (h : OnEntry s answer t s') : ∃ later, Writes s t later s' := by
  have hnone (hlog : s'.log = s.log) : ∃ later, Writes s t later s' :=
    ⟨[], by rw [hlog, List.append_nil], fun _ _ _ hmem => absurd hmem List.not_mem_nil⟩
  have hone (e : Entry) (hentry : e.isRequest = false) (hlog : s'.log = s.log ++ [e]) :
      ∃ later, Writes s t later s' := by
    refine ⟨[e], hlog, fun _ _ _ hmem => ?_⟩
    rw [← List.mem_singleton.mp hmem] at hentry
    cases hentry
  have hwritten (request : Request) (hrequest : request.proxyAuthorization = s.credentials t)
      (hlog : s'.log = s.log ++ s.written request) : ∃ later, Writes s t later s' := by
    refine ⟨_, hlog, fun proxy tunnelled request' hmem => ?_⟩
    unfold written at hmem
    cases hsocket : s.socket with
    | none => simp [hsocket] at hmem
    | some socket =>
      simp only [hsocket, Option.map_some, Option.toList_some, List.mem_singleton,
        Entry.wrote.injEq] at hmem
      obtain ⟨rfl, rfl, rfl⟩ := hmem
      exact ⟨rfl, hrequest⟩
  cases h with
  | resolve url hurl => exact hone _ rfl rfl
  | connect endpoint url hurl => exact hone _ rfl rfl
  | proxyConnect url hurl => exact hwritten _ rfl (s.enterProxyConnect_log url)
  | sendHeader url hurl => exact hwritten _ rfl (s.enterSendHeader_log url)
  | sendPost post hpost =>
    refine ⟨post.entries, s.enterSendPost_log answer hpost, ?_⟩
    cases post <;> simp [Post.entries]
  | redirectHeaders evt url location hpassed => exact hone _ rfl rfl
  | responseHeaders evt parsed hpassed => exact hone _ rfl rfl
  | readContent evt => exact hnone (s.enterReadContent_log evt)
  | finalError evt => exact hone _ rfl (s.enterFinalError_log answer evt)
  | complete => exact hone _ rfl rfl
  | _ => exact hnone rfl

/-- Nor does the pipe. -/
theorem pipe_unresolved (answer : Answer) (d : SendPostData) (endpoint : Endpoint) :
    .resolved endpoint ∉ answer.calls.map Call.event ++ d.pipeEvents answer.chunk := by
  intro hmem
  rcases List.mem_append.mp hmem with hmem | hmem
  · obtain ⟨call, -, hcall⟩ := List.mem_map.mp hmem
    cases call <;> cases hcall
  · unfold SendPostData.pipeEvents SendPostData.finish at hmem
    split at hmem <;> split_ifs at hmem <;> simp at hmem

/-- No `on_entry` raises that a name is resolved. -/
theorem OnEntry.unresolved (h : OnEntry s answer t s') :
    ∃ events, s'.queue = s.queue ++ events ∧ ∀ endpoint, .resolved endpoint ∉ events := by
  have hcalls (endpoint : Endpoint) : .resolved endpoint ∉ s.callbackCalls answer :=
    not_mem_of_isError (s.callbackCalls_isError answer) rfl
  cases h with
  | sendPost post hpost =>
    unfold enterSendPost
    split
    · exact ⟨[], (List.append_nil _).symm, fun _ => List.not_mem_nil⟩
    · exact ⟨[], (List.append_nil _).symm, fun _ => List.not_mem_nil⟩
    · dsimp only
      split <;> exact ⟨_, rfl, pipe_unresolved answer _⟩
  | proxyConnect url hurl =>
    rw [enterProxyConnect, write_eq]
    exact ⟨[], (List.append_nil _).symm, fun _ => List.not_mem_nil⟩
  | sendHeader url hurl =>
    rw [enterSendHeader, write_eq]
    exact ⟨[], (List.append_nil _).symm, fun _ => List.not_mem_nil⟩
  | readContent evt =>
    have hraised (endpoint : Endpoint) :
        .resolved endpoint ∉ (onEntry evt).outputs.filterMap Output.event := by
      intro hmem
      obtain ⟨output, -, hevent⟩ := List.mem_filterMap.mp hmem
      cases output <;> cases hevent
    unfold enterReadContent
    dsimp only
    split <;> exact ⟨_, rfl, hraised⟩
  | finalError evt =>
    refine ⟨s.callbackCalls answer, ?_, hcalls⟩
    unfold enterFinalError cancelDelays
    split <;> rfl
  | complete => exact ⟨_, rfl, hcalls⟩
  | redirectHeaders evt url location hpassed => exact ⟨_, rfl, by simp [hcalls]⟩
  | responseHeaders evt parsed hpassed => exact ⟨_, rfl, by simp [hcalls]⟩
  | resolve | connect | sslHandshake | readHeaders | crash =>
    exact ⟨[], (List.append_nil _).symm, fun _ => List.not_mem_nil⟩
  | _ => exact ⟨_, rfl, by simp⟩

/-- The state in which an operation is under way, and the proxy it is about. -/
def Suits (s : Machine) : OpKind → Prop
  | .resolve endpoint => s.state = .resolve ∧ endpoint.proxy = s.currentProxy
  | .proxyWrite | .proxyRead => s.state = .proxyConnect
  | _ => True

theorem Suits.congr {kind : OpKind} (h : s.Suits kind) (hstate : s'.state = s.state)
    (hproxy : s'.currentProxy = s.currentProxy) : s'.Suits kind := by
  cases kind with
  | resolve endpoint => exact ⟨hstate.trans h.1, h.2.trans hproxy.symm⟩
  | proxyWrite => exact hstate.trans h
  | proxyRead => exact hstate.trans h
  | _ => trivial

theorem endpoint_proxy (s : Machine) (url : Url) : (s.endpoint url).proxy = s.currentProxy := by
  unfold endpoint
  cases s.currentProxy <;> rfl

theorem OnEntry.suits (h : OnEntry s answer t s') (hnumbered : Numbered s) (hlive : s.live = none)
    (hstate : s.state = t.state) : ∀ op ∈ s'.ops, s'.live = some op.owner → s'.Suits op.kind := by
  have hnone (hlive' : s'.live = s.live) :
      ∀ op ∈ s'.ops, s'.live = some op.owner → s'.Suits op.kind := by
    intro op _ howner
    rw [hlive', hlive] at howner
    cases howner
  have hbare {op : Op} (hop : op ∈ s.ops) (howner : some s.fresh = some op.owner) : False :=
    absurd (hnumbered.ops op hop).1 (by rw [← Option.some.inj howner]; exact lt_irrefl _)
  have hkind {ops : List Op} {kind : OpKind} (race : ℕ)
      (hops : ops = s.ops ++ [{ owner := s.fresh, race := race, kind := kind }]) :
      ∀ op ∈ ops, some s.fresh = some op.owner → op.kind = kind := by
    intro op hop howner
    rw [hops] at hop
    rcases List.mem_append.mp hop with hop | hop
    · exact (hbare hop howner).elim
    · rw [List.mem_singleton.mp hop]
  cases h with
  | resolve url hurl =>
    intro op hop howner
    rw [hkind _ rfl op hop howner]
    exact ⟨hstate, s.endpoint_proxy url⟩
  | connect endpoint url hurl =>
    intro op hop howner
    rw [hkind _ rfl op hop howner]
    trivial
  | proxyConnect url hurl =>
    rw [enterProxyConnect, write_eq]
    intro op hop howner
    rw [hkind _ rfl op hop howner]
    exact hstate
  | sslHandshake =>
    intro op hop howner
    rw [hkind _ rfl op hop howner]
    trivial
  | sendHeader url hurl =>
    rw [enterSendHeader, write_eq]
    intro op hop howner
    rw [hkind _ rfl op hop howner]
    trivial
  | sendPost post hpost =>
    unfold enterSendPost
    split
    · exact fun op hop howner => absurd (hlive.symm.trans howner) (by rintro ⟨⟩)
    · intro op hop howner
      rw [hkind _ rfl op hop howner]
      trivial
    · dsimp only
      split <;> exact fun op hop howner => (hbare hop howner).elim
  | readHeaders =>
    intro op hop howner
    rw [hkind _ rfl op hop howner]
    trivial
  | readContent evt =>
    unfold enterReadContent
    dsimp only
    split
    · exact fun op hop howner => (hbare hop howner).elim
    · intro op hop howner
      rw [hkind _ rfl op hop howner]
      trivial
  | finalError evt => exact hnone (s.enterFinalError_live answer evt)
  | _ => exact hnone rfl

end Entries

/-- Which proxy the socket is connected to, if any, and whether there is a tunnel. -/
structure Routed (s : Machine) : Prop where
  untunnelled : s.crashed = false →
    s.state = .initializing ∨ s.state = .resolve ∨ s.state = .connect →
      ∀ socket ∈ s.socket, socket.tunnelled = false
  aimed : s.crashed = false → s.state = .connect → ∀ socket ∈ s.socket,
    socket.proxy = s.currentProxy
  ssl : s.state = .sslHandshake → s.isSsl = true
  ops : ∀ op ∈ s.ops, s.live = some op.owner → s.Suits op.kind
  resolved : ∀ endpoint, .event (.resolved endpoint) ∈ s.pending →
    s.pending = [.event (.resolved endpoint)] ∧
      (s.state = .resolve → endpoint.proxy = s.currentProxy)
  log : KeepsCredentials s.log

section Routed
variable {s s' : Machine}

theorem authorization_of_not_required (h : s.proxyConnectRequired = false) :
    s.isSsl = false ∧ s.currentProxy.bind Proxy.authorization = none ∨ s.currentProxy = none := by
  unfold proxyConnectRequired at h
  cases hproxy : s.currentProxy with
  | none => exact .inr rfl
  | some proxy =>
    rw [hproxy] at h
    simp only [ne_eq, Bool.or_eq_false_iff, decide_eq_false_iff_not, not_not] at h
    exact .inl ⟨h.2, by simp [Proxy.authorization, h.1]⟩

theorem currentProxy_of_required (h : s.proxyConnectRequired = true) :
    s.currentProxy.isSome = true := by
  unfold proxyConnectRequired at h
  cases hproxy : s.currentProxy with
  | none =>
    rw [hproxy] at h
    cases h
  | some proxy => rfl

/-! What a row says about the credentials of its target. -/

/-- What `SendHeader` writes has no credentials, but through the tunnel of a URL without SSL. -/
theorem Row.credentials_sendHeader {e : Event} (h : Row s e .sendHeader)
    (hssl : s.state = .sslHandshake → s.isSsl = true)
    (htunnel : s.state = .proxyConnect → s.isSsl = false → e ≠ .connected) :
    s.credentials .sendHeader = none := by
  rw [credentials]
  split_ifs with hisSsl
  · rfl
  · have hplain := Bool.eq_false_iff.mpr hisSsl
    generalize ht : Target.sendHeader = t at h
    cases h with
    | connected hstate hproxy =>
      rcases authorization_of_not_required hproxy with ⟨-, hnone⟩ | hnone
      · exact hnone
      · rw [hnone]
        rfl
    | tunnelled hstate => exact absurd rfl (htunnel hstate hplain)
    | handshake hstate => exact absurd (hssl hstate) hisSsl
    | headersWritten hstate => split_ifs at ht
    | _ => cases ht

theorem Row.proxyConnect_source {e : Event} (h : Row s e .proxyConnect) :
    s.state = .connect ∧ s.currentProxy.isSome = true := by
  generalize ht : Target.proxyConnect = t at h
  cases h with
  | proxyRequired hstate hproxy => exact ⟨hstate, currentProxy_of_required hproxy⟩
  | connected => split_ifs at ht
  | tunnelled => split_ifs at ht
  | headersWritten => split_ifs at ht
  | _ => cases ht

theorem Row.sslHandshake_source {e : Event} (h : Row s e .sslHandshake) : s.isSsl = true := by
  generalize ht : Target.sslHandshake = t at h
  cases h with
  | connected hstate hproxy =>
    by_contra hssl
    rw [if_neg hssl] at ht
    cases ht
  | tunnelled hstate =>
    by_contra hssl
    rw [if_neg hssl] at ht
    cases ht
  | headersWritten => split_ifs at ht
  | _ => cases ht

theorem Row.connect_event {e : Event} {endpoint : Endpoint} (h : Row s e (.connect endpoint)) :
    e = .resolved endpoint ∧ s.state = .resolve := by
  generalize ht : Target.connect endpoint = t at h
  cases h with
  | resolved endpoint' hstate =>
    cases ht
    exact ⟨rfl, hstate⟩
  | connected => split_ifs at ht
  | tunnelled => split_ifs at ht
  | headersWritten => split_ifs at ht
  | _ => cases ht

/-! ### Steps -/

theorem Routed.process (h : Routed s) (hnumbered : Numbered s) (hcrashed : s.crashed = false)
    (hpending : ∀ endpoint, .event (.resolved endpoint) ∉ s.pending) {e : Event}
    (hresolved : ∀ endpoint, e = .resolved endpoint → s.state = .resolve →
      endpoint.proxy = s.currentProxy)
    (htunnel : s.state = .proxyConnect → s.isSsl = false → e ≠ .connected) (answer : Answer) :
    Routed (s.process e answer) := by
  refine process_cases s e answer (fun _ => h) (fun _ _ => ?_) fun t s' _ hrow hentry => ?_
  · refine ⟨h.untunnelled, h.aimed, h.ssl, h.ops, h.resolved, h.log.append ?_⟩
    exact keepsCredentials_of_isRequest (by simp [Entry.isRequest])
  have hstate : s'.state = t.state := hentry.entered.state
  refine ⟨fun hcrashed' hstate' socket hmem => ?_, fun hcrashed' hconnect socket hmem => ?_,
    fun hssl => ?_, ?_, fun endpoint hmem => ?_, ?_⟩
  · rw [hstate] at hstate'
    cases hentry.sockets with
    | same hsame hin =>
      rcases hstate' with hinit | hresolve | hconnect
      · rw [hin (.inl hinit)] at hcrashed'
        cases hcrashed'
      · exact h.untunnelled hcrashed (.inl (hrow.resolve_source hresolve)) socket (hsame ▸ hmem)
      · rw [hin (.inr hconnect)] at hcrashed'
        cases hcrashed'
    | closed hnone => rw [hnone] at hmem; cases hmem
    | opened _ hopened => rw [hopened] at hmem; cases hmem; rfl
    | aimed endpoint haimed =>
      rw [haimed] at hmem
      obtain ⟨before, hbefore, rfl⟩ := Option.map_eq_some_iff.mp hmem
      exact h.untunnelled hcrashed (.inr (.inl hrow.connect_event.2)) before hbefore
  · rw [hstate] at hconnect
    cases hentry.sockets with
    | same _ hin => rw [hin (.inr hconnect)] at hcrashed'; cases hcrashed'
    | closed hnone => rw [hnone] at hmem; cases hmem
    | opened ht => rw [ht] at hconnect; cases hconnect
    | aimed endpoint haimed =>
      rw [haimed] at hmem
      obtain ⟨before, -, rfl⟩ := Option.map_eq_some_iff.mp hmem
      obtain ⟨hevent, hsource⟩ := hrow.connect_event
      rcases hentry.aims nofun with haims | ⟨hredirect, -⟩
      · refine (hresolved endpoint hevent hsource).trans ?_
        simp [currentProxy, haims.isSsl, hentry.entered.cfg]
      · cases hredirect
  · rw [hstate] at hssl
    cases t <;> cases hssl
    rcases hentry.aims nofun with haims | ⟨hredirect, -⟩
    · exact haims.isSsl.trans hrow.sslHandshake_source
    · cases hredirect
  · exact hentry.suits (hnumbered.leave t.state) rfl rfl
  · obtain ⟨events, hqueue, hevents⟩ := hentry.unresolved
    rw [pending, hqueue, hentry.entered.tasks] at hmem
    simp only [leave_queue, leave_tasks, List.map_append, List.mem_append, List.mem_map,
      Task.event.injEq, exists_eq_right] at hmem
    rcases hmem with (hmem | hmem) | hmem
    · exact (hpending endpoint (List.mem_append_left _ (List.mem_map_of_mem hmem))).elim
    · exact (hevents endpoint hmem).elim
    · exact (hpending endpoint (List.mem_append_right _ hmem)).elim
  · obtain ⟨later, hwrites⟩ := hentry.writes
    rw [hwrites.log, leave_log]
    refine (h.log.append (keepsCredentials_of_isRequest ?_)).append
      fun proxy tunnelled request hmem hsome => ?_
    · simp [Entry.isRequest]
    obtain ⟨hsocket, hrequest⟩ := hwrites.wrote proxy tunnelled request hmem
    rw [hrequest] at hsome
    cases t with
    | proxyConnect =>
      obtain ⟨hsource, hproxy⟩ := hrow.proxyConnect_source
      have hproxy' := h.aimed hcrashed hsource _ hsocket
      have htunnelled := h.untunnelled hcrashed (.inr (.inr hsource)) _ hsocket
      exact ⟨by rw [show proxy = _ from hproxy']; exact hproxy, htunnelled⟩
    | sendHeader =>
      rw [show (s.leave _).credentials .sendHeader = s.credentials .sendHeader from rfl,
        hrow.credentials_sendHeader h.ssl htunnel] at hsome
      cases hsome
    | _ => cases hsome

/-- Between the transitions no more is raised than a name that an operation has resolved. -/
theorem Routed.keep (h : Routed s) (hcrashed : s.crashed = false) (hunmoved : Unmoved s s')
    (hsocket : s'.socket = s.socket ∨ s.state = .proxyConnect)
    (hops : ∀ op ∈ s'.ops, op ∈ s.ops ∨ s'.Suits op.kind)
    (hresolved : ∀ endpoint, .event (.resolved endpoint) ∈ s'.pending →
      s'.pending = [.event (.resolved endpoint)] ∧
        (s'.state = .resolve → endpoint.proxy = s'.currentProxy)) : Routed s' := by
  obtain ⟨data, hlog, hdata⟩ := hunmoved.log
  have hproxy : s'.currentProxy = s.currentProxy := by
    rw [currentProxy, hunmoved.isSsl, hunmoved.cfg]
    rfl
  refine ⟨fun _ hstate => ?_, fun _ hconnect => ?_, fun hssl => ?_, fun op hop hlive => ?_,
    hresolved, ?_⟩
  · rw [hunmoved.state] at hstate
    rcases hsocket with hsocket | htunnel
    · rw [hsocket]
      exact h.untunnelled hcrashed hstate
    · simp [htunnel] at hstate
  · rw [hunmoved.state] at hconnect
    rcases hsocket with hsocket | htunnel
    · rw [hsocket, hproxy]
      exact h.aimed hcrashed hconnect
    · simp [htunnel] at hconnect
  · rw [hunmoved.isSsl]
    exact h.ssl (hunmoved.state.symm.trans hssl)
  · rcases hops op hop with hop | hsuits
    · exact (h.ops op hop (hunmoved.live.symm.trans hlive)).congr hunmoved.state hproxy
    · exact hsuits
  · rw [hlog]
    exact h.log.append
      (keepsCredentials_of_isRequest fun e he => Entry.isRequest_of_isData (hdata e he))

/-- A resolved name is all that there is to do. -/
theorem Routed.rest (h : Routed s) {t : Task} {rest : List Task} (hpending : s.pending = t :: rest)
    (endpoint : Endpoint) : .event (.resolved endpoint) ∉ rest := by
  intro hmem
  obtain ⟨honly, -⟩ := h.resolved endpoint (hpending ▸ List.mem_cons_of_mem _ hmem)
  rw [hpending] at honly
  rw [(List.cons.inj honly).2] at hmem
  cases hmem

/-- The event at the head is processed. -/
theorem Routed.head (h : Routed s) (hnumbered : Numbered s') (hcrashed : s.crashed = false)
    (hunmoved : Unmoved s s') (hsocket : s'.socket = s.socket) (hops : s'.ops = s.ops)
    (hcrashed' : s'.crashed = s.crashed) {e : Event} (hpending : s.pending = .event e :: s'.pending)
    (htunnel : s.state = .proxyConnect → s.isSsl = false → e ≠ .connected) (answer : Answer) :
    Routed (s'.process e answer) := by
  have hrest := h.rest hpending
  have hkept : Routed s' := h.keep hcrashed hunmoved (.inl hsocket)
    (fun op hop => .inl (hops ▸ hop)) fun endpoint hmem => (hrest endpoint hmem).elim
  refine hkept.process hnumbered (hcrashed'.trans hcrashed) hrest ?_ ?_ answer
  · rintro endpoint rfl hstate
    rw [currentProxy, hunmoved.isSsl, hunmoved.cfg]
    exact (h.resolved endpoint (hpending ▸ List.mem_cons_self)).2 (hunmoved.state.symm.trans hstate)
  · rw [hunmoved.state, hunmoved.isSsl]
    exact htunnel

theorem Handled.routed {owner : ℕ} {kind : OpKind} (hhandled : Handled s owner kind s')
    (h : Routed s) (hcrashed : s.crashed = false) (hpending : s.pending = [])
    (hsuits : s.Suits kind) : Routed s' := by
  obtain ⟨hqueue, htasks⟩ := List.append_eq_nil_iff.mp hpending
  have hkept := hhandled.kept
  have hunmoved := Unmoved.of_kept hkept
  cases hhandled with
  | event _ e hraises =>
    refine h.keep hcrashed hunmoved (.inl rfl) (fun op hop => .inl hop) fun endpoint hmem => ?_
    have hevents : (s.next [.event e]).pending = [.event e] := by
      simp [Machine.pending, htasks, List.map_eq_nil_iff.mp hqueue]
    rw [hevents, List.mem_singleton] at hmem
    cases hmem
    cases hraises
    exact ⟨hevents, fun _ => hsuits.2⟩
  | established =>
    refine h.keep hcrashed hunmoved (.inr hsuits) (fun op hop => .inl hop) fun endpoint hmem => ?_
    simp [Machine.pending, establish, htasks, List.map_eq_nil_iff.mp hqueue] at hmem
  | proxyRead =>
    refine h.keep hcrashed hunmoved (.inl rfl) (fun op hop => ?_) fun endpoint hmem => ?_
    · rcases List.mem_append.mp hop with hop | hop
      · exact .inl hop
      · rw [List.mem_singleton.mp hop]
        exact .inr hsuits
    · simp [Machine.pending, htasks, List.map_eq_nil_iff.mp hqueue] at hmem
  | pipe size hpost =>
    refine h.keep hcrashed hunmoved (.inl rfl) (fun op hop => .inl hop) fun endpoint hmem => ?_
    simp [Machine.pending, htasks, List.map_eq_nil_iff.mp hqueue] at hmem
  | content op received tasks d hcontent =>
    refine h.keep hcrashed hunmoved (.inl rfl) (fun op hop => .inl hop) fun endpoint hmem => ?_
    have hmem' : .event (.resolved endpoint) ∈ tasks := by
      simpa [Machine.pending, htasks, List.map_eq_nil_iff.mp hqueue] using hmem
    cases hcontent <;> simp at hmem'

theorem not_crashed {a : Act} (h : s.step a = some s') : s.crashed = false := by
  unfold step at h
  split at h
  · cases h
  · exact Bool.eq_false_iff.mpr ‹_›

/-- The next task is run. -/
theorem Routed.runTask (h : Routed s) (hnumbered : Numbered s) (hcrashed : s.crashed = false)
    {t : Task} {tasks : List Task} (hqueue : s.queue = []) (htasks : s.tasks = t :: tasks)
    (htunnel : s.state = .proxyConnect → s.isSsl = false → t ≠ .event .connected)
    (answer : Answer) : Routed ((s.setTasks tasks).runTask t answer) := by
  have hpending : s.pending = t :: (s.setTasks tasks).pending := by
    simp [pending, hqueue, htasks]
  have hrest := h.rest hpending
  have htail (endpoint : Endpoint) : .event (.resolved endpoint) ∉ tasks := by
    simpa [pending, hqueue] using hrest endpoint
  have hset := s.setTasks_kept tasks
  cases t with
  | event e =>
    refine h.head (hnumbered.dropTask htasks) hcrashed (.of_kept hset) rfl rfl rfl hpending ?_
      answer
    rintro hstate hssl rfl
    exact htunnel hstate hssl rfl
  | content startPos buffer =>
    have hunmoved : Unmoved s ((s.setTasks tasks).runTask (.content startPos buffer) answer) :=
      ⟨rfl, rfl, rfl, rfl, rfl, rfl, [.responseContentReceived startPos buffer], rfl,
        by simp [Entry.isData]⟩
    refine h.keep hcrashed hunmoved (.inl rfl) (fun op hop => .inl hop) fun endpoint hmem => ?_
    have hcalls : .resolved endpoint ∉ (s.setTasks tasks).callbackCalls answer :=
      not_mem_of_isError (callbackCalls_isError _ answer) rfl
    have hmem' : .resolved endpoint ∈ (s.setTasks tasks).callbackCalls answer ∨
        .event (.resolved endpoint) ∈ tasks := by
      simpa [pending, Machine.runTask, hqueue, callbackCalls] using hmem
    exact (hmem'.elim hcalls (htail endpoint)).elim
  | start owner op =>
    rw [Machine.runTask]
    have hunmoved := Unmoved.of_kept (hset.trans (startContent_kept _ owner op))
    refine h.keep hcrashed hunmoved (.inl ?_) (fun op' hop => ?_) fun endpoint hmem => ?_
    · unfold startContent
      split_ifs <;> rfl
    · unfold startContent at hop
      split_ifs at hop
      · exact .inl hop
      · rcases List.mem_append.mp hop with hop | hop
        · exact .inl hop
        · rw [List.mem_singleton.mp hop]
          exact .inr trivial
    · have hsame : ((s.setTasks tasks).startContent owner op).pending =
          (s.setTasks tasks).pending := by
        unfold startContent
        split_ifs <;> rfl
      exact (hrest endpoint (hsame ▸ hmem)).elim
  | delayPost owner postData =>
    exact h.keep hcrashed (.of_kept (hset.trans (delay_kept _ owner _))) (.inl rfl)
      (fun op hop => .inl hop) fun endpoint hmem => (hrest endpoint hmem).elim
  | pipe owner =>
    have hunmoved : Unmoved s ((s.setTasks tasks).postViaInterface owner answer) :=
      ⟨rfl, rfl, rfl, rfl, rfl, rfl, [], (List.append_nil _).symm, List.forall_mem_nil _⟩
    refine h.keep hcrashed hunmoved (.inl rfl) (fun op hop => .inl hop) fun endpoint hmem => ?_
    have hpipe := pipe_unresolved answer s.sendPostData endpoint
    have hmem' : .event (.resolved endpoint) ∈ (answer.calls.map Call.event ++
        s.sendPostData.pipeEvents answer.chunk).map Task.event ++ tasks := by
      rw [Machine.runTask, pending, postViaInterface, next_queue, next_tasks, readPipe_queue,
        readPipe_tasks, setTasks_queue, setTasks_tasks, hqueue, List.map_nil, List.nil_append,
        List.append_assoc] at hmem
      rcases List.mem_append.mp hmem with hmem | hmem
      · exact List.mem_append_left _ hmem
      · rcases List.mem_append.mp hmem with hmem | hmem
        · split_ifs at hmem <;> simp at hmem
        · exact List.mem_append_right _ hmem
    rcases List.mem_append.mp hmem' with hmem' | hmem'
    · obtain ⟨e, he, heq⟩ := List.mem_map.mp hmem'
      cases heq
      exact (hpipe he).elim
    · exact (htail endpoint hmem').elim

theorem Routed.step {a : Act} (h : Routed s) (hnumbered : Numbered s)
    (htunnel : ∀ answer, a = .proceed answer → ¬s.IntoTunnel) (hstep : s.step a = some s') :
    Routed s' := by
  have hcrashed := not_crashed hstep
  have hidle (hqueue : s.queue = []) (htasks : s.tasks = []) : s.pending = [] := by
    rw [pending, hqueue, htasks]
    rfl
  have hraised (hpending : s.pending = []) (e : Event)
      (he : ∀ endpoint, e ≠ .resolved endpoint) (he' : e ≠ .connected) (answer : Answer) :
      Routed (s.process e answer) := by
    refine h.process hnumbered hcrashed ?_ (fun endpoint heq => (he endpoint heq).elim)
      (fun _ _ => he') answer
    rw [hpending]
    exact fun _ => List.not_mem_nil
  cases step_cases hstep with
  | clock elapsed =>
    exact h.keep hcrashed (.of_kept (s.tick_kept elapsed)) (.inl rfl) (fun op hop => .inl hop)
      h.resolved
  | queued e queue answer hqueue =>
    have hpending : s.pending = .event e :: (s.setQueue queue).pending := by
      simp [pending, hqueue]
    have hunmoved : Unmoved s (s.setQueue queue) :=
      ⟨rfl, rfl, rfl, rfl, rfl, rfl, [], (List.append_nil _).symm, List.forall_mem_nil _⟩
    have hnumbered' : Numbered (s.setQueue queue) := hnumbered.congr rfl rfl rfl rfl rfl rfl rfl
    refine h.head hnumbered' hcrashed hunmoved rfl rfl rfl hpending ?_ answer
    rintro hstate hssl rfl
    exact htunnel answer rfl ⟨hstate, hssl, by simp [upcoming, hqueue]⟩
  | task t tasks answer hqueue htasks =>
    refine h.runTask hnumbered hcrashed hqueue htasks ?_ answer
    rintro hstate hssl rfl
    exact htunnel answer rfl ⟨hstate, hssl, by simp [upcoming, hqueue, htasks]⟩
  | start hqueue htasks => exact hraised (hidle hqueue htasks) .start (by simp) (by simp) {}
  | call call hqueue htasks =>
    refine hraised (hidle hqueue htasks) _ ?_ ?_ {} <;> cases call <;> simp [Call.event]
  | complete i op received err hqueue htasks hop =>
    have hops (op' : Op) (hop' : op' ∈ s.ops.eraseIdx i) : op' ∈ s.ops :=
      List.mem_of_mem_eraseIdx hop'
    have hset : Routed (s.setOps (s.ops.eraseIdx i)) :=
      h.keep hcrashed (.of_kept (s.setOps_kept _)) (.inl rfl) (fun op' hop' => .inl (hops op' hop'))
        h.resolved
    refine completed_cases (P := Routed) _ op received err hset ?_ fun s' hlive _ hhandled => ?_
    · exact hset.keep hcrashed (.of_kept (take_kept _ _)) (.inl rfl) (fun op' hop' => .inl hop')
        hset.resolved
    · have hkept := (take_kept (s.setOps (s.ops.eraseIdx i)) op.race).trans
        (clearAsyncTimeout_kept _)
      have hcleared := hset.keep hcrashed (.of_kept hkept) (.inl rfl) (fun op' hop' => .inl hop')
        hset.resolved
      exact hhandled.routed hcleared hcrashed (hidle hqueue htasks)
        (h.ops op (List.mem_of_getElem? hop) hlive)
  | timer i t err hqueue htasks ht hcompletes =>
    have hset : Routed (s.setTimers (s.timers.eraseIdx i)) :=
      h.keep hcrashed (.of_kept (s.setTimers_kept _)) (.inl rfl) (fun op hop => .inl hop) h.resolved
    have htaken : Routed ((s.setTimers (s.timers.eraseIdx i)).take t.race) :=
      hset.keep hcrashed (.of_kept (take_kept _ _)) (.inl rfl) (fun op hop => .inl hop)
        hset.resolved
    refine timedOut_cases (P := Routed) _ t err hset htaken fun _ _ => ?_
    refine htaken.keep hcrashed (.of_kept (next_kept _ _)) (.inl rfl) (fun op hop => .inl hop)
      fun endpoint hmem => ?_
    simp [pending, hqueue, htasks] at hmem
  | delay i d err hqueue htasks hd =>
    have hset : Routed (s.setDelays (s.delays.eraseIdx i)) :=
      h.keep hcrashed (.of_kept (s.setDelays_kept _)) (.inl rfl) (fun op hop => .inl hop) h.resolved
    have hasync {s' : Machine} (owner : ℕ) (reason : String) (timeoutSeconds : ℕ) (kind : OpKind)
        (hkind : (s'.async owner reason timeoutSeconds kind).Suits kind) (hunmoved : Unmoved s s')
        (hsocket : s'.socket = s.socket) (hops : s'.ops = s.ops) (hpending : s'.pending = []) :
        Routed (s'.async owner reason timeoutSeconds kind) := by
      refine h.keep hcrashed ⟨hunmoved.cfg, hunmoved.url, hunmoved.state, hunmoved.parsedUrl,
        hunmoved.isSsl, hunmoved.live, hunmoved.log⟩ (.inl hsocket) (fun op hop => ?_) ?_
      · rcases List.mem_append.mp hop with hop | hop
        · exact .inl (hops ▸ hop)
        · rw [List.mem_singleton.mp hop]
          exact .inr hkind
      · rw [show (s'.async owner reason timeoutSeconds kind).pending = [] from hpending]
        exact fun _ hmem => absurd hmem List.not_mem_nil
    refine delayed_cases (P := Routed) _ d err hset (fun postData _ _ => ?_)
      fun op next enabled _ _ _ => ?_
    · exact hasync _ _ _ _ trivial ⟨rfl, rfl, rfl, rfl, rfl, rfl, [.wrotePost postData], rfl,
        by simp [Entry.isData]⟩ rfl rfl (hidle hqueue htasks)
    · exact hasync _ _ _ _ trivial ⟨rfl, rfl, rfl, rfl, rfl, rfl, [], (List.append_nil _).symm,
        List.forall_mem_nil _⟩ rfl rfl (hidle hqueue htasks)

theorem routed_create (cfg : Config) (time : ℕ) : Routed (create cfg time) :=
  ⟨nofun, nofun, nofun, nofun, nofun, nofun⟩

end Routed

/-! ### Runs -/

/-- Whatever the proxies are and wherever it is redirected, a request that sends no headers into
the tunnel of a URL without SSL keeps the credentials from everyone but the proxies. -/
theorem run_keepsCredentials {cfg : Config} {time : ℕ} {acts : List Act}
    (h : Along step (fun s a _ => ∀ answer, a = .proceed answer → ¬s.IntoTunnel)
      (create cfg time) acts) :
    Always step (fun s => KeepsCredentials s.log) (create cfg time) acts := by
  refine Always.of_guarded (I := fun s => Routed s ∧ Numbered s) (fun s hs => hs.1.log) ?_
    ⟨routed_create cfg time, numbered_create cfg time⟩ h
  rintro s a s' ⟨hrouted, hnumbered⟩ htunnel hstep
  exact ⟨hrouted.step hnumbered htunnel hstep, hnumbered.step hstep⟩

/-! ### A tunnel for a URL without SSL -/

/-- A request for a URL, with proxies that have credentials. -/
def behindProxies (originalUrl : String) : Machine :=
  create { originalUrl := originalUrl
           httpProxy := some { host := "p", port := 1, username := "u", password := "" }
           httpsProxy := some { host := "q", port := 2, username := "u", password := "" }
           gunzip := fun _ => .ok [] } 0

/-- A proxy is found, connected to, and establishes the tunnel. -/
def throughTunnel : List Act :=
  [.start, .proceed {}, .complete 0 [] none, .proceed {}, .complete 0 [] none, .proceed {},
    .complete 0 [] none, .complete 0 "HTTP/1.1 200 OK\r\n\r\n".toUTF8.toList none, .proceed {}]

/-- With SSL, the request itself follows the handshake. -/
def behindHandshake : List Act := throughTunnel ++ [.complete 0 [] none, .proceed {}]

theorem run_keepsCredentials_ssl :
    (run step (behindProxies "https://h/") behindHandshake).isSome = true ∧
      Always step (fun s => KeepsCredentials s.log) (behindProxies "https://h/")
        behindHandshake := by
  refine ⟨by decide +kernel, run_keepsCredentials
    (along_of_check (p := fun s _ => !decide s.IntoTunnel) ?_ ?_)⟩
  · intro s a s' hcheck answer _ htunnel
    simp [htunnel] at hcheck
  · decide +kernel

/-- Without SSL the headers go to the server with the credentials of the proxy. -/
theorem not_keepsCredentials_throughTunnel :
    ¬Always step (fun s => KeepsCredentials s.log) (behindProxies "http://h/") throughTunnel := by
  intro h
  have hleaks : ((run step (behindProxies "http://h/") throughTunnel).map
      fun s => decide (KeepsCredentials s.log)) = some false := by
    decide +kernel
  obtain ⟨s, hs, hlog⟩ := Option.map_eq_some_iff.mp hleaks
  exact of_decide_eq_false hlog (h.last hs)

end Machine

end MediafireSdk.Http
