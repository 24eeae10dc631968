import MediafireSdk.Http.Tasks

/-! The redirect policy over a whole request. The check of a redirect looks at the connection that
the redirect came over and at the scheme of the next URL; both outlive the restarts. -/

namespace MediafireSdk.Http

open Runs

/-- The URL that is connected to. -/
def Entry.connects : Entry → Option Url
  | .connecting url => some url
  | _ => none

/-- The second of two connections is a step down from SSL. -/
def Downgrades (e e' : Entry) : Prop :=
  ∃ url ∈ e.connects, ∃ url' ∈ e'.connects, url.scheme = "https" ∧ url'.scheme = "http"

/-- What a redirect policy promises: no connection to an `http` URL behind one to an `https` URL,
or none but to the original URL. -/
structure KeepsPolicy (cfg : Config) (log : List Entry) : Prop where
  denyDowngrade : cfg.redirectPolicy = .denyDowngrade → log.Pairwise fun e e' => ¬Downgrades e e'
  deny : cfg.redirectPolicy = .deny → ∀ e ∈ log, ∀ url ∈ e.connects,
    Url.parse cfg.originalUrl = some url

theorem Entry.connects_of_isData {e : Entry} (h : e.isData = true) : e.connects = none := by
  cases e <;> first | rfl | cases h

namespace Machine

/-! ### Transitions -/

/-- What an `on_entry` does with the URL and the log. -/
structure Logs (s : Machine) (t : Target) (later : List Entry) (s' : Machine) : Prop where
  log : s'.log = s.log ++ later
  length : later.length ≤ 1
  connects : ∀ e ∈ later, ∀ url ∈ e.connects, s.parsedUrl = some url ∧ t.state = .connect

section Entries
variable {s s' : Machine} {answer : Answer} {t : Target}

theorem OnEntry.logs (h : OnEntry s answer t s') : ∃ later, Logs s t later s' := by
  have hnone (hlog : s'.log = s.log) : ∃ later, Logs s t later s' :=
    ⟨[], by rw [hlog, List.append_nil], Nat.zero_le 1,
      List.forall_mem_nil _⟩
  have hone (e : Entry) (hconnects : e.connects = none) (hlog : s'.log = s.log ++ [e]) :
      ∃ later, Logs s t later s' :=
    ⟨[e], hlog, le_rfl, by simp [hconnects]⟩
  have hwritten (request : Request) (hlog : s'.log = s.log ++ s.written request) :
      ∃ later, Logs s t later s' := by
    refine ⟨_, hlog, ?_, ?_⟩
    · unfold written
      cases s.socket <;> simp
    · unfold written
      cases s.socket <;> simp [Entry.connects]
  cases h with
  | resolve url hurl => exact hone _ rfl rfl
  | connect endpoint url hurl =>
    exact ⟨[_], rfl, le_rfl, by simp [Entry.connects, hurl, Target.state]⟩
  | proxyConnect url hurl => exact hwritten _ (s.enterProxyConnect_log url)
  | sendHeader url hurl => exact hwritten _ (s.enterSendHeader_log url)
  | sendPost post hpost =>
    refine ⟨post.entries, s.enterSendPost_log answer hpost, ?_, ?_⟩ <;>
      cases post <;> simp [Post.entries, Entry.connects]
  | redirectHeaders evt url location hpassed => exact hone _ rfl rfl
  | responseHeaders evt parsed hpassed => exact hone _ rfl rfl
  | readContent evt => exact hnone (s.enterReadContent_log evt)
  | finalError evt => exact hone _ rfl (s.enterFinalError_log answer evt)
  | complete => exact hone _ rfl rfl
  | _ => exact hnone rfl

/-- The URL is that of before. -/
structure Aimed (s s' : Machine) : Prop where
  url : s'.url = s.url
  parsedUrl : s'.parsedUrl = s.parsedUrl
  isSsl : s'.isSsl = s.isSsl

/-- The URL is that of a redirect which the policy lets through. -/
structure Followed (s s' : Machine) : Prop where
  isSsl : s'.isSsl = s.isSsl
  url : ∃ url, s'.parsedUrl = some url ∧ s.cfg.redirectPolicy ≠ .deny ∧
    (s.cfg.redirectPolicy = .denyDowngrade → s.isSsl = true → url.scheme ≠ "http")

theorem OnEntry.aims (h : OnEntry s answer t s') (ht : t ≠ .initializing) :
    Aimed s s' ∨ t.state = .redirect ∧ Followed s s' := by
  cases h with
  | badUrl => exact absurd rfl ht
  | initUrl => exact absurd rfl ht
  | unsupported => exact absurd rfl ht
  | follow evt redirectUrl url hdeny hdowngrade =>
    exact .inr ⟨rfl, rfl, url, rfl, hdeny, hdowngrade⟩
  | proxyConnect url hurl =>
    rw [enterProxyConnect, write_eq]
    exact .inl ⟨rfl, rfl, rfl⟩
  | sendHeader url hurl =>
    rw [enterSendHeader, write_eq]
    exact .inl ⟨rfl, rfl, rfl⟩
  | sendPost post hpost =>
    refine .inl ?_
    unfold enterSendPost
    split
    · exact ⟨rfl, rfl, rfl⟩
    · exact ⟨rfl, rfl, rfl⟩
    · dsimp only
      split <;> exact ⟨rfl, rfl, rfl⟩
  | readContent evt =>
    refine .inl ?_
    unfold enterReadContent
    dsimp only
    split <;> exact ⟨rfl, rfl, rfl⟩
  | finalError evt =>
    refine .inl ?_
    unfold enterFinalError cancelDelays
    split <;> exact ⟨rfl, rfl, rfl⟩
  | _ => exact .inl ⟨rfl, rfl, rfl⟩

end Entries

/-- What `DoInit` comes to. -/
structure Inits (s s' : Machine) : Prop where
  cfg : s'.cfg = s.cfg
  log : s'.log = s.log
  state : s'.state = s.state
  url : s'.url = s.url
  parsedUrl : s'.parsedUrl = s.parsedUrl.or (Url.parse s.url)
  isSsl : ∀ url ∈ s'.parsedUrl, url.scheme = "https" → s'.isSsl = true
  stays : s.isSsl = true → ∀ url ∈ s'.parsedUrl, url.scheme ≠ "http" → s'.isSsl = true

theorem doInit_inits (s : Machine) : Inits s s.doInit := by
  unfold doInit
  cases hurl : s.parsedUrl.or (Url.parse s.url) with
  | none =>
    simp only [disconnect_parsedUrl, disconnect_url, hurl]
    have hnone : s.parsedUrl = none := (Option.or_eq_none_iff.mp hurl).1
    refine ⟨rfl, rfl, rfl, rfl, hurl ▸ hnone, ?_, ?_⟩
    · intro url hmem
      rw [show s.parsedUrl = some url from hmem] at hnone
      cases hnone
    · exact fun hssl _ _ _ => hssl
  | some url =>
    simp only [disconnect_parsedUrl, disconnect_url, hurl]
    split_ifs with hhttp hhttps
    · refine ⟨rfl, rfl, rfl, rfl, hurl.symm, ?_, ?_⟩
      · rintro _ ⟨⟩ hscheme
        exact absurd (hhttp.symm.trans hscheme) (by decide)
      · rintro _ _ ⟨⟩ hscheme
        exact absurd hhttp hscheme
    · exact ⟨rfl, rfl, rfl, rfl, hurl.symm, fun _ _ _ => rfl, fun _ _ _ _ => rfl⟩
    · refine ⟨rfl, rfl, rfl, rfl, hurl.symm, ?_, fun hssl _ _ _ => hssl⟩
      rintro _ ⟨⟩ hscheme
      exact absurd hscheme hhttps

/-- An event that is not an `on_entry` of `Initializing`. -/
theorem process_rows {P : Machine → Prop} (s : Machine) (e : Event) (answer : Answer)
    (hterminate : P s) (hnone : P (s.record (.noTransition s.state e)))
    (hinit : P (s.leave .initializing).doInit)
    (hrow : ∀ t s', t ≠ .initializing → Row s e t → OnEntry (s.leave t.state) answer t s' → P s') :
    P (s.process e answer) := by
  unfold process
  split_ifs with hstate
  · exact hterminate
  · split
    case h_1 => exact hnone
    case h_2 t ht =>
      by_cases heq : t = .initializing
      · subst heq
        exact hinit
      · exact hrow t _ heq (row_cases ht) (enter_cases _ answer t)

/-- Only the state `Resolve` leads to a connection, and only a redirect to `Redirect`. -/
theorem Row.connect_source {s : Machine} {e : Event} {t : Target} (h : Row s e t)
    (ht : t.state = .connect) : s.state = .resolve := by
  cases h with
  | resolved endpoint hstate => exact hstate
  | connected => revert ht; split_ifs <;> nofun
  | tunnelled => revert ht; split_ifs <;> nofun
  | headersWritten => revert ht; split_ifs <;> nofun
  | _ => cases ht

theorem Row.resolve_source {s : Machine} {e : Event} {t : Target} (h : Row s e t)
    (ht : t.state = .resolve) : s.state = .initializing := by
  cases h with
  | initialized hstate => exact hstate
  | connected => revert ht; split_ifs <;> nofun
  | tunnelled => revert ht; split_ifs <;> nofun
  | headersWritten => revert ht; split_ifs <;> nofun
  | _ => cases ht

/-! ### DenyDowngrade -/

/-- An SSL connection that has been made. -/
def Reached (log : List Entry) : Prop := ∃ e ∈ log, ∃ url ∈ e.connects, url.scheme = "https"

/-- Behind an SSL connection the flag is set and the URL is not an `http` one. -/
structure Secured (s : Machine) : Prop where
  flag : s.state = .initializing ∨ s.state = .resolve →
    ∀ url ∈ s.parsedUrl, url.scheme = "https" → s.isSsl = true
  stays : Reached s.log → s.isSsl = true ∧ ∃ url ∈ s.parsedUrl, url.scheme ≠ "http"
  log : s.log.Pairwise fun e e' => ¬Downgrades e e'

section Secured
variable {s s' : Machine}

theorem reached_append {log later : List Entry}
    (hlater : ∀ e ∈ later, e.connects = none) : Reached (log ++ later) ↔ Reached log := by
  refine ⟨?_, fun ⟨e, he, h⟩ => ⟨e, List.mem_append_left _ he, h⟩⟩
  rintro ⟨e, he, url, hurl, hscheme⟩
  rcases List.mem_append.mp he with he | he
  · exact ⟨e, he, url, hurl, hscheme⟩
  · rw [hlater e he] at hurl
    cases hurl

theorem pairwise_append {log later : List Entry} (h : log.Pairwise fun e e' => ¬Downgrades e e')
    (hlater : ∀ e ∈ later, e.connects = none) :
    (log ++ later).Pairwise fun e e' => ¬Downgrades e e' := by
  have hno (e e' : Entry) (he' : e' ∈ later) : ¬Downgrades e e' := by
    rintro ⟨-, -, url', hurl', -⟩
    rw [hlater e' he'] at hurl'
    cases hurl'
  refine List.pairwise_append.mpr ⟨h, ?_, fun e _ e' he' => hno e e' he'⟩
  exact List.pairwise_of_forall_mem_list fun e _ e' he' => hno e e' he'

/-- No connection is made. -/
theorem Secured.extend (h : Secured s) (later : List Entry) (hlog : s'.log = s.log ++ later)
    (hlater : ∀ e ∈ later, e.connects = none)
    (hflag : s'.state = .initializing ∨ s'.state = .resolve →
      ∀ url ∈ s'.parsedUrl, url.scheme = "https" → s'.isSsl = true)
    (hstays : s.isSsl = true → (∃ url ∈ s.parsedUrl, url.scheme ≠ "http") →
      s'.isSsl = true ∧ ∃ url ∈ s'.parsedUrl, url.scheme ≠ "http") : Secured s' := by
  refine ⟨hflag, fun hreached => ?_, hlog ▸ pairwise_append h.log hlater⟩
  obtain ⟨hssl, hurl⟩ := h.stays ((reached_append hlater).mp (hlog ▸ hreached))
  exact hstays hssl hurl

theorem Secured.init (h : Secured s) : Secured (s.leave .initializing).doInit := by
  have hinits := (s.leave .initializing).doInit_inits
  refine h.extend [.entered s.state .initializing] hinits.log (by simp [Entry.connects])
    (fun _ => hinits.isSsl) ?_
  rintro hssl ⟨url, hurl, hscheme⟩
  have hsame : (s.leave .initializing).doInit.parsedUrl = some url := by
    rw [hinits.parsedUrl, show (s.leave .initializing).parsedUrl = some url from hurl]
    rfl
  exact ⟨hinits.stays hssl url hsame hscheme, url, hsame, hscheme⟩

theorem Secured.connect (h : Secured s) {later : List Entry} {target : StateName}
    (hlog : s'.log = s.log ++ [.entered s.state target] ++ later) (hlength : later.length ≤ 1)
    (hconnects : ∀ e ∈ later, ∀ url ∈ e.connects, s.parsedUrl = some url)
    (hsource : s.state = .resolve) (haimed : Aimed s s') (hstate : s'.state = .connect) :
    Secured s' := by
  have hentered : ∀ e ∈ [Entry.entered s.state target], e.connects = none := by
    simp [Entry.connects]
  have hbefore := pairwise_append h.log hentered
  refine ⟨by rw [hstate]; nofun, fun hreached => ?_, ?_⟩
  · rw [haimed.isSsl, haimed.parsedUrl]
    obtain ⟨e, he, url, hurl, hscheme⟩ := hreached
    rw [hlog] at he
    rcases List.mem_append.mp he with he | he
    · exact h.stays ((reached_append hentered).mp ⟨e, he, url, hurl, hscheme⟩)
    · have hparsed := hconnects e he url hurl
      refine ⟨h.flag (.inr hsource) url hparsed hscheme, url, hparsed, ?_⟩
      rw [hscheme]
      decide
  · rw [hlog]
    refine List.pairwise_append.mpr ⟨hbefore, ?_, ?_⟩
    · rcases later with _ | ⟨e, _ | ⟨e', later⟩⟩
      · exact .nil
      · exact List.pairwise_singleton _ _
      · simp at hlength
    · rintro e he e' he' ⟨url, hurl, url', hurl', hhttps, hhttp⟩
      obtain ⟨-, url'', hurl'', hscheme⟩ :=
        h.stays ((reached_append hentered).mp ⟨e, he, url, hurl, hhttps⟩)
      have hsame := hconnects e' he' url' hurl'
      rw [show s.parsedUrl = some url'' from hurl'', Option.some.injEq] at hsame
      exact hscheme (hsame ▸ hhttp)

theorem Secured.process (h : Secured s) (hpolicy : s.cfg.redirectPolicy = .denyDowngrade)
    (e : Event) (answer : Answer) : Secured (s.process e answer) := by
  refine process_rows s e answer h ?_ h.init fun t s' ht hrow hentry => ?_
  · exact h.extend [.noTransition s.state e] rfl (by simp [Entry.connects]) h.flag
      fun hssl hurl => ⟨hssl, hurl⟩
  obtain ⟨later, hlogs⟩ := hentry.logs
  have hstate : s'.state = t.state := hentry.entered.state
  by_cases hconnect : t.state = .connect
  · rcases hentry.aims ht with haimed | ⟨hredirect, -⟩
    · exact h.connect hlogs.log hlogs.length (fun e he url hurl => (hlogs.connects e he url hurl).1)
        (hrow.connect_source hconnect) ⟨haimed.url, haimed.parsedUrl, haimed.isSsl⟩
        (hstate.trans hconnect)
    · rw [hconnect] at hredirect
      cases hredirect
  · have hlater : ∀ e ∈ [Entry.entered s.state t.state] ++ later, e.connects = none := by
      intro e he
      rcases List.mem_append.mp he with he | he
      · rw [List.mem_singleton.mp he]
        rfl
      · by_contra hne
        obtain ⟨url, hurl⟩ := Option.ne_none_iff_exists'.mp hne
        exact hconnect (hlogs.connects e he url hurl).2
    refine h.extend _ (hlogs.log.trans (List.append_assoc _ _ _)) hlater ?_ ?_
    · intro hstate'
      rw [hstate] at hstate'
      rcases hstate' with hinit | hresolve
      · cases t <;> first | exact absurd rfl ht | cases hinit
      · rcases hentry.aims ht with haimed | ⟨hredirect, -⟩
        · rw [haimed.parsedUrl, haimed.isSsl]
          exact h.flag (.inl (hrow.resolve_source hresolve))
        · rw [hresolve] at hredirect
          cases hredirect
    · rintro hssl ⟨url, hurl, hscheme⟩
      rcases hentry.aims ht with haimed | ⟨-, hfollowed⟩
      · exact ⟨haimed.isSsl.trans hssl, url, haimed.parsedUrl.trans hurl, hscheme⟩
      · obtain ⟨url', hurl', -, hdowngrade⟩ := hfollowed.url
        exact ⟨hfollowed.isSsl.trans hssl, url', hurl', hdowngrade hpolicy hssl⟩

end Secured

/-! ### Deny -/

/-- No redirect has been followed. -/
structure Unredirected (s : Machine) : Prop where
  url : s.url = s.cfg.originalUrl
  parsedUrl : ∀ url ∈ s.parsedUrl, Url.parse s.cfg.originalUrl = some url
  log : ∀ e ∈ s.log, ∀ url ∈ e.connects, Url.parse s.cfg.originalUrl = some url

theorem Unredirected.process {s : Machine} (h : Unredirected s)
    (hpolicy : s.cfg.redirectPolicy = .deny) (e : Event) (answer : Answer) :
    Unredirected (s.process e answer) := by
  have hlog (later : List Entry)
      (hlater : ∀ e ∈ later, ∀ url ∈ e.connects, Url.parse s.cfg.originalUrl = some url) :
      ∀ e ∈ s.log ++ later, ∀ url ∈ e.connects, Url.parse s.cfg.originalUrl = some url := by
    intro e he
    rcases List.mem_append.mp he with he | he
    · exact h.log e he
    · exact hlater e he
  refine process_rows s e answer h ?_ ?_ fun t s' ht hrow hentry => ?_
  · exact ⟨h.url, h.parsedUrl, hlog [.noTransition s.state e] (by simp [Entry.connects])⟩
  · have hinits := (s.leave .initializing).doInit_inits
    refine ⟨?_, ?_, ?_⟩
    · rw [hinits.url, hinits.cfg]
      exact h.url
    · rw [hinits.parsedUrl, hinits.cfg]
      intro url hurl
      rcases Option.or_eq_some_iff.mp hurl with hparsed | ⟨-, hparsed⟩
      · exact h.parsedUrl url hparsed
      · exact (congrArg Url.parse h.url).symm.trans hparsed
    · rw [hinits.log, hinits.cfg]
      exact hlog [.entered s.state .initializing] (by simp [Entry.connects])
  · obtain ⟨later, hlogs⟩ := hentry.logs
    have hcfg := hentry.entered.cfg
    rcases hentry.aims ht with haimed | ⟨-, hfollowed⟩
    · refine ⟨?_, ?_, ?_⟩
      · rw [haimed.url, hcfg]
        exact h.url
      · rw [haimed.parsedUrl, hcfg]
        exact h.parsedUrl
      · rw [hlogs.log, hcfg]
        refine fun e he => hlog ([.entered s.state t.state] ++ later) ?_ e
          (by simpa [leave] using he)
        intro e he url hurl
        rcases List.mem_append.mp he with he | he
        · rw [List.mem_singleton.mp he] at hurl
          cases hurl
        · exact h.parsedUrl url (hlogs.connects e he url hurl).1
    · obtain ⟨url', -, hdeny, -⟩ := hfollowed.url
      exact absurd hpolicy hdeny

/-! ### Runs -/

/-- What holds of every state. -/
structure Policed (s : Machine) : Prop where
  denyDowngrade : s.cfg.redirectPolicy = .denyDowngrade → Secured s
  deny : s.cfg.redirectPolicy = .deny → Unredirected s

theorem process_cfg (s : Machine) (e : Event) (answer : Answer) :
    (s.process e answer).cfg = s.cfg :=
  process_cases (P := fun s' => s'.cfg = s.cfg) s e answer (fun _ => rfl) (fun _ _ => rfl)
    fun _ _ _ _ hentry => hentry.entered.cfg

theorem Policed.step {s s' : Machine} {a : Act} (h : Policed s) (hstep : s.step a = some s') :
    Policed s' := by
  refine step_transitions (P := Policed) ?_ ?_ h hstep
  · rintro s s' hunmoved h
    obtain ⟨data, hlog, hdata⟩ := hunmoved.log
    have hconnects : ∀ e ∈ data, e.connects = none := fun e he =>
      Entry.connects_of_isData (hdata e he)
    refine ⟨fun hpolicy => ?_, fun hpolicy => ?_⟩
    · rw [hunmoved.cfg] at hpolicy
      have hsecured := h.denyDowngrade hpolicy
      refine hsecured.extend data hlog hconnects ?_ fun hssl hurl => ?_
      · rw [hunmoved.state, hunmoved.parsedUrl, hunmoved.isSsl]
        exact hsecured.flag
      · rw [hunmoved.parsedUrl, hunmoved.isSsl]
        exact ⟨hssl, hurl⟩
    · rw [hunmoved.cfg] at hpolicy
      have hunredirected := h.deny hpolicy
      refine ⟨?_, ?_, ?_⟩
      · rw [hunmoved.url, hunmoved.cfg]
        exact hunredirected.url
      · rw [hunmoved.parsedUrl, hunmoved.cfg]
        exact hunredirected.parsedUrl
      · rw [hlog, hunmoved.cfg]
        intro e he
        rcases List.mem_append.mp he with he | he
        · exact hunredirected.log e he
        · rw [hconnects e he]
          nofun
  · rintro s e answer h
    refine ⟨fun hpolicy => ?_, fun hpolicy => ?_⟩
    · rw [process_cfg] at hpolicy
      exact (h.denyDowngrade hpolicy).process hpolicy e answer
    · rw [process_cfg] at hpolicy
      exact (h.deny hpolicy).process hpolicy e answer

theorem policed_create (cfg : Config) (time : ℕ) : Policed (create cfg time) := by
  refine ⟨fun _ => ⟨nofun, ?_, .nil⟩, fun _ => ⟨rfl, nofun, List.forall_mem_nil _⟩⟩
  rintro ⟨e, he, -⟩
  cases he

/-- Whatever is redirected, how often a request is made again and what is called on it, its
connections keep the policy. -/
theorem run_keepsPolicy (cfg : Config) (time : ℕ) (acts : List Act) :
    Always step (fun s => KeepsPolicy cfg s.log) (create cfg time) acts := by
  refine Always.of_guarded (I := fun s => s.cfg = cfg ∧ Policed s) (G := fun _ _ _ => True) ?_ ?_
    ⟨rfl, policed_create cfg time⟩ along_true
  · rintro s ⟨rfl, h⟩
    exact ⟨fun hpolicy => (h.denyDowngrade hpolicy).log, fun hpolicy => (h.deny hpolicy).log⟩
  · rintro s a s' ⟨rfl, h⟩ - hstep
    refine ⟨?_, h.step hstep⟩
    exact step_transitions (P := fun s' => s'.cfg = s.cfg)
      (fun _ _ hunmoved hcfg => hunmoved.cfg.trans hcfg)
      (fun _ _ _ hcfg => (process_cfg _ _ _).trans hcfg) rfl hstep

end Machine

end MediafireSdk.Http
