import MediafireSdk.Http.Restarts
import MediafireSdk.Http.Terminal

/-! A request that has timed out is made again only when nothing of it was sent; a `CONNECT` to a
proxy, which is written anew, does not count. What a log says of the requests, the responses and
the content, and what the state says of the same. -/

namespace MediafireSdk.Http

open Runs Words

/-! ### The law -/

/-- What `SendHeader` and `SendPost` have sent since the last redirect, and what was received over
the whole request. -/
structure Exchange where
  /-- The state that was entered last. -/
  state : StateName := .unstarted
  /-- `SendHeader` was entered. -/
  sent : Bool := false
  /-- The requests that `SendHeader` has written. -/
  headers : ℕ := 0
  /-- How often `SendPost` was entered. -/
  posts : ℕ := 0
  posted : List UInt8 := []
  responses : ℕ := 0
  received : ℕ := 0
  deriving DecidableEq, Repr

namespace Exchange
variable (x : Exchange)

def after : Entry → Exchange
  | .entered .redirect .initializing =>
    { state := .initializing, responses := x.responses, received := x.received }
  | .entered _ .sendHeader => { x with state := .sendHeader, sent := true }
  | .entered _ .sendPost => { x with state := .sendPost, posts := x.posts + 1 }
  | .entered _ target => { x with state := target }
  | .wrote _ _ _ => if x.state = .sendHeader then { x with headers := x.headers + 1 } else x
  | .wrotePost postData => { x with posted := x.posted ++ postData }
  | .responseHeaderReceived _ => { x with responses := x.responses + 1 }
  | .responseContentReceived _ buffer => { x with received := x.received + buffer.length }
  | _ => x

/-- No header and no byte of a POST was written. -/
def Unsent : Prop := x.sent = false ∧ x.headers = 0 ∧ x.posts = 0 ∧ x.posted = []

/-- A restart comes before anything was sent, a header is written once, and so is a POST; the
headers of a response are passed on once, and content where the one before it ends. -/
def Allows (offset : ℕ → ℕ) : Entry → Prop
  | .entered .error .initializing | .noTransition _ .restart => x.Unsent
  | .entered _ .sendHeader => x.sent = false
  | .entered _ .sendPost => x.posts = 0
  | .wrote _ _ _ => x.state = .sendHeader → x.headers = 0
  | .responseHeaderReceived _ => x.responses = 0
  | .responseContentReceived startPos _ => startPos = offset x.received
  | _ => True

end Exchange

/-- Every entry of a log is allowed by those before it. -/
def Follows (offset : ℕ → ℕ) : Exchange → List Entry → Prop
  | _, [] => True
  | x, entry :: log => x.Allows offset entry ∧ Follows offset (x.after entry) log

def exchange (log : List Entry) : Exchange := log.foldl Exchange.after {}

theorem exchange_append (log later : List Entry) :
    exchange (log ++ later) = later.foldl Exchange.after (exchange log) := List.foldl_append

theorem follows_append {offset : ℕ → ℕ} {x : Exchange} {log later : List Entry} :
    Follows offset x (log ++ later) ↔
      Follows offset x log ∧ Follows offset (log.foldl Exchange.after x) later := by
  induction log generalizing x with
  | nil => simp [Follows]
  | cons entry log ih => simp [Follows, ih, and_assoc]

theorem exchange_responses (log : List Entry) : (exchange log).responses = responsesIn log := by
  induction log using List.reverseRecOn with
  | nil => rfl
  | append_singleton log entry ih =>
    rw [exchange_append, responsesIn, List.countP_append, ← responsesIn, ← ih]
    cases entry with
    | entered source target => cases source <;> cases target <;> rfl
    | wrote proxy tunnelled request =>
      show (if _ then _ else _ : Exchange).responses = _
      split_ifs <;> rfl
    | _ => rfl

/-! ### What the state says -/

/-- The states from `SendHeader` on in which no content has come. -/
def StateName.isUnread : StateName → Bool
  | .sendHeader | .sendPost | .readHeaders | .parseHeaders | .redirect => true
  | _ => false

def Entry.isContent : Entry → Bool
  | .responseContentReceived _ _ => true
  | _ => false

/-- What was sent and received when a state is entered. -/
structure Exchange.Arrival (x : Exchange) (state : StateName) : Prop where
  last : x.state = state
  unsent : state.isUnsent = true → x = { state := state }
  header : state = .sendHeader → x.headers = 0 ∧ x.posts = 0
  unread : state.isUnread = true → x.responses = 0 ∧ x.received = 0

namespace Machine

/-- The log agrees with the state. -/
structure Tallied (s : Machine) : Prop where
  log : Follows (trunc 64) {} s.log
  state : (exchange s.log).state = s.state
  unsent : s.state.isUnsent = true → exchange s.log = { state := s.state }
  header : s.state = .sendHeader → (exchange s.log).posts = 0
  unanswered : s.state.isUnread = true → s.state ≠ .parseHeaders → (exchange s.log).responses = 0
  unread : s.state.isUnread = true → (exchange s.log).received = 0

structure Counted (s : Machine) : Prop extends Tallied s where
  again : s.crashed = false → s.state = .error → s.pending = [.event .restart] →
    exchange s.log = { state := .error }

section Counted
variable {s s' : Machine} {answer : Answer} {t : Target} {e : Event}

theorem after_error (x : Exchange) (source : StateName) :
    x.after (.entered source .error) = { x with state := .error } := by
  cases source <;> rfl

/-- A row leads to where it may. -/
theorem Tallied.arrives (h : Tallied s) (hrow : Row s e t)
    (hrestart : e = .restart → exchange s.log = { state := .error })
    (hredirect : ∀ evt redirectUrl, e = .redirect evt redirectUrl →
      (exchange s.log).responses = 0) :
    (exchange s.log).Allows (trunc 64) (.entered s.state t.state) ∧
      ((exchange s.log).after (.entered s.state t.state)).Arrival t.state := by
  cases hrow with
  | start hstate =>
    rw [hstate, h.unsent (by rw [hstate]; rfl), hstate]
    exact ⟨trivial, rfl, fun _ => rfl, by rintro ⟨⟩, by rintro ⟨⟩⟩
  | initialized hstate =>
    rw [hstate, h.unsent (by rw [hstate]; rfl), hstate]
    exact ⟨trivial, rfl, fun _ => rfl, by rintro ⟨⟩, by rintro ⟨⟩⟩
  | resolved endpoint hstate =>
    rw [hstate, h.unsent (by rw [hstate]; rfl), hstate]
    exact ⟨trivial, rfl, fun _ => rfl, by rintro ⟨⟩, by rintro ⟨⟩⟩
  | proxyRequired hstate =>
    rw [hstate, h.unsent (by rw [hstate]; rfl), hstate]
    exact ⟨trivial, rfl, fun _ => rfl, by rintro ⟨⟩, by rintro ⟨⟩⟩
  | connected hstate =>
    rw [hstate, h.unsent (by rw [hstate]; rfl), hstate]
    split_ifs
    · exact ⟨trivial, rfl, fun _ => rfl, by rintro ⟨⟩, by rintro ⟨⟩⟩
    · exact ⟨rfl, rfl, by rintro ⟨⟩, fun _ => ⟨rfl, rfl⟩, fun _ => ⟨rfl, rfl⟩⟩
  | tunnelled hstate =>
    rw [hstate, h.unsent (by rw [hstate]; rfl), hstate]
    split_ifs
    · exact ⟨trivial, rfl, fun _ => rfl, by rintro ⟨⟩, by rintro ⟨⟩⟩
    · exact ⟨rfl, rfl, by rintro ⟨⟩, fun _ => ⟨rfl, rfl⟩, fun _ => ⟨rfl, rfl⟩⟩
  | handshake hstate =>
    rw [hstate, h.unsent (by rw [hstate]; rfl), hstate]
    exact ⟨rfl, rfl, by rintro ⟨⟩, fun _ => ⟨rfl, rfl⟩, fun _ => ⟨rfl, rfl⟩⟩
  | headersWritten hstate =>
    have hresponses := h.unanswered (by rw [hstate]; rfl) (by rw [hstate]; rintro ⟨⟩)
    have hreceived := h.unread (by rw [hstate]; rfl)
    have hposts := h.header hstate
    rw [hstate]
    split_ifs
    · exact ⟨hposts, rfl, by rintro ⟨⟩, by rintro ⟨⟩, fun _ => ⟨hresponses, hreceived⟩⟩
    · exact ⟨trivial, rfl, by rintro ⟨⟩, by rintro ⟨⟩, fun _ => ⟨hresponses, hreceived⟩⟩
  | postSent hstate =>
    have hresponses := h.unanswered (by rw [hstate]; rfl) (by rw [hstate]; rintro ⟨⟩)
    have hreceived := h.unread (by rw [hstate]; rfl)
    rw [hstate]
    exact ⟨trivial, rfl, by rintro ⟨⟩, by rintro ⟨⟩, fun _ => ⟨hresponses, hreceived⟩⟩
  | headersRead evt hstate =>
    have hresponses := h.unanswered (by rw [hstate]; rfl) (by rw [hstate]; rintro ⟨⟩)
    have hreceived := h.unread (by rw [hstate]; rfl)
    rw [hstate]
    exact ⟨trivial, rfl, by rintro ⟨⟩, by rintro ⟨⟩, fun _ => ⟨hresponses, hreceived⟩⟩
  | headersParsed evt hstate =>
    rw [hstate]
    exact ⟨trivial, rfl, by rintro ⟨⟩, by rintro ⟨⟩, by rintro ⟨⟩⟩
  | redirect evt redirectUrl hstate =>
    have hreceived := h.unread (by rw [hstate]; rfl)
    have hresponses := hredirect evt redirectUrl rfl
    rw [hstate]
    exact ⟨trivial, rfl, by rintro ⟨⟩, by rintro ⟨⟩, fun _ => ⟨hresponses, hreceived⟩⟩
  | redirected hstate =>
    have hresponses := h.unanswered (by rw [hstate]; rfl) (by rw [hstate]; rintro ⟨⟩)
    have hreceived := h.unread (by rw [hstate]; rfl)
    rw [hstate]
    refine ⟨trivial, rfl, fun _ => ?_, by rintro ⟨⟩, by rintro ⟨⟩⟩
    simp [Exchange.after, Target.state, hresponses, hreceived]
  | contentRead hstate =>
    rw [hstate]
    exact ⟨trivial, rfl, by rintro ⟨⟩, by rintro ⟨⟩, by rintro ⟨⟩⟩
  | restart hstate =>
    rw [hstate, hrestart rfl]
    exact ⟨⟨rfl, rfl, rfl, rfl⟩, rfl, fun _ => rfl, by rintro ⟨⟩, by rintro ⟨⟩⟩
  | finalError evt hstate =>
    rw [hstate]
    exact ⟨trivial, rfl, by rintro ⟨⟩, by rintro ⟨⟩, by rintro ⟨⟩⟩
  | error evt hstarted herror =>
    refine ⟨?_, ?_, by rintro ⟨⟩, by rintro ⟨⟩, by rintro ⟨⟩⟩
    · cases s.state <;> exact trivial
    · rw [show (Target.error evt).state = .error from rfl, after_error]

/-- What is logged on entry changes nothing of what the state says. -/
theorem counted_same {later : List Entry} (hstate : s'.state = t.state)
    (hlog : s'.log = s.log ++ later) (hfollows : Follows (trunc 64) {} s.log)
    (harrival : (exchange s.log).Arrival t.state)
    (hlater : Follows (trunc 64) (exchange s.log) later)
    (hsame : later.foldl Exchange.after (exchange s.log) = exchange s.log)
    (hagain : s'.crashed = false → t.state = .error → s'.pending = [.event .restart] →
      exchange s.log = { state := .error }) : Counted s' := by
  have hexchange : exchange s'.log = exchange s.log := by rw [hlog, exchange_append, hsame]
  refine ⟨⟨?_, ?_, ?_, ?_, ?_, ?_⟩, ?_⟩
  · rw [hlog]
    exact follows_append.mpr ⟨hfollows, hlater⟩
  all_goals rw [hexchange, hstate]
  · exact harrival.last
  · exact harrival.unsent
  · exact fun h => (harrival.header h).2
  · exact fun h _ => (harrival.unread h).1
  · exact fun h => (harrival.unread h).2
  · exact hagain

theorem OnEntry.counted (h : OnEntry s answer t s') (hstate : s.state = t.state)
    (hfollows : Follows (trunc 64) {} s.log) (harrival : (exchange s.log).Arrival t.state)
    (hagain : s'.crashed = false → t.state = .error → s'.pending = [.event .restart] →
      exchange s.log = { state := .error }) : Counted s' := by
  have hstate' := h.entered.state.trans hstate
  have hnone (hlog : s'.log = s.log) : Counted s' :=
    counted_same hstate' (hlog.trans (List.append_nil _).symm) hfollows harrival trivial rfl hagain
  have hone (entry : Entry) (hlog : s'.log = s.log ++ [entry])
      (hallowed : (exchange s.log).Allows (trunc 64) entry)
      (hsame : (exchange s.log).after entry = exchange s.log) : Counted s' :=
    counted_same hstate' hlog hfollows harrival ⟨hallowed, trivial⟩ hsame hagain
  have hlast := harrival.last
  cases h with
  | resolve url hurl => exact hone _ rfl trivial rfl
  | connect endpoint url hurl => exact hone _ rfl trivial rfl
  | proxyConnect url hurl =>
    have hlog := s.enterProxyConnect_log url
    cases hsocket : s.socket with
    | none => exact hnone (by simp [written, hsocket])
    | some socket =>
      simp only [written, hsocket, Option.map_some, Option.toList_some] at hlog
      have hother : (exchange s.log).state ≠ .sendHeader := by rw [hlast]; rintro ⟨⟩
      exact hone _ hlog (fun heq => absurd heq hother) (if_neg hother)
  | sendHeader url hurl =>
    have hlog := s.enterSendHeader_log url
    cases hsocket : s.socket with
    | none => exact hnone (by simp [written, hsocket])
    | some socket =>
      simp only [written, hsocket, Option.map_some, Option.toList_some] at hlog
      have hheader := harrival.header rfl
      have hunread := harrival.unread rfl
      have hexchange : exchange (s.enterSendHeader url).log =
          { exchange s.log with headers := (exchange s.log).headers + 1 } := by
        rw [hlog, exchange_append]
        exact if_pos hlast
      refine ⟨⟨?_, ?_, fun h => ?_, fun _ => ?_, fun _ _ => ?_, fun _ => ?_⟩, fun _ h => ?_⟩
      · rw [hlog]
        exact follows_append.mpr ⟨hfollows, fun _ => hheader.1, trivial⟩
      · rw [hexchange, hstate']
        exact hlast
      · rw [hstate'] at h
        cases h
      · rw [hexchange]
        exact hheader.2
      · rw [hexchange]
        exact hunread.1
      · rw [hexchange]
        exact hunread.2
      · rw [hstate'] at h
        cases h
  | sendPost post hpost =>
    have hlog := s.enterSendPost_log answer hpost
    have hunread := harrival.unread rfl
    cases post with
    | pipe size => exact hnone (by simpa [Post.entries] using hlog)
    | data postData =>
      have hexchange : exchange (s.enterSendPost answer).log =
          { exchange s.log with posted := (exchange s.log).posted ++ postData } := by
        rw [hlog, exchange_append]
        rfl
      refine ⟨⟨?_, ?_, fun h => ?_, fun h => ?_, fun _ _ => ?_, fun _ => ?_⟩, fun _ h => ?_⟩
      · rw [hlog]
        exact follows_append.mpr ⟨hfollows, trivial, trivial⟩
      · rw [hexchange, hstate']
        exact hlast
      · rw [hstate'] at h
        cases h
      · rw [hstate'] at h
        cases h
      · rw [hexchange]
        exact hunread.1
      · rw [hexchange]
        exact hunread.2
      · rw [hstate'] at h
        cases h
  | redirectHeaders evt url location hpassed => exact hone _ rfl trivial rfl
  | responseHeaders evt parsed hpassed =>
    have hunread := harrival.unread rfl
    have hexchange : exchange (s.headersReceived (.responseHeaderReceived evt) answer
        (.headersParsed parsed)).log =
          { exchange s.log with responses := (exchange s.log).responses + 1 } := by
      rw [headersReceived_log, exchange_append]
      rfl
    refine ⟨⟨?_, ?_, fun h => ?_, fun h => ?_, fun _ h => ?_, fun _ => ?_⟩, fun _ h => ?_⟩
    · rw [headersReceived_log]
      exact follows_append.mpr ⟨hfollows, hunread.1, trivial⟩
    · rw [hexchange, hstate']
      exact hlast
    · rw [hstate'] at h
      cases h
    · rw [hstate'] at h
      cases h
    · exact absurd hstate' h
    · rw [hexchange]
      exact hunread.2
    · rw [hstate'] at h
      cases h
  | readContent evt => exact hnone (s.enterReadContent_log evt)
  | finalError evt => exact hone _ (s.enterFinalError_log answer evt) trivial rfl
  | complete => exact hone _ rfl trivial rfl
  | _ => exact hnone rfl

/-- A transition. -/
theorem Tallied.transition (h : Tallied s) (hrow : Row s e t)
    (hentry : OnEntry (s.leave t.state) answer t s')
    (hrestart : e = .restart → exchange s.log = { state := .error })
    (hredirect : ∀ evt redirectUrl, e = .redirect evt redirectUrl →
      (exchange s.log).responses = 0)
    (hagain : s'.crashed = false → t.state = .error → s'.pending = [.event .restart] →
      exchange s.log = { state := s.state }) : Counted s' := by
  obtain ⟨hallowed, harrival⟩ := h.arrives hrow hrestart hredirect
  have hexchange : exchange (s.leave t.state).log =
      (exchange s.log).after (.entered s.state t.state) := by
    rw [leave_log, exchange_append]
    rfl
  refine hentry.counted rfl ?_ (hexchange ▸ harrival) fun hcrashed ht hpending => ?_
  · rw [leave_log]
    exact follows_append.mpr ⟨h.log, hallowed, trivial⟩
  · rw [hexchange, hagain hcrashed ht hpending, ht, after_error]

theorem Failed.ne_restart {tasks : List Task} (h : Failed tasks) : tasks ≠ [.event .restart] := by
  rintro rfl
  cases h with
  | behind _ _ he => exact he rfl

/-- Only a timeout that is early enough makes the request again. -/
theorem OnEntry.renews {evt : ErrorEvent}
    (hentry : OnEntry (s.leave .error) answer (.error evt) s') (hcrashed : s'.crashed = false)
    (hpending : s'.pending = [.event .restart]) : evt.code = .http .ioTimeout ∧ s.now < s.limit := by
  cases hentry with
  | crash => cases hcrashed
  | restart _ hcode hlimit => exact ⟨hcode, hlimit⟩
  | passOn =>
    have hmem : Task.event (.error evt) ∈ [Task.event .restart] := by
      rw [← hpending]
      simp [pending]
    simp at hmem

/-- The errors that make the request again are those of timers that ran out before `SendHeader`. -/
theorem Comes.unsent {rest : List Task} (h : Comes s e rest) (hrow : Row s e t)
    (hentry : OnEntry (s.leave t.state) answer t s') (hcrashed : s'.crashed = false)
    (ht : t.state = .error) (hpending : s'.pending = [.event .restart]) :
    s.state.isUnsent = true := by
  cases h with
  | last _ hlasts => exact absurd ht (hrow.state_ne_error hlasts.isError)
  | restart => exact absurd ht (hrow.state_ne_error rfl)
  | error evt _ _ _ _ hagain =>
    cases hrow with
    | finalError => cases ht
    | error =>
      obtain ⟨hcode, hlimit⟩ := hentry.renews hcrashed hpending
      exact (hagain hcode hlimit).1
  | failed _ _ hstate hfailed =>
    cases hrow with
    | finalError => cases ht
    | error _ _ herror => exact absurd hstate herror
    | _ => simp_all [Target.state]

theorem Tallied.noTransition (h : Tallied s) (he : e ≠ .restart) :
    Tallied (s.record (.noTransition s.state e)) := by
  have hexchange : exchange (s.record (.noTransition s.state e)).log = exchange s.log := by
    rw [record_log, exchange_append]
    rfl
  refine ⟨?_, ?_, ?_, ?_, ?_, ?_⟩
  · rw [record_log]
    refine follows_append.mpr ⟨h.log, ?_, trivial⟩
    cases e <;> first | exact trivial | exact absurd rfl he
  all_goals rw [hexchange]
  · exact h.state
  · exact h.unsent
  · exact h.header
  · exact h.unanswered
  · exact h.unread

/-- The next event of what waits, which is not behind it any more. -/
theorem Tallied.next {rest : List Task} (h : Tallied s)
    (hcomes : s.state.isTerminate = false → Comes s e rest) (hrest : s.pending = rest)
    (hagain : s.state = .error → e = .restart → rest = [] →
      exchange s.log = { state := .error }) : Counted (s.process e answer) := by
  refine process_cases s e answer (fun hend => ⟨h, fun _ herror => ?_⟩) (fun hlive hnone => ?_)
    fun t s' hlive hrow hentry => ?_
  · rw [herror] at hend
    cases hend
  · cases hcomes hlive with
    | last _ hlasts hopen =>
      refine ⟨h.noTransition hlasts.restart, fun _ _ hone => ?_⟩
      have hidle : (s.record (.noTransition s.state e)).pending = [] := hrest
      rw [hidle] at hone
      cases hone
    | restart hstate => simp [row, hstate] at hnone
    | error evt _ hopen =>
      refine ⟨h.noTransition (by rintro ⟨⟩), fun _ hstate => ?_⟩
      rw [show s.state = .error from hstate] at hopen
      cases hopen
    | failed _ _ hstate hfailed =>
      cases hfailed with
      | error evt => simp [row, hstate] at hnone
      | behind _ _ he hfailed =>
        exact ⟨h.noTransition he, fun _ _ hone => absurd (hrest.symm.trans hone) hfailed.ne_restart⟩
  · have hnext := hcomes hlive
    refine h.transition hrow hentry (fun he => ?_) (fun evt redirectUrl he => ?_)
      fun hcrashed ht hone => h.unsent (hnext.unsent hrow hentry hcrashed ht hone)
    · subst he
      cases hnext with
      | last _ hlasts => exact absurd rfl hlasts.restart
      | restart hstate => exact hagain hstate rfl rfl
      | failed _ _ _ hfailed =>
        cases hfailed with
        | behind _ _ he => exact absurd rfl he
    · subst he
      cases hnext with
      | last _ hlasts => exact (exchange_responses s.log).trans (hlasts.redirect _ _ rfl)
      | failed _ _ hstate =>
        cases hrow with
        | redirect _ _ hparse => simp_all

theorem Counted.next (queue : List Event) (tasks : List Task) (h : Counted s) (hpaced : Paced s)
    (hcrashed : s.crashed = false)
    (hpending : s.pending = .event e :: ((s.setQueue queue).setTasks tasks).pending) :
    Counted (((s.setQueue queue).setTasks tasks).process e answer) := by
  have htallied : Tallied ((s.setQueue queue).setTasks tasks) :=
    ⟨h.log, h.state, h.unsent, h.header, h.unanswered, h.unread⟩
  refine htallied.next (fun hlive => (hpaced.comes hcrashed hlive hpending).drop queue tasks) rfl
    fun hstate he hrest => ?_
  rw [he, hrest] at hpending
  exact h.again hcrashed hstate hpending

theorem Counted.keep (h : Counted s) (hlog : s'.log = s.log) (hstate : s'.state = s.state)
    (herror : s.state ≠ .error) : Counted s' := by
  refine ⟨⟨?_, ?_, ?_, ?_, ?_, ?_⟩, fun _ h => absurd (hstate ▸ h) herror⟩
  all_goals rw [hlog]
  · exact h.log
  all_goals rw [hstate]
  · exact h.state
  · exact h.unsent
  · exact h.header
  · exact h.unanswered
  · exact h.unread

end Counted

/-! ### Where the content goes on -/

/-- A read goes on where the content ends that was passed on; compressed content is passed on at
the end. -/
def Continues (d : ReadContentData) (n : ℕ) (op : AsyncOp) : Prop :=
  if d.usingGzip then n = 0 ∧ d.filterBufConsumed = 0 else op.total = trunc 64 n

def received (s : Machine) : ℕ := (exchange s.log).received

/-- How much content the tasks pass on. -/
def ahead (tasks : List Task) : ℕ :=
  (tasks.map fun
    | .content _ buffer => buffer.length
    | _ => 0).sum

/-- Neither an operation nor a delay is under way for the data of the state. -/
def Free (s : Machine) : Prop :=
  (∀ op ∈ s.ops, s.live ≠ some op.owner) ∧ ∀ d ∈ s.delays, s.live ≠ some d.owner

structure Placed (s : Machine) : Prop where
  ops : ∀ op ∈ s.ops, s.live = some op.owner → ∀ a, op.kind = .content a →
    Continues s.readContentData s.received a
  delays : ∀ d ∈ s.delays, s.live = some d.owner → ∀ a, d.kind = .content a →
    Continues s.readContentData s.received a
  starts : ∀ owner a, .start owner a ∈ s.tasks → s.live = some owner →
    Continues s.readContentData (s.received + ahead s.tasks) a
  content : ∀ startPos buffer, .content startPos buffer ∈ s.tasks →
    startPos = trunc 64 s.received ∧ Free s

section Placed
variable {s s' : Machine} {answer : Answer} {t : Target} {e : Event}

theorem received_append (log : List Entry) {entry : Entry} (h : entry.isContent = false) :
    (exchange (log ++ [entry])).received = (exchange log).received := by
  rw [exchange_append]
  cases entry with
  | responseContentReceived startPos buffer => cases h
  | entered source target => cases source <;> cases target <;> rfl
  | wrote proxy tunnelled request =>
    show (if _ then _ else _ : Exchange).received = _
    split_ifs <;> rfl
  | _ => rfl

/-- Nothing that was there before has the data of the state that is entered. -/
theorem Begins.placed {home : StateName} (h : Begins s home s') (hhome : home ≠ .readContent)
    (hnumbered : Numbered s) (htasks : NoContent s.tasks) : Placed s' := by
  have hstale (owner : ℕ) (howner : owner < s.fresh) : s'.live ≠ some owner := by
    rcases h.live with hlive | hlive
    · rw [hlive]
      nofun
    · rw [hlive]
      exact fun heq => howner.ne' (Option.some.inj heq)
  refine ⟨fun op hop howner a ha => ?_, fun d hd howner a ha => ?_, fun owner a hmem howner => ?_,
    fun startPos buffer hmem => ?_⟩
  · rcases h.ops op hop with hold | hkind
    · exact absurd howner (hstale _ (hnumbered.ops op hold).1)
    · rw [ha] at hkind
      exact absurd hkind.symm hhome
  · rcases h.delays d hd with ⟨d', hd', howner', -⟩ | hkind
    · exact absurd howner (hstale _ (howner' ▸ hnumbered.delays d' hd'))
    · rw [ha] at hkind
      exact absurd hkind.symm hhome
  · exact absurd howner (hstale _ (hnumbered.tasks _ (h.tasks ▸ hmem) owner rfl))
  · cases htasks _ (h.tasks ▸ hmem)

/-- The first read starts at the beginning. -/
theorem onEntry_continues {evt : HeadersParsedEvent} {op : AsyncOp}
    (h : (onEntry evt).next = some op) : Continues (onEntry evt).data 0 op := by
  revert h
  unfold onEntry
  dsimp only
  split_ifs <;> simp [ReadContentData.finish, Continues] <;> rintro rfl <;> simp [AsyncOp.total, trunc]

theorem enterReadContent_placed (s : Machine) (evt : HeadersParsedEvent) (hnumbered : Numbered s)
    (htasks : NoContent s.tasks) (hreceived : s.received = 0) : Placed (s.enterReadContent evt) := by
  have hreceived' : (s.enterReadContent evt).received = 0 := by
    rw [received, enterReadContent_log]
    exact hreceived
  have hlive : (s.enterReadContent evt).live = some s.fresh := by
    unfold enterReadContent
    dsimp only
    split <;> rfl
  have hdata : (s.enterReadContent evt).readContentData =
      { (onEntry evt).data with cancelled := false } := by
    unfold enterReadContent
    dsimp only
    split <;> rfl
  have hdelays : (s.enterReadContent evt).delays = s.delays := by
    unfold enterReadContent
    dsimp only
    split <;> rfl
  have hops : ∀ op ∈ (s.enterReadContent evt).ops, op ∈ s.ops ∨
      ∃ a, (onEntry evt).next = some a ∧ op.kind = .content a := by
    unfold enterReadContent
    dsimp only
    split
    case h_1 => exact fun op hop => .inl hop
    case h_2 a hnext =>
      intro op hop
      rcases List.mem_append.mp hop with hop | hop
      · exact .inl hop
      · rw [List.mem_singleton.mp hop]
        exact .inr ⟨a, hnext, rfl⟩
  have htasks' := (s.enterReadContent_entered evt).tasks
  refine ⟨fun op hop howner a ha => ?_, fun d hd howner a ha => ?_, fun owner a hmem howner => ?_,
    fun startPos buffer hmem => ?_⟩
  · rcases hops op hop with hold | ⟨a', hnext, hkind⟩
    · rw [hlive] at howner
      exact absurd (Option.some.inj howner) (hnumbered.ops op hold).1.ne'
    · rw [ha] at hkind
      cases hkind
      rw [hdata, hreceived']
      exact onEntry_continues hnext
  · rw [hlive] at howner
    exact absurd (Option.some.inj howner) (hnumbered.delays d (hdelays ▸ hd)).ne'
  · rw [hlive] at howner
    exact absurd (Option.some.inj howner) (hnumbered.tasks _ (htasks' ▸ hmem) owner rfl).ne'
  · cases htasks _ (htasks' ▸ hmem)

theorem Placed.process (h : Placed s) (htallied : Tallied s) (hnumbered : Numbered s)
    (htasks : NoContent s.tasks) (e : Event) (answer : Answer) : Placed (s.process e answer) := by
  refine process_cases s e answer (fun _ => h) (fun _ _ => ?_) fun t s' _ hrow hentry => ?_
  · have hreceived : (s.record (.noTransition s.state e)).received = s.received :=
      received_append s.log rfl
    exact ⟨hreceived ▸ h.ops, hreceived ▸ h.delays, hreceived ▸ h.starts, hreceived ▸ h.content⟩
  · have hleft : (s.leave t.state).received = s.received := received_append s.log rfl
    cases hreading : decide (t.state = .readContent) with
    | false =>
      exact (hentry.begins rfl).placed (of_decide_eq_false hreading) (hnumbered.leave t.state)
        htasks
    | true =>
      cases hrow with
      | headersParsed evt hstate =>
        cases hentry with
        | crash =>
          have hbegins : Begins (s.leave .readContent) .complete (s.leave .readContent).crash :=
            .of_none rfl rfl rfl rfl rfl
          exact hbegins.placed nofun (hnumbered.leave .readContent) htasks
        | readContent =>
          refine enterReadContent_placed _ evt (hnumbered.leave .readContent) htasks ?_
          exact hleft.trans (htallied.unread (by rw [hstate]; rfl))
      | connected => split_ifs at hreading <;> cases hreading
      | tunnelled => split_ifs at hreading <;> cases hreading
      | headersWritten => split_ifs at hreading <;> cases hreading
      | _ => cases hreading


theorem ahead_of_noContent {tasks : List Task} (h : NoContent tasks) : ahead tasks = 0 := by
  refine List.sum_eq_zero fun n hn => ?_
  obtain ⟨t, ht, rfl⟩ := List.mem_map.mp hn
  cases t with
  | content startPos buffer => cases h _ ht
  | _ => rfl

/-- In the same state, with no content on its way. -/
theorem Placed.keep (h : Placed s) (hlive : s'.live = s.live)
    (hdata : s'.readContentData = s.readContentData) (hreceived : s'.received = s.received)
    (hops : ∀ op ∈ s'.ops, op ∈ s.ops ∨ (s.live = some op.owner → ∀ a, op.kind = .content a →
      Continues s.readContentData s.received a))
    (hdelays : ∀ d ∈ s'.delays, (∃ d' ∈ s.delays, d'.owner = d.owner ∧ d'.kind = d.kind) ∨
      (s.live = some d.owner → ∀ a, d.kind = .content a →
        Continues s.readContentData s.received a))
    (hstarts : ∀ owner a, .start owner a ∈ s'.tasks → .start owner a ∈ s.tasks)
    (hnone : NoContent s.tasks) (hnone' : NoContent s'.tasks) : Placed s' := by
  refine ⟨fun op hop howner a ha => ?_, fun d hd howner a ha => ?_, fun owner a hmem howner => ?_,
    fun startPos buffer hmem => ?_⟩
  · rw [hlive] at howner
    rw [hdata, hreceived]
    exact (hops op hop).elim (fun hold => h.ops op hold howner a ha) fun hnew => hnew howner a ha
  · rw [hlive] at howner
    rw [hdata, hreceived]
    rcases hdelays d hd with ⟨d', hd', howner', hkind⟩ | hnew
    · exact h.delays d' hd' (howner'.symm ▸ howner) a (hkind.trans ha)
    · exact hnew howner a ha
  · have hstart := h.starts owner a (hstarts owner a hmem) (hlive ▸ howner)
    rw [ahead_of_noContent hnone] at hstart
    rwa [hdata, hreceived, ahead_of_noContent hnone']
  · cases hnone' _ hmem

/-- What goes on behind a handler of the content. -/
theorem ContentTasks.placed {owner total : ℕ} {d d' : ReadContentData} {tasks : List Task} {n : ℕ}
    (h : ContentTasks owner d total tasks d')
    (hplain : d.usingGzip = false → total = trunc 64 n)
    (hgzip : d.usingGzip = true → n = 0 ∧ d.filterBufConsumed = 0) :
    (∀ owner' a, .start owner' a ∈ tasks → Continues d' (n + ahead tasks) a) ∧
      ∀ startPos buffer, .content startPos buffer ∈ tasks → startPos = trunc 64 n := by
  cases h with
  | ignored => simp
  | failed => simp
  | exceeded buffer evt _ _ hmode => simpa using hplain hmode
  | last buffer _ hmode => simpa using hplain hmode
  | inflated buffer _ hmode =>
    obtain ⟨rfl, hconsumed⟩ := hgzip hmode
    simp [hconsumed, trunc]
  | finished => simp
  | more buffer op _ hmode hmode' htotal =>
    refine ⟨fun owner' a hmem => ?_, by simpa using hplain hmode⟩
    obtain ⟨-, rfl⟩ : owner' = owner ∧ a = op := by simpa using hmem
    have hahead : ahead [.content total buffer, .start owner a] = buffer.length := by simp [ahead]
    rw [Continues, if_neg (by simp [hmode']), hahead, htotal, hplain hmode, trunc, trunc, trunc,
      Nat.mod_add_mod]
  | further op _ hmode hconsumed htotal =>
    refine ⟨fun owner' a hmem => ?_, by simp⟩
    obtain ⟨-, rfl⟩ : owner' = owner ∧ a = op := by simpa using hmem
    have hahead : ahead [.start owner a] = 0 := by simp [ahead]
    rw [Continues, hmode, hahead, Nat.add_zero]
    split_ifs with hwhich
    · exact ⟨(hgzip hwhich).1, hconsumed.trans (hgzip hwhich).2⟩
    · have hwhich' := Bool.eq_false_iff.mpr hwhich
      exact (htotal hwhich').trans (hplain hwhich')

theorem free_of_load {owner : ℕ} (h : s.load owner = 0) (hlive : s.live = some owner) :
    Free s ∧ ∀ op, .start owner op ∉ s.tasks := by
  have hzero := Nat.add_eq_zero_iff.mp h
  refine ⟨⟨ops_of_load h hlive, fun d hd heq => ?_⟩, fun op hmem => ?_⟩
  · have hnone := List.countP_eq_zero.mp (Nat.add_eq_zero_iff.mp hzero.1).2 d hd
    rw [hlive] at heq
    simp [Option.some.inj heq] at hnone
  · have hnone := List.countP_eq_zero.mp hzero.2 _ hmem
    simp [Task.owner] at hnone

/-- The handler of a read. -/
theorem placed_handled {owner : ℕ} {op : AsyncOp} {received : List UInt8}
    {tasks : List Task} {d : ReadContentData} (hlive : s.live = some owner)
    (hload : s.load owner = 0) (htasks : s.tasks = [])
    (hcontinues : Continues s.readContentData s.received op)
    (h : ContentTasks owner (s.readContentData.receive received) op.total tasks d) :
    Placed ((s.setContent d).next tasks) := by
  obtain ⟨hfree, -⟩ := free_of_load hload hlive
  have hplaced := h.placed (n := s.received) (fun hmode => ?_) fun hmode => ?_
  · have hsame : ((s.setContent d).next tasks).tasks = tasks := by simp [htasks]
    refine ⟨fun op hop howner => absurd howner (hfree.1 op hop),
      fun d hd howner => absurd howner (hfree.2 d hd), fun owner' a hmem _ => ?_,
      fun startPos buffer hmem => ⟨?_, hfree⟩⟩
    · rw [hsame] at hmem ⊢
      exact hplaced.1 owner' a hmem
    · rw [hsame] at hmem
      exact hplaced.2 startPos buffer hmem
  · have hmode' : s.readContentData.usingGzip = false := hmode
    rwa [Continues, hmode', if_neg nofun] at hcontinues
  · have hmode' : s.readContentData.usingGzip = true := hmode
    rwa [Continues, if_pos hmode'] at hcontinues

/-! ### Steps -/

theorem NoContent.tail_of_head {t : Task} {tasks : List Task} (h : Ending s)
    (htasks : s.tasks = t :: tasks) : NoContent tasks := by
  have htail := h.head
  rwa [htasks] at htail

theorem Placed.task {t : Task} {tasks : List Task} (h : Placed s) (htallied : Tallied s)
    (hnumbered : Numbered s) (hending : Ending s) (htasks : s.tasks = t :: tasks)
    (answer : Answer) : Placed ((s.setTasks tasks).runTask t answer) := by
  have hrest := NoContent.tail_of_head hending htasks
  have hmem : t ∈ s.tasks := htasks ▸ List.mem_cons_self
  have htail : tasks ⊆ s.tasks := htasks ▸ List.subset_cons_self _ _
  by_cases hcontent : ∃ startPos buffer, t = .content startPos buffer
  · obtain ⟨startPos, buffer, rfl⟩ := hcontent
    obtain ⟨-, hfree⟩ := h.content startPos buffer hmem
    set u := (s.setTasks tasks).runTask (.content startPos buffer) answer with hu
    have hevents := noContent_events ((s.setTasks tasks).callbackCalls answer)
    have hnone : NoContent u.tasks := hevents.append hrest
    have hreceived : u.received = s.received + buffer.length := by
      show (exchange (s.log ++ [.responseContentReceived startPos buffer])).received = _
      rw [exchange_append]
      rfl
    refine ⟨fun op hop howner => absurd howner (hfree.1 op hop),
      fun d hd howner => absurd howner (hfree.2 d hd), fun owner a hstart howner => ?_,
      fun startPos buffer hin => ?_⟩
    · have hstart' : .start owner a ∈ s.tasks := by
        rcases List.mem_append.mp hstart with hcall | hold
        · obtain ⟨e, -, he⟩ := List.mem_map.mp hcall
          cases he
        · exact htail hold
      have hcontinues := h.starts owner a hstart' howner
      have hahead : ahead s.tasks = buffer.length := by
        rw [htasks, ahead, List.map_cons, List.sum_cons, ← ahead, ahead_of_noContent hrest]
        rfl
      rw [hahead] at hcontinues
      rw [ahead_of_noContent hnone, hreceived]
      exact hcontinues
    · cases hnone _ hin
  -- No content is on its way.
  have hnone : NoContent s.tasks := by
    rw [htasks]
    intro t' ht'
    rcases List.mem_cons.mp ht' with rfl | ht'
    · cases t' with
      | content startPos buffer => exact absurd ⟨startPos, buffer, rfl⟩ hcontent
      | _ => rfl
    · exact hrest t' ht'
  have hdropped : Placed (s.setTasks tasks) := h.keep rfl rfl rfl (fun op hop => .inl hop)
    (fun d hd => .inl (mem_delays_self hd)) (fun owner a hstart => htail hstart) hnone hrest
  cases t with
  | content startPos buffer => exact absurd ⟨startPos, buffer, rfl⟩ hcontent
  | event e =>
    have htallied' : Tallied (s.setTasks tasks) :=
      ⟨htallied.log, htallied.state, htallied.unsent, htallied.header, htallied.unanswered,
        htallied.unread⟩
    exact hdropped.process htallied' (hnumbered.dropTask htasks) hrest e answer
  | start owner op =>
    have hcontinues := h.starts owner op hmem
    rw [ahead_of_noContent hnone] at hcontinues
    show Placed ((s.setTasks tasks).startContent owner op)
    unfold startContent
    split_ifs
    · refine hdropped.keep rfl rfl rfl (fun op hop => .inl hop) (fun d hd => ?_)
        (fun owner a hstart => hstart) hrest hrest
      rcases List.mem_append.mp hd with hd | hd
      · exact .inl (mem_delays_cancelled hd)
      · rw [List.mem_singleton.mp hd]
        exact .inr fun howner a ha => by cases ha; exact hcontinues howner
    · refine hdropped.keep rfl rfl rfl (fun op hop => ?_) (fun d hd => .inl (mem_delays_self hd))
        (fun owner a hstart => hstart) hrest hrest
      rcases List.mem_append.mp hop with hop | hop
      · exact .inl hop
      · rw [List.mem_singleton.mp hop]
        exact .inr fun howner a ha => by cases ha; exact hcontinues howner
  | delayPost owner postData =>
    refine hdropped.keep rfl rfl rfl (fun op hop => .inl hop) (fun d hd => ?_)
      (fun owner a hstart => hstart) hrest hrest
    rcases List.mem_append.mp hd with hd | hd
    · exact .inl (mem_delays_cancelled hd)
    · rw [List.mem_singleton.mp hd]
      exact .inr fun _ a ha => by cases ha
  | pipe owner =>
    set u := (s.setTasks tasks).runTask (.pipe owner) answer
    have hu : ∀ t ∈ u.tasks, t ∈ tasks ∨ (∃ e, t = .event e) ∨ ∃ data, t = .delayPost owner data := by
      intro t ht
      rcases List.mem_append.mp ht with ht | ht
      · rcases List.mem_append.mp ht with ht | ht
        · obtain ⟨e, -, rfl⟩ := List.mem_map.mp ht
          exact .inr (.inl ⟨e, rfl⟩)
        · split_ifs at ht
          · cases ht
          · exact .inr (.inr ⟨_, List.mem_singleton.mp ht⟩)
      · exact .inl ht
    refine hdropped.keep rfl rfl rfl (fun op hop => .inl hop)
      (fun d hd => .inl (mem_delays_self hd)) (fun owner a hstart => ?_) hrest fun t ht => ?_
    · rcases hu _ hstart with hold | ⟨e, he⟩ | ⟨data, hdata⟩
      · exact hold
      · cases he
      · cases hdata
    · rcases hu t ht with hold | ⟨e, rfl⟩ | ⟨data, rfl⟩
      · exact hrest t hold
      · rfl
      · rfl

theorem Placed.step {a : Act} (h : Placed s) (htallied : Tallied s) (hnumbered : Numbered s)
    (hlone : Lone s) (hending : Ending s) (hstep : s.step a = some s') : Placed s' := by
  cases step_cases hstep with
  | clock elapsed => exact ⟨h.ops, h.delays, h.starts, h.content⟩
  | queued e queue answer hqueue =>
    have hnone := hending.busy (by rw [hqueue]; exact List.cons_ne_nil e queue)
    have htallied' : Tallied (s.setQueue queue) :=
      ⟨htallied.log, htallied.state, htallied.unsent, htallied.header, htallied.unanswered,
        htallied.unread⟩
    have hset : Placed (s.setQueue queue) := ⟨h.ops, h.delays, h.starts, h.content⟩
    exact hset.process htallied' (hnumbered.congr rfl rfl rfl rfl rfl rfl rfl) hnone e answer
  | task t tasks answer hqueue htasks => exact h.task htallied hnumbered hending htasks answer
  | start hqueue htasks => exact h.process htallied hnumbered (htasks ▸ noContent_nil) _ _
  | call call hqueue htasks => exact h.process htallied hnumbered (htasks ▸ noContent_nil) _ _
  | complete i op received err hqueue htasks hop =>
    have hnone : NoContent s.tasks := htasks ▸ noContent_nil
    have hset : Placed (s.setOps (s.ops.eraseIdx i)) := h.keep rfl rfl rfl
      (fun op hop => .inl ((List.eraseIdx_sublist _ _).subset hop))
      (fun d hd => .inl (mem_delays_self hd)) (fun owner a hstart => hstart) hnone hnone
    refine completed_cases (P := Placed) _ op received err hset
      ⟨hset.ops, hset.delays, hset.starts, hset.content⟩ fun s' hlive _ hhandled => ?_
    have hcontinues := h.ops op (List.mem_of_getElem? hop) hlive
    have hload := load_dropOp hop op.owner
    have hone := hlone.one op.owner
    rw [if_pos rfl] at hload
    have hzero : (s.setOps (s.ops.eraseIdx i)).load op.owner = 0 := by omega
    generalize hu : ((s.setOps (s.ops.eraseIdx i)).take op.race).clearAsyncTimeout = u at hhandled
    have hplaced : Placed u := by
      subst hu
      exact ⟨hset.ops, hset.delays, hset.starts, hset.content⟩
    have htasks' : u.tasks = [] := by subst hu; exact htasks
    have hnone' : NoContent u.tasks := htasks' ▸ noContent_nil
    generalize hkind : op.kind = kind at hhandled
    cases hhandled with
    | event _ e hraises =>
      exact hplaced.keep rfl rfl rfl (fun op hop => .inl hop)
        (fun d hd => .inl (mem_delays_self hd)) (fun owner a hstart => by simpa using hstart) hnone'
        (by simp [htasks', NoContent, Task.isContent])
    | established =>
      exact hplaced.keep rfl rfl rfl (fun op hop => .inl hop)
        (fun d hd => .inl (mem_delays_self hd))
        (fun owner a hstart => by simpa [establish] using hstart) hnone'
        (by simp [establish, htasks', NoContent, Task.isContent])
    | proxyRead =>
      refine hplaced.keep rfl rfl rfl (fun op hop => ?_) (fun d hd => .inl (mem_delays_self hd))
        (fun owner a hstart => hstart) hnone' hnone'
      rcases List.mem_append.mp hop with hop | hop
      · exact .inl hop
      · rw [List.mem_singleton.mp hop]
        exact .inr fun _ a ha => by cases ha
    | pipe size hpost =>
      exact hplaced.keep rfl rfl rfl (fun op hop => .inl hop)
        (fun d hd => .inl (mem_delays_self hd)) (fun owner a hstart => by simpa using hstart) hnone'
        (by simp [htasks', NoContent, Task.isContent])
    | content a received tasks d hcontent =>
      subst hu
      exact placed_handled hlive hzero htasks (hcontinues a hkind) hcontent
  | timer i t err hqueue htasks ht hcompletes =>
    have hset : Placed (s.setTimers (s.timers.eraseIdx i)) := ⟨h.ops, h.delays, h.starts, h.content⟩
    have hnone : NoContent s.tasks := htasks ▸ noContent_nil
    have htaken : Placed ((s.setTimers (s.timers.eraseIdx i)).take t.race) :=
      ⟨hset.ops, hset.delays, hset.starts, hset.content⟩
    refine timedOut_cases (P := Placed) _ t err hset htaken fun _ _ => ?_
    exact htaken.keep rfl rfl rfl (fun op hop => .inl hop) (fun d hd => .inl (mem_delays_self hd))
      (fun owner a hstart => by simpa using hstart) hnone
      (by simp [htasks, NoContent, Task.isContent])
  | delay i d err hqueue htasks hd =>
    have hnone : NoContent s.tasks := htasks ▸ noContent_nil
    have hset : Placed (s.setDelays (s.delays.eraseIdx i)) := h.keep rfl rfl rfl
      (fun op hop => .inl hop)
      (fun d hd => .inl (mem_delays_self ((List.eraseIdx_sublist _ _).subset hd)))
      (fun owner a hstart => hstart) hnone hnone
    have hcontinues := h.delays d (List.mem_of_getElem? hd)
    refine delayed_cases (P := Placed) _ d err hset (fun postData _ _ => ?_)
      fun op next enabled howner hkind htotal => ?_
    · refine hset.keep rfl rfl (received_append s.log rfl) (fun op hop => ?_)
        (fun d hd => .inl (mem_delays_self hd)) (fun owner a hstart => hstart) hnone hnone
      rcases List.mem_append.mp hop with hop | hop
      · exact .inl hop
      · rw [List.mem_singleton.mp hop]
        exact .inr fun _ a ha => by cases ha
    · refine hset.keep rfl rfl rfl (fun op' hop => ?_) (fun d hd => .inl (mem_delays_self hd))
        (fun owner a hstart => hstart) hnone hnone
      rcases List.mem_append.mp hop with hop | hop
      · exact .inl hop
      · rw [List.mem_singleton.mp hop]
        refine .inr fun _ a ha => ?_
        cases ha
        have hold := hcontinues howner op hkind
        unfold Continues at hold ⊢
        rw [htotal]
        exact hold

end Placed

section Steps
variable {s s' : Machine} {answer : Answer}

/-- POST data is written in `SendPost` only. -/
theorem Tallied.wrotePost (h : Tallied s) (hstate : s.state = .sendPost) {postData : List UInt8}
    (hlog : s'.log = s.log ++ [.wrotePost postData]) (hsame : s'.state = s.state) :
    Counted s' := by
  have hexchange : exchange s'.log =
      { exchange s.log with posted := (exchange s.log).posted ++ postData } := by
    rw [hlog, exchange_append]
    rfl
  have hunread : s.state.isUnread = true := by rw [hstate]; rfl
  have hstate' := hsame.trans hstate
  refine ⟨⟨?_, ?_, fun hin => ?_, fun hin => ?_, fun _ _ => ?_, fun _ => ?_⟩, fun _ hin => ?_⟩
  · rw [hlog]
    exact follows_append.mpr ⟨h.log, trivial, trivial⟩
  · rw [hexchange, hsame]
    exact h.state
  · rw [hstate'] at hin
    cases hin
  · rw [hstate'] at hin
    cases hin
  · rw [hexchange]
    exact h.unanswered hunread (by rw [hstate]; nofun)
  · rw [hexchange]
    exact h.unread hunread
  · rw [hstate'] at hin
    cases hin

/-- Content is passed on in `ReadContent` only. -/
theorem Tallied.content (h : Tallied s) (hstate : s.state = .readContent ∨ s.state.isTerminate)
    {startPos : ℕ} {buffer : Buffer} (hpos : startPos = trunc 64 s.received)
    (hlog : s'.log = s.log ++ [.responseContentReceived startPos buffer])
    (hsame : s'.state = s.state) : Counted s' := by
  have hexchange : exchange s'.log =
      { exchange s.log with received := (exchange s.log).received + buffer.length } := by
    rw [hlog, exchange_append]
    rfl
  have hother (p : StateName → Bool) (hread : p .readContent = false)
      (hfinal : p .finalError = false) (hcomplete : p .complete = false) :
      p s'.state = false := by
    rw [hsame]
    rcases hstate with hstate | hstate
    · rw [hstate, hread]
    · revert hstate
      cases s.state <;> simp [StateName.isTerminate, hfinal, hcomplete]
  refine ⟨⟨?_, ?_, fun hin => ?_, fun hin => ?_, fun hin => ?_, fun hin => ?_⟩, fun _ hin => ?_⟩
  · rw [hlog]
    exact follows_append.mpr ⟨h.log, hpos, trivial⟩
  · rw [hexchange, hsame]
    exact h.state
  · exact absurd (hin.symm.trans (hother StateName.isUnsent rfl rfl rfl)) (by rintro ⟨⟩)
  · have hno := hother (fun state => decide (state = .sendHeader)) rfl rfl rfl
    exact absurd hin (of_decide_eq_false hno)
  · exact absurd (hin.symm.trans (hother StateName.isUnread rfl rfl rfl)) (by rintro ⟨⟩)
  · exact absurd (hin.symm.trans (hother StateName.isUnread rfl rfl rfl)) (by rintro ⟨⟩)
  · have hno := hother (fun state => decide (state = .error)) rfl rfl rfl
    exact absurd hin (of_decide_eq_false hno)

theorem Counted.step {a : Act} (h : Counted s) (hpaced : Paced s) (hplaced : Placed s)
    (hhome : AtHome s) (hcalls : ∀ call ∈ a.calls, call.isTimeout = false)
    (hstep : s.step a = some s') : Counted s' := by
  have hcrashed := crashed_of_step hstep
  have hkeep (hidle : s.pending = []) {s' : Machine} (hkept : Kept s s') : Counted s' :=
    h.keep hkept.log hkept.state (hpaced.not_error hcrashed hidle)
  cases step_cases hstep with
  | clock elapsed =>
    exact ⟨⟨h.log, h.state, h.unsent, h.header, h.unanswered, h.unread⟩, h.again⟩
  | queued e queue answer hqueue =>
    exact h.next queue s.tasks hpaced hcrashed (pending_of_queue hqueue)
  | task t tasks answer hqueue htasks =>
    have hpending : s.pending = t :: tasks := by simp [pending, hqueue, htasks]
    have herror (ht : ∀ e, t ≠ .event e) : s.state ≠ .error :=
      hpaced.not_error_of_task hcrashed hpending ht
    have hset := s.setTasks_kept tasks
    cases t with
    | event e =>
      exact h.next s.queue tasks hpaced hcrashed
        (by simp [pending, hqueue, htasks])
    | content startPos buffer =>
      have hmem : .content startPos buffer ∈ s.tasks := htasks ▸ List.mem_cons_self
      refine h.content ?_ (hplaced.content startPos buffer hmem).1 rfl rfl
      cases hlive : s.state.isTerminate with
      | true => exact .inr rfl
      | false =>
        have htodo := hpaced.todo (isOpen_of_ne (herror fun _ => by rintro ⟨⟩) hlive)
        rw [hpending] at htodo
        cases htodo with
        | owned _ owner howner => cases howner
        | content _ _ _ hstate => exact .inl hstate
    | start owner op =>
      have hkept := hset.trans (startContent_kept _ owner op)
      exact h.keep hkept.log hkept.state (herror fun _ => by rintro ⟨⟩)
    | delayPost owner postData => exact h.keep rfl rfl (herror fun _ => by rintro ⟨⟩)
    | pipe owner => exact h.keep rfl rfl (herror fun _ => by rintro ⟨⟩)
  | start hqueue htasks =>
    have herror := hpaced.not_error hcrashed (pending_of_idle hqueue htasks)
    refine process_cases s .start {} (fun _ => h) (fun _ _ =>
      ⟨h.noTransition (by simp), fun _ hin => absurd hin herror⟩) fun t s' _ hrow hentry => ?_
    refine h.transition hrow hentry (by rintro ⟨⟩) (by rintro _ _ ⟨⟩) fun _ ht => ?_
    exact absurd ht (hrow.state_ne_error rfl)
  | call call hqueue htasks =>
    have herror := hpaced.not_error hcrashed (pending_of_idle hqueue htasks)
    obtain ⟨evt, hplain, hevent⟩ := call_plain (hcalls call (List.mem_singleton_self _))
    rw [hevent]
    refine process_cases s _ {} (fun _ => h) (fun _ _ =>
      ⟨h.noTransition (by simp), fun _ hin => absurd hin herror⟩) fun t s' _ hrow hentry => ?_
    refine h.transition hrow hentry (by simp) (by rintro _ _ ⟨⟩) fun hcrashed' ht hpending => ?_
    cases hrow with
    | finalError => cases ht
    | error => exact absurd (hentry.renews hcrashed' hpending).1 hplain
  | complete i op received err hqueue htasks hop =>
    exact hkeep (pending_of_idle hqueue htasks)
      ((s.setOps_kept _).trans (completed_kept _ op received err))
  | timer i t err hqueue htasks ht hcompletes =>
    exact hkeep (pending_of_idle hqueue htasks)
      ((s.setTimers_kept _).trans (timedOut_kept _ t err))
  | delay i d err hqueue htasks hd =>
    have hidle := pending_of_idle hqueue htasks
    have hset := s.setDelays_kept (s.delays.eraseIdx i)
    refine delayed_cases (P := Counted) _ d err (hkeep hidle hset) (fun postData howner hkind => ?_)
      fun op next enabled _ _ _ => ?_
    · have hstate := hhome.delays d (List.mem_of_getElem? hd) howner
      rw [hkind] at hstate
      exact h.wrotePost hstate rfl rfl
    · exact hkeep hidle ((hset.trans (setDelayTimerEnabled_kept _ _)).trans (async_kept _ _ _ _ _))

theorem counted_create (cfg : Config) (time : ℕ) : Counted (create cfg time) :=
  ⟨⟨trivial, rfl, fun _ => rfl, nofun, nofun, nofun⟩, fun _ => nofun⟩

theorem placed_create (cfg : Config) (time : ℕ) : Placed (create cfg time) :=
  ⟨fun _ hop => absurd hop List.not_mem_nil, fun _ hd => absurd hd List.not_mem_nil,
    fun _ _ ht => absurd ht List.not_mem_nil, fun _ _ ht => absurd ht List.not_mem_nil⟩

/-- What every step keeps as long as no caller fails with the error of a timer. -/
structure Regular (s : Machine) : Prop where
  counted : Counted s
  paced : Paced s
  placed : Placed s
  home : AtHome s
  lone : Lone s
  numbered : Numbered s
  ending : Ending s

theorem Regular.step {a : Act} (h : Regular s) (hcalls : ∀ call ∈ a.calls, call.isTimeout = false)
    (hstep : s.step a = some s') : Regular s' where
  counted := h.counted.step h.paced h.placed h.home hcalls hstep
  paced := by
    refine h.paced.step h.lone h.home hcalls (fun hstate => ?_) hstep
    rw [← exchange_responses]
    exact h.counted.unanswered (by rw [hstate]; rfl) (by rw [hstate]; nofun)
  placed := h.placed.step h.counted.toTallied h.numbered h.lone h.ending hstep
  home := h.home.step h.numbered hstep
  lone := h.lone.step h.numbered hstep
  numbered := h.numbered.step hstep
  ending := h.ending.step hstep

theorem regular_create (cfg : Config) (time : ℕ) : Regular (create cfg time) :=
  ⟨counted_create cfg time, paced_create cfg time, placed_create cfg time, atHome_create cfg time,
    lone_create cfg time, numbered_create cfg time, ending_create cfg time⟩

end Steps

/-! ### Runs -/

/-- A request is made again only before `SendHeader` and `SendPost` have sent anything since the last
redirect: while no caller fails with the error of a timer, they send nothing twice, one response is
passed on, and its content without a gap. -/
theorem run_follows {cfg : Config} {time : ℕ} {acts : List Act}
    (h : ∀ a ∈ acts, ∀ call ∈ a.calls, call.isTimeout = false) :
    Always step (fun s => Follows (trunc 64) {} s.log) (create cfg time) acts :=
  Always.of_guarded (I := Regular) (G := fun _ a _ => ∀ call ∈ a.calls, call.isTimeout = false)
    (fun _ hs => hs.counted.log) (fun _ _ _ hs hcalls hstep => hs.step hcalls hstep)
    (regular_create cfg time) (along_of_forall fun a ha _ _ => h a ha)

/-- The request times out before it has a connection and is made again. -/
def timedOutBeforeSending : List Act :=
  [.start, .proceed {}, .clock (30 * second), .timer 0 false, .proceed {}, .proceed {}, .proceed {},
    .complete 1 [] none, .proceed {}, .complete 1 [] none, .proceed {}, .complete 1 [] none,
    .proceed {},
    .complete 1 "HTTP/1.1 200 OK\r\nContent-Length: 2\r\n\r\n".toUTF8.toList none,
    .proceed {}, .proceed {}, .complete 1 "hi".toUTF8.toList none, .proceed {}, .proceed {}]

theorem run_follows_timedOutBeforeSending :
    ((run step getPlain timedOutBeforeSending).map
      fun s => decide (Entry.entered .error .initializing ∈ s.log)) = some true ∧
      Always step (fun s => Follows (trunc 64) {} s.log) getPlain timedOutBeforeSending :=
  ⟨by decide +kernel, run_follows (by decide +kernel)⟩

end Machine

end MediafireSdk.Http
