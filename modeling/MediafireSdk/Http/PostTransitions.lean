import MediafireSdk.Http.Posting

/-! The transitions of a POST. While it is sent, what was written and the chunk that is owed make
up what the pipe has given on this connection, which `SendPost` counts; the answer is waited for
only when the count is right. -/

namespace MediafireSdk.Http

open Words

/-- What a connection is to get. -/
def Post.hop : Post → Yielded → List UInt8
  | .data bytes, _ => bytes
  | .pipe _, y => y.hop

/-- The pipe gives no more than it has announced. -/
def Post.Bounded : Post → Yielded → Prop
  | .data _, _ => True
  | .pipe postDataSize, y => postDataSize < 2 ^ 64 ∧ y.lifetime.length ≤ postDataSize

namespace Machine

/-- The states behind `SendPost`. -/
def answering : StateName → Bool
  | .readHeaders | .parseHeaders | .readContent | .complete => true
  | _ => false

/-- The states from the connection to the headers. -/
def connecting : StateName → Bool
  | .connect | .proxyConnect | .sslHandshake | .sendHeader => true
  | _ => false

/-- The connection has got all of it. -/
def Whole (post : Post) (s : Machine) (y : Yielded) : Prop :=
  sentBody s.log = post.hop y ∧ (post.hop y).length = post.contentLength

/-- What holds while a POST is on its way. -/
structure Posting (post : Post) (s : Machine) (y : Yielded) : Prop where
  config : s.cfg.post = some post
  unsent : s.crashed = false → connecting s.state = true → sentBody s.log = []
  live_lt : ∀ owner ∈ s.live, owner < s.fresh
  owed_lt : ∀ owner, s.owed owner ≠ [] → owner < s.fresh
  elsewhere : s.state ≠ .sendPost → ∀ owner ∈ s.live, s.owed owner = []
  one : ∀ owner ∈ s.live, (s.owed owner).length ≤ 1
  body : s.state = .sendPost → ∀ owner ∈ s.live, ∀ postData ∈ s.owed owner,
    sentBody s.log ++ postData = post.hop y
  counted : s.state = .sendPost → ∀ postDataSize, post = .pipe postDataSize →
    s.sendPostData = ⟨postDataSize, trunc 64 y.hop.length⟩
  ready : .event .postSent ∈ s.pending → s.state = .sendPost →
    (∀ owner ∈ s.live, s.owed owner = []) ∧ Whole post s y
  whole : answering s.state = true → Whole post s y
  suffix : y.hop <:+ y.lifetime
  alone : .event .headersWritten ∈ s.pending → s.pending = [.event .headersWritten]
  asking : ∀ owner, .pipe owner ∈ s.tasks → s.state = .sendPost ∧ s.live = some owner ∧
    s.pending = [.pipe owner] ∧ ∃ postDataSize, post = .pipe postDataSize

/-- What does not matter to a POST that is on its way. -/
structure Alike (s s' : Machine) : Prop where
  cfg : s'.cfg = s.cfg
  crashed : s'.crashed = false → s.crashed = false
  state : s'.state = s.state
  live : s'.live = s.live
  sendPostData : s'.sendPostData = s.sendPostData
  fresh : s.fresh ≤ s'.fresh
  body : sentBody s'.log = sentBody s.log
  owed : ∀ owner, (s'.owed owner).Subperm (s.owed owner)

section Steps
variable {post : Post} {s s' : Machine} {y : Yielded}

theorem Alike.trans {s'' : Machine} (h : Alike s s') (h' : Alike s' s'') : Alike s s'' where
  cfg := h'.cfg.trans h.cfg
  crashed hcrashed := h.crashed (h'.crashed hcrashed)
  state := h'.state.trans h.state
  live := h'.live.trans h.live
  sendPostData := h'.sendPostData.trans h.sendPostData
  fresh := h.fresh.trans h'.fresh
  body := h'.body.trans h.body
  owed owner := (h'.owed owner).trans (h.owed owner)

/-- The same POST, with other tasks. -/
theorem Posting.alike (h : Posting post s y) (halike : Alike s s')
    (hsent : .event .postSent ∈ s'.pending → .event .postSent ∈ s.pending)
    (halone : .event .headersWritten ∈ s'.pending → s'.pending = [.event .headersWritten])
    (hasking : ∀ owner, .pipe owner ∈ s'.tasks → s.state = .sendPost ∧ s.live = some owner ∧
      s'.pending = [.pipe owner] ∧ ∃ postDataSize, post = .pipe postDataSize) :
    Posting post s' y where
  config := halike.cfg ▸ h.config
  unsent hcrashed hstate :=
    halike.body.trans (h.unsent (halike.crashed hcrashed) (halike.state ▸ hstate))
  live_lt owner howner := (h.live_lt owner (halike.live ▸ howner)).trans_le halike.fresh
  owed_lt owner howed := by
    refine (h.owed_lt owner fun hnone => howed ?_).trans_le halike.fresh
    exact List.subperm_nil.mp (hnone ▸ halike.owed owner)
  elsewhere hstate owner howner := by
    have hnone := h.elsewhere (halike.state ▸ hstate) owner (halike.live ▸ howner)
    exact List.subperm_nil.mp (hnone ▸ halike.owed owner)
  one owner howner :=
    (halike.owed owner).length_le.trans (h.one owner (halike.live ▸ howner))
  body hstate owner howner postData hmem := by
    rw [halike.body]
    exact h.body (halike.state ▸ hstate) owner (halike.live ▸ howner) postData
      ((halike.owed owner).subset hmem)
  counted hstate := halike.sendPostData ▸ h.counted (halike.state ▸ hstate)
  ready hmem hstate := by
    obtain ⟨howed, hwhole⟩ := h.ready (hsent hmem) (halike.state ▸ hstate)
    refine ⟨fun owner howner => ?_, halike.body.trans hwhole.1, hwhole.2⟩
    have hnone := howed owner (halike.live ▸ howner)
    exact List.subperm_nil.mp (hnone ▸ halike.owed owner)
  whole hstate := by
    obtain ⟨hbody, hlength⟩ := h.whole (halike.state ▸ hstate)
    exact ⟨halike.body.trans hbody, hlength⟩
  suffix := h.suffix
  alone := halone
  asking owner hmem := by
    rw [halike.state, halike.live]
    exact hasking owner hmem

/-- Behind the task that runs no request for the pipe waits, and no headers. -/
theorem Posting.rest (h : Posting post s y) {t : Task} {rest : List Task}
    (hpending : s.pending = t :: rest) :
    .event .headersWritten ∉ rest ∧ ∀ owner, .pipe owner ∉ rest := by
  have hsingle {t' : Task} (hmem : t' ∈ rest) (hall : s.pending = [t']) : False := by
    rw [hpending] at hall
    rw [(List.cons.inj hall).2] at hmem
    cases hmem
  have hmem {t' : Task} (ht : t' ∈ rest) : t' ∈ s.pending := hpending ▸ List.mem_cons_of_mem _ ht
  refine ⟨fun hin => hsingle hin (h.alone (hmem hin)), fun owner hin => ?_⟩
  have htasks : .pipe owner ∈ s.tasks := by
    rcases List.mem_append.mp (hmem hin) with hqueue | htasks
    · obtain ⟨_, _, heq⟩ := List.mem_map.mp hqueue
      cases heq
    · exact htasks
  exact hsingle hin (h.asking owner htasks).2.2.1

/-- The tasks that a POST goes on with. -/
def isPost : Task → Bool
  | .event .postSent | .event .headersWritten | .pipe _ => true
  | _ => false

/-- What runs does not matter to the POST. -/
theorem Posting.keep (h : Posting post s y) (rest : List Task) (hrest : rest ⊆ s.pending)
    (hnone : .event .headersWritten ∉ rest ∧ ∀ owner, .pipe owner ∉ rest) (halike : Alike s s')
    (hnew : ∀ t ∈ s'.pending, isPost t = true → t ∈ rest) : Posting post s' y := by
  refine h.alike halike (fun hin => hrest (hnew _ hin rfl)) (fun hin => ?_) fun owner hin => ?_
  · exact absurd (hnew _ hin rfl) hnone.1
  · exact absurd (hnew _ (List.mem_append_right _ hin) rfl) (hnone.2 owner)

/-! ### Transitions -/

theorem sentBody_of_other {log : List Entry} {entry : Entry}
    (h : entry.sent (sentBody log) = sentBody log) : sentBody (log ++ [entry]) = sentBody log := by
  rw [sentBody_append, h]

/-- On entry to a state behind `SendPost` nothing is written. -/
theorem OnEntry.sentBody {answer : Answer} {t : Target} (h : OnEntry s answer t s')
    (ht : answering t.state = true) : Http.sentBody s'.log = Http.sentBody s.log := by
  cases h with
  | crash => rfl
  | readHeaders => rfl
  | badRedirect evt problem => rfl
  | redirectHeaders evt url location h => rw [headersReceived_log, sentBody_of_other rfl]
  | responseHeaders evt parsed h => rw [headersReceived_log, sentBody_of_other rfl]
  | readContent evt => rw [enterReadContent_log]
  | complete => rw [enterComplete_log, sentBody_of_other rfl]
  | _ => simp [answering, Target.state] at ht

/-- Up to the headers a connection gets nothing of the body. -/
theorem OnEntry.unsent {answer : Answer} {t : Target} (h : OnEntry s answer t s')
    (ht : connecting t.state = true) (hcrashed : s'.crashed = false)
    (hunsent : t.state ≠ .connect → Http.sentBody s.log = []) : Http.sentBody s'.log = [] := by
  have hwritten (request : Request) (hnone : Http.sentBody s.log = []) :
      Http.sentBody (s.log ++ s.written request) = [] := by
    unfold written
    cases s.socket with
    | none => simpa using hnone
    | some socket => exact sentBody_append _ _
  cases h with
  | crash => cases hcrashed
  | connect endpoint url h =>
    rw [enterConnect_log, sentBody_append]
    rfl
  | proxyConnect url h =>
    rw [enterProxyConnect_log]
    exact hwritten _ (hunsent nofun)
  | sslHandshake => exact hunsent nofun
  | sendHeader url h =>
    rw [enterSendHeader_log]
    exact hwritten _ (hunsent nofun)
  | _ => simp [connecting, Target.state] at ht

/-- What is known of an event that is taken from a handler that runs. -/
structure Taken (post : Post) (s : Machine) (y : Yielded) (e : Event) : Prop where
  posting : Posting post s y
  headers : .event .headersWritten ∉ s.pending
  only : e = .headersWritten → s.pending = []
  sent : e = .postSent → s.state = .sendPost → Whole post s y
  noPipe : ∀ owner, .pipe owner ∉ s.tasks

theorem mem_pending_of_tasks {t : Task} (h : t ∈ s.tasks) : t ∈ s.pending :=
  List.mem_append_right _ h

theorem Posting.taken (h : Posting post s y) {e : Event} {rest : List Task}
    (hpending : s.pending = .event e :: rest) (halike : Alike s s') (hrest : s'.pending = rest) :
    Taken post s' y e := by
  obtain ⟨hheaders, hpipe⟩ := h.rest hpending
  have hposting : Posting post s' y := by
    refine h.keep rest (hpending ▸ List.subset_cons_self _ _) ⟨hheaders, hpipe⟩ halike ?_
    exact fun t ht _ => hrest ▸ ht
  refine ⟨hposting, hrest.symm ▸ hheaders, fun heq => ?_, fun heq hstate => ?_, fun owner hin => ?_⟩
  · subst heq
    have hall := h.alone (hpending ▸ List.mem_cons_self)
    rw [hpending] at hall
    exact hrest.trans (List.cons.inj hall).2
  · subst heq
    have hin : .event .postSent ∈ s.pending := hpending ▸ List.mem_cons_self
    obtain ⟨-, hbody, hlength⟩ := h.ready hin (halike.state ▸ hstate)
    exact ⟨halike.body.trans hbody, hlength⟩
  · exact hpipe owner (hrest ▸ mem_pending_of_tasks hin)

theorem Taken.of_idle (h : Posting post s y) (hqueue : s.queue = []) (htasks : s.tasks = [])
    {e : Event} (hheaders : e ≠ .headersWritten) (hsent : e ≠ .postSent) : Taken post s y e where
  posting := h
  headers := by simp [pending, hqueue, htasks]
  only heq := absurd heq hheaders
  sent heq := absurd heq hsent
  noPipe owner := by simp [htasks]

/-- A row into any state but `SendPost`. -/
theorem Taken.enter {e : Event} {answer : Answer} {t : Target} (h : Taken post s y e)
    (ht : t.state ≠ .sendPost) (hwhole : answering t.state = true → Whole post s y)
    (hunsent : connecting t.state = true → t.state ≠ .connect → sentBody s.log = [])
    (hentry : OnEntry (s.leave t.state) answer t s') : Posting post s' y := by
  have hentered := hentry.entered
  have helse := hentry.elsewhere ht
  have hstate : s'.state = t.state := hentered.state
  have howed (owner : ℕ) : s'.owed owner = s.owed owner :=
    (helse.owed owner).trans (owed_congr rfl rfl rfl owner)
  -- The data of the state that is entered is new, so nothing is owed for it.
  have hlive : ∀ owner ∈ s'.live, owner = s.fresh ∧ s.fresh < s'.fresh := by
    intro owner howner
    rcases helse.live with hnone | ⟨hsome, hlt⟩
    · rw [hnone, leave_live] at howner
      cases howner
    · rw [hsome, leave_fresh] at howner
      cases howner
      exact ⟨rfl, hlt⟩
  have hnew : ∀ owner ∈ s'.live, s'.owed owner = [] := by
    intro owner howner
    rw [howed, (hlive owner howner).1]
    by_contra hne
    exact absurd (h.posting.owed_lt _ hne) (lt_irrefl _)
  have hnot : s'.state ≠ .sendPost := hstate ▸ ht
  obtain ⟨events, hqueue, hheaders, hsent⟩ := helse.raised
  have hpending : .event .headersWritten ∉ s'.pending := by
    rw [pending, hqueue, hentered.tasks, List.map_append, List.append_assoc, List.mem_append,
      List.mem_append, not_or, not_or]
    have hbefore := h.headers
    rw [pending, List.mem_append, not_or] at hbefore
    refine ⟨hbefore.1, fun hin => ?_, hbefore.2⟩
    obtain ⟨_, hmem, heq⟩ := List.mem_map.mp hin
    exact hheaders (Task.event.inj heq ▸ hmem)
  exact {
    config := (congrArg Config.post hentered.cfg).trans h.posting.config
    unsent := fun hcrashed hconnecting => by
      rw [hstate] at hconnecting
      refine hentry.unsent hconnecting hcrashed fun hne => ?_
      rw [leave_log, sentBody_of_other rfl]
      exact hunsent hconnecting hne
    live_lt := fun owner howner => by
      obtain ⟨rfl, hlt⟩ := hlive owner howner
      exact hlt
    owed_lt := fun owner hne =>
      (h.posting.owed_lt owner (howed owner ▸ hne)).trans_le helse.fresh
    elsewhere := fun _ => hnew
    one := fun owner howner => by rw [hnew owner howner]; exact Nat.zero_le 1
    body := fun heq => absurd heq hnot
    counted := fun heq => absurd heq hnot
    ready := fun _ heq => absurd heq hnot
    whole := fun hanswering => by
      rw [hstate] at hanswering
      obtain ⟨hbody, hlength⟩ := hwhole hanswering
      refine ⟨(hentry.sentBody hanswering).trans ?_, hlength⟩
      rw [leave_log, sentBody_of_other rfl, hbody]
    suffix := h.posting.suffix
    alone := fun hin => absurd hin hpending
    asking := fun owner hin => by
      rw [hentered.tasks] at hin
      exact absurd hin (h.noPipe owner) }

/-- What the pipe gives when `SendPost` is entered. -/
def entryYield (post : Post) (s : Machine) (e : Event) (answer : Answer) (y : Yielded) : Yielded :=
  match post with
  | .data _ => y
  | .pipe postDataSize =>
    if e = .headersWritten ∧ s.state = .sendHeader then y.add true postDataSize answer.chunk else y

theorem entryYield_of_not {e : Event} (answer : Answer)
    (h : ¬(e = .headersWritten ∧ s.state = .sendHeader)) :
    entryYield post s e answer y = y := by
  unfold entryYield
  split
  · rfl
  · rw [if_neg h]

theorem Row.answering_cases {e : Event} {t : Target} (h : Row s e t) (hpost : s.cfg.post.isSome)
    (ht : answering t.state = true) :
    answering s.state = true ∨ e = .postSent ∧ s.state = .sendPost := by
  cases h with
  | postSent h => exact .inr ⟨rfl, h⟩
  | headersRead evt h => exact .inl (by rw [h]; rfl)
  | headersParsed evt h => exact .inl (by rw [h]; rfl)
  | contentRead h => exact .inl (by rw [h]; rfl)
  | headersWritten h => simp [hpost, Target.state, answering] at ht
  | connected h hproxy => split at ht <;> simp [Target.state, answering] at ht
  | tunnelled h => split at ht <;> simp [Target.state, answering] at ht
  | _ => simp [Target.state, answering] at ht

theorem Row.connecting_cases {e : Event} {t : Target} (h : Row s e t)
    (ht : connecting t.state = true) (hne : t.state ≠ .connect) : connecting s.state = true := by
  cases h with
  | resolved endpoint h => exact absurd rfl hne
  | proxyRequired h hproxy => rw [h]; rfl
  | connected h hproxy => rw [h]; rfl
  | tunnelled h => rw [h]; rfl
  | handshake h => rw [h]; rfl
  | headersWritten h => rw [h]; rfl
  | _ => simp [Target.state, connecting] at ht

theorem Row.sendPost_cases {e : Event} {t : Target} (h : Row s e t) (ht : t.state = .sendPost) :
    t = .sendPost ∧ e = .headersWritten ∧ s.state = .sendHeader := by
  cases h with
  | headersWritten h =>
    split at ht
    · exact ⟨by rw [if_pos ‹_›], rfl, h⟩
    · cases ht
  | connected h hproxy => split at ht <;> cases ht
  | tunnelled h => split at ht <;> cases ht
  | _ => cases ht

theorem pipeEvents_postSent {d : SendPostData} {chunk : PipeChunk}
    (h : .postSent ∈ d.pipeEvents chunk) :
    chunk.bytes = [] ∧ d.bytesReadFromInterface = d.postInterfaceSize := by
  have hfinish (hmem : d.finish = .postSent) :
      d.bytesReadFromInterface = d.postInterfaceSize := by
    unfold SendPostData.finish at hmem
    split_ifs at hmem with heq
    exact heq
  cases chunk with
  | data bytes =>
    simp only [SendPostData.pipeEvents] at h
    split_ifs at h with hbytes
    · exact ⟨hbytes, hfinish (List.mem_singleton.mp h).symm⟩
    · cases h
  | throws what =>
    refine ⟨rfl, hfinish ?_⟩
    have hsent : .postSent = d.finish := by simpa [SendPostData.pipeEvents] using h
    exact hsent.symm

theorem pipeEvents_cases {d : SendPostData} {chunk : PipeChunk} {e : Event}
    (h : e ∈ d.pipeEvents chunk) : e = .postSent ∨ ∃ evt : ErrorEvent, e = .error evt ∧ evt.Plain := by
  have hfinish : d.finish = .postSent ∨ ∃ evt : ErrorEvent, d.finish = .error evt ∧ evt.Plain := by
    unfold SendPostData.finish
    split_ifs
    · exact .inl rfl
    · exact .inr ⟨_, rfl, by simp [ErrorEvent.Plain, postSizeError]⟩
  cases chunk with
  | data bytes =>
    simp only [SendPostData.pipeEvents] at h
    split_ifs at h
    · rw [List.mem_singleton.mp h]
      exact hfinish
    · cases h
  | throws what =>
    rcases List.mem_cons.mp h with rfl | h
    · exact .inr ⟨_, rfl, by simp [ErrorEvent.Plain, postReadError]⟩
    · rw [List.mem_singleton.mp h]
      exact hfinish

/-- What the pipe raises for a chunk, and what it has called before. -/
theorem raised_cases {d : SendPostData} {answer : Answer} {e : Event}
    (h : e ∈ answer.calls.map Call.event ++ d.pipeEvents answer.chunk) :
    e ≠ .headersWritten ∧ (e = .postSent → answer.chunk.bytes = [] ∧
      d.bytesReadFromInterface = d.postInterfaceSize) := by
  rcases List.mem_append.mp h with hcall | hpipe
  · obtain ⟨call, -, rfl⟩ := List.mem_map.mp hcall
    cases call <;> exact ⟨nofun, nofun⟩
  · refine ⟨?_, fun heq => pipeEvents_postSent (heq ▸ hpipe)⟩
    rcases pipeEvents_cases hpipe with rfl | ⟨evt, rfl, -⟩ <;> nofun

/-- As long as the pipe gives no more than it has announced, the counter does not wrap. -/
theorem trunc_hop {postDataSize : ℕ} (h : (Post.pipe postDataSize).Bounded y)
    (hsuffix : y.hop <:+ y.lifetime) : trunc 64 y.hop.length = y.hop.length := by
  obtain ⟨hsize, hlifetime⟩ := h
  exact trunc_of_lt ((hsuffix.length_le.trans hlifetime).trans_lt hsize)

/-- What is to be shown of a state in the middle of `SendPost`. -/
theorem Posting.of_sending (owner : ℕ) (hconfig : s.cfg.post = some post)
    (hstate : s.state = .sendPost) (hlive : s.live = some owner) (hfresh : owner < s.fresh)
    (howed : ∀ other, s.owed other ≠ [] → other < s.fresh) (hone : (s.owed owner).length ≤ 1)
    (hbody : ∀ postData ∈ s.owed owner, sentBody s.log ++ postData = post.hop y)
    (hcounted : ∀ postDataSize, post = .pipe postDataSize →
      s.sendPostData = ⟨postDataSize, trunc 64 y.hop.length⟩)
    (hready : .event .postSent ∈ s.pending → s.owed owner = [] ∧ Whole post s y)
    (hsuffix : y.hop <:+ y.lifetime) (hheaders : .event .headersWritten ∉ s.pending)
    (hasking : ∀ other, .pipe other ∈ s.tasks → other = owner ∧ s.pending = [.pipe other] ∧
      ∃ postDataSize, post = .pipe postDataSize) : Posting post s y := by
  have honly : ∀ other ∈ s.live, other = owner := by
    intro other hother
    rw [hlive] at hother
    exact (Option.mem_some.mp hother).symm
  exact {
    config := hconfig
    unsent := fun _ hconnecting => by simp [hstate, connecting] at hconnecting
    live_lt := fun other hother => honly other hother ▸ hfresh
    owed_lt := howed
    elsewhere := fun hne => absurd hstate hne
    one := fun other hother => honly other hother ▸ hone
    body := fun _ other hother => honly other hother ▸ hbody
    counted := fun _ => hcounted
    ready := fun hmem _ => by
      obtain ⟨hnone, hwhole⟩ := hready hmem
      exact ⟨fun other hother => honly other hother ▸ hnone, hwhole⟩
    whole := fun hanswering => by simp [hstate, answering] at hanswering
    suffix := hsuffix
    alone := fun hmem => absurd hmem hheaders
    asking := fun other hmem => by
      obtain ⟨rfl, hpending, hpipe⟩ := hasking other hmem
      exact ⟨hstate, hlive, hpending, hpipe⟩ }

/-- Nothing is owed for the data of `SendPost` before it is entered. -/
theorem Posting.owed_fresh (h : Posting post s y) : s.owed s.fresh = [] := by
  by_contra hne
  exact absurd (h.owed_lt _ hne) (lt_irrefl _)

theorem Posting.lt_of_owed (h : Posting post s y) {fresh owner : ℕ} (hfresh : s.fresh < fresh)
    {chunk owed : List (List UInt8)}
    (hperm : owed.Perm ((if s.fresh = owner then chunk else []) ++ s.owed owner))
    (hne : owed ≠ []) : owner < fresh := by
  split_ifs at hperm with heq
  · exact heq ▸ hfresh
  · refine (h.owed_lt owner fun hempty => hne ?_).trans hfresh
    rw [hempty] at hperm
    exact hperm.eq_nil

theorem Taken.nothing (h : Taken post s y .headersWritten) : s.queue = [] ∧ s.tasks = [] := by
  have hpending := h.only rfl
  rwa [pending, List.append_eq_nil_iff, List.map_eq_nil_iff] at hpending

theorem Taken.body (h : Taken post s y .headersWritten) (hstate : s.state = .sendHeader)
    (hcrashed : s.crashed = false) : sentBody (s.leave .sendPost).log = [] := by
  rw [leave_log, sentBody_of_other rfl]
  exact h.posting.unsent hcrashed (by rw [hstate]; rfl)

/-- A buffer is written at once. -/
theorem Taken.enterData {bytes : List UInt8} (h : Taken (.data bytes) s y .headersWritten)
    (hstate : s.state = .sendHeader) (hcrashed : s.crashed = false) (answer : Answer) :
    Posting (.data bytes) ((s.leave .sendPost).enterSendPost answer) y := by
  obtain ⟨hqueue, htasks⟩ := h.nothing
  have hbody := h.body hstate hcrashed
  have hconfig := h.posting.config
  have howed (owner : ℕ) : (((s.leave .sendPost).enterSendPost answer).owed owner).Perm
      ((if s.fresh = owner then [[]] else []) ++ s.owed owner) := by
    rw [Machine.enterSendPost, leave_cfg, hconfig]
    exact owed_async_postWrite ((s.leave .sendPost).record (.wrotePost bytes)).begin owner
      s.fresh "write request post" s.cfg.timeoutSeconds
  have hown := howed s.fresh
  rw [if_pos rfl, h.posting.owed_fresh, List.append_nil] at hown
  have hlog : sentBody ((s.leave .sendPost).enterSendPost answer).log = bytes := by
    rw [enterSendPost_log (s.leave .sendPost) answer hconfig, Post.entries, sentBody_append, hbody]
    rfl
  have hrest : ((s.leave .sendPost).enterSendPost answer).pending = [] ∧
      ((s.leave .sendPost).enterSendPost answer).live = some s.fresh ∧
      ((s.leave .sendPost).enterSendPost answer).fresh = s.fresh + 1 + 1 := by
    rw [Machine.enterSendPost, leave_cfg, hconfig]
    exact ⟨by simp [pending, beginAsync, hqueue, htasks], rfl, rfl⟩
  obtain ⟨hnothing, hlive, hfresh⟩ := hrest
  have hentered := (s.leave .sendPost).enterSendPost_entered answer
  refine .of_sending s.fresh ((congrArg Config.post hentered.cfg).trans hconfig) hentered.state
    hlive (by omega) (fun owner hne => h.posting.lt_of_owed (by omega) (howed owner) hne)
    (by rw [hown.length_eq]; rfl) (fun postData hmem => ?_) (by rintro _ ⟨⟩) ?_
    h.posting.suffix ?_ ?_
  · rw [List.mem_singleton.mp (hown.mem_iff.mp hmem), hlog, List.append_nil]
    rfl
  · rw [hnothing]
    simp
  · rw [hnothing]
    rintro ⟨⟩
  · intro owner hmem
    rw [hentered.tasks, leave_tasks, htasks] at hmem
    cases hmem

/-- What the first request to a pipe leaves behind. -/
theorem Taken.enterPipe_spec {postDataSize : ℕ}
    (h : Taken (.pipe postDataSize) s y .headersWritten) (answer : Answer) :
    ((s.leave .sendPost).enterSendPost answer).pending = (answer.calls.map Call.event ++
        SendPostData.pipeEvents { postInterfaceSize := postDataSize } answer.chunk).map Task.event ∧
      ((s.leave .sendPost).enterSendPost answer).live = some s.fresh ∧
      ((s.leave .sendPost).enterSendPost answer).fresh = s.fresh + 1 ∧
      ((s.leave .sendPost).enterSendPost answer).sendPostData =
        ⟨postDataSize, trunc 64 answer.chunk.bytes.length⟩ := by
  obtain ⟨hqueue, htasks⟩ := h.nothing
  rw [Machine.enterSendPost, leave_cfg, h.posting.config]
  dsimp only
  split <;> simp [pending, hqueue, htasks, SendPostData.read]

/-- A pipe is asked for its first chunk on the connection. -/
theorem Taken.enterPipe {postDataSize : ℕ} (h : Taken (.pipe postDataSize) s y .headersWritten)
    (hstate : s.state = .sendHeader) (hcrashed : s.crashed = false) (answer : Answer) :
    Posting (.pipe postDataSize) ((s.leave .sendPost).enterSendPost answer)
      (y.add true postDataSize answer.chunk) := by
  obtain ⟨hqueue, htasks⟩ := h.nothing
  have hbody := h.body hstate hcrashed
  have hconfig := h.posting.config
  have hentered := (s.leave .sendPost).enterSendPost_entered answer
  have howed (owner : ℕ) : (((s.leave .sendPost).enterSendPost answer).owed owner).Perm
      ((if s.fresh = owner then if answer.chunk.bytes = [] then [] else [answer.chunk.bytes]
        else []) ++ s.owed owner) := by
    rw [Machine.enterSendPost, leave_cfg, hconfig]
    dsimp only
    by_cases hbytes : answer.chunk.bytes = []
    · rw [if_pos hbytes, if_pos hbytes, ite_self]
      exact .refl _
    · rw [if_neg hbytes, if_neg hbytes]
      exact owed_delay_post _ owner _ _
  have hown := howed s.fresh
  rw [if_pos rfl, h.posting.owed_fresh, List.append_nil] at hown
  have hlog : sentBody ((s.leave .sendPost).enterSendPost answer).log = [] := by
    rw [enterSendPost_log (s.leave .sendPost) answer hconfig, Post.entries, List.append_nil, hbody]
  obtain ⟨hraised, hlive, hfresh, hdata⟩ := h.enterPipe_spec answer
  have hpending {e : Event}
      (hmem : .event e ∈ ((s.leave .sendPost).enterSendPost answer).pending) :
      e ∈ answer.calls.map Call.event ++
        SendPostData.pipeEvents { postInterfaceSize := postDataSize } answer.chunk := by
    rw [hraised] at hmem
    obtain ⟨e', hmem, heq⟩ := List.mem_map.mp hmem
    exact Task.event.inj heq ▸ hmem
  refine .of_sending s.fresh ((congrArg Config.post hentered.cfg).trans hconfig) hentered.state
    hlive (by omega) (fun owner hne => h.posting.lt_of_owed (by omega) (howed owner) hne) ?_ ?_ ?_ ?_
    (List.suffix_append _ _) (fun hmem => (raised_cases (hpending hmem)).1 rfl) ?_
  · rw [hown.length_eq]
    split <;> simp
  · intro postData hmem
    have hmem' := hown.mem_iff.mp hmem
    split at hmem'
    · cases hmem'
    · rw [List.mem_singleton.mp hmem', hlog]
      rfl
  · rintro size ⟨⟩
    exact hdata
  · intro hmem
    obtain ⟨hbytes, hsize⟩ := (raised_cases (hpending hmem)).2 rfl
    rw [if_pos hbytes] at hown
    refine ⟨hown.eq_nil, ?_, ?_⟩
    · rw [hlog]
      exact hbytes.symm
    · show answer.chunk.bytes.length = postDataSize
      rw [hbytes]
      exact hsize
  · intro owner hmem
    rw [hentered.tasks, leave_tasks, htasks] at hmem
    cases hmem

theorem process_headersWritten (hpost : s.cfg.post = some post) (hstate : s.state = .sendHeader)
    (answer : Answer) :
    s.process .headersWritten answer = (s.leave .sendPost).enterSendPost answer := by
  have hrow : s.row .headersWritten = some .sendPost := by simp [row, hstate, hpost]
  simp only [Machine.process, hrow]
  rw [hstate, if_neg (by simp [StateName.isTerminate])]
  rfl

theorem Taken.process_headers (h : Taken post s y .headersWritten) (hstate : s.state = .sendHeader)
    (hcrashed : s.crashed = false) (answer : Answer) :
    Posting post (s.process .headersWritten answer)
      (entryYield post s .headersWritten answer y) := by
  rw [process_headersWritten h.posting.config hstate]
  cases post with
  | data bytes => exact h.enterData hstate hcrashed answer
  | pipe postDataSize =>
    have hyield : entryYield (.pipe postDataSize) s .headersWritten answer y =
        y.add true postDataSize answer.chunk := if_pos ⟨rfl, hstate⟩
    rw [hyield]
    exact h.enterPipe hstate hcrashed answer

/-- An event that is processed. -/
theorem Taken.process {e : Event} (h : Taken post s y e) (hcrashed : s.crashed = false)
    (answer : Answer) : Posting post (s.process e answer) (entryYield post s e answer y) := by
  by_cases hentry : e = .headersWritten ∧ s.state = .sendHeader
  · obtain ⟨rfl, hstate⟩ := hentry
    exact h.process_headers hstate hcrashed answer
  rw [entryYield_of_not answer hentry]
  refine process_cases (P := fun s' => Posting post s' y) s e answer (fun _ => h.posting)
    (fun _ _ => ?_) (fun t s' _ hrow hentered => ?_)
  · refine h.posting.alike ⟨rfl, id, rfl, rfl, rfl, le_rfl, sentBody_of_other rfl,
      fun owner => .refl _⟩ id (fun hin => absurd hin h.headers) fun owner hin => ?_
    exact absurd hin (h.noPipe owner)
  · have ht : t.state ≠ .sendPost := fun ht => hentry (hrow.sendPost_cases ht).2
    refine h.enter ht (fun hanswering => ?_) (fun hconnecting hne => ?_) hentered
    · have hpost : s.cfg.post.isSome := by rw [h.posting.config]; rfl
      rcases hrow.answering_cases hpost hanswering with hbefore | ⟨rfl, hsending⟩
      · exact h.posting.whole hbefore
      · exact h.sent rfl hsending
    · exact h.posting.unsent hcrashed (hrow.connecting_cases hconnecting hne)

end Steps

end Machine

end MediafireSdk.Http
