import MediafireSdk.Http.Tasks

/-! The body of a POST on its way (`state_send_post.hpp`). A chunk that the pipe has given waits
for the delay timer, is written, and the handler of the write asks for the next one: at any time
at most one chunk is owed to the connection, by a task, a timer or an operation whose data has
the owner number of the state. -/

namespace MediafireSdk.Http

open Runs Words

/-- What `SetPostData` and `SetPostInterface` set `Content-Length` to. -/
def Post.contentLength : Post → ℕ
  | .data bytes => bytes.length
  | .pipe postDataSize => postDataSize

/-- `SetPostData` and `SetPostInterface`. -/
def Config.setPost (cfg : Config) (post : Post) : Config :=
  { cfg with
    post := some post
    headers := setHeader "Content-Length" (toString post.contentLength) cfg.headers
    requestMethod := "POST" }

/-- A header has this value, and this name in any case. -/
def HasHeader (headers : List (String × String)) (name value : String) : Prop :=
  ∃ header ∈ headers, iequals header.1 name = true ∧ header.2 = value

theorem hasHeader_setHeader (name value : String) (headers : List (String × String)) :
    HasHeader (setHeader name value headers) name value := by
  induction headers with
  | nil => exact ⟨_, List.mem_singleton_self _, by simp [iequals], rfl⟩
  | cons header headers ih =>
    rw [setHeader]
    split_ifs with hname
    · exact ⟨_, List.mem_cons_self, hname, rfl⟩
    · obtain ⟨header', hmem, hheader⟩ := ih
      exact ⟨header', List.mem_cons_of_mem _ hmem, hheader⟩

theorem Config.hasHeader_setPost (cfg : Config) (post : Post) :
    HasHeader (cfg.setPost post).headers "Content-Length" (toString post.contentLength) :=
  hasHeader_setHeader _ _ _

/-! ### What a connection gets -/

def Entry.sent (body : List UInt8) : Entry → List UInt8
  | .connecting _ | .wrote _ _ _ => []
  | .wrotePost postData => body ++ postData
  | _ => body

/-- The bytes that were written behind the last headers, on the last connection. -/
def sentBody (log : List Entry) : List UInt8 := log.foldl Entry.sent []

@[simp] theorem sentBody_append (log : List Entry) (entry : Entry) :
    sentBody (log ++ [entry]) = entry.sent (sentBody log) := by
  simp [sentBody]

/-! ### What a pipe gives -/

/-- What a pipe has given in its lifetime and since the headers were written, and whether it has
ended on a connection with fewer bytes than announced. -/
structure Yielded where
  lifetime : List UInt8 := []
  hop : List UInt8 := []
  short : Bool := false
  deriving DecidableEq, Repr

def Yielded.add (y : Yielded) (first : Bool) (postDataSize : ℕ) (chunk : PipeChunk) : Yielded :=
  let hop := (if first then [] else y.hop) ++ chunk.bytes
  { lifetime := y.lifetime ++ chunk.bytes
    hop
    short := y.short || (chunk.bytes = [] && hop.length ≠ postDataSize) }

namespace Machine

/-- Whether the next task asks the pipe, for its first chunk on a connection or for a further
one. -/
def asks (s : Machine) : Option Bool :=
  match s.queue.map Task.event ++ s.tasks with
  | .event .headersWritten :: _ => if s.state = .sendHeader then some true else none
  | .pipe _ :: _ => some false
  | _ => none

def observeYield (s : Machine) (a : Act) (y : Yielded) : Yielded :=
  match s.cfg.post, a with
  | some (.pipe postDataSize), .proceed answer =>
    match s.asks with
    | some first => y.add first postDataSize answer.chunk
    | none => y
  | _, _ => y

/-- What is still to be done in the handler that runs. -/
def pending (s : Machine) : List Task := s.queue.map Task.event ++ s.tasks

/-! ### What is owed -/

def owedByDelay (owner : ℕ) (d : Delay) : Option (List UInt8) :=
  match d.kind with
  | .post postData => if d.owner = owner then some postData else none
  | .content _ => none

def owedByOp (owner : ℕ) (op : Op) : Option (List UInt8) :=
  if op.owner = owner ∧ op.kind = .postWrite then some [] else none

def owedByTask (owner : ℕ) : Task → Option (List UInt8)
  | .delayPost owner' postData => if owner' = owner then some postData else none
  | .pipe owner' => if owner' = owner then some [] else none
  | _ => none

/-- What waits to be written, and the writes whose handlers will ask for more. -/
def owed (s : Machine) (owner : ℕ) : List (List UInt8) :=
  s.delays.filterMap (owedByDelay owner) ++ s.ops.filterMap (owedByOp owner) ++
    s.tasks.filterMap (owedByTask owner)

section Owed
variable (s : Machine) (owner : ℕ)

theorem owed_congr {s s' : Machine} (hdelays : s'.delays = s.delays) (hops : s'.ops = s.ops)
    (htasks : s'.tasks = s.tasks) (owner : ℕ) : s'.owed owner = s.owed owner := by
  rw [owed, owed, hdelays, hops, htasks]

theorem owed_async (kind : OpKind) (hkind : kind ≠ .postWrite) (owner' : ℕ) (reason : String)
    (timeoutSeconds : ℕ) : (s.async owner' reason timeoutSeconds kind).owed owner = s.owed owner := by
  simp [owed, owedByOp, hkind]

theorem owedByDelay_cancelled (delays : List Delay) :
    (delays.map ({ · with cancelled := true })).filterMap (owedByDelay owner) =
      delays.filterMap (owedByDelay owner) := by
  rw [List.filterMap_map]
  rfl

theorem cancelDelays_owed : s.cancelDelays.owed owner = s.owed owner := by
  unfold cancelDelays
  split
  · simp only [owed, owedByDelay_cancelled]
  · rfl

theorem owed_delay_content (owner' : ℕ) (op : AsyncOp) :
    (s.delay owner' (.content op)).owed owner = s.owed owner := by
  simp only [owed, delay_delays, delay_ops, delay_tasks, List.filterMap_append,
    owedByDelay_cancelled]
  simp [owedByDelay]

end Owed

section Taken
variable {s : Machine} {i : ℕ}

theorem filterMap_perm_of_getElem? {α β : Type*} {l : List α} {a : α} (f : α → Option β)
    (h : l[i]? = some a) : (l.filterMap f).Perm ((f a).toList ++ (l.eraseIdx i).filterMap f) := by
  obtain ⟨hlt, rfl⟩ := List.getElem?_eq_some_iff.mp h
  refine ((List.getElem_cons_eraseIdx_perm hlt).symm.filterMap f).trans (.of_eq ?_)
  cases hfa : f l[i] with
  | none => rw [List.filterMap_cons_none hfa]; rfl
  | some b => rw [List.filterMap_cons_some hfa]; rfl

theorem owed_takeDelay {d : Delay} (h : s.delays[i]? = some d) (owner : ℕ) :
    (s.owed owner).Perm
      ((owedByDelay owner d).toList ++ (s.setDelays (s.delays.eraseIdx i)).owed owner) := by
  have hperm := filterMap_perm_of_getElem? (owedByDelay owner) h
  simp only [owed, setDelays_delays, setDelays_ops, setDelays_tasks, ← List.append_assoc]
  exact (hperm.append_right _).append_right _

theorem owed_takeOp {op : Op} (h : s.ops[i]? = some op) (owner : ℕ) :
    (s.owed owner).Perm
      ((owedByOp owner op).toList ++ (s.setOps (s.ops.eraseIdx i)).owed owner) := by
  have hperm := filterMap_perm_of_getElem? (owedByOp owner) h
  simp only [owed, setOps_delays, setOps_ops, setOps_tasks]
  refine ((hperm.append_left _).append_right _).trans ?_
  simp only [← List.append_assoc]
  exact (List.perm_append_comm.append_right _).append_right _

theorem owed_takeTask {t : Task} {tasks : List Task} (h : s.tasks = t :: tasks) (owner : ℕ) :
    (s.owed owner).Perm ((owedByTask owner t).toList ++ (s.setTasks tasks).owed owner) := by
  have hsplit : (t :: tasks).filterMap (owedByTask owner) =
      (owedByTask owner t).toList ++ tasks.filterMap (owedByTask owner) := by
    cases ht : owedByTask owner t with
    | none => rw [List.filterMap_cons_none ht]; rfl
    | some b => rw [List.filterMap_cons_some ht]; rfl
  simp only [owed, setTasks_delays, setTasks_ops, setTasks_tasks, h, hsplit]
  rw [← List.append_assoc, ← List.append_assoc]
  exact List.perm_append_comm.append_right _

theorem owed_async_postWrite (s : Machine) (owner owner' : ℕ) (reason : String)
    (timeoutSeconds : ℕ) : ((s.async owner' reason timeoutSeconds .postWrite).owed owner).Perm
      ((if owner' = owner then [[]] else []) ++ s.owed owner) := by
  simp only [owed, async_delays, async_ops, async_tasks, List.filterMap_append, owedByOp,
    List.filterMap_cons, List.filterMap_nil, and_true]
  split_ifs
  · simp only [← List.append_assoc]
    exact (List.perm_append_singleton _ _).append_right _
  · simp

theorem owed_delay_post (s : Machine) (owner owner' : ℕ) (postData : List UInt8) :
    ((s.delay owner' (.post postData)).owed owner).Perm
      ((if owner' = owner then [postData] else []) ++ s.owed owner) := by
  simp only [owed, delay_delays, delay_ops, delay_tasks, List.filterMap_append,
    owedByDelay_cancelled, owedByDelay, List.filterMap_cons, List.filterMap_nil]
  split_ifs
  · simp only [← List.append_assoc]
    exact ((List.perm_append_singleton _ _).append_right _).append_right _
  · simp

theorem owed_next (s : Machine) (owner : ℕ) (tasks : List Task) :
    ((s.next tasks).owed owner).Perm (tasks.filterMap (owedByTask owner) ++ s.owed owner) := by
  simp only [owed, next_delays, next_ops, next_tasks, List.filterMap_append]
  exact List.perm_append_comm_assoc _ _ _

end Taken

/-- What the `on_entry` of a state other than `SendPost` leaves behind. -/
structure Elsewhere (s s' : Machine) : Prop where
  owed : ∀ owner, s'.owed owner = s.owed owner
  fresh : s.fresh ≤ s'.fresh
  live : s'.live = s.live ∨ s'.live = some s.fresh ∧ s.fresh < s'.fresh
  raised : ∃ events, s'.queue = s.queue ++ events ∧ .headersWritten ∉ events ∧
    .postSent ∉ events

theorem beginAsync_elsewhere (s : Machine) (kind : OpKind) (hkind : kind ≠ .postWrite)
    (reason : String) (timeoutSeconds : ℕ) :
    Elsewhere s (s.beginAsync reason timeoutSeconds kind) where
  owed owner := (owed_async _ owner kind hkind _ _ _).trans (owed_congr rfl rfl rfl owner)
  fresh := by
    simp only [beginAsync, async_fresh, begin_fresh]
    omega
  live := by
    refine .inr ⟨rfl, ?_⟩
    simp only [beginAsync, async_fresh, begin_fresh]
    omega
  raised := ⟨[], (List.append_nil _).symm, nofun, nofun⟩

theorem Elsewhere.raise (s : Machine) {s' : Machine} (events : List Event)
    (hdelays : s'.delays = s.delays) (hops : s'.ops = s.ops) (htasks : s'.tasks = s.tasks)
    (hfresh : s'.fresh = s.fresh) (hlive : s'.live = s.live) (hqueue : s'.queue = s.queue ++ events)
    (hheaders : .headersWritten ∉ events) (hsent : .postSent ∉ events) : Elsewhere s s' :=
  ⟨owed_congr hdelays hops htasks, hfresh.ge, .inl hlive, ⟨events, hqueue, hheaders, hsent⟩⟩

theorem callbackCalls_isError (s : Machine) (answer : Answer) :
    ∀ e ∈ s.callbackCalls answer, e.isError = true := by
  intro e he
  unfold callbackCalls at he
  split_ifs at he
  · obtain ⟨call, -, rfl⟩ := List.mem_map.mp he
    cases call <;> rfl
  · cases he

theorem not_mem_of_isError {events : List Event} {e : Event} (h : ∀ e ∈ events, e.isError = true)
    (he : e.isError = false) : e ∉ events := fun hmem => by
  rw [h e hmem] at he
  cases he

theorem onEntry_outputs (evt : HeadersParsedEvent) :
    .headersWritten ∉ (onEntry evt).outputs.filterMap Output.event ∧
      .postSent ∉ (onEntry evt).outputs.filterMap Output.event := by
  constructor
  all_goals
    intro hmem
    obtain ⟨output, -, hevent⟩ := List.mem_filterMap.mp hmem
    cases output <;> cases hevent

theorem OnEntry.elsewhere {s s' : Machine} {answer : Answer} {t : Target}
    (h : OnEntry s answer t s') (ht : t.state ≠ .sendPost) : Elsewhere s s' := by
  have hheaders : .headersWritten ∉ s.callbackCalls answer :=
    not_mem_of_isError (s.callbackCalls_isError answer) rfl
  have hsent : .postSent ∉ s.callbackCalls answer :=
    not_mem_of_isError (s.callbackCalls_isError answer) rfl
  cases h with
  | sendPost post h => exact absurd rfl ht
  | crash =>
    exact .raise s [] rfl rfl rfl rfl rfl (List.append_nil _).symm (by rintro ⟨⟩) (by rintro ⟨⟩)
  | resolve url h =>
    have helse := beginAsync_elsewhere (s.record (.resolving url))
      (.resolve (s.endpoint url)) (by rintro ⟨⟩) "resolving" kResolvingTimeout
    exact ⟨helse.owed, helse.fresh, helse.live, helse.raised⟩
  | connect endpoint url h =>
    have helse := beginAsync_elsewhere ((s.setProxy endpoint.proxy).record (.connecting url))
      .connect (by rintro ⟨⟩) "connect" kConnectTimeout
    exact ⟨helse.owed, helse.fresh, helse.live, helse.raised⟩
  | proxyConnect url h =>
    rw [enterProxyConnect, write_eq]
    have helse := beginAsync_elsewhere ({ s with
      log := s.log ++ s.written (connectRequest url s.currentProxy) } : Machine)
      .proxyWrite (by rintro ⟨⟩) "proxy write request" kProxyWriteTimeout
    exact ⟨helse.owed, helse.fresh, helse.live, helse.raised⟩
  | sslHandshake => exact beginAsync_elsewhere s .handshake (by rintro ⟨⟩) _ _
  | sendHeader url h =>
    rw [enterSendHeader, write_eq]
    have helse := beginAsync_elsewhere ({ s with
      log := s.log ++ s.written (serverRequest s.cfg.requestMethod url s.isSsl s.currentProxy
        s.cfg.headers) } : Machine)
      .headerWrite (by rintro ⟨⟩) "write request header" s.cfg.timeoutSeconds
    exact ⟨helse.owed, helse.fresh, helse.live, helse.raised⟩
  | readHeaders => exact beginAsync_elsewhere s .headerRead (by rintro ⟨⟩) _ _
  | redirectHeaders evt url location h =>
    refine .raise s _ rfl rfl rfl rfl rfl rfl ?_ ?_ <;> simp [hheaders, hsent]
  | responseHeaders evt parsed h =>
    refine .raise s _ rfl rfl rfl rfl rfl rfl ?_ ?_ <;> simp [hheaders, hsent]
  | readContent evt =>
    obtain ⟨hheaders, hsent⟩ := onEntry_outputs evt
    have hop (op : AsyncOp) : OpKind.content op ≠ .postWrite := by rintro ⟨⟩
    unfold enterReadContent
    dsimp only
    split
    · refine ⟨owed_congr rfl rfl rfl, Nat.le_succ _, .inr ⟨rfl, Nat.lt_succ_self _⟩,
        ⟨_, rfl, hheaders, hsent⟩⟩
    · refine ⟨fun owner => (owed_async _ owner _ (hop _) _ _ _).trans (owed_congr rfl rfl rfl owner),
        ?_, .inr ⟨rfl, ?_⟩, ⟨_, rfl, hheaders, hsent⟩⟩
      · simp only [async_fresh, raiseAll_fresh, begin_fresh]
        omega
      · simp only [async_fresh, raiseAll_fresh, begin_fresh]
        omega
  | finalError evt =>
    have hcancelled : s.disconnect.cancelDelays.fresh = s.fresh ∧
        s.disconnect.cancelDelays.live = s.live ∧ s.disconnect.cancelDelays.queue = s.queue := by
      unfold cancelDelays
      split <;> exact ⟨rfl, rfl, rfl⟩
    obtain ⟨hfresh, hlive, hqueue⟩ := hcancelled
    refine ⟨fun owner => (cancelDelays_owed _ owner).trans (owed_congr rfl rfl rfl owner), hfresh.ge,
      .inl hlive, ⟨s.callbackCalls answer, ?_, hheaders, hsent⟩⟩
    exact congrArg (· ++ s.callbackCalls answer) hqueue
  | complete => exact .raise s _ rfl rfl rfl rfl rfl rfl hheaders hsent
  | _ => refine .raise s _ rfl rfl rfl rfl rfl rfl ?_ ?_ <;> simp

end Machine

end MediafireSdk.Http
