import MediafireSdk.Http.Waiting

/-! The machine and the peers of its connections. Every read of the machine on a socket is of what
the peer sends there, so that the state that reads the content is the reader of
`state_read_content.hpp` run on the bytes behind the head of the response. What the callback gets
is what this reader delivers. -/

namespace MediafireSdk.Http

open Streams Steps Runs

/-! ### The peers -/

/-- A request, what the peer of its connection still sends, and how many responses have been waited
for. -/
structure Link where
  machine : Machine
  net : PacketStream UInt8 IoError := { packets := [], close := none }
  heads : ℕ := 0

/-- The read of an operation on the socket for the head or the content of a response. -/
def Machine.socketRead (s : Machine) (net : PacketStream UInt8 IoError) :
    OpKind → Option (Option (Read UInt8 IoError))
  | .headerRead => some (net.readUntil hasHeadersEnd [])
  | .content (.contentRead size _ _) => some (net.readExactly size)
  | .content (.chunkRead left _ _) => some (net.readExactly left)
  | .content (.chunkSizeRead _) => some (net.readUntil hasCrlf s.readContentData.readBuffer)
  | _ => none

namespace Link

/-- What the peer still sends after a step; none if an operation that is waited for completes with
something else than what the peer has sent. -/
def rest (l : Link) : Act → Option (PacketStream UInt8 IoError)
  | .complete i received err =>
    match l.machine.ops[i]? with
    | none => some l.net
    | some op =>
      if l.machine.live = some op.owner then
        match l.machine.socketRead l.net op.kind with
        | none => some l.net
        | some read => read.bind fun read =>
          if received = read.received ∧ err = read.error then some read.rest else none
      else some l.net
  | _ => some l.net

/-- A step of the machine. With every response that is waited for the next stream of a peer
begins. -/
def step (peers : ℕ → PacketStream UInt8 IoError) (l : Link) (a : Act) : Option Link := do
  let s ← l.machine.step a
  let net ← l.rest a
  if l.machine.state ≠ .readHeaders ∧ s.state = .readHeaders then
    some { machine := s, net := peers (l.heads + 1), heads := l.heads + 1 }
  else some { l with machine := s, net := net }

end Link

/-! ### What the callback gets -/

def Entry.bytes : Entry → Buffer
  | .responseContentReceived _ buffer => buffer
  | _ => []

/-- All the content that was passed on, in order. -/
def passedOn (log : List Entry) : Buffer := log.flatMap Entry.bytes

def Task.bytes : Task → Buffer
  | .content _ buffer => buffer
  | _ => []

def HeadersReadEvent.parsed (evt : HeadersReadEvent) : HeadersParsedEvent where
  contentLength := evt.contentLength
  headers := evt.headers
  readBuffer := evt.readBuffer

/-- The head of a response from the stream of a peer. -/
structure IsHead (peer : PacketStream UInt8 IoError) (url : String) (evt : HeadersReadEvent)
    (read : Read UInt8 IoError) : Prop where
  comes : peer.readUntil hasHeadersEnd [] = some read
  parsed : headersRead url read = .ok evt

/-! ### The flag of the delay timer -/

/-- The same but for the flag, which the machine keeps itself. -/
def SameData (d d' : ReadContentData) : Prop :=
  ∃ enabled, d' = { d with transmissionDelayTimerEnabled := enabled }

structure SameOutcome (o o' : Outcome) : Prop where
  outputs : o'.outputs = o.outputs
  next : o'.next = o.next
  data : SameData o.data o'.data

section Same
variable {fsm : Fsm} {d d' : ReadContentData}

theorem SameData.receive (h : SameData d d') (received : List UInt8) :
    SameData (d.receive received) (d'.receive received) := by
  obtain ⟨enabled, rfl⟩ := h
  exact ⟨enabled, rfl⟩

theorem handleContentComplete_same (enabled : Bool) (outputs : List Output) :
    SameOutcome (handleContentComplete fsm d outputs)
      (handleContentComplete fsm { d with transmissionDelayTimerEnabled := enabled } outputs) := by
  unfold handleContentComplete
  split_ifs
  · dsimp only
    split <;> exact ⟨rfl, rfl, enabled, rfl⟩
  · exact ⟨rfl, rfl, enabled, rfl⟩

theorem handleContentRead_same (h : SameData d d') (total previously n : ℕ) (err : Option IoError) :
    SameOutcome (handleContentRead fsm d total previously n err)
      (handleContentRead fsm d' total previously n err) := by
  obtain ⟨enabled, rfl⟩ := h
  obtain ⟨cancelled, contentLength, buffer, gzipped, consumed, usingGzip, usingLength, flag⟩ := d
  unfold handleContentRead
  cases usingGzip
  all_goals
    simp only [Bool.false_eq_true, if_false, if_true]
    split_ifs
  all_goals first
    | exact ⟨rfl, rfl, enabled, rfl⟩
    | exact ⟨rfl, rfl, true, rfl⟩
    | exact handleContentComplete_same enabled _

theorem handleContentChunkRead_same (h : SameData d d') (consumed size n : ℕ)
    (err : Option IoError) :
    SameOutcome (handleContentChunkRead fsm d consumed size n err)
      (handleContentChunkRead fsm d' consumed size n err) := by
  obtain ⟨enabled, rfl⟩ := h
  unfold handleContentChunkRead
  dsimp only
  split_ifs <;> exact ⟨rfl, rfl, enabled, rfl⟩

theorem handleCompleteAllChunks_same (enabled : Bool) (outputs : List Output) :
    SameOutcome (handleCompleteAllChunks fsm d outputs)
      (handleCompleteAllChunks fsm { d with transmissionDelayTimerEnabled := enabled } outputs) := by
  unfold handleCompleteAllChunks
  split_ifs
  · dsimp only
    split <;> exact ⟨rfl, rfl, enabled, rfl⟩
  · exact ⟨rfl, rfl, enabled, rfl⟩

theorem handleContentChunkSizeRead_same (h : SameData d d') (consumed n : ℕ)
    (err : Option IoError) :
    SameOutcome (handleContentChunkSizeRead fsm d consumed n err)
      (handleContentChunkSizeRead fsm d' consumed n err) := by
  obtain ⟨enabled, rfl⟩ := h
  unfold handleContentChunkSizeRead
  dsimp only
  split_ifs
  · exact ⟨rfl, rfl, enabled, rfl⟩
  · split
    · exact ⟨rfl, rfl, enabled, rfl⟩
    · split_ifs
      · exact handleCompleteAllChunks_same enabled _
      · exact ⟨rfl, rfl, true, rfl⟩
  · exact ⟨rfl, rfl, enabled, rfl⟩

/-- Where there is another operation the data is not cancelled, and for a wait on the delay timer
the timer is enabled. -/
def Outcome.GoesOn (o : Outcome) : Prop :=
  ∀ a, o.next = some a → o.data.cancelled = false ∧
    (a.isDelay = true → o.data.transmissionDelayTimerEnabled = true)

theorem goesOn_of_none {o : Outcome} (h : o.next = none) : o.GoesOn := fun a ha => by
  rw [h] at ha
  cases ha

theorem handleContentComplete_next (d : ReadContentData) (outputs : List Output) :
    (handleContentComplete fsm d outputs).next = none := by
  unfold handleContentComplete
  split_ifs
  · split <;> rfl
  · rfl

theorem handleContentRead_goesOn (h : d.cancelled = false) (total previously n : ℕ)
    (err : Option IoError) : (handleContentRead fsm d total previously n err).GoesOn := by
  unfold handleContentRead
  dsimp only
  generalize hd' : (if d.usingGzip = true then d else _) = d'
  have hcancelled : d'.cancelled = false := by
    rw [← hd']
    split_ifs <;> exact h
  split_ifs
  · exact goesOn_of_none rfl
  · exact goesOn_of_none rfl
  · exact goesOn_of_none (handleContentComplete_next _ _)
  · exact fun _ _ => ⟨hcancelled, fun _ => rfl⟩
  · exact goesOn_of_none rfl

theorem handleContentChunkRead_goesOn (h : d.cancelled = false) (consumed size n : ℕ)
    (err : Option IoError) : (handleContentChunkRead fsm d consumed size n err).GoesOn := by
  unfold handleContentChunkRead
  dsimp only
  split_ifs
  · exact goesOn_of_none rfl
  · exact fun a ha => ⟨h, fun hdelay => by cases ha; cases hdelay⟩
  · exact fun a ha => ⟨h, fun hdelay => by cases ha; cases hdelay⟩
  · exact goesOn_of_none rfl

theorem handleContentChunkSizeRead_goesOn (h : d.cancelled = false) (consumed n : ℕ)
    (err : Option IoError) : (handleContentChunkSizeRead fsm d consumed n err).GoesOn := by
  unfold handleContentChunkSizeRead
  dsimp only
  split_ifs
  · exact goesOn_of_none rfl
  · split
    · exact goesOn_of_none rfl
    · split_ifs
      · unfold handleCompleteAllChunks
        split_ifs
        · split <;> exact goesOn_of_none rfl
        · exact goesOn_of_none rfl
      · exact fun _ _ => ⟨h, fun _ => rfl⟩
  · exact goesOn_of_none rfl

/-- The reader makes the step that the handler of a read makes. -/
theorem contentOutcome_step {s : Machine} {net : PacketStream UInt8 IoError} {r : Reading}
    {a : AsyncOp} (hop : r.op = some a) (hnet : r.net = net)
    (h : SameData s.readContentData r.data) (hcancelled : r.data.cancelled = false)
      {read : Read UInt8 IoError}
    (hread : s.socketRead net (.content a) = some (some read)) :
    ∃ outcome, r.step s.contentFsm = some (r.proceed outcome read.rest) ∧
      SameOutcome (s.contentOutcome a read.received read.error) outcome ∧ outcome.GoesOn := by
  subst hnet
  have hreceived : (r.data.receive read.received).cancelled = false := hcancelled
  cases a with
  | contentRead size total previously =>
    have hread' : r.net.readExactly size = some read := Option.some.inj hread
    exact ⟨_, by rw [Reading.step, hop]; simp only [hread', Option.map_some],
      handleContentRead_same (h.receive _) _ _ _ _, handleContentRead_goesOn hreceived _ _ _ _⟩
  | chunkRead left consumed size =>
    have hread' : r.net.readExactly left = some read := Option.some.inj hread
    exact ⟨_, by rw [Reading.step, hop]; simp only [hread', Option.map_some],
      handleContentChunkRead_same (h.receive _) _ _ _ _,
      handleContentChunkRead_goesOn hreceived _ _ _ _⟩
  | chunkSizeRead consumed =>
    have hbuffer : r.data.readBuffer = s.readContentData.readBuffer := by
      obtain ⟨enabled, heq⟩ := h
      rw [heq]
    have hread' : r.net.readUntil hasCrlf r.data.readBuffer = some read :=
      hbuffer ▸ Option.some.inj hread
    refine ⟨_, by rw [Reading.step, hop]; simp only [hread', Option.map_some]; rfl, ?_,
      handleContentChunkSizeRead_goesOn hreceived _ _ _⟩
    have hsame := @handleContentChunkSizeRead_same s.contentFsm _ _ (h.receive read.received)
      consumed (if read.error.isSome then 0 else
        (crlfEnd (r.data.receive read.received).readBuffer).getD 0) read.error
    have hsent : (s.readContentData.receive read.received).readBuffer =
        (r.data.receive read.received).readBuffer := by simp [ReadContentData.receive, hbuffer]
    simp only [Machine.contentOutcome, hsent]
    exact hsame
  | contentReadDelay size total => cases hread
  | chunkSizeReadDelay left consumed size => cases hread

/-- The reader makes the step that the wait on the delay timer makes. -/
theorem delay_step {r : Reading} {a : AsyncOp} (hop : r.op = some a) (ha : a.isDelay = true)
    (hcancelled : r.data.cancelled = false)
    (henabled : r.data.transmissionDelayTimerEnabled = true) :
    ∃ outcome, r.step fsm = some (r.proceed outcome r.net) ∧ outcome.next = some a.afterDelay ∧
      outcome.outputs = [] ∧ SameData r.data outcome.data := by
  have hgoes : ¬r.data.cancelled = true := by simp [hcancelled]
  cases a with
  | contentReadDelay size total =>
    refine ⟨_, by rw [Reading.step, hop], ?_⟩
    rw [handleContentReadDelayCallback, if_neg hgoes, if_pos henabled]
    exact ⟨rfl, rfl, false, rfl⟩
  | chunkSizeReadDelay left consumed size =>
    refine ⟨_, by rw [Reading.step, hop], ?_⟩
    rw [handleContentChunkSizeReadDelay, if_neg hgoes, if_pos henabled]
    exact ⟨rfl, rfl, true, by rw [← henabled]⟩
  | _ => cases ha

theorem delivered_append (outputs outputs' : List Output) :
    delivered (outputs ++ outputs') = delivered outputs ++ delivered outputs' := by
  simp [delivered]

theorem outputs_bytes (outputs : List Output) :
    (outputs.filterMap Machine.outputTask).flatMap Task.bytes = delivered outputs := by
  unfold delivered deliveries
  induction outputs with
  | nil => rfl
  | cons output outputs ih =>
    cases output <;>
      simp [List.filterMap_cons, Machine.outputTask, Output.delivery, Task.bytes, ih]

theorem outcomeTasks_bytes (owner : ℕ) (o : Outcome) :
    (Machine.outcomeTasks owner o).flatMap Task.bytes = delivered o.outputs := by
  rw [Machine.outcomeTasks, List.flatMap_append, outputs_bytes]
  cases o.next <;> simp [Task.bytes]

theorem contentRead_mem {owner : ℕ} {o : Outcome}
    (h : .event .contentRead ∈ Machine.outcomeTasks owner o) : .contentReadEvent ∈ o.outputs := by
  rcases List.mem_append.mp h with h | h
  · obtain ⟨output, houtput, htask⟩ := List.mem_filterMap.mp h
    cases output <;> simp [Machine.outputTask] at htask
    exact houtput
  · cases hnext : o.next <;> simp [hnext] at h

theorem start_mem {owner owner' : ℕ} {o : Outcome} {a : AsyncOp}
    (h : .start owner' a ∈ Machine.outcomeTasks owner o) : o.next = some a := by
  rcases List.mem_append.mp h with h | h
  · obtain ⟨output, -, htask⟩ := List.mem_filterMap.mp h
    cases output <;> simp [Machine.outputTask] at htask
  · cases hnext : o.next <;> simp [hnext] at h
    rw [h.2]

end Same

namespace Machine

/-! ### The reader of the content -/

/-- The reader is as far as the machine: it has delivered what was passed on and what is about to
be, and its operation is the one that is under way. -/
structure Reads (s : Machine) (net : PacketStream UInt8 IoError) (r : Reading) : Prop where
  bytes : passedOn s.log ++ s.pending.flatMap Task.bytes = delivered r.log
  done : .event .contentRead ∈ s.pending → .contentReadEvent ∈ r.log
  goes : ∀ a, r.op = some a → r.net = net ∧ SameData s.readContentData r.data ∧
    (a.isDelay = true → r.data.transmissionDelayTimerEnabled = true)
  ops : ∀ op ∈ s.ops, s.live = some op.owner → ∀ a, op.kind = .content a → r.op = some a
  delays : ∀ d ∈ s.delays, s.live = some d.owner → ∀ a, d.kind = .content a → r.op = some a
  starts : ∀ owner a, .start owner a ∈ s.tasks → s.live = some owner → r.op = some a

/-- What the peers have sent for the response that was waited for last. -/
def Supplied (peers : ℕ → PacketStream UInt8 IoError) (heads : ℕ) (net : PacketStream UInt8 IoError)
    (s : Machine) : Prop :=
  match s.state with
  | .readHeaders => (s.pending = [] → net = peers heads) ∧
      ∀ evt, .event (.headersRead evt) ∈ s.pending →
        ∃ read, IsHead (peers heads) s.url evt read ∧ read.rest = net
  | .parseHeaders => ∀ e, .event (.headersParsed e) ∈ s.pending →
      ∃ evt read, IsHead (peers heads) s.url evt read ∧ read.rest = net ∧ e = evt.parsed
  | .readContent => ∃ evt read r, IsHead (peers heads) s.url evt read ∧
      Reaches (Reading.step s.contentFsm) (Http.enter evt.parsed read.rest) r ∧ s.Reads net r
  | .complete => ∃ evt read r, IsHead (peers heads) s.url evt read ∧
      Reaches (Reading.step s.contentFsm) (Http.enter evt.parsed read.rest) r ∧
      .contentReadEvent ∈ r.log ∧ passedOn s.log = delivered r.log
  | _ => True

section Supplied
variable {peers : ℕ → PacketStream UInt8 IoError} {heads : ℕ} {net : PacketStream UInt8 IoError}
  {s s' : Machine} {answer : Answer} {t : Target}

/-- What the state keeps of its surroundings. -/
structure SameSetting (s s' : Machine) : Prop where
  state : s'.state = s.state
  url : s'.url = s.url
  fsm : s'.contentFsm = s.contentFsm
  live : s'.live = s.live

theorem Unmoved.setting (h : Unmoved s s') : SameSetting s s' where
  state := h.state
  url := h.url
  fsm := by simp only [contentFsm, h.url, h.isSsl, h.cfg]
  live := h.live

theorem Kept.setting (h : Kept s s') : SameSetting s s' := (Unmoved.of_kept h).setting

/-- In the other states the peers do not matter. -/
theorem supplied_of_state (h : s.state ≠ .readHeaders) (h' : s.state ≠ .parseHeaders)
    (h'' : s.state ≠ .readContent) (hcomplete : s.state ≠ .complete) : Supplied peers heads net s := by
  unfold Supplied
  split <;> first | contradiction | trivial

/-- Between two transitions, without a read. -/
theorem Supplied.keep (h : Supplied peers heads net s) (hsame : SameSetting s s')
    (hempty : s.state = .readHeaders → s'.pending = [] → s.pending = [])
    (hevents : ∀ e, .event e ∈ s'.pending → e.isError = false → .event e ∈ s.pending)
    (hbytes : passedOn s'.log ++ s'.pending.flatMap Task.bytes =
      passedOn s.log ++ s.pending.flatMap Task.bytes)
    (hcomplete : s.state = .complete → passedOn s'.log = passedOn s.log)
    (hdata : s'.readContentData = s.readContentData)
    (hops : ∀ op ∈ s'.ops, s.live = some op.owner → ∀ a, op.kind = .content a →
      op ∈ s.ops ∨ .start op.owner a ∈ s.tasks)
    (hdelays : ∀ d ∈ s'.delays, s.live = some d.owner → ∀ a, d.kind = .content a →
      (∃ d' ∈ s.delays, d'.owner = d.owner ∧ d'.kind = d.kind) ∨ .start d.owner a ∈ s.tasks)
    (hstarts : ∀ owner a, .start owner a ∈ s'.tasks → .start owner a ∈ s.tasks) :
    Supplied peers heads net s' := by
  obtain ⟨hstate, hurl, hfsm, hlive⟩ := hsame
  unfold Supplied at h ⊢
  rw [hstate, hurl, hfsm]
  cases hin : s.state <;> simp only [hin] at h ⊢
  case readHeaders =>
    exact ⟨fun hidle => h.1 (hempty hin hidle), fun evt he => h.2 evt (hevents _ he rfl)⟩
  case parseHeaders => exact fun e he => h e (hevents _ he rfl)
  case readContent =>
    obtain ⟨evt, read, r, hhead, hreaches, hreads⟩ := h
    refine ⟨evt, read, r, hhead, hreaches, hbytes.trans hreads.bytes,
      fun hdone => hreads.done (hevents _ hdone rfl), fun a ha => ?_, fun op hop howner a ha => ?_,
      fun d hd howner a ha => ?_, fun owner a hstart howner => ?_⟩
    · rw [hdata]
      exact hreads.goes a ha
    · rw [hlive] at howner
      exact (hops op hop howner a ha).elim (fun hold => hreads.ops op hold howner a ha)
        fun hstart => hreads.starts _ a hstart howner
    · rw [hlive] at howner
      rcases hdelays d hd howner a ha with ⟨d', hold, howner', hkind⟩ | hstart
      · exact hreads.delays d' hold (howner' ▸ howner) a (hkind.trans ha)
      · exact hreads.starts _ a hstart howner
    · exact hreads.starts owner a (hstarts owner a hstart) (hlive ▸ howner)
  case complete =>
    obtain ⟨evt, read, r, hhead, hreaches, hdone, hpassed⟩ := h
    exact ⟨evt, read, r, hhead, hreaches, hdone, (hcomplete hin).trans hpassed⟩

theorem Supplied.closed (h : Supplied peers heads net s) (hclosed : s.state.isOpen = false)
    (hsame : SameSetting s s') (hlog : passedOn s'.log = passedOn s.log) :
    Supplied peers heads net s' := by
  obtain ⟨hstate, hurl, hfsm, -⟩ := hsame
  unfold Supplied at h ⊢
  rw [hstate, hurl, hfsm, hlog]
  cases hin : s.state <;> simp only [hin] at h hclosed ⊢ <;> first | exact h | cases hclosed

/-- Nothing is left to do, before and afterwards. -/
theorem Supplied.idle (h : Supplied peers heads net s) (hsame : SameSetting s s')
    (hidle : s.pending = [])
    (hidle' : s'.pending = []) (hlog : passedOn s'.log = passedOn s.log)
    (hdata : s'.readContentData = s.readContentData) (hops : s'.ops ⊆ s.ops)
    (hdelays : s'.delays ⊆ s.delays) : Supplied peers heads net s' := by
  have htasks : s'.tasks = [] := (List.append_eq_nil_iff.mp hidle').2
  refine h.keep hsame (fun _ _ => hidle) (fun e he => ?_) ?_ (fun _ => hlog) hdata
    (fun op hop _ _ _ => .inl (hops hop)) (fun d hd _ _ _ => .inl (mem_delays_self (hdelays hd)))
    fun owner a hstart => ?_
  · rw [hidle'] at he
    cases he
  · rw [hidle', hidle, hlog]
  · rw [htasks] at hstart
    cases hstart

/-! ### Transitions -/

theorem passedOn_append (log later : List Entry) :
    passedOn (log ++ later) = passedOn log ++ passedOn later := List.flatMap_append

/-- Nothing of the content is passed on before it is read. -/
theorem passedOn_of_unread (h : Tallied s) (hstate : s.state.isUnread = true) :
    passedOn s.log = [] := by
  have hlength (log : List Entry) : (passedOn log).length = (exchange log).received := by
    induction log using List.reverseRecOn with
    | nil => rfl
    | append_singleton log entry ih =>
      cases hcontent : entry.isContent with
      | false =>
        rw [passedOn_append, received_append log hcontent, List.length_append, ih]
        cases entry <;> simp [passedOn, Entry.bytes, Entry.isContent] at hcontent ⊢
      | true =>
        cases entry <;> cases hcontent
        rw [passedOn_append, exchange_append, List.length_append, ih]
        simp [passedOn, Entry.bytes, Exchange.after]
  exact List.length_eq_zero_iff.mp ((hlength s.log).trans (h.unread hstate))

theorem onEntry_delivered (evt : HeadersParsedEvent) : delivered (onEntry evt).outputs = [] := by
  unfold onEntry
  dsimp only
  split_ifs <;> rfl

theorem onEntry_data (evt : HeadersParsedEvent) {a : AsyncOp} (h : (onEntry evt).next = some a) :
    (onEntry evt).data.cancelled = false ∧ a.isDelay = false := by
  unfold onEntry at h ⊢
  dsimp only at h ⊢
  split_ifs at h ⊢ <;> cases h <;> exact ⟨rfl, rfl⟩

/-- The entry of the state, as the machine and the reader see it. -/
structure EntersContent (s : Machine) (evt : HeadersParsedEvent) (s' : Machine) : Prop where
  state : s'.state = s.state
  url : s'.url = s.url
  log : s'.log = s.log
  live : s'.live = some s.fresh
  queue : s'.queue = s.queue ++ (onEntry evt).outputs.filterMap Output.event
  tasks : s'.tasks = s.tasks
  data : s'.readContentData = { (onEntry evt).data with cancelled := false }
  ops : ∀ op ∈ s'.ops, op ∈ s.ops ∨ ∀ a, op.kind = .content a → (onEntry evt).next = some a
  delays : s'.delays = s.delays

theorem enterReadContent_enters (s : Machine) (evt : HeadersParsedEvent) :
    EntersContent s evt (s.enterReadContent evt) := by
  unfold enterReadContent
  dsimp only
  split
  case h_1 => exact ⟨rfl, rfl, rfl, rfl, rfl, rfl, rfl, fun op hop => .inl hop, rfl⟩
  case h_2 a hnext =>
    refine ⟨rfl, rfl, rfl, rfl, rfl, rfl, rfl, fun op hop => ?_, rfl⟩
    rcases List.mem_append.mp hop with hold | hnew
    · exact .inl hold
    · rw [List.mem_singleton.mp hnew]
      refine .inr fun a' ha => ?_
      cases ha
      exact hnext

theorem supplied_readContent {evt : HeadersReadEvent} {read : Read UInt8 IoError}
    (hhead : IsHead (peers heads) s.url evt read) (hnumbered : Numbered s)
    (hstate : s.state = .readContent) (hpending : s.pending = []) (hpassed : passedOn s.log = []) :
    Supplied peers heads read.rest (s.enterReadContent evt.parsed) := by
  have h := s.enterReadContent_enters evt.parsed
  generalize s.enterReadContent evt.parsed = s' at h
  have hraised := pending_raised hpending h.queue h.tasks
  have hnone : s.tasks = [] := (List.append_eq_nil_iff.mp hpending).2
  unfold Supplied
  rw [h.state, hstate, h.url]
  dsimp only
  refine ⟨evt, read, Http.enter evt.parsed read.rest, hhead, .refl, ?_, fun hdone => ?_,
    fun a ha => ⟨rfl, ⟨(onEntry evt.parsed).data.transmissionDelayTimerEnabled, ?_⟩,
      fun hdelay => ?_⟩, fun op hop howner a ha => ?_,
    fun d hd howner => ?_, fun owner a hstart => ?_⟩
  · rw [h.log, hpassed, hraised, List.flatMap_map]
    exact (List.flatMap_eq_nil_iff.mpr fun _ _ => rfl).trans (onEntry_delivered evt.parsed).symm
  · rw [hraised] at hdone
    rcases onEntry_raises evt.parsed with hquiet | ⟨-, error, -, hone⟩
    · simp [hquiet] at hdone
    · simp [hone] at hdone
  · rw [h.data, ← (onEntry_data evt.parsed ha).1]
    rfl
  · have hread := (onEntry_data evt.parsed ha).2
    simp [hdelay] at hread
  · rw [h.live] at howner
    exact (h.ops op hop).resolve_left (fun hold =>
      (hnumbered.ops op hold).1.ne' (Option.some.inj howner)) a ha
  · rw [h.live] at howner
    exact absurd (Option.some.inj howner) (hnumbered.delays d (h.delays ▸ hd)).ne'
  · rw [h.tasks, hnone] at hstart
    cases hstart

/-- The head is passed on to the state that reads the content. -/
theorem supplied_parseHeaders {evt : HeadersReadEvent} {read : Read UInt8 IoError}
    (hhead : IsHead (peers heads) s.url evt read) (hstate : s.state = .parseHeaders)
    (hpending : s.pending = []) :
    Supplied peers heads read.rest (s.enterParseHeaders evt answer) := by
  have hraised {u : Machine} (events : List Event) (hu : u.state = s.state)
      (hqueue : u.queue = s.queue ++ events) (htasks : u.tasks = s.tasks) (hurl : u.url = s.url)
      (hevents : ∀ e, .headersParsed e ∈ events → e = evt.parsed) :
      Supplied peers heads read.rest u := by
    unfold Supplied
    rw [hu, hstate, hurl]
    dsimp only
    intro e he
    rw [pending_raised hpending hqueue htasks, List.mem_map] at he
    obtain ⟨e', he', heq⟩ := he
    cases heq
    exact ⟨evt, read, hhead, rfl, hevents e he'⟩
  have hcalls (u : Machine) (own : Event) (hown : ∀ e, own = .headersParsed e → e = evt.parsed)
      (e : HeadersParsedEvent) (he : .headersParsed e ∈ u.callbackCalls answer ++ [own]) :
      e = evt.parsed := by
    rcases List.mem_append.mp he with hcall | hmem
    · cases callbackCalls_isError _ answer _ hcall
    · exact hown e (List.mem_singleton.mp hmem).symm
  unfold enterParseHeaders
  split_ifs
  · split
    · exact hraised _ rfl rfl rfl rfl fun e he => by cases List.mem_singleton.mp he
    · split
      · exact hraised _ rfl rfl rfl rfl fun e he => by cases List.mem_singleton.mp he
      · exact hraised _ rfl rfl rfl rfl (hcalls _ _ (by simp))
  · refine hraised _ rfl rfl rfl rfl (hcalls _ _ fun e he => ?_)
    cases he
    rfl

theorem OnEntry.supplied (h : OnEntry s answer t s') (hstate : s.state = t.state)
    (hpending : s.pending = []) (hcrashed : s'.crashed = false) (hnumbered : Numbered s)
    (hheaders : t = .readHeaders → net = peers heads) (hparse : ∀ evt, t ≠ .parseHeaders evt)
    (hcontent : ∀ e, t = .readContent e → passedOn s.log = [] ∧
      ∃ evt read, IsHead (peers heads) s.url evt read ∧ read.rest = net ∧ e = evt.parsed)
    (hcomplete : t = .complete → ∃ evt read r, IsHead (peers heads) s.url evt read ∧
      Reaches (Reading.step s.contentFsm) (Http.enter evt.parsed read.rest) r ∧
      .contentReadEvent ∈ r.log ∧ passedOn s.log = delivered r.log) :
    Supplied peers heads net s' := by
  have hentered := h.entered
  cases h with
  | readHeaders =>
    unfold Supplied
    rw [hentered.state, hstate]
    dsimp only [Target.state]
    have hnone : s.enterReadHeaders.pending = [] := hpending
    refine ⟨fun _ => hheaders rfl, fun evt he => ?_⟩
    rw [hnone] at he
    cases he
  | badRedirect evt => exact absurd rfl (hparse evt)
  | redirectHeaders evt => exact absurd rfl (hparse evt)
  | responseHeaders evt => exact absurd rfl (hparse evt)
  | readContent evt =>
    obtain ⟨hpassed, evt', read, hhead, rfl, rfl⟩ := hcontent evt rfl
    exact supplied_readContent hhead hnumbered hstate hpending hpassed
  | complete =>
    obtain ⟨evt, read, r, hhead, hreaches, hdone, hpassed⟩ := hcomplete rfl
    unfold Supplied
    rw [hentered.state, hstate]
    dsimp only [Target.state]
    refine ⟨evt, read, r, hhead, hreaches, hdone, ?_⟩
    rw [enterComplete_log, passedOn_append, ← hpassed]
    exact List.append_nil _
  | crash => cases hcrashed
  | _ =>
    refine supplied_of_state ?_ ?_ ?_ ?_ <;> rw [hentered.state, hstate] <;> simp [Target.state]

/-- The stream that is read from behind a transition: with a response that is waited for the next
one begins. -/
def Meets (peers : ℕ → PacketStream UInt8 IoError) (s s' : Machine) (heads heads' : ℕ)
    (net net' : PacketStream UInt8 IoError) : Prop :=
  if s.state ≠ .readHeaders ∧ s'.state = .readHeaders then
    heads' = heads + 1 ∧ net' = peers (heads + 1)
  else heads' = heads ∧ net' = net

theorem Meets.stays {heads' : ℕ} {net' : PacketStream UInt8 IoError}
    (h : Meets peers s s' heads heads' net net') (hstate : s'.state = s.state) :
    heads' = heads ∧ net' = net := by
  unfold Meets at h
  rwa [if_neg fun hboth => hboth.1 (hstate.symm.trans hboth.2)] at h

theorem Meets.enters {heads' : ℕ} {net' : PacketStream UInt8 IoError}
    (h : Meets peers s s' heads heads' net net') (hstate : s'.state ≠ .readHeaders) :
    heads' = heads ∧ net' = net := by
  unfold Meets at h
  rwa [if_neg fun hboth => hstate hboth.2] at h

/-- What leads to the states that the peers matter for. -/
def LedBy (s : Machine) (e : Event) : Target → Prop
  | .readHeaders => s.state ≠ .readHeaders
  | .parseHeaders evt => s.state = .readHeaders ∧ e = .headersRead evt
  | .readContent evt => s.state = .parseHeaders ∧ e = .headersParsed evt
  | .complete => s.state = .readContent ∧ e = .contentRead
  | _ => True

theorem Row.ledBy {e : Event} (h : Row s e t) : LedBy s e t := by
  cases h with
  | connected | tunnelled => split_ifs <;> trivial
  | headersWritten hstate => split_ifs <;> simp [LedBy, hstate]
  | _ => simp_all [LedBy]

/-- A row, with nothing left to do behind its event. -/
theorem Supplied.row {e : Event} {heads' : ℕ} {net' : PacketStream UInt8 IoError}
    {queue : List Event} {tasks : List Task} (h : Supplied peers heads net s) (hrow : Row s e t)
    (htallied : Tallied s) (hnumbered : Numbered ((s.setQueue queue).setTasks tasks))
    (hpending : s.pending = [.event e]) (hrest : ((s.setQueue queue).setTasks tasks).pending = [])
    (hmeets : Meets peers s ((((s.setQueue queue).setTasks tasks).leave t.state).enter t answer)
      heads heads' net net')
    (hcrashed : ((((s.setQueue queue).setTasks tasks).leave t.state).enter t answer).crashed =
      false) :
    Supplied peers heads' net'
      ((((s.setQueue queue).setTasks tasks).leave t.state).enter t answer) := by
  have hentry := enter_cases (((s.setQueue queue).setTasks tasks).leave t.state) answer t
  have hstate := hentry.entered.state
  have hevent : .event e ∈ s.pending := hpending ▸ List.mem_singleton_self _
  have hleads := hrow.ledBy
  have hpassed : passedOn (((s.setQueue queue).setTasks tasks).leave t.state).log =
      passedOn s.log := (passedOn_append s.log _).trans (List.append_nil _)
  by_cases hparse : ∃ evt, t = .parseHeaders evt
  · obtain ⟨evt, rfl⟩ := hparse
    obtain ⟨rfl, rfl⟩ := hmeets.enters (by rw [hstate]; nofun)
    obtain ⟨hin, rfl⟩ := hleads
    unfold Supplied at h
    rw [hin] at h
    obtain ⟨read, hhead, rfl⟩ := h.2 evt hevent
    exact supplied_parseHeaders hhead rfl hrest
  refine hentry.supplied rfl hrest hcrashed (hnumbered.leave _) (fun ht => ?_)
    (fun evt ht => hparse ⟨evt, ht⟩) (fun e' ht => ?_) fun ht => ?_
  · subst ht
    unfold Meets at hmeets
    rw [if_pos ⟨hleads, hstate⟩] at hmeets
    rw [hmeets.1, hmeets.2]
  · subst ht
    obtain ⟨rfl, rfl⟩ := hmeets.enters (by rw [hstate]; nofun)
    obtain ⟨hin, rfl⟩ := hleads
    unfold Supplied at h
    rw [hin] at h
    exact ⟨hpassed.trans (passedOn_of_unread htallied (by rw [hin]; rfl)), h e' hevent⟩
  · subst ht
    obtain ⟨rfl, rfl⟩ := hmeets.enters (by rw [hstate]; nofun)
    obtain ⟨hin, rfl⟩ := hleads
    unfold Supplied at h
    rw [hin] at h
    obtain ⟨evt, read, r, hhead, hreaches, hreads⟩ := h
    refine ⟨evt, read, r, hhead, hreaches, hreads.done hevent, hpassed.trans ?_⟩
    have hbytes := hreads.bytes
    rw [hpending] at hbytes
    exact (List.append_nil _).symm.trans hbytes

/-- The next event of what waits. -/
theorem Supplied.next {e : Event} {heads' : ℕ} {net' : PacketStream UInt8 IoError}
    (queue : List Event) (tasks : List Task) (h : Supplied peers heads net s) (hserved : Served s)
    (hcrashed : s.crashed = false) (hnumbered : Numbered ((s.setQueue queue).setTasks tasks))
    (htasks : tasks ⊆ s.tasks)
    (hpending : s.pending = .event e :: ((s.setQueue queue).setTasks tasks).pending)
    (hmeets : Meets peers s (((s.setQueue queue).setTasks tasks).process e answer)
      heads heads' net net')
    (hcrashed' : (((s.setQueue queue).setTasks tasks).process e answer).crashed = false) :
    Supplied peers heads' net' (((s.setQueue queue).setTasks tasks).process e answer) := by
  obtain ⟨hgoing, -⟩ := hserved.going hcrashed
  have hpaced := hserved.regular.paced
  have hrows : ((s.setQueue queue).setTasks tasks).row e = s.row e := row_congr rfl rfl rfl e
  have hmem : .event e ∈ s.pending := hpending ▸ List.mem_cons_self
  have hstarted : s.state ≠ .unstarted := fun hstate => by
    rw [(hpaced.unstarted hstate).1] at hmem
    cases hmem
  cases hterminate : s.state.isTerminate with
  | true =>
    have hsame : ((s.setQueue queue).setTasks tasks).process e answer =
        (s.setQueue queue).setTasks tasks := by rw [process, if_pos (by exact hterminate)]
    rw [hsame] at hmeets ⊢
    obtain ⟨rfl, rfl⟩ := hmeets.stays rfl
    refine h.keep ⟨rfl, rfl, rfl, rfl⟩ (fun hstate => ?_) (fun e' he' _ => ?_) ?_ (fun _ => rfl) rfl
      (fun _ hop _ _ _ => .inl hop)
      (fun _ hd _ _ _ => .inl (mem_delays_self hd)) fun _ _ hstart => htasks hstart
    · simp [hstate, StateName.isTerminate] at hterminate
    · rw [hpending]
      exact List.mem_cons_of_mem _ he'
    · rw [hpending]
      rfl
  | false =>
    have hlive : ¬((s.setQueue queue).setTasks tasks).state.isTerminate = true := by
      simp [hterminate]
    have hcomes := hpaced.comes hcrashed hterminate hpending
    generalize hrest : ((s.setQueue queue).setTasks tasks).pending = rest at hcomes hpending
    cases hrow : s.row e with
    | none =>
      have herror : s.state = .error := by
        cases hcomes with
        | last _ hlasts hopen =>
          have hsome := hgoing.fits hopen e hmem hlasts.isError
          simp [hrow] at hsome
        | restart hstate => exact hstate
        | error evt =>
          have hsome := row_isSome_error evt hstarted hterminate
          simp [hrow] at hsome
        | failed _ _ hstate => exact hstate
      rw [process, if_neg hlive, hrows, hrow]
      apply supplied_of_state <;> simp [herror]
    | some t =>
      have hprocess : ((s.setQueue queue).setTasks tasks).process e answer =
          (((s.setQueue queue).setTasks tasks).leave t.state).enter t answer := by
        rw [process, if_neg hlive, hrows, hrow]
      rw [hprocess] at hmeets hcrashed' ⊢
      have hstate := (enter_cases (((s.setQueue queue).setTasks tasks).leave t.state) answer
        t).entered.state
      have hends (h₁ : t.state ≠ .readHeaders) (h₂ : t.state ≠ .parseHeaders)
          (h₃ : t.state ≠ .readContent) (h₄ : t.state ≠ .complete) :
          Supplied peers heads' net'
            ((((s.setQueue queue).setTasks tasks).leave t.state).enter t answer) :=
        supplied_of_state (hstate ▸ h₁) (hstate ▸ h₂) (hstate ▸ h₃) (hstate ▸ h₄)
      cases hcomes with
      | last | restart =>
        exact h.row (row_cases hrow) hserved.regular.counted.toTallied hnumbered hpending hrest
          hmeets hcrashed'
      | error evt _ hopen =>
        cases row_cases hrow <;>
          exact hends (by rintro ⟨⟩) (by rintro ⟨⟩) (by rintro ⟨⟩) (by rintro ⟨⟩)
      | failed _ _ herror =>
        cases row_cases hrow with
        | restart | finalError =>
          exact hends (by rintro ⟨⟩) (by rintro ⟨⟩) (by rintro ⟨⟩) (by rintro ⟨⟩)
        | error _ _ hne => exact absurd herror hne
        | _ => simp_all

/-! ### Reads -/

/-- The head has come. -/
theorem Supplied.headerRead {u : Machine} {read : Read UInt8 IoError}
    (h : Supplied peers heads net s) (hstate : s.state = .readHeaders) (hidle : s.pending = [])
    (hread : s.socketRead net .headerRead = some (some read)) (hkept : Kept s u)
    (hqueue : u.queue = []) (htasks : u.tasks = []) :
    Supplied peers heads read.rest
      (u.next [.event (u.headersReadResult read.received read.error)]) := by
  unfold Supplied at h ⊢
  rw [next_state, hkept.state, next_url, hkept.url]
  rw [hstate] at h ⊢
  rw [h.1 hidle] at hread
  refine ⟨fun hnone => ?_, fun evt he => ⟨read, ⟨Option.some.inj hread, ?_⟩, rfl⟩⟩
  · rw [pending_next hqueue htasks] at hnone
    cases hnone
  · rw [pending_next hqueue htasks, List.mem_singleton, Task.event.injEq] at he
    rw [headersReadResult, hkept.url] at he
    split at he <;> cases he
    assumption

/-- The handler of a read of the content, and the step of the reader. -/
theorem Supplied.contentRead {u : Machine} {owner : ℕ} {a : AsyncOp} {read : Read UInt8 IoError}
    (h : Supplied peers heads net s) (hgoing : Going s) (hstate : s.state = .readContent)
    (hidle : s.pending = []) (hop : ∃ op ∈ s.ops, s.live = some op.owner ∧ op.kind = .content a)
    (hread : s.socketRead net (.content a) = some (some read)) (hkept : Kept s u)
    (hqueue : u.queue = []) (htasks : u.tasks = []) (hdata : u.readContentData = s.readContentData)
    (hfree : Free u) :
    Supplied peers heads read.rest (u.handleContent owner a read.received read.error) := by
  obtain ⟨hstate', hurl, hfsm, hlive⟩ := hkept.setting
  unfold Supplied at h ⊢
  rw [show (u.handleContent owner a read.received read.error).state = s.state from hstate',
    show (u.handleContent owner a read.received read.error).url = s.url from hurl,
    show (u.handleContent owner a read.received read.error).contentFsm = s.contentFsm from hfsm]
  rw [hstate] at h ⊢
  obtain ⟨evt, read', r, hhead, hreaches, hreads⟩ := h
  obtain ⟨op, hmem, howner, hkind⟩ := hop
  have hrop := hreads.ops op hmem howner a hkind
  obtain ⟨hnet, hsame, -⟩ := hreads.goes a hrop
  have hcancelled : r.data.cancelled = false := by
    obtain ⟨enabled, heq⟩ := hsame
    rw [heq]
    exact hgoing.content hstate
  obtain ⟨outcome, hstep, houtcome, hgoes⟩ := contentOutcome_step hrop hnet hsame hcancelled hread
  have hsame' : u.contentOutcome a read.received read.error =
      s.contentOutcome a read.received read.error := by
    simp only [contentOutcome, hfsm, hdata]
  have hpending : (u.handleContent owner a read.received read.error).pending =
      outcomeTasks owner (s.contentOutcome a read.received read.error) := by
    rw [← hsame']
    exact pending_next (by exact hqueue) (by exact htasks) _
  have hlog : (r.proceed outcome read.rest).log =
      r.log ++ (s.contentOutcome a read.received read.error).outputs := by
    rw [Reading.proceed, houtcome.outputs]
  refine ⟨evt, read', _, hhead, hreaches.trans (.of_step hstep), ?_, fun hdone => ?_,
    fun a' ha' => ⟨rfl, ?_, (hgoes a' ha').2⟩, fun op' hop' howner' => ?_, fun d' hd' howner' => ?_,
    fun owner' a' hstart _ => ?_⟩
  · rw [hpending, outcomeTasks_bytes, hlog, delivered_append, ← hreads.bytes, hidle]
    rw [show (u.handleContent owner a read.received read.error).log = s.log from hkept.log]
    simp
  · rw [hpending] at hdone
    rw [hlog]
    exact List.mem_append_right _ (contentRead_mem hdone)
  · obtain ⟨enabled, heq⟩ := houtcome.data
    refine ⟨enabled, ?_⟩
    have hkeeps := (hgoes a' ha').1
    rw [heq] at hkeeps
    have hset : (u.handleContent owner a read.received read.error).readContentData =
        { (s.contentOutcome a read.received read.error).data with cancelled := false } := by
      rw [← hsame']
      rfl
    rw [hset, ← hkeeps]
    exact heq
  · exact absurd howner' (hfree.1 op' hop')
  · exact absurd howner' (hfree.2 d' hd')
  · have htasks' : (u.handleContent owner a read.received read.error).tasks =
        outcomeTasks owner (s.contentOutcome a read.received read.error) := by
      rw [← hsame']
      simp [handleContent, htasks]
    rw [htasks'] at hstart
    exact houtcome.next.trans (start_mem hstart)

/-- The wait on the delay timer is over, for the machine and for the reader. -/
theorem Supplied.contentDelay {u : Machine} {owner : ℕ} {a : AsyncOp}
    (h : Supplied peers heads net s) (hgoing : Going s) (hstate : s.state = .readContent)
    (hidle : s.pending = [])
    (hd : ∃ d ∈ s.delays, s.live = some d.owner ∧ d.kind = .content a) (ha : a.isDelay = true)
    (hkept : Kept s u) (hidle' : u.pending = []) (hdata : u.readContentData = s.readContentData)
    (hfree : Free u) (timeoutSeconds : ℕ) :
    Supplied peers heads net (u.async owner (nextReason a.afterDelay) timeoutSeconds
      (.content a.afterDelay)) := by
  obtain ⟨hstate', hurl, hfsm, hlive⟩ := hkept.setting
  unfold Supplied at h ⊢
  rw [async_state, hstate', async_url, hurl]
  rw [hstate] at h ⊢
  obtain ⟨evt, read, r, hhead, hreaches, hreads⟩ := h
  obtain ⟨d, hmem, howner, hkind⟩ := hd
  have hrop := hreads.delays d hmem howner a hkind
  obtain ⟨hnet, ⟨enabled, heq⟩, henabled⟩ := hreads.goes a hrop
  have hcancelled : r.data.cancelled = false := by
    rw [heq]
    exact hgoing.content hstate
  obtain ⟨outcome, hstep, hnext, houtputs, enabled', hsame⟩ :=
    @delay_step s.contentFsm _ _ hrop ha hcancelled (henabled ha)
  have hfsm' : (u.async owner (nextReason a.afterDelay) timeoutSeconds
      (.content a.afterDelay)).contentFsm = s.contentFsm := hfsm
  have hread (b : AsyncOp) (hb : (r.proceed outcome r.net).op = some b) : b = a.afterDelay :=
    Option.some.inj (hb.symm.trans hnext)
  rw [hfsm']
  refine ⟨evt, read, _, hhead, hreaches.trans (.of_step hstep), ?_, fun hdone => ?_,
    fun b hb => ⟨hnet, ⟨enabled', ?_⟩, fun hdelay => ?_⟩, fun op hop howner' b hb => ?_,
    fun d hd howner' => absurd howner' (hfree.2 d hd), fun owner' b hstart => ?_⟩
  · have hnone : (u.async owner (nextReason a.afterDelay) timeoutSeconds
        (.content a.afterDelay)).pending = [] := hidle'
    have hbytes := hreads.bytes
    rw [hidle] at hbytes
    rw [hnone, async_log, hkept.log, hbytes, Reading.proceed, houtputs, List.append_nil]
  · have hnone : (u.async owner (nextReason a.afterDelay) timeoutSeconds
        (.content a.afterDelay)).pending = [] := hidle'
    rw [hnone] at hdone
    cases hdone
  · rw [async_readContentData, hdata, Reading.proceed, hsame, heq]
  · rw [hread b hb, afterDelay_isDelay] at hdelay
    cases hdelay
  · rcases List.mem_append.mp hop with hold | hnew
    · exact absurd howner' (hfree.1 op hold)
    · rw [List.mem_singleton.mp hnew] at hb
      cases hb
      exact hnext
  · have hnone : u.tasks = [] := (List.append_eq_nil_iff.mp hidle').2
    rw [async_tasks, hnone] at hstart
    cases hstart

end Supplied

end Machine

/-! ### Steps -/

namespace Link

open Machine

variable {peers : ℕ → PacketStream UInt8 IoError} {l l' : Link} {a : Act}

theorem step_cases (h : l.step peers a = some l') : l.machine.step a = some l'.machine ∧
    ∃ net, l.rest a = some net ∧
      Meets peers l.machine l'.machine l.heads l'.heads net l'.net := by
  unfold Link.step at h
  obtain ⟨s, hs, h⟩ := Option.bind_eq_some_iff.mp h
  obtain ⟨net, hnet, h⟩ := Option.bind_eq_some_iff.mp h
  split_ifs at h with henters <;> cases h
  · exact ⟨hs, net, hnet, by rw [Meets, if_pos henters]; exact ⟨rfl, rfl⟩⟩
  · exact ⟨hs, net, hnet, by rw [Meets, if_neg henters]; exact ⟨rfl, rfl⟩⟩

theorem socketRead_content (s : Machine) (net : PacketStream UInt8 IoError) {a : AsyncOp}
    (ha : a.isDelay = false) : (s.socketRead net (.content a)).isSome = true := by
  cases a <;> first | rfl | cases ha

/-- A read that is waited for is of what the peer has sent. -/
theorem rest_read {i : ℕ} {op : Op} {received : List UInt8} {err : Option IoError}
    {net : PacketStream UInt8 IoError} (hop : l.machine.ops[i]? = some op)
    (howner : l.machine.live = some op.owner)
    (hreads : (l.machine.socketRead l.net op.kind).isSome = true)
    (h : l.rest (.complete i received err) = some net) :
    ∃ read, l.machine.socketRead l.net op.kind = some (some read) ∧ received = read.received ∧
      err = read.error ∧ read.rest = net := by
  obtain ⟨read, hread⟩ := Option.isSome_iff_exists.mp hreads
  simp only [rest, hop, if_pos howner, hread] at h ⊢
  obtain ⟨read', rfl, hsame⟩ := Option.bind_eq_some_iff.mp h
  split_ifs at hsame with hboth
  exact ⟨read', rfl, hboth.1, hboth.2, Option.some.inj hsame⟩

theorem rest_ignored {i : ℕ} {op : Op} {received : List UInt8} {err : Option IoError}
    (hop : l.machine.ops[i]? = some op) (howner : l.machine.live ≠ some op.owner) :
    l.rest (.complete i received err) = some l.net := by
  simp only [rest, hop, if_neg howner]

/-- An operation that has completed. -/
theorem supplied_complete {i : ℕ} {op : Op} {received : List UInt8} {err : Option IoError}
    {net : PacketStream UInt8 IoError} (h : Supplied peers l.heads l.net l.machine)
    (hserved : Served l.machine) (hcrashed : l.machine.crashed = false)
    (hqueue : l.machine.queue = []) (htasks : l.machine.tasks = [])
    (hop : l.machine.ops[i]? = some op) (hrest : l.rest (.complete i received err) = some net) :
    Supplied peers l.heads net
      ((l.machine.setOps (l.machine.ops.eraseIdx i)).completed op received err) := by
  obtain ⟨hgoing, hwatched⟩ := hserved.going hcrashed
  have hidle := pending_of_idle hqueue htasks
  have hset := l.machine.setOps_kept (l.machine.ops.eraseIdx i)
  have hold := (List.eraseIdx_sublist l.machine.ops i).subset
  have hmem := List.mem_of_getElem? hop
  unfold Machine.completed
  split_ifs with hnot hfirst
  · cases (rest_ignored hop hnot).symm.trans hrest
    split
    · exact h.idle (hset.trans (take_kept _ _)).setting hidle hidle rfl rfl hold (List.Subset.refl _)
    · exact h.idle hset.setting hidle hidle rfl rfl hold (List.Subset.refl _)
  · have hguarded := hwatched.guarded (idle_iff.mpr ⟨hqueue, htasks⟩) hmem (not_not.mp hnot)
    exact absurd hfirst hguarded.first
  · have howner : l.machine.live = some op.owner := not_not.mp hnot
    have hstate := hserved.regular.home.ops op hmem howner
    have hload := load_dropOp hop op.owner
    have hone := hserved.regular.lone.one op.owner
    rw [if_pos rfl] at hload
    have hzero : (l.machine.setOps (l.machine.ops.eraseIdx i)).load op.owner = 0 := by omega
    obtain ⟨hfree, -⟩ := free_of_load hzero howner
    have hkept := (hset.trans (take_kept _ op.race)).trans (clearAsyncTimeout_kept _)
    have hsame := (hkept.trans (handle_cases _ op.owner op.kind received err).kept).state
    cases hkind : op.kind with
    | headerRead =>
      obtain ⟨read, hread, rfl, rfl, rfl⟩ := rest_read hop howner (by rw [hkind]; rfl) hrest
      rw [hkind] at hstate hread
      exact h.headerRead hstate hidle hread hkept hqueue htasks
    | content a =>
      have ha := hgoing.reads op hmem howner a hkind
      obtain ⟨read, hread, rfl, rfl, rfl⟩ := rest_read hop howner
        (hkind ▸ socketRead_content l.machine l.net ha) hrest
      rw [hkind] at hstate hread
      exact h.contentRead hgoing hstate hidle ⟨op, hmem, howner, hkind⟩ hread hkept hqueue htasks rfl
        hfree
    | _ =>
      rw [hstate, hkind] at hsame
      apply supplied_of_state <;> rw [hsame] <;> nofun

theorem supplied_delay {i : ℕ} {d : Delay} {err : Bool}
    (h : Supplied peers l.heads l.net l.machine) (hserved : Served l.machine)
    (hcrashed : l.machine.crashed = false) (hqueue : l.machine.queue = [])
    (htasks : l.machine.tasks = []) (hd : l.machine.delays[i]? = some d)
    (hcompletes : (d.cancelled || !err) = true) :
    Supplied peers l.heads l.net
      ((l.machine.setDelays (l.machine.delays.eraseIdx i)).delayed d err) := by
  obtain ⟨hgoing, -⟩ := hserved.going hcrashed
  have hidle := pending_of_idle hqueue htasks
  have hset := l.machine.setDelays_kept (l.machine.delays.eraseIdx i)
  have hold := (List.eraseIdx_sublist l.machine.delays i).subset
  have hmem := List.mem_of_getElem? hd
  by_cases howner : l.machine.live = some d.owner
  · obtain ⟨hcancelled, henabled, hdelay⟩ := hgoing.delays d hmem howner
    have herr : err = false := by simpa [hcancelled] using hcompletes
    have hload := load_dropDelay hd d.owner
    have hone := hserved.regular.lone.one d.owner
    rw [if_pos rfl] at hload
    have hzero : (l.machine.setDelays (l.machine.delays.eraseIdx i)).load d.owner = 0 := by omega
    obtain ⟨hfree, -⟩ := free_of_load hzero howner
    have hstate := hserved.regular.home.delays d hmem howner
    have hacts : ¬(err = true ∨
        (l.machine.setDelays (l.machine.delays.eraseIdx i)).live ≠ some d.owner) := by
      simp [herr, howner]
    rw [Machine.delayed, if_neg hacts]
    cases hkind : d.kind with
    | post postData =>
      rw [hkind] at hstate
      have hsame : ((l.machine.setDelays (l.machine.delays.eraseIdx i)).postDelayed d.owner
          postData).state = .sendPost := by
        unfold postDelayed
        split_ifs <;> exact hstate
      apply supplied_of_state <;> rw [hsame] <;> rintro ⟨⟩
    | content a =>
      rw [hkind] at hstate
      obtain ⟨enabled, heq⟩ := contentDelayed_eq
        (l.machine.setDelays (l.machine.delays.eraseIdx i)) d.owner (hdelay a hkind)
        (hgoing.content hstate) henabled
      dsimp only
      rw [heq]
      exact h.contentDelay hgoing hstate hidle ⟨d, hmem, howner, hkind⟩ (hdelay a hkind)
        (hset.trans (setDelayTimerEnabled_kept _ enabled)) hidle rfl hfree _
  · have hacts : err = true ∨
        (l.machine.setDelays (l.machine.delays.eraseIdx i)).live ≠ some d.owner := .inr howner
    rw [Machine.delayed, if_pos hacts]
    exact h.idle hset.setting hidle hidle rfl rfl (List.Subset.refl _) hold

/-- Content is passed on. -/
theorem supplied_content {startPos : ℕ} {buffer : Buffer} {tasks : List Task}
    (h : Supplied peers l.heads l.net l.machine) (hregular : Regular l.machine)
    (hqueue : l.machine.queue = []) (htasks : l.machine.tasks = .content startPos buffer :: tasks)
    (answer : Answer) : Supplied peers l.heads l.net
      ((l.machine.setTasks tasks).runTask (.content startPos buffer) answer) := by
  have hpending : l.machine.pending = .content startPos buffer :: tasks := by
    simp [pending, hqueue, htasks]
  have hpending' : ((l.machine.setTasks tasks).runTask (.content startPos buffer) answer).pending =
      ((l.machine.setTasks tasks).callbackCalls answer).map Task.event ++ tasks := by
    simp [pending, runTask, hqueue]
  have hcalls : (((l.machine.setTasks tasks).callbackCalls answer).map Task.event).flatMap
      Task.bytes = [] := by
    rw [List.flatMap_map]
    exact List.flatMap_eq_nil_iff.mpr fun _ _ => rfl
  refine h.keep ⟨rfl, rfl, rfl, rfl⟩ (fun hstate _ => ?_) (fun e he hplain => ?_) ?_
    (fun hstate => ?_) rfl (fun op hop _ _ _ => .inl hop)
    (fun d hd _ _ _ => .inl (mem_delays_self hd))
    fun owner a hstart => ?_
  · have htodo := hregular.paced.todo (by rw [hstate]; rfl)
    rw [hpending] at htodo
    cases htodo with
    | owned _ owner howner => cases howner
    | content _ _ _ hreading =>
      rw [hstate] at hreading
      cases hreading
  · rw [hpending', List.mem_append, List.mem_map] at he
    rw [hpending]
    rcases he with ⟨e', hcall, heq⟩ | hrest
    · cases heq
      have herror := callbackCalls_isError (l.machine.setTasks tasks) answer e hcall
      simp [hplain] at herror
    · exact List.mem_cons_of_mem _ hrest
  · rw [hpending', hpending, List.flatMap_append, hcalls, List.nil_append, List.flatMap_cons]
    show passedOn (l.machine.log ++ [_]) ++ _ = _
    rw [passedOn_append, List.append_assoc]
    simp [passedOn, Entry.bytes, Task.bytes]
  · have hended := hregular.ending.ended (by rw [hstate]; rfl)
    have hnone := hended (.content startPos buffer) (htasks ▸ List.mem_cons_self)
    cases hnone
  · have hmem : .start owner a ∈ ((l.machine.setTasks tasks).callbackCalls answer).map Task.event ++
        tasks := hstart
    rcases List.mem_append.mp hmem with hcall | hrest
    · obtain ⟨e, -, heq⟩ := List.mem_map.mp hcall
      cases heq
    · exact htasks ▸ List.mem_cons_of_mem _ hrest

/-- A task of the data of the state. -/
theorem supplied_owned {t : Task} {tasks : List Task} {owner : ℕ}
    (h : Supplied peers l.heads l.net l.machine) (hregular : Regular l.machine)
    (hqueue : l.machine.queue = []) (htasks : l.machine.tasks = t :: tasks)
    (howner : t.owner = some owner) (answer : Answer) :
    Supplied peers l.heads l.net ((l.machine.setTasks tasks).runTask t answer) := by
  have hset := l.machine.setTasks_kept tasks
  cases hopen : l.machine.state.isOpen with
  | false =>
    cases t with
    | start owner' a =>
      have hkept := hset.trans (startContent_kept _ owner' a)
      exact h.closed hopen hkept.setting (congrArg passedOn hkept.log)
    | delayPost owner' postData => exact h.closed hopen ⟨rfl, rfl, rfl, rfl⟩ rfl
    | pipe owner' => exact h.closed hopen ⟨rfl, rfl, rfl, rfl⟩ rfl
    | _ => cases howner
  | true =>
    obtain ⟨hlive, rfl⟩ := hregular.paced.owned hopen hqueue htasks howner
    have hstate := hregular.home.tasks t (htasks ▸ List.mem_cons_self) owner howner hlive
    have hidle := pending_of_idle (s := l.machine.setTasks []) hqueue rfl
    cases t with
    | start owner' a =>
      cases howner
      have hkept := hset.trans (startContent_kept _ owner a)
      have hpending : ((l.machine.setTasks []).startContent owner a).pending = [] := by
        unfold startContent
        split_ifs <;> exact hidle
      have hpending' : l.machine.pending = [.start owner a] := by simp [pending, hqueue, htasks]
      have hmem : .start owner a ∈ l.machine.tasks := htasks ▸ List.mem_cons_self
      show Supplied _ _ _ ((l.machine.setTasks []).startContent owner a)
      refine h.keep hkept.setting (fun hread => ?_) (fun e he => ?_) ?_
        (fun _ => congrArg passedOn hkept.log) ?_ (fun op hop _ b hb => ?_) (fun d hd _ b hb => ?_)
        fun owner' b hstart => ?_
      · rw [hread] at hstate
        cases hstate
      · rw [hpending] at he
        cases he
      · rw [hpending, hpending', hkept.log]
        rfl
      · unfold startContent
        split_ifs <;> rfl
      · unfold startContent at hop
        split_ifs at hop
        · exact .inl hop
        · rcases List.mem_append.mp hop with hold | hnew
          · exact .inl hold
          · rw [List.mem_singleton.mp hnew] at hb ⊢
            cases hb
            exact .inr hmem
      · unfold startContent at hd
        split_ifs at hd
        · rcases List.mem_append.mp hd with hold | hnew
          · exact .inl (mem_delays_cancelled hold)
          · rw [List.mem_singleton.mp hnew] at hb ⊢
            cases hb
            exact .inr hmem
        · exact .inl (mem_delays_self hd)
      · have hnone : ((l.machine.setTasks []).startContent owner a).tasks = [] := by
          unfold startContent
          split_ifs <;> rfl
        rw [hnone] at hstart
        cases hstart
    | delayPost owner' postData =>
      apply supplied_of_state <;> exact fun heq => by cases hstate.symm.trans heq
    | pipe owner' =>
      apply supplied_of_state <;> exact fun heq => by cases hstate.symm.trans heq
    | _ => cases howner

theorem rest_of_other (h : ∀ i received err, a ≠ .complete i received err) :
    l.rest a = some l.net := by
  cases a with
  | complete i received err => exact absurd rfl (h i received err)
  | _ => rfl

/-- An event from outside, which comes with nothing left to do. -/
theorem supplied_process {e : Event} {heads' : ℕ} {net net' : PacketStream UInt8 IoError}
    {s : Machine} (h : Supplied peers l.heads net s) (hidle : s.pending = [])
    (hevent : e = .start ∨ ∃ evt, e = .error evt)
    (hmeets : Meets peers s (s.process e {}) l.heads heads' net net') :
    Supplied peers heads' net' (s.process e {}) := by
  revert hmeets
  refine process_cases (P := fun s' => Meets peers s s' l.heads heads' net net' →
    Supplied peers heads' net' s') s e {} (fun _ hmeets => ?_) (fun _ _ hmeets => ?_)
    fun t s' _ hrow hentry _ => ?_
  · obtain ⟨rfl, rfl⟩ := hmeets.stays rfl
    exact h
  · obtain ⟨rfl, rfl⟩ := hmeets.stays rfl
    exact h.idle ⟨rfl, rfl, rfl, rfl⟩ hidle hidle ((passedOn_append _ _).trans (List.append_nil _))
      rfl (List.Subset.refl _) (List.Subset.refl _)
  · have hstate := hentry.entered.state
    rcases hevent with rfl | ⟨evt, rfl⟩ <;> cases hrow <;> apply supplied_of_state <;>
      rw [hstate] <;> nofun

theorem supplied_step (h : Supplied peers l.heads l.net l.machine) (hserved : Served l.machine)
    (hcrashed' : l'.machine.crashed = false) (hstep : l.step peers a = some l') :
    Supplied peers l'.heads l'.net l'.machine := by
  obtain ⟨hmachine, net, hrest, hmeets⟩ := step_cases hstep
  have hcrashed := crashed_of_step hmachine
  have hnumbered := hserved.regular.numbered
  have hother (hact : ∀ i received err, a ≠ .complete i received err) : net = l.net :=
    (Option.some.inj ((rest_of_other hact).symm.trans hrest)).symm
  obtain ⟨s', net', heads'⟩ := l'
  dsimp only at hmachine hmeets hcrashed' ⊢
  have hstays (hstate : s'.state = l.machine.state) (hsupplied : Supplied peers l.heads net s') :
      Supplied peers heads' net' s' := by
    obtain ⟨rfl, rfl⟩ := hmeets.stays hstate
    exact hsupplied
  cases Machine.step_cases hmachine with
  | clock elapsed =>
    cases hother (by simp)
    exact hstays rfl (h.keep ⟨rfl, rfl, rfl, rfl⟩ (fun _ => id) (fun _ he _ => he) rfl (fun _ => rfl)
      rfl (fun _ hop _ _ _ => .inl hop) (fun _ hd _ _ _ => .inl (mem_delays_self hd))
      fun _ _ => id)
  | queued e queue answer hqueue =>
    cases hother (by simp)
    exact h.next queue l.machine.tasks hserved hcrashed
      (hnumbered.congr rfl rfl rfl rfl rfl rfl rfl) (List.Subset.refl _) (pending_of_queue hqueue)
      hmeets hcrashed'
  | task t tasks answer hqueue htasks =>
    cases hother (by simp)
    cases howner : t.owner with
    | some owner =>
      have hstate : ((l.machine.setTasks tasks).runTask t answer).state = l.machine.state := by
        cases t with
        | start owner' a => exact (startContent_kept _ owner' a).state
        | delayPost | pipe => rfl
        | _ => cases howner
      exact hstays hstate (supplied_owned h hserved.regular hqueue htasks howner answer)
    | none =>
      cases t with
      | event e =>
        exact h.next l.machine.queue tasks hserved hcrashed
          (hnumbered.dropTask htasks) (htasks ▸ List.subset_cons_self _ _)
          (by simp [pending, hqueue, htasks]) hmeets hcrashed'
      | content startPos buffer =>
        exact hstays rfl (supplied_content h hserved.regular hqueue htasks answer)
      | _ => cases howner
  | start hqueue htasks =>
    cases hother (by simp)
    exact supplied_process h (pending_of_idle hqueue htasks) (.inl rfl) hmeets
  | call call hqueue htasks =>
    cases hother (by simp)
    exact supplied_process h (pending_of_idle hqueue htasks) (.inr (by cases call <;> exact ⟨_, rfl⟩))
      hmeets
  | complete i op received err hqueue htasks hop =>
    exact hstays (completed_kept _ op received err).state
      (supplied_complete h hserved hcrashed hqueue htasks hop hrest)
  | timer i t err hqueue htasks ht hcompletes =>
    cases hother (by simp)
    have hidle := pending_of_idle hqueue htasks
    have hset := l.machine.setTimers_kept (l.machine.timers.eraseIdx i)
    refine hstays (timedOut_kept _ t err).state ?_
    refine timedOut_cases (P := Supplied peers l.heads l.net) _ t err
      (h.idle hset.setting hidle hidle rfl rfl (List.Subset.refl _) (List.Subset.refl _))
      (h.idle (hset.trans (take_kept _ _)).setting hidle hidle rfl rfl (List.Subset.refl _)
        (List.Subset.refl _)) fun _ _ => ?_
    have hpending := pending_next (s := (l.machine.setTimers (l.machine.timers.eraseIdx i)).take
      t.race) hqueue htasks
        [.event (.error (l.machine.setTimers (l.machine.timers.eraseIdx i)).ioTimeoutError)]
    refine h.keep ((hset.trans (take_kept _ _)).trans (next_kept _ _)).setting (fun _ _ => hidle)
      (fun e he hplain => ?_) ?_ (fun _ => rfl) rfl (fun _ hop _ _ _ => .inl hop)
      (fun _ hd _ _ _ => .inl (mem_delays_self hd)) fun owner a hstart => ?_
    · rw [hpending, List.mem_singleton] at he
      cases he
      cases hplain
    · rw [hpending, hidle]
      rfl
    · have hone := mem_pending_of_tasks hstart
      rw [hpending, List.mem_singleton] at hone
      cases hone
  | delay i d err hqueue htasks hd =>
    cases hother (by simp)
    obtain ⟨d', hd', hcompletes, -⟩ := step_delay hmachine
    cases hd.symm.trans hd'
    have hstate : ((l.machine.setDelays (l.machine.delays.eraseIdx i)).delayed d err).state =
        l.machine.state :=
      delayed_cases (P := fun u => u.state = l.machine.state) _ d err rfl (fun _ _ _ => rfl)
        fun _ _ _ _ _ _ => rfl
    exact hstays hstate (supplied_delay h hserved hcrashed hqueue htasks hd hcompletes)

/-- The peers supply what the machine has read. -/
structure Fed (peers : ℕ → PacketStream UInt8 IoError) (l : Link) : Prop where
  served : Served l.machine
  supplied : l.machine.crashed = false → Supplied peers l.heads l.net l.machine

theorem Fed.step (h : Fed peers l) (hcalls : ∀ call ∈ a.calls, call.isTimeout = false)
    (hstep : l.step peers a = some l') : Fed peers l' where
  served := h.served.step hcalls (step_cases hstep).1
  supplied hcrashed' :=
    supplied_step (h.supplied (crashed_of_step (step_cases hstep).1)) h.served hcrashed' hstep

theorem fed_create (peers : ℕ → PacketStream UInt8 IoError) (cfg : Config) (time : ℕ) :
    Fed peers { machine := Machine.create cfg time } :=
  ⟨served_create cfg time, fun _ => supplied_of_state nofun nofun nofun nofun⟩

/-! ### Runs -/

/-- A reader of the content behind the head of the last response. -/
structure Reader (peers : ℕ → PacketStream UInt8 IoError) (l : Link) (evt : HeadersReadEvent)
    (read : Read UInt8 IoError) (r : Reading) : Prop where
  head : IsHead (peers l.heads) l.machine.url evt read
  reaches : Reaches (Reading.step l.machine.contentFsm) (Http.enter evt.parsed read.rest) r

/-- What was passed on is what a reader of the content delivers; at the end, all of it. -/
def Delivers (peers : ℕ → PacketStream UInt8 IoError) (l : Link) : Prop :=
  match l.machine.state with
  | .readContent => ∃ evt read r, Reader peers l evt read r ∧
      passedOn l.machine.log <+: delivered r.log
  | .complete => ∃ evt read r, Reader peers l evt read r ∧ .contentReadEvent ∈ r.log ∧
      passedOn l.machine.log = delivered r.log
  | _ => True

theorem Fed.delivers (h : Fed peers l) (hcrashed : l.machine.crashed = false) :
    Delivers peers l := by
  have hsupplied := h.supplied hcrashed
  unfold Supplied at hsupplied
  unfold Delivers
  cases hin : l.machine.state <;> simp only [hin] at hsupplied ⊢
  case readContent =>
    obtain ⟨evt, read, r, hhead, hreaches, hreads⟩ := hsupplied
    exact ⟨evt, read, r, ⟨hhead, hreaches⟩, _, hreads.bytes⟩
  case complete =>
    obtain ⟨evt, read, r, hhead, hreaches, hdone, hpassed⟩ := hsupplied
    exact ⟨evt, read, r, ⟨hhead, hreaches⟩, hdone, hpassed⟩

/-- While no caller fails with the error of a timer, the callback gets the content of the last
response as a reader of this content alone delivers it, whatever was timed out, redirected and
retried before. -/
theorem run_delivers {cfg : Config} {time : ℕ} {acts : List Act}
    (h : ∀ a ∈ acts, ∀ call ∈ a.calls, call.isTimeout = false) :
    Always (step peers) (fun l => l.machine.crashed = false → Delivers peers l)
      { machine := Machine.create cfg time } acts := by
  refine Always.of_guarded (I := Fed peers)
    (G := fun _ a _ => ∀ call ∈ a.calls, call.isTimeout = false)
    (fun l hl hcrashed => hl.delivers hcrashed)
    (fun _ _ _ hl hcalls hstep => hl.step hcalls hstep) (fed_create peers cfg time)
    (along_of_forall fun a ha _ _ => h a ha)

/-- A head and two bytes, on every connection. -/
def greeting : ℕ → PacketStream UInt8 IoError := fun _ =>
  { packets := ["HTTP/1.1 200 OK\r\nContent-Length: 2\r\n\r\n".toUTF8.toList,
      "hi".toUTF8.toList]
    close := none }

theorem run_delivers_timedOutBeforeSending :
    ((run (step greeting) { machine := Machine.getPlain } Machine.timedOutBeforeSending).map
      fun l => decide (l.machine.state = .complete) && !l.machine.crashed &&
        decide (passedOn l.machine.log = [some 104, some 105])) = some true ∧
      Always (step greeting) (fun l => l.machine.crashed = false → Delivers greeting l)
        { machine := Machine.getPlain } Machine.timedOutBeforeSending :=
  ⟨by decide +kernel, run_delivers (by decide +kernel)⟩

end Link

end MediafireSdk.Http
