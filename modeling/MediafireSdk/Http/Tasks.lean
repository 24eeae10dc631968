import MediafireSdk.Http.Stepping

/-! What a handler leaves to do. The handler of an operation ends with one event, with another
operation or with the pipe; a read of the content may let content through before that. -/

namespace MediafireSdk.Http

open Words

/-! ### The content -/

/-- What the handlers before an operation have passed on, as the operation counts it. -/
def AsyncOp.total : AsyncOp → ℕ
  | .contentRead _ total _ => total
  | .contentReadDelay _ total => total
  | .chunkRead _ consumed _ => consumed
  | .chunkSizeReadDelay _ consumed _ => consumed
  | .chunkSizeRead consumed => consumed

/-- Data in either direction. -/
def Entry.isData : Entry → Bool
  | .responseContentReceived _ _ | .wrotePost _ => true
  | _ => false

/-- An error that no timer has raised. -/
def ErrorEvent.Plain (evt : ErrorEvent) : Prop := evt.code ≠ .http .ioTimeout

theorem HttpError.plain (code : HttpError) (description : String) :
    ErrorEvent.Plain ⟨code.code, description⟩ := by
  cases code <;> simp [HttpError.code, ErrorEvent.Plain]

/-- The event that an operation is for. -/
inductive OpKind.Raises : OpKind → Event → Prop
  | error (kind : OpKind) (evt : ErrorEvent) (h : evt.Plain) : Raises kind (.error evt)
  | resolved (endpoint : Endpoint) : Raises (.resolve endpoint) (.resolved endpoint)
  | connected : Raises .connect .connected
  | tunnelled : Raises .proxyRead .connected
  | handshake : Raises .handshake .handshake
  | headersWritten : Raises .headerWrite .headersWritten
  | postSent : Raises .postWrite .postSent
  | headersRead (evt : HeadersReadEvent) : Raises .headerRead (.headersRead evt)

namespace Machine

/-- What a handler of a read leaves to do, and the data after it. -/
inductive ContentTasks (owner : ℕ) (d : ReadContentData) (total : ℕ) :
    List Task → ReadContentData → Prop
  | ignored : ContentTasks owner d total [] d
  | failed (evt : ErrorEvent) (d' : ReadContentData) (h : evt.Plain) :
      ContentTasks owner d total [.event (.error evt)] d'
  | exceeded (buffer : Buffer) (evt : ErrorEvent) (d' : ReadContentData) (h : evt.Plain)
      (hgzip : d.usingGzip = false) :
      ContentTasks owner d total [.content total buffer, .event (.error evt)] d'
  | last (buffer : Buffer) (d' : ReadContentData) (hgzip : d.usingGzip = false) :
      ContentTasks owner d total [.content total buffer, .event .contentRead] d'
  | inflated (buffer : Buffer) (d' : ReadContentData) (hgzip : d.usingGzip = true) :
      ContentTasks owner d total [.content d.filterBufConsumed buffer, .event .contentRead] d'
  | finished (d' : ReadContentData) : ContentTasks owner d total [.event .contentRead] d'
  | more (buffer : Buffer) (op : AsyncOp) (d' : ReadContentData) (hgzip : d.usingGzip = false)
      (hgzip' : d'.usingGzip = false) (h : op.total = trunc 64 (total + buffer.length)) :
      ContentTasks owner d total [.content total buffer, .start owner op] d'
  | further (op : AsyncOp) (d' : ReadContentData) (hgzip : d'.usingGzip = d.usingGzip)
      (hconsumed : d'.filterBufConsumed = d.filterBufConsumed)
      (h : d.usingGzip = false → op.total = total) :
      ContentTasks owner d total [.start owner op] d'

@[simp] theorem records_tasks (fsm : Fsm) (n : ℕ) :
    (fsm.recordIncomingBytes n).filterMap outputTask = [] := by
  unfold Fsm.recordIncomingBytes
  split <;> simp [outputTask]

theorem passBuffer_tasks (d : ReadContentData) (startPos size : ℕ) :
    (passBuffer d startPos size).filterMap outputTask =
      if d.usingGzip then [] else [.content startPos (readArray size d.readBuffer)] := by
  unfold passBuffer
  split <;> simp [outputTask]

section Content
variable (fsm : Fsm) (owner : ℕ) (d : ReadContentData)

theorem outcomeTasks_finish (outputs : List Output) (event : Output) :
    outcomeTasks owner (d.finish outputs event) =
      outputs.filterMap outputTask ++ [event].filterMap outputTask := by
  simp [outcomeTasks, ReadContentData.finish]

/-- Behind a plain buffer that was passed on, or nothing for a compressed one. -/
theorem contentTasks_error {total size : ℕ} {outputs : List Output} (d' : ReadContentData)
    (code : HttpError) (description : String)
    (houtputs : outputs.filterMap outputTask =
      if d.usingGzip then [] else [.content total (readArray size d.readBuffer)]) :
    ContentTasks owner d total
      (outcomeTasks owner (d'.finish outputs (.errorEvent code description)))
      (d'.finish outputs (.errorEvent code description)).data := by
  rw [outcomeTasks_finish, houtputs]
  split
  case isTrue => exact .failed _ _ (HttpError.plain code description)
  case isFalse hgzip =>
    exact .exceeded _ _ _ (HttpError.plain code description) (Bool.eq_false_iff.mpr hgzip)

theorem handleContentComplete_tasks {total size : ℕ} {outputs : List Output}
    (d' : ReadContentData) (hgzip : d'.usingGzip = d.usingGzip)
    (hconsumed : d'.filterBufConsumed = d.filterBufConsumed)
    (houtputs : outputs.filterMap outputTask =
      if d.usingGzip then [] else [.content total (readArray size d.readBuffer)]) :
    ContentTasks owner d total (outcomeTasks owner (handleContentComplete fsm d' outputs))
      (handleContentComplete fsm d' outputs).data := by
  unfold handleContentComplete
  split
  case isTrue h =>
    split
    · exact contentTasks_error owner d _ _ _ houtputs
    · rw [hgzip] at h
      rw [outcomeTasks_finish, List.filterMap_append, houtputs, if_pos h, hconsumed]
      exact .inflated _ _ h
  case isFalse h =>
    rw [hgzip] at h
    rw [outcomeTasks_finish, houtputs, if_neg h]
    exact .last _ _ (Bool.eq_false_iff.mpr h)

theorem handleContentRead_tasks (total previously transferred : ℕ) (err : Option IoError) :
    ContentTasks owner d total
      (outcomeTasks owner (handleContentRead fsm d total previously transferred err))
      (handleContentRead fsm d total previously transferred err).data := by
  have houtputs (n size : ℕ) : (fsm.recordIncomingBytes n ++ passBuffer d total size).filterMap
      outputTask = if d.usingGzip then [] else [.content total (readArray size d.readBuffer)] := by
    rw [List.filterMap_append, records_tasks, passBuffer_tasks, List.nil_append]
  unfold handleContentRead
  split
  · exact .ignored
  · dsimp only
    generalize hd' : (if d.usingGzip = true then d else _) = d'
    have hgzip : d'.usingGzip = d.usingGzip := by rw [← hd']; split <;> rfl
    have hconsumed : d'.filterBufConsumed = d.filterBufConsumed := by rw [← hd']; split <;> rfl
    split
    · split
      · exact contentTasks_error owner d _ _ _ (houtputs _ _)
      · split
        · exact handleContentComplete_tasks fsm owner d _ hgzip hconsumed (houtputs _ _)
        · simp only [outcomeTasks, houtputs]
          split
          case isTrue h => exact .further _ _ hgzip hconsumed fun hplain => by simp_all
          case isFalse h =>
            have hplain := Bool.eq_false_iff.mpr h
            exact .more _ _ _ hplain (hgzip.trans hplain) (by simp [AsyncOp.total, length_readArray])
    · rw [Fsm.readError, outcomeTasks_finish, records_tasks]
      exact .failed _ _ (HttpError.plain _ _)

theorem handleContentChunkRead_tasks (consumed size transferred : ℕ) (err : Option IoError) :
    ContentTasks owner d consumed
      (outcomeTasks owner (handleContentChunkRead fsm d consumed size transferred err))
      (handleContentChunkRead fsm d consumed size transferred err).data := by
  unfold handleContentChunkRead
  split
  · exact .ignored
  · dsimp only
    generalize hd' : (if d.usingGzip = true then _ else d) = d'
    have hgzip : d'.usingGzip = d.usingGzip := by rw [← hd']; split <;> rfl
    have hconsumed : d'.filterBufConsumed = d.filterBufConsumed := by rw [← hd']; split <;> rfl
    split
    · simp only [outcomeTasks, List.filterMap_append, records_tasks, passBuffer_tasks,
        List.nil_append]
      split
      case isTrue h => exact .further _ _ hgzip hconsumed fun hplain => by simp_all
      case isFalse h =>
        have hplain := Bool.eq_false_iff.mpr h
        exact .more _ _ _ (hgzip.symm.trans hplain) hplain
          (by simp [AsyncOp.total, length_readArray])
    · rw [Fsm.readError, outcomeTasks_finish, records_tasks]
      exact .failed _ _ (HttpError.plain _ _)

theorem handleCompleteAllChunks_tasks (consumed n : ℕ) (d' : ReadContentData)
    (hgzip : d'.usingGzip = d.usingGzip) (hconsumed : d'.filterBufConsumed = d.filterBufConsumed) :
    ContentTasks owner d consumed
      (outcomeTasks owner (handleCompleteAllChunks fsm d' (fsm.recordIncomingBytes n)))
      (handleCompleteAllChunks fsm d' (fsm.recordIncomingBytes n)).data := by
  unfold handleCompleteAllChunks
  split
  case isTrue h =>
    rw [hgzip] at h
    split
    · rw [compressionError.eq_def]
      split <;> rw [outcomeTasks_finish, records_tasks] <;>
        exact .failed _ _ (HttpError.plain _ _)
    · rw [outcomeTasks_finish, List.filterMap_append, records_tasks, hconsumed]
      exact .inflated _ _ h
  case isFalse h =>
    rw [outcomeTasks_finish, records_tasks]
    exact .finished _

theorem handleContentChunkSizeRead_tasks (consumed transferred : ℕ) (err : Option IoError) :
    ContentTasks owner d consumed
      (outcomeTasks owner (handleContentChunkSizeRead fsm d consumed transferred err))
      (handleContentChunkSizeRead fsm d consumed transferred err).data := by
  unfold handleContentChunkSizeRead
  split
  · exact .ignored
  · dsimp only
    split
    · split
      · rw [chunkParseError, outcomeTasks_finish, records_tasks]
        exact .failed _ _ (HttpError.plain _ _)
      · split
        · exact handleCompleteAllChunks_tasks fsm owner d consumed _ _ rfl rfl
        · simp only [handleNextChunk, outcomeTasks, records_tasks]
          exact .further _ _ rfl rfl fun _ => rfl
    · rw [Fsm.readError, outcomeTasks_finish, records_tasks]
      exact .failed _ _ (HttpError.plain _ _)

end Content

theorem contentOutcome_tasks (s : Machine) (owner : ℕ) (op : AsyncOp) (received : List UInt8)
    (err : Option IoError) :
    ContentTasks owner (s.readContentData.receive received) op.total
      (outcomeTasks owner (s.contentOutcome op received err))
      (s.contentOutcome op received err).data := by
  cases op with
  | contentRead size total previously => exact handleContentRead_tasks _ _ _ _ _ _ _
  | chunkRead left consumed size => exact handleContentChunkRead_tasks _ _ _ _ _ _ _
  | chunkSizeRead consumed => exact handleContentChunkSizeRead_tasks _ _ _ _ _ _
  | contentReadDelay size total => exact .ignored
  | chunkSizeReadDelay left consumed size => exact .ignored

/-! ### The operations -/

/-- What the handler of an operation comes to, when it is neither cancelled nor late. -/
inductive Handled (s : Machine) (owner : ℕ) : OpKind → Machine → Prop
  | event (kind : OpKind) (e : Event) (h : kind.Raises e) : Handled s owner kind (s.next [.event e])
  | established : Handled s owner .proxyRead (s.establish.next [.event .connected])
  | proxyRead :
      Handled s owner .proxyWrite (s.async owner "proxy read response" kProxyReadTimeout .proxyRead)
  | pipe (size : ℕ) (h : s.cfg.post = some (.pipe size)) :
      Handled s owner .postWrite (s.next [.pipe owner])
  | content (op : AsyncOp) (received : List UInt8) (tasks : List Task) (d : ReadContentData)
      (h : ContentTasks owner (s.readContentData.receive received) op.total tasks d) :
      Handled s owner (.content op) ((s.setContent d).next tasks)

theorem Handled.kept {s s' : Machine} {owner : ℕ} {kind : OpKind}
    (h : Handled s owner kind s') : Kept s s' := by
  cases h with
  | event e h => exact s.next_kept _
  | established => exact s.establish_kept.trans (next_kept _ _)
  | proxyRead => exact s.async_kept owner _ _ _
  | pipe size h => exact s.next_kept _
  | content op received tasks d h => exact (s.setContent_kept d).trans (next_kept _ _)

section Handlers
variable (s : Machine) (owner : ℕ)

theorem result_raises {kind : OpKind} (err : Option IoError) {e : Event} {code : HttpErrorCode}
    {text : String} (h : kind.Raises e) (hcode : code ≠ .ioTimeout) :
    kind.Raises (result err e code text) := by
  cases err with
  | none => exact h
  | some err => exact .error kind _ fun heq => hcode (ErrorCode.http.inj heq)

theorem parseLines_plain {url : String} {lines : List (List UInt8)} {evt : ErrorEvent}
    (h : parseLines url lines = .error evt) : evt.Plain := by
  unfold parseLines at h
  split at h
  case h_1 => cases h; simp [ErrorEvent.Plain, badlyFormattedError]
  case h_2 parsed _ =>
    unfold parseContentLength at h
    split at h
    case h_1 => cases h
    case h_2 value _ =>
      split at h <;> cases h
      simp [ErrorEvent.Plain, contentLengthError]

theorem handleHeaderRead_plain {url : String} {readBuffer : List UInt8} {n : ℕ}
    {err : Option IoError} {evt : ErrorEvent}
    (h : handleHeaderRead url readBuffer n err = .error evt) : evt.Plain := by
  unfold handleHeaderRead at h
  split at h
  case h_1 err => cases h; simp [ErrorEvent.Plain, headersReadError]
  case h_2 =>
    split at h
    case h_1 => cases h; simp [ErrorEvent.Plain, protocolError]
    case h_2 status buffer _ =>
      split_ifs at h
      · cases hlines : parseLines url (headerLines buffer).1 with
        | error evt' => rw [hlines] at h; cases h; exact parseLines_plain hlines
        | ok parsed => rw [hlines] at h; cases h
      · cases h; simp [ErrorEvent.Plain, protocolError]

theorem headersReadResult_raises (received : List UInt8) (err : Option IoError) :
    OpKind.headerRead.Raises (s.headersReadResult received err) := by
  unfold headersReadResult
  split
  case h_1 evt _ => exact .headersRead evt
  case h_2 evt h => exact .error _ evt (handleHeaderRead_plain h)

theorem handleProxyHeaderRead_cases (received : List UInt8) (err : Option IoError) :
    Handled s owner .proxyRead (s.handleProxyHeaderRead received err) := by
  unfold handleProxyHeaderRead
  split
  · exact .event _ _ (.error _ _ (by simp [ErrorEvent.Plain]))
  · split
    · exact .event _ _ (.error _ _ (by simp [ErrorEvent.Plain]))
    · split_ifs
      · exact .event _ _ (.error _ _ (by simp [ErrorEvent.Plain]))
      · exact .established
      · exact .event _ _ (.error _ _ (by simp [ErrorEvent.Plain]))

theorem handle_cases (kind : OpKind) (received : List UInt8) (err : Option IoError) :
    Handled s owner kind (s.handle owner kind received err) := by
  cases kind with
  | resolve endpoint => exact .event _ _ (result_raises err (.resolved endpoint) (by decide))
  | connect => exact .event _ _ (result_raises err .connected (by decide))
  | proxyWrite =>
    simp only [handle]
    split_ifs with herr
    · obtain ⟨err, rfl⟩ := Option.isSome_iff_exists.mp herr
      exact .event _ _ (.error _ _ (by simp [ErrorEvent.Plain]))
    · exact .proxyRead
  | proxyRead => exact s.handleProxyHeaderRead_cases owner received err
  | handshake => exact .event _ _ (result_raises err .handshake (by decide))
  | headerWrite => exact .event _ _ (result_raises err .headersWritten (by decide))
  | postWrite =>
    simp only [handle]
    split
    case h_1 size hpost => exact .pipe size hpost
    case h_2 => exact .event _ _ (result_raises _ .postSent (by decide))
  | headerRead => exact .event _ _ (s.headersReadResult_raises received err)
  | content op => exact .content op received _ _ (s.contentOutcome_tasks owner op received err)

/-- The handler of an operation that has completed. -/
theorem completed_cases {P : Machine → Prop} (op : Op) (received : List UInt8)
    (err : Option IoError) (hignored : P s) (hlate : P (s.take op.race))
    (hhandled : ∀ s', s.live = some op.owner → op.race ∉ s.taken →
      Handled (s.take op.race).clearAsyncTimeout op.owner op.kind s' → P s') :
    P (s.completed op received err) := by
  unfold completed
  split_ifs with hlive htaken
  · split
    · exact hlate
    · exact hignored
  · exact hignored
  · exact hhandled _ (not_not.mp hlive) htaken (handle_cases _ _ _ _ _)

theorem completed_kept (op : Op) (received : List UInt8) (err : Option IoError) :
    Kept s (s.completed op received err) :=
  s.completed_cases op received err (.refl s) (s.take_kept _) fun _ _ _ h =>
    ((s.take_kept _).trans (clearAsyncTimeout_kept _)).trans h.kept

/-- A timer that has run out. -/
theorem timedOut_cases {P : Machine → Prop} (t : Timeout) (err : Bool) (hignored : P s)
    (htaken : P (s.take t.race))
    (htimeout : t.race ∉ s.taken → err = false →
      P ((s.take t.race).next [.event (.error s.ioTimeoutError)])) :
    P (s.timedOut t err) := by
  unfold timedOut
  split_ifs with hrace hid
  · exact hignored
  · exact htimeout hrace hid.1
  · exact htaken

theorem timedOut_kept (t : Timeout) (err : Bool) : Kept s (s.timedOut t err) :=
  s.timedOut_cases t err (.refl s) (s.take_kept _) fun _ _ => (s.take_kept _).trans (next_kept _ _)

theorem contentDelayOutcome_total {op next : AsyncOp}
    (h : (s.contentDelayOutcome op).next = some next) : next.total = op.total := by
  unfold contentDelayOutcome at h
  cases op with
  | contentReadDelay size total =>
    simp only [handleContentReadDelayCallback] at h
    split_ifs at h
    cases h
    rfl
  | chunkSizeReadDelay left consumed size =>
    simp only [handleContentChunkSizeReadDelay] at h
    split_ifs at h
    cases h
    rfl
  | _ => cases h

/-- The wait on a delay timer that is over. -/
theorem delayed_cases {P : Machine → Prop} (d : Delay) (err : Bool) (hignored : P s)
    (hpost : ∀ postData, s.live = some d.owner → d.kind = .post postData →
      P (((s.setDelayTimerEnabled false).record (.wrotePost postData)).async d.owner
        "write request post" s.cfg.timeoutSeconds .postWrite))
    (hcontent : ∀ op next enabled, s.live = some d.owner → d.kind = .content op →
      next.total = op.total → P ((s.setDelayTimerEnabled enabled).async d.owner (nextReason next)
        s.cfg.timeoutSeconds (.content next))) :
    P (s.delayed d err) := by
  unfold delayed
  split_ifs with h
  · exact hignored
  · have hlive : s.live = some d.owner := not_not.mp fun hne => h (.inr hne)
    split
    case h_1 postData hkind =>
      unfold postDelayed
      split_ifs
      · exact hpost postData hlive hkind
      · exact hignored
    case h_2 op hkind =>
      unfold contentDelayed
      dsimp only
      split
      · exact hignored
      · exact hcontent op _ _ hlive hkind (s.contentDelayOutcome_total ‹_›)

end Handlers

/-! ### What only transitions change -/

/-- Nothing is different that a transition depends on, but for what is queued and when; only data
was passed on. -/
structure Unmoved (s s' : Machine) : Prop where
  cfg : s'.cfg = s.cfg
  url : s'.url = s.url
  state : s'.state = s.state
  parsedUrl : s'.parsedUrl = s.parsedUrl
  isSsl : s'.isSsl = s.isSsl
  live : s'.live = s.live
  log : ∃ data, s'.log = s.log ++ data ∧ ∀ e ∈ data, e.isData = true

section Unmoved
variable {s s' : Machine}

theorem Unmoved.of_kept (h : Kept s s') : Unmoved s s' :=
  ⟨h.cfg, h.url, h.state, h.parsedUrl, h.isSsl, h.live, [], by rw [h.log, List.append_nil],
    List.forall_mem_nil _⟩

theorem record_unmoved (s : Machine) (entry : Entry) (h : entry.isData = true) :
    Unmoved s (s.record entry) :=
  ⟨rfl, rfl, rfl, rfl, rfl, rfl, [entry], rfl, by simpa using h⟩

/-- What every transition keeps and nothing else can change is kept by every step. -/
theorem step_transitions {P : Machine → Prop} (hunmoved : ∀ s s', Unmoved s s' → P s → P s')
    (hprocess : ∀ s e answer, P s → P (s.process e answer)) {a : Act} (h : P s)
    (hstep : s.step a = some s') : P s' := by
  cases step_cases hstep with
  | clock elapsed => exact hunmoved _ _ (.of_kept (s.tick_kept elapsed)) h
  | queued e queue answer hqueue =>
    have hset : Unmoved s (s.setQueue queue) :=
      ⟨rfl, rfl, rfl, rfl, rfl, rfl, [], (List.append_nil _).symm,
        List.forall_mem_nil _⟩
    exact hprocess _ e answer (hunmoved _ _ hset h)
  | task t tasks answer hqueue htasks =>
    have hset : P (s.setTasks tasks) := hunmoved _ _ (.of_kept (s.setTasks_kept tasks)) h
    cases t with
    | event e => exact hprocess _ e answer hset
    | content startPos buffer =>
      have hrecorded := hunmoved _ _
        (record_unmoved _ (.responseContentReceived startPos buffer) rfl) hset
      exact hunmoved _ _ (.of_kept (next_kept _ _)) hrecorded
    | start owner op => exact hunmoved _ _ (.of_kept (startContent_kept _ owner op)) hset
    | delayPost owner postData => exact hunmoved _ _ (.of_kept (delay_kept _ owner _)) hset
    | pipe owner =>
      have hpiped : Kept (s.setTasks tasks) ((s.setTasks tasks).postViaInterface owner answer) :=
        ⟨rfl, rfl, le_rfl, rfl, rfl, rfl, rfl, rfl, rfl, rfl⟩
      exact hunmoved _ _ (.of_kept hpiped) hset
  | start hqueue htasks => exact hprocess _ _ _ h
  | call call hqueue htasks => exact hprocess _ _ _ h
  | complete i op received err hqueue htasks hop =>
    exact hunmoved _ _ (.of_kept ((s.setOps_kept _).trans (completed_kept _ op received err))) h
  | timer i t err hqueue htasks ht hcompletes =>
    exact hunmoved _ _ (.of_kept ((s.setTimers_kept _).trans (timedOut_kept _ t err))) h
  | delay i d err hqueue htasks hd =>
    have hset : P (s.setDelays (s.delays.eraseIdx i)) :=
      hunmoved _ _ (.of_kept (s.setDelays_kept _)) h
    refine delayed_cases (P := P) _ d err hset (fun postData _ _ => ?_)
      fun op next enabled _ _ _ => ?_
    · have henabled := hunmoved _ _ (.of_kept (setDelayTimerEnabled_kept _ false)) hset
      have hrecorded := hunmoved _ _ (record_unmoved _ (.wrotePost postData) rfl) henabled
      exact hunmoved _ _ (.of_kept (async_kept _ _ _ _ _)) hrecorded
    · exact hunmoved _ _
        (.of_kept ((setDelayTimerEnabled_kept _ _).trans (async_kept _ _ _ _ _))) hset

end Unmoved

end Machine

end MediafireSdk.Http
