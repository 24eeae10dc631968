import MediafireSdk.Http.States

/-! What happens between the transitions of a request: the calls of its user, the handlers of
operations and timers, and the steps of the whole. A handler does nothing when the data it has
is cancelled or its race preventer has been first already. -/

namespace MediafireSdk.Http

open Words

def AsyncOp.isDelay : AsyncOp → Bool
  | .contentReadDelay _ _ | .chunkSizeReadDelay _ _ _ => true
  | _ => false

namespace Machine
variable (s : Machine)

/-! ### Handlers of operations -/

/-- The event of a handler, or the error of its operation. -/
def result (err : Option IoError) (e : Event) (code : HttpErrorCode) (text : String) : Event :=
  match err with
  | none => e
  | some err => .error ⟨.http code, text ++ " Error: " ++ err.message⟩

def proxyText : String :=
  match s.currentProxy with
  | none => ""
  | some proxy => " Proxy: " ++ proxy.host ++ ":" ++ toString proxy.port

def proxyProtocolError (text : String) : Event :=
  .error ⟨.http .proxyProtocolFailure, "Protocol error while parsing proxy headers." ++ text⟩

/-- The proxy answers with the status 200. -/
def establish : Machine :=
  { s with socket := s.socket.map fun socket => { socket with tunnelled := true } }

def handleProxyHeaderRead (received : List UInt8) (err : Option IoError) : Machine :=
  match err with
  | some err => s.next [.event (.error ⟨.http .proxyProtocolFailure,
      "Failure reading from proxy." ++ s.proxyText ++ " Error: " ++ err.message⟩)]
  | none =>
    match readStatusLine 32 received with
    | none => s.next [.event (proxyProtocolError "")]
    | some (status, _) =>
      if isHttpVersion status.httpVersion = false then s.next [.event (proxyProtocolError "")]
      else if status.statusCode = 200 then s.establish.next [.event .connected]
      else s.next [.event (proxyProtocolError (" HTTP Status: " ++ toString status.statusCode
        ++ " " ++ bytesToString status.statusMessage))]

/-- The end of the headers that a read has found, when it has not failed. -/
def headersTransferred (received : List UInt8) (err : Option IoError) : ℕ :=
  if err.isSome then 0 else (headersEnd received).getD 0

def headersReadResult (received : List UInt8) (err : Option IoError) : Event :=
  match handleHeaderRead s.url received (headersTransferred received err) err with
  | .ok evt => .headersRead evt
  | .error evt => .error evt

/-- What the content reader sees of the machine. -/
def contentFsm : Fsm where
  url := s.url
  isSsl := s.isSsl
  bwAnalyser := s.cfg.bwAnalyser
  gunzip := s.cfg.gunzip

/-- The handler of a read of the content. -/
def contentOutcome (op : AsyncOp) (received : List UInt8) (err : Option IoError) : Outcome :=
  let d := s.readContentData.receive received
  match op with
  | .contentRead _ total previously =>
    handleContentRead s.contentFsm d total previously received.length err
  | .chunkRead _ consumed size =>
    handleContentChunkRead s.contentFsm d consumed size received.length err
  | .chunkSizeRead consumed =>
    let transferred := if err.isSome then 0 else (crlfEnd d.readBuffer).getD 0
    handleContentChunkSizeRead s.contentFsm d consumed transferred err
  | .contentReadDelay _ _ | .chunkSizeReadDelay _ _ _ => { data := d }

/-- The callback gets content in the middle of a handler; the bandwidth analyser is left out. -/
def outputTask : Output → Option Task
  | .recordIncomingBytes _ => none
  | .responseContentReceived startPos buffer => some (.content startPos buffer)
  | .contentReadEvent => some (.event .contentRead)
  | .errorEvent code description => some (.event (.error ⟨code.code, description⟩))

def outcomeTasks (owner : ℕ) (outcome : Outcome) : List Task :=
  outcome.outputs.filterMap outputTask ++ (outcome.next.map (Task.start owner)).toList

@[simps] def setContent (d : ReadContentData) : Machine :=
  { s with readContentData := { d with cancelled := false } }

def handleContent (owner : ℕ) (op : AsyncOp) (received : List UInt8) (err : Option IoError) :
    Machine :=
  let outcome := s.contentOutcome op received err
  (s.setContent outcome.data).next (outcomeTasks owner outcome)

/-- A handler that is neither cancelled nor late. -/
def handle (owner : ℕ) (kind : OpKind) (received : List UInt8) (err : Option IoError) : Machine :=
  match kind with
  | .resolve endpoint => s.next [.event (result err (.resolved endpoint) .unableToResolve
      ("Failure while resolving url(" ++ s.url ++ ")."))]
  | .connect => s.next [.event (result err .connected .unableToConnect
      ("Failure while connecting(" ++ s.url ++ ")."))]
  | .proxyWrite =>
    if err.isSome then s.next [.event (result err .connected .unableToConnectToProxy
      ("Failure connecting to proxy." ++ s.proxyText))]
    else s.async owner "proxy read response" kProxyReadTimeout .proxyRead
  | .proxyRead => s.handleProxyHeaderRead received err
  | .handshake => s.next [.event (result err .handshake .sslHandshakeFailure
      "Failure in SSL handshake.")]
  | .headerWrite => s.next [.event (result err .headersWritten .writeFailure
      ("Failure while writing headers url(" ++ s.url ++ ")."))]
  | .postWrite =>
    match err, s.cfg.post with
    | none, some (.pipe _) => s.next [.pipe owner]
    | _, _ => s.next [.event (result err .postSent .writeFailure
        ("Failure writing POST. URL: " ++ s.url))]
  | .headerRead => s.next [.event (s.headersReadResult received err)]
  | .content op => s.handleContent owner op received err

/-- The handler of an operation. That of a name resolution takes its first before it looks
whether its data is cancelled. -/
def completed (op : Op) (received : List UInt8) (err : Option IoError) : Machine :=
  if s.live ≠ some op.owner then
    match op.kind with
    | .resolve _ => s.take op.race
    | _ => s
  else if op.race ∈ s.taken then s
  else (s.take op.race).clearAsyncTimeout.handle op.owner op.kind received err

/-- What an operation can have put into the buffer when it completes. -/
def mayComplete (kind : OpKind) (received : List UInt8) (err : Option IoError) : Bool :=
  match kind with
  | .proxyRead | .headerRead => err.isSome || hasHeadersEnd received
  | .content (.contentRead size _ _) | .content (.chunkRead size _ _) =>
    received.length ≤ size && (err.isSome || received.length = size)
  | .content (.chunkSizeRead _) =>
    err.isSome || hasCrlf (s.readContentData.receive received).readBuffer
  | _ => received = []

/-! ### Handlers of timers -/

def ioTimeoutError : ErrorEvent := ⟨.http .ioTimeout, "I/O timeout: " ++ s.timeoutReason⟩

/-- `HandleAsyncTimeout`. -/
def timedOut (t : Timeout) (err : Bool) : Machine :=
  if t.race ∈ s.taken then s
  else if err = false ∧ s.timeoutId = t.id then
    (s.take t.race).next [.event (.error s.ioTimeoutError)]
  else s.take t.race

/-- The reason that a further read of the content is guarded with. -/
def nextReason : AsyncOp → String
  | .chunkRead _ _ _ => "read response content 3"
  | .chunkSizeRead _ => "read response content 4"
  | _ => "read response content 5"

@[simps] def setDelayTimerEnabled (enabled : Bool) : Machine :=
  { s with transmissionDelayTimerEnabled := enabled }

/-- The delay callbacks of the content reader. -/
def contentDelayOutcome (op : AsyncOp) : Outcome :=
  let d := { s.readContentData with
    transmissionDelayTimerEnabled := s.transmissionDelayTimerEnabled }
  match op with
  | .contentReadDelay size total => handleContentReadDelayCallback d size total
  | .chunkSizeReadDelay left consumed size => handleContentChunkSizeReadDelay d left consumed size
  | _ => { data := d }

def contentDelayed (owner : ℕ) (op : AsyncOp) : Machine :=
  let outcome := s.contentDelayOutcome op
  match outcome.next with
  | none => s
  | some next =>
    (s.setDelayTimerEnabled outcome.data.transmissionDelayTimerEnabled).async owner
      (nextReason next) s.cfg.timeoutSeconds (.content next)

/-- `PostViaInterfaceDelayCallback`. -/
def postDelayed (owner : ℕ) (postData : List UInt8) : Machine :=
  if s.transmissionDelayTimerEnabled then
    ((s.setDelayTimerEnabled false).record (.wrotePost postData)).async owner "write request post"
      s.cfg.timeoutSeconds .postWrite
  else s

/-- A wait on the delay timer is over. -/
def delayed (d : Delay) (err : Bool) : Machine :=
  if err ∨ s.live ≠ some d.owner then s
  else
    match d.kind with
    | .post postData => s.postDelayed d.owner postData
    | .content op => s.contentDelayed d.owner op

/-! ### Tasks -/

def startContent (owner : ℕ) (op : AsyncOp) : Machine :=
  if op.isDelay then s.delay owner (.content op)
  else s.async owner (nextReason op) s.cfg.timeoutSeconds (.content op)

@[simps] def readPipe (bytes : List UInt8) : Machine :=
  { s with sendPostData := s.sendPostData.read bytes }

/-- `PostViaInterface` of a handler. -/
def postViaInterface (owner : ℕ) (answer : Answer) : Machine :=
  let bytes := answer.chunk.bytes
  (s.readPipe bytes).next
    ((answer.calls.map Call.event ++ s.sendPostData.pipeEvents answer.chunk).map Task.event
      ++ if bytes = [] then [] else [.delayPost owner bytes])

def runTask (t : Task) (answer : Answer) : Machine :=
  match t with
  | .event e => s.process e answer
  | .content startPos buffer =>
    (s.record (.responseContentReceived startPos buffer)).next
      ((s.callbackCalls answer).map Task.event)
  | .start owner op => s.startContent owner op
  | .delayPost owner postData => s.delay owner (.post postData)
  | .pipe owner => s.postViaInterface owner answer

end Machine

/-! ### Steps -/

inductive Act where
  | start
  | call (call : Call)
  | clock (elapsed : ℕ)
  | complete (i : ℕ) (received : List UInt8) (err : Option IoError)
  | timer (i : ℕ) (err : Bool)
  | delay (i : ℕ) (err : Bool)
  | proceed (answer : Answer)

namespace Machine
variable (s : Machine)

@[simps] def tick (elapsed : ℕ) : Machine := { s with now := s.now + elapsed }

@[simps] def setQueue (queue : List Event) : Machine := { s with queue := queue }

@[simps] def setTasks (tasks : List Task) : Machine := { s with tasks := tasks }

@[simps] def setOps (ops : List Op) : Machine := { s with ops := ops }

@[simps] def setTimers (timers : List Timeout) : Machine := { s with timers := timers }

@[simps] def setDelays (delays : List Delay) : Machine := { s with delays := delays }

/-- No handler is running. -/
def idle : Bool := s.queue.isEmpty && s.tasks.isEmpty

/-- The next queued event, or the next task when there is none. -/
def proceed (answer : Answer) : Option Machine :=
  match s.queue, s.tasks with
  | e :: queue, _ => some ((s.setQueue queue).process e answer)
  | [], t :: tasks => some ((s.setTasks tasks).runTask t answer)
  | [], [] => none

/-- What starts when no handler is running. -/
def begun : Act → Option Machine
  | .start => some (s.process .start {})
  | .call call => some (s.process call.event {})
  | .complete i received err => do
    let op ← s.ops[i]?
    if s.mayComplete op.kind received err then
      some ((s.setOps (s.ops.eraseIdx i)).completed op received err)
    else none
  | .timer i err => do
    let t ← s.timers[i]?
    if t.completes s.now err then some ((s.setTimers (s.timers.eraseIdx i)).timedOut t err)
    else none
  | .delay i err => do
    let d ← s.delays[i]?
    if d.cancelled || !err then some ((s.setDelays (s.delays.eraseIdx i)).delayed d err)
    else none
  | _ => none

def step (a : Act) : Option Machine :=
  if s.crashed then none
  else
    match a with
    | .clock elapsed => some (s.tick elapsed)
    | .proceed answer => s.proceed answer
    | a => if s.idle then s.begun a else none

end Machine

end MediafireSdk.Http
