import MediafireSdk.Http.ReadHeaders
import MediafireSdk.Http.Requests
import MediafireSdk.Lib.Runs

/-! The state machine of a request (`http_request_state_machine.hpp` and the states in
`state_*.hpp`). Handlers run one at a time. An event that is raised inside a transition waits
in a queue until the transition is over; one that a handler raises outside of a transition is
processed at once, so a handler is a list of tasks, and the next task waits until the queue is
empty. A step runs one transition or one task, or starts a handler: a call of the user, an
operation or a timer that completes. The clock counts nanoseconds. -/

namespace MediafireSdk.Http

open Words

/-! ### States and events -/

inductive StateName where
  | unstarted | initializing | resolve | connect | proxyConnect | sslHandshake | sendHeader
  | sendPost | readHeaders | parseHeaders | redirect | readContent | error | finalError | complete
  deriving DecidableEq, Repr

/-- The terminate states. -/
def StateName.isTerminate : StateName → Bool
  | .finalError | .complete => true
  | _ => false

/-- What a name was resolved to: the proxy that was asked for, or none for the server itself. -/
structure Endpoint where
  host : String
  port : String
  proxy : Option Proxy
  deriving DecidableEq, Repr

inductive Event where
  | start | initialized | connected | handshake | headersWritten | postSent | redirected
  | contentRead | restart
  | resolved (endpoint : Endpoint)
  | headersRead (evt : HeadersReadEvent)
  | headersParsed (evt : HeadersParsedEvent)
  | redirect (evt : HeadersReadEvent) (redirectUrl : String)
  | error (evt : ErrorEvent)
  deriving DecidableEq, Repr

/-- A state with what its `on_entry` takes from the event. -/
inductive Target where
  | initializing | resolve | proxyConnect | sslHandshake | sendHeader | sendPost | readHeaders
  | complete
  | connect (endpoint : Endpoint)
  | parseHeaders (evt : HeadersReadEvent)
  | redirect (evt : HeadersReadEvent) (redirectUrl : String)
  | readContent (evt : HeadersParsedEvent)
  | error (evt : ErrorEvent)
  | finalError (evt : ErrorEvent)
  deriving DecidableEq, Repr

def Target.state : Target → StateName
  | .initializing => .initializing
  | .resolve => .resolve
  | .proxyConnect => .proxyConnect
  | .sslHandshake => .sslHandshake
  | .sendHeader => .sendHeader
  | .sendPost => .sendPost
  | .readHeaders => .readHeaders
  | .complete => .complete
  | .connect _ => .connect
  | .parseHeaders _ => .parseHeaders
  | .redirect _ _ => .redirect
  | .readContent _ => .readContent
  | .error _ => .error
  | .finalError _ => .finalError

/-! ### Operations, timers and tasks -/

inductive OpKind where
  | resolve (endpoint : Endpoint)
  | connect | proxyWrite | proxyRead | handshake | headerWrite | postWrite | headerRead
  | content (op : AsyncOp)
  deriving DecidableEq, Repr

/-- A pending operation: whose data its handler has, its race preventer, and what it is. -/
structure Op where
  owner : ℕ
  race : ℕ
  kind : OpKind
  deriving DecidableEq, Repr

/-- A wait on the timeout timer. When it is cancelled after its time has come its handler may be
on its way already. -/
inductive Wait where
  | running | late | aborted
  deriving DecidableEq, Repr

structure Timeout where
  race : ℕ
  id : ℕ
  deadline : ℕ
  wait : Wait := .running
  deriving DecidableEq, Repr

def Timeout.cancel (now : ℕ) (t : Timeout) : Timeout :=
  if t.wait = .running then { t with wait := if t.deadline ≤ now then .late else .aborted } else t

/-- A wait can complete, with an error or without. -/
def Timeout.completes (now : ℕ) (t : Timeout) (err : Bool) : Bool :=
  match t.wait with
  | .running => !err && t.deadline ≤ now
  | .late => true
  | .aborted => err

inductive DelayKind where
  | post (postData : List UInt8)
  | content (op : AsyncOp)
  deriving DecidableEq, Repr

/-- A wait on the transmission delay timer. -/
structure Delay where
  owner : ℕ
  kind : DelayKind
  cancelled : Bool := false
  deriving DecidableEq, Repr

/-- What a handler has still to do. -/
inductive Task where
  | event (e : Event)
  | content (startPos : ℕ) (buffer : Buffer)
  | start (owner : ℕ) (op : AsyncOp)
  | delayPost (owner : ℕ) (postData : List UInt8)
  | pipe (owner : ℕ)
  deriving DecidableEq, Repr

/-- What a callback or the pipe calls on the request. -/
inductive Call where
  | cancel
  | fail (code : ErrorCode) (description : String)
  deriving DecidableEq, Repr

def Call.event : Call → Event
  | .cancel => .error ⟨.http .cancelled, "Cancelled"⟩
  | .fail code description => .error ⟨code, description⟩

/-- What the pipe gives: a chunk, empty at the end, or an exception. -/
inductive PipeChunk where
  | data (bytes : List UInt8)
  | throws (what : String)
  deriving DecidableEq, Repr

/-- What the user's code does when a step runs it. -/
structure Answer where
  calls : List Call := []
  chunk : PipeChunk := .data []
  deriving DecidableEq, Repr

/-- What is seen from outside, and the transitions. -/
inductive Entry where
  | redirectHeaderReceived (evt : HeadersReadEvent) (newUrl : Url)
  | responseHeaderReceived (evt : HeadersReadEvent)
  | responseContentReceived (startPos : ℕ) (buffer : Buffer)
  | requestResponseErrorEvent (evt : ErrorEvent)
  | requestResponseCompleteEvent
  | entered (source : StateName) (target : StateName)
  | noTransition (source : StateName) (e : Event)
  | resolving (url : Url)
  | connecting (url : Url)
  | wrote (proxy : Option Proxy) (tunnelled : Bool) (request : Request)
  | wrotePost (postData : List UInt8)
  deriving DecidableEq, Repr

/-! ### The machine -/

structure Config where
  originalUrl : String
  httpProxy : Option Proxy := none
  httpsProxy : Option Proxy := none
  redirectPolicy : RedirectPolicy := .allow
  requestMethod : String := "GET"
  headers : List (String × String) := []
  post : Option Post := none
  timeoutSeconds : ℕ := 60
  /-- The callbacks run on the service of the work, inside of the handlers. -/
  sameIoService : Bool := true
  bwAnalyser : Bool := false
  gunzip : List UInt8 → Except GunzipError (List UInt8)

/-- A socket, the proxy it connects to, and whether that proxy has established a tunnel. -/
structure Socket where
  proxy : Option Proxy := none
  tunnelled : Bool := false
  deriving DecidableEq, Repr

/-- `SendPostData`. -/
structure SendPostData where
  postInterfaceSize : ℕ := 0
  bytesReadFromInterface : ℕ := 0
  deriving DecidableEq, Repr

structure Machine where
  cfg : Config
  requestCreationTime : ℕ
  now : ℕ
  url : String
  state : StateName := .unstarted
  parsedUrl : Option Url := none
  isSsl : Bool := false
  socket : Option Socket := none
  timeoutId : ℕ := 0
  timeoutReason : String := ""
  transmissionDelayTimerEnabled : Bool := false
  /-- The owner number of the data of the current state, until its `on_exit` cancels it. -/
  live : Option ℕ := none
  sendPostData : SendPostData := {}
  readContentData : ReadContentData := {}
  /-- The next number for data or a race preventer. -/
  fresh : ℕ := 0
  /-- The race preventers whose first is taken. -/
  taken : List ℕ := []
  ops : List Op := []
  timers : List Timeout := []
  delays : List Delay := []
  queue : List Event := []
  tasks : List Task := []
  /-- A null pointer was followed. -/
  crashed : Bool := false
  log : List Entry := []

def second : ℕ := 1000000000

def kResolvingTimeout : ℕ := 30
def kSslHandshakeTimeout : ℕ := 30
def kConnectTimeout : ℕ := 30
def kProxyWriteTimeout : ℕ := 30
def kProxyReadTimeout : ℕ := 30

/-- A request that was made at the time. -/
def Machine.create (cfg : Config) (time : ℕ) : Machine where
  cfg := cfg
  requestCreationTime := time
  now := time
  url := cfg.originalUrl

namespace Machine
variable (s : Machine)

/-! ### Helper actions -/

@[simps] def record (entry : Entry) : Machine := { s with log := s.log ++ [entry] }

/-- `ProcessEvent` inside a transition. -/
@[simps] def raiseAll (events : List Event) : Machine := { s with queue := s.queue ++ events }

/-- `ProcessEvent` of a handler, and what comes behind it. -/
@[simps] def next (tasks : List Task) : Machine := { s with tasks := tasks ++ s.tasks }

@[simps] def disconnect : Machine := { s with socket := none }

@[simps] def crash : Machine := { s with crashed := true }

/-- The proxy in use, if any. -/
def currentProxy : Option Proxy := if s.isSsl then s.cfg.httpsProxy else s.cfg.httpProxy

def proxyConnectRequired : Bool :=
  match s.currentProxy with
  | some proxy => proxy.username ≠ "" || s.isSsl
  | none => false

/-- New data for the state that is entered. -/
@[simps] def begin : Machine := { s with live := some s.fresh, fresh := s.fresh + 1 }

/-- `IsFirst` of a race preventer. -/
@[simps] def take (race : ℕ) : Machine := { s with taken := race :: s.taken }

@[simps] def clearAsyncTimeout : Machine :=
  { s with
    timeoutId := (s.timeoutId + 1) % 2 ^ 32
    timers := s.timers.map (Timeout.cancel s.now) }

/-- `SetAsyncTimeout`, and the operation that it guards. The race preventer follows the pointer
to the socket. -/
@[simps] def async (owner : ℕ) (reason : String) (timeoutSeconds : ℕ) (kind : OpKind) : Machine :=
  { s with
    crashed := s.crashed || s.socket.isNone
    fresh := s.fresh + 1
    timeoutId := (s.timeoutId + 1) % 2 ^ 32
    timeoutReason := reason
    timers := s.timers.map (Timeout.cancel s.now) ++
      [{ race := s.fresh, id := (s.timeoutId + 1) % 2 ^ 32
         deadline := s.now + timeoutSeconds * second }]
    ops := s.ops ++ [{ owner := owner, race := s.fresh, kind := kind }] }

/-- `SetTransactionDelayTimer`, and the wait on it. -/
@[simps] def delay (owner : ℕ) (kind : DelayKind) : Machine :=
  { s with
    transmissionDelayTimerEnabled := true
    delays := s.delays.map ({ · with cancelled := true }) ++ [{ owner := owner, kind := kind }] }

/-- The calls that a callback gets in while a step runs it. -/
def callbackCalls (answer : Answer) : List Event :=
  if s.cfg.sameIoService then answer.calls.map Call.event else []

end Machine

end MediafireSdk.Http
