import MediafireSdk.Lib.Runs
import MediafireSdk.Uploader.Manager
import MediafireSdk.Uploader.Upload

/-! The upload manager with its machines on an io_service run by several threads.
Each machine handles one event at a time; the thread that handles it runs through
the tasks of the transition, and between any two of them other threads may run
theirs: tasks of other machines, the two halves of a `Tick`, a token response, the
retry timer. Which event reaches a machine is left open, the start signals apart:
they are posted by the manager only. What machines raise is therefore dropped, and
a `Tick` called by `Add` may come at any time. -/

namespace MediafireSdk.Uploader

open Runs

/-- A machine with the tasks left of the event it handles. -/
structure Request where
  machine : UploadStateMachine
  todo : List Task := []

/-- `action_token_retry_timer_` with the numbers of its waits: about to start, waiting, and
finished or cancelled with the handler not yet run. -/
structure RetryTimer where
  expires : ℕ := 0
  arming : ℕ := 0
  waiting : ℕ := 0
  finished : ℕ := 0
  cancelled : ℕ := 0

/-- `ticks` is the number of `Tick`s posted or running that are not past `Tick_StartUploads`,
`halfTicks` of those between its two halves, `tokenRequests` of the calls for an action token
without a response. -/
structure Uploads where
  manager : UploadManagerImpl := {}
  request : ℕ → Request := fun _ => { machine := { pathFilename := "" } }
  added : ℕ := 0
  posted : List (ℕ × Event) := []
  ticks : ℕ := 0
  halfTicks : ℕ := 0
  tokenRequests : ℕ := 0
  timer : RetryTimer := {}
  now : ℕ := 0

/-- The events that the manager posts. -/
def isSignal : Event → Bool
  | .startHash | .startUpload _ => true
  | _ => false

namespace Uploads

def machine (s : Uploads) (i : ℕ) : UploadStateMachine := (s.request i).machine

def todo (s : Uploads) (i : ℕ) : List Task := (s.request i).todo

/-- `request->hash()`. -/
def hash (s : Uploads) (i : ℕ) : String := (s.machine i).hash

def setRequest (s : Uploads) (i : ℕ) (r : Request) : Uploads :=
  { s with request := Function.update s.request i r }

/-- `process_event` of a machine that handles no other event; nothing follows undefined
behaviour. -/
def processEvent (s : Uploads) (i : ℕ) (w : World) (evt : Event) : Option Uploads :=
  let effects := (s.machine i).fire w evt
  if s.todo i = [] ∧ .halted ∉ effects then
    some (s.setRequest i { machine := s.machine i, todo := tasks effects })
  else none

/-- One task of machine `i`, with `todo` left after it. -/
def runTask (s : Uploads) (i : ℕ) (todo : List Task) : Task → Uploads
  | .own x => s.setRequest i { machine := (s.machine i).apply x, todo := todo }
  | .body c =>
    { s.setRequest i { machine := s.machine i, todo := todo } with
      manager := s.manager.body i (s.hash i) c }
  | .enqueueTick =>
    { s.setRequest i { machine := s.machine i, todo := todo } with ticks := s.ticks + 1 }

/-- `Tick_StartUploads`, after which its `Tick` is half done. -/
def tickStartUploads (s : Uploads) : Uploads :=
  let (manager, started) := s.manager.tickStartUploads s.hash s.now
  let s := { s with manager := manager, halfTicks := s.halfTicks + 1 }
  match started with
  | .nothing => s
  | .getActionToken => { s with tokenRequests := s.tokenRequests + 1 }
  | .startUpload i token => { s with posted := s.posted ++ [(i, .startUpload token)] }

def tickStartHashings (s : Uploads) : Uploads :=
  let (manager, started) := s.manager.tickStartHashings
  { s with
    manager := manager
    posted := s.posted ++ started.map fun i => (i, .startHash) }

/-- `HandleActionToken`. With an error, moving the expiry of the timer cancels its waits and a new
wait follows after the lock; else `Tick` follows. -/
def handleActionToken (s : Uploads) (response : Option String) : Uploads :=
  let manager := s.manager.handleActionToken response s.now
  match response with
  | none =>
    { s with
      manager := manager
      timer := { s.timer with
        expires := manager.actionTokenExpires
        arming := s.timer.arming + 1
        waiting := 0
        cancelled := s.timer.cancelled + s.timer.waiting } }
  | some _ => { s with manager := manager, ticks := s.ticks + 1 }

def actionTokenRetry (s : Uploads) (err : Bool) : Uploads :=
  let (manager, tick) := s.manager.actionTokenRetry err
  { s with
    manager := manager
    ticks := if tick then s.ticks + 1 else s.ticks }

/-- `event` is any event but the posted ones, `process` a posted one, `task` the next task of a
machine, `tick` a `Tick` that `Add` calls; `actionToken` is a response, `asyncWait` the wait that
`HandleActionToken` starts, `timerExpires` the end of all waits and `clock` the passing of
time. -/
inductive Act where
  | add (pathFilename : String) (cloudFileName : Option String)
      (onDuplicateAction : OnDuplicateAction)
  | event (i : ℕ) (w : World) (evt : Event)
  | process (k : ℕ) (w : World)
  | task (i : ℕ)
  | tick
  | tickStartUploads
  | tickStartHashings
  | actionToken (response : Option String)
  | asyncWait
  | timerExpires
  | actionTokenRetry (err : Bool)
  | clock (seconds : ℕ)

def step (s : Uploads) : Act → Option Uploads
  | .add pathFilename cloudFileName onDuplicateAction =>
    let machine := (Upload.create pathFilename cloudFileName onDuplicateAction).machine
    some { s.setRequest s.added { machine := machine } with
      manager := { s.manager with requests := insert s.added s.manager.requests }
      added := s.added + 1 }
  | .event i w evt => if i < s.added ∧ isSignal evt = false then s.processEvent i w evt else none
  | .process k w =>
    match s.posted[k]? with
    | none => none
    | some (i, evt) => { s with posted := s.posted.eraseIdx k }.processEvent i w evt
  | .task i =>
    match s.todo i with
    | [] => none
    | task :: todo => some (s.runTask i todo task)
  | .tick => some { s with ticks := s.ticks + 1 }
  | .tickStartUploads =>
    if 0 < s.ticks then some { s with ticks := s.ticks - 1 }.tickStartUploads else none
  | .tickStartHashings =>
    if 0 < s.halfTicks then some { s with halfTicks := s.halfTicks - 1 }.tickStartHashings else none
  | .actionToken response =>
    if 0 < s.tokenRequests then
      some ({ s with tokenRequests := s.tokenRequests - 1 }.handleActionToken response)
    else none
  | .asyncWait =>
    if 0 < s.timer.arming then
      some { s with timer := { s.timer with
        arming := s.timer.arming - 1, waiting := s.timer.waiting + 1 } }
    else none
  | .timerExpires =>
    if s.timer.expires ≤ s.now then
      some { s with timer := { s.timer with
        waiting := 0, finished := s.timer.finished + s.timer.waiting } }
    else none
  | .actionTokenRetry false =>
    if 0 < s.timer.finished then
      some ({ s with timer := { s.timer with
        finished := s.timer.finished - 1 } }.actionTokenRetry false)
    else none
  | .actionTokenRetry true =>
    if 0 < s.timer.cancelled then
      some ({ s with timer := { s.timer with
        cancelled := s.timer.cancelled - 1 } }.actionTokenRetry true)
    else none
  | .clock seconds => some { s with now := s.now + seconds }

end Uploads

end MediafireSdk.Uploader
