import MediafireSdk.Uploader.Transitions
import Mathlib.Data.Finset.Card

/-! `UploadManagerImpl` (`detail/upload_manager_impl.cpp`), one definition for each
mutex-protected section. What a section posts to the io_service or calls after the
lock is returned beside the new members. A request is a number, the order in which
it was added. The destructor, with `disable_enqueue_`, and the assertions of
`Tick_StartUploads` are left out. -/

namespace MediafireSdk.Uploader

open Words

inductive ActionTokenState where
  | invalid | retrieving | error | valid
  deriving DecidableEq, Repr

/-- Times are seconds of the steady clock. -/
def kActionTokenRetry : ℕ := 15

/-- `1440/4*3` minutes. -/
def kActionTokenLife : ℕ := 1440 / 4 * 3 * 60

/-- The deques are lists with the front first; the counters are `uint32_t`. -/
structure UploadManagerImpl where
  toHash : List ℕ := []
  toUpload : List ℕ := []
  uploadingHashes : Finset String := ∅
  requests : Finset ℕ := ∅
  actionToken : String := ""
  actionTokenExpires : ℕ := 0
  actionTokenState : ActionTokenState := .invalid
  maxConcurrentHashings : ℕ := 2
  maxConcurrentUploads : ℕ := 2
  enqueuedToStartHashings : Finset ℕ := ∅
  enqueuedToStartUploads : Finset ℕ := ∅
  currentHashings : ℕ := 0
  currentUploads : ℕ := 0

namespace UploadManagerImpl

/-! ### Tick -/

/-- The condition of the loop in `Tick_StartHashings`. -/
def CanHashMore (um : UploadManagerImpl) : Prop :=
  um.currentHashings + um.enqueuedToStartHashings.card < um.maxConcurrentHashings

/-- `CanUploadMore` in `Tick_StartUploads`. -/
def CanUploadMore (um : UploadManagerImpl) : Prop :=
  um.currentUploads + um.enqueuedToStartUploads.card < um.maxConcurrentUploads

instance (um : UploadManagerImpl) : Decidable um.CanHashMore := inferInstanceAs (Decidable (_ < _))

instance (um : UploadManagerImpl) : Decidable um.CanUploadMore :=
  inferInstanceAs (Decidable (_ < _))

/-- One iteration of the loop in `Tick_StartHashings`: the request whose start it posts. -/
def startHashing (um : UploadManagerImpl) : Option (ℕ × UploadManagerImpl) :=
  match um.toHash with
  | [] => none
  | request :: toHash =>
    if um.CanHashMore then
      some (request, { um with
        toHash := toHash
        enqueuedToStartHashings := insert request um.enqueuedToStartHashings })
    else none

/-- The loop, which every iteration brings closer to the end of `to_hash_`. -/
def startHashings : ℕ → UploadManagerImpl → UploadManagerImpl × List ℕ
  | 0, um => (um, [])
  | fuel + 1, um =>
    match um.startHashing with
    | none => (um, [])
    | some (request, um) =>
      let (um, posted) := startHashings fuel um
      (um, request :: posted)

/-- `Tick_StartHashings`, with the requests for which `StartHash` is posted. -/
def tickStartHashings (um : UploadManagerImpl) : UploadManagerImpl × List ℕ :=
  startHashings um.toHash.length um

/-- What `Tick_StartUploads` does apart from its members: nothing, a call for an action token, or
a posted `StartUpload`. -/
inductive StartedUpload where
  | nothing
  | getActionToken
  | startUpload (request : ℕ) (token : String)
  deriving DecidableEq, Repr

/-- `Tick_StartUploads`, at most one start; `hash` gives `request->hash()`. -/
def tickStartUploads (um : UploadManagerImpl) (hash : ℕ → String) (now : ℕ) :
    UploadManagerImpl × StartedUpload :=
  if um.toUpload = [] then (um, .nothing)
  else if um.actionTokenState ≠ .valid ∨ um.actionTokenExpires < now then
    if um.actionTokenState = .error ∧ now < um.actionTokenExpires then (um, .nothing)
    else ({ um with actionTokenState := .retrieving }, .getActionToken)
  else if um.CanUploadMore then
    match um.toUpload.find? fun request => hash request ∉ um.uploadingHashes with
    | none => (um, .nothing)
    | some request =>
      ({ um with
          toUpload := um.toUpload.erase request
          uploadingHashes := insert (hash request) um.uploadingHashes
          enqueuedToStartUploads := insert request um.enqueuedToStartUploads },
        .startUpload request um.actionToken)
  else (um, .nothing)

/-! ### The action token -/

/-- `HandleActionToken`; `none` is a response with an error code. -/
def handleActionToken (um : UploadManagerImpl) (response : Option String) (now : ℕ) :
    UploadManagerImpl :=
  match response with
  | none =>
    { um with
      actionTokenState := .error
      actionTokenExpires := now + kActionTokenRetry }
  | some actionToken =>
    { um with
      actionTokenState := .valid
      actionToken := actionToken
      actionTokenExpires := now + kActionTokenLife }

/-- `ActionTokenRetry`; whether it goes on to `Tick`. -/
def actionTokenRetry (um : UploadManagerImpl) (err : Bool) : UploadManagerImpl × Bool :=
  if err = false ∧ um.actionTokenState = .error then
    ({ um with actionToken := "", actionTokenState := .invalid }, true)
  else (um, false)

/-! ### Callbacks -/

def handleAddToHash (um : UploadManagerImpl) (request : ℕ) : UploadManagerImpl :=
  { um with toHash := um.toHash ++ [request] }

def handleRemoveToHash (um : UploadManagerImpl) (request : ℕ) : UploadManagerImpl :=
  { um with toHash := um.toHash.erase request }

def handleAddToUpload (um : UploadManagerImpl) (request : ℕ) : UploadManagerImpl :=
  { um with toUpload := um.toUpload ++ [request] }

def handleRemoveToUpload (um : UploadManagerImpl) (request : ℕ) : UploadManagerImpl :=
  { um with toUpload := um.toUpload.erase request }

/-- `hash` is the hash of the request. -/
def handleComplete (um : UploadManagerImpl) (request : ℕ) (hash : String) : UploadManagerImpl :=
  { um with
    enqueuedToStartHashings := um.enqueuedToStartHashings.erase request
    enqueuedToStartUploads := um.enqueuedToStartUploads.erase request
    requests := um.requests.erase request
    uploadingHashes :=
      if hash ≠ "" then um.uploadingHashes.erase hash else um.uploadingHashes }

def incrementHashingCount (um : UploadManagerImpl) (request : ℕ) : UploadManagerImpl :=
  { um with
    currentHashings := increment 32 um.currentHashings
    enqueuedToStartHashings := um.enqueuedToStartHashings.erase request }

def decrementHashingCount (um : UploadManagerImpl) : UploadManagerImpl :=
  { um with currentHashings := decrement 32 um.currentHashings }

def incrementUploadingCount (um : UploadManagerImpl) (request : ℕ) : UploadManagerImpl :=
  { um with
    currentUploads := increment 32 um.currentUploads
    enqueuedToStartUploads := um.enqueuedToStartUploads.erase request }

def decrementUploadingCount (um : UploadManagerImpl) : UploadManagerImpl :=
  { um with currentUploads := decrement 32 um.currentUploads }

/-- The section of a callback that changes members. -/
def body (um : UploadManagerImpl) (request : ℕ) (hash : String) : Callback → UploadManagerImpl
  | .handleAddToHash => um.handleAddToHash request
  | .handleRemoveToHash => um.handleRemoveToHash request
  | .handleAddToUpload => um.handleAddToUpload request
  | .handleRemoveToUpload => um.handleRemoveToUpload request
  | .handleComplete => um.handleComplete request hash
  | .incrementHashingCount => um.incrementHashingCount request
  | .decrementHashingCount => um.decrementHashingCount
  | .incrementUploadingCount => um.incrementUploadingCount request
  | .decrementUploadingCount => um.decrementUploadingCount

end UploadManagerImpl

/-! ### Tasks -/

/-- What the thread that handles an event does without giving other threads a chance: an effect
on its own machine, the section of a callback, or `EnqueueTick`. -/
inductive Task where
  | own (x : Effect)
  | body (c : Callback)
  | enqueueTick
  deriving DecidableEq, Repr

/-- The sections of a callback in the order they run. The decrements post their tick first. -/
def Callback.tasks : Callback → List Task
  | .incrementHashingCount => [.body .incrementHashingCount]
  | .incrementUploadingCount => [.body .incrementUploadingCount]
  | .decrementHashingCount => [.enqueueTick, .body .decrementHashingCount]
  | .decrementUploadingCount => [.enqueueTick, .body .decrementUploadingCount]
  | c => [.body c, .enqueueTick]

def Effect.tasks : Effect → List Task
  | .callback c => c.tasks
  | x => [.own x]

def tasks (effects : List Effect) : List Task := effects.flatMap Effect.tasks

@[simp] theorem tasks_nil : tasks [] = [] := rfl

@[simp] theorem tasks_cons (x : Effect) (xs : List Effect) :
    tasks (x :: xs) = x.tasks ++ tasks xs := rfl

@[simp] theorem tasks_append (xs ys : List Effect) : tasks (xs ++ ys) = tasks xs ++ tasks ys :=
  List.flatMap_append

end MediafireSdk.Uploader
