import MediafireSdk.Uploader.ChunkUpload

/-! Effects of the upload state machine as data. A transition is a list of
effects in program order: writes of the machine's own members, calls of the
callback interface, statuses, API requests and raised events. Whoever runs the
machine executes the list, in one go or interleaved with other machines. -/

namespace MediafireSdk.Uploader

open Ranges

/-- The requests a machine starts, with what it puts in them. Target folder and URL are left
out. -/
inductive ApiRequest where
  | uploadCheck (filename hash : String) (filesize : ℕ) (resumable : Bool)
  | uploadInstant (filename hash : String) (filesize : ℕ) (actionOnDuplicate : OnDuplicateAction)
  | simpleUpload (request : PostRequest)
  | chunkUpload (chunkId : ℕ) (request : PostRequest)
  | pollUpload (uploadKey : String)
  deriving DecidableEq, Repr

/-- `UploadStateMachineCallbackInterface`. -/
inductive Callback where
  | handleAddToHash | handleRemoveToHash
  | handleAddToUpload | handleRemoveToUpload
  | handleComplete
  | incrementHashingCount | decrementHashingCount
  | incrementUploadingCount | decrementUploadingCount
  deriving DecidableEq, Repr

/-- One assignment to data members. -/
inductive Write where
  | state (s : State)
  | filesize (size : ℕ)
  | mtime (time : ℤ)
  | completeHashData (hash : String) (ranges : List Range) (hashes : List String)
  | actionToken (token : String)
  | countState (cs : CountState)
  | chunkStates (states : List ChunkState)
  | chunkState (chunkId : ℕ) (chunkState : ChunkState)
  | uploadRequest (held : Bool)
  | uploadKey (key : String)
  deriving DecidableEq, Repr

/-- `processEvent` goes through the strand, `processEventNow` is a nested `process_event`, and
`postEvent` a post to the io_service. `halted` ends all defined behaviour: undefined behaviour,
an exception, or a loop that never ends. -/
inductive Effect where
  | write (w : Write)
  | callback (c : Callback)
  | sendStatus (s : UploadState)
  | call (r : ApiRequest)
  | cancelRequest
  | processEvent (e : Event)
  | processEventNow (e : Event)
  | postEvent (e : Event)
  | startTimer (uploadKey : String)
  | noTransition (s : State) (e : Event)
  | assertion (text : String)
  | halted
  deriving DecidableEq, Repr

/-- A failed assertion is an effect; a build without assertions goes on after it. -/
def assertThat (p : Prop) [Decidable p] (text : String) : List Effect :=
  if p then [] else [.assertion text]

@[simp] theorem assertThat_true {p : Prop} [Decidable p] (h : p) (text : String) :
    assertThat p text = [] := if_pos h

theorem mem_assertThat {p : Prop} [Decidable p] {text : String} {x : Effect}
    (h : x ∈ assertThat p text) : x = .assertion text := by
  unfold assertThat at h
  split_ifs at h
  · cases h
  · exact List.mem_singleton.mp h

namespace UploadStateMachine

def write (m : UploadStateMachine) : Write → UploadStateMachine
  | .state s => { m with state := s }
  | .filesize size => { m with filesize := size }
  | .mtime time => { m with mtime := time }
  | .completeHashData hash ranges hashes =>
    { m with hash := hash, chunkRanges := ranges, chunkHashes := hashes }
  | .actionToken token => { m with actionToken := token }
  | .countState cs => { m with countState := cs }
  | .chunkStates states => { m with chunkStates := states }
  | .chunkState chunkId cs => { m with chunkStates := m.chunkStates.set chunkId cs }
  | .uploadRequest held => { m with uploadRequest := held }
  | .uploadKey key => { m with uploadKey := key }

/-- The machine after an effect; only writes change it. -/
def apply (m : UploadStateMachine) : Effect → UploadStateMachine
  | .write w => m.write w
  | _ => m

def applyAll (m : UploadStateMachine) (effects : List Effect) : UploadStateMachine :=
  effects.foldl apply m

@[simp] theorem applyAll_nil (m : UploadStateMachine) : m.applyAll [] = m := rfl

@[simp] theorem applyAll_cons (m : UploadStateMachine) (x : Effect) (xs : List Effect) :
    m.applyAll (x :: xs) = (m.apply x).applyAll xs := rfl

@[simp] theorem applyAll_append (m : UploadStateMachine) (xs ys : List Effect) :
    m.applyAll (xs ++ ys) = (m.applyAll xs).applyAll ys := List.foldl_append

/-- What no effect of a list changes is the same after the list. -/
theorem applyAll_same {β : Type*} (f : UploadStateMachine → β) {m : UploadStateMachine}
    {effects : List Effect} (h : ∀ x ∈ effects, ∀ m' : UploadStateMachine, f (m'.apply x) = f m') :
    f (m.applyAll effects) = f m := by
  induction effects generalizing m with
  | nil => rfl
  | cons x xs ih =>
    rw [applyAll_cons, ih fun y hy => h y (List.mem_cons_of_mem _ hy)]
    exact h x List.mem_cons_self m

/-- Effects that do not write the state leave it. -/
theorem applyAll_state {m : UploadStateMachine} {effects : List Effect}
    (h : ∀ s, .write (.state s) ∉ effects) : (m.applyAll effects).state = m.state := by
  refine applyAll_same (·.state) fun x hx m' => ?_
  cases x with
  | write w =>
    cases w with
    | state s => exact absurd hx (h s)
    | _ => rfl
  | _ => rfl

/-- `SetCountState`. -/
def setCountState (m : UploadStateMachine) (cs : CountState) : List Effect :=
  (match m.countState with
    | .none => []
    | .hashing => [.callback .decrementHashingCount]
    | .uploading => [.callback .decrementUploadingCount]) ++
  (match cs with
    | .none => []
    | .hashing => [.callback .incrementHashingCount]
    | .uploading => [.callback .incrementUploadingCount]) ++
  [.write (.countState cs)]

theorem mem_setCountState {m : UploadStateMachine} {cs : CountState} {x : Effect}
    (h : x ∈ m.setCountState cs) : (∃ c, x = .callback c) ∨ x = .write (.countState cs) := by
  unfold setCountState at h
  rcases List.mem_append.mp h with h | h
  · rcases List.mem_append.mp h with h | h
    all_goals
      split at h
      · cases h
      all_goals exact .inl ⟨_, List.mem_singleton.mp h⟩
  · exact .inr (List.mem_singleton.mp h)

/-- `SetChunkState`. -/
def setChunkState (m : UploadStateMachine) (chunkId : ℕ) (cs : ChunkState) : List Effect :=
  if chunkId < m.chunkStates.length then [.write (.chunkState chunkId cs)]
  else
    [.assertion "chunk_id < chunk_states_.size()",
      .processEvent (.error (.upload .logicError) "Requested chunk to set not in range.")]

end UploadStateMachine

end MediafireSdk.Uploader
