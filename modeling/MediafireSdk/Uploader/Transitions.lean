import MediafireSdk.Uploader.Effects

/-! The transitions of `UploadStateMachine_`: entry and exit actions of its
states, the actions of its rows and the transition table. As boost::msm runs
them, the exit action of the source comes first, then the action of the row, then
the entry action of the target, and the state changes last. Each part reads the
members as the part before left them. Accessors are modelled without the
assertions that their member is set. -/

namespace MediafireSdk.Uploader

open Ranges Words Utils

/-! ### What a transition reads from outside -/

/-- `file_size` and `last_write_time`, or the system error of either. -/
structure FileStat where
  fileSize : Except ℤ ℕ
  lastWriteTime : Except ℤ ℤ

/-- The file system, the random pick and the hash function during one transition. `statAfter`
is what the second look of a transition at the file sees. -/
structure World where
  stat : FileStat
  statAfter : FileStat
  openFile : Except ErrorCode FileIO
  pick : ℕ
  sha256 : List UInt8 → String

/-! ### Exit and entry actions -/

/-- `Initial::on_exit`; both queries return -1 in their type with an error. -/
def initialOnExit (stat : FileStat) : List Effect :=
  match stat.fileSize with
  | .error value =>
    [.write (.filesize (2 ^ 64 - 1)),
      .processEvent (.error (.system value) "Filsize unavailable.")]
  | .ok filesize =>
    .write (.filesize filesize) ::
      match stat.lastWriteTime with
      | .error value =>
        [.write (.mtime (-1)), .processEvent (.error (.system value) "Mtime unavailable.")]
      | .ok mtime =>
        .write (.mtime mtime) ::
          if filesize = 0 then
            [.processEvent (.error (.upload .zeroByteFile) "API does not support empty files")]
          else []

def onExit (w : World) (m : UploadStateMachine) (source : State) : List Effect :=
  match source with
  | .initial => initialOnExit w.stat
  | .waitForHashSignal => [.callback .handleRemoveToHash]
  | .waitForUploadSignal => [.callback .handleRemoveToUpload]
  | .uploadChunk => if m.uploadRequest then [.cancelRequest, .write (.uploadRequest false)] else []
  | _ => []

/-- `SetupHasher::on_entry`. -/
def setupHasherOnEntry (m : UploadStateMachine) : List Effect :=
  m.setCountState .hashing ++
    match chunkRanges m.filesize with
    | none => [.halted]
    | some ranges =>
      [.processEvent (.hashStartHash
        { filesize := m.filesize, mtime := m.mtime, chunkRanges := ranges })]

/-- `UploadChunk::on_entry` of a `ChunkSuccess`. -/
def chunkSuccessOnEntry (m : UploadStateMachine) (chunkId : ℕ) (uploadKey : String) :
    List Effect :=
  assertThat (m.chunkStates[chunkId]? = some .uploading)
      "fsm.GetChunkState(evt.chunk_id) == ChunkState::Uploading" ++
    assertThat (uploadKey ≠ "") "! evt.upload_key.empty()" ++
    (if m.uploadKey = "" then [.write (.uploadKey uploadKey)] else []) ++
    m.setChunkState chunkId .uploaded

/-- `CompleteWithSuccess::on_entry`. -/
def completeWithSuccessOnEntry (m : UploadStateMachine) (quickkey filename : String)
    (newDeviceRevision : Option ℕ) : List Effect :=
  assertThat (quickkey ≠ "") "!evt.quickkey.empty()" ++
    m.setCountState .none ++
    [.sendStatus (.complete quickkey filename m.hash newDeviceRevision),
      .callback .handleComplete]

/-- `CompleteWithError::on_entry`. -/
def completeWithErrorOnEntry (m : UploadStateMachine) (errorCode : ErrorCode)
    (description : String) : List Effect :=
  m.setCountState .none ++
    [.sendStatus (.error errorCode description (if m.hash = "" then none else some m.hash)),
      .callback .handleComplete]

def onEntry (m : UploadStateMachine) (target : State) (evt : Event) : List Effect :=
  match target, evt with
  | .waitForHashSignal, _ => [.callback .handleAddToHash, .sendStatus .enqueuedForHashing]
  | .setupHasher, _ => setupHasherOnEntry m
  | .hashing, .hashStartHash _ => [.sendStatus .hashing]
  | .waitForUploadSignal, _ => [.callback .handleAddToUpload, .sendStatus .enqueuedForUpload]
  | .inUploadCheck, .startUpload uploadActionToken =>
    assertThat (uploadActionToken ≠ "") "! evt.upload_action_token.empty()" ++
      .write (.actionToken uploadActionToken) ::
        (m.setCountState .uploading ++ [.sendStatus .uploading])
  | .uploadChunk, .chunkSuccess chunkId uploadKey => chunkSuccessOnEntry m chunkId uploadKey
  | .pollUpload, _ => [.sendStatus .polling]
  | .completeWithSuccess, .alreadyUploaded quickkey filename =>
    completeWithSuccessOnEntry m quickkey filename none
  | .completeWithSuccess, .instantSuccess quickkey filename newDeviceRevision =>
    completeWithSuccessOnEntry m quickkey filename (some newDeviceRevision)
  | .completeWithSuccess, .pollComplete quickkey filename newDeviceRevision =>
    completeWithSuccessOnEntry m quickkey filename (some newDeviceRevision)
  | .completeWithError, .error errorCode description =>
    completeWithErrorOnEntry m errorCode description
  | .completeWithError, .hashError errorCode description =>
    completeWithErrorOnEntry m errorCode description
  | _, _ => []

/-! ### Actions -/

/-- `VerifyFileUnchanged`: the error event it processes, none when the file is unchanged. -/
def verifyFileUnchanged (stat : FileStat) (state : HasherStateData) : Option Event :=
  match stat.lastWriteTime with
  | .error value => some (.hashError (.system value) "Unable to get file mtime.")
  | .ok mtime =>
    if mtime ≠ state.mtime then
      some (.hashError (.fileIo .fileModified) "Mtime changed from expected value.")
    else
      match stat.fileSize with
      | .error value => some (.hashError (.system value) "Unable to get filesize.")
      | .ok filesize =>
        if filesize ≠ state.filesize then
          some (.hashError (.fileIo .fileModified) "Filesize changed from expected value.")
        else none

/-- `OpenFile`. -/
def openFile (w : World) (state : HasherStateData) : List Effect :=
  match w.openFile with
  | .error ec => [.processEventNow (.hashError ec "Unable to open file.")]
  | .ok fileIo => [.processEventNow (.hashReadNext state fileIo 0)]

/-- The end of `ReadFile` at the end of the file. -/
def finishHash (w : World) (state : HasherStateData) : List Effect :=
  let (sha256Hash, primaryHasher) := state.primaryHasher.digest w.sha256
  let state := { state with primaryHasher := primaryHasher }
  assertThat (state.chunkRanges.length = state.chunkHashes.length)
      "state->chunk_ranges.size() == state->chunk_hashes.size()" ++
    match verifyFileUnchanged w.statAfter state with
    | some e => [.processEventNow e]
    | none => [.processEventNow (.hashSuccess state sha256Hash)]

/-- `ReadFile`. -/
def readFile (w : World) (state : HasherStateData) (fileIo : FileIO) (readBytePos : ℕ) :
    List Effect :=
  match verifyFileUnchanged w.stat state with
  | some e => [.processEventNow e]
  | none =>
    match fileIo.read (1024 * 8) with
    | (bytes, some .endOfFile, _) =>
      match parseRead w.sha256 state readBytePos bytes with
      | .error _ => [.halted]
      | .ok (_, state) => finishHash w state
    | (_, some ec, _) =>
      [.processEventNow (.hashError (.fileIo ec) "Error occured during file read.")]
    | (bytes, none, fileIo) =>
      match parseRead w.sha256 state readBytePos bytes with
      | .error _ => [.halted]
      | .ok (totalBytesRead, state) => [.postEvent (.hashReadNext state fileIo totalBytesRead)]

/-- `Check`. -/
def check (m : UploadStateMachine) : List Effect :=
  [.call (.uploadCheck m.filename m.hash m.filesize (1 < m.chunkRanges.length))]

/-- `DoSimpleUpload`; the seek to the beginning cannot fail. -/
def doSimpleUpload (w : World) (m : UploadStateMachine) : List Effect :=
  match w.openFile with
  | .error ec => [.processEvent (.error ec "Unable to open file.")]
  | .ok fileIo =>
    match fileIo.seek .beginning 0 with
    | (some ec, _) => [.processEvent (.error (.fileIo ec) "Seek file failed.")]
    | (none, fileIo) =>
      let headers := [("Content-Type", "application/octet-stream"),
        ("x-filename", m.filename), ("x-filesize", toString m.filesize)]
      [.call (.simpleUpload ⟨headers, .create fileIo 0 m.filesize⟩), .write (.uploadRequest true)]

/-- `DoChunkUpload`. -/
def doChunkUpload (w : World) (m : UploadStateMachine) : List Effect :=
  match nextChunkToUpload w.pick m.chunkStates with
  | some nextChunk =>
    match uploadNextChunk w.openFile m nextChunk with
    | .failed ec description => [.processEvent (.error ec description)]
    | .undefined => [.halted]
    | .posted request =>
      m.setChunkState nextChunk .uploading ++
        [.call (.chunkUpload nextChunk request), .write (.uploadRequest true)]
  | none =>
    assertThat (m.uploadKey ≠ "") "!fsm.UploadKey().empty()" ++
      [.processEvent (.chunkUploadComplete m.uploadKey)]

/-- `DoInstantUpload`. -/
def doInstantUpload (m : UploadStateMachine) : List Effect :=
  [.call (.uploadInstant m.filename m.hash m.filesize m.onDuplicateAction)]

/-- `StartPoll`. -/
def startPoll (uploadKey : String) : List Effect :=
  if uploadKey = "" then
    [.assertion "Reached poll upload without upload key",
      .processEvent (.error (.upload .logicError) "Filsize unavailable.")]
  else [.call (.pollUpload uploadKey)]

/-! ### The transition table -/

/-- The functors in the action column of the table. -/
inductive Action where
  | none | openFile | readFile | saveHash | check | doSimpleUpload | doChunkUpload
  | doInstantUpload | pollUpload
  deriving DecidableEq, Repr

def Action.effects (w : World) (m : UploadStateMachine) (evt : Event) : Action → List Effect
  | .none => []
  | .openFile => match evt with
    | .hashStartHash state => Uploader.openFile w state
    | _ => []
  | .readFile => match evt with
    | .hashReadNext state fileIo readBytePos => Uploader.readFile w state fileIo readBytePos
    | _ => []
  | .saveHash => match evt with
    | .hashSuccess state sha256Hash =>
      [.write (.completeHashData sha256Hash state.chunkRanges state.chunkHashes)]
    | _ => []
  | .check => Uploader.check m
  | .doSimpleUpload => Uploader.doSimpleUpload w m
  | .doChunkUpload => Uploader.doChunkUpload w m
  | .doInstantUpload => Uploader.doInstantUpload m
  | .pollUpload => match evt with
    | .simpleUploadComplete uploadKey => startPoll uploadKey
    | .chunkUploadComplete uploadKey => startPoll uploadKey
    | _ => []

/-- The rows of `transition_table`: target and action. -/
def transitionTable (start : State) (evt : Event) (hasHash : Bool) : Option (State × Action) :=
  match start, evt with
  | .initial, .start =>
    if hasHash then some (.waitForUploadSignal, .none) else some (.waitForHashSignal, .none)
  | .initial, .error _ _ => some (.completeWithError, .none)
  | .waitForHashSignal, .startHash => some (.setupHasher, .none)
  | .waitForHashSignal, .error _ _ => some (.completeWithError, .none)
  | .setupHasher, .hashStartHash _ => some (.hashing, .openFile)
  | .hashing, .hashReadNext _ _ _ => some (.hashing, .readFile)
  | .hashing, .hashSuccess _ _ => some (.waitForUploadSignal, .saveHash)
  | .hashing, .hashError _ _ => some (.completeWithError, .none)
  | .waitForUploadSignal, .startUpload _ => some (.inUploadCheck, .check)
  | .waitForUploadSignal, .error _ _ => some (.completeWithError, .none)
  | .inUploadCheck, .needsSingleUpload => some (.uploadFile, .doSimpleUpload)
  | .inUploadCheck, .needsChunkUpload => some (.uploadChunk, .doChunkUpload)
  | .inUploadCheck, .instantUpload => some (.instantUpload, .doInstantUpload)
  | .inUploadCheck, .alreadyUploaded _ _ => some (.completeWithSuccess, .none)
  | .inUploadCheck, .error _ _ => some (.completeWithError, .none)
  | .instantUpload, .instantSuccess _ _ _ => some (.completeWithSuccess, .none)
  | .instantUpload, .error _ _ => some (.completeWithError, .none)
  | .uploadChunk, .chunkSuccess _ _ => some (.uploadChunk, .doChunkUpload)
  | .uploadChunk, .chunkUploadComplete _ => some (.pollUpload, .pollUpload)
  | .uploadChunk, .error _ _ => some (.completeWithError, .none)
  | .uploadFile, .simpleUploadComplete _ => some (.pollUpload, .pollUpload)
  | .uploadFile, .error _ _ => some (.completeWithError, .none)
  | .pollUpload, .pollComplete _ _ _ => some (.completeWithSuccess, .none)
  | .pollUpload, .error _ _ => some (.completeWithError, .none)
  | _, _ => none

namespace UploadStateMachine

/-- The machine after the exit action. -/
def exited (w : World) (m : UploadStateMachine) : UploadStateMachine :=
  m.applyAll (onExit w m m.state)

/-- The machine after the exit action and the action of the row. -/
def acted (w : World) (m : UploadStateMachine) (evt : Event) (action : Action) :
    UploadStateMachine :=
  (m.exited w).applyAll (action.effects w (m.exited w) evt)

/-- `process_event`: a terminate state drops every event, and an event without a row goes to
`no_transition`. -/
def fire (w : World) (m : UploadStateMachine) (evt : Event) : List Effect :=
  if m.state.isTerminal then []
  else
    match transitionTable m.state evt (m.hash ≠ "") with
    | none => [.noTransition m.state evt]
    | some (target, action) =>
      onExit w m m.state ++ action.effects w (m.exited w) evt ++
        onEntry (m.acted w evt action) target evt ++ [.write (.state target)]

theorem fire_terminal {w : World} {m : UploadStateMachine} {evt : Event}
    (h : m.state.isTerminal = true) : m.fire w evt = [] := if_pos h

theorem fire_row {w : World} {m : UploadStateMachine} {evt : Event} {target : State}
    {action : Action} (h : transitionTable m.state evt (m.hash ≠ "") = some (target, action)) :
    m.fire w evt =
      onExit w m m.state ++ action.effects w (m.exited w) evt ++
        onEntry (m.acted w evt action) target evt ++ [.write (.state target)] := by
  have hterm : m.state.isTerminal = false := by
    cases hs : m.state <;> simp_all [transitionTable, State.isTerminal]
  simp only [fire, hterm, h]
  rfl

@[simp] theorem applyAll_fire_row_state {w : World} {m : UploadStateMachine} {evt : Event}
    {target : State} {action : Action}
    (h : transitionTable m.state evt (m.hash ≠ "") = some (target, action)) :
    (m.applyAll (m.fire w evt)).state = target := by
  rw [fire_row h, applyAll_append]
  rfl

theorem fire_noTransition {w : World} {m : UploadStateMachine} {evt : Event}
    (hs : m.state.isTerminal = false) (h : transitionTable m.state evt (m.hash ≠ "") = none) :
    m.fire w evt = [.noTransition m.state evt] := by
  simp only [fire, hs, h]
  rfl

end UploadStateMachine

/-! ### Which part has which effects -/

/-- An exit action, `Initial` apart, only leaves a container or drops a request. -/
inductive FromExit : Effect → Prop
  | filesize (size : ℕ) : FromExit (.write (.filesize size))
  | mtime (time : ℤ) : FromExit (.write (.mtime time))
  | uploadRequest (held : Bool) : FromExit (.write (.uploadRequest held))
  | removeToHash : FromExit (.callback .handleRemoveToHash)
  | removeToUpload : FromExit (.callback .handleRemoveToUpload)
  | cancelRequest : FromExit .cancelRequest
  | error (ec : ErrorCode) (description : String) : FromExit (.processEvent (.error ec description))

/-- An action sends no status and calls no callback; it polls with a key. -/
inductive FromAction : Effect → Prop
  | hashData (hash : String) (ranges : List Range) (hashes : List String) :
    FromAction (.write (.completeHashData hash ranges hashes))
  | chunkState (chunkId : ℕ) (cs : ChunkState) : FromAction (.write (.chunkState chunkId cs))
  | uploadRequest (held : Bool) : FromAction (.write (.uploadRequest held))
  | call (r : ApiRequest) (hkey : r ≠ .pollUpload "") : FromAction (.call r)
  | processEvent (e : Event) : FromAction (.processEvent e)
  | processEventNow (e : Event) : FromAction (.processEventNow e)
  | postEvent (e : Event) : FromAction (.postEvent e)
  | assertion (text : String) : FromAction (.assertion text)
  | halted : FromAction .halted

/-- An entry action sends a terminal status in a terminate state only, and calls no request. -/
inductive FromEntry (target : State) : Effect → Prop
  | actionToken (token : String) : FromEntry target (.write (.actionToken token))
  | countState (cs : CountState) : FromEntry target (.write (.countState cs))
  | chunkState (chunkId : ℕ) (cs : ChunkState) :
    FromEntry target (.write (.chunkState chunkId cs))
  | uploadKey (key : String) : FromEntry target (.write (.uploadKey key))
  | callback (c : Callback) : FromEntry target (.callback c)
  | sendStatus (s : UploadState) (hs : s.isTerminal = target.isTerminal) :
    FromEntry target (.sendStatus s)
  | processEvent (e : Event) : FromEntry target (.processEvent e)
  | assertion (text : String) : FromEntry target (.assertion text)
  | halted : FromEntry target .halted

theorem fromExit_onExit {w : World} {m : UploadStateMachine} {source : State} {x : Effect}
    (h : x ∈ onExit w m source) : FromExit x := by
  cases source <;> simp only [onExit, List.mem_singleton, List.not_mem_nil] at h
  case initial =>
    unfold initialOnExit at h
    split at h
    · simp only [List.mem_cons, List.not_mem_nil, or_false] at h
      rcases h with rfl | rfl <;> constructor
    · rcases List.mem_cons.mp h with rfl | h
      · constructor
      · split at h
        · simp only [List.mem_cons, List.not_mem_nil, or_false] at h
          rcases h with rfl | rfl <;> constructor
        · rcases List.mem_cons.mp h with rfl | h
          · constructor
          · split_ifs at h <;> simp only [List.mem_singleton, List.not_mem_nil] at h
            subst h
            constructor
  case waitForHashSignal => subst h; constructor
  case waitForUploadSignal => subst h; constructor
  case uploadChunk =>
    split_ifs at h <;> simp only [List.mem_cons, List.not_mem_nil, or_false] at h
    rcases h with rfl | rfl <;> constructor

theorem fromAction_finishHash {w : World} {state : HasherStateData} {x : Effect}
    (h : x ∈ finishHash w state) : FromAction x := by
  unfold finishHash at h
  rcases List.mem_append.mp h with h | h
  · rw [mem_assertThat h]
    constructor
  · split at h <;> rw [List.mem_singleton.mp h] <;> constructor

theorem fromAction_readFile {w : World} {state : HasherStateData} {fileIo : FileIO}
    {readBytePos : ℕ} {x : Effect} (h : x ∈ readFile w state fileIo readBytePos) :
    FromAction x := by
  unfold readFile at h
  split at h
  · rw [List.mem_singleton.mp h]; constructor
  · split at h
    · split at h
      · rw [List.mem_singleton.mp h]; constructor
      · exact fromAction_finishHash h
    · rw [List.mem_singleton.mp h]; constructor
    · split at h <;> rw [List.mem_singleton.mp h] <;> constructor

theorem fromAction_doSimpleUpload {w : World} {m : UploadStateMachine} {x : Effect}
    (h : x ∈ doSimpleUpload w m) : FromAction x := by
  unfold doSimpleUpload at h
  split at h
  · rw [List.mem_singleton.mp h]; constructor
  · split at h
    · rw [List.mem_singleton.mp h]; constructor
    · simp only [List.mem_cons, List.not_mem_nil, or_false] at h
      rcases h with rfl | rfl
      · exact .call _ (by simp)
      · constructor

theorem fromAction_doChunkUpload {w : World} {m : UploadStateMachine} {x : Effect}
    (h : x ∈ doChunkUpload w m) : FromAction x := by
  unfold doChunkUpload at h
  split at h
  · split at h
    · rw [List.mem_singleton.mp h]; constructor
    · rw [List.mem_singleton.mp h]; constructor
    · rcases List.mem_append.mp h with h | h
      · unfold UploadStateMachine.setChunkState at h
        split_ifs at h <;> simp only [List.mem_cons, List.not_mem_nil, or_false] at h
        · subst h; constructor
        · rcases h with rfl | rfl <;> constructor
      · simp only [List.mem_cons, List.not_mem_nil, or_false] at h
        rcases h with rfl | rfl
        · exact .call _ (by simp)
        · constructor
  · rcases List.mem_append.mp h with h | h
    · rw [mem_assertThat h]; constructor
    · rw [List.mem_singleton.mp h]; constructor

theorem fromAction_startPoll {uploadKey : String} {x : Effect} (h : x ∈ startPoll uploadKey) :
    FromAction x := by
  unfold startPoll at h
  split_ifs at h with hkey
  · simp only [List.mem_cons, List.not_mem_nil, or_false] at h
    rcases h with rfl | rfl <;> constructor
  · rw [List.mem_singleton.mp h]
    exact .call _ (by simp [hkey])

theorem fromAction_effects {w : World} {m : UploadStateMachine} {evt : Event} {action : Action}
    {x : Effect} (h : x ∈ action.effects w m evt) : FromAction x := by
  cases action <;> simp only [Action.effects, List.not_mem_nil] at h
  case openFile =>
    split at h
    · unfold openFile at h
      split at h <;> rw [List.mem_singleton.mp h] <;> constructor
    · cases h
  case readFile =>
    split at h
    · exact fromAction_readFile h
    · cases h
  case saveHash =>
    split at h
    · rw [List.mem_singleton.mp h]; constructor
    · cases h
  case check => rw [List.mem_singleton.mp h]; exact .call _ (by simp)
  case doSimpleUpload => exact fromAction_doSimpleUpload h
  case doChunkUpload => exact fromAction_doChunkUpload h
  case doInstantUpload => rw [List.mem_singleton.mp h]; exact .call _ (by simp)
  case pollUpload =>
    split at h
    · exact fromAction_startPoll h
    · exact fromAction_startPoll h
    · cases h

theorem fromEntry_setCountState {m : UploadStateMachine} {cs : CountState} {target : State}
    {x : Effect} (h : x ∈ m.setCountState cs) : FromEntry target x := by
  rcases UploadStateMachine.mem_setCountState h with ⟨_, rfl⟩ | rfl <;> constructor

theorem fromEntry_chunkSuccess {m : UploadStateMachine} {chunkId : ℕ} {uploadKey : String}
    {x : Effect} (h : x ∈ chunkSuccessOnEntry m chunkId uploadKey) : FromEntry .uploadChunk x := by
  simp only [chunkSuccessOnEntry, List.mem_append] at h
  rcases h with ((h | h) | h) | h
  · rw [mem_assertThat h]; constructor
  · rw [mem_assertThat h]; constructor
  · split_ifs at h
    · rw [List.mem_singleton.mp h]; constructor
    · cases h
  · unfold UploadStateMachine.setChunkState at h
    split_ifs at h <;> simp only [List.mem_cons, List.not_mem_nil, or_false] at h
    · subst h; constructor
    · rcases h with rfl | rfl <;> constructor

theorem fromEntry_completeWithSuccess {m : UploadStateMachine} {quickkey filename : String}
    {revision : Option ℕ} {x : Effect}
    (h : x ∈ completeWithSuccessOnEntry m quickkey filename revision) :
    FromEntry .completeWithSuccess x := by
  simp only [completeWithSuccessOnEntry, List.mem_append] at h
  rcases h with (h | h) | h
  · rw [mem_assertThat h]; constructor
  · exact fromEntry_setCountState h
  · simp only [List.mem_cons, List.not_mem_nil, or_false] at h
    rcases h with rfl | rfl
    · exact .sendStatus _ rfl
    · constructor

theorem fromEntry_completeWithError {m : UploadStateMachine} {ec : ErrorCode}
    {description : String} {x : Effect}
    (h : x ∈ completeWithErrorOnEntry m ec description) : FromEntry .completeWithError x := by
  simp only [completeWithErrorOnEntry, List.mem_append] at h
  rcases h with h | h
  · exact fromEntry_setCountState h
  · simp only [List.mem_cons, List.not_mem_nil, or_false] at h
    rcases h with rfl | rfl
    · exact .sendStatus _ rfl
    · constructor

theorem fromEntry_onEntry {m : UploadStateMachine} {target : State} {evt : Event} {x : Effect}
    (h : x ∈ onEntry m target evt) : FromEntry target x := by
  unfold onEntry at h
  split at h
  · simp only [List.mem_cons, List.not_mem_nil, or_false] at h
    rcases h with rfl | rfl
    · constructor
    · exact .sendStatus _ rfl
  · unfold setupHasherOnEntry at h
    rcases List.mem_append.mp h with h | h
    · exact fromEntry_setCountState h
    · split at h <;> rw [List.mem_singleton.mp h] <;> constructor
  · rw [List.mem_singleton.mp h]
    exact .sendStatus _ rfl
  · simp only [List.mem_cons, List.not_mem_nil, or_false] at h
    rcases h with rfl | rfl
    · constructor
    · exact .sendStatus _ rfl
  · rcases List.mem_append.mp h with h | h
    · rw [mem_assertThat h]; constructor
    · rcases List.mem_cons.mp h with rfl | h
      · constructor
      · rcases List.mem_append.mp h with h | h
        · exact fromEntry_setCountState h
        · rw [List.mem_singleton.mp h]
          exact .sendStatus _ rfl
  · exact fromEntry_chunkSuccess h
  · rw [List.mem_singleton.mp h]
    exact .sendStatus _ rfl
  · exact fromEntry_completeWithSuccess h
  · exact fromEntry_completeWithSuccess h
  · exact fromEntry_completeWithSuccess h
  · exact fromEntry_completeWithError h
  · exact fromEntry_completeWithError h
  · cases h

/-- Only `SaveHash` writes the hash. -/
theorem action_of_hashData {w : World} {m : UploadStateMachine} {evt : Event} {action : Action}
    {hash : String} {ranges : List Range} {hashes : List String}
    (h : .write (.completeHashData hash ranges hashes) ∈ action.effects w m evt) :
    action = .saveHash := by
  cases action with
  | saveHash => rfl
  | none => cases h
  | openFile =>
    simp only [Action.effects, openFile] at h
    split at h
    · split at h <;> simp at h
    · cases h
  | readFile =>
    simp only [Action.effects, readFile, finishHash, assertThat] at h
    repeat' split at h
    all_goals simp at h
  | check => simp [Action.effects, check] at h
  | doSimpleUpload =>
    simp only [Action.effects, doSimpleUpload] at h
    repeat' split at h
    all_goals simp at h
  | doChunkUpload =>
    simp only [Action.effects, doChunkUpload, UploadStateMachine.setChunkState, assertThat] at h
    repeat' split at h
    all_goals simp at h
  | doInstantUpload => simp [Action.effects, doInstantUpload] at h
  | pollUpload =>
    simp only [Action.effects, startPoll] at h
    repeat' split at h
    all_goals simp at h

theorem row_saveHash {start target : State} {evt : Event} {hasHash : Bool}
    (h : transitionTable start evt hasHash = some (target, .saveHash)) :
    start = .hashing ∧ target = .waitForUploadSignal ∧ ∃ state hash, evt = .hashSuccess state hash := by
  unfold transitionTable at h
  split at h <;> try split_ifs at h
  all_goals cases h
  exact ⟨rfl, rfl, _, _, rfl⟩

/-- A transition that writes the hash is a row of `SaveHash`. -/
theorem saveHash_row_of_fire {w : World} {m : UploadStateMachine} {evt : Event} {hash : String}
    {ranges : List Range} {hashes : List String}
    (h : .write (.completeHashData hash ranges hashes) ∈ m.fire w evt) :
    ∃ target, transitionTable m.state evt (m.hash ≠ "") = some (target, .saveHash) := by
  unfold UploadStateMachine.fire at h
  split_ifs at h
  · cases h
  · split at h
    · simp at h
    · rename_i target action hrow
      simp only [List.mem_append, List.mem_singleton, Effect.write.injEq, reduceCtorEq,
        or_false] at h
      rcases h with (h | h) | h
      · cases fromExit_onExit h
      · exact ⟨target, action_of_hashData h ▸ hrow⟩
      · cases fromEntry_onEntry h

end MediafireSdk.Uploader
