import MediafireSdk.Uploader.FileHash
import MediafireSdk.Uploader.Upload

/-! The hash that an upload tells. The machine reads the file it has opened one event
a block, adopts the hash at the end, and tells it in its requests and statuses.
Whatever comes between, it is the hash of that one file, and no other is told. -/

namespace MediafireSdk.Uploader

open Ranges Words Utils

/-! ### Events and effects about the hash -/

/-- The events that carry a hasher. -/
def Event.isHashing : Event → Bool
  | .hashStartHash _ | .hashReadNext .. | .hashSuccess .. => true
  | _ => false

/-- The states before there is a hash. -/
def State.isBeforeHash : State → Bool
  | .initial | .waitForHashSignal | .setupHasher | .hashing => true
  | _ => false

namespace Upload

open Runs

/-- The hash of the file that an effect tells. -/
def told : Effect → Option String
  | .write (.completeHashData hash _ _) => some hash
  | .call (.uploadCheck _ hash _ _) | .call (.uploadInstant _ hash _ _) => some hash
  | .call (.chunkUpload _ request) => request.headers.lookup "x-filehash"
  | .sendStatus (.complete _ _ hash _) => some hash
  | .sendStatus (.error _ _ hash) => hash
  | _ => none

/-- The hash of a chunk that an effect tells. -/
def toldUnit : Effect → Option (ℕ × String)
  | .call (.chunkUpload chunkId request) =>
    (request.headers.lookup "x-unit-hash").map (chunkId, ·)
  | _ => none

/-- Effects that have to do with neither the hash nor a hasher. -/
def mute : Effect → Bool
  | .write (.completeHashData ..) | .write (.filesize _) => false
  | .call (.uploadCheck ..) | .call (.uploadInstant ..) | .call (.chunkUpload ..) => false
  | .sendStatus (.complete ..) | .sendStatus (.error ..) => false
  | .processEvent e | .processEventNow e | .postEvent e => !e.isHashing
  | _ => true

/-- The file was opened to be hashed. -/
def Opened (log : List Effect) (file : List UInt8) : Prop :=
  ∃ state fileIo, .processEventNow (.hashReadNext state fileIo 0) ∈ log ∧ fileIo.content = file

/-- Of `ReadFile`: at the end of the file there is a hash for every chunk. -/
def chunksAssertion : Effect :=
  .assertion "state->chunk_ranges.size() == state->chunk_hashes.size()"

/-- What `World` stands for: one digest function, and files that are opened at their beginning. -/
structure Hashes (sha256 : List UInt8 → String) (w : World) : Prop where
  digest : w.sha256 = sha256
  beginning : ∀ fileIo, w.openFile = .ok fileIo → fileIo.pos = 0

/-- What an action reads from outside. -/
def Act.world : Act → Option World
  | .next w _ | .deliver _ w _ => some w
  | _ => none

/-- The hash of an upload is that of one file it has opened, all of it where the assertion
held, and the upload has told no other. -/
structure HashedFile (sha256 : List UInt8 → String) (u : Upload) (file : List UInt8) : Prop where
  opened : Opened u.log file
  data : HashData sha256 u.machine.filesize file u.machine.hash u.machine.chunkRanges
    u.machine.chunkHashes
  whole : chunksAssertion ∉ u.log → file.length = u.machine.filesize
  told : ∀ x ∈ u.log, ∀ hash, told x = some hash → hash = sha256 file
  units : ∀ x ∈ u.log, ∀ chunkId unitHash, toldUnit x = some (chunkId, unitHash) →
    ∃ r, u.machine.chunkRanges[chunkId]? = some r ∧ unitHash = sha256 (slice file r)

/-- Before there is a hash, none is told. -/
inductive TellsHash (sha256 : List UInt8 → String) (u : Upload) : Prop
  | before (hstate : u.machine.state.isBeforeHash = true ∨ u.machine.state = .completeWithError)
      (hhash : u.machine.hash = "") (htold : ∀ x ∈ u.log, told x = none ∧ toldUnit x = none)
  | after (hstate : u.machine.state.isBeforeHash = false) (file : List UInt8)
      (hfile : HashedFile sha256 u file)

/-! ### Mute effects -/

section Mute
variable {x : Effect} {m : UploadStateMachine}

theorem told_of_mute (h : mute x = true) : told x = none ∧ toldUnit x = none := by
  cases x with
  | write w => cases w <;> first | exact ⟨rfl, rfl⟩ | cases h
  | call r => cases r <;> first | exact ⟨rfl, rfl⟩ | cases h
  | sendStatus s => cases s <;> first | exact ⟨rfl, rfl⟩ | cases h
  | _ => exact ⟨rfl, rfl⟩

/-- What a machine knows of its file. -/
def hashData (m : UploadStateMachine) : String × List Range × List String × ℕ :=
  (m.hash, m.chunkRanges, m.chunkHashes, m.filesize)

theorem hashData_apply (h : mute x = true) : hashData (m.apply x) = hashData m := by
  cases x with
  | write w => cases w <;> first | rfl | cases h
  | _ => rfl

theorem mute_fromHandler {r : ApiRequest} (h : FromHandler r x)
    (he : ∀ e, x = .processEvent e → e.isHashing = false) : mute x = true := by
  cases h with
  | processEvent e => simp [mute, he e rfl]
  | _ => rfl

theorem isHashing_handleDoUpload {success : String → Event}
    (hsuccess : ∀ uploadKey, (success uploadKey).isHashing = false) {response : DoUploadResponse}
    {e : Event} (h : .processEvent e ∈ handleDoUpload success response) : e.isHashing = false := by
  unfold handleDoUpload at h
  repeat' split at h
  all_goals
    cases List.mem_singleton.mp h
    first | rfl | exact hsuccess _

theorem isHashing_checkResponse {response : CheckResponse} {e : Event}
    (h : .processEvent e ∈ checkResponse m response) : e.isHashing = false := by
  unfold checkResponse at h
  split at h
  · cases List.mem_singleton.mp h
    rfl
  · unfold handleCheck at h
    repeat' split at h
    all_goals
      simp only [List.mem_cons, List.not_mem_nil, List.mem_append, or_false, reduceCtorEq,
        false_or, Effect.processEvent.injEq] at h
    all_goals first
      | (subst h; rfl)
      | (rcases h with h | rfl
         · unfold UploadStateMachine.setBitmap at h
           rcases List.mem_append.mp h with h | h
           · cases mem_assertThat h
           · split at h <;> cases List.mem_singleton.mp h
         · rfl)

/-- The handlers have nothing to do with the hash. -/
theorem mute_handleResponse {r : ApiRequest} {response : Response} {effects : List Effect}
    (h : handleResponse m r response = some effects) (hx : x ∈ effects) : mute x = true := by
  refine mute_fromHandler (fromHandler_handleResponse h hx) ?_
  rintro e rfl
  unfold handleResponse at h
  split at h <;> cases h
  · exact isHashing_checkResponse hx
  · unfold instantResponse at hx
    split at hx <;> cases List.mem_singleton.mp hx <;> rfl
  · unfold httpResponse at hx
    split at hx
    · cases List.mem_singleton.mp hx
      rfl
    · exact isHashing_handleDoUpload (fun _ => rfl) hx
  · unfold httpResponse at hx
    split at hx
    · cases List.mem_singleton.mp hx
      rfl
    · exact isHashing_handleDoUpload (fun _ => rfl) hx
  · rename_i uploadKey response
    rcases handlePollResponse_cases uploadKey m response with ⟨_, _, he⟩ | ⟨_, _, _, he⟩ | he <;>
      rw [he] at hx <;> cases List.mem_singleton.mp hx <;> rfl

theorem mute_startPoll {uploadKey : String} (h : x ∈ startPoll uploadKey) : mute x = true := by
  unfold startPoll at h
  split_ifs at h <;>
    simp only [List.mem_cons, List.not_mem_nil, or_false] at h
  · rcases h with rfl | rfl <;> rfl
  · subst h; rfl

theorem mute_assertThat {q : Prop} [Decidable q] {text : String} (h : x ∈ assertThat q text) :
    mute x = true := by
  rw [mem_assertThat h]
  rfl

theorem mute_setCountState {cs : CountState} (h : x ∈ m.setCountState cs) : mute x = true := by
  rcases UploadStateMachine.mem_setCountState h with ⟨_, rfl⟩ | rfl <;> rfl

theorem mute_setChunkState {chunkId : ℕ} {cs : ChunkState} (h : x ∈ m.setChunkState chunkId cs) :
    mute x = true := by
  unfold UploadStateMachine.setChunkState at h
  split_ifs at h <;> simp only [List.mem_cons, List.not_mem_nil, or_false] at h
  · subst h; rfl
  · rcases h with rfl | rfl <;> rfl

theorem mute_onExit {w : World} {source : State} (hs : source ≠ .initial)
    (h : x ∈ onExit w m source) : mute x = true := by
  cases source with
  | initial => exact absurd rfl hs
  | uploadChunk =>
    simp only [onExit] at h
    split_ifs at h
    · simp only [List.mem_cons, List.not_mem_nil, or_false] at h
      rcases h with rfl | rfl <;> rfl
    · cases h
  | waitForHashSignal | waitForUploadSignal => cases List.mem_singleton.mp h; rfl
  | _ => cases h

end Mute

/-! ### Transitions once there is a hash -/

/-- Effects that change nothing of the hash and tell only what the machine has. -/
inductive Loyal (m : UploadStateMachine) (x : Effect) : Prop
  | mute (h : mute x = true)
  | call (r : ApiRequest) (hx : x = .call r) (h : ∀ hash, told x = some hash → hash = m.hash)
      (hunit : ∀ chunkId unitHash, toldUnit x = some (chunkId, unitHash) →
        m.chunkHashes[chunkId]? = some unitHash)
  | status (s : UploadState) (hx : x = .sendStatus s)
      (h : ∀ hash, told x = some hash → hash = m.hash)

section Loyal
variable {w : World} {x : Effect} {m m' : UploadStateMachine}

theorem Loyal.told (h : Loyal m x) {hash : String} (hx : told x = some hash) : hash = m.hash := by
  cases h with
  | mute hmute => simp [told_of_mute hmute] at hx
  | call _ _ h _ => exact h hash hx
  | status _ _ h => exact h hash hx

theorem Loyal.toldUnit (h : Loyal m x) {chunkId : ℕ} {unitHash : String}
    (hx : toldUnit x = some (chunkId, unitHash)) : m.chunkHashes[chunkId]? = some unitHash := by
  cases h with
  | mute hmute => simp [told_of_mute hmute] at hx
  | call _ _ _ h => exact h chunkId unitHash hx
  | status _ hs _ => subst hs; cases hx

theorem Loyal.hashData (h : Loyal m x) : hashData (m'.apply x) = hashData m' := by
  cases h with
  | mute hmute => exact hashData_apply hmute
  | call _ hx _ _ => subst hx; rfl
  | status _ hx _ => subst hx; rfl

theorem Loyal.congr (h : Loyal m x) (hm : Upload.hashData m' = Upload.hashData m) :
    Loyal m' x := by
  have hhash : m'.hash = m.hash := congrArg Prod.fst hm
  have hhashes : m'.chunkHashes = m.chunkHashes := congrArg (·.2.2.1) hm
  cases h with
  | mute hmute => exact .mute hmute
  | call r hx htold hunit => exact .call r hx (hhash ▸ htold) (hhashes ▸ hunit)
  | status s hx htold => exact .status s hx (hhash ▸ htold)

theorem hashData_applyAll {effects : List Effect} (h : ∀ x ∈ effects, Loyal m x) :
    hashData (m'.applyAll effects) = hashData m' :=
  UploadStateMachine.applyAll_same hashData fun x hx _ => (h x hx).hashData

theorem lookup_setHeaders {chunkId : ℕ} {headers : List (String × String)}
    (h : setHeaders m chunkId = some headers) :
    headers.lookup "x-filehash" = some m.hash ∧
      headers.lookup "x-unit-hash" = m.chunkHashes[chunkId]? := by
  simp only [setHeaders, Option.bind_eq_bind, Option.bind_eq_some_iff] at h
  obtain ⟨_, _, unitHash, hhash, _, _, hheaders⟩ := h
  cases hheaders
  rw [hhash]
  exact ⟨rfl, rfl⟩

theorem setHeaders_of_posted {file : Except ErrorCode FileIO} {chunkId : ℕ}
    {request : PostRequest} (h : uploadNextChunk file m chunkId = .posted request) :
    setHeaders m chunkId = some request.headers := by
  unfold uploadNextChunk at h
  split at h
  · cases h
  · split at h
    · cases h
    · dsimp only at h
      split at h
      · cases h
      · split at h
        · cases h
        · rename_i hheaders
          cases h
          exact hheaders

theorem loyal_doChunkUpload (h : x ∈ doChunkUpload w m) : Loyal m x := by
  unfold doChunkUpload at h
  split at h
  · split at h
    · cases List.mem_singleton.mp h
      exact .mute rfl
    · cases List.mem_singleton.mp h
      exact .mute rfl
    · rename_i request hposted
      obtain ⟨hhash, hunit⟩ := lookup_setHeaders (setHeaders_of_posted hposted)
      rcases List.mem_append.mp h with h | h
      · exact .mute (mute_setChunkState h)
      · simp only [List.mem_cons, List.not_mem_nil, or_false] at h
        rcases h with rfl | rfl
        · refine .call _ rfl (fun hash htold => ?_) fun chunkId unitHash htold => ?_
          · exact Option.some.inj (htold.symm.trans hhash)
          · obtain ⟨_, hlookup, heq⟩ := Option.map_eq_some_iff.mp htold
            cases heq
            exact hunit ▸ hlookup
        · exact .mute rfl
  · rcases List.mem_append.mp h with h | h
    · exact .mute (mute_assertThat h)
    · cases List.mem_singleton.mp h
      exact .mute rfl

theorem mute_doSimpleUpload (h : x ∈ doSimpleUpload w m) : mute x = true := by
  unfold doSimpleUpload at h
  split at h
  · cases List.mem_singleton.mp h
    rfl
  · split at h
    · cases List.mem_singleton.mp h
      rfl
    · simp only [List.mem_cons, List.not_mem_nil, or_false] at h
      rcases h with rfl | rfl <;> rfl

theorem loyal_action {evt : Event} {action : Action}
    (haction : action ≠ .openFile ∧ action ≠ .readFile ∧ action ≠ .saveHash)
    (h : x ∈ action.effects w m evt) : Loyal m x := by
  cases action <;> simp only [Action.effects, List.not_mem_nil] at h
  case openFile => exact absurd rfl haction.1
  case readFile => exact absurd rfl haction.2.1
  case saveHash => exact absurd rfl haction.2.2
  case check =>
    cases List.mem_singleton.mp h
    exact .call _ rfl (fun _ htold => (Option.some.inj htold).symm) (by rintro _ _ ⟨⟩)
  case doSimpleUpload => exact .mute (mute_doSimpleUpload h)
  case doChunkUpload => exact loyal_doChunkUpload h
  case doInstantUpload =>
    cases List.mem_singleton.mp h
    exact .call _ rfl (fun _ htold => (Option.some.inj htold).symm) (by rintro _ _ ⟨⟩)
  case pollUpload =>
    split at h
    · exact .mute (mute_startPoll h)
    · exact .mute (mute_startPoll h)
    · cases h

theorem loyal_completeWithSuccess {quickkey filename : String} {revision : Option ℕ}
    (h : x ∈ completeWithSuccessOnEntry m quickkey filename revision) : Loyal m x := by
  simp only [completeWithSuccessOnEntry, List.mem_append] at h
  rcases h with (h | h) | h
  · exact .mute (mute_assertThat h)
  · exact .mute (mute_setCountState h)
  · simp only [List.mem_cons, List.not_mem_nil, or_false] at h
    rcases h with rfl | rfl
    · exact .status _ rfl fun _ htold => (Option.some.inj htold).symm
    · exact .mute rfl

theorem loyal_completeWithError {ec : ErrorCode} {description : String}
    (h : x ∈ completeWithErrorOnEntry m ec description) : Loyal m x := by
  simp only [completeWithErrorOnEntry, List.mem_append] at h
  rcases h with h | h
  · exact .mute (mute_setCountState h)
  · simp only [List.mem_cons, List.not_mem_nil, or_false] at h
    rcases h with rfl | rfl
    · refine .status _ rfl fun hash htold => ?_
      simp only [Upload.told] at htold
      split_ifs at htold
      exact (Option.some.inj htold).symm
    · exact .mute rfl

theorem loyal_onEntry {target : State} {evt : Event} (htarget : target ≠ .setupHasher)
    (h : x ∈ onEntry m target evt) : Loyal m x := by
  unfold onEntry at h
  split at h
  case h_2 => exact absurd rfl htarget
  case h_3 | h_7 => cases List.mem_singleton.mp h; exact .mute rfl
  case h_1 | h_4 =>
    simp only [List.mem_cons, List.not_mem_nil, or_false] at h
    rcases h with rfl | rfl <;> exact .mute rfl
  case h_5 =>
    rcases List.mem_append.mp h with h | h
    · exact .mute (mute_assertThat h)
    · rcases List.mem_cons.mp h with rfl | h
      · exact .mute rfl
      · rcases List.mem_append.mp h with h | h
        · exact .mute (mute_setCountState h)
        · cases List.mem_singleton.mp h
          exact .mute rfl
  case h_6 =>
    simp only [chunkSuccessOnEntry, List.mem_append] at h
    rcases h with ((h | h) | h) | h
    · exact .mute (mute_assertThat h)
    · exact .mute (mute_assertThat h)
    · split_ifs at h
      · cases List.mem_singleton.mp h
        exact .mute rfl
      · cases h
    · exact .mute (mute_setChunkState h)
  case h_8 | h_9 | h_10 => exact loyal_completeWithSuccess h
  case h_11 | h_12 => exact loyal_completeWithError h
  case h_13 => cases h

/-- Behind the hash no row leads back to it. -/
theorem row_behindHash {start target : State} {evt : Event} {hasHash : Bool} {action : Action}
    (hrow : transitionTable start evt hasHash = some (target, action))
    (hs : start.isBeforeHash = false) :
    target.isBeforeHash = false ∧ action ≠ .openFile ∧ action ≠ .readFile ∧ action ≠ .saveHash := by
  unfold transitionTable at hrow
  split at hrow
  all_goals first
    | (cases hs; done)
    | (cases hrow; exact ⟨rfl, by decide, by decide, by decide⟩)
    | cases hrow

theorem loyal_fire {evt : Event} {target : State} {action : Action}
    (hrow : transitionTable m.state evt (m.hash ≠ "") = some (target, action))
    (hs : m.state.isBeforeHash = false) (h : x ∈ m.fire w evt) : Loyal m x := by
  obtain ⟨htarget, haction⟩ := row_behindHash hrow hs
  have hinitial : m.state ≠ .initial := fun heq => by rw [heq] at hs; cases hs
  have hsetup : target ≠ .setupHasher := fun heq => by rw [heq] at htarget; cases htarget
  have hexited : hashData (m.exited w) = hashData m :=
    hashData_applyAll (m := m) fun y hy => .mute (mute_onExit hinitial hy)
  have hacted : hashData (m.acted w evt action) = hashData m :=
    (hashData_applyAll fun y hy => loyal_action haction hy).trans hexited
  rw [UploadStateMachine.fire_row hrow] at h
  simp only [List.mem_append, List.mem_singleton] at h
  rcases h with ((h | h) | h) | rfl
  · exact .mute (mute_onExit hinitial h)
  · exact (loyal_action haction h).congr hexited.symm
  · exact (loyal_onEntry hsetup h).congr hacted.symm
  · exact .mute rfl

end Loyal

/-! ### Transitions before there is a hash -/

/-- The rows before there is a hash. -/
inductive HashRow : State → Event → State → Action → Prop
  | start : HashRow .initial .start .waitForHashSignal .none
  | begin : HashRow .waitForHashSignal .startHash .setupHasher .none
  | openFile (state : HasherStateData) :
    HashRow .setupHasher (.hashStartHash state) .hashing .openFile
  | readFile (state : HasherStateData) (fileIo : FileIO) (readBytePos : ℕ) :
    HashRow .hashing (.hashReadNext state fileIo readBytePos) .hashing .readFile
  | save (state : HasherStateData) (hash : String) :
    HashRow .hashing (.hashSuccess state hash) .waitForUploadSignal .saveHash
  | fail (start : State) (evt : Event) (hstart : start.isBeforeHash = true) :
    HashRow start evt .completeWithError .none

theorem row_beforeHash {start target : State} {evt : Event} {action : Action}
    (hrow : transitionTable start evt false = some (target, action))
    (hs : start.isBeforeHash = true) : HashRow start evt target action := by
  unfold transitionTable at hrow
  split at hrow
  all_goals first
    | (cases hs; done)
    | (cases hrow; constructor; done)
    | (cases hrow; exact .fail _ _ rfl)
    | cases hrow

/-- What an event about the hash carries. -/
def HashEvent (sha256 : List UInt8 → String) (log : List Effect) (filesize : ℕ) : Event → Prop
  | .hashStartHash state => state.filesize = filesize ∧ ∀ file, HashesTo sha256 file 0 state
  | .hashReadNext state fileIo readBytePos =>
    state.filesize = filesize ∧ Opened log fileIo.content ∧ 8192 ∣ readBytePos ∧
      fileIo.pos = readBytePos ∧ HashesTo sha256 fileIo.content readBytePos state
  | .hashSuccess state hash =>
    ∃ file, Opened log file ∧ (chunksAssertion ∉ log → file.length = filesize) ∧
      HashData sha256 filesize file hash state.chunkRanges state.chunkHashes
  | _ => True

section Before
variable {sha256 : List UInt8 → String} {w : World} {x : Effect} {m : UploadStateMachine}
  {log : List Effect} {filesize : ℕ} {e : Event}

theorem Opened.mono {log' : List Effect} {file : List UInt8} (h : Opened log file)
    (hlog : log ⊆ log') : Opened log' file := by
  obtain ⟨state, fileIo, hmem, hfile⟩ := h
  exact ⟨state, fileIo, hlog hmem, hfile⟩

theorem hashEvent_of_not_isHashing (h : e.isHashing = false) : HashEvent sha256 log filesize e := by
  cases e with
  | hashStartHash | hashReadNext | hashSuccess => cases h
  | _ => trivial

theorem HashEvent.mono {log' : List Effect} (h : HashEvent sha256 log filesize e)
    (hlog : log ⊆ log') : HashEvent sha256 log' filesize e := by
  cases e with
  | hashStartHash state => exact h
  | hashReadNext state fileIo readBytePos =>
    obtain ⟨hsize, hopened, hrest⟩ := h
    exact ⟨hsize, hopened.mono hlog, hrest⟩
  | hashSuccess state hash =>
    obtain ⟨file, hopened, hwhole, hdata⟩ := h
    exact ⟨file, hopened.mono hlog, fun hno => hwhole fun hmem => hno (hlog hmem), hdata⟩
  | _ => trivial

theorem mem_raised {effects : List Effect} :
    e ∈ raised effects ↔ .processEvent e ∈ effects ∨ .processEventNow e ∈ effects ∨
      .postEvent e ∈ effects := by
  simp only [raised, List.mem_filterMap]
  constructor
  · rintro ⟨x, hx, he⟩
    cases x <;> cases he
    · exact .inl hx
    · exact .inr (.inl hx)
    · exact .inr (.inr hx)
  · rintro (h | h | h) <;> exact ⟨_, h, rfl⟩

theorem isHashing_verifyFileUnchanged {stat : FileStat} {state : HasherStateData}
    (h : verifyFileUnchanged stat state = some e) : e.isHashing = false := by
  unfold verifyFileUnchanged at h
  split at h
  · cases h; rfl
  · split_ifs at h
    · cases h; rfl
    · split at h
      · cases h; rfl
      · split_ifs at h
        cases h; rfl

theorem isHashing_error_initialOnExit {stat : FileStat} (h : e ∈ raised (initialOnExit stat)) :
    e.isHashing = false := by
  unfold initialOnExit at h
  split at h
  · cases List.mem_singleton.mp h
    rfl
  · split at h
    · cases List.mem_singleton.mp h
      rfl
    · split_ifs at h
      · cases List.mem_singleton.mp h
        rfl
      · cases h

/-- The end of the file. -/
theorem hashEvent_finishHash {file : List UInt8} {state : HasherStateData}
    (hdigest : w.sha256 = sha256) (hopened : Opened log file)
    (h : HashesTo sha256 file file.length state) (he : e ∈ raised (finishHash w state)) :
    HashEvent sha256 (log ++ finishHash w state) state.filesize e := by
  have hdata := h.hashData
  unfold finishHash at he ⊢
  simp only [Sha256Hasher.digest, hdigest, raised_append, List.mem_append] at he ⊢
  rcases he with he | he
  · rw [(inert_assertThat _ _).1] at he
    cases he
  · split at he
    · rename_i e' hverify
      cases List.mem_singleton.mp he
      exact hashEvent_of_not_isHashing (isHashing_verifyFileUnchanged hverify)
    · cases List.mem_singleton.mp he
      refine ⟨file, hopened.mono (List.subset_append_left _ _), fun hno => hdata.length_eq ?_,
        hdata⟩
      by_contra hne
      refine hno (List.mem_append_right _ (List.mem_append_left _ ?_))
      rw [assertThat, if_neg hne]
      exact List.mem_singleton_self _

theorem hashEvent_readFile {state : HasherStateData} {fileIo : FileIO} {readBytePos : ℕ}
    (hdigest : w.sha256 = sha256)
    (h : HashEvent sha256 log filesize (.hashReadNext state fileIo readBytePos))
    (he : e ∈ raised (readFile w state fileIo readBytePos)) :
    HashEvent sha256 (log ++ readFile w state fileIo readBytePos) filesize e := by
  obtain ⟨hsize, hopened, hblock, hpos, hashes⟩ := h
  unfold readFile at he ⊢
  split at he
  · rename_i hverify
    cases List.mem_singleton.mp he
    exact hashEvent_of_not_isHashing (isHashing_verifyFileUnchanged hverify)
  · simp only [hdigest] at he ⊢
    split at he
    · rename_i bytes _ hread
      obtain ⟨rfl, hend⟩ := FileIO.read_endOfFile hread
      rw [hpos] at he hend ⊢
      rcases hashes.read hblock hashes.le hend le_rfl with
        ⟨_, hparse⟩ | ⟨state', hparse, hfile, hnext⟩
      · simp only [hparse] at he
        cases he
      · simp only [hparse] at he ⊢
        rw [← hsize, ← hfile]
        exact hashEvent_finishHash hdigest hopened hnext he
    · cases List.mem_singleton.mp he
      trivial
    · rename_i bytes file' hread
      obtain ⟨rfl, hle, rfl⟩ := FileIO.read_block (by norm_num) hread
      rw [hpos] at he hle ⊢
      rcases hashes.read hblock (Nat.le_add_right _ _) le_rfl hle with
        ⟨_, hparse⟩ | ⟨state', hparse, hfile, hnext⟩
      · simp only [hparse] at he
        cases he
      · simp only [hparse] at he ⊢
        cases List.mem_singleton.mp he
        exact ⟨hfile.trans hsize, hopened.mono (List.subset_append_left _ _),
          hblock.add (by norm_num), rfl, hnext⟩

theorem hash_applyAll {effects : List Effect} (h : ∀ x ∈ effects, told x = none) :
    (m.applyAll effects).hash = m.hash := by
  refine UploadStateMachine.applyAll_same (·.hash) fun x hx m' => ?_
  cases x with
  | write write =>
    cases write with
    | completeHashData => cases h _ hx
    | _ => rfl
  | _ => rfl

theorem untold_onExit {source : State} (h : x ∈ onExit w m source) :
    told x = none ∧ toldUnit x = none := by
  cases fromExit_onExit h <;> exact ⟨rfl, rfl⟩

theorem untold_readFile {state : HasherStateData} {fileIo : FileIO} {readBytePos : ℕ}
    (h : x ∈ readFile w state fileIo readBytePos) : told x = none ∧ toldUnit x = none := by
  unfold readFile at h
  split at h
  · cases List.mem_singleton.mp h
    exact ⟨rfl, rfl⟩
  · split at h
    · split at h
      · cases List.mem_singleton.mp h
        exact ⟨rfl, rfl⟩
      · unfold finishHash at h
        rcases List.mem_append.mp h with h | h
        · exact told_of_mute (mute_assertThat h)
        · split at h <;> cases List.mem_singleton.mp h <;> exact ⟨rfl, rfl⟩
    · cases List.mem_singleton.mp h
      exact ⟨rfl, rfl⟩
    · split at h <;> cases List.mem_singleton.mp h <;> exact ⟨rfl, rfl⟩

theorem untold_setupHasher (h : x ∈ setupHasherOnEntry m) : told x = none ∧ toldUnit x = none := by
  unfold setupHasherOnEntry at h
  rcases List.mem_append.mp h with h | h
  · exact told_of_mute (mute_setCountState h)
  · split at h <;> cases List.mem_singleton.mp h <;> exact ⟨rfl, rfl⟩

theorem untold_completeWithError {evt : Event} (hhash : m.hash = "")
    (h : x ∈ onEntry m .completeWithError evt) : told x = none ∧ toldUnit x = none := by
  have herror {ec : ErrorCode} {description : String}
      (hx : x ∈ completeWithErrorOnEntry m ec description) :
      told x = none ∧ toldUnit x = none := by
    unfold completeWithErrorOnEntry at hx
    rcases List.mem_append.mp hx with hx | hx
    · exact told_of_mute (mute_setCountState hx)
    · rw [if_pos hhash] at hx
      simp only [List.mem_cons, List.not_mem_nil, or_false] at hx
      rcases hx with rfl | rfl <;> exact ⟨rfl, rfl⟩
  cases evt with
  | error | hashError => exact herror h
  | _ => cases h

/-- The transitions before there is a hash tell none. -/
theorem untold_fire {start target : State} {evt : Event} {action : Action}
    (hrow : transitionTable m.state evt (m.hash ≠ "") = some (target, action))
    (hkind : HashRow start evt target action) (haction : action ≠ .saveHash)
    (hhash : m.hash = "") (h : x ∈ m.fire w evt) : told x = none ∧ toldUnit x = none := by
  have huntold : ∀ y ∈ action.effects w (m.exited w) evt, told y = none ∧ toldUnit y = none := by
    intro y hy
    cases hkind with
    | openFile state =>
      simp only [Action.effects, Uploader.openFile] at hy
      split at hy <;> cases List.mem_singleton.mp hy <;> exact ⟨rfl, rfl⟩
    | readFile => exact untold_readFile hy
    | save => exact absurd rfl haction
    | _ => cases hy
  have hacted : (m.acted w evt action).hash = "" := by
    rw [UploadStateMachine.acted, hash_applyAll fun y hy => (huntold y hy).1,
      UploadStateMachine.exited, hash_applyAll fun y hy => (untold_onExit hy).1, hhash]
  rw [UploadStateMachine.fire_row hrow] at h
  simp only [List.mem_append, List.mem_singleton] at h
  rcases h with ((h | h) | h) | rfl
  · exact untold_onExit h
  · exact huntold x h
  · cases hkind with
    | start =>
      simp only [onEntry, List.mem_cons, List.not_mem_nil, or_false] at h
      rcases h with rfl | rfl <;> exact ⟨rfl, rfl⟩
    | begin => exact untold_setupHasher h
    | openFile =>
      cases List.mem_singleton.mp h
      exact ⟨rfl, rfl⟩
    | readFile => cases h
    | save => exact absurd rfl haction
    | fail => exact untold_completeWithError hacted h
  · exact ⟨rfl, rfl⟩

/-- The size of the file is only looked up on leaving `Initial`. -/
theorem filesize_fire {evt : Event} (hs : m.state ≠ .initial) :
    (m.applyAll (m.fire w evt)).filesize = m.filesize := by
  refine UploadStateMachine.applyAll_same (·.filesize) fun x hx m' => ?_
  unfold UploadStateMachine.fire at hx
  split_ifs at hx
  · cases hx
  · split at hx
    · cases List.mem_singleton.mp hx
      rfl
    · simp only [List.mem_append, List.mem_singleton] at hx
      rcases hx with ((hx | hx) | hx) | rfl
      · exact congrArg (·.2.2.2) (hashData_apply (m := m') (mute_onExit hs hx))
      · cases fromAction_effects hx <;> rfl
      · cases fromEntry_onEntry hx <;> rfl
      · rfl

theorem isHashing_onExit {source : State} (he : e ∈ raised (onExit w m source)) :
    e.isHashing = false := by
  cases source with
  | initial => exact isHashing_error_initialOnExit he
  | uploadChunk =>
    simp only [onExit] at he
    split_ifs at he <;> cases he
  | _ => cases he

end Before

/-! ### Every run -/

structure FileInv (sha256 : List UInt8 → String) (u : Upload) : Prop where
  events : ∀ e ∈ u.inFlight, HashEvent sha256 u.log u.machine.filesize e
  fresh : u.machine.state = .initial → ∀ e ∈ u.inFlight, e.isHashing = false
  tells : TellsHash sha256 u

section Run
variable {sha256 : List UInt8 → String} {u u' : Upload} {events : Multiset Event}
  {calls : List ApiRequest} {timers : List String} {effects : List Effect} {file : List UInt8}

theorem isHashing_of_loyal {m : UploadStateMachine} (h : ∀ x ∈ effects, Loyal m x) {e : Event}
    (he : e ∈ raised effects) : e.isHashing = false := by
  have hevent : ∀ x ∈ effects, (x = .processEvent e ∨ x = .processEventNow e ∨ x = .postEvent e) →
      e.isHashing = false := by
    rintro x hx hcase
    cases h x hx with
    | mute hmute => rcases hcase with rfl | rfl | rfl <;> simpa [mute] using hmute
    | call _ hcall _ _ => subst hcall; rcases hcase with hc | hc | hc <;> cases hc
    | status _ hstatus _ => subst hstatus; rcases hcase with hc | hc | hc <;> cases hc
  rcases mem_raised.mp he with hx | hx | hx
  · exact hevent _ hx (.inl rfl)
  · exact hevent _ hx (.inr (.inl rfl))
  · exact hevent _ hx (.inr (.inr rfl))

/-- Events that were in flight, or are raised now. -/
theorem hashEvents_of_executes (h : u.FileInv sha256)
    (hexec : u.Executes u' events calls timers effects) (hevents : events ≤ u.inFlight)
    (hsize : u'.machine.filesize = u.machine.filesize)
    (hraised : ∀ e ∈ raised effects, HashEvent sha256 (u.log ++ effects) u.machine.filesize e) :
    ∀ e ∈ u'.inFlight, HashEvent sha256 u'.log u'.machine.filesize e := by
  intro e he
  rw [hexec.inFlight, Multiset.mem_add] at he
  rw [hexec.log, hsize]
  rcases he with he | he
  · exact (h.events e (Multiset.mem_of_le hevents he)).mono (List.subset_append_left _ _)
  · exact hraised e he

/-- Loyal effects keep what is known of the file. -/
theorem HashedFile.of_loyal (h : HashedFile sha256 u file)
    (hexec : u.Executes u' events calls timers effects)
    (hloyal : ∀ x ∈ effects, Loyal u.machine x) : HashedFile sha256 u' file := by
  have hsame : hashData u'.machine = hashData u.machine := by
    rw [hexec.machine]
    exact hashData_applyAll hloyal
  obtain ⟨hhash, hranges, hhashes, hsize⟩ : _ ∧ _ ∧ _ ∧ _ := by
    simpa only [hashData, Prod.mk.injEq] using hsame
  refine ⟨?_, ?_, ?_, ?_, ?_⟩
  · rw [hexec.log]
    exact h.opened.mono (List.subset_append_left _ _)
  · rw [hhash, hranges, hhashes, hsize]
    exact h.data
  · intro hno
    rw [hsize]
    refine h.whole fun hmem => hno ?_
    rw [hexec.log]
    exact List.mem_append_left _ hmem
  · intro x hx hash htold
    rw [hexec.log] at hx
    rcases List.mem_append.mp hx with hx | hx
    · exact h.told x hx hash htold
    · rw [(hloyal x hx).told htold, h.data.whole]
  · intro x hx chunkId unitHash htold
    rw [hranges]
    rw [hexec.log] at hx
    rcases List.mem_append.mp hx with hx | hx
    · exact h.units x hx chunkId unitHash htold
    · exact h.data.of_getElem? ((hloyal x hx).toldUnit htold)

/-- Mute effects that leave the state. -/
theorem FileInv.of_mute (h : u.FileInv sha256)
    (hexec : u.Executes u' events calls timers effects) (hevents : events ≤ u.inFlight)
    (hmute : ∀ x ∈ effects, mute x = true) (hstate : u'.machine.state = u.machine.state) :
    u'.FileInv sha256 := by
  have hloyal : ∀ x ∈ effects, Loyal u.machine x := fun x hx => .mute (hmute x hx)
  have hsame : hashData u'.machine = hashData u.machine := by
    rw [hexec.machine]
    exact hashData_applyAll hloyal
  have hraised : ∀ e ∈ raised effects, e.isHashing = false := fun e he =>
    isHashing_of_loyal hloyal he
  refine ⟨hashEvents_of_executes h hexec hevents (congrArg (·.2.2.2) hsame) fun e he =>
    hashEvent_of_not_isHashing (hraised e he), fun hs e he => ?_, ?_⟩
  · rw [hexec.inFlight, Multiset.mem_add] at he
    rcases he with he | he
    · exact h.fresh (hstate ▸ hs) e (Multiset.mem_of_le hevents he)
    · exact hraised e he
  · cases h.tells with
    | before hs hhash htold =>
      refine .before (hstate ▸ hs) ((congrArg Prod.fst hsame).trans hhash) fun x hx => ?_
      rw [hexec.log] at hx
      exact (List.mem_append.mp hx).elim (htold x) fun hx => told_of_mute (hmute x hx)
    | after hs file hfile => exact .after (hstate ▸ hs) file (hfile.of_loyal hexec hloyal)

/-- What the transitions before there is a hash raise. -/
theorem hashEvent_fire {w : World} (hw : Hashes sha256 w) {m : UploadStateMachine}
    {log : List Effect} {start target : State} {evt e : Event} {action : Action}
    (hs : m.state = start)
    (hrow : transitionTable m.state evt (m.hash ≠ "") = some (target, action))
    (hkind : HashRow start evt target action) (hevt : HashEvent sha256 log m.filesize evt)
    (he : e ∈ raised (m.fire w evt)) :
    e.isHashing = false ∨
      start ≠ .initial ∧ HashEvent sha256 (log ++ m.fire w evt) m.filesize e := by
  have hfire := UploadStateMachine.fire_row (w := w) hrow
  have hsub : action.effects w (m.exited w) evt ⊆ m.fire w evt := by
    rw [hfire]
    intro x hx
    simp [hx]
  rw [hfire] at he
  simp only [raised_append, List.mem_append] at he
  rcases he with ((he | he) | he) | he
  · exact .inl (isHashing_onExit he)
  · cases hkind with
    | openFile state =>
      simp only [Action.effects] at he hsub
      unfold Uploader.openFile at he hsub
      split at he
      · cases List.mem_singleton.mp he
        exact .inl rfl
      · rename_i fileIo hopen
        cases List.mem_singleton.mp he
        simp only [hopen] at hsub
        refine .inr ⟨by simp, hevt.1, ⟨state, fileIo, ?_, rfl⟩, by norm_num,
          hw.beginning fileIo hopen, hevt.2 _⟩
        exact List.mem_append_right _ (hsub (List.mem_singleton_self _))
    | readFile state fileIo readBytePos =>
      have hread := hashEvent_readFile hw.digest hevt he
      refine .inr ⟨by simp, hread.mono fun x hx => ?_⟩
      exact (List.mem_append.mp hx).elim (List.mem_append_left _)
        fun hx => List.mem_append_right _ (hsub hx)
    | _ => cases he
  · by_cases hsetup : target = .setupHasher
    · subst hsetup
      cases hkind
      have hacted : m.acted w .startHash .none = m := by
        rw [UploadStateMachine.acted, UploadStateMachine.exited, hs]
        rfl
      rw [hacted] at he
      simp only [onEntry, setupHasherOnEntry, raised_append, List.mem_append] at he
      rcases he with he | he
      · rw [(inert_setCountState _ _).1] at he
        cases he
      · split at he
        · cases he
        · rename_i ranges hranges
          cases List.mem_singleton.mp he
          exact .inr ⟨by simp, rfl, fun file => .initial hranges _⟩
    · exact .inl (isHashing_of_loyal (fun x hx => loyal_onEntry hsetup hx) he)
  · cases he

/-- The hash is adopted. -/
theorem hashedFile_of_save {w : World} {state : HasherStateData} {hash : String}
    (hs : u.machine.state = .hashing)
    (hevt : HashEvent sha256 u.log u.machine.filesize (.hashSuccess state hash))
    (htold : ∀ x ∈ u.log, told x = none ∧ toldUnit x = none)
    (hexec : u.Executes u' events calls timers (u.machine.fire w (.hashSuccess state hash))) :
    ∃ file, HashedFile sha256 u' file := by
  have hfire : u.machine.fire w (.hashSuccess state hash) =
      [.write (.completeHashData hash state.chunkRanges state.chunkHashes),
        .callback .handleAddToUpload, .sendStatus .enqueuedForUpload,
        .write (.state .waitForUploadSignal)] := by
    rw [UploadStateMachine.fire_row (show transitionTable _ _ _ =
      some (.waitForUploadSignal, .saveHash) by rw [hs]; rfl), hs]
    rfl
  obtain ⟨file, hopened, hwhole, hdata⟩ := hevt
  have hlog := hexec.log
  have hmachine := hexec.machine
  rw [hfire] at hlog hmachine
  refine ⟨file, ?_, ?_, ?_, fun x hx => ?_, fun x hx => ?_⟩
  · rw [hlog]
    exact hopened.mono (List.subset_append_left _ _)
  · rw [hmachine]
    exact hdata
  · intro hno
    rw [hmachine]
    exact hwhole fun hmem => hno (hlog ▸ List.mem_append_left _ hmem)
  · rw [hlog] at hx
    intro hash' hx'
    rcases List.mem_append.mp hx with hx | hx
    · simp [htold x hx] at hx'
    · simp only [List.mem_cons, List.not_mem_nil, or_false] at hx
      rcases hx with rfl | rfl | rfl | rfl <;> cases hx'
      exact hdata.whole
  · rw [hlog] at hx
    intro chunkId unitHash hx'
    rcases List.mem_append.mp hx with hx | hx
    · simp [htold x hx] at hx'
    · simp only [List.mem_cons, List.not_mem_nil, or_false] at hx
      rcases hx with rfl | rfl | rfl | rfl <;> cases hx'

theorem FileInv.before (h : u.FileInv sha256) {w : World} (hw : Hashes sha256 w) {evt : Event}
    (hrest : u.inFlight = evt ::ₘ events)
    (hexec : u.Executes u' events calls timers (u.machine.fire w evt))
    (hs : u.machine.state.isBeforeHash = true) (hhash : u.machine.hash = "")
    (htold : ∀ x ∈ u.log, told x = none ∧ toldUnit x = none) {target : State} {action : Action}
    (hrow : transitionTable u.machine.state evt (u.machine.hash ≠ "") = some (target, action)) :
    u'.FileInv sha256 := by
  have hkind : HashRow u.machine.state evt target action := by
    refine row_beforeHash ?_ hs
    rwa [hhash] at hrow
  have hevents : events ≤ u.inFlight := hrest ▸ Multiset.le_cons_self _ _
  have hevt : HashEvent sha256 u.log u.machine.filesize evt :=
    h.events evt (hrest ▸ Multiset.mem_cons_self _ _)
  have hstate : u'.machine.state = target := by
    rw [hexec.machine]
    exact UploadStateMachine.applyAll_fire_row_state hrow
  have hraised := fun e (he : e ∈ raised (u.machine.fire w evt)) =>
    hashEvent_fire hw rfl hrow hkind hevt he
  refine ⟨?_, fun hno => ?_, ?_⟩
  · by_cases hinitial : u.machine.state = .initial
    · -- nothing about the hash is in flight yet
      intro e he
      refine hashEvent_of_not_isHashing ?_
      rw [hexec.inFlight, Multiset.mem_add] at he
      rcases he with he | he
      · exact h.fresh hinitial e (Multiset.mem_of_le hevents he)
      · exact (hraised e he).resolve_right fun hno => hno.1 hinitial
    · refine hashEvents_of_executes h hexec hevents ?_ fun e he => ?_
      · rw [hexec.machine, filesize_fire hinitial]
      · exact (hraised e he).elim hashEvent_of_not_isHashing (·.2)
  · rw [hstate] at hno
    subst hno
    generalize u.machine.state = start at hkind
    cases hkind
  · by_cases hsave : action = .saveHash
    · subst hsave
      generalize hstart : u.machine.state = start at hkind
      cases hkind with
      | save state hash =>
        obtain ⟨file, hfile⟩ := hashedFile_of_save hstart hevt htold hexec
        exact .after (by rw [hstate]; rfl) file hfile
    · have huntold : ∀ x ∈ u.machine.fire w evt, told x = none ∧ toldUnit x = none :=
        fun x hx => untold_fire hrow hkind hsave hhash hx
      refine .before ?_ ?_ fun x hx => ?_
      · rw [hstate]
        generalize u.machine.state = start at hkind
        cases hkind with
        | save => exact absurd rfl hsave
        | fail => exact .inr rfl
        | _ => exact .inl rfl
      · rw [hexec.machine, hash_applyAll fun x hx => (huntold x hx).1, hhash]
      · rw [hexec.log] at hx
        exact (List.mem_append.mp hx).elim (htold x) (huntold x)

/-- A transition once there is a hash. -/
theorem FileInv.after (h : u.FileInv sha256) {w : World} {evt : Event}
    (hexec : u.Executes u' events calls timers (u.machine.fire w evt))
    (hevents : events ≤ u.inFlight) (hs : u.machine.state.isBeforeHash = false)
    (hfile : HashedFile sha256 u file) {target : State} {action : Action}
    (hrow : transitionTable u.machine.state evt (u.machine.hash ≠ "") = some (target, action)) :
    u'.FileInv sha256 := by
  have hloyal : ∀ x ∈ u.machine.fire w evt, Loyal u.machine x := fun x hx => loyal_fire hrow hs hx
  have hsame : hashData u'.machine = hashData u.machine := by
    rw [hexec.machine]
    exact hashData_applyAll hloyal
  have hstate : u'.machine.state = target := by
    rw [hexec.machine]
    exact UploadStateMachine.applyAll_fire_row_state hrow
  have htarget : u'.machine.state.isBeforeHash = false := hstate ▸ (row_behindHash hrow hs).1
  refine ⟨hashEvents_of_executes h hexec hevents (congrArg (·.2.2.2) hsame) fun e he =>
    hashEvent_of_not_isHashing (isHashing_of_loyal hloyal he), fun hno => ?_,
    .after htarget file (hfile.of_loyal hexec hloyal)⟩
  rw [hno] at htarget
  cases htarget

/-- The step of an action that handles an event reads what the action says from outside. -/
theorem executes_of_handled {act : Act} {evt : Event} (h : u.step act = some u')
    (hact : u.handled act = some evt) :
    ∃ w rest, act.world = some w ∧ u.inFlight = evt ::ₘ rest ∧
      u.Executes u' rest u.calls u.timers (u.machine.fire w evt) := by
  cases act with
  | next w inline =>
    rw [Upload.step] at h
    split at h
    · cases h
    · rename_i first queue hqueue
      obtain ⟨hm, hl, hf, hc, ht, hd⟩ := executes_of_process h
      have hfirst : first = evt := by simpa [handled, hqueue] using hact
      subst hfirst
      refine ⟨w, ↑(queue ++ u.pending), rfl, ?_, hm, hl, hf, hc, ht, hd⟩
      simp only [inFlight, hqueue, List.cons_append, Multiset.cons_coe]
  | deliver i w inline =>
    rw [Upload.step] at h
    split_ifs at h with hqueue
    rw [handled, if_pos hqueue] at hact
    rw [hact] at h
    obtain ⟨hm, hl, hf, hc, ht, hd⟩ := executes_of_process h
    obtain ⟨hi, rfl⟩ := List.getElem?_eq_some_iff.mp hact
    refine ⟨w, ↑(u.pending.eraseIdx i), rfl, ?_, hm, hl, ?_, hc, ht, hd⟩
    · rw [inFlight, hqueue, List.nil_append, Multiset.cons_coe, Multiset.coe_eq_coe]
      exact (List.getElem_cons_eraseIdx_perm hi).symm
    · simpa only [inFlight, hqueue, List.nil_append] using hf
  | _ => cases hact

theorem FileInv.step {act : Act} (h : u.FileInv sha256)
    (hw : ∀ w, act.world = some w → Hashes sha256 w) (hs : u.step act = some u') :
    u'.FileInv sha256 := by
  cases step_cases hs with
  | @arrive evt houtside hexec =>
    refine h.of_mute hexec le_rfl (fun x hx => ?_) (by rw [hexec.machine]; rfl)
    cases List.mem_singleton.mp hx
    cases evt <;> first | rfl | cases houtside
  | event _ hact _ _ =>
    obtain ⟨w, rest, hworld, hrest, hexec⟩ := executes_of_handled hs hact
    have hevents : rest ≤ u.inFlight := hrest ▸ Multiset.le_cons_self _ _
    by_cases hterm : u.machine.state.isTerminal = true
    · rw [UploadStateMachine.fire_terminal hterm] at hexec
      exact h.of_mute hexec hevents (List.forall_mem_nil _) (by rw [hexec.machine]; rfl)
    · cases hrow : transitionTable u.machine.state _ (u.machine.hash ≠ "") with
      | none =>
        rw [UploadStateMachine.fire_noTransition (by simpa using hterm) hrow] at hexec
        refine h.of_mute hexec hevents (fun x hx => ?_) (by rw [hexec.machine]; rfl)
        cases List.mem_singleton.mp hx
        rfl
      | some row =>
        cases h.tells with
        | before hstate hhash htold =>
          refine h.before (hw w hworld) hrest hexec (hstate.resolve_right fun hend => ?_) hhash
            htold hrow
          rw [hend] at hterm
          exact hterm rfl
        | after hstate file hfile => exact h.after hexec hevents hstate hfile hrow
  | answer _ hresponse hexec =>
    refine h.of_mute hexec le_rfl (fun _ hx => mute_handleResponse hresponse hx) ?_
    rw [hexec.machine]
    refine UploadStateMachine.applyAll_state fun s hmem => ?_
    cases fromHandler_handleResponse hresponse hmem
  | @retryPoll i err uploadKey _ hexec =>
    cases err with
    | true => exact h.of_mute hexec le_rfl (List.forall_mem_nil _) (by rw [hexec.machine]; rfl)
    | false =>
      refine h.of_mute hexec le_rfl (fun _ hx => mute_startPoll hx) ?_
      rw [hexec.machine]
      refine UploadStateMachine.applyAll_state fun s hmem => ?_
      cases fromAction_startPoll hmem

theorem fileInv_create (pathFilename : String) (cloudFileName : Option String)
    (onDuplicateAction : OnDuplicateAction) :
    (create pathFilename cloudFileName onDuplicateAction).FileInv sha256 where
  events e he := absurd he (Multiset.notMem_zero e)
  fresh _ e he := absurd he (Multiset.notMem_zero e)
  tells := .before (.inl rfl) rfl fun _ hx => absurd hx List.not_mem_nil

end Run

/-- In every run an upload tells no hash but that of the one file it has read. -/
theorem run_tellsHash (sha256 : List UInt8 → String) (pathFilename : String)
    (cloudFileName : Option String) (onDuplicateAction : OnDuplicateAction) (acts : List Act)
    (hworld : ∀ act ∈ acts, ∀ w, act.world = some w → Hashes sha256 w) (u : Upload)
    (hrun : run step (create pathFilename cloudFileName onDuplicateAction) acts = some u) :
    TellsHash sha256 u := by
  have hguard : Along step (fun _ act _ => ∀ w, act.world = some w → Hashes sha256 w)
      (create pathFilename cloudFileName onDuplicateAction) acts :=
    along_of_forall fun act hact _ _ => hworld act hact
  exact (run_guarded (fun _ _ _ h hw hs => h.step hw hs) (fileInv_create ..) hguard hrun).tells

/-- A file of one byte is hashed and checked. -/
theorem run_tellsHash_smallFile :
    ∃ u, run step (create "file" none .fail)
        [.arrive .start, .deliver 0 smallFile fun _ => true, .arrive .startHash,
          .deliver 0 smallFile fun _ => true, .next smallFile fun _ => true,
          .next smallFile fun _ => true, .next smallFile fun _ => true,
          .arrive (.startUpload "token"), .deliver 0 smallFile fun _ => true] = some u ∧
      .call (.uploadCheck "file" "digest" 1 false) ∈ u.log ∧
      TellsHash (fun _ => "digest") u := by
  have hworld : Hashes (fun _ => "digest") smallFile := by
    refine ⟨rfl, fun fileIo h => ?_⟩
    cases h
    rfl
  have hcompute : (run step (create "file" none .fail)
      [.arrive .start, .deliver 0 smallFile fun _ => true, .arrive .startHash,
        .deliver 0 smallFile fun _ => true, .next smallFile fun _ => true,
        .next smallFile fun _ => true, .next smallFile fun _ => true,
        .arrive (.startUpload "token"), .deliver 0 smallFile fun _ => true]).map (fun u =>
          decide (.call (.uploadCheck "file" "digest" 1 false) ∈ u.log)) = some true := by
    decide +kernel
  obtain ⟨u, hrun, hcall⟩ := Option.map_eq_some_iff.mp hcompute
  refine ⟨u, hrun, of_decide_eq_true hcall, run_tellsHash _ _ _ _ _ ?_ u hrun⟩
  simp [Act.world, hworld]

end Upload

end MediafireSdk.Uploader
