import MediafireSdk.Uploader.Transitions

/-! Handlers of the answers to a machine's requests, and of its poll timer
(`HandleCheck`, `HandleUploadResponse`, `HandleChunkResponse`, the lambda of
`DoInstantUpload`, `HandlePollResponse`, `RetryPoll`). They run outside the state
machine and return their effects in order. A response is what the handler reads
of it. -/

namespace MediafireSdk.Uploader

open Utils

structure ResumableData where
  numberOfUnits : ℕ
  words : List ℕ

structure CheckResponse where
  errorCode : Option ErrorCode := none
  errorString : Option String := none
  fileExists : Bool := false
  hashDifferent : Bool := false
  duplicateQuickkey : Option String := none
  storageLimitExceeded : Bool := false
  hashExists : Bool := false
  resumable : Option ResumableData := none

structure InstantResponse where
  errorCode : Option ErrorCode := none
  quickkey : String
  filename : String
  newDeviceRevision : ℕ

/-- What `ResponseBase` and the property tree give for the answer to an upload: `result` and
`key` are the fields of `response.doupload`. -/
structure DoUploadResponse where
  errorCode : Option ErrorCode := none
  errorString : Option String := none
  result : Option ℤ := none
  key : Option String := none

/-- `HttpRequest::CallbackResponse` with its content parsed. -/
inductive HttpResponse where
  | failed (errorCode : ErrorCode) (errorText : Option String)
  | content (response : DoUploadResponse)

structure PollResponse where
  result : ℤ := 0
  fileerror : ℤ := 0
  quickkey : Option String := none
  revision : Option ℕ := none
  filename : Option String := none

/-! ### upload/check -/

/-- `SetBitmap` with its assertion on the number of words. -/
def UploadStateMachine.setBitmap (m : UploadStateMachine) (words : List ℕ) : List Effect :=
  assertThat (16 * (words.length - 1) < m.chunkRanges.length)
      "chunk_states_.size() < chunk_ranges_.size()" ++
    match Uploader.setBitmap m.chunkRanges.length words with
    | none => [.halted]
    | some states => [.write (.chunkStates states)]

def handleCheck (m : UploadStateMachine) (response : CheckResponse) : List Effect :=
  match response.fileExists, response.hashDifferent, response.duplicateQuickkey with
  | true, false, some quickkey => [.processEvent (.alreadyUploaded quickkey m.filename)]
  | _, _, _ =>
    if response.storageLimitExceeded then
      [.processEvent (.error (.upload .insufficientCloudStorage)
        "Account lacks sufficient storage for upload to cloud")]
    else if response.fileExists ∧ m.onDuplicateAction ≠ .replace ∧
        m.onDuplicateAction ≠ .autoRename then
      [.processEvent (.error (.upload .fileExistInFolder) "File already exists in folder.")]
    else if response.hashExists then [.processEvent .instantUpload]
    else if 1 < m.chunkRanges.length then
      match response.resumable with
      | none =>
        [.assertion "bitmap missing when it should exist", .processEvent .needsSingleUpload]
      | some resumable =>
        if resumable.numberOfUnits ≠ m.chunkRanges.length then
          [.assertion "unit count does not match chunk count", .processEvent .needsSingleUpload]
        else m.setBitmap resumable.words ++ [.processEvent .needsChunkUpload]
    else [.processEvent .needsSingleUpload]

/-- The lambda of `Check`. -/
def checkResponse (m : UploadStateMachine) (response : CheckResponse) : List Effect :=
  match response.errorCode with
  | some ec => [.processEvent (.error ec (response.errorString.getD "unknown error"))]
  | none => handleCheck m response

/-! ### upload/instant and the uploads -/

def instantResponse (response : InstantResponse) : List Effect :=
  match response.errorCode with
  | some ec => [.processEvent (.error ec "Failed to instant upload file.")]
  | none =>
    [.processEvent
      (.instantSuccess response.quickkey response.filename response.newDeviceRevision)]

/-- `HandleUploadResponse` and `HandleChunkResponse`, which differ in the event of an upload key. -/
def handleDoUpload (success : String → Event) (response : DoUploadResponse) : List Effect :=
  match response.errorCode with
  | some ec =>
    match response.result with
    | some error => [.processEvent (.error (.uploadResponse error) "Upload rejected")]
    | none => [.processEvent (.error ec (response.errorString.getD "Upload rejected"))]
  | none =>
    match response.key with
    | some uploadKey => [.processEvent (success uploadKey)]
    | none =>
      match response.result with
      | some error => [.processEvent (.error (.uploadResponse error) "Upload rejected")]
      | none =>
        [.processEvent (.error .contentInvalidData "Upload response missing uploadkey")]

def handleUploadResponse (response : DoUploadResponse) : List Effect :=
  handleDoUpload .simpleUploadComplete response

def handleChunkResponse (chunkId : ℕ) (response : DoUploadResponse) : List Effect :=
  handleDoUpload (.chunkSuccess chunkId) response

/-- The lambda given to `HttpRequest::Create`. -/
def httpResponse (handle : DoUploadResponse → List Effect) (response : HttpResponse) :
    List Effect :=
  match response with
  | .failed ec errorText => [.processEvent (.error ec (errorText.getD "Unknown error"))]
  | .content response => handle response

/-! ### upload/poll_upload -/

def handlePollCompleteResponse (m : UploadStateMachine) (response : PollResponse) : List Effect :=
  match response.quickkey, response.revision with
  | none, _ =>
    [.processEvent (.error .contentInvalidData "Successful response missing quickkey")]
  | _, none =>
    [.processEvent (.error .contentInvalidData "Successful response missing revision")]
  | some quickkey, some revision =>
    [.processEvent (.pollComplete quickkey (response.filename.getD m.filename) revision)]

/-- `HandlePollResponse`, which does not look at the error code of the response. -/
def handlePollResponse (uploadKey : String) (m : UploadStateMachine) (response : PollResponse) :
    List Effect :=
  if response.result < 0 then
    [.processEvent (.error (.pollResult response.result) "Poll upload bad response")]
  else if response.fileerror ≠ 0 then
    [.processEvent
      (.error (.pollUploadFile response.fileerror) "Poll upload file error received")]
  else if response.quickkey.isSome then handlePollCompleteResponse m response
  else [.startTimer uploadKey]

/-- `RetryPoll`. -/
def retryPoll (uploadKey : String) (err : Bool) : List Effect :=
  if err then [] else startPoll uploadKey

/-! ### Any answer -/

inductive Response where
  | check (response : CheckResponse)
  | instant (response : InstantResponse)
  | upload (response : HttpResponse)
  | poll (response : PollResponse)

/-- The handler of a request; `none` when the response is of another kind. -/
def handleResponse (m : UploadStateMachine) : ApiRequest → Response → Option (List Effect)
  | .uploadCheck .., .check response => some (checkResponse m response)
  | .uploadInstant .., .instant response => some (instantResponse response)
  | .simpleUpload _, .upload response => some (httpResponse handleUploadResponse response)
  | .chunkUpload chunkId _, .upload response =>
    some (httpResponse (handleChunkResponse chunkId) response)
  | .pollUpload uploadKey, .poll response => some (handlePollResponse uploadKey m response)
  | _, _ => none

/-! ### What a handler does -/

/-- A handler only writes the bitmap, raises events and starts the wait for another poll. -/
inductive FromHandler (r : ApiRequest) : Effect → Prop
  | chunkStates (states : List ChunkState) : FromHandler r (.write (.chunkStates states))
  | processEvent (e : Event) : FromHandler r (.processEvent e)
  | startTimer (uploadKey : String) (h : r = .pollUpload uploadKey) :
    FromHandler r (.startTimer uploadKey)
  | assertion (text : String) : FromHandler r (.assertion text)
  | halted : FromHandler r .halted

theorem fromHandler_check {m : UploadStateMachine} {response : CheckResponse} {r : ApiRequest}
    {x : Effect} (h : x ∈ checkResponse m response) : FromHandler r x := by
  unfold checkResponse at h
  split at h
  · rw [List.mem_singleton.mp h]; constructor
  · unfold handleCheck at h
    split at h
    · rw [List.mem_singleton.mp h]; constructor
    · split_ifs at h
      · rw [List.mem_singleton.mp h]; constructor
      · rw [List.mem_singleton.mp h]; constructor
      · rw [List.mem_singleton.mp h]; constructor
      · split at h
        · simp only [List.mem_cons, List.not_mem_nil, or_false] at h
          rcases h with rfl | rfl <;> constructor
        · split_ifs at h
          · simp only [List.mem_cons, List.not_mem_nil, or_false] at h
            rcases h with rfl | rfl <;> constructor
          · rcases List.mem_append.mp h with h | h
            · unfold UploadStateMachine.setBitmap at h
              rcases List.mem_append.mp h with h | h
              · rw [mem_assertThat h]; constructor
              · split at h <;> rw [List.mem_singleton.mp h] <;> constructor
            · rw [List.mem_singleton.mp h]; constructor
      · rw [List.mem_singleton.mp h]; constructor

theorem fromHandler_doUpload {success : String → Event} {response : DoUploadResponse}
    {r : ApiRequest} {x : Effect} (h : x ∈ handleDoUpload success response) : FromHandler r x := by
  unfold handleDoUpload at h
  repeat' split at h
  all_goals rw [List.mem_singleton.mp h]; constructor

/-- The answer to a poll raises one event or waits for the next poll. -/
theorem handlePollResponse_cases (uploadKey : String) (m : UploadStateMachine)
    (response : PollResponse) :
    (∃ ec description, handlePollResponse uploadKey m response =
        [.processEvent (.error ec description)]) ∨
      (∃ quickkey filename revision, handlePollResponse uploadKey m response =
        [.processEvent (.pollComplete quickkey filename revision)]) ∨
      handlePollResponse uploadKey m response = [.startTimer uploadKey] := by
  unfold handlePollResponse
  split_ifs
  · exact .inl ⟨_, _, rfl⟩
  · exact .inl ⟨_, _, rfl⟩
  · unfold handlePollCompleteResponse
    split
    · exact .inl ⟨_, _, rfl⟩
    · exact .inl ⟨_, _, rfl⟩
    · exact .inr (.inl ⟨_, _, _, rfl⟩)
  · exact .inr (.inr rfl)

theorem fromHandler_poll {uploadKey : String} {m : UploadStateMachine} {response : PollResponse}
    {x : Effect} (h : x ∈ handlePollResponse uploadKey m response) :
    FromHandler (.pollUpload uploadKey) x := by
  rcases handlePollResponse_cases uploadKey m response with ⟨_, _, he⟩ | ⟨_, _, _, he⟩ | he <;>
    rw [he, List.mem_singleton] at h <;> subst h
  · constructor
  · constructor
  · exact .startTimer _ rfl

theorem fromHandler_handleResponse {m : UploadStateMachine} {r : ApiRequest} {response : Response}
    {effects : List Effect} (h : handleResponse m r response = some effects) {x : Effect}
    (hx : x ∈ effects) : FromHandler r x := by
  unfold handleResponse at h
  split at h <;> cases h
  · exact fromHandler_check hx
  · unfold instantResponse at hx
    split at hx <;> rw [List.mem_singleton.mp hx] <;> constructor
  all_goals
    first
    | exact fromHandler_poll hx
    | (unfold httpResponse at hx
       split at hx
       · rw [List.mem_singleton.mp hx]; constructor
       · exact fromHandler_doUpload hx)

end MediafireSdk.Uploader
