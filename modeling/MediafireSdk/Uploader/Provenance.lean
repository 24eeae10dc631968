import MediafireSdk.Uploader.ToldHash

/-! Where the requests and the result of an upload come from. The answers that came
are kept beside the upload. Whatever effect a transition or a handler has, the
answers so far give the reason for it: data is sent only when the server has asked
for it, a poll is made for a key that an upload was given, and an upload is complete
with what one answer says. -/

namespace MediafireSdk.Uploader

/-- The events that an answer leads to. -/
def Event.isAnswer : Event → Bool
  | .needsSingleUpload | .needsChunkUpload | .instantUpload | .alreadyUploaded .. | .chunkSuccess ..
  | .simpleUploadComplete _ | .chunkUploadComplete _ | .instantSuccess .. | .pollComplete .. => true
  | _ => false

namespace Upload

open Runs

abbrev Answers := List (ApiRequest × Response)

/-- Keeps the answers that come, each with its request. -/
def answered (u : Upload) (act : Act) (answers : Answers) : Answers :=
  match act with
  | .answer i response =>
    match u.calls[i]? with
    | some request => answers ++ [(request, response)]
    | none => answers
  | _ => answers

/-! ### Reasons -/

/-- The server was asked about the file, and answered without an error. -/
def Checked (answers : Answers) (m : UploadStateMachine) (response : CheckResponse) : Prop :=
  response.errorCode = none ∧ ∃ resumable,
    (.uploadCheck m.filename m.hash m.filesize resumable, .check response) ∈ answers

/-- The server has a file with this hash. -/
def HashExists (answers : Answers) (m : UploadStateMachine) : Prop :=
  ∃ response, Checked answers m response ∧ response.hashExists = true ∧
    response.storageLimitExceeded = false ∧
    (response.fileExists = true → m.onDuplicateAction ≠ .fail)

/-- The server does not have the file, but has room for it, and no file of this name is there
unless it may be replaced or the new one renamed. -/
def HashMissing (answers : Answers) (m : UploadStateMachine) : Prop :=
  ∃ response, Checked answers m response ∧ response.hashExists = false ∧
    response.storageLimitExceeded = false ∧
    (response.fileExists = true → m.onDuplicateAction ≠ .fail)

/-- An upload of data was given a key. -/
def Acknowledged (answers : Answers) (uploadKey : String) : Prop :=
  uploadKey ≠ "" ∧ ∃ request response, (request, .upload (.content response)) ∈ answers ∧
    ((∃ post, request = .simpleUpload post) ∨ ∃ chunkId post, request = .chunkUpload chunkId post) ∧
      response.errorCode = none ∧ response.key = some uploadKey

/-- What a complete upload rests on. -/
inductive Completed (answers : Answers) (m : UploadStateMachine) :
    (quickkey filename : String) → (newRevision : Option ℕ) → Prop
  | duplicate (response : CheckResponse) (quickkey : String)
      (hchecked : Checked answers m response) (hexists : response.fileExists = true)
      (hsame : response.hashDifferent = false)
      (hquickkey : response.duplicateQuickkey = some quickkey) :
    Completed answers m quickkey m.filename none
  | instant (response : InstantResponse) (hexists : HashExists answers m)
      (hanswer : (.uploadInstant m.filename m.hash m.filesize m.onDuplicateAction,
        .instant response) ∈ answers) (hok : response.errorCode = none) :
    Completed answers m response.quickkey response.filename (some response.newDeviceRevision)
  | polled (uploadKey quickkey : String) (revision : ℕ) (response : PollResponse)
      (hmissing : HashMissing answers m) (hkey : Acknowledged answers uploadKey)
      (hanswer : (.pollUpload uploadKey, .poll response) ∈ answers)
      (hresult : 0 ≤ response.result) (herror : response.fileerror = 0)
      (hquickkey : response.quickkey = some quickkey)
      (hrevision : response.revision = some revision) :
    Completed answers m quickkey (response.filename.getD m.filename) (some revision)

/-- The reason for a request. -/
def Asked (answers : Answers) (m : UploadStateMachine) : ApiRequest → Prop
  | .uploadCheck filename hash filesize _ =>
    filename = m.filename ∧ hash = m.hash ∧ filesize = m.filesize
  | .uploadInstant filename hash filesize actionOnDuplicate =>
    (filename = m.filename ∧ hash = m.hash ∧ filesize = m.filesize ∧
      actionOnDuplicate = m.onDuplicateAction) ∧ HashExists answers m
  | .simpleUpload _ | .chunkUpload _ _ => HashMissing answers m
  | .pollUpload uploadKey => HashMissing answers m ∧ Acknowledged answers uploadKey

/-- The reason for an event. -/
def Raised (answers : Answers) (m : UploadStateMachine) : Event → Prop
  | .needsSingleUpload | .needsChunkUpload => HashMissing answers m
  | .instantUpload => HashExists answers m
  | .alreadyUploaded quickkey filename => Completed answers m quickkey filename none
  | .chunkSuccess _ uploadKey | .simpleUploadComplete uploadKey | .chunkUploadComplete uploadKey =>
    HashMissing answers m ∧ (uploadKey ≠ "" → Acknowledged answers uploadKey)
  | .instantSuccess quickkey filename newDeviceRevision
  | .pollComplete quickkey filename newDeviceRevision =>
    Completed answers m quickkey filename (some newDeviceRevision)
  | _ => True

/-- The reason for an effect. -/
def Justified (answers : Answers) (m : UploadStateMachine) : Effect → Prop
  | .call r => Asked answers m r
  | .processEvent e | .processEventNow e | .postEvent e => Raised answers m e
  | .sendStatus (.complete quickkey filename hash newRevision) =>
    hash = m.hash ∧ Completed answers m quickkey filename newRevision
  | .write (.uploadKey uploadKey) =>
    HashMissing answers m ∧ (uploadKey ≠ "" → Acknowledged answers uploadKey)
  | .startTimer uploadKey => HashMissing answers m ∧ Acknowledged answers uploadKey
  | _ => True

/-- Effects that need no reason. -/
def plain : Effect → Bool
  | .call _ | .sendStatus (.complete ..) | .write (.uploadKey _) | .startTimer _ => false
  | .processEvent e | .processEventNow e | .postEvent e => !e.isAnswer
  | _ => true

section Reasons
variable {answers answers' : Answers} {m m' : UploadStateMachine} {x : Effect}

/-- What an upload is about. -/
def subject (m : UploadStateMachine) : String × String × ℕ × OnDuplicateAction :=
  (m.filename, m.hash, m.filesize, m.onDuplicateAction)

theorem justified_of_plain (h : plain x = true) : Justified answers m x := by
  cases x with
  | call => cases h
  | startTimer => cases h
  | sendStatus s => cases s <;> trivial
  | write w => cases w <;> trivial
  | processEvent e | processEventNow e | postEvent e => cases e <;> trivial
  | _ => trivial

section Mono
variable (hsub : answers ⊆ answers') (hm : subject m' = subject m)
include hsub hm

theorem Checked.mono {response : CheckResponse} (h : Checked answers m response) :
    Checked answers' m' response := by
  obtain ⟨hok, resumable, hmem⟩ := h
  obtain ⟨hfilename, hhash, hfilesize, -⟩ : _ ∧ _ ∧ _ ∧ _ := by
    simpa only [subject, Prod.mk.injEq] using hm
  exact ⟨hok, resumable, hfilename ▸ hhash ▸ hfilesize ▸ hsub hmem⟩

theorem HashExists.mono (h : HashExists answers m) : HashExists answers' m' := by
  obtain ⟨response, hchecked, hexists, hroom, haction⟩ := h
  have heq : m'.onDuplicateAction = m.onDuplicateAction := congrArg (·.2.2.2) hm
  exact ⟨response, hchecked.mono hsub hm, hexists, hroom, heq ▸ haction⟩

theorem HashMissing.mono (h : HashMissing answers m) : HashMissing answers' m' := by
  obtain ⟨response, hchecked, hmissing, hroom, haction⟩ := h
  have heq : m'.onDuplicateAction = m.onDuplicateAction := congrArg (·.2.2.2) hm
  exact ⟨response, hchecked.mono hsub hm, hmissing, hroom, heq ▸ haction⟩

omit hm in
theorem Acknowledged.mono {uploadKey : String} (h : Acknowledged answers uploadKey) :
    Acknowledged answers' uploadKey := by
  obtain ⟨hne, request, response, hmem, hrest⟩ := h
  exact ⟨hne, request, response, hsub hmem, hrest⟩

theorem Completed.mono {quickkey filename : String} {newRevision : Option ℕ}
    (h : Completed answers m quickkey filename newRevision) :
    Completed answers' m' quickkey filename newRevision := by
  obtain ⟨hfilename, hhash, hfilesize, haction⟩ : _ ∧ _ ∧ _ ∧ _ := by
    simpa only [subject, Prod.mk.injEq] using hm
  cases h with
  | duplicate response _ hchecked hexists hsame hquickkey =>
    rw [← hfilename]
    exact .duplicate response quickkey (hchecked.mono hsub hm) hexists hsame hquickkey
  | instant response hexists hanswer hok =>
    refine .instant response (hexists.mono hsub hm) ?_ hok
    rw [hfilename, hhash, hfilesize, haction]
    exact hsub hanswer
  | polled uploadKey _ revision response hmissing hkey hanswer hresult herror hquickkey hrevision =>
    rw [← hfilename]
    exact .polled uploadKey quickkey revision response (hmissing.mono hsub hm) (hkey.mono hsub)
      (hsub hanswer) hresult herror hquickkey hrevision

theorem Asked.mono {r : ApiRequest} (h : Asked answers m r) : Asked answers' m' r := by
  obtain ⟨hfilename, hhash, hfilesize, haction⟩ : _ ∧ _ ∧ _ ∧ _ := by
    simpa only [subject, Prod.mk.injEq] using hm
  cases r with
  | uploadCheck => simpa only [Asked, hfilename, hhash, hfilesize] using h
  | uploadInstant =>
    obtain ⟨hsame, hexists⟩ := h
    refine ⟨?_, hexists.mono hsub hm⟩
    simpa only [hfilename, hhash, hfilesize, haction] using hsame
  | simpleUpload | chunkUpload => exact HashMissing.mono hsub hm h
  | pollUpload => exact ⟨h.1.mono hsub hm, h.2.mono hsub⟩

theorem Raised.mono {e : Event} (h : Raised answers m e) : Raised answers' m' e := by
  cases e with
  | needsSingleUpload | needsChunkUpload => exact HashMissing.mono hsub hm h
  | instantUpload => exact HashExists.mono hsub hm h
  | alreadyUploaded | instantSuccess | pollComplete => exact Completed.mono hsub hm h
  | chunkSuccess | simpleUploadComplete | chunkUploadComplete =>
    exact ⟨h.1.mono hsub hm, fun hne => (h.2 hne).mono hsub⟩
  | _ => trivial

/-- A reason stays one. -/
theorem Justified.mono (h : Justified answers m x) : Justified answers' m' x := by
  cases x with
  | call r => exact Asked.mono hsub hm h
  | processEvent e | processEventNow e | postEvent e => exact Raised.mono hsub hm h
  | startTimer uploadKey => exact ⟨h.1.mono hsub hm, h.2.mono hsub⟩
  | sendStatus s =>
    cases s with
    | complete =>
      have hhash : m'.hash = m.hash := congrArg (·.2.1) hm
      exact ⟨h.1.trans hhash.symm, h.2.mono hsub hm⟩
    | _ => trivial
  | write w =>
    cases w with
    | uploadKey => exact ⟨h.1.mono hsub hm, fun hne => (h.2 hne).mono hsub⟩
    | _ => trivial
  | _ => trivial

end Mono

/-! ### Answers -/

theorem justified_checkResponse {response : CheckResponse} {resumable : Bool}
    (hanswer : (.uploadCheck m.filename m.hash m.filesize resumable, .check response) ∈ answers)
    (hx : x ∈ checkResponse m response) : Justified answers m x := by
  unfold checkResponse at hx
  split at hx
  · cases List.mem_singleton.mp hx
    trivial
  · rename_i hok
    have hchecked : Checked answers m response := ⟨hok, resumable, hanswer⟩
    unfold handleCheck at hx
    split at hx
    · rename_i quickkey hexists hsame hquickkey
      cases List.mem_singleton.mp hx
      exact .duplicate response quickkey hchecked hexists hsame hquickkey
    · split_ifs at hx with hroom hname hexists hmany
      · cases List.mem_singleton.mp hx
        trivial
      · cases List.mem_singleton.mp hx
        trivial
      · cases List.mem_singleton.mp hx
        refine ⟨response, hchecked, hexists, by simpa using hroom, fun hfile hfail => hname ?_⟩
        exact ⟨hfile, by simp [hfail], by simp [hfail]⟩
      all_goals
        have hmissing : HashMissing answers m :=
          ⟨response, hchecked, by simpa using hexists, by simpa using hroom,
            fun hfile hfail => hname ⟨hfile, by simp [hfail], by simp [hfail]⟩⟩
      · split at hx
        · simp only [List.mem_cons, List.not_mem_nil, or_false] at hx
          rcases hx with rfl | rfl
          · trivial
          · exact hmissing
        · split_ifs at hx
          · simp only [List.mem_cons, List.not_mem_nil, or_false] at hx
            rcases hx with rfl | rfl
            · trivial
            · exact hmissing
          · rcases List.mem_append.mp hx with hx | hx
            · unfold UploadStateMachine.setBitmap at hx
              rcases List.mem_append.mp hx with hx | hx
              · rw [mem_assertThat hx]
                trivial
              · split at hx <;> cases List.mem_singleton.mp hx <;> trivial
            · cases List.mem_singleton.mp hx
              exact hmissing
      · cases List.mem_singleton.mp hx
        exact hmissing

/-- The answer to an upload of data. -/
theorem justified_httpResponse {success : String → Event} {request : ApiRequest}
    {response : HttpResponse} (hanswer : (request, .upload response) ∈ answers)
    (hrequest : (∃ post, request = .simpleUpload post) ∨
      ∃ chunkId post, request = .chunkUpload chunkId post)
    (hx : x ∈ httpResponse (handleDoUpload success) response)
    (hsuccess : ∀ uploadKey, (uploadKey ≠ "" → Acknowledged answers uploadKey) →
      Raised answers m (success uploadKey)) : Justified answers m x := by
  unfold httpResponse at hx
  split at hx
  · cases List.mem_singleton.mp hx
    trivial
  · rename_i content
    unfold handleDoUpload at hx
    split at hx
    · split at hx <;> cases List.mem_singleton.mp hx <;> trivial
    · rename_i hok
      split at hx
      · rename_i uploadKey hkey
        cases List.mem_singleton.mp hx
        exact hsuccess uploadKey fun hne => ⟨hne, request, content, hanswer, hrequest, hok, hkey⟩
      · split at hx <;> cases List.mem_singleton.mp hx <;> trivial

theorem justified_handlePollResponse {uploadKey : String} {response : PollResponse}
    (hanswer : (.pollUpload uploadKey, .poll response) ∈ answers)
    (hasked : Asked answers m (.pollUpload uploadKey))
    (hx : x ∈ handlePollResponse uploadKey m response) : Justified answers m x := by
  unfold handlePollResponse at hx
  split_ifs at hx with hresult herror hquickkey
  · cases List.mem_singleton.mp hx
    trivial
  · cases List.mem_singleton.mp hx
    trivial
  · unfold handlePollCompleteResponse at hx
    split at hx
    · cases List.mem_singleton.mp hx
      trivial
    · cases List.mem_singleton.mp hx
      trivial
    · rename_i quickkey revision hkey hrevision
      cases List.mem_singleton.mp hx
      exact .polled uploadKey quickkey revision response hasked.1 hasked.2 hanswer
        (not_lt.mp hresult) (not_not.mp herror) hkey hrevision
  · cases List.mem_singleton.mp hx
    exact hasked

/-- What a handler does has a reason in the answer it handles. -/
theorem justified_handleResponse {request : ApiRequest} {response : Response}
    {effects : List Effect} (h : handleResponse m request response = some effects)
    (hanswer : (request, response) ∈ answers) (hasked : Asked answers m request)
    (hx : x ∈ effects) : Justified answers m x := by
  unfold handleResponse at h
  split at h <;> cases h
  · obtain ⟨rfl, rfl, rfl⟩ := hasked
    exact justified_checkResponse hanswer hx
  · obtain ⟨⟨rfl, rfl, rfl, rfl⟩, hexists⟩ := hasked
    unfold instantResponse at hx
    split at hx
    · cases List.mem_singleton.mp hx
      trivial
    · rename_i hok
      cases List.mem_singleton.mp hx
      exact .instant _ hexists hanswer hok
  · exact justified_httpResponse hanswer (.inl ⟨_, rfl⟩) hx fun _ hkey => ⟨hasked, hkey⟩
  · exact justified_httpResponse hanswer (.inr ⟨_, _, rfl⟩) hx fun _ hkey => ⟨hasked, hkey⟩
  · exact justified_handlePollResponse hanswer hasked hx

/-! ### Transitions -/

theorem subject_applyAll {effects : List Effect}
    (h : hashData (m.applyAll effects) = hashData m) :
    subject (m.applyAll effects) = subject m := by
  have hfilename : (m.applyAll effects).filename = m.filename :=
    UploadStateMachine.applyAll_same (·.filename) fun x _ m' => by
      cases x with
      | write w => cases w <;> rfl
      | _ => rfl
  have haction : (m.applyAll effects).onDuplicateAction = m.onDuplicateAction :=
    UploadStateMachine.applyAll_same (·.onDuplicateAction) fun x _ m' => by
      cases x with
      | write w => cases w <;> rfl
      | _ => rfl
  have hhash : (m.applyAll effects).hash = m.hash := congrArg Prod.fst h
  have hfilesize : (m.applyAll effects).filesize = m.filesize := congrArg (·.2.2.2) h
  rw [subject, subject, hfilename, hhash, hfilesize, haction]

theorem plain_of_fromExit (h : FromExit x) : plain x = true := by
  cases h <;> rfl

theorem plain_assertThat {p : Prop} [Decidable p] {text : String} (h : x ∈ assertThat p text) :
    plain x = true := by
  rw [mem_assertThat h]
  rfl

theorem plain_setCountState {cs : CountState} (h : x ∈ m.setCountState cs) : plain x = true := by
  rcases UploadStateMachine.mem_setCountState h with ⟨_, rfl⟩ | rfl <;> rfl

theorem plain_setChunkState {chunkId : ℕ} {cs : ChunkState} (h : x ∈ m.setChunkState chunkId cs) :
    plain x = true := by
  unfold UploadStateMachine.setChunkState at h
  split_ifs at h <;> simp only [List.mem_cons, List.not_mem_nil, or_false] at h
  · subst h; rfl
  · rcases h with rfl | rfl <;> rfl

theorem plain_completeWithError {ec : ErrorCode} {description : String}
    (h : x ∈ completeWithErrorOnEntry m ec description) : plain x = true := by
  unfold completeWithErrorOnEntry at h
  rcases List.mem_append.mp h with h | h
  · exact plain_setCountState h
  · simp only [List.mem_cons, List.not_mem_nil, or_false] at h
    rcases h with rfl | rfl <;> rfl

section Rows
variable {w : World} {start target : State} {evt : Event} {hasHash : Bool} {action : Action}

theorem hashMissing_of_row (hrow : transitionTable start evt hasHash = some (target, action))
    (haction : action = .doSimpleUpload ∨ action = .doChunkUpload)
    (hevt : Raised answers m evt) : HashMissing answers m := by
  unfold transitionTable at hrow
  split at hrow
  case h_1 => split_ifs at hrow <;> cases hrow <;> simp at haction
  case h_11 | h_12 => exact hevt
  case h_18 => exact hevt.1
  all_goals cases hrow <;> simp at haction

theorem hashExists_of_row (hrow : transitionTable start evt hasHash = some (target, action))
    (haction : action = .doInstantUpload) (hevt : Raised answers m evt) : HashExists answers m := by
  unfold transitionTable at hrow
  split at hrow
  case h_1 => split_ifs at hrow <;> cases hrow <;> cases haction
  case h_13 => exact hevt
  all_goals cases hrow <;> cases haction

theorem justified_doSimpleUpload (hmissing : HashMissing answers m)
    (h : x ∈ doSimpleUpload w m) : Justified answers m x := by
  unfold doSimpleUpload at h
  split at h
  · cases List.mem_singleton.mp h
    trivial
  · split at h
    · cases List.mem_singleton.mp h
      trivial
    · simp only [List.mem_cons, List.not_mem_nil, or_false] at h
      rcases h with rfl | rfl
      · exact hmissing
      · trivial

theorem justified_doChunkUpload (hmissing : HashMissing answers m)
    (hkey : m.uploadKey ≠ "" → Acknowledged answers m.uploadKey)
    (h : x ∈ doChunkUpload w m) : Justified answers m x := by
  unfold doChunkUpload at h
  split at h
  · split at h
    · cases List.mem_singleton.mp h
      trivial
    · cases List.mem_singleton.mp h
      trivial
    · rcases List.mem_append.mp h with h | h
      · exact justified_of_plain (plain_setChunkState h)
      · simp only [List.mem_cons, List.not_mem_nil, or_false] at h
        rcases h with rfl | rfl
        · exact hmissing
        · trivial
  · rcases List.mem_append.mp h with h | h
    · exact justified_of_plain (plain_assertThat h)
    · cases List.mem_singleton.mp h
      exact ⟨hmissing, hkey⟩

theorem justified_startPoll {uploadKey : String} (hmissing : HashMissing answers m)
    (hkey : uploadKey ≠ "" → Acknowledged answers uploadKey) (h : x ∈ startPoll uploadKey) :
    Justified answers m x := by
  unfold startPoll at h
  split_ifs at h with hempty <;> simp only [List.mem_cons, List.not_mem_nil, or_false] at h
  · rcases h with rfl | rfl <;> trivial
  · subst h
    exact ⟨hmissing, hkey hempty⟩

theorem justified_action (hrow : transitionTable start evt hasHash = some (target, action))
    (hs : start.isBeforeHash = false) (hevt : Raised answers m evt)
    (hkey : m.uploadKey ≠ "" → Acknowledged answers m.uploadKey)
    (h : x ∈ action.effects w m evt) : Justified answers m x := by
  obtain ⟨-, hopen, hread, hsave⟩ := row_behindHash hrow hs
  cases action <;> simp only [Action.effects, List.not_mem_nil] at h
  case openFile => exact absurd rfl hopen
  case readFile => exact absurd rfl hread
  case saveHash => exact absurd rfl hsave
  case check =>
    cases List.mem_singleton.mp h
    exact ⟨rfl, rfl, rfl⟩
  case doSimpleUpload => exact justified_doSimpleUpload (hashMissing_of_row hrow (.inl rfl) hevt) h
  case doChunkUpload =>
    exact justified_doChunkUpload (hashMissing_of_row hrow (.inr rfl) hevt) hkey h
  case doInstantUpload =>
    cases List.mem_singleton.mp h
    exact ⟨⟨rfl, rfl, rfl, rfl⟩, hashExists_of_row hrow rfl hevt⟩
  case pollUpload =>
    split at h
    · exact justified_startPoll hevt.1 hevt.2 h
    · exact justified_startPoll hevt.1 hevt.2 h
    · cases h

theorem justified_completeWithSuccess {quickkey filename : String} {newRevision : Option ℕ}
    (hcompleted : Completed answers m quickkey filename newRevision)
    (h : x ∈ completeWithSuccessOnEntry m quickkey filename newRevision) :
    Justified answers m x := by
  simp only [completeWithSuccessOnEntry, List.mem_append] at h
  rcases h with (h | h) | h
  · exact justified_of_plain (plain_assertThat h)
  · exact justified_of_plain (plain_setCountState h)
  · simp only [List.mem_cons, List.not_mem_nil, or_false] at h
    rcases h with rfl | rfl
    · exact ⟨rfl, hcompleted⟩
    · trivial

theorem justified_onEntry (hevt : Raised answers m evt) (htarget : target ≠ .setupHasher)
    (h : x ∈ onEntry m target evt) : Justified answers m x := by
  unfold onEntry at h
  split at h
  case h_2 => exact absurd rfl htarget
  case h_3 | h_7 => cases List.mem_singleton.mp h; trivial
  case h_1 | h_4 =>
    simp only [List.mem_cons, List.not_mem_nil, or_false] at h
    rcases h with rfl | rfl <;> trivial
  case h_5 =>
    rcases List.mem_append.mp h with h | h
    · exact justified_of_plain (plain_assertThat h)
    · rcases List.mem_cons.mp h with rfl | h
      · trivial
      · rcases List.mem_append.mp h with h | h
        · exact justified_of_plain (plain_setCountState h)
        · cases List.mem_singleton.mp h
          trivial
  case h_6 =>
    simp only [chunkSuccessOnEntry, List.mem_append] at h
    rcases h with ((h | h) | h) | h
    · exact justified_of_plain (plain_assertThat h)
    · exact justified_of_plain (plain_assertThat h)
    · split_ifs at h
      · cases List.mem_singleton.mp h
        exact hevt
      · cases h
    · exact justified_of_plain (plain_setChunkState h)
  case h_8 | h_9 | h_10 => exact justified_completeWithSuccess hevt h
  case h_11 | h_12 => exact justified_of_plain (plain_completeWithError h)
  case h_13 => cases h

end Rows

/-- A transition once there is a hash has a reason in the event it handles. -/
theorem justified_fire {w : World} {target : State} {evt : Event} {action : Action}
    (hrow : transitionTable m.state evt (m.hash ≠ "") = some (target, action))
    (hs : m.state.isBeforeHash = false) (hevt : Raised answers m evt)
    (hkey : m.uploadKey ≠ "" → Acknowledged answers m.uploadKey) (hx : x ∈ m.fire w evt) :
    Justified answers m x := by
  obtain ⟨htarget, haction⟩ := row_behindHash hrow hs
  have hinitial : m.state ≠ .initial := fun heq => by rw [heq] at hs; cases hs
  have hsetup : target ≠ .setupHasher := fun heq => by rw [heq] at htarget; cases htarget
  have hexit : hashData (m.exited w) = hashData m :=
    hashData_applyAll (m := m) fun y hy => .mute (mute_onExit hinitial hy)
  have hexited : subject (m.exited w) = subject m := subject_applyAll hexit
  have hacted : subject (m.acted w evt action) = subject m :=
    (subject_applyAll (hashData_applyAll fun y hy => loyal_action haction hy)).trans hexited
  have hexitedKey : (m.exited w).uploadKey = m.uploadKey :=
    UploadStateMachine.applyAll_same (·.uploadKey) fun y hy m' => by
      cases fromExit_onExit hy <;> rfl
  rw [UploadStateMachine.fire_row hrow] at hx
  simp only [List.mem_append, List.mem_singleton] at hx
  rcases hx with ((hx | hx) | hx) | rfl
  · exact justified_of_plain (plain_of_fromExit (fromExit_onExit hx))
  · exact (justified_action hrow hs (hevt.mono (List.Subset.refl _) hexited)
      (hexitedKey ▸ hkey) hx).mono (List.Subset.refl _) hexited.symm
  · exact (justified_onEntry (hevt.mono (List.Subset.refl _) hacted) hsetup hx).mono
      (List.Subset.refl _) hacted.symm
  · trivial

theorem plain_verifyFileUnchanged {stat : FileStat} {state : HasherStateData} {e : Event}
    (h : verifyFileUnchanged stat state = some e) : plain (.processEventNow e) = true := by
  unfold verifyFileUnchanged at h
  split at h
  · cases h; rfl
  · split_ifs at h
    · cases h; rfl
    · split at h
      · cases h; rfl
      · split_ifs at h
        cases h; rfl

theorem plain_finishHash {w : World} {state : HasherStateData} (h : x ∈ finishHash w state) :
    plain x = true := by
  unfold finishHash at h
  rcases List.mem_append.mp h with h | h
  · exact plain_assertThat h
  · split at h
    · rename_i hverify
      cases List.mem_singleton.mp h
      exact plain_verifyFileUnchanged hverify
    · cases List.mem_singleton.mp h
      rfl

/-- The transitions up to the hash need no reason. -/
theorem plain_fire {w : World} {start target : State} {evt : Event} {action : Action}
    (hrow : transitionTable m.state evt (m.hash ≠ "") = some (target, action))
    (hkind : HashRow start evt target action) (hx : x ∈ m.fire w evt) : plain x = true := by
  rw [UploadStateMachine.fire_row hrow] at hx
  simp only [List.mem_append, List.mem_singleton] at hx
  rcases hx with ((hx | hx) | hx) | rfl
  · exact plain_of_fromExit (fromExit_onExit hx)
  · cases hkind with
    | openFile state =>
      simp only [Action.effects, Uploader.openFile] at hx
      split at hx <;> cases List.mem_singleton.mp hx <;> rfl
    | readFile =>
      simp only [Action.effects, Uploader.readFile] at hx
      split at hx
      · rename_i hverify
        cases List.mem_singleton.mp hx
        exact plain_verifyFileUnchanged hverify
      · split at hx
        · split at hx
          · cases List.mem_singleton.mp hx
            rfl
          · exact plain_finishHash hx
        · cases List.mem_singleton.mp hx
          rfl
        · split at hx <;> cases List.mem_singleton.mp hx <;> rfl
    | save =>
      cases List.mem_singleton.mp hx
      rfl
    | _ => cases hx
  · cases hkind with
    | start | save =>
      simp only [onEntry, List.mem_cons, List.not_mem_nil, or_false] at hx
      rcases hx with rfl | rfl <;> rfl
    | begin =>
      simp only [onEntry, setupHasherOnEntry, List.mem_append] at hx
      rcases hx with hx | hx
      · exact plain_setCountState hx
      · split at hx <;> cases List.mem_singleton.mp hx <;> rfl
    | openFile =>
      cases List.mem_singleton.mp hx
      rfl
    | readFile => cases hx
    | fail =>
      cases evt with
      | error | hashError => exact plain_completeWithError hx
      | _ => cases hx
  · rfl

end Reasons

/-! ### Every run -/

/-- What an upload waits for, and the key it holds, are in its log. -/
structure Remembers (u : Upload) : Prop where
  events : ∀ e ∈ u.inFlight, e ∈ raised u.log
  calls : ∀ r ∈ u.calls, .call r ∈ u.log
  timers : ∀ uploadKey ∈ u.timers, .startTimer uploadKey ∈ u.log
  key : u.machine.uploadKey = "" ∨ .write (.uploadKey u.machine.uploadKey) ∈ u.log

theorem uploadKey_applyAll (m : UploadStateMachine) (effects : List Effect) :
    (m.applyAll effects).uploadKey = m.uploadKey ∨
      .write (.uploadKey (m.applyAll effects).uploadKey) ∈ effects := by
  induction effects generalizing m with
  | nil => exact .inl rfl
  | cons x xs ih =>
    rw [UploadStateMachine.applyAll_cons]
    rcases ih (m.apply x) with heq | hmem
    · rw [heq]
      cases x with
      | write w =>
        cases w with
        | uploadKey key => exact .inr List.mem_cons_self
        | _ => exact .inl rfl
      | _ => exact .inl rfl
    · exact .inr (List.mem_cons_of_mem x hmem)

section Run
variable {u u' : Upload} {events : Multiset Event} {calls : List ApiRequest}
  {timers : List String} {effects : List Effect} {answers answers' : Answers}

theorem Remembers.of_executes (h : u.Remembers)
    (hexec : u.Executes u' events calls timers effects) (hevents : events ≤ u.inFlight)
    (hcalls : calls ⊆ u.calls) (htimers : timers ⊆ u.timers) : u'.Remembers := by
  refine ⟨fun e he => ?_, fun r hr => ?_, fun uploadKey hkey => ?_, ?_⟩
  · rw [hexec.inFlight, Multiset.mem_add] at he
    rw [hexec.log, raised_append, List.mem_append]
    exact he.imp (fun he => h.events e (Multiset.mem_of_le hevents he)) id
  · rw [hexec.calls, List.mem_append, mem_issued] at hr
    rw [hexec.log, List.mem_append]
    exact hr.imp (fun hr => h.calls r (hcalls hr)) id
  · rw [hexec.timers, List.mem_append, mem_waits] at hkey
    rw [hexec.log, List.mem_append]
    exact hkey.imp (fun hkey => h.timers uploadKey (htimers hkey)) id
  · rw [hexec.machine, hexec.log, List.mem_append]
    rcases uploadKey_applyAll u.machine effects with heq | hmem
    · rw [heq]
      exact h.key.imp id .inl
    · exact .inr (.inr hmem)

/-- Before there is a hash nothing was asked; from then on everything has a reason. -/
structure ReasonInv (u : Upload) (answers : Answers) : Prop where
  remembers : u.Remembers
  early : u.machine.state.isBeforeHash = true →
    u.machine.hash = "" ∧ ∀ x ∈ u.log, plain x = true
  justified : ∀ x ∈ u.log, Justified answers u.machine x

theorem ReasonInv.raised (h : u.ReasonInv answers) {e : Event} (he : e ∈ u.inFlight) :
    Raised answers u.machine e := by
  rcases mem_raised.mp (h.remembers.events e he) with hx | hx | hx <;> exact h.justified _ hx

theorem ReasonInv.key (h : u.ReasonInv answers) (hne : u.machine.uploadKey ≠ "") :
    Acknowledged answers u.machine.uploadKey :=
  (h.justified _ (h.remembers.key.resolve_left hne)).2 hne

/-- Plain effects that leave the state and what is known of the file. -/
theorem ReasonInv.of_plain (h : u.ReasonInv answers)
    (hexec : u.Executes u' events calls timers effects) (hremembers : u'.Remembers)
    (hplain : ∀ x ∈ effects, plain x = true) (hmachine : u'.machine = u.machine) :
    u'.ReasonInv answers := by
  refine ⟨hremembers, fun hs => ?_, fun x hx => ?_⟩
  · rw [hmachine] at hs ⊢
    refine ⟨(h.early hs).1, fun x hx => ?_⟩
    rw [hexec.log] at hx
    exact (List.mem_append.mp hx).elim ((h.early hs).2 x) (hplain x)
  · rw [hmachine]
    rw [hexec.log] at hx
    exact (List.mem_append.mp hx).elim (h.justified x) fun hx => justified_of_plain (hplain x hx)

/-- Effects with a reason, once there is a hash. -/
theorem ReasonInv.of_justified (h : u.ReasonInv answers)
    (hexec : u.Executes u' events calls timers effects) (hremembers : u'.Remembers)
    (hsub : answers ⊆ answers') (hsubject : subject u'.machine = subject u.machine)
    (hs : u'.machine.state.isBeforeHash = false)
    (hjustified : ∀ x ∈ effects, Justified answers' u.machine x) : u'.ReasonInv answers' := by
  refine ⟨hremembers, fun hno => ?_, fun x hx => ?_⟩
  · rw [hs] at hno
    cases hno
  · rw [hexec.log] at hx
    rcases List.mem_append.mp hx with hx | hx
    · exact (h.justified x hx).mono hsub hsubject
    · exact (hjustified x hx).mono (List.Subset.refl _) hsubject

theorem ReasonInv.event (h : u.ReasonInv answers) {w : World} {evt : Event}
    (hrest : u.inFlight = evt ::ₘ events)
    (hexec : u.Executes u' events u.calls u.timers (u.machine.fire w evt)) :
    u'.ReasonInv answers := by
  have hevents : events ≤ u.inFlight := hrest ▸ Multiset.le_cons_self _ _
  have hremembers : u'.Remembers :=
    h.remembers.of_executes hexec hevents (List.Subset.refl _) (List.Subset.refl _)
  by_cases hterm : u.machine.state.isTerminal = true
  · rw [UploadStateMachine.fire_terminal hterm] at hexec
    exact h.of_plain hexec hremembers (List.forall_mem_nil _) (by rw [hexec.machine]; rfl)
  cases hrow : transitionTable u.machine.state evt (u.machine.hash ≠ "") with
  | none =>
    rw [UploadStateMachine.fire_noTransition (by simpa using hterm) hrow] at hexec
    exact h.of_plain hexec hremembers (by simp [plain]) (by rw [hexec.machine]; rfl)
  | some row =>
    obtain ⟨target, action⟩ := row
    have hstate : u'.machine.state = target := by
      rw [hexec.machine]
      exact UploadStateMachine.applyAll_fire_row_state hrow
    by_cases hs : u.machine.state.isBeforeHash = true
    · obtain ⟨hhash, hearly⟩ := h.early hs
      have hkind : HashRow u.machine.state evt target action :=
        row_beforeHash (by rwa [hhash] at hrow) hs
      have hplain : ∀ x ∈ u'.log, plain x = true := by
        intro x hx
        rw [hexec.log] at hx
        exact (List.mem_append.mp hx).elim (hearly x) fun hx => plain_fire hrow hkind hx
      refine ⟨hremembers, fun hs' => ⟨?_, hplain⟩, fun x hx => justified_of_plain (hplain x hx)⟩
      have hsave : action ≠ .saveHash := by
        rintro rfl
        rw [hstate] at hs'
        generalize u.machine.state = start at hkind
        cases hkind
        cases hs'
      rw [hexec.machine, hash_applyAll fun x hx => (untold_fire hrow hkind hsave hhash hx).1, hhash]
    · have hs : u.machine.state.isBeforeHash = false := by simpa using hs
      have hevt : Raised answers u.machine evt := h.raised (hrest ▸ Multiset.mem_cons_self _ _)
      refine h.of_justified hexec hremembers (List.Subset.refl _) ?_ ?_ fun x hx =>
        justified_fire hrow hs hevt h.key hx
      · rw [hexec.machine]
        exact subject_applyAll (hashData_applyAll fun x hx => loyal_fire hrow hs hx)
      · rw [hstate]
        exact (row_behindHash hrow hs).1

/-- Nothing that needs a reason comes before there is a hash. -/
theorem ReasonInv.behindHash (h : u.ReasonInv answers) {x : Effect} (hx : x ∈ u.log)
    (hplain : plain x = false) : u.machine.state.isBeforeHash = false := by
  by_contra hs
  rw [(h.early (by simpa using hs)).2 x hx] at hplain
  cases hplain

theorem ReasonInv.step {act : Act} (h : u.ReasonInv answers) (hs : u.step act = some u') :
    u'.ReasonInv (answered u act answers) := by
  cases step_cases hs with
  | @arrive evt houtside hexec =>
    refine h.of_plain hexec (h.remembers.of_executes hexec le_rfl (List.Subset.refl _)
      (List.Subset.refl _)) (fun x hx => ?_) (by rw [hexec.machine]; rfl)
    cases List.mem_singleton.mp hx
    cases evt <;> first | rfl | cases houtside
  | event w hact hrest hexec =>
    have hanswers : answered u act answers = answers := by
      cases act <;> first | rfl | cases hact
    rw [hanswers]
    exact h.event hrest hexec
  | @answer i response request effects hcall hresponse hexec =>
    have hlog : .call request ∈ u.log := h.remembers.calls _ (List.mem_of_getElem? hcall)
    have hanswers : answered u (.answer i response) answers = answers ++ [(request, response)] := by
      simp only [answered, hcall]
    have hmute : ∀ x ∈ effects, mute x = true := fun x hx => mute_handleResponse hresponse hx
    have hstate : u'.machine.state = u.machine.state := by
      rw [hexec.machine]
      refine UploadStateMachine.applyAll_state fun s hmem => ?_
      cases fromHandler_handleResponse hresponse hmem
    rw [hanswers]
    refine h.of_justified hexec (h.remembers.of_executes hexec le_rfl (List.eraseIdx_subset ..)
      (List.Subset.refl _)) (List.subset_append_left _ _) ?_
      (hstate ▸ h.behindHash hlog rfl) fun x hx => ?_
    · rw [hexec.machine]
      exact subject_applyAll
        (hashData_applyAll (m := u.machine) fun x hx => .mute (hmute x hx))
    · exact justified_handleResponse hresponse (List.mem_append_right _ (List.mem_singleton_self _))
        ((h.justified _ hlog).mono (List.subset_append_left _ _) rfl) hx
  | @retryPoll i err uploadKey htimer hexec =>
    have hlog : .startTimer uploadKey ∈ u.log :=
      h.remembers.timers _ (List.mem_of_getElem? htimer)
    have hremembers : u'.Remembers := h.remembers.of_executes hexec le_rfl (List.Subset.refl _)
      (List.eraseIdx_subset ..)
    cases err with
    | true => exact h.of_plain hexec hremembers (List.forall_mem_nil _) (by rw [hexec.machine]; rfl)
    | false =>
      obtain ⟨hmissing, hkey⟩ := h.justified _ hlog
      have hmute : ∀ x ∈ startPoll uploadKey, mute x = true := fun x hx => mute_startPoll hx
      have hstate : u'.machine.state = u.machine.state := by
        rw [hexec.machine]
        refine UploadStateMachine.applyAll_state fun s hmem => ?_
        cases fromAction_startPoll hmem
      refine h.of_justified hexec hremembers (List.Subset.refl _) ?_
        (hstate ▸ h.behindHash hlog rfl) fun x hx => justified_startPoll hmissing (fun _ => hkey) hx
      rw [hexec.machine]
      exact subject_applyAll (hashData_applyAll (m := u.machine) fun x hx => .mute (hmute x hx))

theorem reasonInv_create (pathFilename : String) (cloudFileName : Option String)
    (onDuplicateAction : OnDuplicateAction) :
    (create pathFilename cloudFileName onDuplicateAction).ReasonInv [] where
  remembers := ⟨fun e he => absurd he (Multiset.notMem_zero e), List.forall_mem_nil _,
    List.forall_mem_nil _, .inl rfl⟩
  early _ := ⟨rfl, List.forall_mem_nil _⟩
  justified := List.forall_mem_nil _

end Run

/-- In every run the answers so far give the reason for every effect. -/
theorem run_justified (pathFilename : String) (cloudFileName : Option String)
    (onDuplicateAction : OnDuplicateAction) (acts : List Act) (u : Upload) (answers : Answers)
    (hrun : run (watch step answered)
      (create pathFilename cloudFileName onDuplicateAction, []) acts = some (u, answers)) :
    ∀ x ∈ u.log, Justified answers u.machine x := by
  have hinv := run_invariant (I := fun p : Upload × Answers => p.1.ReasonInv p.2)
    (fun p act p' h hs => by
      obtain ⟨hstep, hanswers⟩ := watch_eq_some hs
      rw [hanswers]
      exact h.step hstep) (reasonInv_create pathFilename cloudFileName onDuplicateAction) hrun
  exact hinv.justified

/-- The file of one byte is hashed, checked, uploaded and polled for. -/
def uploadSmallFile : List Act :=
  [.arrive .start, .deliver 0 smallFile fun _ => true, .arrive .startHash,
    .deliver 0 smallFile fun _ => true, .next smallFile fun _ => true,
    .next smallFile fun _ => true, .next smallFile fun _ => true, .arrive (.startUpload "token"),
    .deliver 0 smallFile fun _ => true, .answer 0 (.check {}), .deliver 0 smallFile fun _ => true,
    .answer 0 (.upload (.content { key := some "key" })), .deliver 0 smallFile fun _ => true,
    .answer 0 (.poll { quickkey := some "quickkey", revision := some 1 }),
    .deliver 0 smallFile fun _ => true]

theorem run_justified_uploadSmallFile :
    ∃ u answers, run (watch step answered) (create "file" none .fail, []) uploadSmallFile =
        some (u, answers) ∧
      .sendStatus (.complete "quickkey" "file" "digest" (some 1)) ∈ u.log ∧
      ∀ x ∈ u.log, Justified answers u.machine x := by
  have hcompute : (run (watch step answered) (create "file" none .fail, []) uploadSmallFile).map
      (fun p => decide (.sendStatus (.complete "quickkey" "file" "digest" (some 1)) ∈ p.1.log)) =
        some true := by
    decide +kernel
  obtain ⟨⟨u, answers⟩, hrun, hsent⟩ := Option.map_eq_some_iff.mp hcompute
  exact ⟨u, answers, hrun, of_decide_eq_true hsent, run_justified _ _ _ _ u answers hrun⟩

end Upload

end MediafireSdk.Uploader
