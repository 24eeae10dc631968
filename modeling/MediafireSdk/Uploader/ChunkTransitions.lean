import MediafireSdk.Uploader.Upload

/-! Transitions of a resumable upload, from `NeedsChunkUpload` to the poll. When a
chunk is acknowledged, the action picks the next chunk while the acknowledged one
is still `Uploading`; the entry action then marks it `Uploaded`. Between two
transitions the states of the chunks are those of the bitmap, with the posted
chunks uploaded and the last of them perhaps still under way. -/

namespace MediafireSdk.Uploader

/-! ### States of the chunks -/

/-- The state of a chunk when `posted` were posted and `current` is under way. -/
def chunkStateAt (words : List ℕ) (posted : List ℕ) (current : Option ℕ) (chunkId : ℕ) :
    ChunkState :=
  if bitAt words chunkId then .uploaded
  else if chunkId ∈ posted then if current = some chunkId then .uploading else .uploaded
  else .needsUpload

def chunkStatesAt (chunks : ℕ) (words posted : List ℕ) (current : Option ℕ) : List ChunkState :=
  (List.range chunks).map (chunkStateAt words posted current)

section ChunkStates
variable {chunks chunkId next : ℕ} {words posted : List ℕ} {current : Option ℕ}

@[simp] theorem length_chunkStatesAt : (chunkStatesAt chunks words posted current).length = chunks := by
  simp [chunkStatesAt]

theorem getElem?_chunkStatesAt (h : chunkId < chunks) :
    (chunkStatesAt chunks words posted current)[chunkId]? =
      some (chunkStateAt words posted current chunkId) := by
  simp [chunkStatesAt, h]

theorem chunkStatesAt_nil : chunkStatesAt chunks words [] none = bitStates words chunks := by
  refine List.map_congr_left fun i _ => ?_
  cases h : bitAt words i <;> simp [chunkStateAt, chunkStateOf, h]

/-- A chunk that needs its upload has a zero bit and was not posted. -/
theorem needsUpload_chunkStatesAt
    (h : (chunkStatesAt chunks words posted current)[next]? = some .needsUpload) :
    next < chunks ∧ bitAt words next = false ∧ next ∉ posted := by
  have hlt : next < chunks := by
    by_contra hge
    rw [List.getElem?_eq_none (by simpa using hge)] at h
    cases h
  rw [getElem?_chunkStatesAt hlt, Option.some.injEq, chunkStateAt] at h
  split_ifs at h with hbit hposted
  exact ⟨hlt, by simpa using hbit, hposted⟩

theorem uploading_chunkStatesAt
    (h : (chunkStatesAt chunks words posted current)[chunkId]? = some .uploading) :
    current = some chunkId := by
  have hlt : chunkId < chunks := by
    by_contra hge
    rw [List.getElem?_eq_none (by simpa using hge)] at h
    cases h
  rw [getElem?_chunkStatesAt hlt, Option.some.injEq, chunkStateAt] at h
  split_ifs at h with hbit hposted hcurrent
  exact hcurrent

/-- When nothing needs its upload, every zero bit was posted. -/
theorem mem_posted_of_needsUpload_notMem
    (h : ChunkState.needsUpload ∉ chunkStatesAt chunks words posted current) (hlt : chunkId < chunks)
    (hbit : bitAt words chunkId = false) : chunkId ∈ posted := by
  by_contra hno
  exact h (List.mem_map.mpr ⟨chunkId, List.mem_range.mpr hlt, by simp [chunkStateAt, hbit, hno]⟩)

/-- Posting a chunk while `current` is under way, and then acknowledging `current`. -/
theorem set_chunkStatesAt_acknowledge (hcurrent : chunkId ∈ posted) :
    (chunkStatesAt chunks words posted (some chunkId)).set chunkId .uploaded =
      chunkStatesAt chunks words posted none := by
  refine List.ext_getElem? fun i => ?_
  by_cases hi : i < chunks
  · rw [getElem?_chunkStatesAt hi, List.getElem?_set, length_chunkStatesAt,
      getElem?_chunkStatesAt hi]
    by_cases heq : chunkId = i
    · subst heq
      simp [chunkStateAt, hi, hcurrent]
    · simp [chunkStateAt, heq]
  · rw [List.getElem?_eq_none (by simpa using hi), List.getElem?_eq_none (by simpa using hi)]

theorem set_chunkStatesAt_post (hbit : bitAt words next = false) :
    (chunkStatesAt chunks words posted none).set next .uploading =
      chunkStatesAt chunks words (posted ++ [next]) (some next) := by
  refine List.ext_getElem? fun i => ?_
  by_cases hi : i < chunks
  · rw [getElem?_chunkStatesAt hi, List.getElem?_set, length_chunkStatesAt,
      getElem?_chunkStatesAt hi]
    by_cases heq : next = i
    · subst heq
      simp [chunkStateAt, hi, hbit]
    · simp [chunkStateAt, heq, Ne.symm heq]
  · rw [List.getElem?_eq_none (by simpa using hi), List.getElem?_eq_none (by simpa using hi)]

end ChunkStates

/-! ### The transitions of a resumable upload -/

namespace Upload

/-- What `DoChunkUpload` does. -/
inductive ChunkAction (m : UploadStateMachine) : List Effect → Prop
  | failed (ec : ErrorCode) (description : String) :
    ChunkAction m [.processEvent (.error ec description)]
  | halted : ChunkAction m [.halted]
  | posted (next : ℕ) (request : PostRequest)
      (hnext : m.chunkStates[next]? = some .needsUpload) :
    ChunkAction m [.write (.chunkState next .uploading), .call (.chunkUpload next request),
      .write (.uploadRequest true)]
  | complete (hnone : ChunkState.needsUpload ∉ m.chunkStates) :
    ChunkAction m (assertThat (m.uploadKey ≠ "") "!fsm.UploadKey().empty()" ++
      [.processEvent (.chunkUploadComplete m.uploadKey)])

theorem chunkAction_doChunkUpload {m : UploadStateMachine} (w : World)
    (hlen : m.chunkStates.length ≤ 2 ^ 32) : ChunkAction m (doChunkUpload w m) := by
  unfold doChunkUpload
  split
  · rename_i next hpick
    have hnext := nextChunkToUpload_some hlen hpick
    split
    · constructor
    · constructor
    · have hlt : next < m.chunkStates.length := (List.getElem?_eq_some_iff.mp hnext).1
      rw [UploadStateMachine.setChunkState, if_pos hlt]
      exact .posted next _ hnext
  · rename_i hpick
    exact .complete ((nextChunkToUpload_none hlen).mp hpick)

theorem fire_needsChunkUpload {w : World} {m : UploadStateMachine} (hs : m.state = .inUploadCheck) :
    m.fire w .needsChunkUpload = doChunkUpload w m ++ [.write (.state .uploadChunk)] := by
  rw [UploadStateMachine.fire_row (show transitionTable _ _ _ =
    some (.uploadChunk, .doChunkUpload) by rw [hs]; rfl)]
  simp [hs, onExit, onEntry, Action.effects, UploadStateMachine.exited]

theorem inert_onExit {w : World} {m : UploadStateMachine} {source : State}
    (h : source ≠ .initial) : Inert (onExit w m source) := by
  cases source <;> simp only [onExit]
  case initial => exact absurd rfl h
  case uploadChunk => split_ifs <;> exact ⟨rfl, rfl, rfl⟩
  all_goals exact ⟨rfl, rfl, rfl⟩

/-! ### Assertions -/

/-- Of `UploadChunk::on_entry`: an acknowledged chunk is under way. -/
def acknowledgedAssertion : Effect :=
  .assertion "fsm.GetChunkState(evt.chunk_id) == ChunkState::Uploading"

/-- Of `DoChunkUpload`: the upload key is known when no chunk is left. -/
def keyAssertion : Effect := .assertion "!fsm.UploadKey().empty()"

/-- Of `StartPoll`, on the branch without upload key. -/
def pollAssertion : Effect := .assertion "Reached poll upload without upload key"

def chunkAssertions : List Effect := [acknowledgedAssertion, keyAssertion, pollAssertion]

theorem assertion_of_mem {x : Effect} (h : x ∈ chunkAssertions) : ∃ text, x = .assertion text := by
  simp only [chunkAssertions, List.mem_cons, List.not_mem_nil, or_false] at h
  rcases h with rfl | rfl | rfl <;> exact ⟨_, rfl⟩

theorem ChunkAction.passed {m : UploadStateMachine} {effects : List Effect}
    (h : ChunkAction m effects) :
    ∀ x ∈ chunkAssertions, x ∈ effects →
      x = keyAssertion ∧ m.uploadKey = "" ∧ ChunkState.needsUpload ∉ m.chunkStates := by
  intro x hx hmem
  obtain ⟨text, rfl⟩ := assertion_of_mem hx
  cases h with
  | complete hnone =>
    unfold assertThat at hmem
    split_ifs at hmem with hkey
    · simp at hmem
    · exact ⟨by simpa [keyAssertion] using hmem, by simpa using hkey, hnone⟩
  | _ => simp at hmem

/-! ### `DoChunkUpload` -/

/-- What the transitions with `DoChunkUpload` leave behind; `states` are the chunk states after
that action. -/
inductive ChunkStep (m : UploadStateMachine) (effects : List Effect) (states : List ChunkState) :
    Prop
  | failed (ec : ErrorCode) (description : String)
      (hraised : raised effects = [.error ec description]) (hissued : issued effects = [])
      (hstates : states = m.chunkStates)
  | posted (next : ℕ) (request : PostRequest)
      (hnext : m.chunkStates[next]? = some .needsUpload) (hraised : raised effects = [])
      (hissued : issued effects = [.chunkUpload next request])
      (hstates : states = m.chunkStates.set next .uploading)
  | complete (hnone : ChunkState.needsUpload ∉ m.chunkStates)
      (hraised : raised effects = [.chunkUploadComplete m.uploadKey])
      (hissued : issued effects = []) (hstates : states = m.chunkStates)

theorem ChunkStep.congr {m m' : UploadStateMachine} {effects effects' : List Effect}
    {states : List ChunkState} (h : ChunkStep m effects states)
    (hraised : raised effects' = raised effects) (hissued : issued effects' = issued effects)
    (hstates : m.chunkStates = m'.chunkStates) (hkey : m.uploadKey = m'.uploadKey) :
    ChunkStep m' effects' states := by
  cases h with
  | failed ec description hr hi hs =>
    exact .failed ec description (hraised.trans hr) (hissued.trans hi) (hs.trans hstates)
  | posted next request hnext hr hi hs =>
    rw [hstates] at hnext hs
    exact .posted next request hnext (hraised.trans hr) (hissued.trans hi) hs
  | complete hnone hr hi hs =>
    rw [hstates] at hnone hs
    rw [hkey] at hr
    exact .complete hnone (hraised.trans hr) (hissued.trans hi) hs

theorem ChunkAction.waits {m : UploadStateMachine} {effects : List Effect}
    (h : ChunkAction m effects) : waits effects = [] := by
  cases h with
  | complete _ => simp only [waits_append, (inert_assertThat _ _).2.2]; rfl
  | _ => rfl

theorem ChunkAction.chunkStep {m : UploadStateMachine} {effects : List Effect}
    (h : ChunkAction m effects) (hdef : .halted ∉ effects) :
    ChunkStep m effects (m.applyAll effects).chunkStates := by
  cases h with
  | failed ec description => exact .failed ec description rfl rfl rfl
  | halted => exact absurd List.mem_cons_self hdef
  | posted next request hnext => exact .posted next request hnext rfl rfl rfl
  | complete hnone =>
    have hinert := inert_assertThat (m.uploadKey ≠ "") "!fsm.UploadKey().empty()"
    refine .complete hnone ?_ ?_ ?_
    · simp only [raised_append, hinert.1]; rfl
    · simp only [issued_append, hinert.2.1]; rfl
    · unfold assertThat
      split_ifs <;> rfl

/-- Neither the exit action of `UploadChunk` nor `DoChunkUpload` writes the upload key. -/
theorem ChunkAction.uploadKey {m : UploadStateMachine} {effects : List Effect}
    (h : ChunkAction m effects) : (m.applyAll effects).uploadKey = m.uploadKey := by
  cases h with
  | complete _ => unfold assertThat; split_ifs <;> rfl
  | _ => rfl

theorem chunkStep_needsChunkUpload {w : World} {m : UploadStateMachine}
    (hs : m.state = .inUploadCheck) (hlen : m.chunkStates.length ≤ 2 ^ 32)
    (hdef : .halted ∉ m.fire w .needsChunkUpload) :
    ChunkStep m (m.fire w .needsChunkUpload)
        (m.applyAll (m.fire w .needsChunkUpload)).chunkStates ∧
      waits (m.fire w .needsChunkUpload) = [] ∧
      (m.applyAll (m.fire w .needsChunkUpload)).uploadKey = m.uploadKey := by
  have hact := chunkAction_doChunkUpload w hlen
  rw [fire_needsChunkUpload hs] at hdef ⊢
  generalize doChunkUpload w m = action at hact hdef ⊢
  have hwaits : waits (action ++ [.write (.state .uploadChunk)]) = [] := by
    rw [waits_append, hact.waits]; rfl
  have hdefAction : Effect.halted ∉ action := fun h => hdef (List.mem_append_left _ h)
  rw [UploadStateMachine.applyAll_append]
  refine ⟨?_, hwaits, hact.uploadKey⟩
  exact (hact.chunkStep hdefAction).congr (by simp [raised]) (by simp [issued]) rfl rfl

theorem passed_needsChunkUpload {w : World} {m : UploadStateMachine}
    (hs : m.state = .inUploadCheck) (hlen : m.chunkStates.length ≤ 2 ^ 32) :
    ∀ x ∈ chunkAssertions, x ∈ m.fire w .needsChunkUpload →
      x = keyAssertion ∧ m.uploadKey = "" ∧ ChunkState.needsUpload ∉ m.chunkStates := by
  intro x hx hmem
  rw [fire_needsChunkUpload hs] at hmem
  rcases List.mem_append.mp hmem with hmem | hmem
  · exact (chunkAction_doChunkUpload w hlen).passed x hx hmem
  · obtain ⟨text, rfl⟩ := assertion_of_mem hx
    cases List.mem_singleton.mp hmem

/-- `UploadChunk::on_entry` for a chunk under way. -/
theorem chunkSuccessOnEntry_uploading {m : UploadStateMachine} {chunkId : ℕ} {uploadKey : String}
    (h : m.chunkStates[chunkId]? = some .uploading) :
    chunkSuccessOnEntry m chunkId uploadKey =
      assertThat (uploadKey ≠ "") "! evt.upload_key.empty()" ++
        (if m.uploadKey = "" then [.write (.uploadKey uploadKey)] else []) ++
        [.write (.chunkState chunkId .uploaded)] := by
  have hlt : chunkId < m.chunkStates.length := (List.getElem?_eq_some_iff.mp h).1
  rw [chunkSuccessOnEntry, assertThat_true h, UploadStateMachine.setChunkState, if_pos hlt,
    List.nil_append]

/-- What the transition of a `ChunkSuccess` for the chunk under way leaves behind. -/
structure AcknowledgeStep (m : UploadStateMachine) (chunkId : ℕ) (uploadKey : String)
    (effects : List Effect) : Prop where
  chunks : ∃ states, ChunkStep m effects states ∧
    (m.applyAll effects).chunkStates = states.set chunkId .uploaded
  key : (m.applyAll effects).uploadKey = if m.uploadKey = "" then uploadKey else m.uploadKey
  waits : waits effects = []
  passed : ∀ x ∈ chunkAssertions, x ∈ effects →
    x = keyAssertion ∧ m.uploadKey = "" ∧ ChunkState.needsUpload ∉ m.chunkStates

theorem acknowledgeStep_chunkSuccess {w : World} {m : UploadStateMachine} {chunkId : ℕ}
    {uploadKey : String} (hs : m.state = .uploadChunk) (hlen : m.chunkStates.length ≤ 2 ^ 32)
    (hchunk : m.chunkStates[chunkId]? = some .uploading)
    (hdef : .halted ∉ m.fire w (.chunkSuccess chunkId uploadKey)) :
    AcknowledgeStep m chunkId uploadKey (m.fire w (.chunkSuccess chunkId uploadKey)) := by
  have hrow : transitionTable m.state (.chunkSuccess chunkId uploadKey) (m.hash ≠ "") =
      some (.uploadChunk, .doChunkUpload) := by rw [hs]; rfl
  -- the exit action drops the held request and leaves chunk states and key
  have hexit : Inert (onExit w m m.state) := inert_onExit (by rw [hs]; decide)
  obtain ⟨hstates, hkey⟩ : (m.exited w).chunkStates = m.chunkStates ∧
      (m.exited w).uploadKey = m.uploadKey := by
    unfold UploadStateMachine.exited
    rw [hs, onExit]
    split_ifs <;> exact ⟨rfl, rfl⟩
  have hact := chunkAction_doChunkUpload (m := m.exited w) w (by rw [hstates]; exact hlen)
  rw [UploadStateMachine.fire_row hrow] at hdef ⊢
  simp only [UploadStateMachine.acted, Action.effects] at hdef ⊢
  generalize doChunkUpload w (m.exited w) = action at hact hdef ⊢
  have hdefAction : Effect.halted ∉ action := fun h =>
    hdef (List.mem_append_left _ (List.mem_append_left _ (List.mem_append_right _ h)))
  have hstep := hact.chunkStep hdefAction
  -- the acknowledged chunk is still under way when the entry action runs
  have hstill : ((m.exited w).applyAll action).chunkStates[chunkId]? = some .uploading := by
    cases hstep with
    | failed _ _ _ _ h => rw [h, hstates, hchunk]
    | complete _ _ _ h => rw [h, hstates, hchunk]
    | posted next _ hnext _ _ h =>
      have hne : next ≠ chunkId := by
        rintro rfl
        rw [hstates, hchunk] at hnext
        cases hnext
      rw [h, List.getElem?_set_ne hne, hstates, hchunk]
  rw [onEntry, chunkSuccessOnEntry_uploading hstill, hact.uploadKey, hkey]
  generalize hentry : assertThat (uploadKey ≠ "") "! evt.upload_key.empty()" ++
    (if m.uploadKey = "" then [.write (.uploadKey uploadKey)] else []) ++
      [.write (.chunkState chunkId .uploaded)] = entry
  have hinert : Inert entry := by
    rw [← hentry]
    refine ((inert_assertThat _ _).append ?_).append ⟨rfl, rfl, rfl⟩
    split_ifs <;> exact ⟨rfl, rfl, rfl⟩
  have hentryPassed : ∀ x ∈ chunkAssertions, x ∉ entry := by
    rw [← hentry]
    unfold assertThat
    split_ifs <;> simp [chunkAssertions, acknowledgedAssertion, keyAssertion, pollAssertion]
  have happly (m' : UploadStateMachine) :
      (m'.applyAll entry).chunkStates = m'.chunkStates.set chunkId .uploaded ∧
        (m'.applyAll entry).uploadKey = if m.uploadKey = "" then uploadKey else m'.uploadKey := by
    rw [← hentry]
    unfold assertThat
    split_ifs <;> exact ⟨rfl, rfl⟩
  constructor
  · refine ⟨_, hstep.congr ?_ ?_ hstates hkey, ?_⟩
    · simp only [raised_append, hexit.1, hinert.1]; simp [raised]
    · simp only [issued_append, hexit.2.1, hinert.2.1]; simp [issued]
    · simp only [UploadStateMachine.applyAll_append]
      exact (happly _).1
  · simp only [UploadStateMachine.applyAll_append]
    refine ((happly _).2).trans ?_
    exact if_congr Iff.rfl rfl (hact.uploadKey.trans hkey)
  · simp only [waits_append, hexit.2.2, hact.waits, hinert.2.2]; rfl
  · intro x hx hmem
    simp only [List.mem_append] at hmem
    rcases hmem with ((hmem | hmem) | hmem) | hmem
    · obtain ⟨text, rfl⟩ := assertion_of_mem hx
      cases fromExit_onExit hmem
    · exact hstates ▸ hkey ▸ hact.passed x hx hmem
    · exact absurd hmem (hentryPassed x hx)
    · obtain ⟨text, rfl⟩ := assertion_of_mem hx
      cases List.mem_singleton.mp hmem

/-! ### The other transitions after `NeedsChunkUpload` -/

/-- Effects that leave chunk states and upload key. Of the assertions only the one of `StartPoll`
can fail, which then raises an event. -/
structure LeavesChunks (m : UploadStateMachine) (effects : List Effect) : Prop where
  chunkStates : (m.applyAll effects).chunkStates = m.chunkStates
  uploadKey : (m.applyAll effects).uploadKey = m.uploadKey
  passed : ∀ x ∈ chunkAssertions, x ∈ effects → x = pollAssertion ∧ raised effects ≠ []

theorem LeavesChunks.acknowledged {m : UploadStateMachine} {effects : List Effect}
    (h : LeavesChunks m effects) : acknowledgedAssertion ∉ effects := fun hmem => by
  have := (h.passed acknowledgedAssertion (by simp [chunkAssertions]) hmem).1
  simp [acknowledgedAssertion, pollAssertion] at this

theorem LeavesChunks.append {m : UploadStateMachine} {xs ys : List Effect}
    (hx : LeavesChunks m xs) (hy : LeavesChunks (m.applyAll xs) ys) : LeavesChunks m (xs ++ ys) where
  chunkStates := by rw [UploadStateMachine.applyAll_append, hy.chunkStates, hx.chunkStates]
  uploadKey := by rw [UploadStateMachine.applyAll_append, hy.uploadKey, hx.uploadKey]
  passed x hmem hin := by
    rw [raised_append]
    rcases List.mem_append.mp hin with h | h
    · exact (hx.passed x hmem h).imp id (fun hr => List.append_ne_nil_of_left_ne_nil hr _)
    · exact (hy.passed x hmem h).imp id (fun hr => List.append_ne_nil_of_right_ne_nil _ hr)

/-- Effects without assertions that write neither. -/
theorem leavesChunks_of_forall {m : UploadStateMachine} {effects : List Effect}
    (h : ∀ x ∈ effects, (∀ text, x ≠ .assertion text) ∧ ∀ m' : UploadStateMachine,
      (m'.apply x).chunkStates = m'.chunkStates ∧ (m'.apply x).uploadKey = m'.uploadKey) :
    LeavesChunks m effects where
  chunkStates := UploadStateMachine.applyAll_same (·.chunkStates) fun x hx m' => ((h x hx).2 m').1
  uploadKey := UploadStateMachine.applyAll_same (·.uploadKey) fun x hx m' => ((h x hx).2 m').2
  passed x hmem hin := by
    obtain ⟨text, rfl⟩ := assertion_of_mem hmem
    exact absurd rfl ((h _ hin).1 text)

theorem leavesChunks_onExit {w : World} {m : UploadStateMachine} {source : State} :
    LeavesChunks m (onExit w m source) :=
  leavesChunks_of_forall fun x hx => by cases fromExit_onExit hx <;> simp <;> exact fun _ => ⟨rfl, rfl⟩

theorem leavesChunks_setCountState {m : UploadStateMachine} {cs : CountState} :
    LeavesChunks m (m.setCountState cs) :=
  leavesChunks_of_forall fun x hx => by
    rcases UploadStateMachine.mem_setCountState hx with ⟨_, rfl⟩ | rfl <;> simp <;>
      exact fun _ => ⟨rfl, rfl⟩

theorem leavesChunks_startPoll {m : UploadStateMachine} {uploadKey : String} :
    LeavesChunks m (startPoll uploadKey) := by
  unfold startPoll
  split_ifs <;> refine ⟨rfl, rfl, ?_⟩ <;>
    simp [chunkAssertions, acknowledgedAssertion, keyAssertion, pollAssertion, raised]

/-- A status and a callback, or the write of the state. -/
theorem leavesChunks_report {m : UploadStateMachine} {s : UploadState} {c : Callback} :
    LeavesChunks m [.sendStatus s, .callback c] :=
  leavesChunks_of_forall fun x hx => by
    simp only [List.mem_cons, List.not_mem_nil, or_false] at hx
    rcases hx with rfl | rfl <;> simp <;> exact fun _ => ⟨rfl, rfl⟩

theorem leavesChunks_state {m : UploadStateMachine} {s : State} :
    LeavesChunks m [.write (.state s)] :=
  leavesChunks_of_forall fun x hx => by
    cases List.mem_singleton.mp hx
    simp
    exact fun _ => ⟨rfl, rfl⟩

theorem leavesChunks_completeWithError {m : UploadStateMachine} {ec : ErrorCode}
    {description : String} : LeavesChunks m (completeWithErrorOnEntry m ec description) :=
  leavesChunks_setCountState.append leavesChunks_report

theorem leavesChunks_completeWithSuccess {m : UploadStateMachine} {quickkey filename : String}
    {revision : Option ℕ} :
    LeavesChunks m (completeWithSuccessOnEntry m quickkey filename revision) := by
  have hquickkey : LeavesChunks m (assertThat (quickkey ≠ "") "!evt.quickkey.empty()") := by
    unfold assertThat
    split_ifs <;> refine ⟨rfl, rfl, ?_⟩ <;>
      simp [chunkAssertions, acknowledgedAssertion, keyAssertion, pollAssertion]
  have hm : m.applyAll (assertThat (quickkey ≠ "") "!evt.quickkey.empty()") = m := by
    unfold assertThat
    split_ifs <;> rfl
  refine (hquickkey.append ?_).append leavesChunks_report
  rw [hm]
  exact leavesChunks_setCountState

theorem inert_completeWithError (m : UploadStateMachine) (ec : ErrorCode) (description : String) :
    Inert (completeWithErrorOnEntry m ec description) :=
  (inert_setCountState m _).append ⟨rfl, rfl, rfl⟩

theorem inert_completeWithSuccess (m : UploadStateMachine) (quickkey filename : String)
    (revision : Option ℕ) : Inert (completeWithSuccessOnEntry m quickkey filename revision) :=
  ((inert_assertThat _ _).append (inert_setCountState m _)).append ⟨rfl, rfl, rfl⟩

/-- The rows of `event::Error`, the source `Initial` apart. -/
theorem fire_error_inert {w : World} {m : UploadStateMachine} {ec : ErrorCode}
    {description : String} (hs : m.state ≠ .initial)
    (hrow : transitionTable m.state (.error ec description) (m.hash ≠ "") =
      some (.completeWithError, .none)) :
    LeavesChunks m (m.fire w (.error ec description)) ∧
      Inert (m.fire w (.error ec description)) := by
  rw [UploadStateMachine.fire_row hrow, Action.effects, List.append_nil]
  exact ⟨(leavesChunks_onExit.append leavesChunks_completeWithError).append leavesChunks_state,
    ((inert_onExit hs).append (inert_completeWithError ..)).append ⟨rfl, rfl, rfl⟩⟩

/-- An event of the upload manager, or an error, while chunks are uploaded or polled for. -/
theorem fire_outside {w : World} {m : UploadStateMachine} {evt : Event}
    (hstate : m.state ∈ [State.inUploadCheck, .uploadChunk, .pollUpload])
    (houtside : isOutside evt = true) :
    LeavesChunks m (m.fire w evt) ∧ Inert (m.fire w evt) ∧
      ((∃ ec description, evt = .error ec description) ∧
        (m.applyAll (m.fire w evt)).state = .completeWithError ∨
      (m.applyAll (m.fire w evt)).state = m.state) := by
  simp only [List.mem_cons, List.not_mem_nil, or_false] at hstate
  by_cases herror : ∃ ec description, evt = .error ec description
  · obtain ⟨ec, description, rfl⟩ := herror
    have hrow : transitionTable m.state (.error ec description) (m.hash ≠ "") =
        some (.completeWithError, .none) := by
      rcases hstate with hs | hs | hs <;> rw [hs] <;> rfl
    obtain ⟨hleaves, hinert⟩ := fire_error_inert (w := w)
      (by rcases hstate with hs | hs | hs <;> rw [hs] <;> decide) hrow
    exact ⟨hleaves, hinert, .inl ⟨⟨_, _, rfl⟩, UploadStateMachine.applyAll_fire_row_state hrow⟩⟩
  · have hnone : transitionTable m.state evt (m.hash ≠ "") = none := by
      cases evt with
      | error ec description => exact absurd ⟨ec, description, rfl⟩ herror
      | start | startHash | startUpload _ => rcases hstate with hs | hs | hs <;> rw [hs] <;> rfl
      | _ => cases houtside
    have hlive : m.state.isTerminal = false := by
      rcases hstate with hs | hs | hs <;> rw [hs] <;> rfl
    rw [UploadStateMachine.fire_noTransition hlive hnone]
    exact ⟨leavesChunks_of_forall (by simp [UploadStateMachine.apply]), ⟨rfl, rfl, rfl⟩, .inr rfl⟩

theorem fire_pollComplete {w : World} {m : UploadStateMachine} (quickkey filename : String)
    (revision : ℕ) (hs : m.state = .pollUpload) :
    LeavesChunks m (m.fire w (.pollComplete quickkey filename revision)) ∧
      Inert (m.fire w (.pollComplete quickkey filename revision)) ∧
      (m.applyAll (m.fire w (.pollComplete quickkey filename revision))).state =
        .completeWithSuccess := by
  have hrow : transitionTable m.state (.pollComplete quickkey filename revision) (m.hash ≠ "") =
      some (.completeWithSuccess, .none) := by rw [hs]; rfl
  refine ⟨?_, ?_, UploadStateMachine.applyAll_fire_row_state hrow⟩ <;>
    rw [UploadStateMachine.fire_row hrow, Action.effects, List.append_nil]
  · exact (leavesChunks_onExit.append leavesChunks_completeWithSuccess).append leavesChunks_state
  · exact ((inert_onExit (by rw [hs]; decide)).append (inert_completeWithSuccess ..)).append
      ⟨rfl, rfl, rfl⟩

/-- Polling starts: the effects of `StartPoll` with nothing else to wait for. -/
theorem fire_chunkUploadComplete {w : World} {m : UploadStateMachine} (uploadKey : String)
    (hs : m.state = .uploadChunk) :
    LeavesChunks m (m.fire w (.chunkUploadComplete uploadKey)) ∧
      (m.applyAll (m.fire w (.chunkUploadComplete uploadKey))).state = .pollUpload ∧
      raised (m.fire w (.chunkUploadComplete uploadKey)) = raised (startPoll uploadKey) ∧
      issued (m.fire w (.chunkUploadComplete uploadKey)) = issued (startPoll uploadKey) ∧
      waits (m.fire w (.chunkUploadComplete uploadKey)) = [] := by
  have hrow : transitionTable m.state (.chunkUploadComplete uploadKey) (m.hash ≠ "") =
      some (.pollUpload, .pollUpload) := by rw [hs]; rfl
  have hexit : Inert (onExit w m m.state) := inert_onExit (by rw [hs]; decide)
  have hwaits : waits (startPoll uploadKey) = [] := by
    unfold startPoll
    split_ifs <;> rfl
  refine ⟨?_, UploadStateMachine.applyAll_fire_row_state hrow, ?_⟩ <;>
    rw [UploadStateMachine.fire_row hrow, Action.effects]
  · exact ((leavesChunks_onExit.append leavesChunks_startPoll).append
      (leavesChunks_of_forall (by simp [onEntry, UploadStateMachine.apply]))).append
        leavesChunks_state
  · refine ⟨?_, ?_, ?_⟩
    · simp only [raised_append, hexit.1, List.nil_append]; simp [raised, onEntry]
    · simp only [issued_append, hexit.2.1, List.nil_append]; simp [issued, onEntry]
    · simp only [waits_append, hexit.2.2, hwaits]; rfl

end Upload

end MediafireSdk.Uploader
