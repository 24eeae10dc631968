import MediafireSdk.Uploader.Duplicates

/-! The action token of the upload manager. A request for it counts as outstanding
from the section of `Tick_StartUploads` that decides to send it. Only one is, and a
valid token is never replaced by an error, exactly as long as no `Tick` with files
to upload comes while the state is `Retrieving`: the condition of the code skips the
retry time of an error only. -/

namespace MediafireSdk.Uploader.Uploads

open Runs

/-- What the protocol says about a step. -/
structure TokenProtocol (s : Uploads) (_ : Act) (s' : Uploads) : Prop where
  oneRequest : s'.tokenRequests ≤ 1
  retryTime : s.tokenRequests < s'.tokenRequests →
    ¬ (s.manager.actionTokenState = .error ∧ s.now < s.manager.actionTokenExpires)
  keepsToken : s.manager.actionTokenState = .valid → s.now ≤ s.manager.actionTokenExpires →
    s'.manager.actionTokenState ≠ .error

/-- No `Tick` with files to upload while a token is retrieved. -/
def NoTickWhileRetrieving (s : Uploads) (act : Act) (_ : Uploads) : Prop :=
  act = .tickStartUploads → s.manager.toUpload ≠ [] → s.manager.actionTokenState ≠ .retrieving

/-- The state tells whether a request is outstanding. -/
def RequestsMatch (s : Uploads) : Prop :=
  s.tokenRequests = if s.manager.actionTokenState = .retrieving then 1 else 0

section Step
variable {s s' : Uploads}

theorem RequestsMatch.le (h : s.RequestsMatch) : s.tokenRequests ≤ 1 := by
  rw [h]
  split_ifs <;> decide

theorem RequestsMatch.retrieving (h : s.RequestsMatch) (hpos : 0 < s.tokenRequests) :
    s.manager.actionTokenState = .retrieving := by
  by_contra hne
  rw [h, if_neg hne] at hpos
  exact absurd hpos (lt_irrefl 0)

theorem RequestsMatch.congr (h : s.RequestsMatch) (hrequests : s'.tokenRequests = s.tokenRequests)
    (hstate : s'.manager.actionTokenState = s.manager.actionTokenState) : s'.RequestsMatch := by
  rw [RequestsMatch, hrequests, hstate]
  exact h

/-- Steps that have nothing to do with the token. -/
theorem RequestsMatch.tokenProtocol_congr (h : s.RequestsMatch) {act : Act}
    (hrequests : s'.tokenRequests = s.tokenRequests)
    (hstate : s'.manager.actionTokenState = s.manager.actionTokenState) :
    TokenProtocol s act s' ∧ s'.RequestsMatch where
  left :=
    { oneRequest := hrequests ▸ h.le
      retryTime := fun hlt => absurd (hrequests ▸ hlt) (lt_irrefl _)
      keepsToken := fun hvalid _ herror => by rw [hstate, hvalid] at herror; cases herror }
  right := h.congr hrequests hstate

theorem body_actionTokenState (um : UploadManagerImpl) (i : ℕ) (hash : String) (c : Callback) :
    (um.body i hash c).actionTokenState = um.actionTokenState := by
  cases c <;> rfl

/-- `Tick_StartUploads` sends a request only outside of `Retrieving`. -/
theorem RequestsMatch.tickStartUploads (h : s.RequestsMatch) (act : Act)
    (hguard : s.manager.toUpload ≠ [] → s.manager.actionTokenState ≠ .retrieving) :
    TokenProtocol s act s.tickStartUploads ∧ s.tickStartUploads.RequestsMatch := by
  have hticks := ticksUploads s.manager s.hash s.now
  unfold Uploads.tickStartUploads
  generalize s.manager.tickStartUploads s.hash s.now = result at hticks
  cases hticks with
  | empty _ => exact h.tokenProtocol_congr rfl rfl
  | early _ _ => exact h.tokenProtocol_congr rfl rfl
  | full _ _ => exact h.tokenProtocol_congr rfl rfl
  | duplicates _ _ => exact h.tokenProtocol_congr rfl rfl
  | startUpload _ _ _ _ _ => exact h.tokenProtocol_congr rfl rfl
  | getActionToken hne _ hretry =>
    have hzero : s.tokenRequests = 0 := by rw [h, if_neg (hguard hne)]
    refine ⟨⟨?_, fun _ => hretry, fun _ _ herror => by cases herror⟩, ?_⟩
    · change s.tokenRequests + 1 ≤ 1
      rw [hzero]
    · change s.tokenRequests + 1 = _
      rw [hzero, if_pos rfl]

/-- A `Tick` while a token is retrieved sends another request. -/
theorem tokenRequests_tickStartUploads (hne : s.manager.toUpload ≠ [])
    (hstate : s.manager.actionTokenState = .retrieving) :
    s.tickStartUploads.tokenRequests = s.tokenRequests + 1 := by
  simp [Uploads.tickStartUploads, UploadManagerImpl.tickStartUploads, hne, hstate]

theorem RequestsMatch.actionToken (h : s.RequestsMatch) (hpos : 0 < s.tokenRequests) {act : Act}
    (response : Option String)
    (hs' : s' = { s with tokenRequests := s.tokenRequests - 1 }.handleActionToken response) :
    TokenProtocol s act s' ∧ s'.RequestsMatch := by
  have hstate := h.retrieving hpos
  have hone : s.tokenRequests = 1 := by rw [h, if_pos hstate]
  have hzero : s'.tokenRequests = 0 := by
    subst hs'
    cases response <;> exact congrArg (· - 1) hone
  have hother : s'.manager.actionTokenState ≠ .retrieving := by
    subst hs'
    cases response <;> exact fun heq => by cases heq
  refine ⟨⟨hzero ▸ Nat.zero_le 1, fun hlt => ?_, fun hvalid => ?_⟩, ?_⟩
  · rw [hzero] at hlt
    exact absurd hlt (Nat.not_lt_zero _)
  · rw [hstate] at hvalid
    cases hvalid
  · rw [RequestsMatch, hzero, if_neg hother]

/-- The retry makes the token invalid only after an error. -/
theorem RequestsMatch.actionTokenRetry (h : s.RequestsMatch) {act : Act} (timer : RetryTimer)
    (err : Bool) (hs' : s' = { s with timer := timer }.actionTokenRetry err) :
    TokenProtocol s act s' ∧ s'.RequestsMatch := by
  subst hs'
  by_cases hcond : err = false ∧ s.manager.actionTokenState = .error
  · have hzero : s.tokenRequests = 0 := by
      rw [h, if_neg]
      rw [hcond.2]
      decide
    have hstate : ({ s with timer := timer }.actionTokenRetry err).manager.actionTokenState =
        .invalid := by
      simp [Uploads.actionTokenRetry, UploadManagerImpl.actionTokenRetry, hcond]
    refine ⟨⟨h.le, fun hlt => absurd hlt (lt_irrefl _), fun hvalid => ?_⟩, ?_⟩
    · rw [hcond.2] at hvalid
      cases hvalid
    · rw [RequestsMatch, hstate]
      exact hzero
  · refine h.tokenProtocol_congr rfl ?_
    simp [Uploads.actionTokenRetry, UploadManagerImpl.actionTokenRetry, hcond]

theorem RequestsMatch.step (h : s.RequestsMatch) {act : Act} (hs : s.step act = some s')
    (hguard : NoTickWhileRetrieving s act s') : TokenProtocol s act s' ∧ s'.RequestsMatch := by
  cases act with
  | add pathFilename cloudFileName onDuplicateAction =>
    cases hs
    exact h.tokenProtocol_congr rfl rfl
  | event i w evt =>
    rw [Uploads.step] at hs
    split_ifs at hs
    obtain ⟨-, -, rfl⟩ := processEvent_eq_some hs
    exact h.tokenProtocol_congr rfl rfl
  | process k w =>
    rw [Uploads.step] at hs
    split at hs
    · cases hs
    · obtain ⟨-, -, rfl⟩ := processEvent_eq_some hs
      exact h.tokenProtocol_congr rfl rfl
  | task i =>
    rw [Uploads.step] at hs
    split at hs
    · cases hs
    · rename_i t todo htodo
      cases hs
      cases t with
      | own x => exact h.tokenProtocol_congr rfl rfl
      | enqueueTick => exact h.tokenProtocol_congr rfl rfl
      | body c => exact h.tokenProtocol_congr rfl (body_actionTokenState ..)
  | tickStartUploads =>
    rw [Uploads.step] at hs
    split_ifs at hs
    cases hs
    have hcongr : RequestsMatch { s with ticks := s.ticks - 1 } := h.congr rfl rfl
    obtain ⟨⟨hone, hretry, hkeeps⟩, hmatch⟩ :=
      hcongr.tickStartUploads .tickStartUploads (hguard rfl)
    exact ⟨⟨hone, hretry, hkeeps⟩, hmatch⟩
  | tickStartHashings =>
    rw [Uploads.step] at hs
    split_ifs at hs
    cases hs
    obtain ⟨toHash, enqueued, hfields⟩ := startHashings_fields s.manager.toHash.length s.manager
    exact h.tokenProtocol_congr rfl
      ((congrArg UploadManagerImpl.actionTokenState hfields).trans rfl)
  | actionToken response =>
    rw [Uploads.step] at hs
    split_ifs at hs with hpos
    cases hs
    exact h.actionToken hpos response rfl
  | actionTokenRetry err =>
    cases err <;> rw [Uploads.step] at hs <;> split_ifs at hs <;> cases hs <;>
      exact h.actionTokenRetry _ _ rfl
  | tick | clock _ =>
    cases hs
    exact h.tokenProtocol_congr rfl rfl
  | asyncWait | timerExpires =>
    rw [Uploads.step] at hs
    split_ifs at hs
    cases hs
    exact h.tokenProtocol_congr rfl rfl

theorem RequestsMatch.noTickWhileRetrieving (h : s.RequestsMatch) {act : Act}
    (hs : s.step act = some s') (hprotocol : TokenProtocol s act s') :
    NoTickWhileRetrieving s act s' := by
  rintro rfl hne hstate
  rw [Uploads.step] at hs
  split_ifs at hs
  cases hs
  have htwo := tokenRequests_tickStartUploads (s := { s with ticks := s.ticks - 1 }) hne hstate
  have hmatch : s.tokenRequests = 1 := by rw [h, if_pos hstate]
  exact absurd hprotocol.oneRequest (by rw [htwo, hmatch]; decide)

end Step

/-- The protocol is kept along a run exactly when no `Tick` with files to upload comes while a
token is retrieved. -/
theorem along_tokenProtocol_iff (acts : List Act) :
    Along step TokenProtocol {} acts ↔ Along step NoTickWhileRetrieving {} acts :=
  along_iff (I := RequestsMatch)
    (fun _ _ _ h hs => ⟨h.noTickWhileRetrieving hs, fun hguard => (h.step hs hguard).1⟩)
    (fun _ _ _ h hguard hs => (h.step hs hguard).2) rfl

/-- A hashed file waits; a second `Tick` runs before the response to the first one's request. -/
theorem not_along_tokenProtocol_twoTicks : ¬ ∀ acts, Along step TokenProtocol {} acts := by
  intro h
  have hcompute : (run step {} (hashFile 0 ++ [.tickStartUploads])).map (fun s =>
      (s.step .tickStartUploads).map Uploads.tokenRequests) = some (some 2) := by decide +kernel
  obtain ⟨s, hrun, hs⟩ := Option.map_eq_some_iff.mp hcompute
  obtain ⟨s', hs', htwo⟩ := Option.map_eq_some_iff.mp hs
  have hone := ((h (hashFile 0 ++ [.tickStartUploads] ++ [.tickStartUploads])).step_after
    hrun hs').oneRequest
  rw [htwo] at hone
  exact absurd hone (by decide)

end MediafireSdk.Uploader.Uploads
