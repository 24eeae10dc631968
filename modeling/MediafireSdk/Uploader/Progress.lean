import MediafireSdk.Uploader.Upload

/-! What keeps an upload going. In the states in which it works, and waits for neither
the user nor the upload manager, something is under way that the state reacts to: an
event, a request whose answer raises one, or the wait for the next poll. The one way
to lose it is the poll timer: when its wait ends with an error, nothing polls again. -/

namespace MediafireSdk.Uploader

/-- The states of hashing and uploading. -/
def State.isWorking : State → Bool
  | .setupHasher | .hashing | .inUploadCheck | .uploadFile | .instantUpload | .uploadChunk
  | .pollUpload => true
  | _ => false

/-- The events with a row. -/
def State.reactsTo (s : State) (evt : Event) : Bool := (transitionTable s evt false).isSome

/-- The request made on the way into a state. -/
def State.requests : State → ApiRequest → Bool
  | .inUploadCheck, .uploadCheck .. | .uploadFile, .simpleUpload _
  | .instantUpload, .uploadInstant .. | .uploadChunk, .chunkUpload ..
  | .pollUpload, .pollUpload _ => true
  | _, _ => false

namespace Upload

open Runs

/-- What a working upload waits for. -/
inductive Awaits (u : Upload) : Prop
  | event (evt : Event) (hevt : evt ∈ u.inFlight)
      (hrow : u.machine.state.reactsTo evt = true)
  | answer (request : ApiRequest) (hcall : request ∈ u.calls)
      (hrequest : u.machine.state.requests request = true)
  | timer (hstate : u.machine.state = .pollUpload) (htimers : u.timers ≠ [])

def KeepsGoing (u : Upload) : Prop := u.machine.state.isWorking = true → u.Awaits

/-- The wait for the poll timer does not end with an error while there is nothing else to wait
for. -/
def PollsAgain (u : Upload) (act : Act) (_ : Upload) : Prop :=
  ∀ i, act = .retryPoll i true → u.machine.state = .pollUpload →
    (∃ evt ∈ u.inFlight, State.reactsTo .pollUpload evt = true) ∨
      (∃ request ∈ u.calls, State.requests .pollUpload request = true) ∨ u.timers.eraseIdx i ≠ []

/-- What effects give a state to wait for. -/
inductive Supplies (s : State) (effects : List Effect) : Prop
  | event (evt : Event) (hevt : evt ∈ raised effects) (hrow : s.reactsTo evt = true)
  | answer (request : ApiRequest) (hcall : request ∈ issued effects)
      (hrequest : s.requests request = true)
  | timer (hstate : s = .pollUpload) (htimers : waits effects ≠ [])

section Supplies
variable {w : World} {m : UploadStateMachine} {s : State} {xs effects : List Effect}

theorem Supplies.of_subset (h : Supplies s xs) (hsub : xs ⊆ effects) : Supplies s effects := by
  cases h with
  | event evt hevt hrow => exact .event evt (List.filterMap_subset _ hsub hevt) hrow
  | answer request hcall hrequest =>
    exact .answer request (List.filterMap_subset _ hsub hcall) hrequest
  | timer hs hne =>
    obtain ⟨key, hkey⟩ := List.exists_mem_of_ne_nil _ hne
    exact .timer hs (List.ne_nil_of_mem (List.filterMap_subset _ hsub hkey))

theorem Supplies.singleton {evt : Event} (h : s.reactsTo evt = true) :
    Supplies s [.processEvent evt] :=
  .event evt (List.mem_singleton_self _) h

/-! ### Transitions -/

theorem supplies_setupHasher (m : UploadStateMachine) :
    .halted ∈ setupHasherOnEntry m ∨ Supplies .setupHasher (setupHasherOnEntry m) := by
  unfold setupHasherOnEntry
  split
  · exact .inl (List.mem_append_right _ (List.mem_singleton_self _))
  · exact .inr ((Supplies.singleton rfl).of_subset (List.subset_append_right _ _))

theorem supplies_openFile (w : World) (state : HasherStateData) :
    Supplies .hashing (openFile w state) := by
  unfold Uploader.openFile
  split
  · exact .event _ (List.mem_singleton_self _) rfl
  · exact .event _ (List.mem_singleton_self _) rfl

theorem reactsTo_verifyFileUnchanged {stat : FileStat} {state : HasherStateData} {e : Event}
    (h : verifyFileUnchanged stat state = some e) : State.reactsTo .hashing e = true := by
  unfold verifyFileUnchanged at h
  split at h
  · cases h; rfl
  · split_ifs at h
    · cases h; rfl
    · split at h
      · cases h; rfl
      · split_ifs at h
        cases h; rfl

theorem supplies_finishHash (w : World) (state : HasherStateData) :
    Supplies .hashing (finishHash w state) := by
  unfold finishHash
  dsimp only
  split
  · rename_i hverify
    exact .event _ (List.mem_filterMap.mpr ⟨_, List.mem_append_right _ List.mem_cons_self, rfl⟩)
      (reactsTo_verifyFileUnchanged hverify)
  · exact .event _ (List.mem_filterMap.mpr ⟨_, List.mem_append_right _ List.mem_cons_self, rfl⟩) rfl

theorem supplies_readFile (w : World) (state : HasherStateData) (fileIo : Utils.FileIO)
    (readBytePos : ℕ) :
    .halted ∈ readFile w state fileIo readBytePos ∨
      Supplies .hashing (readFile w state fileIo readBytePos) := by
  unfold readFile
  split
  · rename_i hverify
    exact .inr (.event _ (List.mem_singleton_self _) (reactsTo_verifyFileUnchanged hverify))
  · split
    · split
      · exact .inl (List.mem_singleton_self _)
      · exact .inr (supplies_finishHash w _)
    · exact .inr (.event _ (List.mem_singleton_self _) rfl)
    · split
      · exact .inl (List.mem_singleton_self _)
      · exact .inr (.event _ (List.mem_singleton_self _) rfl)

theorem supplies_doSimpleUpload (w : World) (m : UploadStateMachine) :
    Supplies .uploadFile (doSimpleUpload w m) := by
  unfold doSimpleUpload
  split
  · exact .singleton rfl
  · split
    · exact .singleton rfl
    · exact .answer _ List.mem_cons_self rfl

theorem supplies_doChunkUpload (w : World) (m : UploadStateMachine) :
    .halted ∈ doChunkUpload w m ∨ Supplies .uploadChunk (doChunkUpload w m) := by
  unfold doChunkUpload
  split
  · split
    · exact .inr (.singleton rfl)
    · exact .inl (List.mem_singleton_self _)
    · refine .inr (.answer _ (mem_issued.mpr (List.mem_append_right _ List.mem_cons_self)) rfl)
  · exact .inr ((Supplies.singleton rfl).of_subset (List.subset_append_right _ _))

theorem supplies_startPoll (uploadKey : String) : Supplies .pollUpload (startPoll uploadKey) := by
  unfold startPoll
  split_ifs
  · exact .event _ List.mem_cons_self rfl
  · exact .answer _ List.mem_cons_self rfl

/-- A row into a working state supplies it with something to wait for. -/
theorem supplies_fire {evt : Event} {target : State} {action : Action}
    (hrow : transitionTable m.state evt (m.hash ≠ "") = some (target, action))
    (htarget : target.isWorking = true) (hdef : .halted ∉ m.fire w evt) :
    Supplies target (m.fire w evt) := by
  rw [UploadStateMachine.fire_row hrow] at hdef ⊢
  have haction (h : .halted ∈ action.effects w (m.exited w) evt ∨
      Supplies target (action.effects w (m.exited w) evt)) :
      Supplies target (onExit w m m.state ++ action.effects w (m.exited w) evt ++
        onEntry (m.acted w evt action) target evt ++ [.write (.state target)]) := by
    refine (h.resolve_left fun hmem => hdef ?_).of_subset fun x hx => ?_
    · simp [hmem]
    · simp [hx]
  have hentry (h : .halted ∈ onEntry (m.acted w evt action) target evt ∨
      Supplies target (onEntry (m.acted w evt action) target evt)) :
      Supplies target (onExit w m m.state ++ action.effects w (m.exited w) evt ++
        onEntry (m.acted w evt action) target evt ++ [.write (.state target)]) := by
    refine (h.resolve_left fun hmem => hdef ?_).of_subset fun x hx => ?_
    · simp [hmem]
    · simp [hx]
  generalize m.state = start at *
  unfold transitionTable at hrow
  split at hrow
  case h_1 => split_ifs at hrow <;> cases hrow <;> cases htarget
  case h_3 => cases hrow; exact hentry (supplies_setupHasher _)
  case h_5 => cases hrow; exact haction (.inr (supplies_openFile w _))
  case h_6 => cases hrow; exact haction (supplies_readFile w _ _ _)
  case h_9 => cases hrow; exact haction (.inr (.answer _ (List.mem_singleton_self _) rfl))
  case h_11 => cases hrow; exact haction (.inr (supplies_doSimpleUpload w _))
  case h_12 => cases hrow; exact haction (supplies_doChunkUpload w _)
  case h_13 => cases hrow; exact haction (.inr (.answer _ (List.mem_singleton_self _) rfl))
  case h_18 => cases hrow; exact haction (supplies_doChunkUpload w _)
  case h_19 => cases hrow; exact haction (.inr (supplies_startPoll _))
  case h_21 => cases hrow; exact haction (.inr (supplies_startPoll _))
  all_goals cases hrow <;> cases htarget

/-! ### Answers -/

theorem supplies_checkResponse (m : UploadStateMachine) (response : CheckResponse) :
    .halted ∈ checkResponse m response ∨ Supplies .inUploadCheck (checkResponse m response) := by
  unfold checkResponse
  split
  · exact .inr (.singleton rfl)
  · unfold handleCheck
    split
    · exact .inr (.singleton rfl)
    · split_ifs
      · exact .inr (.singleton rfl)
      · exact .inr (.singleton rfl)
      · exact .inr (.singleton rfl)
      · split
        · exact .inr (.event _ List.mem_cons_self rfl)
        · split_ifs
          · exact .inr (.event _ List.mem_cons_self rfl)
          · exact .inr ((Supplies.singleton rfl).of_subset (List.subset_append_right _ _))
      · exact .inr (.singleton rfl)

theorem supplies_httpResponse {success : String → Event}
    (hsuccess : ∀ uploadKey, s.reactsTo (success uploadKey) = true)
    (herror : ∀ ec description, s.reactsTo (.error ec description) = true)
    (response : HttpResponse) : Supplies s (httpResponse (handleDoUpload success) response) := by
  unfold httpResponse
  split
  · exact .singleton (herror _ _)
  · unfold handleDoUpload
    split
    · split <;> exact .singleton (herror _ _)
    · split
      · exact .singleton (hsuccess _)
      · split <;> exact .singleton (herror _ _)

/-- The answer to the request of a state supplies it with something to wait for. -/
theorem supplies_handleResponse {request : ApiRequest} {response : Response}
    (hrequest : s.requests request = true)
    (h : handleResponse m request response = some effects) (hdef : .halted ∉ effects) :
    Supplies s effects := by
  unfold handleResponse at h
  split at h <;> cases h
  · cases s <;> cases hrequest
    exact (supplies_checkResponse m _).resolve_left hdef
  · cases s <;> cases hrequest
    unfold instantResponse
    split <;> exact .singleton rfl
  · cases s <;> cases hrequest
    exact supplies_httpResponse (fun _ => rfl) (fun _ _ => rfl) _
  · cases s <;> cases hrequest
    exact supplies_httpResponse (fun _ => rfl) (fun _ _ => rfl) _
  · cases s <;> cases hrequest
    rename_i uploadKey response
    rcases handlePollResponse_cases uploadKey m response with ⟨_, _, he⟩ | ⟨_, _, _, he⟩ | he <;>
      rw [he]
    · exact .singleton rfl
    · exact .singleton rfl
    · exact .timer rfl (List.cons_ne_nil _ _)

end Supplies

/-! ### Every run -/

theorem isSome_transitionTable (s : State) (evt : Event) (hasHash : Bool) :
    (transitionTable s evt hasHash).isSome = s.reactsTo evt := by
  unfold State.reactsTo
  cases hasHash with
  | false => rfl
  | true => cases s <;> cases evt <;> rfl

theorem isWorking_of_isTerminal {s : State} (h : s.isTerminal = true) : s.isWorking = false := by
  cases s <;> first | rfl | cases h

section Run
variable {u u' : Upload} {events : Multiset Event} {calls : List ApiRequest}
  {timers : List String} {effects : List Effect}

theorem Supplies.awaits (h : Supplies u'.machine.state effects)
    (hexec : u.Executes u' events calls timers effects) : u'.Awaits := by
  cases h with
  | event evt hevt hrow =>
    refine .event evt ?_ hrow
    rw [hexec.inFlight, Multiset.mem_add]
    exact .inr hevt
  | answer request hcall hrequest =>
    refine .answer request ?_ hrequest
    rw [hexec.calls]
    exact List.mem_append_right _ hcall
  | timer hs hne =>
    refine .timer hs ?_
    rw [hexec.timers]
    exact List.append_ne_nil_of_right_ne_nil _ hne

/-- What a step leaves alone is awaited as before. -/
theorem Awaits.kept (h : u.Awaits) (hexec : u.Executes u' events calls timers effects)
    (hstate : u'.machine.state = u.machine.state)
    (hevents : ∀ evt ∈ u.inFlight, u.machine.state.reactsTo evt = true → evt ∈ events)
    (hcalls : ∀ request ∈ u.calls, u.machine.state.requests request = true →
      request ∈ calls ∨ u'.Awaits)
    (htimers : u.machine.state = .pollUpload → u.timers ≠ [] → timers ≠ [] ∨ u'.Awaits) :
    u'.Awaits := by
  cases h with
  | event evt hevt hrow =>
    refine .event evt ?_ (hstate ▸ hrow)
    rw [hexec.inFlight, Multiset.mem_add]
    exact .inl (hevents evt hevt hrow)
  | answer request hcall hrequest =>
    rcases hcalls request hcall hrequest with hmem | hawaits
    · refine .answer request ?_ (hstate ▸ hrequest)
      rw [hexec.calls]
      exact List.mem_append_left _ hmem
    · exact hawaits
  | timer hs hne =>
    rcases htimers hs hne with hne' | hawaits
    · refine .timer (hstate.trans hs) ?_
      rw [hexec.timers]
      exact List.append_ne_nil_of_left_ne_nil hne' _
    · exact hawaits

theorem mem_eraseIdx_of_ne {α : Type*} {xs : List α} {i : ℕ} {x y : α} (hx : xs[i]? = some x)
    (hy : y ∈ xs) (hne : y ≠ x) : y ∈ xs.eraseIdx i := by
  obtain ⟨hi, rfl⟩ := List.getElem?_eq_some_iff.mp hx
  have hmem := (List.getElem_cons_eraseIdx_perm hi).mem_iff.mpr hy
  exact (List.mem_cons.mp hmem).resolve_left hne

theorem KeepsGoing.step {act : Act} (h : u.KeepsGoing) (hpoll : PollsAgain u act u')
    (hs : u.step act = some u') : u'.KeepsGoing := by
  intro hworking
  cases step_cases hs with
  | arrive _ hexec =>
    have hstate : u'.machine.state = u.machine.state := by rw [hexec.machine]; rfl
    exact (h (hstate ▸ hworking)).kept hexec hstate (fun _ hevt _ => hevt)
      (fun _ hcall _ => .inl hcall) fun _ hne => .inl hne
  | @event _ evt rest w _ hrest hexec =>
    by_cases hterm : u.machine.state.isTerminal = true
    · rw [UploadStateMachine.fire_terminal hterm] at hexec
      have hstate : u'.machine.state = u.machine.state := by rw [hexec.machine]; rfl
      rw [hstate, isWorking_of_isTerminal hterm] at hworking
      cases hworking
    · cases hrow : transitionTable u.machine.state evt (u.machine.hash ≠ "") with
      | none =>
        rw [UploadStateMachine.fire_noTransition (by simpa using hterm) hrow] at hexec
        have hstate : u'.machine.state = u.machine.state := by rw [hexec.machine]; rfl
        have hdropped : u.machine.state.reactsTo evt = false := by
          rw [← isSome_transitionTable _ _ (u.machine.hash ≠ ""), hrow]
          rfl
        refine (h (hstate ▸ hworking)).kept hexec hstate (fun e he hreacts => ?_)
          (fun _ hcall _ => .inl hcall) fun _ hne => .inl hne
        rw [hrest, Multiset.mem_cons] at he
        refine he.resolve_left ?_
        rintro rfl
        rw [hdropped] at hreacts
        cases hreacts
      | some row =>
        have hstate : u'.machine.state = row.1 := by
          rw [hexec.machine]
          exact UploadStateMachine.applyAll_fire_row_state hrow
        rw [hstate] at hworking
        exact (hstate ▸ supplies_fire hrow hworking hexec.defined).awaits hexec
  | @answer i response request effects hcall hresponse hexec =>
    have hstate : u'.machine.state = u.machine.state := by
      rw [hexec.machine]
      refine UploadStateMachine.applyAll_state fun s hmem => ?_
      cases fromHandler_handleResponse hresponse hmem
    refine (h (hstate ▸ hworking)).kept hexec hstate (fun _ hevt _ => hevt)
      (fun r hr hrequest => ?_) fun _ hne => .inl hne
    by_cases heq : r = request
    · subst heq
      rw [← hstate] at hrequest
      exact .inr ((supplies_handleResponse hrequest hresponse hexec.defined).awaits hexec)
    · exact .inl (mem_eraseIdx_of_ne hcall hr heq)
  | @retryPoll i err uploadKey htimer hexec =>
    have hstate : u'.machine.state = u.machine.state := by
      rw [hexec.machine]
      refine UploadStateMachine.applyAll_state fun s hmem => ?_
      cases err with
      | true => cases hmem
      | false => cases fromAction_startPoll hmem
    refine (h (hstate ▸ hworking)).kept hexec hstate (fun _ hevt _ => hevt)
      (fun _ hcall _ => .inl hcall) fun hpolling _ => ?_
    cases err with
    | false =>
      have hsupplies : Supplies u'.machine.state (retryPoll uploadKey false) := by
        rw [hstate, hpolling]
        exact supplies_startPoll uploadKey
      exact .inr (hsupplies.awaits hexec)
    | true =>
      rcases hpoll i rfl hpolling with ⟨evt, hevt, hrow⟩ | ⟨request, hcall, hrequest⟩ | hne
      · refine .inr (.event evt ?_ (by rw [hstate, hpolling]; exact hrow))
        rw [hexec.inFlight, Multiset.mem_add]
        exact .inl hevt
      · refine .inr (.answer request ?_ (by rw [hstate, hpolling]; exact hrequest))
        rw [hexec.calls]
        exact List.mem_append_left _ hcall
      · exact .inl hne

theorem pollsAgain_of_keepsGoing {act : Act} (hs : u.step act = some u') (h : u'.KeepsGoing) :
    PollsAgain u act u' := by
  rintro i rfl hpolling
  cases step_cases hs with
  | event _ hact _ _ => cases hact
  | retryPoll _ hexec =>
    have hstate : u'.machine.state = .pollUpload := by
      rw [hexec.machine]
      exact hpolling
    have hevents : u'.inFlight = u.inFlight := by
      rw [hexec.inFlight]
      exact add_zero _
    have hcalls : u'.calls = u.calls := by
      rw [hexec.calls]
      exact List.append_nil _
    have htimers : u'.timers = u.timers.eraseIdx i := by
      rw [hexec.timers]
      exact List.append_nil _
    cases h (by rw [hstate]; rfl) with
    | event evt hevt hrow => exact .inl ⟨evt, hevents ▸ hevt, hstate ▸ hrow⟩
    | answer request hcall hrequest =>
      exact .inr (.inl ⟨request, hcalls ▸ hcall, hstate ▸ hrequest⟩)
    | timer _ hne => exact .inr (.inr (htimers ▸ hne))

end Run

/-- A run of an upload never stalls, exactly when it never loses the poll timer. -/
theorem always_keepsGoing_iff (pathFilename : String) (cloudFileName : Option String)
    (onDuplicateAction : OnDuplicateAction) (acts : List Act) :
    Always step KeepsGoing (create pathFilename cloudFileName onDuplicateAction) acts ↔
      Along step PollsAgain (create pathFilename cloudFileName onDuplicateAction) acts :=
  always_iff_along (I := KeepsGoing) (fun _ h => h) (fun _ _ _ h hg hs => h.step hg hs)
    (fun _ _ _ _ hs h => pollsAgain_of_keepsGoing hs h) fun h => nomatch h

end Upload

end MediafireSdk.Uploader
