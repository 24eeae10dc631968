import MediafireSdk.Uploader.Slots

/-! Duplicate contents in the upload manager. `uploading_hashes_` is a set of hashes,
filled when a request is enqueued to upload and emptied by the completion of any
request that carries the hash. No two requests with one hash upload at the same time
exactly as long as no request completes while another one uploads the same hash:
the cancellation of a waiting duplicate breaks it. -/

namespace MediafireSdk.Uploader

/-- The states past `WaitForUploadSignal` and not complete. -/
def State.isUploading : State → Bool
  | .inUploadCheck | .uploadFile | .instantUpload | .uploadChunk | .pollUpload => true
  | _ => false

namespace Uploads

open Runs

/-- Enqueued to start uploading, or past `WaitForUploadSignal` and not complete; the state of the
machine changes at the end of the transition. -/
def Uploading (s : Uploads) (i : ℕ) : Prop :=
  i ∈ s.manager.requests ∧
    (i ∈ s.manager.enqueuedToStartUploads ∨ (s.machine i).state.isUploading = true ∨
      ∃ state, state.isUploading = true ∧ .own (.write (.state state)) ∈ s.todo i)

structure NoDuplicates (s : Uploads) : Prop where
  unique : ∀ i j, s.Uploading i → s.Uploading j → s.hash i = s.hash j → i = j
  held : ∀ i, s.Uploading i → s.hash i ∈ s.manager.uploadingHashes

/-- A request whose completion is handled has a hash that no other request uploads. -/
def CompletesAlone (s : Uploads) (act : Act) (_ : Uploads) : Prop :=
  ∀ i todo, act = .task i → s.todo i = .body .handleComplete :: todo → s.hash i ≠ "" →
    ∀ j, j ≠ i → s.Uploading j → s.hash j ≠ s.hash i

def isHashData : Task → Bool
  | .own (.write (.completeHashData _ _ _)) => true
  | _ => false

/-- The hash is written by the first task of a transition of a request that does not upload. -/
structure WritesHash (s : Uploads) (i : ℕ) : Prop where
  first : ∃ task todo, s.todo i = task :: todo ∧ ∀ t ∈ todo, isHashData t = false
  notUploading : ¬ s.Uploading i
  notWaiting : i ∉ s.manager.toUpload

structure HashInv (s : Uploads) : Prop where
  accounts : ∃ view, s.Accounts view
  duplicates : s.NoDuplicates
  writes : ∀ i, (∃ t ∈ s.todo i, isHashData t = true) → s.WritesHash i

section Step
variable {s s' : Uploads} {view : ℕ → View} {i j : ℕ}

theorem SameFor.uploading (h : s.SameFor s' i) : s'.Uploading i ↔ s.Uploading i := by
  simp only [Uploading, machine, todo, h.request, h.requests, h.startUpload]

theorem SameFor.hash (h : s.SameFor s' i) : s'.hash i = s.hash i := by
  simp only [Uploads.hash, machine, h.request]

theorem SameFor.writesHash (h : s.SameFor s' i) (hw : s.WritesHash i) : s'.WritesHash i where
  first := by
    have := hw.first
    simpa only [todo, h.request] using this
  notUploading := fun hu => hw.notUploading (h.uploading.mp hu)
  notWaiting := fun hmem => hw.notWaiting (h.toUpload.mp hmem)

/-- Steps that start no upload and give no hash back. -/
theorem NoDuplicates.of_le (h : s.NoDuplicates)
    (hle : ∀ i, s'.Uploading i → s.Uploading i ∧ s'.hash i = s.hash i)
    (hsub : ∀ i, s'.Uploading i → s.hash i ∈ s.manager.uploadingHashes →
      s.hash i ∈ s'.manager.uploadingHashes) : s'.NoDuplicates where
  unique i j hi hj heq := by
    rw [(hle i hi).2, (hle j hj).2] at heq
    exact h.unique i j (hle i hi).1 (hle j hj).1 heq
  held i hi := by
    rw [(hle i hi).2]
    exact hsub i hi (h.held i (hle i hi).1)

/-- No task of any request starts an upload. -/
theorem uploading_runTask {t : Task} {todo : List Task} (htodo : s.todo i = t :: todo)
    (h : (s.runTask i todo t).Uploading j) : s.Uploading j := by
  by_cases hj : j = i
  · subst hj
    obtain ⟨hlive, hup⟩ := h
    rw [todo_runTask] at hup
    have hpending (hmem : ∃ state, State.isUploading state = true ∧
        .own (.write (.state state)) ∈ todo) :
        ∃ state, State.isUploading state = true ∧ .own (.write (.state state)) ∈ s.todo j := by
      obtain ⟨state, hstate, hmem⟩ := hmem
      exact ⟨state, hstate, htodo ▸ List.mem_cons_of_mem _ hmem⟩
    cases t with
    | own x =>
      refine ⟨hlive, hup.imp id (Or.rec (fun hstate => ?_) fun hmem => .inr (hpending hmem))⟩
      rw [show (s.runTask j todo (.own x)).machine j = (s.machine j).apply x from
        machine_setRequest] at hstate
      cases x with
      | write w =>
        cases w with
        | state state => exact .inr ⟨state, hstate, htodo ▸ List.mem_cons_self⟩
        | _ => exact .inl hstate
      | _ => exact .inl hstate
    | enqueueTick =>
      rw [machine_runTask_enqueueTick] at hup
      exact ⟨hlive, hup.imp id (Or.imp id hpending)⟩
    | body c =>
      rw [machine_runTask_body] at hup
      refine ⟨?_, hup.imp (fun hmem => ?_) (Or.imp id hpending)⟩
      · cases c with
        | handleComplete => exact Finset.mem_of_mem_erase hlive
        | _ => exact hlive
      · cases c with
        | handleComplete | incrementUploadingCount => exact Finset.mem_of_mem_erase hmem
        | _ => exact hmem
  · exact (sameFor_runTask hj).uploading.mp h

/-- Only the hash data change the hash. -/
theorem hash_runTask {t : Task} {todo : List Task} (ht : j = i → isHashData t = false) :
    (s.runTask i todo t).hash j = s.hash j := by
  by_cases hj : j = i
  · subst hj
    rw [Uploads.hash, Uploads.hash]
    cases t with
    | own x =>
      rw [show (s.runTask j todo (.own x)).machine j = (s.machine j).apply x from
        machine_setRequest]
      cases x with
      | write w =>
        cases w with
        | completeHashData hash ranges hashes => cases ht rfl
        | _ => rfl
      | _ => rfl
    | enqueueTick => rw [machine_runTask_enqueueTick]
    | body c => rw [machine_runTask_body]
  · exact (sameFor_runTask hj).hash

theorem HashInv.task (h : s.HashInv) {t : Task} {todo : List Task}
    (htodo : s.todo i = t :: todo) (haccounts : ∃ view, (s.runTask i todo t).Accounts view)
    (halone : t = .body .handleComplete → s.hash i ≠ "" →
      ∀ j, j ≠ i → s.Uploading j → s.hash j ≠ s.hash i) : (s.runTask i todo t).HashInv where
  accounts := haccounts
  duplicates := by
    refine h.duplicates.of_le (fun j hj => ?_) fun j hj hmem => ?_
    · have hold := uploading_runTask htodo hj
      refine ⟨hold, hash_runTask fun heq => ?_⟩
      by_contra hdata
      have hw := h.writes i ⟨t, htodo ▸ List.mem_cons_self, by simpa using hdata⟩
      exact hw.notUploading (heq ▸ hold)
    · cases t with
      | body c =>
        cases c with
        | handleComplete =>
          have hold := uploading_runTask htodo hj
          have hne : j ≠ i := by
            rintro rfl
            exact Finset.notMem_erase _ _ hj.1
          simp only [runTask, UploadManagerImpl.body, UploadManagerImpl.handleComplete]
          split_ifs with hhash
          · exact Finset.mem_erase.mpr ⟨halone rfl hhash j hne hold, hmem⟩
          · exact hmem
        | _ => exact hmem
      | _ => exact hmem
  writes j := by
    by_cases hj : j = i
    · subst hj
      rintro ⟨t', hmem, hdata⟩
      rw [todo_runTask] at hmem
      obtain ⟨⟨task, todo', hfirst, hrest⟩, -, -⟩ :=
        h.writes j ⟨t', htodo ▸ List.mem_cons_of_mem _ hmem, hdata⟩
      obtain ⟨rfl, rfl⟩ := List.cons.inj (htodo.symm.trans hfirst)
      rw [hrest t' hmem] at hdata
      cases hdata
    · have hsame : s.SameFor (s.runTask i todo t) j := sameFor_runTask hj
      intro hex
      rw [Uploads.todo, hsame.request] at hex
      exact hsame.writesHash (h.writes j hex)

/-! ### Transitions that begin -/

theorem mem_of_own_mem_tasks {x : Effect} {xs : List Effect} (h : .own x ∈ tasks xs) : x ∈ xs := by
  obtain ⟨y, hy, hx⟩ := List.mem_flatMap.mp h
  cases y with
  | callback c => cases c <;> simp [Effect.tasks, Callback.tasks] at hx
  | _ =>
    cases List.mem_singleton.mp hx
    exact hy

theorem row_isUploading {start target : State} {evt : Event} {hasHash : Bool} {action : Action}
    (h : transitionTable start evt hasHash = some (target, action))
    (htarget : target.isUploading = true) :
    start.isUploading = true ∨ start = .waitForUploadSignal ∧ ∃ token, evt = .startUpload token := by
  unfold transitionTable at h
  split at h <;> try split_ifs at h
  all_goals cases h
  all_goals first
    | exact .inl rfl
    | exact .inr ⟨rfl, _, rfl⟩
    | cases htarget

/-- A transition into an uploading state. -/
theorem isUploading_of_fire {w : World} {m : UploadStateMachine} {evt : Event} {state : State}
    (hmem : .own (.write (.state state)) ∈ tasks (m.fire w evt))
    (hstate : state.isUploading = true) :
    m.state.isUploading = true ∨
      m.state = .waitForUploadSignal ∧ ∃ token, evt = .startUpload token := by
  have hfire := mem_of_own_mem_tasks hmem
  unfold UploadStateMachine.fire at hfire
  split_ifs at hfire
  · cases hfire
  · split at hfire
    · simp at hfire
    · rename_i target action hrow
      rcases List.mem_append.mp hfire with hfire | hfire
      · rcases List.mem_append.mp hfire with hfire | hfire
        · rcases List.mem_append.mp hfire with hfire | hfire
          · cases fromExit_onExit hfire
          · cases fromAction_effects hfire
        · cases fromEntry_onEntry hfire
      · obtain rfl : state = target := by simpa using hfire
        exact row_isUploading hrow hstate

/-- A transition that writes the hash does so first. -/
theorem hashData_of_fire {w : World} {m : UploadStateMachine} {evt : Event} {t : Task}
    (hmem : t ∈ tasks (m.fire w evt)) (hdata : isHashData t = true) :
    m.state = .hashing ∧ (∃ state hash, evt = .hashSuccess state hash) ∧
      ∃ task todo, tasks (m.fire w evt) = task :: todo ∧ ∀ t ∈ todo, isHashData t = false := by
  obtain ⟨hash, ranges, hashes, rfl⟩ : ∃ hash ranges hashes,
      t = .own (.write (.completeHashData hash ranges hashes)) := by
    unfold isHashData at hdata
    split at hdata
    · exact ⟨_, _, _, rfl⟩
    · cases hdata
  obtain ⟨target, hrow⟩ := saveHash_row_of_fire (mem_of_own_mem_tasks hmem)
  obtain ⟨hs, rfl, state, sha256Hash, rfl⟩ := row_saveHash hrow
  refine ⟨hs, ⟨_, _, rfl⟩, ?_⟩
  rw [UploadStateMachine.fire_row hrow, hs]
  refine ⟨_, _, rfl, ?_⟩
  simp [isHashData, onEntry, Effect.tasks, Callback.tasks]

/-- A request begins to handle an event. -/
theorem HashInv.begin (h : s.HashInv) {w : World} {evt : Event} (htodo : s.todo i = [])
    (hmanager : s'.manager = s.manager)
    (hrequest : s'.request = Function.update s.request i
      { machine := s.machine i, todo := tasks ((s.machine i).fire w evt) })
    (haccounts : ∃ view, s'.Accounts view)
    (hstart : (∃ token, evt = .startUpload token) →
      (s.machine i).state = .waitForUploadSignal → i ∈ s.manager.requests →
        i ∈ s.manager.enqueuedToStartUploads) : s'.HashInv := by
  have hmachine (j : ℕ) : s'.machine j = s.machine j := by
    rw [machine, hrequest]
    by_cases hj : j = i
    · subst hj
      rw [Function.update_self]
    · rw [Function.update_of_ne hj, machine]
  have hother (j : ℕ) (hj : j ≠ i) : s'.todo j = s.todo j := by
    rw [todo, hrequest, Function.update_of_ne hj, todo]
  have htodo' : s'.todo i = tasks ((s.machine i).fire w evt) := by
    rw [todo, hrequest, Function.update_self]
  have hhash (j : ℕ) : s'.hash j = s.hash j := by rw [hash, hash, hmachine]
  have hle (j : ℕ) (hj : s'.Uploading j) : s.Uploading j := by
    obtain ⟨hlive, hup⟩ := hj
    rw [hmanager] at hlive hup
    rw [hmachine] at hup
    refine ⟨hlive, ?_⟩
    rcases hup with hup | hup | ⟨state, hstate, hmem⟩
    · exact .inl hup
    · exact .inr (.inl hup)
    · by_cases hj : j = i
      · subst hj
        rw [htodo'] at hmem
        rcases isUploading_of_fire hmem hstate with hup | ⟨hwait, hevt⟩
        · exact .inr (.inl hup)
        · exact .inl (hstart hevt hwait hlive)
      · exact .inr (.inr ⟨state, hstate, hother j hj ▸ hmem⟩)
  refine ⟨haccounts, h.duplicates.of_le (fun j hj => ⟨hle j hj, hhash j⟩)
    (fun j _ hmem => hmanager ▸ hmem), fun j hex => ?_⟩
  by_cases hj : j = i
  · subst hj
    obtain ⟨t, hmem, hdata⟩ := hex
    rw [htodo'] at hmem
    obtain ⟨hs, -, hfirst⟩ := hashData_of_fire hmem hdata
    obtain ⟨view, hacc⟩ := h.accounts
    have hplace := (idle_place ((hacc.shows j).idle htodo)).2
    rw [(hacc.shows j).state, hs] at hplace
    have hno : (view j).place ≠ .toUpload ∧ (view j).place ≠ .startUpload := by
      simpa [not_or] using hplace
    refine ⟨by rw [htodo']; exact hfirst, fun hup => ?_, fun hmem => ?_⟩
    · obtain ⟨-, hup | hup | ⟨state, hstate, hmem⟩⟩ := hle j hup
      · exact hno.2 ((hacc.shows j).startUpload.mp hup)
      · rw [hs] at hup
        cases hup
      · rw [htodo] at hmem
        cases hmem
    · rw [hmanager] at hmem
      exact hno.1 ((hacc.shows j).toUpload.mp hmem)
  · rw [hother j hj] at hex
    obtain ⟨hfirst, hnot, hwaiting⟩ := h.writes j hex
    exact ⟨by rw [hother j hj]; exact hfirst, fun hup => hnot (hle j hup), by rwa [hmanager]⟩

/-- Steps that change neither requests nor what this invariant reads of the manager. -/
theorem HashInv.congr (h : s.HashInv) (haccounts : ∃ view, s'.Accounts view)
    (hrequest : s'.request = s.request) (hrequests : s'.manager.requests = s.manager.requests)
    (hstart : s'.manager.enqueuedToStartUploads = s.manager.enqueuedToStartUploads)
    (hupload : s'.manager.toUpload = s.manager.toUpload)
    (hhashes : s'.manager.uploadingHashes = s.manager.uploadingHashes) : s'.HashInv := by
  have hup (j : ℕ) : s'.Uploading j ↔ s.Uploading j := by
    simp only [Uploading, machine, todo, hrequest, hrequests, hstart]
  have hhash (j : ℕ) : s'.hash j = s.hash j := by rw [hash, machine, hrequest, hash, machine]
  refine ⟨haccounts, h.duplicates.of_le (fun j hj => ⟨(hup j).mp hj, hhash j⟩)
    (fun j _ hmem => hhashes ▸ hmem), fun j hex => ?_⟩
  rw [todo, hrequest] at hex
  obtain ⟨hfirst, hnot, hwaiting⟩ := h.writes j hex
  exact ⟨by rw [todo, hrequest]; exact hfirst, fun hu => hnot ((hup j).mp hu), hupload ▸ hwaiting⟩

theorem HashInv.tickStartUploads (h : s.HashInv) : s.tickStartUploads.HashInv := by
  obtain ⟨view, hacc⟩ := h.accounts
  have haccounts := hacc.tickStartUploads
  have hticks := ticksUploads s.manager s.hash s.now
  revert haccounts
  unfold Uploads.tickStartUploads
  generalize s.manager.tickStartUploads s.hash s.now = result at hticks
  intro haccounts
  cases hticks with
  | empty _ => exact h.congr haccounts rfl rfl rfl rfl rfl
  | early _ _ => exact h.congr haccounts rfl rfl rfl rfl rfl
  | getActionToken _ _ _ => exact h.congr haccounts rfl rfl rfl rfl rfl
  | full _ _ => exact h.congr haccounts rfl rfl rfl rfl rfl
  | duplicates _ _ => exact h.congr haccounts rfl rfl rfl rfl rfl
  | startUpload i hi hhash hmore hvalid =>
    have hle {j : ℕ} (hj : j ∈ s.manager.requests ∧ (j ∈ insert i s.manager.enqueuedToStartUploads ∨
        (s.machine j).state.isUploading = true ∨
          ∃ state, State.isUploading state = true ∧ .own (.write (.state state)) ∈ s.todo j)) :
        j = i ∨ s.Uploading j := by
      obtain ⟨hlive, hup | hup⟩ := hj
      · exact (Finset.mem_insert.mp hup).imp id fun hup => ⟨hlive, .inl hup⟩
      · exact .inr ⟨hlive, .inr hup⟩
    have hne {j : ℕ} (hj : s.Uploading j) : s.hash j ≠ s.hash i := fun heq =>
      hhash (heq ▸ h.duplicates.held j hj)
    refine ⟨haccounts, ⟨fun j k hj hk heq => ?_, fun j hj => ?_⟩, fun j hex => ?_⟩
    · rcases hle hj with rfl | hold <;> rcases hle hk with rfl | hold'
      · rfl
      · exact absurd heq.symm (hne hold')
      · exact absurd heq (hne hold)
      · exact h.duplicates.unique j k hold hold' heq
    · rcases hle hj with rfl | hj
      · exact Finset.mem_insert_self ..
      · exact Finset.mem_insert_of_mem (h.duplicates.held j hj)
    · obtain ⟨hfirst, hnot, hwaiting⟩ := h.writes j hex
      refine ⟨hfirst, fun hup => ?_, fun hmem => hwaiting (List.mem_of_mem_erase hmem)⟩
      rcases hle hup with rfl | hup
      · exact hwaiting hi
      · exact hnot hup

/-- A new request does not upload. -/
theorem HashInv.add (h : s.HashInv) {m : UploadStateMachine} (hstate : m.state = .initial)
    (haccounts : ∃ view, Uploads.Accounts { s.setRequest s.added { machine := m } with
      manager := { s.manager with requests := insert s.added s.manager.requests }
      added := s.added + 1 } view)
    (hstart : s.added ∉ s.manager.enqueuedToStartUploads) :
    HashInv { s.setRequest s.added { machine := m } with
      manager := { s.manager with requests := insert s.added s.manager.requests }
      added := s.added + 1 } := by
  generalize hs' : ({ s.setRequest s.added { machine := m } with
      manager := { s.manager with requests := insert s.added s.manager.requests }
      added := s.added + 1 } : Uploads) = s' at haccounts
  have hsame (j : ℕ) (hj : j ≠ s.added) : s'.request j = s.request j := by
    rw [← hs']
    exact Function.update_of_ne hj _ _
  have hnew : s'.request s.added = { machine := m } := by
    rw [← hs']
    exact Function.update_self ..
  have hle (j : ℕ) (hj : s'.Uploading j) : j ≠ s.added ∧ s.Uploading j := by
    obtain ⟨hlive, hup⟩ := hj
    have hne : j ≠ s.added := by
      rintro rfl
      rw [machine, todo, hnew] at hup
      rcases hup with hup | hup | ⟨_, _, hup⟩
      · exact hstart (by rw [← hs'] at hup; exact hup)
      · rw [hstate] at hup
        cases hup
      · cases hup
    rw [machine, todo, hsame j hne] at hup
    rw [← hs'] at hlive hup
    exact ⟨hne, (Finset.mem_insert.mp hlive).resolve_left hne, hup⟩
  refine ⟨haccounts, h.duplicates.of_le (fun j hj => ⟨(hle j hj).2, ?_⟩) (fun j _ hmem => ?_),
    fun j hex => ?_⟩
  · rw [hash, machine, hsame j (hle j hj).1, hash, machine]
  · rw [← hs']
    exact hmem
  · have hne : j ≠ s.added := by
      rintro rfl
      rw [todo, hnew] at hex
      obtain ⟨t, hmem, -⟩ := hex
      cases hmem
    rw [todo, hsame j hne] at hex
    obtain ⟨hfirst, hnot, hwaiting⟩ := h.writes j hex
    refine ⟨by rw [todo, hsame j hne]; exact hfirst, fun hup => hnot (hle j hup).2, ?_⟩
    rw [← hs']
    exact hwaiting

theorem HashInv.step (h : s.HashInv) {act : Act} (hs : s.step act = some s')
    (halone : CompletesAlone s act s') : s'.HashInv := by
  obtain ⟨view, hacc⟩ := h.accounts
  have haccounts := hacc.step hs
  cases act with
  | add pathFilename cloudFileName onDuplicateAction =>
    cases hs
    have hnew := hacc.shows s.added
    have habsent : (view s.added).life = .absent := by
      by_contra hlife
      exact absurd (hnew.added.mpr hlife) (lt_irrefl _)
    have hplace := ((hnew.idle (hnew.absent habsent)).of_absent habsent).1
    exact h.add rfl haccounts (fun hmem => by simp [hnew.startUpload, hplace] at hmem)
  | event i w evt =>
    rw [Uploads.step] at hs
    split_ifs at hs with hcond
    obtain ⟨htodo, -, rfl⟩ := processEvent_eq_some hs
    refine h.begin htodo rfl rfl haccounts ?_
    rintro ⟨token, rfl⟩
    cases hcond.2
  | process k w =>
    rw [Uploads.step] at hs
    split at hs
    · cases hs
    · rename_i i evt hk
      obtain ⟨htodo, -, rfl⟩ := processEvent_eq_some hs
      refine h.begin htodo rfl rfl haccounts ?_
      rintro ⟨token, rfl⟩ - hlive
      have hi := hacc.shows i
      rcases hi.posted _ (List.mem_of_getElem? hk) with ⟨hevt, -⟩ | ⟨-, hp | hp⟩
      · cases hevt
      · exact hi.startUpload.mpr hp
      · rw [hi.requests.mp hlive] at hp
        cases hp
  | task i =>
    rw [Uploads.step] at hs
    split at hs
    · cases hs
    · rename_i t todo htodo
      cases hs
      exact h.task htodo haccounts fun ht => halone i todo rfl (ht ▸ htodo)
  | tickStartUploads =>
    rw [Uploads.step] at hs
    split_ifs at hs
    cases hs
    exact HashInv.tickStartUploads (s := { s with ticks := s.ticks - 1 })
      (h.congr ⟨view, hacc.congr rfl rfl rfl ⟨_, _, _, rfl⟩⟩ rfl rfl rfl rfl rfl)
  | tickStartHashings =>
    rw [Uploads.step] at hs
    split_ifs at hs
    cases hs
    obtain ⟨toHash, enqueued, hfields⟩ := startHashings_fields s.manager.toHash.length s.manager
    exact h.congr haccounts rfl
      ((congrArg UploadManagerImpl.requests hfields).trans rfl)
      ((congrArg UploadManagerImpl.enqueuedToStartUploads hfields).trans rfl)
      ((congrArg UploadManagerImpl.toUpload hfields).trans rfl)
      ((congrArg UploadManagerImpl.uploadingHashes hfields).trans rfl)
  | actionTokenRetry err =>
    obtain ⟨token, state, hfields⟩ := actionTokenRetry_fields s.manager err
    cases err <;> rw [Uploads.step] at hs <;> split_ifs at hs <;> cases hs <;>
      exact h.congr haccounts rfl ((congrArg UploadManagerImpl.requests hfields).trans rfl)
        ((congrArg UploadManagerImpl.enqueuedToStartUploads hfields).trans rfl)
        ((congrArg UploadManagerImpl.toUpload hfields).trans rfl)
        ((congrArg UploadManagerImpl.uploadingHashes hfields).trans rfl)
  | actionToken response =>
    rw [Uploads.step] at hs
    split_ifs at hs
    cases hs
    cases response <;> exact h.congr haccounts rfl rfl rfl rfl rfl
  | tick | clock _ =>
    cases hs
    exact h.congr haccounts rfl rfl rfl rfl rfl
  | asyncWait | timerExpires =>
    rw [Uploads.step] at hs
    split_ifs at hs
    cases hs
    exact h.congr haccounts rfl rfl rfl rfl rfl

/-- A completion that is not alone takes the hash of an upload away. -/
theorem completesAlone_of_noDuplicates {act : Act} (hs : s.step act = some s')
    (h : s'.NoDuplicates) : CompletesAlone s act s' := by
  rintro i todo rfl htodo hhash j hj hup heq
  rw [Uploads.step, htodo] at hs
  cases hs
  have hsame : s.SameFor (s.runTask i todo (.body .handleComplete)) j := sameFor_runTask hj
  have hheld := h.held j (hsame.uploading.mpr hup)
  rw [hsame.hash, heq] at hheld
  simp only [runTask, UploadManagerImpl.body, UploadManagerImpl.handleComplete, if_pos hhash]
    at hheld
  exact Finset.notMem_erase _ _ hheld

end Step

theorem hashInv_init : HashInv {} where
  accounts := ⟨_, accounts_init⟩
  duplicates := ⟨fun _ _ hi => absurd hi.1 (Finset.notMem_empty _),
    fun _ hi => absurd hi.1 (Finset.notMem_empty _)⟩
  writes _ hex := by
    obtain ⟨t, hmem, -⟩ := hex
    cases hmem

/-- No duplicates are uploaded at the same time along a run exactly when every completion in it is
alone. -/
theorem always_noDuplicates_iff (acts : List Act) :
    Always step NoDuplicates {} acts ↔ Along step CompletesAlone {} acts :=
  always_iff_along (I := HashInv) (fun _ h => h.duplicates)
    (fun _ _ _ h halone hs => h.step hs halone)
    (fun _ _ _ _ hs h => completesAlone_of_noDuplicates hs h) hashInv_init

/-- The next `n` tasks of machine `i`. -/
def tasksOf (i n : ℕ) : List Act := List.replicate n (.task i)

/-- File `i` is added and hashed, with every task run at once; it waits for its upload. -/
def hashFile (i : ℕ) : List Act :=
  let state : HasherStateData := { filesize := 1, mtime := 0, chunkRanges := [(0, 1)] }
  let w := Upload.smallFile
  [.add "file" none .fail, .event i w .start] ++ tasksOf i 6 ++
    [.tickStartUploads, .tickStartHashings, .process 0 w] ++ tasksOf i 6 ++
    [.event i w (.hashStartHash state)] ++ tasksOf i 3 ++
    [.event i w (.hashReadNext state { content := [0] } 0)] ++ tasksOf i 2 ++
    [.event i w (.hashSuccess state "hash")] ++ tasksOf i 5

/-- One file uploads and two with the same contents wait; the first of these is cancelled. -/
def cancelDuplicate : List Act :=
  hashFile 0 ++ [.tickStartUploads, .actionToken (some "token"), .tickStartUploads,
    .process 0 Upload.smallFile] ++ tasksOf 0 10 ++ hashFile 1 ++ hashFile 2 ++
    [.event 1 Upload.smallFile (.error (.upload .cancelled) "Cancellation requested")] ++
    tasksOf 1 9 ++ [.tickStartUploads]

/-- The completion of the cancelled duplicate gives the hash of the uploading file back. -/
theorem not_always_noDuplicates_cancel : ¬ ∀ acts, Always step NoDuplicates {} acts := by
  intro h
  have hcompute : (run step {} cancelDuplicate).map (fun s =>
      (decide (0 ∈ s.manager.requests), (s.machine 0).state, decide (2 ∈ s.manager.requests),
        decide (2 ∈ s.manager.enqueuedToStartUploads), decide (s.hash 0 = s.hash 2))) =
      some (true, .inUploadCheck, true, true, true) := by decide +kernel
  obtain ⟨s, hrun, hs⟩ := Option.map_eq_some_iff.mp hcompute
  simp only [Prod.mk.injEq, decide_eq_true_eq] at hs
  obtain ⟨hlive, hstate, hlive', hstart, hhash⟩ := hs
  have hup : s.Uploading 0 := ⟨hlive, .inr (.inl (by rw [hstate]; rfl))⟩
  have hup' : s.Uploading 2 := ⟨hlive', .inl hstart⟩
  exact absurd (((h cancelDuplicate).last hrun).unique 0 2 hup hup' hhash) (by decide)

end Uploads

end MediafireSdk.Uploader
