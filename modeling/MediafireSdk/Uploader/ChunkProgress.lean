import MediafireSdk.Uploader.Chunks

/-! A resumable upload goes on until its completion. Of its transitions only the size
in the headers of a chunk can leave defined behaviour. Where the sizes of the missing
chunks fit `int`, whatever can come next is handled, and every step of the upload uses
up one of those that its missing chunks ask for. -/

namespace MediafireSdk.Uploader

open Ranges Words Utils

/-! ### The size of a chunk -/

/-- The sizes that the headers of the missing chunks announce fit `int`. Where the begin of a
chunk is negative as an `int`, the seek fails before the size is computed. -/
def SizesFit (words : List ℕ) (m : UploadStateMachine) : Prop :=
  ∀ chunkId range, m.chunkRanges[chunkId]? = some range → bitAt words chunkId = false →
    0 ≤ signed 32 range.1 → InRange 32 (signed 32 range.2 - signed 32 range.1)

/-- Below two gigabytes all sizes fit. -/
theorem sizesFit_of_small {words : List ℕ} {m : UploadStateMachine}
    (h : ∀ range ∈ m.chunkRanges, range.1 < 2 ^ 31 ∧ range.2 < 2 ^ 31) : SizesFit words m := by
  intro chunkId range hrange _ _
  obtain ⟨hbegin, hend⟩ := h range (List.mem_of_getElem? hrange)
  rw [signed_of_lt (by omega), signed_of_lt (by omega)]
  constructor <;> omega

/-- A seek to a position that an `int` gives fails where that is negative. -/
theorem seek_signed (file : FileIO) (n : ℕ) :
    (0 ≤ signed 32 n → ∃ file', file.seek .beginning (unsigned 64 (signed 32 n)) = (none, file')) ∧
      (signed 32 n < 0 →
        file.seek .beginning (unsigned 64 (signed 32 n)) = (some .unknownError, file)) := by
  have hback : signed 64 (unsigned 64 (signed 32 n)) = signed 32 n := by
    obtain ⟨hlow, hhigh⟩ := inRange_signed 32 n
    exact signed_unsigned ⟨by omega, by omega⟩
  refine ⟨fun h => ⟨{ file with pos := (signed 32 n).toNat }, ?_⟩, fun h => ?_⟩
  · simp [ FileIO.seek, hback, h]
  · simp [ FileIO.seek, hback, h]

/-- What leaves defined behaviour is a size that does not fit, behind a seek that succeeds. -/
theorem uploadNextChunk_undefined_iff {m : UploadStateMachine} {chunkId : ℕ} {range : Range}
    {file : FileIO} (hrange : m.chunkRanges[chunkId]? = some range)
    (hhash : chunkId < m.chunkHashes.length) :
    uploadNextChunk (.ok file) m chunkId = .undefined ↔
      0 ≤ signed 32 range.1 ∧ ¬ InRange 32 (signed 32 range.2 - signed 32 range.1) := by
  obtain ⟨hfound, hlost⟩ := seek_signed file range.1
  have hget : m.chunkHashes[chunkId]? = some m.chunkHashes[chunkId] :=
    List.getElem?_eq_getElem hhash
  by_cases hbegin : 0 ≤ signed 32 range.1
  · obtain ⟨file', hseek⟩ := hfound hbegin
    by_cases hfit : InRange 32 (signed 32 range.2 - signed 32 range.1)
    · simp [uploadNextChunk, hrange, hseek, setHeaders, hget, checkedSub, hfit]
    · simp [uploadNextChunk, hrange, hseek, setHeaders, hget, checkedSub, hfit, hbegin]
  · have hseek := hlost (not_le.mp hbegin)
    simp [uploadNextChunk, hrange, hseek, hbegin]

/-- Every chunk that needs its upload can be picked. -/
theorem exists_pick {states : List ChunkState} {chunkId : ℕ} (hlen : states.length ≤ 2 ^ 32)
    (h : states[chunkId]? = some .needsUpload) :
    ∃ pick, nextChunkToUpload pick states = some chunkId := by
  have hmem : chunkId ∈ incompleteChunksFrom 0 states :=
    (mem_incompleteChunksFrom (by omega)).mpr ⟨Nat.zero_le _, h⟩
  obtain ⟨pick, hlt, hget⟩ := List.getElem_of_mem hmem
  refine ⟨pick, ?_⟩
  rw [nextChunkToUpload, Nat.mod_eq_of_lt hlt, List.getElem?_eq_getElem hlt, hget]

namespace Upload

open Runs

/-! ### What can leave defined behaviour -/

theorem halted_notMem_setCountState (m : UploadStateMachine) (cs : CountState) :
    .halted ∉ m.setCountState cs := fun h => by
  rcases UploadStateMachine.mem_setCountState h with ⟨_, h⟩ | h <;> cases h

theorem halted_notMem_assertThat (p : Prop) [Decidable p] (text : String) :
    .halted ∉ assertThat p text := fun h => by cases mem_assertThat h

theorem halted_notMem_onEntry {m : UploadStateMachine} {target : State} {evt : Event}
    (h : target ≠ .setupHasher) : .halted ∉ onEntry m target evt := by
  have hcount := halted_notMem_setCountState m
  unfold onEntry
  split
  case h_2 => exact absurd rfl h
  case h_5 => simp [halted_notMem_assertThat, hcount]
  case h_6 =>
    unfold chunkSuccessOnEntry UploadStateMachine.setChunkState
    split_ifs <;> simp [halted_notMem_assertThat]
  case h_8 => simp [completeWithSuccessOnEntry, halted_notMem_assertThat, hcount]
  case h_9 => simp [completeWithSuccessOnEntry, halted_notMem_assertThat, hcount]
  case h_10 => simp [completeWithSuccessOnEntry, halted_notMem_assertThat, hcount]
  case h_11 => simp [completeWithErrorOnEntry, hcount]
  case h_12 => simp [completeWithErrorOnEntry, hcount]
  all_goals simp

theorem transitionTable_setupHasher {start : State} {evt : Event} {hasHash : Bool} {action : Action}
    (h : transitionTable start evt hasHash = some (.setupHasher, action)) :
    start = .waitForHashSignal := by
  unfold transitionTable at h
  split at h <;> first | rfl | (split_ifs at h <;> cases h) | cases h

theorem transitionTable_readFile {start target : State} {evt : Event} {hasHash : Bool}
    (h : transitionTable start evt hasHash = some (target, .readFile)) : start = .hashing := by
  unfold transitionTable at h
  split at h <;> first | rfl | (split_ifs at h <;> cases h) | cases h

theorem halted_notMem_effects {w : World} {m : UploadStateMachine} {evt : Event} {action : Action}
    (hread : action ≠ .readFile) (hchunk : action ≠ .doChunkUpload) :
    .halted ∉ action.effects w m evt := by
  cases action with
  | readFile => exact absurd rfl hread
  | doChunkUpload => exact absurd rfl hchunk
  | none => simp [Action.effects]
  | openFile =>
    cases evt <;> simp only [Action.effects, openFile, List.not_mem_nil, not_false_eq_true]
    cases w.openFile <;> simp
  | saveHash => cases evt <;> simp [Action.effects]
  | check => simp [Action.effects, Uploader.check]
  | doSimpleUpload =>
    simp only [Action.effects, doSimpleUpload]
    repeat' split
    all_goals simp
  | doInstantUpload => simp [Action.effects, doInstantUpload]
  | pollUpload =>
    cases evt <;> simp only [Action.effects, startPoll, List.not_mem_nil, not_false_eq_true] <;>
      split_ifs <;> simp

/-- Behind the check only `DoChunkUpload` can. -/
theorem halted_of_fire {w : World} {m : UploadStateMachine} {evt : Event}
    (hhash : m.state ≠ .waitForHashSignal) (hhashing : m.state ≠ .hashing)
    (h : .halted ∈ m.fire w evt) : .halted ∈ doChunkUpload w (m.exited w) := by
  unfold UploadStateMachine.fire at h
  split_ifs at h
  · cases h
  · split at h
    · simp at h
    · rename_i target action hrow
      have htarget : target ≠ .setupHasher := by
        rintro rfl
        exact hhash (transitionTable_setupHasher hrow)
      have haction : action ≠ .readFile := by
        rintro rfl
        exact hhashing (transitionTable_readFile hrow)
      simp only [List.mem_append, List.mem_singleton, reduceCtorEq, or_false] at h
      rcases h with (h | h) | h
      · cases fromExit_onExit h
      · by_cases hchunk : action = .doChunkUpload
        · subst hchunk
          exact h
        · exact absurd h (halted_notMem_effects haction hchunk)
      · exact absurd h (halted_notMem_onEntry htarget)

/-! ### The ranges and hashes of the chunks -/

/-- The chunks are cut and hashed as before. -/
structure SameChunks (m m' : UploadStateMachine) : Prop where
  ranges : m'.chunkRanges = m.chunkRanges
  hashes : m'.chunkHashes = m.chunkHashes

theorem SameChunks.trans {m m' m'' : UploadStateMachine} (h : SameChunks m m')
    (h' : SameChunks m' m'') : SameChunks m m'' :=
  ⟨h'.ranges.trans h.ranges, h'.hashes.trans h.hashes⟩

theorem sameChunks_applyAll {m : UploadStateMachine} {effects : List Effect}
    (h : ∀ hash ranges hashes, .write (.completeHashData hash ranges hashes) ∉ effects) :
    SameChunks m (m.applyAll effects) := by
  have hsame : ∀ x ∈ effects, ∀ m' : UploadStateMachine,
      (m'.apply x).chunkRanges = m'.chunkRanges ∧ (m'.apply x).chunkHashes = m'.chunkHashes := by
    intro x hx m'
    cases x with
    | write w =>
      cases w with
      | completeHashData hash ranges hashes => exact absurd hx (h hash ranges hashes)
      | _ => exact ⟨rfl, rfl⟩
    | _ => exact ⟨rfl, rfl⟩
  exact ⟨UploadStateMachine.applyAll_same (·.chunkRanges) fun x hx m' => (hsame x hx m').1,
    UploadStateMachine.applyAll_same (·.chunkHashes) fun x hx m' => (hsame x hx m').2⟩

theorem sameChunks_exited {w : World} {m : UploadStateMachine} : SameChunks m (m.exited w) :=
  sameChunks_applyAll fun _ _ _ hmem => by cases fromExit_onExit hmem

/-- Only the end of the hashing replaces them. -/
theorem sameChunks_step {u u' : Upload} {act : Act} (hs : u.step act = some u')
    (hstate : u.machine.state ≠ .hashing) : SameChunks u.machine u'.machine := by
  cases step_cases hs with
  | arrive _ hexec =>
    rw [hexec.machine]
    exact sameChunks_applyAll (by simp)
  | event w _ _ hexec =>
    rw [hexec.machine]
    refine sameChunks_applyAll fun _ _ _ hmem => ?_
    obtain ⟨target, hrow⟩ := saveHash_row_of_fire hmem
    exact hstate (row_saveHash hrow).1
  | answer _ hresponse hexec =>
    rw [hexec.machine]
    exact sameChunks_applyAll fun _ _ _ hmem => by cases fromHandler_handleResponse hresponse hmem
  | retryPoll _ hexec =>
    rw [hexec.machine, Uploader.retryPoll, startPoll]
    refine sameChunks_applyAll fun _ _ _ => ?_
    split_ifs <;> simp

section Defined
variable {chunks : ℕ} {words : List ℕ} {m : UploadStateMachine} {u u' : Upload}
  {current : Option ℕ}

/-- Where a resumable upload is, the file is hashed. -/
theorem Phase.hashed (h : Phase chunks words u current) :
    u.machine.state ≠ .waitForHashSignal ∧ u.machine.state ≠ .hashing := by
  cases h with
  | checked hwait _ _ => simp [hwait.state]
  | sent _ _ hwait _ _ => simp [hwait.state]
  | answered _ _ hwait _ _ => simp [hwait.state]
  | failed hwait _ _ => simp [hwait.state]
  | complete _ hwait _ _ => simp [hwait.state]
  | polling _ hstate _ _ _ _ => simp [hstate]
  | ended _ hterm _ _ => constructor <;> (intro hs; simp [hs, State.isTerminal] at hterm)

/-- `DoChunkUpload` leaves defined behaviour at the size of the chunk that it picks. -/
theorem undefined_of_doChunkUpload {w : World} (h : .halted ∈ doChunkUpload w m) :
    ∃ next, nextChunkToUpload w.pick m.chunkStates = some next ∧
      uploadNextChunk w.openFile m next = .undefined := by
  unfold doChunkUpload at h
  split at h
  · rename_i next hpick
    split at h
    · simp at h
    · exact ⟨next, hpick, ‹_›⟩
    · simp only [UploadStateMachine.setChunkState] at h
      split_ifs at h <;> simp at h
  · simp [halted_notMem_assertThat] at h

/-- Where the sizes fit, no transition of a resumable upload leaves defined behaviour. -/
theorem ChunkInv.halted_notMem_fire (h : ChunkInv chunks words u current)
    (hsame : SameChunks m u.machine) (hranges : m.chunkRanges.length = chunks)
    (hhashes : m.chunkHashes.length = chunks) (hfit : SizesFit words m) (w : World) (evt : Event) :
    .halted ∉ u.machine.fire w evt := by
  intro hmem
  obtain ⟨next, hpick, hundefined⟩ :=
    undefined_of_doChunkUpload (halted_of_fire h.phase.hashed.1 h.phase.hashed.2 hmem)
  have hexited := hsame.trans (sameChunks_exited (w := w))
  -- what is picked needs its upload, so its bit is zero
  have hstates : (u.machine.exited w).chunkStates = u.machine.chunkStates :=
    leavesChunks_onExit.chunkStates
  have hnext := nextChunkToUpload_some (by rw [hstates]; exact h.length_le) hpick
  rw [hstates, h.states] at hnext
  obtain ⟨hlt, hbit, -⟩ := needsUpload_chunkStatesAt hnext
  obtain ⟨range, hrange⟩ : ∃ range, m.chunkRanges[next]? = some range :=
    ⟨_, List.getElem?_eq_getElem (hranges ▸ hlt)⟩
  cases hopen : w.openFile with
  | error ec => simp [hopen, uploadNextChunk] at hundefined
  | ok file =>
    rw [hopen, uploadNextChunk_undefined_iff (by rw [hexited.ranges, hrange])
      (by rw [hexited.hashes, hhashes]; exact hlt)] at hundefined
    exact hundefined.2 (hfit next range hrange hbit hundefined.1)

/-- An event that can be handled is handled where its transition is defined. -/
theorem exists_step_of_handled {act : Act} {evt : Event} (hact : u.handled act = some evt)
    (hdef : ∀ w, .halted ∉ u.machine.fire w evt) : ∃ u', u.step act = some u' := by
  cases act with
  | next w inline =>
    obtain ⟨queue, hqueue⟩ := List.head?_eq_some_iff.mp hact
    exact ⟨_, by rw [step, hqueue]; exact if_neg (hdef w)⟩
  | deliver i w inline =>
    rw [handled] at hact
    split_ifs at hact with hqueue
    exact ⟨_, by rw [step, if_pos hqueue, hact]; exact if_neg (hdef w)⟩
  | arrive _ => cases hact
  | answer _ _ => cases hact
  | retryPoll _ _ => cases hact

end Defined

/-! ### How far the upload can go -/

/-- The steps of the upload and of the servers: all but the events from outside. -/
def Act.isOwn : Act → Bool
  | .arrive _ => false
  | _ => true

/-- The chunks the server does not have. -/
def missingChunks (chunks : ℕ) (words : List ℕ) : List ℕ :=
  (List.range chunks).filter fun chunkId => bitAt words chunkId = false

theorem mem_missingChunks {chunks chunkId : ℕ} {words : List ℕ} :
    chunkId ∈ missingChunks chunks words ↔ chunkId < chunks ∧ bitAt words chunkId = false := by
  simp [missingChunks]

/-- What is still due: two steps for every chunk not yet posted or not yet acknowledged, and one
for every event. -/
def due (chunks : ℕ) (words : List ℕ) (u : Upload) : ℕ :=
  2 * ((missingChunks chunks words).length - (postedChunks u.log).length) + u.inFlight.card +
    2 * u.calls.length

/-- Neither the completion nor an error was raised. -/
structure Going (u : Upload) : Prop where
  completions : completions u.log = []
  errors : ∀ ec description, .error ec description ∉ raised u.log

section Due
variable {chunks : ℕ} {words : List ℕ} {u u' : Upload} {current current' : Option ℕ}
  {events : Multiset Event} {calls : List ApiRequest} {timers : List String}
  {effects : List Effect}

theorem Executes.due (hexec : u.Executes u' events calls timers effects) :
    due chunks words u' =
      2 * ((missingChunks chunks words).length -
        ((postedChunks u.log).length + (postedChunks effects).length)) +
      (events.card + (raised effects).length) + 2 * (calls.length + (issued effects).length) := by
  simp only [Upload.due, hexec.posted, hexec.inFlight, hexec.calls, List.length_append,
    Multiset.card_add, Multiset.coe_card]

theorem Executes.going (hexec : u.Executes u' events calls timers effects) (h : Going u') :
    Going u ∧ Upload.completions effects = [] ∧
      ∀ ec description, .error ec description ∉ raised effects := by
  obtain ⟨hcompletions, herrors⟩ := h
  rw [hexec.completions, List.append_eq_nil_iff] at hcompletions
  simp only [hexec.log, raised_append, List.mem_append, not_or] at herrors
  exact ⟨⟨hcompletions.1, fun ec description => (herrors ec description).1⟩, hcompletions.2,
    fun ec description => (herrors ec description).2⟩

theorem Going.of_step {act : Act} (hs : u.step act = some u') (h : Going u') : Going u := by
  cases step_cases hs with
  | arrive _ hexec => exact (hexec.going h).1
  | event _ _ _ hexec => exact (hexec.going h).1
  | answer _ _ hexec => exact (hexec.going h).1
  | retryPoll _ hexec => exact (hexec.going h).1

theorem ChunkInv.length_posted_le (h : ChunkInv chunks words u current) :
    (postedChunks u.log).length ≤ (missingChunks chunks words).length :=
  (h.nodup.subperm fun _ hmem => mem_missingChunks.mpr (h.missing _ hmem)).length_le

/-- An upload that polls or has ended has raised the completion or an error. -/
theorem Phase.not_going (h : Phase chunks words u current)
    (hafter : u.machine.state = .pollUpload ∨ u.machine.state.isTerminal = true) : ¬ Going u := by
  intro hgoing
  rcases h.of_after hafter with ⟨-, -, -, -, -, key, hkey⟩ |
    ⟨-, ⟨-, ec, description, herror⟩ | ⟨key, hkey, -⟩⟩
  · exact absurd (hgoing.completions.symm.trans hkey) (by simp)
  · exact hgoing.errors ec description herror
  · exact absurd (hgoing.completions.symm.trans hkey) (by simp)

theorem Waiting.inFlight_ne_zero {s : State} {evt : Event} (h : u.Waiting s {evt} calls) :
    u.inFlight ≠ 0 := by
  intro hempty
  have hone := h.inner
  rw [hempty] at hone
  exact Multiset.singleton_ne_zero evt hone.symm

theorem due_pos_of_inFlight (h : u.inFlight ≠ 0) : 0 < due chunks words u := by
  have hcard := Multiset.card_pos.mpr h
  unfold due
  omega

/-- Going on, something is due. -/
theorem Phase.due_pos (h : Phase chunks words u current) (hgoing : Going u) :
    0 < due chunks words u := by
  cases h with
  | checked hwait _ _ => exact due_pos_of_inFlight hwait.inFlight_ne_zero
  | sent chunkId request hwait _ _ => simp [due, hwait.calls]
  | answered _ _ hwait _ _ => exact due_pos_of_inFlight hwait.inFlight_ne_zero
  | failed _ herror _ =>
    obtain ⟨ec, description, herror⟩ := herror
    exact absurd herror (hgoing.errors ec description)
  | complete _ hwait _ _ => exact due_pos_of_inFlight hwait.inFlight_ne_zero
  | polling key hstate h1 h2 h3 h4 =>
    exact absurd hgoing (Phase.not_going (.polling key hstate h1 h2 h3 h4) (.inl hstate))
  | ended _ hterm h1 h2 =>
    exact absurd hgoing (Phase.not_going (.ended current hterm h1 h2) (.inr hterm))

theorem Executes.due_of_inert {evt : Event} (hexec : u.Executes u' events u.calls timers effects)
    (hrest : u.inFlight = evt ::ₘ events) (hinert : Inert effects) :
    Upload.due chunks words u' < Upload.due chunks words u := by
  rw [hexec.due, Upload.due, hrest, Multiset.card_cons, postedChunks_of_issued hinert.2.1,
    hinert.1, hinert.2.1]
  simp only [List.length_nil]
  omega

/-- Where `DoChunkUpload` goes on, it posts a chunk. -/
theorem ChunkInv.due_of_chunkStep (h' : ChunkInv chunks words u' current') {evt : Event}
    {states : List ChunkState} (hrest : u.inFlight = evt ::ₘ events)
    (hexec : u.Executes u' events u.calls timers effects) (hgoing : Going u')
    (hstep : ChunkStep u.machine effects states) :
    due chunks words u' < due chunks words u := by
  obtain ⟨-, hcompletions, herrors⟩ := hexec.going hgoing
  cases hstep with
  | failed ec description hraised _ _ =>
    exact absurd (hraised ▸ List.mem_singleton_self _) (herrors ec description)
  | complete _ hraised _ _ => simp [Upload.completions, hraised] at hcompletions
  | posted next request _ hraised hissued _ =>
    have hone : postedChunks effects = [next] := by rw [postedChunks, hissued]; rfl
    have hle := h'.length_posted_le
    rw [hexec.posted, hone, List.length_append, List.length_singleton] at hle
    rw [hexec.due, hone, hraised, hissued, Upload.due, hrest, Multiset.card_cons]
    simp only [List.length_singleton, List.length_nil]
    omega

/-- One step: a step of the upload uses up one of those due, an event from outside adds one. -/
theorem ChunkInv.due_step (h : ChunkInv chunks words u current)
    (h' : ChunkInv chunks words u' current') {keys : Set String} {act : Act}
    (hack : AcknowledgesChunks keys u act u') (hs : u.step act = some u') (hgoing : Going u') :
    due chunks words u' + act.isOwn.toNat ≤ due chunks words u + (!act.isOwn).toNat := by
  have hbefore := hgoing.of_step hs
  cases step_cases hs with
  | arrive _ hexec =>
    rw [hexec.due, Upload.due]
    simp [postedChunks, raised, issued, Act.isOwn]
    omega
  | event w hact hrest hexec =>
    have hown : act.isOwn = true := by cases act <;> first | rfl | cases hact
    suffices due chunks words u' < due chunks words u by simp [hown]; omega
    cases h.phase.handles hrest with
    | first hwait _ _ _ =>
      exact h'.due_of_chunkStep hrest hexec hgoing
        (chunkStep_needsChunkUpload hwait.state h.length_le hexec.defined).1
    | acknowledge chunkId uploadKey hwait _ hposted _ =>
      obtain ⟨states, hstep, -⟩ := (acknowledgeStep_chunkSuccess hwait.state h.length_le
        (h.uploading hposted) hexec.defined).chunks
      exact h'.due_of_chunkStep hrest hexec hgoing hstep
    | complete _ _ _ _ hcompletions =>
      exact absurd (hbefore.completions.symm.trans hcompletions) (by simp)
    | polled _ _ _ hstate => exact absurd hbefore (h.phase.not_going (.inl hstate))
    | outside _ _ hout hstate => exact hexec.due_of_inert hrest (fire_outside hstate hout).2.1
    | dropped _ _ hterm => exact absurd hbefore (h.phase.not_going (.inr hterm))
  | @answer i response request effects hcall hresponse hexec =>
    rcases h.phase.calls_ne_nil hcall with ⟨chunkId, post, -, rfl, rfl, hwait, -, -⟩ | hafter
    · obtain ⟨key, -, hkey⟩ := hack 0 response chunkId post rfl hcall
      cases hresponse.symm.trans hkey
      rw [hexec.due, Upload.due, hwait.calls]
      simp [postedChunks, raised, issued, Act.isOwn]
      omega
    · exact absurd hbefore (h.phase.not_going hafter)
  | retryPoll htimer _ => exact absurd hbefore (h.phase.not_going (h.phase.after_of_timer htimer))

end Due

end Upload

end MediafireSdk.Uploader
