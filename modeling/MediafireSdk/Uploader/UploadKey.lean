import MediafireSdk.Uploader.ChunkCoverage

/-! The upload key of a resumable upload. The entry action of `UploadChunk` stores
the key of the first acknowledged chunk; `DoChunkUpload`, which runs before the
entry action of the same transition, reads it when no chunk is left. So the key is
known in time when at least two chunks were missing: the transition that raises the
completion is then at least the second one that acknowledges a chunk. -/

namespace MediafireSdk.Uploader.Upload

open Runs

def keyOf : Event → Option String
  | .chunkSuccess _ uploadKey => some uploadKey
  | _ => none

/-- The keys of the `ChunkSuccess` events raised. -/
def acknowledgedKeys (effects : List Effect) : List String := (raised effects).filterMap keyOf

/-- The key of a completion is not empty and the key of the first `ChunkSuccess`, and neither the
assertion of `DoChunkUpload` nor the one of `StartPoll` failed. -/
structure KeyKnown (u : Upload) : Prop where
  key : ∀ uploadKey ∈ completions u.log,
    uploadKey ≠ "" ∧ (acknowledgedKeys u.log).head? = some uploadKey
  assertions : keyAssertion ∉ u.log ∧ pollAssertion ∉ u.log

@[simp] theorem acknowledgedKeys_append (xs ys : List Effect) :
    acknowledgedKeys (xs ++ ys) = acknowledgedKeys xs ++ acknowledgedKeys ys := by
  simp [acknowledgedKeys]

/-- The machine keeps the first key. Until it has one, one chunk at most was posted and every key
acknowledged is that of an event in flight. -/
structure KeyInv (u : Upload) : Prop where
  known : KeyKnown u
  keys : "" ∉ acknowledgedKeys u.log
  polls : u.PollKeys
  stored : u.machine.uploadKey ≠ "" →
    (acknowledgedKeys u.log).head? = some u.machine.uploadKey
  fresh : u.machine.uploadKey = "" → u.machine.state.isTerminal = false →
    (postedChunks u.log).length ≤ 1 ∧ completions u.log = [] ∧
      (acknowledgedKeys u.log : Multiset String) = u.inFlight.filterMap keyOf

section Step
variable {chunks : ℕ} {words : List ℕ} {u u' : Upload} {current : Option ℕ}
  {events : Multiset Event} {calls : List ApiRequest} {timers : List String}
  {effects : List Effect}

theorem Executes.acknowledgedKeys (hexec : u.Executes u' events calls timers effects) :
    acknowledgedKeys u'.log = acknowledgedKeys u.log ++ acknowledgedKeys effects := by
  rw [hexec.log, acknowledgedKeys_append]

/-- A step that raises no completion and fails no assertion keeps what is known. -/
theorem KeyKnown.of_executes (h : KeyKnown u) (hexec : u.Executes u' events calls timers effects)
    (hcompletions : completions effects = [])
    (hpassed : keyAssertion ∉ effects ∧ pollAssertion ∉ effects) : KeyKnown u' where
  key uploadKey hmem := by
    rw [hexec.completions, hcompletions, List.append_nil] at hmem
    obtain ⟨hne, hhead⟩ := h.key uploadKey hmem
    refine ⟨hne, ?_⟩
    rw [hexec.acknowledgedKeys, List.head?_append, hhead, Option.some_or]
  assertions := by
    simp only [hexec.log, List.mem_append, not_or]
    exact ⟨⟨h.assertions.1, hpassed.1⟩, h.assertions.2, hpassed.2⟩

/-- The steps that leave the chunks. -/
theorem KeyInv.keep (h : KeyInv u) (hexec : u.Executes u' events calls timers effects)
    (hpolls : u'.PollKeys) (hevents : events.filterMap keyOf = u.inFlight.filterMap keyOf)
    (hleaves : LeavesChunks u.machine effects) (hpoll : pollAssertion ∉ effects)
    (hkeys : "" ∉ Upload.acknowledgedKeys effects) (hposted : postedChunks effects = [])
    (hcompletions : Upload.completions effects = [])
    (hterm : u.machine.state.isTerminal = true → u'.machine.state.isTerminal = true) :
    KeyInv u' := by
  have hkey : u'.machine.uploadKey = u.machine.uploadKey := hexec.machine ▸ hleaves.uploadKey
  have hassert : keyAssertion ∉ effects := fun hmem => by
    have := (hleaves.passed keyAssertion (by simp [chunkAssertions]) hmem).1
    simp [keyAssertion, pollAssertion] at this
  refine ⟨h.known.of_executes hexec hcompletions ⟨hassert, hpoll⟩, ?_, hpolls, ?_, ?_⟩
  · rw [hexec.acknowledgedKeys, List.mem_append, not_or]
    exact ⟨h.keys, hkeys⟩
  · intro hne
    rw [hexec.acknowledgedKeys, List.head?_append, h.stored (hkey ▸ hne), hkey, Option.some_or]
  · intro hempty hlive
    have hlive' : u.machine.state.isTerminal = false := by
      by_contra hend
      rw [hterm (by simpa using hend)] at hlive
      cases hlive
    obtain ⟨hone, hnone, hflight⟩ := h.fresh (hkey ▸ hempty) hlive'
    refine ⟨?_, ?_, ?_⟩
    · rw [hexec.posted, hposted, List.append_nil]; exact hone
    · rw [hexec.completions, hcompletions, List.append_nil]; exact hnone
    · rw [hexec.acknowledgedKeys, hexec.inFlight, Multiset.filterMap_add, hevents, ← hflight]
      rfl

/-- With two chunks missing and one posted, one is left. -/
theorem ChunkInv.needsUpload_mem (h : ChunkInv chunks words u current)
    (hmissing : 2 ≤ (missingChunks chunks words).length)
    (hone : (postedChunks u.log).length ≤ 1) : ChunkState.needsUpload ∈ u.machine.chunkStates := by
  by_contra hnone
  rw [h.states] at hnone
  have hsub : missingChunks chunks words ⊆ postedChunks u.log := fun chunkId hmem => by
    obtain ⟨hlt, hbit⟩ := mem_missingChunks.mp hmem
    exact mem_posted_of_needsUpload_notMem hnone hlt hbit
  have hle := ((List.nodup_range.filter _).subperm hsub).length_le
  rw [← missingChunks] at hle
  omega

theorem keyOf_outside {evt : Event} (h : isOutside evt = true) : keyOf evt = none := by
  cases evt <;> first | rfl | cases h

theorem filterMap_keyOf_of_inner (h : inner events = 0) : events.filterMap keyOf = 0 := by
  have hout : ∀ e ∈ events, isOutside e = true := fun e he => by
    simpa using Multiset.filter_eq_nil.mp h e he
  refine Multiset.eq_zero_of_forall_notMem fun key hmem => ?_
  obtain ⟨e, he, hkey⟩ := (Multiset.mem_filterMap _ _).mp hmem
  rw [keyOf_outside (hout e he)] at hkey
  cases hkey

theorem acknowledgedKeys_of_raised (h : raised effects = []) : acknowledgedKeys effects = [] := by
  rw [acknowledgedKeys, h]; rfl

/-- Effects that leave nothing to wait for pass the assertion of `StartPoll`. -/
theorem LeavesChunks.pollAssertion_notMem {m : UploadStateMachine} (h : LeavesChunks m effects)
    (hraised : raised effects = []) : pollAssertion ∉ effects := fun hmem =>
  (h.passed pollAssertion (by simp [chunkAssertions]) hmem).2 hraised

/-- The transitions with `DoChunkUpload`, as long as a chunk is left while the key is unknown. -/
theorem KeyInv.known_of_chunkStep (h : KeyInv u) {states : List ChunkState}
    (hleft : u.machine.uploadKey = "" → ChunkState.needsUpload ∈ u.machine.chunkStates)
    (hexec : u.Executes u' events calls timers effects)
    (hstep : ChunkStep u.machine effects states)
    (hpassed : ∀ x ∈ chunkAssertions, x ∈ effects →
      x = keyAssertion ∧ u.machine.uploadKey = "" ∧
        ChunkState.needsUpload ∉ u.machine.chunkStates) :
    KeyKnown u' ∧ Upload.acknowledgedKeys effects = [] ∧
      (u.machine.uploadKey = "" → Upload.completions effects = []) ∧
      (postedChunks effects).length ≤ 1 := by
  have hassert : keyAssertion ∉ effects ∧ pollAssertion ∉ effects :=
    ⟨fun hmem => (hpassed _ (by simp [chunkAssertions]) hmem).2.2
        (hleft (hpassed _ (by simp [chunkAssertions]) hmem).2.1),
      fun hmem => (hpassed _ (by simp [chunkAssertions]) hmem).2.2
        (hleft (hpassed _ (by simp [chunkAssertions]) hmem).2.1)⟩
  cases hstep with
  | failed ec description hraised hissued _ =>
    have hcomp : Upload.completions effects = [] := by rw [Upload.completions, hraised]; rfl
    refine ⟨h.known.of_executes hexec hcomp hassert, ?_, fun _ => hcomp, ?_⟩
    · rw [Upload.acknowledgedKeys, hraised]; rfl
    · rw [postedChunks_of_issued hissued]; exact Nat.zero_le 1
  | posted next request _ hraised hissued _ =>
    have hcomp : Upload.completions effects = [] := completions_of_raised hraised
    refine ⟨h.known.of_executes hexec hcomp hassert, acknowledgedKeys_of_raised hraised,
      fun _ => hcomp, ?_⟩
    rw [postedChunks, hissued]; exact le_rfl
  | complete hnone hraised hissued _ =>
    have hne : u.machine.uploadKey ≠ "" := fun hempty => hnone (hleft hempty)
    have hkeys : Upload.acknowledgedKeys effects = [] := by
      rw [Upload.acknowledgedKeys, hraised]; rfl
    have hcomp : Upload.completions effects = [u.machine.uploadKey] := by
      rw [Upload.completions, hraised]; rfl
    refine ⟨⟨fun uploadKey hmem => ?_, ?_⟩, hkeys, fun hempty => absurd hempty hne, ?_⟩
    · rw [hexec.acknowledgedKeys, hkeys, List.append_nil]
      rw [hexec.completions, hcomp] at hmem
      rcases List.mem_append.mp hmem with hmem | hmem
      · exact h.known.key uploadKey hmem
      · cases List.mem_singleton.mp hmem
        exact ⟨hne, h.stored hne⟩
    · simp only [hexec.log, List.mem_append, not_or]
      exact ⟨⟨h.known.assertions.1, hassert.1⟩, h.known.assertions.2, hassert.2⟩
    · rw [postedChunks_of_issued hissued]; exact Nat.zero_le 1

/-- A chunk is left while the key is unknown. -/
theorem KeyInv.needsUpload_mem (h : KeyInv u) (hchunks : ChunkInv chunks words u current)
    (hmissing : 2 ≤ (missingChunks chunks words).length)
    (hlive : u.machine.state.isTerminal = false) (hempty : u.machine.uploadKey = "") :
    ChunkState.needsUpload ∈ u.machine.chunkStates :=
  hchunks.needsUpload_mem hmissing (h.fresh hempty hlive).1

/-- An event handled. -/
theorem KeyInv.event (h : KeyInv u) (hchunks : ChunkInv chunks words u current)
    (hmissing : 2 ≤ (missingChunks chunks words).length) (hpolls : u'.PollKeys) {evt : Event}
    {w : World} (hrest : u.inFlight = evt ::ₘ events)
    (hexec : u.Executes u' events u.calls u.timers (u.machine.fire w evt)) : KeyInv u' := by
  have hflight (hkey : keyOf evt = none) :
      events.filterMap keyOf = u.inFlight.filterMap keyOf := by
    rw [hrest, Multiset.filterMap_cons_none _ _ hkey]
  -- the transitions that leave the chunks and nothing to wait for
  have hinert (hkey : keyOf evt = none) (hleaves : LeavesChunks u.machine (u.machine.fire w evt))
      (hin : Inert (u.machine.fire w evt))
      (hterm : u.machine.state.isTerminal = true → u'.machine.state.isTerminal = true) :
      KeyInv u' :=
    h.keep hexec hpolls (hflight hkey) hleaves (hleaves.pollAssertion_notMem hin.1)
      (by rw [acknowledgedKeys_of_raised hin.1]; exact List.not_mem_nil)
      (postedChunks_of_issued hin.2.1) (completions_of_raised hin.1) hterm
  cases hchunks.phase.handles hrest with
  | first hwait hinner hposted hcompletions =>
    have hlive : u.machine.state.isTerminal = false := by rw [hwait.state]; rfl
    obtain ⟨hstep, -, hkey⟩ := chunkStep_needsChunkUpload hwait.state hchunks.length_le
      hexec.defined
    rw [← hexec.machine] at hkey
    obtain ⟨hknown, hkeys, hnone, hone⟩ := h.known_of_chunkStep
      (h.needsUpload_mem hchunks hmissing hlive) hexec hstep
      (passed_needsChunkUpload hwait.state hchunks.length_le)
    have hacknowledged : Upload.acknowledgedKeys u'.log = Upload.acknowledgedKeys u.log := by
      rw [hexec.acknowledgedKeys, hkeys, List.append_nil]
    refine ⟨hknown, hacknowledged ▸ h.keys, hpolls, ?_, ?_⟩
    · rw [hkey, hacknowledged]
      exact h.stored
    · rw [hkey, hacknowledged]
      intro hempty _
      refine ⟨?_, ?_, ?_⟩
      · rw [hexec.posted, hposted, List.nil_append]; exact hone
      · rw [hexec.completions, hcompletions, hnone hempty]; rfl
      · rw [hexec.inFlight, Multiset.filterMap_add, hflight rfl, ← (h.fresh hempty hlive).2.2,
          Multiset.filterMap_coe, ← Upload.acknowledgedKeys, hkeys]
        exact (add_zero _).symm
  | acknowledge chunkId uploadKey hwait hinner hposted hcompletions =>
    have hlive : u.machine.state.isTerminal = false := by rw [hwait.state]; rfl
    have hack := acknowledgeStep_chunkSuccess hwait.state hchunks.length_le
      (hchunks.uploading hposted) hexec.defined
    obtain ⟨states, hstep, -⟩ := hack.chunks
    obtain ⟨hknown, hkeys, -, -⟩ := h.known_of_chunkStep
      (h.needsUpload_mem hchunks hmissing hlive) hexec hstep hack.passed
    have hacknowledged : Upload.acknowledgedKeys u'.log = Upload.acknowledgedKeys u.log := by
      rw [hexec.acknowledgedKeys, hkeys, List.append_nil]
    -- the first key acknowledged is the one in flight
    have hfirst (hempty : u.machine.uploadKey = "") :
        Upload.acknowledgedKeys u.log = [uploadKey] := by
      have hall := (h.fresh hempty hlive).2.2
      rw [hrest, Multiset.filterMap_cons_some _ _ _ (show keyOf _ = some uploadKey from rfl),
        filterMap_keyOf_of_inner hinner] at hall
      exact Multiset.coe_eq_singleton.mp hall
    have hhead : (Upload.acknowledgedKeys u'.log).head? = some u'.machine.uploadKey := by
      rw [hacknowledged, hexec.machine, hack.key]
      split_ifs with hempty
      · rw [hfirst hempty]; rfl
      · exact h.stored hempty
    refine ⟨hknown, hacknowledged ▸ h.keys, hpolls, fun _ => hhead, fun hempty => ?_⟩
    rw [hempty] at hhead
    exact absurd (List.mem_of_head? hhead) (hacknowledged ▸ h.keys)
  | complete uploadKey hwait hinner hcovered hcompletions =>
    obtain ⟨hleaves, hstate, hraised, hissued, -⟩ :=
      fire_chunkUploadComplete (w := w) uploadKey hwait.state
    have hne : uploadKey ≠ "" := (h.known.key uploadKey (by simp [hcompletions])).1
    rw [startPoll, if_neg hne] at hraised hissued
    refine h.keep hexec hpolls (hflight rfl) hleaves (hleaves.pollAssertion_notMem hraised) ?_ ?_
      (completions_of_raised hraised) ?_
    · rw [acknowledgedKeys_of_raised hraised]; exact List.not_mem_nil
    · rw [postedChunks, hissued]; rfl
    · rw [hwait.state]
      exact fun hend => by cases hend
  | polled quickkey filename revision hstate =>
    obtain ⟨hleaves, hin, hend⟩ := 
      fire_pollComplete (w := w) quickkey filename revision hstate
    exact hinert rfl hleaves hin fun _ => by rw [hexec.machine, hend]; rfl
  | outside _ _ hout hstate =>
    obtain ⟨hleaves, hin, hend⟩ := fire_outside (w := w) hstate hout
    refine hinert (keyOf_outside hout) hleaves hin fun hterm => ?_
    rw [hexec.machine]
    rcases hend with ⟨-, hend⟩ | hsame
    · rw [hend]; rfl
    · rw [hsame]; exact hterm
  | dropped _ _ hterm =>
    rw [UploadStateMachine.fire_terminal hterm] at hexec
    have hterm' : u'.machine.state.isTerminal = true := by rw [hexec.machine]; exact hterm
    refine ⟨h.known.of_executes hexec rfl (by simp), ?_, hpolls, ?_, fun _ hlive => ?_⟩
    · rw [hexec.log, List.append_nil]; exact h.keys
    · rw [hexec.machine, hexec.log, List.append_nil]; exact h.stored
    · rw [hterm'] at hlive
      cases hlive

/-- A handler that raises no completion and posts no chunk. -/
theorem KeyInv.handler (h : KeyInv u) (hexec : u.Executes u' u.inFlight calls timers effects)
    (hpolls : u'.PollKeys) (hleaves : LeavesChunks u.machine effects)
    (hpoll : pollAssertion ∉ effects) (hkeys : "" ∉ Upload.acknowledgedKeys effects)
    (hposted : postedChunks effects = []) (hcompletions : Upload.completions effects = [])
    (hstate : (u.machine.applyAll effects).state = u.machine.state) : KeyInv u' :=
  h.keep hexec hpolls rfl hleaves hpoll hkeys hposted hcompletions fun hterm => by
    rw [hexec.machine, hstate]; exact hterm

/-- An event raised outside a transition. -/
theorem KeyInv.raise (h : KeyInv u) {evt : Event}
    (hexec : u.Executes u' u.inFlight calls timers [.processEvent evt]) (hpolls : u'.PollKeys)
    (hkey : keyOf evt ≠ some "")
    (hcompletions : Upload.completions [.processEvent evt] = []) : KeyInv u' := by
  refine h.handler hexec hpolls (leavesChunks_raise _ _) (by simp [pollAssertion]) ?_ rfl
    hcompletions rfl
  intro hmem
  obtain ⟨e, he, hempty⟩ := List.mem_filterMap.mp hmem
  cases List.mem_singleton.mp he
  exact hkey hempty

theorem KeyInv.answer (h : KeyInv u) (hchunks : ChunkInv chunks words u current)
    (hpolls : u'.PollKeys) {i : ℕ} {response : Response} {request : ApiRequest}
    (hack : AcknowledgesChunks {key | key ≠ ""} u (.answer i response) u')
    (hcall : u.calls[i]? = some request)
    (hresponse : handleResponse u.machine request response = some effects)
    (hexec : u.Executes u' u.inFlight (u.calls.eraseIdx i) u.timers effects) : KeyInv u' := by
  rcases hchunks.phase.outstanding request (List.mem_of_getElem? hcall) with ⟨key, rfl⟩ |
    ⟨chunkId, post, rfl⟩
  · obtain ⟨poll, rfl⟩ : ∃ poll, response = .poll poll := by
      cases response <;> first | exact ⟨_, rfl⟩ | cases hresponse
    obtain rfl : handlePollResponse key u.machine poll = effects := Option.some.inj hresponse
    rcases handlePollResponse_cases key u.machine poll with ⟨_, _, he⟩ | ⟨_, _, _, he⟩ | he <;>
      rw [he] at hexec
    · exact h.raise hexec hpolls (by simp [keyOf]) rfl
    · exact h.raise hexec hpolls (by simp [keyOf]) rfl
    · exact h.handler hexec hpolls (leavesChunks_of_forall (by simp [UploadStateMachine.apply]))
        (by simp [pollAssertion]) (by simp [Upload.acknowledgedKeys, raised]) rfl rfl rfl
  · obtain ⟨key, hne, hkey⟩ := hack i response chunkId post rfl hcall
    cases hresponse.symm.trans hkey
    exact h.raise hexec hpolls (by simpa [keyOf] using hne) rfl

end Step

theorem KeyInv.step {chunks : ℕ} {words : List ℕ} {u u' : Upload} {current : Option ℕ} {act : Act}
    (h : KeyInv u) (hchunks : ChunkInv chunks words u current)
    (hmissing : 2 ≤ (missingChunks chunks words).length)
    (hack : AcknowledgesChunks {key | key ≠ ""} u act u') (hs : u.step act = some u') :
    KeyInv u' := by
  have hpolls := h.polls.step hs
  cases step_cases hs with
  | @arrive evt houtside hexec =>
    refine h.raise hexec hpolls (by simp [keyOf_outside houtside]) ?_
    cases evt <;> first | rfl | cases houtside
  | event w _ hrest hexec => exact h.event hchunks hmissing hpolls hrest hexec
  | answer hcall hresponse hexec => exact h.answer hchunks hpolls hack hcall hresponse hexec
  | @retryPoll i err uploadKey htimer hexec =>
    have hne : uploadKey ≠ "" := fun hempty =>
      h.polls.timers (hempty ▸ List.mem_of_getElem? htimer)
    rw [Uploader.retryPoll, startPoll, if_neg hne] at hexec
    split_ifs at hexec
    · exact h.handler hexec hpolls (leavesChunks_of_forall (by simp)) (by simp) (by
        simp [acknowledgedKeys, raised]) rfl rfl rfl
    · exact h.handler hexec hpolls (leavesChunks_of_forall (by simp [UploadStateMachine.apply]))
        (by simp [pollAssertion]) (by simp [acknowledgedKeys, raised]) rfl rfl rfl

theorem keyInv_needingChunks {m : UploadStateMachine} (hkey : m.uploadKey = "") :
    KeyInv (needingChunks m) where
  known := ⟨fun _ hmem => absurd hmem List.not_mem_nil, List.not_mem_nil, List.not_mem_nil⟩
  keys := List.not_mem_nil
  polls := ⟨List.not_mem_nil, List.not_mem_nil⟩
  stored hne := absurd hkey hne
  fresh _ _ := ⟨Nat.zero_le 1, rfl, rfl⟩

/-- With two chunks missing, the key is known along every run. -/
theorem always_keyKnown_of_missing {chunks : ℕ} {words : List ℕ} {m : UploadStateMachine}
    {acts : List Act} (hm : BitmapInstalled chunks words m) (hkey : m.uploadKey = "")
    (hmissing : 2 ≤ (missingChunks chunks words).length)
    (hack : Along step (AcknowledgesChunks {key | key ≠ ""}) (needingChunks m) acts) :
    Always step KeyKnown (needingChunks m) acts := by
  refine .of_guarded (I := fun u => (∃ current, ChunkInv chunks words u current) ∧ KeyInv u)
    (fun u h => h.2.known) ?_ ⟨⟨none, chunkInv_needingChunks hm⟩, keyInv_needingChunks hkey⟩ hack
  rintro u act u' ⟨⟨current, hchunks⟩, h⟩ hg hs
  obtain ⟨current', hchunks', -⟩ := hchunks.step hg hs
  exact ⟨⟨current', hchunks'⟩, h.step hchunks hmissing hg hs⟩

/-! ### Bitmaps with fewer missing chunks -/

/-- A machine with a bitmap installed whose chunks are all the first byte of the file. -/
def firstByteChunks (chunks : ℕ) (words : List ℕ) : UploadStateMachine where
  state := .inUploadCheck
  pathFilename := "file"
  hash := "hash"
  filesize := chunks
  chunkRanges := List.replicate chunks (0, 1)
  chunkHashes := List.replicate chunks "digest"
  chunkStates := bitStates words chunks

theorem bitmapInstalled_firstByteChunks {chunks : ℕ} (words : List ℕ) (hmany : 1 < chunks)
    (hlt : chunks < 2 ^ 32) : BitmapInstalled chunks words (firstByteChunks chunks words) :=
  ⟨rfl, hmany, List.length_replicate, setBitmap_eq_some_iff.mpr ⟨hlt, rfl⟩⟩

theorem uploadNextChunk_firstByteChunks {chunks chunkId : ℕ} (words : List ℕ)
    (h : chunkId < chunks) : ∃ request,
    uploadNextChunk smallFile.openFile (firstByteChunks chunks words) chunkId = .posted request := by
  have hr : (firstByteChunks chunks words).chunkRanges[chunkId]? = some (0, 1) := by
    simp [firstByteChunks, h]
  have hh : (firstByteChunks chunks words).chunkHashes[chunkId]? = some "digest" := by
    simp [firstByteChunks, h]
  have hset : ∃ headers, setHeaders (firstByteChunks chunks words) chunkId = some headers := by
    simp only [setHeaders, hr, hh, Option.bind_eq_bind, Option.bind_some]
    exact ⟨_, rfl⟩
  obtain ⟨headers, hset⟩ := hset
  simp only [uploadNextChunk, smallFile, hr, hset]
  exact ⟨_, rfl⟩

/-- Handling of the oldest event of the strand. -/
def deliverFirst : Act := .deliver 0 smallFile fun _ => false


/-- The first event on the strand is handled. -/
theorem step_deliverFirst {u : Upload} (evt : Event) (rest : List Event) (hqueue : u.queue = [])
    (hpending : u.pending = evt :: rest) (hdef : .halted ∉ u.machine.fire smallFile evt) :
    u.step deliverFirst = some (execAll (fun _ => false) { u with pending := rest }
      (u.machine.fire smallFile evt)) := by
  simp only [deliverFirst, step, hqueue, hpending, if_pos, List.getElem?_cons_zero]
  exact if_neg hdef

/-- With no chunk missing, the completion is raised before any key is known. -/
theorem exists_unknown_of_none {m : UploadStateMachine} (hstate : m.state = .inUploadCheck)
    (hkey : m.uploadKey = "") (hlen : m.chunkStates.length ≤ 2 ^ 32)
    (hnone : ChunkState.needsUpload ∉ m.chunkStates) :
    ∃ u, run step (needingChunks m) [deliverFirst] = some u ∧ "" ∈ completions u.log := by
  have hfire : m.fire smallFile .needsChunkUpload = [keyAssertion,
      .processEvent (.chunkUploadComplete ""), .write (.state .uploadChunk)] := by
    rw [fire_needsChunkUpload hstate, doChunkUpload, (nextChunkToUpload_none hlen).mpr hnone, hkey]
    rfl
  have hstep := step_deliverFirst (u := needingChunks m) .needsChunkUpload [] rfl
    rfl (by rw [needingChunks, hfire]; simp [keyAssertion])
  refine ⟨_, run_cons.mpr ⟨_, hstep, rfl⟩, ?_⟩
  rw [log_execAll, completions_append, needingChunks, hfire]
  exact List.mem_append_right _ (List.mem_singleton_self _)

/-- The last chunk is acknowledged while no key is stored. -/
theorem fire_chunkSuccess_unknown {w : World} {m : UploadStateMachine} (chunkId : ℕ)
    (hs : m.state = .uploadChunk) (hkey : m.uploadKey = "") (hheld : m.uploadRequest = true)
    (hlen : m.chunkStates.length ≤ 2 ^ 32) (hchunk : m.chunkStates[chunkId]? = some .uploading)
    (hnone : ChunkState.needsUpload ∉ m.chunkStates) :
    m.fire w (.chunkSuccess chunkId "key") =
      [.cancelRequest, .write (.uploadRequest false), keyAssertion,
        .processEvent (.chunkUploadComplete ""), .write (.uploadKey "key"),
        .write (.chunkState chunkId .uploaded), .write (.state .uploadChunk)] := by
  have hrow : transitionTable m.state (.chunkSuccess chunkId "key") (m.hash ≠ "") =
      some (.uploadChunk, .doChunkUpload) := by rw [hs]; rfl
  have hexit : onExit w m m.state = [.cancelRequest, .write (.uploadRequest false)] := by
    rw [hs, onExit, if_pos hheld]
  have hact : doChunkUpload w (m.exited w) =
      [keyAssertion, .processEvent (.chunkUploadComplete "")] := by
    rw [UploadStateMachine.exited, hexit, doChunkUpload,
      (nextChunkToUpload_none (by exact hlen)).mpr (by exact hnone)]
    simp [UploadStateMachine.apply, UploadStateMachine.write, hkey, assertThat, keyAssertion]
  rw [UploadStateMachine.fire_row hrow, Action.effects, UploadStateMachine.acted, Action.effects,
    hact, onEntry, chunkSuccessOnEntry_uploading]
  · rw [UploadStateMachine.exited, hexit]
    simp [UploadStateMachine.apply, UploadStateMachine.write, hkey, keyAssertion]
  · rw [UploadStateMachine.exited, hexit]
    exact hchunk

def posting (chunkId : ℕ) (request : PostRequest) : List Effect :=
  [.write (.chunkState chunkId .uploading), .call (.chunkUpload chunkId request),
    .write (.uploadRequest true), .write (.state .uploadChunk)]

/-- With one chunk missing, the completion is raised before its key is stored. -/
theorem exists_unknown_of_one {m : UploadStateMachine} {chunkId : ℕ} {request : PostRequest}
    (hstate : m.state = .inUploadCheck)
    (hkey : m.uploadKey = "") (hlen : m.chunkStates.length ≤ 2 ^ 32)
    (hmissing : m.chunkStates[chunkId]? = some .needsUpload)
    (hone : ∀ next : ℕ, m.chunkStates[next]? = some .needsUpload → next = chunkId)
    (hpost : uploadNextChunk smallFile.openFile m chunkId = .posted request) :
    ∃ u, run step (needingChunks m) [deliverFirst, acknowledge "key", deliverFirst] = some u ∧
      "" ∈ completions u.log := by
  have hlt : chunkId < m.chunkStates.length := (List.getElem?_eq_some_iff.mp hmissing).1
  have hpick : nextChunkToUpload smallFile.pick m.chunkStates = some chunkId := by
    cases hnext : nextChunkToUpload smallFile.pick m.chunkStates with
    | none => exact absurd (List.mem_of_getElem? hmissing) ((nextChunkToUpload_none hlen).mp hnext)
    | some next => rw [hone next (nextChunkToUpload_some hlen hnext)]
  have hfire : m.fire smallFile .needsChunkUpload = posting chunkId request := by
    rw [fire_needsChunkUpload hstate, doChunkUpload]
    simp [hpick, hpost, UploadStateMachine.setChunkState, hlt, posting]
  have hstates : (m.applyAll (posting chunkId request)).chunkStates =
      m.chunkStates.set chunkId .uploading := rfl
  have hnone : ChunkState.needsUpload ∉ (m.applyAll (posting chunkId request)).chunkStates := by
    intro hmem
    obtain ⟨next, hnext⟩ := List.mem_iff_getElem?.mp hmem
    rw [hstates, List.getElem?_set] at hnext
    split_ifs at hnext with heq
    · cases hnext
    · exact heq (hone next hnext).symm
  have hlast := fire_chunkSuccess_unknown (w := smallFile)
    (m := m.applyAll (posting chunkId request)) chunkId rfl hkey rfl
    (by rw [hstates, List.length_set]; exact hlen) (by simp [hstates, hlt]) hnone
  have hposted := step_deliverFirst (u := needingChunks m) .needsChunkUpload [] rfl rfl
    (by rw [needingChunks, hfire]; simp [posting])
  have hcompleted := step_deliverFirst (.chunkSuccess chunkId "key") []
    (u := { machine := m.applyAll (posting chunkId request), pending := [.chunkSuccess chunkId "key"],
            log := posting chunkId request ++ [.processEvent (.chunkSuccess chunkId "key")] })
    rfl rfl (by rw [hlast]; simp [keyAssertion])
  rw [needingChunks, hfire] at hposted
  refine ⟨_, run_cons.mpr ⟨_, hposted, run_cons.mpr ⟨_, rfl, run_cons.mpr ⟨_, hcompleted, rfl⟩⟩⟩, ?_⟩
  rw [log_execAll, completions_append, hlast]
  exact List.mem_append_right _ (List.mem_singleton_self _)

/-- The key is known along every run exactly when at least two chunks are missing. -/
theorem always_keyKnown_iff (chunks : ℕ) (words : List ℕ) (hmany : 1 < chunks)
    (hlt : chunks < 2 ^ 32) :
    (∀ m, BitmapInstalled chunks words m → m.uploadKey = "" → ∀ acts,
      Along step (AcknowledgesChunks {key | key ≠ ""}) (needingChunks m) acts →
        Always step KeyKnown (needingChunks m) acts) ↔
      2 ≤ (missingChunks chunks words).length := by
  refine ⟨fun h => ?_, fun hmissing m hm hkey acts hack =>
    always_keyKnown_of_missing hm hkey hmissing hack⟩
  by_contra hfew
  have hm := bitmapInstalled_firstByteChunks words hmany hlt
  have hlen : (firstByteChunks chunks words).chunkStates.length ≤ 2 ^ 32 := by
    simpa [firstByteChunks] using hlt.le
  have hneeds (chunkId : ℕ) :
      (firstByteChunks chunks words).chunkStates[chunkId]? = some .needsUpload ↔
        chunkId ∈ missingChunks chunks words := by
    rw [mem_missingChunks]
    constructor
    · intro hget
      have hi : chunkId < chunks := by
        simpa [firstByteChunks] using (List.getElem?_eq_some_iff.mp hget).1
      refine ⟨hi, ?_⟩
      rw [firstByteChunks, getElem?_bitStates _ hi] at hget
      cases hbit : bitAt words chunkId
      · rfl
      · rw [hbit] at hget
        cases hget
    · rintro ⟨hi, hbit⟩
      rw [firstByteChunks, getElem?_bitStates _ hi, hbit]
      rfl
  -- a run that ends in a completion without key
  obtain ⟨acts, hack, u, hrun, hbad⟩ : ∃ acts,
      Along step (AcknowledgesChunks {key | key ≠ ""})
        (needingChunks (firstByteChunks chunks words)) acts ∧
      ∃ u, run step (needingChunks (firstByteChunks chunks words)) acts = some u ∧
        "" ∈ completions u.log := by
    match hmissing : missingChunks chunks words with
    | [] =>
      refine ⟨_, along_acknowledgesChunks ?_, exists_unknown_of_none rfl rfl hlen fun hmem => ?_⟩
      · simp [deliverFirst]
      · obtain ⟨chunkId, hget⟩ := List.mem_iff_getElem?.mp hmem
        have := (hneeds chunkId).mp hget
        simp [hmissing] at this
    | [chunkId] =>
      have hmem : chunkId ∈ missingChunks chunks words := by simp [hmissing]
      obtain ⟨request, hpost⟩ := uploadNextChunk_firstByteChunks words
        (mem_missingChunks.mp hmem).1
      refine ⟨_, along_acknowledgesChunks ?_, exists_unknown_of_one rfl rfl hlen
        ((hneeds chunkId).mpr hmem) (fun next hnext => ?_) hpost⟩
      · simp [deliverFirst, acknowledge]
      · simpa [hmissing] using (hneeds next).mp hnext
    | _ :: _ :: _ => simp [hmissing] at hfew
  exact (((h _ hm rfl acts hack).last hrun).key "" hbad).1 rfl

theorem always_keyKnown_twoMissing :
    Always step KeyKnown (needingChunks twoChunks)
      [deliverFirst, acknowledge "key", deliverFirst, acknowledge "key", deliverFirst] :=
  (always_keyKnown_iff 2 [0] (by decide) (by decide)).mpr (by decide) twoChunks
    ⟨rfl, by decide, rfl, by decide⟩ rfl _
    (along_acknowledgesChunks (by simp [deliverFirst, acknowledge]))

/-- The second of two chunks is on the server: posting the first one completes the upload, and the
completion carries no key. -/
theorem not_always_keyKnown_oneMissing :
    let m : UploadStateMachine := { twoChunks with chunkStates := [.needsUpload, .uploaded] }
    let acts := [deliverFirst, acknowledge "key", deliverFirst]
    BitmapInstalled 2 [2] m ∧ m.uploadKey = "" ∧
      Along step (AcknowledgesChunks {key | key ≠ ""}) (needingChunks m) acts ∧
      ¬ Always step KeyKnown (needingChunks m) acts := by
  intro m acts
  refine ⟨⟨rfl, by decide, rfl, by decide⟩, rfl, along_acknowledgesChunks ?_, fun h => ?_⟩
  · simp [acts, deliverFirst, acknowledge]
  · have hcompute : (run step (needingChunks m) acts).map (fun u => completions u.log) =
        some [""] := by decide +kernel
    obtain ⟨u, hrun, hkeys⟩ := Option.map_eq_some_iff.mp hcompute
    exact ((h.last hrun).key "" (by simp [hkeys])).1 rfl

end MediafireSdk.Uploader.Upload
