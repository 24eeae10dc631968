import MediafireSdk.Uploader.ChunkProgress

/-! Coverage of a resumable upload: every zero bit of the bitmap is posted once and
no other chunk, and the completion is raised once, when every chunk is uploaded or
the last one is being acknowledged. The upload gets there exactly when the sizes of
the missing chunks fit `int`. -/

namespace MediafireSdk.Uploader.Upload

open Runs

/-- No error is raised before a `ChunkUploadComplete`. -/
def NoErrorBeforeComplete (effects : List Effect) : Prop :=
  ∀ before ec description after,
    raised effects = before ++ .error ec description :: after →
      ∃ uploadKey, .chunkUploadComplete uploadKey ∈ before

/-- What holds between two events: the zero bits are posted once each, one chunk at most is under
way, and the completion is raised at most once, with every zero bit posted. Every event can be
handled, and before the completion or an error there is a step to take. Where nothing is left to
do, the completion was raised once unless an error came first. -/
structure CoversChunks (chunks : ℕ) (words : List ℕ) (u : Upload) : Prop where
  posted_once : (postedChunks u.log).Nodup
  posted_zero : ∀ chunkId ∈ postedChunks u.log, chunkId < chunks ∧ bitAt words chunkId = false
  one_uploading : ∀ i j : ℕ, u.machine.chunkStates[i]? = some .uploading →
    u.machine.chunkStates[j]? = some .uploading → i = j
  acknowledged : acknowledgedAssertion ∉ u.log
  complete_once : (completions u.log).length ≤ 1
  covered : completions u.log ≠ [] → Covered chunks words u
  defined : ∀ act evt, u.handled act = some evt → ∃ u', u.step act = some u'
  goes_on : completions u.log = [] → NoErrorBeforeComplete u.log →
    ∃ act u', act.isOwn = true ∧ u.step act = some u' ∧ AcknowledgesChunks Set.univ u act u'
  finished : u.queue = [] → u.pending = [] →
    (∀ chunkId request, .chunkUpload chunkId request ∉ u.calls) →
      NoErrorBeforeComplete u.log → (completions u.log).length = 1

/-- While no completion was raised, the first error contradicts `NoErrorBeforeComplete`. -/
theorem completions_ne_nil_of_error {effects : List Effect}
    (herror : ∃ ec description, Event.error ec description ∈ raised effects)
    (hfirst : NoErrorBeforeComplete effects) : completions effects ≠ [] := by
  obtain ⟨ec, description, hmem⟩ := herror
  obtain ⟨before, after, hsplit⟩ := List.append_of_mem hmem
  obtain ⟨uploadKey, hkey⟩ := hfirst before ec description after hsplit
  have hraised : .chunkUploadComplete uploadKey ∈ raised effects :=
    hsplit ▸ List.mem_append_left _ hkey
  exact List.ne_nil_of_mem (List.mem_filterMap.mpr ⟨_, hraised, rfl⟩)

theorem going_of_noErrorBeforeComplete {u : Upload} (hcompletions : completions u.log = [])
    (hfirst : NoErrorBeforeComplete u.log) : Going u :=
  ⟨hcompletions, fun ec description herror =>
    completions_ne_nil_of_error ⟨ec, description, herror⟩ hfirst hcompletions⟩

/-- An event in flight can be handled, at the head of the queue or, where that is empty, first of
the others. -/
theorem exists_handled {u : Upload} (h : u.inFlight ≠ 0) :
    ∃ act evt, u.handled act = some evt ∧ act.isOwn = true ∧
      ∀ i response, act ≠ .answer i response := by
  cases hqueue : u.queue with
  | cons evt queue =>
    exact ⟨.next smallFile fun _ => false, evt, by simp [handled, hqueue], rfl, by simp⟩
  | nil =>
    cases hpending : u.pending with
    | cons evt pending =>
      exact ⟨.deliver 0 smallFile fun _ => false, evt, by simp [handled, hqueue, hpending], rfl,
        by simp⟩
    | nil => simp [inFlight, hqueue, hpending] at h

/-- A chunk is acknowledged with an upload key. -/
def acknowledge (uploadKey : String) : Act :=
  .answer 0 (.upload (.content { key := some uploadKey }))

/-- Before the completion or an error there is an event to handle, or a chunk to acknowledge. -/
theorem Phase.goes_on {chunks : ℕ} {words : List ℕ} {u : Upload} {current : Option ℕ}
    (h : Phase chunks words u current) (hgoing : Going u)
    (hdefined : ∀ act evt, u.handled act = some evt → ∃ u', u.step act = some u') :
    ∃ act u', act.isOwn = true ∧ u.step act = some u' ∧ AcknowledgesChunks Set.univ u act u' := by
  have hevent (hne : u.inFlight ≠ 0) :
      ∃ act u', act.isOwn = true ∧ u.step act = some u' ∧
        AcknowledgesChunks Set.univ u act u' := by
    obtain ⟨act, evt, hact, hown, hno⟩ := exists_handled hne
    obtain ⟨u', hs⟩ := hdefined act evt hact
    exact ⟨act, u', hown, hs, fun i response _ _ heq => absurd heq (hno i response)⟩
  cases h with
  | checked hwait _ _ => exact hevent hwait.inFlight_ne_zero
  | sent chunkId request hwait _ _ =>
    refine ⟨acknowledge "key", _, rfl, by rw [acknowledge, step, hwait.calls]; rfl, ?_⟩
    intro i response chunkId' request' heq hcall
    obtain ⟨rfl, rfl⟩ := Act.answer.inj heq
    exact ⟨"key", Set.mem_univ _, rfl⟩
  | answered _ _ hwait _ _ => exact hevent hwait.inFlight_ne_zero
  | failed _ herror _ =>
    obtain ⟨ec, description, herror⟩ := herror
    exact absurd herror (hgoing.errors ec description)
  | complete _ hwait _ _ => exact hevent hwait.inFlight_ne_zero
  | polling key hstate h1 h2 h3 h4 =>
    exact absurd hgoing (Phase.not_going (.polling key hstate h1 h2 h3 h4) (.inl hstate))
  | ended _ hterm h1 h2 =>
    exact absurd hgoing (Phase.not_going (.ended current hterm h1 h2) (.inr hterm))

theorem ChunkInv.coversChunks {chunks : ℕ} {words : List ℕ} {u : Upload} {current : Option ℕ}
    (h : ChunkInv chunks words u current)
    (hdefined : ∀ act evt, u.handled act = some evt → ∃ u', u.step act = some u') :
    CoversChunks chunks words u where
  posted_once := h.nodup
  posted_zero := h.missing
  one_uploading i j hi hj := by
    rw [h.states] at hi hj
    have := uploading_chunkStatesAt hi
    simpa [this] using uploading_chunkStatesAt hj
  acknowledged := h.acknowledged
  complete_once := by
    rcases h.phase.raised_or_not with hnone | ⟨_, hone, _⟩
    · rw [hnone]; exact Nat.zero_le 1
    · rw [hone]; exact le_rfl
  covered hne := by
    rcases h.phase.raised_or_not with hnone | ⟨_, _, hcovered⟩
    · exact absurd hnone hne
    · exact hcovered
  defined := hdefined
  goes_on hcompletions hfirst :=
    h.phase.goes_on (going_of_noErrorBeforeComplete hcompletions hfirst) hdefined
  finished hqueue hpending hcalls hfirst := by
    have hempty : u.inFlight = 0 := by rw [inFlight, hqueue, hpending]; rfl
    rcases h.phase.raised_or_not with hnone | ⟨_, hone, _⟩
    · exfalso
      cases h.phase with
      | checked hwait _ _ => exact hwait.inFlight_ne_zero hempty
      | sent chunkId request hwait _ _ =>
        exact hcalls chunkId request (hwait.calls ▸ List.mem_singleton_self _)
      | answered _ _ hwait _ _ => exact hwait.inFlight_ne_zero hempty
      | failed _ herror _ => exact completions_ne_nil_of_error herror hfirst hnone
      | complete _ _ _ hone => simp [hnone] at hone
      | polling _ _ _ _ _ hone => simp [hnone] at hone
      | ended _ _ _ hend =>
        rcases hend with ⟨_, herror⟩ | ⟨_, hone, _⟩
        · exact completions_ne_nil_of_error herror hfirst hnone
        · simp [hnone] at hone
    · rw [hone]; rfl

/-- A run that covers the bitmap. When the upload and the servers have taken more than two steps
for each missing chunk and one for each event from outside, the completion was raised, unless an
error came first. -/
structure CoversBitmap (chunks : ℕ) (words : List ℕ) (m : UploadStateMachine) (acts : List Act) :
    Prop where
  covers : Always step (CoversChunks chunks words) (needingChunks m) acts
  raised_at_end : Along step (fun u act u' => RaisedAtEnd chunks (u.handled act) u u')
    (needingChunks m) acts
  completes : ∀ u, run step (needingChunks m) acts = some u → NoErrorBeforeComplete u.log →
    2 * (missingChunks chunks words).length + acts.countP (fun act => !act.isOwn) <
      acts.countP Act.isOwn → (completions u.log).length = 1

section Runs
variable {chunks : ℕ} {words : List ℕ} {m : UploadStateMachine}

/-- What a run keeps: the invariant, and the chunks as they were cut and hashed. -/
def Uploading (chunks : ℕ) (words : List ℕ) (m : UploadStateMachine) (u : Upload) : Prop :=
  (∃ current, ChunkInv chunks words u current) ∧ SameChunks m u.machine

theorem uploading_needingChunks (hm : BitmapInstalled chunks words m) :
    Uploading chunks words m (needingChunks m) :=
  ⟨⟨none, chunkInv_needingChunks hm⟩, rfl, rfl⟩

theorem Uploading.step {u u' : Upload} {act : Act} (h : Uploading chunks words m u)
    (hack : AcknowledgesChunks Set.univ u act u') (hs : u.step act = some u') :
    RaisedAtEnd chunks (u.handled act) u u' ∧ Uploading chunks words m u' := by
  obtain ⟨⟨current, hinv⟩, hsame⟩ := h
  obtain ⟨current', hinv', hraised⟩ := hinv.step hack hs
  exact ⟨hraised, ⟨current', hinv'⟩, hsame.trans (sameChunks_step hs hinv.phase.hashed.2)⟩

theorem Uploading.coversChunks {u : Upload} (h : Uploading chunks words m u)
    (hranges : m.chunkRanges.length = chunks) (hhashes : m.chunkHashes.length = chunks)
    (hfit : SizesFit words m) : CoversChunks chunks words u := by
  obtain ⟨⟨current, hinv⟩, hsame⟩ := h
  exact hinv.coversChunks fun act evt hact => exists_step_of_handled hact fun w =>
    hinv.halted_notMem_fire hsame hranges hhashes hfit w evt

theorem coversBitmap_of_sizesFit (hm : BitmapInstalled chunks words m)
    (hhashes : m.chunkHashes.length = chunks) (hfit : SizesFit words m) {acts : List Act}
    (hack : Along step (AcknowledgesChunks Set.univ) (needingChunks m) acts) :
    CoversBitmap chunks words m acts where
  covers := .of_guarded (fun _ h => h.coversChunks hm.ranges hhashes hfit)
    (fun _ _ _ h hg hs => (h.step hg hs).2) (uploading_needingChunks hm) hack
  raised_at_end := .of_guarded (fun _ _ _ h hg hs => h.step hg hs) (uploading_needingChunks hm) hack
  completes u hrun hfirst hmany := by
    have hstep (u : Upload) (act : Act) (u' : Upload) (h : Uploading chunks words m u)
        (hg : AcknowledgesChunks Set.univ u act u') (hs : u.step act = some u') :
        Uploading chunks words m u' := (h.step hg hs).2
    obtain ⟨⟨current, hinv⟩, -⟩ := run_guarded hstep (uploading_needingChunks hm) hack hrun
    rcases hinv.phase.raised_or_not with hnone | ⟨_, hone, _⟩
    · exfalso
      have hgoing := going_of_noErrorBeforeComplete hnone hfirst
      have hrank (u : Upload) (act : Act) (u' : Upload) (h : Uploading chunks words m u)
          (hg : AcknowledgesChunks Set.univ u act u') (hs : u.step act = some u')
          (hgoing : Going u') : due chunks words u' + act.isOwn.toNat ≤
            due chunks words u + (!act.isOwn).toNat := by
        obtain ⟨⟨current, hinv⟩, -⟩ := h
        obtain ⟨current', hinv', -⟩ := hinv.step hg hs
        exact hinv.due_step hinv' hg hs hgoing
      have hle := countP_add_le_of_rank hstep (fun _ _ _ hs h => h.of_step hs) hrank
        (uploading_needingChunks hm) hack hrun hgoing
      have hdue : due chunks words (needingChunks m) =
          2 * (missingChunks chunks words).length + 1 := by
        simp [due, needingChunks, postedChunks, issued, inFlight]
      have hpos := hinv.phase.due_pos hgoing
      omega
    · rw [hone]
      rfl

/-- Where a size does not fit, its chunk may be the first one picked. -/
theorem exists_halted (hm : BitmapInstalled chunks words m)
    (hhashes : m.chunkHashes.length = chunks) (hfit : ¬ SizesFit words m) : ∃ w, .halted ∈ m.fire w .needsChunkUpload := by
  unfold SizesFit at hfit
  push Not at hfit
  obtain ⟨chunkId, range, hrange, hbit, hbegin, hover⟩ := hfit
  obtain ⟨hlt32, hstates⟩ := setBitmap_eq_some_iff.mp hm.bitmap
  have hlt : chunkId < chunks := hm.ranges ▸ (List.getElem?_eq_some_iff.mp hrange).1
  have hneeds : m.chunkStates[chunkId]? = some .needsUpload := by
    rw [hstates, ← chunkStatesAt_nil, getElem?_chunkStatesAt hlt]
    simp [chunkStateAt, hbit]
  have hlen : m.chunkStates.length ≤ 2 ^ 32 := by
    rw [hstates, ← chunkStatesAt_nil, length_chunkStatesAt]
    exact hlt32.le
  obtain ⟨pick, hpick⟩ := exists_pick hlen hneeds
  have hundefined : uploadNextChunk smallFile.openFile m chunkId = .undefined :=
    (uploadNextChunk_undefined_iff hrange (hhashes ▸ hlt)).mpr ⟨hbegin, hover⟩
  refine ⟨{ smallFile with pick }, ?_⟩
  rw [fire_needsChunkUpload hm.state, doChunkUpload]
  simp only [hpick, hundefined]
  exact List.mem_cons_self

theorem not_coversBitmap_nil (hm : BitmapInstalled chunks words m)
    (hhashes : m.chunkHashes.length = chunks) (hfit : ¬ SizesFit words m) :
    ¬ CoversBitmap chunks words m [] := by
  intro h
  obtain ⟨w, hhalted⟩ := exists_halted hm hhashes hfit
  obtain ⟨u', hs⟩ := h.covers.1.defined (.deliver 0 w fun _ => false) .needsChunkUpload rfl
  have hnone : (needingChunks m).step (.deliver 0 w fun _ => false) = none := if_pos hhalted
  rw [hnone] at hs
  cases hs

end Runs

/-- Every run from `NeedsChunkUpload` in which posted chunks are acknowledged covers the bitmap,
exactly when the sizes of the missing chunks fit `int`. -/
theorem coversBitmap_iff (chunks : ℕ) (words : List ℕ) (m : UploadStateMachine)
    (hm : BitmapInstalled chunks words m) (hhashes : m.chunkHashes.length = chunks) :
    (∀ acts, Along step (AcknowledgesChunks Set.univ) (needingChunks m) acts →
      CoversBitmap chunks words m acts) ↔ SizesFit words m := by
  constructor
  · intro h
    by_contra hfit
    exact not_coversBitmap_nil hm hhashes hfit (h [] trivial)
  · intro hfit acts hack
    exact coversBitmap_of_sizesFit hm hhashes hfit hack

/-- A file of two chunks, none of them on the server. -/
def twoChunks : UploadStateMachine where
  state := .inUploadCheck
  pathFilename := "file"
  hash := "hash"
  filesize := 2
  chunkRanges := [(0, 1), (1, 2)]
  chunkHashes := ["first", "second"]
  chunkStates := [.needsUpload, .needsUpload]

/-- Runs in which the only answers are acknowledgements. -/
theorem along_acknowledgesChunks {keys : Set String} {u : Upload} {acts : List Act}
    (h : ∀ act ∈ acts, (∀ i response, act ≠ .answer i response) ∨
      ∃ uploadKey ∈ keys, act = acknowledge uploadKey) :
    Along step (AcknowledgesChunks keys) u acts := by
  refine along_of_forall fun act hact u u' i response chunkId request heq hcall => ?_
  rcases h act hact with hno | ⟨uploadKey, hkey, rfl⟩
  · exact absurd heq (hno i response)
  · obtain ⟨rfl, rfl⟩ := Act.answer.inj heq
    exact ⟨uploadKey, hkey, rfl⟩

theorem coversBitmap_iff_twoChunks :
    CoversBitmap 2 [0] twoChunks
      [.deliver 0 smallFile fun _ => false, acknowledge "key",
        .deliver 0 smallFile fun _ => false, acknowledge "key",
        .deliver 0 smallFile fun _ => false, .deliver 0 smallFile fun _ => false] :=
  (coversBitmap_iff 2 [0] twoChunks ⟨rfl, by decide, rfl, by decide⟩ rfl).mpr
    (sizesFit_of_small (by decide)) _ (along_acknowledgesChunks (by simp [acknowledge]))

/-- A file of two gigabytes in chunks of 16 megabytes, none of them on the server. -/
def twoGigabytes : UploadStateMachine where
  state := .inUploadCheck
  pathFilename := "file"
  hash := "hash"
  filesize := 2 ^ 31
  chunkRanges := (List.range 128).map fun i => (2 ^ 24 * i, 2 ^ 24 * (i + 1))
  chunkHashes := List.replicate 128 "hash"
  chunkStates := List.replicate 128 .needsUpload

/-- The last chunk ends at `2 ^ 31`, and when it is picked its size is never computed. -/
theorem not_coversBitmap_twoGigabytes :
    chunkRanges twoGigabytes.filesize = some twoGigabytes.chunkRanges ∧
      BitmapInstalled 128 (List.replicate 8 0) twoGigabytes ∧
      twoGigabytes.chunkHashes.length = 128 ∧
      ¬ ∀ acts, Along step (AcknowledgesChunks Set.univ) (needingChunks twoGigabytes) acts →
        CoversBitmap 128 (List.replicate 8 0) twoGigabytes acts := by
  have hm : BitmapInstalled 128 (List.replicate 8 0) twoGigabytes :=
    ⟨rfl, by decide, by decide +kernel, by decide +kernel⟩
  have hhashes : twoGigabytes.chunkHashes.length = 128 := by decide +kernel
  refine ⟨by decide +kernel, hm, hhashes, fun h => ?_⟩
  refine not_coversBitmap_nil hm hhashes (fun hfit => ?_) (h [] trivial)
  have hover := hfit 127 (2 ^ 24 * 127, 2 ^ 24 * 128) (by decide +kernel) (by decide +kernel)
    (by decide)
  exact absurd hover (by decide)

end MediafireSdk.Uploader.Upload
