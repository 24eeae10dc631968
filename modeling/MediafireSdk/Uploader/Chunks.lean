import MediafireSdk.Uploader.ChunkTransitions

/-! The invariant of a resumable upload, over all runs from `NeedsChunkUpload` in
which a posted chunk is answered by its `ChunkSuccess`. One chunk is under way at a
time, so a run goes through phases: the bitmap is checked, then a chunk is sent or
answered in turn, then the completion is raised and the upload polls. An error may
end it at any point. -/

namespace MediafireSdk.Uploader.Upload

open Runs

/-! ### Runs from `NeedsChunkUpload` -/

/-- A machine in `InUploadCheck` for a file of more than one chunk, the bitmap installed. -/
structure BitmapInstalled (chunks : ℕ) (words : List ℕ) (m : UploadStateMachine) : Prop where
  state : m.state = .inUploadCheck
  many : 1 < chunks
  ranges : m.chunkRanges.length = chunks
  bitmap : setBitmap chunks words = some m.chunkStates

/-- The upload right after `HandleCheck` raised `NeedsChunkUpload`. -/
def needingChunks (m : UploadStateMachine) : Upload := { machine := m, pending := [.needsChunkUpload] }

/-- A posted chunk is answered by a `ChunkSuccess` for that chunk, its key in `keys`. -/
def AcknowledgesChunks (keys : Set String) (u : Upload) (act : Act) (_ : Upload) : Prop :=
  ∀ i response chunkId request, act = .answer i response →
    u.calls[i]? = some (.chunkUpload chunkId request) →
      ∃ uploadKey ∈ keys, handleResponse u.machine (.chunkUpload chunkId request) response =
        some [.processEvent (.chunkSuccess chunkId uploadKey)]

/-- The chunk ids posted. -/
def postedChunks (effects : List Effect) : List ℕ :=
  (issued effects).filterMap fun
    | .chunkUpload chunkId _ => some chunkId
    | _ => none

/-- The keys of the `ChunkUploadComplete` events raised. -/
def completions (effects : List Effect) : List String :=
  (raised effects).filterMap fun
    | .chunkUploadComplete uploadKey => some uploadKey
    | _ => none

@[simp] theorem postedChunks_append (xs ys : List Effect) :
    postedChunks (xs ++ ys) = postedChunks xs ++ postedChunks ys := by
  simp [postedChunks]

@[simp] theorem completions_append (xs ys : List Effect) :
    completions (xs ++ ys) = completions xs ++ completions ys := by
  simp [completions]

theorem postedChunks_of_issued {effects : List Effect} (h : issued effects = []) :
    postedChunks effects = [] := by rw [postedChunks, h]; rfl

theorem completions_of_raised {effects : List Effect} (h : raised effects = []) :
    completions effects = [] := by rw [completions, h]; rfl

/-- The events of the machine's own making among some events. -/
def inner (events : Multiset Event) : Multiset Event :=
  events.filter fun e => isOutside e = false

@[simp] theorem inner_add (s t : Multiset Event) : inner (s + t) = inner s + inner t :=
  Multiset.filter_add ..

theorem inner_cons_outside {e : Event} {s : Multiset Event} (h : isOutside e = true) :
    inner (e ::ₘ s) = inner s := Multiset.filter_cons_of_neg _ (by simp [h])

theorem inner_cons_inside {e : Event} {s : Multiset Event} (h : isOutside e = false) :
    inner (e ::ₘ s) = e ::ₘ inner s := Multiset.filter_cons_of_pos _ h

/-- Every zero bit was posted. -/
def Covered (chunks : ℕ) (words : List ℕ) (u : Upload) : Prop :=
  ∀ chunkId < chunks, bitAt words chunkId = false → chunkId ∈ postedChunks u.log

/-- The machine is in a state, with these inner events and requests to wait for. -/
structure Waiting (u : Upload) (s : State) (events : Multiset Event) (calls : List ApiRequest) :
    Prop where
  state : u.machine.state = s
  inner : inner u.inFlight = events
  calls : u.calls = calls
  timers : u.timers = []

/-- Where a resumable upload is, and which chunk is under way. -/
inductive Phase (chunks : ℕ) (words : List ℕ) (u : Upload) : Option ℕ → Prop
  | checked (hwait : u.Waiting .inUploadCheck {.needsChunkUpload} [])
      (hposted : postedChunks u.log = []) (hcompletions : completions u.log = []) :
    Phase chunks words u none
  | sent (chunkId : ℕ) (request : PostRequest)
      (hwait : u.Waiting .uploadChunk 0 [.chunkUpload chunkId request])
      (hposted : chunkId ∈ postedChunks u.log) (hcompletions : completions u.log = []) :
    Phase chunks words u (some chunkId)
  | answered (chunkId : ℕ) (uploadKey : String)
      (hwait : u.Waiting .uploadChunk {.chunkSuccess chunkId uploadKey} [])
      (hposted : chunkId ∈ postedChunks u.log) (hcompletions : completions u.log = []) :
    Phase chunks words u (some chunkId)
  | failed (hwait : u.Waiting .uploadChunk 0 [])
      (herror : ∃ ec description, .error ec description ∈ raised u.log)
      (hcompletions : completions u.log = []) : Phase chunks words u none
  | complete (uploadKey : String)
      (hwait : u.Waiting .uploadChunk {.chunkUploadComplete uploadKey} [])
      (hcovered : Covered chunks words u) (hcompletions : completions u.log = [uploadKey]) :
    Phase chunks words u none
  | polling (uploadKey : String) (hstate : u.machine.state = .pollUpload)
      (hinner : ∀ e ∈ inner u.inFlight, ∃ quickkey filename revision,
        e = .pollComplete quickkey filename revision)
      (hcalls : ∀ r ∈ u.calls, ∃ key, r = .pollUpload key)
      (hcovered : Covered chunks words u) (hcompletions : completions u.log = [uploadKey]) :
    Phase chunks words u none
  | ended (current : Option ℕ) (hstate : u.machine.state.isTerminal = true)
      (hcalls : ∀ r ∈ u.calls,
        (∃ key, r = .pollUpload key) ∨ ∃ chunkId request, r = .chunkUpload chunkId request)
      (hend : (completions u.log = [] ∧ ∃ ec description, .error ec description ∈ raised u.log) ∨
        ∃ uploadKey, completions u.log = [uploadKey] ∧ Covered chunks words u) :
    Phase chunks words u current

structure ChunkInv (chunks : ℕ) (words : List ℕ) (u : Upload) (current : Option ℕ) : Prop where
  lt : chunks < 2 ^ 32
  states : u.machine.chunkStates = chunkStatesAt chunks words (postedChunks u.log) current
  nodup : (postedChunks u.log).Nodup
  missing : ∀ chunkId ∈ postedChunks u.log, chunkId < chunks ∧ bitAt words chunkId = false
  acknowledged : acknowledgedAssertion ∉ u.log
  errors : ∀ ec description, .error ec description ∈ u.inFlight →
    .error ec description ∈ raised u.log
  phase : Phase chunks words u current

/-! ### One step -/

section Step
variable {chunks : ℕ} {words : List ℕ} {u u' : Upload} {current : Option ℕ}
  {events : Multiset Event} {calls : List ApiRequest} {timers : List String}
  {effects : List Effect}

theorem Executes.posted (hexec : u.Executes u' events calls timers effects) :
    postedChunks u'.log = postedChunks u.log ++ postedChunks effects := by
  rw [hexec.log, postedChunks_append]

theorem Executes.completions (hexec : u.Executes u' events calls timers effects) :
    completions u'.log = completions u.log ++ completions effects := by
  rw [hexec.log, completions_append]

theorem Executes.error_mem_raised (hexec : u.Executes u' events calls timers effects)
    (h : ∃ ec description, Event.error ec description ∈ raised u.log) :
    ∃ ec description, Event.error ec description ∈ raised u'.log := by
  obtain ⟨ec, description, hmem⟩ := h
  exact ⟨ec, description, by rw [hexec.log, raised_append]; exact List.mem_append_left _ hmem⟩

theorem Covered.of_executes (hexec : u.Executes u' events calls timers effects)
    (h : Covered chunks words u) : Covered chunks words u' := fun chunkId hlt hbit => by
  rw [hexec.posted]
  exact List.mem_append_left _ (h chunkId hlt hbit)

theorem Phase.outstanding (h : Phase chunks words u current) :
    ∀ r ∈ u.calls,
      (∃ key, r = .pollUpload key) ∨ ∃ chunkId request, r = .chunkUpload chunkId request := by
  intro r hr
  cases h with
  | checked hwait _ _ => simp [hwait.calls] at hr
  | sent chunkId request hwait _ _ =>
    simp only [hwait.calls, List.mem_singleton] at hr
    exact .inr ⟨chunkId, request, hr⟩
  | answered _ _ hwait _ _ => simp [hwait.calls] at hr
  | failed hwait _ _ => simp [hwait.calls] at hr
  | complete _ hwait _ _ => simp [hwait.calls] at hr
  | polling _ _ _ hcalls _ _ => exact .inl (hcalls r hr)
  | ended _ _ hcalls _ => exact hcalls r hr

theorem Phase.raised_or_not (h : Phase chunks words u current) :
    completions u.log = [] ∨
      ∃ uploadKey, completions u.log = [uploadKey] ∧ Covered chunks words u := by
  cases h with
  | checked _ _ hcompletions => exact .inl hcompletions
  | sent _ _ _ _ hcompletions => exact .inl hcompletions
  | answered _ _ _ _ hcompletions => exact .inl hcompletions
  | failed _ _ hcompletions => exact .inl hcompletions
  | complete key _ hcovered hcompletions => exact .inr ⟨key, hcompletions, hcovered⟩
  | polling key _ _ _ hcovered hcompletions => exact .inr ⟨key, hcompletions, hcovered⟩
  | ended _ _ _ hend => exact hend.imp And.left id

/-- A step that changes nothing a phase is about. -/
theorem Phase.congr (h : Phase chunks words u current)
    (hexec : u.Executes u' events calls timers effects) (hstate : u'.machine.state = u.machine.state)
    (hinner : inner u'.inFlight = inner u.inFlight) (hcalls : u'.calls = u.calls)
    (htimers : u'.timers = u.timers) (hposted : postedChunks effects = [])
    (hcompletions : completions effects = []) : Phase chunks words u' current := by
  have hp : postedChunks u'.log = postedChunks u.log := by rw [hexec.posted, hposted, List.append_nil]
  have hc : completions u'.log = completions u.log := by
    rw [hexec.completions, hcompletions, List.append_nil]
  have hwaiting {s : State} {es : Multiset Event} {cs : List ApiRequest}
      (hw : u.Waiting s es cs) : u'.Waiting s es cs :=
    ⟨hstate.trans hw.state, hinner.trans hw.inner, hcalls.trans hw.calls, htimers.trans hw.timers⟩
  cases h with
  | checked hwait h1 h2 => exact .checked (hwaiting hwait) (hp.trans h1) (hc.trans h2)
  | sent id request hwait h1 h2 => exact .sent id request (hwaiting hwait) (hp ▸ h1) (hc.trans h2)
  | answered id key hwait h1 h2 => exact .answered id key (hwaiting hwait) (hp ▸ h1) (hc.trans h2)
  | failed hwait h1 h2 =>
    exact .failed (hwaiting hwait) (hexec.error_mem_raised h1) (hc.trans h2)
  | complete key hwait h1 h2 =>
    exact .complete key (hwaiting hwait) (h1.of_executes hexec) (hc.trans h2)
  | polling key h1 h2 h3 h4 h5 =>
    exact .polling key (hstate.trans h1) (hinner ▸ h2) (hcalls ▸ h3) (h4.of_executes hexec)
      (hc.trans h5)
  | ended _ h1 h2 h3 =>
    refine .ended _ (hstate ▸ h1) (hcalls ▸ h2) ?_
    rcases h3 with ⟨h3, herror⟩ | ⟨key, h3, hcovered⟩
    · exact .inl ⟨hc.trans h3, hexec.error_mem_raised herror⟩
    · exact .inr ⟨key, hc.trans h3, hcovered.of_executes hexec⟩

/-- Effects that neither post a chunk nor raise the completion keep the invariant if they lead
to a phase. -/
theorem ChunkInv.keep (h : ChunkInv chunks words u current)
    (hexec : u.Executes u' events calls timers effects) (hevents : events ≤ u.inFlight)
    (hleaves : LeavesChunks u.machine effects) (hposted : postedChunks effects = [])
    (hcompletions : completions effects = []) (hphase : Phase chunks words u' current) :
    ChunkInv chunks words u' current ∧ completions u'.log = completions u.log := by
  have hp : postedChunks u'.log = postedChunks u.log := by rw [hexec.posted, hposted, List.append_nil]
  refine ⟨⟨h.lt, ?_, hp ▸ h.nodup, hp ▸ h.missing, ?_, ?_, hphase⟩,
    by rw [hexec.completions, hcompletions, List.append_nil]⟩
  · rw [hexec.machine, hleaves.chunkStates, h.states, hp]
  · rw [hexec.log, List.mem_append, not_or]
    exact ⟨h.acknowledged, hleaves.acknowledged⟩
  · intro ec description hmem
    rw [hexec.log, raised_append, List.mem_append]
    rw [hexec.inFlight, Multiset.mem_add] at hmem
    exact hmem.imp (fun hm => h.errors _ _ (Multiset.mem_of_le hevents hm)) (fun hm => hm)

theorem leavesChunks_raise (m : UploadStateMachine) (e : Event) :
    LeavesChunks m [.processEvent e] :=
  leavesChunks_of_forall (by simp [UploadStateMachine.apply])

theorem ChunkInv.arrive (h : ChunkInv chunks words u current) {evt : Event}
    (houtside : isOutside evt = true)
    (hexec : u.Executes u' u.inFlight u.calls u.timers [.processEvent evt]) :
    ChunkInv chunks words u' current ∧ completions u'.log = completions u.log := by
  have hcomp : completions [.processEvent evt] = [] := by
    cases evt <;> first | rfl | cases houtside
  refine h.keep hexec le_rfl (leavesChunks_raise _ _) rfl hcomp
    (h.phase.congr hexec ?_ ?_ ?_ ?_ rfl hcomp)
  · rw [hexec.machine]; rfl
  · rw [hexec.inFlight, inner_add, show (raised [.processEvent evt] : Multiset Event) = {evt} from rfl,
      ← Multiset.cons_zero, inner_cons_outside houtside]
    exact add_zero _
  · rw [hexec.calls]; exact List.append_nil _
  · rw [hexec.timers]; exact List.append_nil _

/-- An event of the upload manager, or an error, while chunks are uploaded or polled for. -/
theorem ChunkInv.outside (h : ChunkInv chunks words u current) {evt : Event} {w : World}
    (hstate : u.machine.state ∈ [State.inUploadCheck, .uploadChunk, .pollUpload])
    (houtside : isOutside evt = true) (hrest : u.inFlight = evt ::ₘ events)
    (hexec : u.Executes u' events u.calls u.timers (u.machine.fire w evt)) :
    ChunkInv chunks words u' current ∧ completions u'.log = completions u.log := by
  have hle : events ≤ u.inFlight := hrest ▸ Multiset.le_cons_self ..
  obtain ⟨hleaves, ⟨hraised, hissued, hwaits⟩, hend⟩ := fire_outside (w := w) hstate houtside
  refine h.keep hexec hle hleaves (postedChunks_of_issued hissued)
    (completions_of_raised hraised) ?_
  rcases hend with ⟨⟨ec, description, rfl⟩, hend⟩ | hsame
  · have hlogged := h.errors ec description (hrest ▸ Multiset.mem_cons_self ..)
    refine .ended _ ?_ ?_ ?_
    · rw [hexec.machine, hend]
      rfl
    · rw [hexec.calls, hissued, List.append_nil]
      exact h.phase.outstanding
    · rw [hexec.completions, completions_of_raised hraised, List.append_nil]
      exact h.phase.raised_or_not.imp
        (fun hc => ⟨hc, hexec.error_mem_raised ⟨_, _, hlogged⟩⟩)
        (fun ⟨key, hc, hcovered⟩ => ⟨key, hc, hcovered.of_executes hexec⟩)
  · refine h.phase.congr hexec ?_ ?_ ?_ ?_ (postedChunks_of_issued hissued)
      (completions_of_raised hraised)
    · rw [hexec.machine, hsame]
    · rw [hexec.inFlight, hrest, inner_add, inner_cons_outside houtside, hraised]
      exact add_zero _
    · rw [hexec.calls, hissued, List.append_nil]
    · rw [hexec.timers, hwaits, List.append_nil]

/-- The entry action marks the chunk under way, if there is one. -/
def settle : Option ℕ → List ChunkState → List ChunkState
  | none, states => states
  | some chunkId, states => states.set chunkId .uploaded

/-- If `evt` raises the completion, then with every chunk uploaded or being acknowledged. -/
def RaisedAtEnd (chunks : ℕ) (evt : Option Event) (u u' : Upload) : Prop :=
  completions u'.log = completions u.log ∨
    ∀ chunkId < chunks, u.machine.chunkStates[chunkId]? = some .uploaded ∨
      u.machine.chunkStates[chunkId]? = some .uploading ∧
        ∃ uploadKey, evt = some (.chunkSuccess chunkId uploadKey)

/-- The transitions with `DoChunkUpload`. -/
theorem ChunkInv.of_chunkStep (h : ChunkInv chunks words u current) {states : List ChunkState}
    {evt : Event}
    (hexec : u.Executes u' events [] [] effects) (hevents : events ≤ u.inFlight)
    (hinner : inner events = 0) (hstate : u'.machine.state = .uploadChunk)
    (hcompletions : completions u.log = []) (hcurrent : ∀ id ∈ current, id ∈ postedChunks u.log)
    (hevt : ∀ id ∈ current, ∃ uploadKey, evt = .chunkSuccess id uploadKey)
    (hstep : ChunkStep u.machine effects states)
    (hsettle : u'.machine.chunkStates = settle current states) (hwaits : waits effects = [])
    (hpassed : ∀ x ∈ chunkAssertions, x ∈ effects →
      x = keyAssertion ∧ u.machine.uploadKey = "" ∧
        ChunkState.needsUpload ∉ u.machine.chunkStates) :
    ∃ current', ChunkInv chunks words u' current' ∧ RaisedAtEnd chunks evt u u' := by
  have hack' : acknowledgedAssertion ∉ u'.log := by
    rw [hexec.log, List.mem_append, not_or]
    refine ⟨h.acknowledged, fun hmem => ?_⟩
    have := (hpassed acknowledgedAssertion (by simp [chunkAssertions]) hmem).1
    simp [acknowledgedAssertion, keyAssertion] at this
  have herrors : ∀ ec description, .error ec description ∈ u'.inFlight →
      .error ec description ∈ raised u'.log := by
    intro ec description hmem
    rw [hexec.log, raised_append, List.mem_append]
    rw [hexec.inFlight, Multiset.mem_add] at hmem
    exact hmem.imp (fun hm => h.errors _ _ (Multiset.mem_of_le hevents hm)) (fun hm => hm)
  have hwaiting {es : Multiset Event} {cs : List ApiRequest}
      (hes : inner (raised effects : Multiset Event) = es) (hcs : issued effects = cs) :
      u'.Waiting .uploadChunk es cs :=
    ⟨hstate, by rw [hexec.inFlight, inner_add, hinner, zero_add, hes],
      by rw [hexec.calls, hcs, List.nil_append], by rw [hexec.timers, hwaits]; rfl⟩
  have hsettled : settle current (chunkStatesAt chunks words (postedChunks u.log) current) =
      chunkStatesAt chunks words (postedChunks u.log) none := by
    cases current with
    | none => rfl
    | some chunkId => exact set_chunkStatesAt_acknowledge (hcurrent chunkId rfl)
  have hnochunk (hissued : issued effects = []) (hs : states = u.machine.chunkStates) :
      postedChunks u'.log = postedChunks u.log ∧
        u'.machine.chunkStates = chunkStatesAt chunks words (postedChunks u'.log) none := by
    have hp : postedChunks u'.log = postedChunks u.log := by
      rw [hexec.posted, postedChunks_of_issued hissued, List.append_nil]
    exact ⟨hp, by rw [hsettle, hs, h.states, hsettled, hp]⟩
  cases hstep with
  | failed ec description hraised hissued hs =>
    obtain ⟨hp, hstates⟩ := hnochunk hissued hs
    have hcomp : completions u'.log = [] := by
      rw [hexec.completions, hcompletions, completions, hraised]
      rfl
    refine ⟨none, ⟨h.lt, hstates, hp ▸ h.nodup, hp ▸ h.missing, hack', herrors,
      .failed (hwaiting (by rw [hraised]; rfl) hissued) ⟨ec, description, ?_⟩ hcomp⟩,
      .inl (hcomp.trans hcompletions.symm)⟩
    rw [hexec.log, raised_append, hraised]
    exact List.mem_append_right _ (List.mem_singleton_self _)
  | posted next request hnext hraised hissued hs =>
    rw [h.states] at hnext
    obtain ⟨hlt, hbit, hnew⟩ := needsUpload_chunkStatesAt hnext
    have hp : postedChunks u'.log = postedChunks u.log ++ [next] := by
      have hone : postedChunks effects = [next] := by rw [postedChunks, hissued]; rfl
      rw [hexec.posted, hone]
    have hstates : u'.machine.chunkStates =
        chunkStatesAt chunks words (postedChunks u'.log) (some next) := by
      have hcomm : settle current (u.machine.chunkStates.set next .uploading) =
          (settle current u.machine.chunkStates).set next .uploading := by
        cases current with
        | none => rfl
        | some chunkId =>
          have hne : next ≠ chunkId := by
            rintro rfl
            exact hnew (hcurrent next rfl)
          exact List.set_comm _ _ hne
      rw [hsettle, hs, hcomm, h.states, hsettled, set_chunkStatesAt_post hbit, hp]
    have hcomp : completions u'.log = [] := by
      rw [hexec.completions, hcompletions, completions_of_raised hraised]
      rfl
    refine ⟨some next, ⟨h.lt, hstates, ?_, ?_, hack', herrors,
      .sent next request (hwaiting (by rw [hraised]; rfl) hissued) ?_ hcomp⟩,
      .inl (hcomp.trans hcompletions.symm)⟩
    · rw [hp]
      exact List.nodup_append.mpr ⟨h.nodup, List.nodup_singleton _, by
        rintro a ha b hb rfl
        exact hnew (List.mem_singleton.mp hb ▸ ha)⟩
    · intro chunkId hmem
      rw [hp] at hmem
      rcases List.mem_append.mp hmem with hmem | hmem
      · exact h.missing chunkId hmem
      · cases List.mem_singleton.mp hmem
        exact ⟨hlt, hbit⟩
    · rw [hp]
      exact List.mem_append_right _ (List.mem_singleton_self _)
  | complete hnone hraised hissued hs =>
    obtain ⟨hp, hstates⟩ := hnochunk hissued hs
    rw [h.states] at hnone
    refine ⟨none, ⟨h.lt, hstates, hp ▸ h.nodup, hp ▸ h.missing, hack', herrors,
      .complete u.machine.uploadKey (hwaiting (by rw [hraised]; rfl) hissued) ?_ ?_⟩,
      .inr fun chunkId hlt => ?_⟩
    · intro chunkId hlt hbit
      rw [hp]
      exact mem_posted_of_needsUpload_notMem hnone hlt hbit
    · rw [hexec.completions, hcompletions, completions, hraised]
      rfl
    · have hmem (hbit : bitAt words chunkId = false) : chunkId ∈ postedChunks u.log :=
        mem_posted_of_needsUpload_notMem hnone hlt hbit
      rw [h.states, getElem?_chunkStatesAt hlt, chunkStateAt]
      by_cases hbit : bitAt words chunkId = true
      · exact .inl (by rw [if_pos hbit])
      · rw [if_neg hbit, if_pos (hmem (by simpa using hbit))]
        by_cases hcur : current = some chunkId
        · obtain ⟨uploadKey, rfl⟩ := hevt chunkId hcur
          exact .inr ⟨by rw [if_pos hcur], uploadKey, rfl⟩
        · exact .inl (by rw [if_neg hcur])

theorem Phase.calls_ne_nil (h : Phase chunks words u current) {i : ℕ} {r : ApiRequest}
    (hcall : u.calls[i]? = some r) :
    (∃ chunkId request, current = some chunkId ∧ i = 0 ∧ r = .chunkUpload chunkId request ∧
      u.Waiting .uploadChunk 0 [.chunkUpload chunkId request] ∧
      chunkId ∈ postedChunks u.log ∧ completions u.log = []) ∨
    u.machine.state = .pollUpload ∨ u.machine.state.isTerminal = true := by
  cases h with
  | checked hwait _ _ => simp [hwait.calls] at hcall
  | sent chunkId request hwait hposted hcompletions =>
    rw [hwait.calls] at hcall
    obtain ⟨hi, hr⟩ := List.getElem?_eq_some_iff.mp hcall
    obtain rfl : i = 0 := by simpa using hi
    exact .inl ⟨chunkId, request, rfl, rfl, hr.symm, hwait, hposted, hcompletions⟩
  | answered _ _ hwait _ _ => simp [hwait.calls] at hcall
  | failed hwait _ _ => simp [hwait.calls] at hcall
  | complete _ hwait _ _ => simp [hwait.calls] at hcall
  | polling _ hstate _ _ _ _ => exact .inr (.inl hstate)
  | ended _ hstate _ _ => exact .inr (.inr hstate)

/-- A wait for the poll timer comes after the chunks. -/
theorem Phase.after_of_timer (h : Phase chunks words u current) {i : ℕ} {uploadKey : String}
    (htimer : u.timers[i]? = some uploadKey) :
    u.machine.state = .pollUpload ∨ u.machine.state.isTerminal = true := by
  cases h with
  | polling _ hstate _ _ _ _ => exact .inl hstate
  | ended _ hterm _ _ => exact .inr hterm
  | checked hwait _ _ => simp [hwait.timers] at htimer
  | sent _ _ hwait _ _ => simp [hwait.timers] at htimer
  | answered _ _ hwait _ _ => simp [hwait.timers] at htimer
  | failed hwait _ _ => simp [hwait.timers] at htimer
  | complete _ hwait _ _ => simp [hwait.timers] at htimer

/-- The chunks are behind: the upload polls or has ended. -/
theorem Phase.of_after (h : Phase chunks words u current)
    (hafter : u.machine.state = .pollUpload ∨ u.machine.state.isTerminal = true) :
    (current = none ∧ u.machine.state = .pollUpload ∧
      (∀ e ∈ inner u.inFlight, ∃ quickkey filename revision,
        e = .pollComplete quickkey filename revision) ∧
      (∀ r ∈ u.calls, ∃ key, r = .pollUpload key) ∧ Covered chunks words u ∧
      ∃ uploadKey, completions u.log = [uploadKey]) ∨
    (u.machine.state.isTerminal = true ∧
      ((completions u.log = [] ∧ ∃ ec description, .error ec description ∈ raised u.log) ∨
        ∃ uploadKey, completions u.log = [uploadKey] ∧ Covered chunks words u)) := by
  have hno {s : State} {es : Multiset Event} {cs : List ApiRequest} (hw : u.Waiting s es cs)
      (hs : s ≠ .pollUpload) (hlive : s.isTerminal = false) : False := by
    rw [hw.state, hlive] at hafter
    exact hafter.elim hs (by simp)
  cases h with
  | polling key hstate hinner hcalls hcovered hcompletions =>
    exact .inl ⟨rfl, hstate, hinner, hcalls, hcovered, key, hcompletions⟩
  | ended _ hterm _ hend => exact .inr ⟨hterm, hend⟩
  | checked hwait _ _ => exact (hno hwait (by decide) rfl).elim
  | sent _ _ hwait _ _ => exact (hno hwait (by decide) rfl).elim
  | answered _ _ hwait _ _ => exact (hno hwait (by decide) rfl).elim
  | failed hwait _ _ => exact (hno hwait (by decide) rfl).elim
  | complete _ hwait _ _ => exact (hno hwait (by decide) rfl).elim

/-- The event that a phase can see handled next, `events` left in flight. -/
inductive Handles (chunks : ℕ) (words : List ℕ) (u : Upload) (events : Multiset Event) :
    Option ℕ → Event → Prop
  | first (hwait : u.Waiting .inUploadCheck {.needsChunkUpload} []) (hinner : inner events = 0)
      (hposted : postedChunks u.log = []) (hcompletions : completions u.log = []) :
    Handles chunks words u events none .needsChunkUpload
  | acknowledge (chunkId : ℕ) (uploadKey : String)
      (hwait : u.Waiting .uploadChunk {.chunkSuccess chunkId uploadKey} [])
      (hinner : inner events = 0) (hposted : chunkId ∈ postedChunks u.log)
      (hcompletions : completions u.log = []) :
    Handles chunks words u events (some chunkId) (.chunkSuccess chunkId uploadKey)
  | complete (uploadKey : String)
      (hwait : u.Waiting .uploadChunk {.chunkUploadComplete uploadKey} [])
      (hinner : inner events = 0) (hcovered : Covered chunks words u)
      (hcompletions : completions u.log = [uploadKey]) :
    Handles chunks words u events none (.chunkUploadComplete uploadKey)
  | polled (quickkey filename : String) (revision : ℕ) (hstate : u.machine.state = .pollUpload) :
    Handles chunks words u events none (.pollComplete quickkey filename revision)
  | outside (current : Option ℕ) (evt : Event) (houtside : isOutside evt = true)
      (hstate : u.machine.state ∈ [State.inUploadCheck, .uploadChunk, .pollUpload]) :
    Handles chunks words u events current evt
  | dropped (current : Option ℕ) (evt : Event) (hterm : u.machine.state.isTerminal = true) :
    Handles chunks words u events current evt

theorem Phase.handles (h : Phase chunks words u current) {evt : Event}
    (hrest : u.inFlight = evt ::ₘ events) : Handles chunks words u events current evt := by
  -- an inner event is the one that the phase waits for
  have hinside {s : State} {e : Event} {cs : List ApiRequest} (hw : u.Waiting s {e} cs)
      (hin : isOutside evt = false) : evt = e ∧ inner events = 0 := by
    have hone := hw.inner
    rw [hrest, inner_cons_inside hin] at hone
    obtain ⟨rfl, hzero⟩ := (Multiset.singleton_eq_cons_iff _).mp hone.symm
    exact ⟨rfl, hzero⟩
  have hno {s : State} {cs : List ApiRequest} (hw : u.Waiting s 0 cs)
      (hin : isOutside evt = false) : False := by
    have hnone := hw.inner
    rw [hrest, inner_cons_inside hin] at hnone
    exact Multiset.cons_ne_zero hnone
  by_cases hterm : u.machine.state.isTerminal = true
  · exact .dropped _ _ hterm
  by_cases hout : isOutside evt = true
  · refine .outside _ _ hout ?_
    cases h with
    | checked hwait _ _ => simp [hwait.state]
    | sent _ _ hwait _ _ => simp [hwait.state]
    | answered _ _ hwait _ _ => simp [hwait.state]
    | failed hwait _ _ => simp [hwait.state]
    | complete _ hwait _ _ => simp [hwait.state]
    | polling _ hstate _ _ _ _ => simp [hstate]
    | ended _ hend _ _ => exact absurd hend hterm
  have hin : isOutside evt = false := by simpa using hout
  cases h with
  | checked hwait hposted hcompletions =>
    obtain ⟨rfl, hzero⟩ := hinside hwait hin
    exact .first hwait hzero hposted hcompletions
  | sent _ _ hwait _ _ => exact (hno hwait hin).elim
  | answered chunkId uploadKey hwait hposted hcompletions =>
    obtain ⟨rfl, hzero⟩ := hinside hwait hin
    exact .acknowledge chunkId uploadKey hwait hzero hposted hcompletions
  | failed hwait _ _ => exact (hno hwait hin).elim
  | complete uploadKey hwait hcovered hcompletions =>
    obtain ⟨rfl, hzero⟩ := hinside hwait hin
    exact .complete uploadKey hwait hzero hcovered hcompletions
  | polling _ hstate hinner _ _ _ =>
    obtain ⟨quickkey, filename, revision, rfl⟩ := hinner evt (by
      rw [hrest, inner_cons_inside hin]
      exact Multiset.mem_cons_self ..)
    exact .polled quickkey filename revision hstate
  | ended _ hend _ _ => exact absurd hend hterm

/-- The chunk under way is `Uploading`. -/
theorem ChunkInv.uploading {chunkId : ℕ} (h : ChunkInv chunks words u (some chunkId))
    (hposted : chunkId ∈ postedChunks u.log) :
    u.machine.chunkStates[chunkId]? = some .uploading := by
  obtain ⟨hlt, hbit⟩ := h.missing chunkId hposted
  rw [h.states, getElem?_chunkStatesAt hlt]
  simp [chunkStateAt, hbit, hposted]

theorem ChunkInv.length_le (h : ChunkInv chunks words u current) :
    u.machine.chunkStates.length ≤ 2 ^ 32 := by
  rw [h.states, length_chunkStatesAt]
  exact h.lt.le

/-- An event handled. -/
theorem ChunkInv.event (h : ChunkInv chunks words u current) {evt : Event} {w : World}
    (hrest : u.inFlight = evt ::ₘ events)
    (hexec : u.Executes u' events u.calls u.timers (u.machine.fire w evt)) :
    ∃ current', ChunkInv chunks words u' current' ∧ RaisedAtEnd chunks evt u u' := by
  have hle : events ≤ u.inFlight := hrest ▸ Multiset.le_cons_self ..
  have hkeep {current' : Option ℕ}
      (hk : ChunkInv chunks words u' current' ∧ completions u'.log = completions u.log) :
      ∃ current', ChunkInv chunks words u' current' ∧ RaisedAtEnd chunks evt u u' :=
    ⟨current', hk.1, .inl hk.2⟩
  cases h.phase.handles hrest with
  | first hwait hinner hposted hcompletions =>
    obtain ⟨hstep, hwaits, -⟩ := chunkStep_needsChunkUpload hwait.state h.length_le hexec.defined
    rw [hwait.calls, hwait.timers] at hexec
    refine h.of_chunkStep hexec hle hinner ?_ hcompletions (by simp) (by simp) hstep ?_ hwaits
      (passed_needsChunkUpload hwait.state h.length_le)
    · rw [hexec.machine]
      exact UploadStateMachine.applyAll_fire_row_state (show transitionTable _ _ _ =
        some (_, .doChunkUpload) by rw [hwait.state]; rfl)
    · rw [hexec.machine]; rfl
  | acknowledge chunkId uploadKey hwait hinner hposted hcompletions =>
    have hack := acknowledgeStep_chunkSuccess hwait.state h.length_le (h.uploading hposted)
      hexec.defined
    obtain ⟨states, hstep, hstates⟩ := hack.chunks
    rw [hwait.calls, hwait.timers] at hexec
    refine h.of_chunkStep hexec hle hinner ?_ hcompletions ?_ ?_ hstep ?_ hack.waits
      hack.passed
    · rw [hexec.machine]
      exact UploadStateMachine.applyAll_fire_row_state (show transitionTable _ _ _ =
        some (_, .doChunkUpload) by rw [hwait.state]; rfl)
    · rintro id ⟨⟩
      exact hposted
    · rintro id ⟨⟩
      exact ⟨uploadKey, rfl⟩
    · rw [hexec.machine, hstates]; rfl
  | complete uploadKey hwait hinner hcovered hcompletions =>
    obtain ⟨hleaves, hstate, hraised, hissued, hwaits⟩ :=
      fire_chunkUploadComplete (w := w) uploadKey hwait.state
    have hpost : postedChunks (u.machine.fire w (.chunkUploadComplete uploadKey)) = [] := by
      rw [postedChunks, hissued, startPoll]
      split_ifs <;> rfl
    have hcomp : completions (u.machine.fire w (.chunkUploadComplete uploadKey)) = [] := by
      rw [completions, hraised, startPoll]
      split_ifs <;> rfl
    refine hkeep (h.keep hexec hle hleaves hpost hcomp (.polling uploadKey ?_ ?_ ?_
      (hcovered.of_executes hexec) ?_))
    · rw [hexec.machine, hstate]
    · intro e he
      rw [hexec.inFlight, inner_add, hinner, zero_add, hraised, startPoll] at he
      split_ifs at he
      · have hnil : inner (raised [.assertion "Reached poll upload without upload key",
            .processEvent (.error (.upload .logicError) "Filsize unavailable.")] :
              Multiset Event) = 0 := rfl
        rw [hnil] at he
        exact absurd he (Multiset.notMem_zero e)
      · simp [inner, raised] at he
    · intro r hr
      rw [hexec.calls, hwait.calls, List.nil_append, hissued, startPoll] at hr
      split_ifs at hr
      · simp [issued] at hr
      · exact ⟨uploadKey, by simpa [issued] using hr⟩
    · rw [hexec.completions, hcompletions, hcomp]; rfl
  | polled quickkey filename revision hstate =>
    obtain ⟨hleaves, hinert, hend⟩ := 
      fire_pollComplete (w := w) quickkey filename revision hstate
    rcases h.phase.of_after (.inl hstate) with ⟨-, -, -, hcalls, hcovered, uploadKey, hkey⟩ |
      ⟨hterm, -⟩
    · refine hkeep (h.keep hexec hle hleaves (postedChunks_of_issued hinert.2.1)
        (completions_of_raised hinert.1)
        (.ended _ ?_ ?_ (.inr ⟨uploadKey, ?_, hcovered.of_executes hexec⟩)))
      · rw [hexec.machine, hend]; rfl
      · rw [hexec.calls, hinert.2.1, List.append_nil]
        exact fun r hr => .inl (hcalls r hr)
      · rw [hexec.completions, hkey, completions_of_raised hinert.1]; rfl
    · rw [hstate] at hterm
      cases hterm
  | outside _ _ hout hstate => exact hkeep (h.outside hstate hout hrest hexec)
  | dropped _ _ hterm =>
    rw [UploadStateMachine.fire_terminal hterm] at hexec
    rcases h.phase.of_after (.inr hterm) with ⟨-, hpoll, -⟩ | ⟨-, hend⟩
    · rw [hpoll] at hterm
      cases hterm
    · refine hkeep (h.keep hexec hle (leavesChunks_of_forall (by simp)) rfl rfl (.ended _ ?_ ?_ ?_))
      · rw [hexec.machine]; exact hterm
      · rw [hexec.calls]; simpa [issued] using h.phase.outstanding
      · rw [hexec.completions, show completions [] = [] from rfl, List.append_nil]
        rcases hend with ⟨hc, he⟩ | ⟨key, hc, hcov⟩
        · exact .inl ⟨hc, hexec.error_mem_raised he⟩
        · exact .inr ⟨key, hc, hcov.of_executes hexec⟩

/-- While polling or after the end, effects of a handler that post no chunk. -/
theorem ChunkInv.after (h : ChunkInv chunks words u current)
    (hstate : u.machine.state = .pollUpload ∨ u.machine.state.isTerminal = true)
    (hexec : u.Executes u' u.inFlight calls timers effects) (hcalls : calls ⊆ u.calls)
    (hsame : (u.machine.applyAll effects).state = u.machine.state)
    (hleaves : LeavesChunks u.machine effects)
    (hraised : ∀ e ∈ raised effects, isOutside e = true ∨
      (∃ quickkey filename revision, e = .pollComplete quickkey filename revision) ∨
      u.machine.state ≠ .pollUpload ∧ ∃ chunkId key, e = .chunkSuccess chunkId key)
    (hissued : ∀ r ∈ issued effects, ∃ key, r = .pollUpload key) :
    ChunkInv chunks words u' current ∧ completions u'.log = completions u.log := by
  have hcomp : completions effects = [] := by
    refine List.filterMap_eq_nil_iff.mpr fun e he => ?_
    rcases hraised e he with hout | ⟨_, _, _, rfl⟩ | ⟨-, _, _, rfl⟩
    · cases e <;> first | rfl | cases hout
    · rfl
    · rfl
  have hpost : postedChunks effects = [] := by
    refine List.filterMap_eq_nil_iff.mpr fun r hr => ?_
    obtain ⟨key, rfl⟩ := hissued r hr
    rfl
  have hcompletions : completions u'.log = completions u.log := by
    rw [hexec.completions, hcomp, List.append_nil]
  refine h.keep hexec le_rfl hleaves hpost hcomp ?_
  rcases h.phase.of_after hstate with ⟨rfl, hpoll, hinner, hpolls, hcovered, key, hkey⟩ |
    ⟨hterm, hend⟩
  · refine .polling key (by rw [hexec.machine, hsame, hpoll]) ?_ ?_ (hcovered.of_executes hexec)
      (hcompletions.trans hkey)
    · intro e he
      rw [hexec.inFlight, inner_add, Multiset.mem_add] at he
      rcases he with he | he
      · exact hinner e he
      · obtain ⟨hmem, hin⟩ := Multiset.mem_filter.mp he
        rcases hraised e hmem with hout | hpoll' | ⟨hne, -⟩
        · rw [hout] at hin; cases hin
        · exact hpoll'
        · exact absurd hpoll hne
    · intro r hr
      rw [hexec.calls, List.mem_append] at hr
      exact hr.elim (fun hr => hpolls r (hcalls hr)) (hissued r)
  · refine .ended _ (by rw [hexec.machine, hsame, hterm]) ?_ ?_
    · intro r hr
      rw [hexec.calls, List.mem_append] at hr
      exact hr.elim (fun hr => h.phase.outstanding r (hcalls hr)) (fun hr => .inl (hissued r hr))
    · rw [hcompletions]
      exact hend.imp (fun ⟨hc, he⟩ => ⟨hc, hexec.error_mem_raised he⟩)
        (fun ⟨key, hc, hcov⟩ => ⟨key, hc, hcov.of_executes hexec⟩)

/-- A response. -/
theorem ChunkInv.answer (h : ChunkInv chunks words u current) {keys : Set String} {i : ℕ}
    {response : Response} {request : ApiRequest}
    (hack : AcknowledgesChunks keys u (.answer i response) u')
    (hcall : u.calls[i]? = some request)
    (hresponse : handleResponse u.machine request response = some effects)
    (hexec : u.Executes u' u.inFlight (u.calls.eraseIdx i) u.timers effects) :
    ChunkInv chunks words u' current ∧ completions u'.log = completions u.log := by
  rcases h.phase.calls_ne_nil hcall with ⟨chunkId, post, rfl, rfl, rfl, hwait, hposted, hcomp⟩ |
    hafter
  · obtain ⟨key, -, hkey⟩ := hack 0 response chunkId post rfl hcall
    cases hresponse.symm.trans hkey
    refine h.keep hexec le_rfl (leavesChunks_raise _ _) rfl rfl
      (.answered chunkId key ⟨?_, ?_, ?_, ?_⟩ ?_ ?_)
    · rw [hexec.machine]; exact hwait.state
    · rw [hexec.inFlight, inner_add, hwait.inner, zero_add]; rfl
    · rw [hexec.calls, hwait.calls]; rfl
    · rw [hexec.timers, hwait.timers]; rfl
    · rw [hexec.posted]; exact List.mem_append_left _ hposted
    · rw [hexec.completions, hcomp]; rfl
  · rcases h.phase.outstanding request
      (List.mem_of_getElem? hcall) with ⟨key, rfl⟩ | ⟨chunkId, post, rfl⟩
    · obtain ⟨poll, rfl⟩ : ∃ poll, response = .poll poll := by
        cases response <;> first | exact ⟨_, rfl⟩ | cases hresponse
      obtain rfl : handlePollResponse key u.machine poll = effects := Option.some.inj hresponse
      rcases handlePollResponse_cases key u.machine poll with ⟨_, _, he⟩ | ⟨_, _, _, he⟩ | he <;>
        rw [he] at hexec
      · exact h.after hafter hexec (List.eraseIdx_subset ..) rfl (leavesChunks_raise _ _)
          (by simp [raised, isOutside]) (by simp [issued])
      · exact h.after hafter hexec (List.eraseIdx_subset ..) rfl (leavesChunks_raise _ _)
          (by simp [raised]) (by simp [issued])
      · exact h.after hafter hexec (List.eraseIdx_subset ..) rfl
          (leavesChunks_of_forall (by simp [UploadStateMachine.apply])) (by simp [raised])
          (by simp [issued])
    · obtain ⟨key, -, hkey⟩ := hack i response chunkId post rfl hcall
      cases hresponse.symm.trans hkey
      have hne : u.machine.state ≠ .pollUpload := by
        intro hpoll
        rcases h.phase.of_after hafter with ⟨-, -, -, hpolls, -⟩ | ⟨hterm, -⟩
        · obtain ⟨_, hbad⟩ := hpolls _ (List.mem_of_getElem? hcall)
          cases hbad
        · rw [hpoll] at hterm
          cases hterm
      exact h.after hafter hexec (List.eraseIdx_subset ..) rfl (leavesChunks_raise _ _)
        (by simp [raised, hne]) (by simp [issued])

/-- The timer of a poll. -/
theorem ChunkInv.retry (h : ChunkInv chunks words u current) {i : ℕ} {uploadKey : String}
    {err : Bool} (htimer : u.timers[i]? = some uploadKey)
    (hexec : u.Executes u' u.inFlight u.calls (u.timers.eraseIdx i) (retryPoll uploadKey err)) :
    ChunkInv chunks words u' current ∧ completions u'.log = completions u.log := by
  have hafter := h.phase.after_of_timer htimer
  unfold retryPoll at hexec
  split_ifs at hexec
  · exact h.after hafter hexec (List.Subset.refl _) rfl (leavesChunks_of_forall (by simp))
      (by simp [raised]) (by simp [issued])
  · refine h.after hafter hexec (List.Subset.refl _) ?_ leavesChunks_startPoll ?_ ?_
    · unfold startPoll
      split_ifs <;> rfl
    · unfold startPoll
      split_ifs <;> simp [raised, isOutside]
    · unfold startPoll
      split_ifs <;> simp [issued]

end Step

theorem ChunkInv.step {chunks : ℕ} {words : List ℕ} {u u' : Upload} {current : Option ℕ}
    {keys : Set String} {act : Act} (h : ChunkInv chunks words u current)
    (hack : AcknowledgesChunks keys u act u') (hs : u.step act = some u') :
    ∃ current', ChunkInv chunks words u' current' ∧
      RaisedAtEnd chunks (u.handled act) u u' := by
  cases step_cases hs with
  | arrive houtside hexec =>
    exact ⟨current, (h.arrive houtside hexec).1, .inl (h.arrive houtside hexec).2⟩
  | event w hact hrest hexec => exact hact ▸ h.event hrest hexec
  | answer hcall hresponse hexec =>
    obtain ⟨hinv, hsame⟩ := h.answer hack hcall hresponse hexec
    exact ⟨current, hinv, .inl hsame⟩
  | retryPoll htimer hexec =>
    exact ⟨current, (h.retry htimer hexec).1, .inl (h.retry htimer hexec).2⟩

theorem chunkInv_needingChunks {chunks : ℕ} {words : List ℕ} {m : UploadStateMachine}
    (h : BitmapInstalled chunks words m) : ChunkInv chunks words (needingChunks m) none := by
  obtain ⟨hlt, hstates⟩ := setBitmap_eq_some_iff.mp h.bitmap
  refine ⟨hlt, ?_, List.nodup_nil, fun _ hmem => absurd hmem List.not_mem_nil, List.not_mem_nil,
    ?_, .checked ⟨h.state, rfl, rfl, rfl⟩ rfl rfl⟩
  · exact hstates.trans chunkStatesAt_nil.symm
  · intro ec description hmem
    exact absurd hmem (by simp [inFlight, needingChunks])

end MediafireSdk.Uploader.Upload
