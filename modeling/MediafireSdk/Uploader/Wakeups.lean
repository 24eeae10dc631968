import MediafireSdk.Uploader.ActionToken

/-! Wakeups of the upload manager. When nothing is posted and no callback is about to
post a `Tick`, files that wait to be hashed find all slots taken, and files that wait
for their upload find the token on its way, or all slots taken, or their hashes in use.
`DecrementHashingCount` posts its `Tick` before it gives the slot back: the slot is
lost to the waiting files when that `Tick` has run in between and none follows. -/

namespace MediafireSdk.Uploader

/-! ### The slot a machine counts -/

namespace UploadStateMachine

/-- `count_state_` in the states up to the start of the upload. -/
def CountMatches (m : UploadStateMachine) : Prop :=
  match m.state with
  | .initial => m.countState = .none ∧ m.hash = ""
  | .waitForHashSignal => m.countState = .none
  | .setupHasher | .hashing | .waitForUploadSignal => m.countState = .hashing
  | _ => True

variable {m : UploadStateMachine} {w : World} {evt : Event}

theorem countState_setCountState (m' : UploadStateMachine) (cs : CountState) :
    (m'.applyAll (m.setCountState cs)).countState = cs := by
  unfold setCountState
  rw [applyAll_append]
  rfl

/-- The rows by what the count of the target depends on. -/
theorem row_countState {start target : State} {hasHash : Bool} {action : Action}
    (h : transitionTable start evt hasHash = some (target, action)) :
    start = .initial ∧ target = .waitForHashSignal ∨
    target = .setupHasher ∨
    (start = .setupHasher ∨ start = .hashing) ∧ target = .hashing ∨
    (start = .initial ∧ hasHash = true ∨ start = .hashing) ∧ target = .waitForUploadSignal ∨
    target.isUploading = true ∨ target.isTerminal = true := by
  unfold transitionTable at h
  split at h <;> try split_ifs at h
  all_goals cases h
  all_goals simp_all [State.isUploading, State.isTerminal]

/-- Every transition leaves the count that belongs to its target. -/
theorem CountMatches.fire (h : m.CountMatches) : (m.applyAll (m.fire w evt)).CountMatches := by
  by_cases hterm : m.state.isTerminal = true
  · rw [fire_terminal hterm]
    exact h
  cases hrow : transitionTable m.state evt (m.hash ≠ "") with
  | none =>
    rw [fire_noTransition (by simpa using hterm) hrow]
    exact h
  | some row =>
    obtain ⟨target, action⟩ := row
    have hacted : (m.acted w evt action).countState = m.countState := acted_countState
    rw [fire_row hrow, applyAll_append, applyAll_append, applyAll_append]
    change CountMatches { (m.acted w evt action).applyAll
      (onEntry (m.acted w evt action) target evt) with state := target }
    generalize m.acted w evt action = m' at hacted
    unfold CountMatches at h
    rcases row_countState hrow with ⟨hs, rfl⟩ | rfl | ⟨hs, rfl⟩ | ⟨hs, rfl⟩ | htarget | htarget
    · rw [hs] at h
      exact hacted.trans h.1
    · change (m'.applyAll (setupHasherOnEntry m')).countState = .hashing
      unfold setupHasherOnEntry
      rw [applyAll_append]
      refine Eq.trans ?_ (countState_setCountState (m := m') m' .hashing)
      split <;> rfl
    · have hcount : m.countState = .hashing := by rcases hs with hs | hs <;> rw [hs] at h <;> exact h
      change (m'.applyAll (onEntry m' .hashing evt)).countState = .hashing
      refine (applyAll_same (·.countState) fun x hx m'' => ?_).trans (hacted.trans hcount)
      have hsilent := silent_onEntry_working (s := .hashing) rfl x hx
      cases x with
      | write w =>
        cases w with
        | countState cs => exact absurd rfl (hsilent.2.2 cs)
        | _ => rfl
      | _ => rfl
    · rcases hs with ⟨hs, hhash⟩ | hs <;> rw [hs] at h
      · simp [h.2] at hhash
      · exact hacted.trans h
    all_goals cases target <;> trivial

end UploadStateMachine

/-- The machine when the event it handles is done. -/
def settle : UploadStateMachine → List Task → UploadStateMachine
  | m, [] => m
  | m, .own x :: todo => settle (m.apply x) todo
  | m, _ :: todo => settle m todo

theorem settle_append (m : UploadStateMachine) (xs ys : List Task) :
    settle m (xs ++ ys) = settle (settle m xs) ys := by
  induction xs generalizing m with
  | nil => rfl
  | cons t xs ih => cases t <;> exact ih _

theorem settle_tasks (m : UploadStateMachine) (effects : List Effect) :
    settle m (tasks effects) = m.applyAll effects := by
  induction effects generalizing m with
  | nil => rfl
  | cons x xs ih =>
    rw [tasks_cons, settle_append, ih]
    cases x with
    | callback c => cases c <;> rfl
    | _ => rfl

/-! ### Ticks to come -/

/-- The tasks after which something may be there to start, the end of hashing apart. -/
def Task.frees : Task → Bool
  | .own (.write (.completeHashData _ _ _)) => true
  | .body .handleAddToHash | .body .handleAddToUpload => true
  | .body .handleComplete | .body .decrementUploadingCount => true
  | _ => false

/-- Each of them is followed by `EnqueueTick`. -/
def Notified : List Task → Prop
  | [] => True
  | t :: todo => (t.frees = true → .enqueueTick ∈ todo) ∧ Notified todo

theorem notified_of_not_frees {todo : List Task} (h : ∀ t ∈ todo, t.frees = false) :
    Notified todo := by
  induction todo with
  | nil => trivial
  | cons t todo ih =>
    refine ⟨fun ht => ?_, ih fun t' ht' => h t' (List.mem_cons_of_mem t ht')⟩
    rw [h t List.mem_cons_self] at ht
    cases ht

/-- A tick further on serves all that comes before it. -/
theorem Notified.append {xs ys : List Task} (hys : Notified ys)
    (htick : .enqueueTick ∈ ys ∨ ∀ t ∈ xs, t.frees = false) : Notified (xs ++ ys) := by
  induction xs with
  | nil => exact hys
  | cons t xs ih =>
    refine ⟨fun ht => ?_, ih (htick.imp id fun h t' ht' => h t' (List.mem_cons_of_mem t ht'))⟩
    rcases htick with htick | hfree
    · exact List.mem_append_right xs htick
    · rw [hfree t List.mem_cons_self] at ht
      cases ht

section Fire
variable {w : World} {m : UploadStateMachine} {evt : Event}

/-- What ends with a callback that posts its tick last. -/
theorem notified_callback {before after : List Effect} {c : Callback}
    (hc : c.tasks = [.body c, .enqueueTick]) (hafter : ∀ t ∈ tasks after, t.frees = false) :
    Notified (tasks (before ++ .callback c :: after)) := by
  rw [tasks_append, tasks_cons, Effect.tasks, hc]
  refine Notified.append ?_ (.inl (by simp))
  exact ⟨fun _ => by simp, by simp [Task.frees], notified_of_not_frees hafter⟩

/-- Effects without callbacks and hash data. -/
theorem frees_of_silent {effects : List Effect} (h : ∀ x ∈ effects, Silent x)
    (hdata : ∀ hash ranges hashes, .write (.completeHashData hash ranges hashes) ∉ effects) :
    ∀ t ∈ tasks effects, t.frees = false := by
  intro t ht
  obtain ⟨x, hx, htask⟩ := List.mem_flatMap.mp ht
  rw [(h x hx).tasks, List.mem_singleton] at htask
  subst htask
  cases x with
  | write w =>
    cases w with
    | completeHashData hash ranges hashes => exact absurd hx (hdata hash ranges hashes)
    | _ => rfl
  | _ => rfl

theorem frees_action {action : Action} (h : action ≠ .saveHash) :
    ∀ t ∈ tasks (action.effects w m evt), t.frees = false :=
  frees_of_silent (fun _ hx => (fromAction_effects hx).silent) fun _ _ _ hmem =>
    h (action_of_hashData hmem)

/-- An exit action frees nothing. -/
theorem frees_onExit {s : State} : ∀ t ∈ tasks (onExit w m s), t.frees = false := by
  intro t ht
  obtain ⟨x, hx, htask⟩ := List.mem_flatMap.mp ht
  cases fromExit_onExit hx <;> simp only [Effect.tasks, Callback.tasks, List.mem_cons,
    List.not_mem_nil, or_false] at htask
  case removeToHash | removeToUpload => rcases htask with rfl | rfl <;> rfl
  all_goals exact htask ▸ rfl

theorem frees_append {xs ys : List Effect} (hxs : ∀ t ∈ tasks xs, t.frees = false)
    (hys : ∀ t ∈ tasks ys, t.frees = false) : ∀ t ∈ tasks (xs ++ ys), t.frees = false := by
  intro t ht
  rw [tasks_append] at ht
  exact (List.mem_append.mp ht).elim (hxs t) (hys t)

theorem frees_setCountState {cs : CountState} (h : m.countState ≠ .uploading) :
    ∀ t ∈ tasks (m.setCountState cs), t.frees = false := by
  unfold UploadStateMachine.setCountState
  refine frees_append (frees_append ?_ ?_) (by simp [Effect.tasks, Task.frees])
  · cases hm : m.countState with
    | uploading => exact absurd hm h
    | _ => simp [Effect.tasks, Callback.tasks, Task.frees]
  · cases cs <;> simp [Effect.tasks, Callback.tasks, Task.frees]

/-- Every transition posts a tick after what it frees. -/
theorem notified_fire (h : m.CountMatches) : Notified (tasks (m.fire w evt)) := by
  by_cases hterm : m.state.isTerminal = true
  · rw [UploadStateMachine.fire_terminal hterm]
    trivial
  cases hrow : transitionTable m.state evt (m.hash ≠ "") with
  | none =>
    rw [UploadStateMachine.fire_noTransition (by simpa using hterm) hrow]
    exact ⟨by simp [Task.frees], trivial⟩
  | some row =>
    obtain ⟨target, action⟩ := row
    have hacted : (m.acted w evt action).countState = m.countState := acted_countState
    have hwrite : ∀ t ∈ tasks [.write (.state target)], t.frees = false := by
      simp [Effect.tasks, Task.frees]
    have hexit := frees_onExit (w := w) (m := m) (s := m.state)
    rw [UploadStateMachine.fire_row hrow, List.append_assoc]
    generalize m.acted w evt action = m' at hacted
    unfold UploadStateMachine.CountMatches at h
    have hsave (hs : m.state ≠ .hashing) : action ≠ .saveHash := by
      rintro rfl
      exact hs (row_saveHash hrow).1
    cases row_of_transitionTable hrow with
    | waitForHashSignal hstart =>
      exact notified_callback rfl (by simp [Effect.tasks, Task.frees])
    | waitForUploadSignal hstart =>
      exact notified_callback rfl (by simp [Effect.tasks, Task.frees])
    | setupHasher hstart hevt =>
      rw [hstart] at h hsave
      have hcount : m'.countState ≠ .uploading := by rw [hacted, h]; decide
      refine notified_of_not_frees (frees_append
        (frees_append hexit (frees_action (hsave (by simp))))
        (frees_append (frees_append (frees_setCountState hcount) ?_) hwrite))
      split <;> simp [Effect.tasks, Task.frees]
    | inUploadCheck token hstart hevt =>
      subst hevt
      rw [hstart] at h hsave
      have hcount : m'.countState ≠ .uploading := by rw [hacted, h]; decide
      have htoken : ∀ t ∈ tasks [.write (.actionToken token)], t.frees = false := by
        simp [Effect.tasks, Task.frees]
      refine notified_of_not_frees (frees_append
        (frees_append hexit (frees_action (hsave (by simp))))
        (frees_append (frees_append ?_ (frees_append htoken (frees_append (frees_setCountState hcount)
            (by simp [Effect.tasks, Task.frees])))) hwrite))
      intro t ht
      obtain ⟨x, hx, htask⟩ := List.mem_flatMap.mp ht
      rw [mem_assertThat hx] at htask
      exact List.mem_singleton.mp htask ▸ rfl
    | working target htarget hstart =>
      have hworking : action ≠ .saveHash := by
        rintro rfl
        rw [(row_saveHash hrow).2.1] at htarget
        cases htarget
      have hentry : ∀ x ∈ onEntry m' target evt, Silent x := silent_onEntry_working htarget
      refine notified_of_not_frees (frees_append (frees_append hexit (frees_action hworking))
        (frees_append (frees_of_silent hentry fun hash ranges hashes hmem => ?_) hwrite))
      cases fromEntry_onEntry hmem
    | complete target htarget hentry =>
      obtain ⟨before, status, -, hentry⟩ := hentry m'
      rw [hentry]
      have hsplit : onExit w m m.state ++ action.effects w (m.exited w) evt ++
          (before ++ m'.setCountState .none ++ [.sendStatus status, .callback .handleComplete] ++
            [.write (.state target)]) =
          (onExit w m m.state ++ action.effects w (m.exited w) evt ++ before ++
            m'.setCountState .none ++ [.sendStatus status]) ++
            .callback .handleComplete :: [.write (.state target)] := by simp
      rw [hsplit]
      exact notified_callback rfl hwrite

/-- The start of an upload gives the slot for hashing back. -/
theorem enqueueTick_mem_startUpload {token : String} (h : m.CountMatches)
    (hs : m.state = .waitForUploadSignal) :
    .enqueueTick ∈ tasks (m.fire w (.startUpload token)) := by
  have hrow : transitionTable m.state (.startUpload token) (m.hash ≠ "") =
      some (.inUploadCheck, .check) := by rw [hs]; rfl
  have hcount : (m.acted w (.startUpload token) .check).countState = .hashing := by
    unfold UploadStateMachine.CountMatches at h
    rw [hs] at h
    exact acted_countState.trans h
  rw [UploadStateMachine.fire_row hrow]
  simp [onEntry, UploadStateMachine.setCountState, hcount, Effect.tasks, Callback.tasks]

end Fire

/-! ### Runs -/

namespace Uploads

open Runs Words

/-- Nothing is posted or running, and no callback is about to post a `Tick`. -/
structure Quiet (s : Uploads) : Prop where
  ticks : s.ticks = 0
  halfTicks : s.halfTicks = 0
  posted : s.posted = []
  todo : ∀ i, .enqueueTick ∉ s.todo i

/-- The retry timer is armed, or about to be, or its handler has not run. -/
def Armed (s : Uploads) : Prop := 0 < s.timer.arming + s.timer.waiting + s.timer.finished

structure NoLostWakeup (s : Uploads) : Prop where
  hash : s.Quiet → s.manager.toHash ≠ [] →
    s.manager.currentHashings + s.manager.enqueuedToStartHashings.card =
      s.manager.maxConcurrentHashings
  upload : s.Quiet → s.manager.toUpload ≠ [] → 0 < s.tokenRequests ∨ s.Armed ∨
    s.manager.actionTokenState = .valid ∧
      (s.manager.currentUploads + s.manager.enqueuedToStartUploads.card =
          s.manager.maxConcurrentUploads ∨
        ∀ i ∈ s.manager.toUpload, s.hash i ∈ s.manager.uploadingHashes)

/-- A callback is about to post a `Tick`. -/
def Pending (s : Uploads) : Prop := ∃ i, .enqueueTick ∈ s.todo i

/-- When `DecrementHashingCount` gives a slot back while files wait to be hashed, a `Tick` is still
posted or running, or a callback is about to post one. -/
def DecrementsBeforeTick (s : Uploads) (act : Act) (_ : Uploads) : Prop :=
  ∀ i todo, act = .task i → s.todo i = .body .decrementHashingCount :: todo →
    s.manager.toHash ≠ [] → 0 < s.ticks ∨ 0 < s.halfTicks ∨ s.Pending

/-- Nothing to do for `Tick_StartHashings`. -/
def HashSettled (um : UploadManagerImpl) : Prop := um.toHash = [] ∨ ¬ um.CanHashMore

/-- Nothing to do for `Tick_StartUploads` but what the token's response or the timer will do. -/
def UploadSettled (um : UploadManagerImpl) (hash : ℕ → String) : Prop :=
  um.toUpload = [] ∨ um.actionTokenState ≠ .invalid ∧
    (um.actionTokenState = .valid →
      ¬ um.CanUploadMore ∨ ∀ i ∈ um.toUpload, hash i ∈ um.uploadingHashes)

/-- A request that was started and has not handled the signal. -/
def Starting (s : Uploads) : Prop :=
  ∃ i token, (i, .startUpload token) ∈ s.posted ∧ i ∈ s.manager.requests

structure WakeInv (s : Uploads) : Prop where
  accounts : ∃ view, s.Accounts view
  counts : ∀ i, (settle (s.machine i) (s.todo i)).CountMatches
  notified : ∀ i, Notified (s.todo i)
  hash : HashSettled s.manager ∨ 0 < s.ticks ∨ 0 < s.halfTicks ∨ s.Pending
  upload : UploadSettled s.manager s.hash ∨ 0 < s.ticks ∨ s.Pending ∨ s.Starting
  error : s.manager.actionTokenState = .error → s.Armed
  retrieving : s.manager.actionTokenState = .retrieving → 0 < s.tokenRequests

section Step
variable {s s' : Uploads} {view : ℕ → View} {i j : ℕ}

theorem WakeInv.noLostWakeup (h : s.WakeInv) : s.NoLostWakeup := by
  obtain ⟨view, hacc⟩ := h.accounts
  have hpending (hquiet : s.Quiet) : ¬ s.Pending := fun ⟨i, hmem⟩ => hquiet.todo i hmem
  constructor
  · intro hquiet hne
    have hsettled : HashSettled s.manager := by
      rcases h.hash with hsettled | hpos | hpos | hpos
      · exact hsettled
      · exact absurd hquiet.ticks hpos.ne'
      · exact absurd hquiet.halfTicks hpos.ne'
      · exact absurd hpos (hpending hquiet)
    have hfull := hsettled.resolve_left hne
    exact le_antisymm hacc.totals.hashingBound (not_lt.mp hfull)
  · intro hquiet hne
    have hsettled : UploadSettled s.manager s.hash := by
      rcases h.upload with hsettled | hpos | hpos | ⟨i, token, hmem, -⟩
      · exact hsettled
      · exact absurd hquiet.ticks hpos.ne'
      · exact absurd hpos (hpending hquiet)
      · rw [hquiet.posted] at hmem
        cases hmem
    obtain ⟨hinvalid, hvalid⟩ := hsettled.resolve_left hne
    cases hstate : s.manager.actionTokenState with
    | invalid => exact absurd hstate hinvalid
    | retrieving => exact .inl (h.retrieving hstate)
    | error => exact .inr (.inl (h.error hstate))
    | valid =>
      refine .inr (.inr ⟨rfl, (hvalid hstate).imp (fun hfull => ?_) id⟩)
      exact le_antisymm hacc.totals.uploadBound (not_lt.mp hfull)

/-- A request whose view is completed or absent is in no container. -/
theorem place_of_not_live {v : View} {todo : List Task} (h : FitsTodo todo v)
    (hlife : v.life ≠ .live) : v.place = .none := by
  induction todo generalizing v with
  | nil =>
    obtain ⟨state, count, place, slot, life, signal⟩ := v
    cases life with
    | live => exact absurd rfl hlife
    | absent => exact h.2.2.2.1
    | completed => exact h.2.2.2
  | cons t todo ih =>
    obtain ⟨hok, hrest⟩ := h
    cases t with
    | body c => cases c <;> exact absurd hok.1 hlife
    | enqueueTick => exact ih hrest hlife
    | own x =>
      obtain ⟨state, count, hact⟩ := act_own x v
      have hact := hact v.place v.signal
      rw [hact] at hrest
      have hplace := ih hrest hlife
      exact hplace

theorem mem_requests_of_toUpload (h : s.Shows i (view i)) (hmem : i ∈ s.manager.toUpload) :
    i ∈ s.manager.requests := by
  refine h.requests.mpr ?_
  by_contra hlife
  have hplace := h.toUpload.mp hmem
  rw [place_of_not_live h.fits hlife] at hplace
  cases hplace

/-! #### Tasks -/

theorem pending_runTask {t : Task} {todo : List Task} (htodo : s.todo i = t :: todo)
    (h : s.Pending) : 0 < (s.runTask i todo t).ticks ∨ (s.runTask i todo t).Pending := by
  obtain ⟨j, hmem⟩ := h
  by_cases hj : j = i
  · subst hj
    rw [htodo] at hmem
    rcases List.mem_cons.mp hmem with rfl | hmem
    · exact .inl (Nat.succ_pos _)
    · exact .inr ⟨j, by rwa [todo_runTask]⟩
  · refine .inr ⟨j, ?_⟩
    rwa [Uploads.todo, (sameFor_runTask hj).request]

theorem ticks_runTask {t : Task} {todo : List Task} : s.ticks ≤ (s.runTask i todo t).ticks := by
  cases t with
  | enqueueTick => exact Nat.le_succ _
  | _ => exact le_rfl

theorem hashSettled_body {c : Callback} (hok : (Task.body c).ok (view i)) (h : s.Accounts view)
    (hfrees : (Task.body c).frees = false) (hc : c ≠ .decrementHashingCount)
    (hsettled : HashSettled s.manager) (hash : String) :
    HashSettled (s.manager.body i hash c) := by
  cases c with
  | handleAddToHash | handleAddToUpload | handleComplete | decrementUploadingCount => cases hfrees
  | decrementHashingCount => exact absurd rfl hc
  | handleRemoveToHash =>
    refine hsettled.imp (fun hnil => ?_) id
    change s.manager.toHash.erase i = []
    rw [hnil, List.erase_nil]
  | handleRemoveToUpload | incrementUploadingCount => exact hsettled
  | incrementHashingCount =>
    have hmem : i ∈ s.manager.enqueuedToStartHashings := (h.shows i).startHash.mpr hok.2.2.1
    have hbound := h.totals.hashingBound
    have hlimit := h.totals.limits.1
    have hcard := Finset.card_erase_add_one hmem
    refine hsettled.imp id fun hfull => ?_
    change ¬ increment 32 s.manager.currentHashings +
      (s.manager.enqueuedToStartHashings.erase i).card < s.manager.maxConcurrentHashings
    change ¬ s.manager.currentHashings + _ < _ at hfull
    rw [increment_of_lt (by omega)]
    omega

theorem uploadSettled_body {c : Callback} (hok : (Task.body c).ok (view i)) (h : s.Accounts view)
    (hfrees : (Task.body c).frees = false) {hash : ℕ → String}
    (hsettled : UploadSettled s.manager hash) (hash' : String) :
    UploadSettled (s.manager.body i hash' c) hash := by
  cases c with
  | handleAddToHash | handleAddToUpload | handleComplete | decrementUploadingCount => cases hfrees
  | handleRemoveToHash | incrementHashingCount | decrementHashingCount => exact hsettled
  | handleRemoveToUpload =>
    refine hsettled.imp (fun hnil => ?_) (And.imp_right fun hvalid hstate =>
      (hvalid hstate).imp id fun hall j hj => hall j (List.mem_of_mem_erase hj))
    change s.manager.toUpload.erase i = []
    rw [hnil, List.erase_nil]
  | incrementUploadingCount =>
    have hmem : i ∈ s.manager.enqueuedToStartUploads := (h.shows i).startUpload.mpr hok.2.2.1
    have hbound := h.totals.uploadBound
    have hlimit := h.totals.limits.2
    have hcard := Finset.card_erase_add_one hmem
    refine hsettled.imp id (And.imp_right fun hvalid hstate => (hvalid hstate).imp (fun hfull => ?_) id)
    change ¬ increment 32 s.manager.currentUploads +
      (s.manager.enqueuedToStartUploads.erase i).card < s.manager.maxConcurrentUploads
    change ¬ s.manager.currentUploads + _ < _ at hfull
    rw [increment_of_lt (by omega)]
    omega

/-- A task that frees nothing leaves settled what is settled. -/
theorem settled_runTask {t : Task} {todo : List Task} (h : s.Accounts view)
    (htodo : s.todo i = t :: todo) (hfrees : t.frees = false) :
    (t ≠ .body .decrementHashingCount → HashSettled s.manager →
        HashSettled (s.runTask i todo t).manager) ∧
      (UploadSettled s.manager s.hash →
        UploadSettled (s.runTask i todo t).manager (s.runTask i todo t).hash) := by
  have hhash : (s.runTask i todo t).hash = s.hash := funext fun j => hash_runTask fun _ => by
    cases t with
    | own x =>
      cases x with
      | write w =>
        cases w with
        | completeHashData hash ranges hashes => cases hfrees
        | _ => rfl
      | _ => rfl
    | _ => rfl
  rw [hhash]
  cases t with
  | own x => exact ⟨fun _ => id, id⟩
  | enqueueTick => exact ⟨fun _ => id, id⟩
  | body c =>
    have hfits := (h.shows i).fits
    rw [htodo] at hfits
    exact ⟨fun ht hsettled =>
        hashSettled_body hfits.1 h hfrees (fun hc => ht (hc ▸ rfl)) hsettled _,
      fun hsettled => uploadSettled_body hfits.1 h hfrees hsettled _⟩

theorem settle_runTask {t : Task} {todo : List Task} (htodo : s.todo i = t :: todo) :
    settle ((s.runTask i todo t).machine i) todo = settle (s.machine i) (s.todo i) := by
  rw [htodo]
  cases t with
  | own x => rw [show (s.runTask i todo (.own x)).machine i = (s.machine i).apply x from
      machine_setRequest]; rfl
  | body c => rw [machine_runTask_body]; rfl
  | enqueueTick => rw [machine_runTask_enqueueTick]; rfl

theorem WakeInv.task (h : s.WakeInv) {t : Task} {todo : List Task} (htodo : s.todo i = t :: todo)
    (haccounts : ∃ view, (s.runTask i todo t).Accounts view)
    (hguard : t = .body .decrementHashingCount → s.manager.toHash ≠ [] →
      0 < s.ticks ∨ 0 < s.halfTicks ∨ s.Pending) : (s.runTask i todo t).WakeInv := by
  obtain ⟨view, hacc⟩ := h.accounts
  have hnotified := h.notified i
  rw [htodo] at hnotified
  have hfreed (hfrees : t.frees = true) : (s.runTask i todo t).Pending :=
    ⟨i, by rw [todo_runTask]; exact hnotified.1 hfrees⟩
  have hstate : (s.runTask i todo t).manager.actionTokenState = s.manager.actionTokenState := by
    cases t with
    | body c => exact body_actionTokenState ..
    | _ => rfl
  have hhalf : (s.runTask i todo t).halfTicks = s.halfTicks := by cases t <;> rfl
  have hwaking (hwake : 0 < s.ticks ∨ 0 < s.halfTicks ∨ s.Pending) :
      0 < (s.runTask i todo t).ticks ∨ 0 < (s.runTask i todo t).halfTicks ∨
        (s.runTask i todo t).Pending := by
    rcases hwake with hpos | hpos | hpos
    · exact .inl (hpos.trans_le ticks_runTask)
    · exact .inr (.inl (hhalf ▸ hpos))
    · exact (pending_runTask htodo hpos).imp id .inr
  refine ⟨haccounts, fun j => ?_, fun j => ?_, ?_, ?_, fun herror => ?_, fun hret => ?_⟩
  · by_cases hj : j = i
    · subst hj
      rw [todo_runTask, settle_runTask htodo]
      exact h.counts j
    · have hsame : (s.runTask i todo t).request j = s.request j := (sameFor_runTask hj).request
      rw [machine, Uploads.todo, hsame]
      exact h.counts j
  · by_cases hj : j = i
    · subst hj
      rw [todo_runTask]
      exact hnotified.2
    · have hsame : (s.runTask i todo t).request j = s.request j := (sameFor_runTask hj).request
      rw [Uploads.todo, hsame]
      exact h.notified j
  · rcases h.hash with hsettled | hwake
    · cases hfrees : t.frees with
      | true => exact .inr (.inr (.inr (hfreed hfrees)))
      | false =>
        by_cases ht : t = .body .decrementHashingCount
        · by_cases hnil : s.manager.toHash = []
          · exact .inl (.inl (by rw [ht]; exact hnil))
          · exact .inr (hwaking (hguard ht hnil))
        · exact .inl ((settled_runTask hacc htodo hfrees).1 ht hsettled)
    · exact .inr (hwaking hwake)
  · cases hfrees : t.frees with
    | true => exact .inr (.inr (.inl (hfreed hfrees)))
    | false =>
      rcases h.upload with hsettled | hpos | hpos | ⟨j, token, hmem, hlive⟩
      · exact .inl ((settled_runTask hacc htodo hfrees).2 hsettled)
      · exact .inr (.inl (hpos.trans_le ticks_runTask))
      · exact .inr ((pending_runTask htodo hpos).imp id .inl)
      · refine .inr (.inr (.inr ⟨j, token, ?_, ?_⟩))
        · cases t <;> exact hmem
        · cases t with
          | body c => cases c <;> first | exact hlive | cases hfrees
          | _ => exact hlive
  · rw [hstate] at herror
    have harmed := h.error herror
    cases t <;> exact harmed
  · rw [hstate] at hret
    have hpos := h.retrieving hret
    cases t <;> exact hpos

/-- A request begins to handle an event. -/
theorem WakeInv.begin (h : s.WakeInv) {w : World} {evt : Event} (htodo : s.todo i = [])
    (posted : List (ℕ × Event)) (hs' : s' = { s with posted := posted }.setRequest i
      { machine := s.machine i, todo := tasks ((s.machine i).fire w evt) })
    (haccounts : ∃ view, s'.Accounts view)
    (hstarting : s.Starting → (∃ j token, (j, .startUpload token) ∈ posted ∧
      j ∈ s.manager.requests) ∨ .enqueueTick ∈ tasks ((s.machine i).fire w evt)) :
    s'.WakeInv := by
  have hself : s'.request i =
      { machine := s.machine i, todo := tasks ((s.machine i).fire w evt) } := by
    rw [hs']
    exact Function.update_self ..
  have hother (j : ℕ) (hj : j ≠ i) : s'.request j = s.request j := by
    rw [hs']
    exact Function.update_of_ne hj _ _
  have hcounts : (s.machine i).CountMatches := by
    have := h.counts i
    rwa [htodo] at this
  have hpending (hpos : s.Pending) : s'.Pending := by
    obtain ⟨j, hmem⟩ := hpos
    refine ⟨j, ?_⟩
    by_cases hj : j = i
    · subst hj
      rw [htodo] at hmem
      cases hmem
    · rwa [todo, hother j hj]
  have hhash : s'.hash = s.hash := funext fun j => by
    rw [Uploads.hash, machine]
    by_cases hj : j = i
    · subst hj
      rw [hself]
      rfl
    · rw [hother j hj]
      rfl
  refine ⟨haccounts, fun j => ?_, fun j => ?_, ?_, ?_, ?_, ?_⟩
  · rw [machine, todo]
    by_cases hj : j = i
    · subst hj
      rw [hself, settle_tasks]
      exact hcounts.fire
    · rw [hother j hj]
      exact h.counts j
  · rw [todo]
    by_cases hj : j = i
    · subst hj
      rw [hself]
      exact notified_fire hcounts
    · rw [hother j hj]
      exact h.notified j
  · have hwake := h.hash
    refine hwake.imp (fun hsettled => ?_) (Or.imp (fun hpos => ?_) (Or.imp (fun hpos => ?_) hpending))
    · rw [hs']; exact hsettled
    · rw [hs']; exact hpos
    · rw [hs']; exact hpos
  · rw [hhash]
    rcases h.upload with hsettled | hpos | hpos | hpos
    · rw [hs']; exact .inl hsettled
    · rw [hs']; exact .inr (.inl hpos)
    · exact .inr (.inr (.inl (hpending hpos)))
    · rcases hstarting hpos with hpos | hmem
      · rw [hs']; exact .inr (.inr (.inr hpos))
      · refine .inr (.inr (.inl ⟨i, ?_⟩))
        rw [todo, hself]
        exact hmem
  · rw [hs']; exact h.error
  · rw [hs']; exact h.retrieving

/-! #### Ticks -/

/-- `Tick_StartHashings` starts what can be started. -/
theorem hashSettled_startHashings {fuel : ℕ} {um : UploadManagerImpl}
    (hfuel : um.toHash.length ≤ fuel) :
    HashSettled (UploadManagerImpl.startHashings fuel um).1 := by
  induction fuel generalizing um with
  | zero => exact .inl (List.length_eq_zero_iff.mp (Nat.le_zero.mp hfuel))
  | succ fuel ih =>
    rw [UploadManagerImpl.startHashings]
    cases hstart : um.startHashing with
    | none =>
      unfold UploadManagerImpl.startHashing at hstart
      split at hstart
      · exact .inl ‹_›
      · split_ifs at hstart with hmore
        exact .inr hmore
    | some started =>
      obtain ⟨i, um'⟩ := started
      obtain ⟨toHash, htoHash, -, rfl⟩ := startHashing_eq_some hstart
      refine ih ?_
      rw [htoHash] at hfuel
      exact Nat.le_of_succ_le_succ hfuel

theorem wakeInv_tickStartHashings (haccounts : ∃ view, s.tickStartHashings.Accounts view)
    (hcounts : ∀ i, (settle (s.machine i) (s.todo i)).CountMatches)
    (hnotified : ∀ i, Notified (s.todo i))
    (hupload : UploadSettled s.manager s.hash ∨ 0 < s.ticks ∨ s.Pending ∨ s.Starting)
    (herror : s.manager.actionTokenState = .error → s.Armed)
    (hretrieving : s.manager.actionTokenState = .retrieving → 0 < s.tokenRequests) :
    s.tickStartHashings.WakeInv := by
  obtain ⟨toHash, enqueued, hfields⟩ := startHashings_fields s.manager.toHash.length s.manager
  have hstate : s.tickStartHashings.manager.actionTokenState = s.manager.actionTokenState :=
    (congrArg UploadManagerImpl.actionTokenState hfields).trans rfl
  refine ⟨haccounts, hcounts, hnotified, .inl (hashSettled_startHashings le_rfl), ?_,
    fun h => herror (hstate ▸ h), fun h => hretrieving (hstate ▸ h)⟩
  refine hupload.imp (fun hsettled => ?_) (Or.imp id (Or.imp id ?_))
  · change UploadSettled (UploadManagerImpl.startHashings _ s.manager).1 s.hash
    rw [hfields]
    exact hsettled
  · rintro ⟨j, token, hmem, hlive⟩
    refine ⟨j, token, List.mem_append_left _ hmem, ?_⟩
    change j ∈ (UploadManagerImpl.startHashings _ s.manager).1.requests
    rw [hfields]
    exact hlive

/-- `Tick_StartUploads` leaves one thing at most on its way, whatever there was before. -/
theorem wakeInv_tickStartUploads (hacc : s.Accounts view)
    (hcounts : ∀ i, (settle (s.machine i) (s.todo i)).CountMatches)
    (hnotified : ∀ i, Notified (s.todo i))
    (herror : s.manager.actionTokenState = .error → s.Armed)
    (hretrieving : s.manager.actionTokenState = .retrieving → 0 < s.tokenRequests) :
    s.tickStartUploads.WakeInv := by
  have haccounts := hacc.tickStartUploads
  have hticks := ticksUploads s.manager s.hash s.now
  revert haccounts
  unfold Uploads.tickStartUploads
  generalize s.manager.tickStartUploads s.hash s.now = result at hticks
  intro haccounts
  have hhalf : 0 < s.halfTicks + 1 := Nat.succ_pos _
  have hlive (i : ℕ) := mem_requests_of_toUpload (hacc.shows i)
  cases hticks with
  | empty hempty =>
    exact ⟨haccounts, hcounts, hnotified, .inr (.inr (.inl hhalf)), .inl (.inl hempty), herror,
      hretrieving⟩
  | early hstate _ =>
    refine ⟨haccounts, hcounts, hnotified, .inr (.inr (.inl hhalf)), .inl (.inr ⟨?_, ?_⟩), herror,
      hretrieving⟩
    · exact fun heq => nomatch hstate.symm.trans heq
    · exact fun heq => nomatch hstate.symm.trans heq
  | getActionToken _ _ _ =>
    exact ⟨haccounts, hcounts, hnotified, .inr (.inr (.inl hhalf)), .inl (.inr ⟨nofun, nofun⟩),
      nofun, fun _ => Nat.succ_pos _⟩
  | full hvalid hfull =>
    refine ⟨haccounts, hcounts, hnotified, .inr (.inr (.inl hhalf)),
      .inl (.inr ⟨?_, fun _ => .inl hfull⟩), herror, hretrieving⟩
    exact fun heq => nomatch hvalid.symm.trans heq
  | duplicates hvalid hall =>
    refine ⟨haccounts, hcounts, hnotified, .inr (.inr (.inl hhalf)),
      .inl (.inr ⟨?_, fun _ => .inr hall⟩), herror, hretrieving⟩
    exact fun heq => nomatch hvalid.symm.trans heq
  | startUpload i hi _ _ _ =>
    exact ⟨haccounts, hcounts, hnotified, .inr (.inr (.inl hhalf)),
      .inr (.inr (.inr ⟨i, _, List.mem_append_right _ List.mem_cons_self, hlive i hi⟩)), herror,
      hretrieving⟩

/-- After an error the retry goes on to a `Tick`; else it changes nothing. -/
theorem WakeInv.actionTokenRetry (h : s.WakeInv) {timer : RetryTimer} {err : Bool}
    (haccounts : ∃ view, ({ s with timer := timer }.actionTokenRetry err).Accounts view)
    (htimer : err = true → s.manager.actionTokenState = .error →
      0 < timer.arming + timer.waiting + timer.finished) :
    ({ s with timer := timer }.actionTokenRetry err).WakeInv := by
  revert haccounts
  unfold Uploads.actionTokenRetry UploadManagerImpl.actionTokenRetry
  split_ifs with hcond
  · intro haccounts
    exact ⟨haccounts, h.counts, h.notified, .inr (.inl (Nat.succ_pos _)),
      .inr (.inl (Nat.succ_pos _)), nofun, nofun⟩
  · intro haccounts
    refine ⟨haccounts, h.counts, h.notified, h.hash, h.upload, fun herror => ?_, h.retrieving⟩
    exact htimer (by simpa [show s.manager.actionTokenState = .error from herror] using hcond) herror

/-- A new request. -/
theorem WakeInv.add (h : s.WakeInv) {m : UploadStateMachine} (hstate : m.state = .initial)
    (hcount : m.countState = .none) (hhash : m.hash = "") (hacc : s.Accounts view)
    (haccounts : ∃ view, Uploads.Accounts { s.setRequest s.added { machine := m } with
      manager := { s.manager with requests := insert s.added s.manager.requests }
      added := s.added + 1 } view) :
    WakeInv { s.setRequest s.added { machine := m } with
      manager := { s.manager with requests := insert s.added s.manager.requests }
      added := s.added + 1 } := by
  have habsent : s.todo s.added = [] := by
    have hnew := hacc.shows s.added
    by_cases hlife : (view s.added).life = .absent
    · exact hnew.absent hlife
    · exact absurd (hnew.added.mpr hlife) (lt_irrefl _)
  have hlive (j : ℕ) (hmem : j ∈ s.manager.toUpload) : j ≠ s.added := by
    rintro rfl
    have hj := hacc.shows s.added
    have hlife := hj.requests.mp (mem_requests_of_toUpload hj hmem)
    exact absurd (hj.added.mpr (by rw [hlife]; decide)) (lt_irrefl _)
  have hself : (s.setRequest s.added { machine := m }).request s.added = { machine := m } :=
    Function.update_self ..
  have hother (j : ℕ) (hj : j ≠ s.added) :
      (s.setRequest s.added { machine := m }).request j = s.request j :=
    Function.update_of_ne hj _ _
  have hpending (hpos : s.Pending) :
      ∃ j, .enqueueTick ∈ ((s.setRequest s.added { machine := m }).request j).todo := by
    obtain ⟨j, hmem⟩ := hpos
    have hj : j ≠ s.added := by
      rintro rfl
      rw [habsent] at hmem
      cases hmem
    exact ⟨j, by rwa [hother j hj]⟩
  refine ⟨haccounts, fun j => ?_, fun j => ?_,
    h.hash.imp id (Or.imp id (Or.imp id hpending)), ?_, h.error, h.retrieving⟩
  · change (settle ((s.setRequest s.added { machine := m }).request j).machine
      ((s.setRequest s.added { machine := m }).request j).todo).CountMatches
    by_cases hj : j = s.added
    · subst hj
      rw [hself]
      simp only [settle, UploadStateMachine.CountMatches, hstate]
      exact ⟨hcount, hhash⟩
    · rw [hother j hj]
      exact h.counts j
  · change Notified ((s.setRequest s.added { machine := m }).request j).todo
    by_cases hj : j = s.added
    · subst hj
      rw [hself]
      trivial
    · rw [hother j hj]
      exact h.notified j
  · refine h.upload.imp (fun hsettled => ?_) (Or.imp id (Or.imp hpending ?_))
    · refine hsettled.imp id (And.imp_right fun hvalid hstate => (hvalid hstate).imp id ?_)
      intro hall j hj
      change ((s.setRequest s.added { machine := m }).request j).machine.hash ∈ _
      rw [hother j (hlive j hj)]
      exact hall j hj
    · rintro ⟨j, token, hmem, hj⟩
      exact ⟨j, token, hmem, Finset.mem_insert_of_mem hj⟩

/-! #### Steps -/

theorem WakeInv.step (h : s.WakeInv) {act : Act} (hs : s.step act = some s')
    (hguard : DecrementsBeforeTick s act s') : s'.WakeInv := by
  obtain ⟨view, hacc⟩ := h.accounts
  have haccounts := hacc.step hs
  cases act with
  | add pathFilename cloudFileName onDuplicateAction =>
    cases hs
    exact h.add rfl rfl rfl hacc haccounts
  | event i w evt =>
    rw [Uploads.step] at hs
    split_ifs at hs
    obtain ⟨htodo, -, rfl⟩ := processEvent_eq_some hs
    exact h.begin htodo s.posted rfl haccounts .inl
  | process k w =>
    rw [Uploads.step] at hs
    split at hs
    · cases hs
    · rename_i i evt hk
      obtain ⟨htodo, -, rfl⟩ := processEvent_eq_some hs
      have hnone : s.todo i = [] := htodo
      refine h.begin hnone _ rfl haccounts ?_
      rintro ⟨j, token, hmem, hlive⟩
      obtain ⟨hlt, hget⟩ := List.getElem?_eq_some_iff.mp hk
      rcases List.mem_cons.mp ((List.getElem_cons_eraseIdx_perm hlt).mem_iff.mpr hmem) with hhead | hmem
      · rw [hget, Prod.mk.injEq] at hhead
        obtain ⟨rfl, rfl⟩ := hhead
        have hj := hacc.shows j
        have hidle := hj.idle hnone
        have hwait : (view j).life = .live ∧ (view j).state = .waitForUploadSignal := by
          refine (idle_place hidle).2.mp (.inr ?_)
          rcases hj.posted _ (List.mem_of_getElem? hk) with ⟨hevt, -⟩ | ⟨-, hp | hp⟩
          · cases hevt
          · exact hp
          · rw [hj.requests.mp hlive] at hp
            cases hp
        have hcounts := h.counts j
        rw [hnone] at hcounts
        exact .inr (enqueueTick_mem_startUpload hcounts (hj.state ▸ hwait.2))
      · exact .inl ⟨j, token, hmem, hlive⟩
  | task i =>
    rw [Uploads.step] at hs
    split at hs
    · cases hs
    · rename_i t todo htodo
      cases hs
      exact h.task htodo haccounts fun ht => hguard i todo rfl (ht ▸ htodo)
  | tick =>
    cases hs
    exact ⟨haccounts, h.counts, h.notified, .inr (.inl (Nat.succ_pos _)),
      .inr (.inl (Nat.succ_pos _)), h.error, h.retrieving⟩
  | tickStartUploads =>
    rw [Uploads.step] at hs
    split_ifs at hs
    cases hs
    exact wakeInv_tickStartUploads (s := { s with ticks := s.ticks - 1 })
      (hacc.congr rfl rfl rfl ⟨_, _, _, rfl⟩) h.counts h.notified h.error h.retrieving
  | tickStartHashings =>
    rw [Uploads.step] at hs
    split_ifs at hs
    cases hs
    exact wakeInv_tickStartHashings (s := { s with halfTicks := s.halfTicks - 1 }) haccounts
      h.counts h.notified h.upload h.error h.retrieving
  | actionToken response =>
    rw [Uploads.step] at hs
    split_ifs at hs
    cases hs
    cases response with
    | none =>
      exact ⟨haccounts, h.counts, h.notified, h.hash, .inl (.inr ⟨by rintro ⟨⟩, by rintro ⟨⟩⟩),
        fun _ => by simp [Armed, Uploads.handleActionToken], by rintro ⟨⟩⟩
    | some token =>
      exact ⟨haccounts, h.counts, h.notified, .inr (.inl (Nat.succ_pos _)),
        .inr (.inl (Nat.succ_pos _)), by rintro ⟨⟩, by rintro ⟨⟩⟩
  | asyncWait =>
    rw [Uploads.step] at hs
    split_ifs at hs
    cases hs
    refine ⟨haccounts, h.counts, h.notified, h.hash, h.upload, fun herror => ?_, h.retrieving⟩
    have harmed := h.error herror
    simp only [Armed] at harmed ⊢
    omega
  | timerExpires =>
    rw [Uploads.step] at hs
    split_ifs at hs
    cases hs
    refine ⟨haccounts, h.counts, h.notified, h.hash, h.upload, fun herror => ?_, h.retrieving⟩
    have harmed := h.error herror
    simp only [Armed] at harmed ⊢
    omega
  | actionTokenRetry err =>
    cases err with
    | false =>
      rw [Uploads.step] at hs
      split_ifs at hs
      cases hs
      exact h.actionTokenRetry haccounts (by simp)
    | true =>
      rw [Uploads.step] at hs
      split_ifs at hs
      cases hs
      exact h.actionTokenRetry haccounts fun _ herror => h.error herror
  | clock seconds =>
    cases hs
    exact ⟨haccounts, h.counts, h.notified, h.hash, h.upload, h.error, h.retrieving⟩

end Step

theorem wakeInv_init : WakeInv {} where
  accounts := ⟨_, accounts_init⟩
  counts _ := ⟨rfl, rfl⟩
  notified _ := trivial
  hash := .inl (.inl rfl)
  upload := .inl (.inl rfl)
  error := nofun
  retrieving := nofun

/-- No wakeup is lost in a run in which every slot for hashing is given back before the last `Tick`
that is posted for it. -/
theorem always_noLostWakeup (acts : List Act) (h : Along step DecrementsBeforeTick {} acts) :
    Always step NoLostWakeup {} acts :=
  .of_guarded (I := WakeInv) (fun _ hinv => hinv.noLostWakeup)
    (fun _ _ _ hinv hguard hs => hinv.step hs hguard) wakeInv_init h

/-- Two files are hashed, a third one waits for a slot, and the first one handles its
`StartUpload` up to the `Tick` that `DecrementHashingCount` posts. -/
def startFirst : List Act :=
  hashFile 0 ++ hashFile 1 ++ [.add "file" none .fail, .event 2 Upload.smallFile .start] ++
    tasksOf 2 6 ++ [.actionToken (some "token"), .tickStartUploads, .process 0 Upload.smallFile] ++
    tasksOf 0 5

/-- The rest of the transition runs before the `Tick`. -/
theorem always_noLostWakeup_startFirst :
    Always step NoLostWakeup {} (startFirst ++ tasksOf 0 5 ++ [.tickStartUploads]) := by
  refine always_noLostWakeup _ (along_of_check (p := fun s act => match act with
    | .task i => decide ((s.todo i).head? ≠ some (.body .decrementHashingCount)) || decide (0 < s.ticks)
    | _ => true) ?_ (by decide +kernel))
  rintro s act - hcheck i todo rfl htodo -
  refine .inl ?_
  simpa [htodo] using hcheck

/-- All posted `Tick`s run before the slot is given back. -/
theorem not_always_noLostWakeup_ticksFirst : ¬ ∀ acts, Always step NoLostWakeup {} acts := by
  intro h
  let acts := startFirst ++ List.replicate 7 .tickStartUploads ++
    List.replicate 8 .tickStartHashings ++ tasksOf 0 5
  have hcompute : (run step {} acts).map (fun s => decide ((s.ticks = 0 ∧ s.halfTicks = 0 ∧
      s.posted.length = 0) ∧ (s.added = 3 ∧ s.todo 0 = [] ∧ s.todo 1 = [] ∧ s.todo 2 = []) ∧
      s.manager.toHash = [2] ∧ s.manager.currentHashings +
        s.manager.enqueuedToStartHashings.card < s.manager.maxConcurrentHashings)) =
      some true := by decide +kernel
  obtain ⟨s, hrun, hs⟩ := Option.map_eq_some_iff.mp hcompute
  obtain ⟨⟨hticks, hhalf, hposted⟩, ⟨hadded, h0, h1, h2⟩, htoHash, hfree⟩ := of_decide_eq_true hs
  obtain ⟨view, hacc⟩ : ∃ view, s.Accounts view :=
    run_invariant (I := fun s => ∃ view, s.Accounts view)
      (fun _ _ _ ⟨_, hacc⟩ hs => hacc.step hs) ⟨_, accounts_init⟩ hrun
  have hquiet : s.Quiet := by
    refine ⟨hticks, hhalf, List.length_eq_zero_iff.mp hposted, fun i hmem => ?_⟩
    have hi : i < 3 := by
      rw [← hadded, (hacc.shows i).added]
      intro habsent
      rw [(hacc.shows i).absent habsent] at hmem
      cases hmem
    interval_cases i
    · rw [h0] at hmem; cases hmem
    · rw [h1] at hmem; cases hmem
    · rw [h2] at hmem; cases hmem
  have hfull := ((h acts).last hrun).hash hquiet (by rw [htoHash]; exact List.cons_ne_nil _ _)
  exact hfree.ne hfull

end Uploads

end MediafireSdk.Uploader
