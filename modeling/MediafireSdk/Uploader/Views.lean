import MediafireSdk.Lib.Programs
import MediafireSdk.Uploader.Uploads

/-! What the manager knows of one request, and how a transition of its machine
changes that. A view has the container the request is in, the slot it holds,
whether it is live and whether a start signal is posted for it. A transition is a
straight-line program on the view; it fits every idle view in which the manager may
let it start, also when other threads move the request from `to_hash_` or
`to_upload_` to the enqueued ones in between. -/

namespace MediafireSdk.Uploader

open Programs

/-- The container a request is in. It is `removed` between the exit from a waiting state and the
completion, if it had not been enqueued to start. -/
inductive Place where
  | none | toHash | startHash | toUpload | startUpload | removed
  deriving DecidableEq, Repr

/-- `live` requests are in `requests_`. -/
inductive Life where
  | absent | live | completed
  deriving DecidableEq, Repr

/-- `slot` is the slot the request holds, `signal` whether its start is posted. -/
structure View where
  state : State
  count : CountState
  place : Place
  slot : CountState
  life : Life
  signal : Bool
  deriving DecidableEq, Repr

/-- Where a live request that handles no event is. -/
def State.Allows (place : Place) (signal : Bool) : State → Prop
  | .waitForHashSignal =>
    place = .toHash ∧ signal = false ∨ place = .startHash ∧ signal = true
  | .waitForUploadSignal =>
    place = .toUpload ∧ signal = false ∨ place = .startUpload ∧ signal = true
  | _ => place = .none ∧ signal = false

/-- A request that handles no event. -/
def View.Idle (v : View) : Prop :=
  v.slot = v.count ∧
    match v.life with
    | .absent => v.state = .initial ∧ v.count = .none ∧ v.place = .none ∧ v.signal = false
    | .live => v.state.isTerminal = false ∧ v.state.Allows v.place v.signal
    | .completed => v.state.isTerminal = true ∧ v.count = .none ∧ v.place = .none

/-- What a section relies on. -/
def Task.ok : Task → View → Prop
  | .body .handleAddToHash, v | .body .handleAddToUpload, v =>
    v.life = .live ∧ v.place = .none ∧ v.signal = false
  | .body .handleRemoveToHash, v => v.life = .live ∧ (v.place = .toHash ∨ v.place = .startHash)
  | .body .handleRemoveToUpload, v =>
    v.life = .live ∧ (v.place = .toUpload ∨ v.place = .startUpload)
  | .body .handleComplete, v =>
    v.life = .live ∧ v.slot = .none ∧ v.place ≠ .toHash ∧ v.place ≠ .toUpload
  | .body .incrementHashingCount, v =>
    v.life = .live ∧ v.slot = .none ∧ v.place = .startHash ∧ v.signal = false
  | .body .decrementHashingCount, v => v.life = .live ∧ v.slot = .hashing
  | .body .incrementUploadingCount, v =>
    v.life = .live ∧ v.slot = .none ∧ v.place = .startUpload ∧ v.signal = false
  | .body .decrementUploadingCount, v => v.life = .live ∧ v.slot = .uploading
  | .own _, _ | .enqueueTick, _ => True

def Task.act : Task → View → View
  | .own (.write (.state s)), v => { v with state := s }
  | .own (.write (.countState cs)), v => { v with count := cs }
  | .body .handleAddToHash, v => { v with place := .toHash }
  | .body .handleAddToUpload, v => { v with place := .toUpload }
  | .body .handleRemoveToHash, v =>
    { v with place := if v.place = .toHash then .removed else v.place }
  | .body .handleRemoveToUpload, v =>
    { v with place := if v.place = .toUpload then .removed else v.place }
  | .body .handleComplete, v => { v with place := .none, life := .completed }
  | .body .incrementHashingCount, v => { v with place := .none, slot := .hashing }
  | .body .decrementHashingCount, v => { v with slot := .none }
  | .body .incrementUploadingCount, v => { v with place := .none, slot := .uploading }
  | .body .decrementUploadingCount, v => { v with slot := .none }
  | _, v => v

/-! ### Interference -/

/-- What other threads may do to a request: a `Tick` enqueues it to start and posts its signal. A
`removed` one is moved where its removal came second, a `completed` one has its signal left. -/
inductive View.Moved (v : View) : View → Prop
  | same : Moved v v
  | startHash (h : v.place = .toHash ∨ v.place = .removed) :
    Moved v { v with place := .startHash, signal := true }
  | startUpload (h : v.place = .toUpload ∨ v.place = .removed) :
    Moved v { v with place := .startUpload, signal := true }
  | completed (h : v.life = .completed) : Moved v { v with signal := true }

/-- Effects on the machine leave what other threads may change. -/
theorem act_own (x : Effect) (v : View) : ∃ state count,
    ∀ place signal, (Task.own x).act { v with place := place, signal := signal } =
      ⟨state, count, place, v.slot, v.life, signal⟩ := by
  cases x with
  | write w => cases w <;> exact ⟨_, _, fun _ _ => rfl⟩
  | _ => exact ⟨_, _, fun _ _ => rfl⟩

theorem Task.ok_moved {t : Task} {v v' : View} (h : v.Moved v') (hok : t.ok v) :
    t.ok v' ∧ (t.act v).Moved (t.act v') := by
  obtain ⟨state, count, place, slot, life, signal⟩ := v
  cases t with
  | own x =>
    obtain ⟨state', count', hact⟩ := act_own x ⟨state, count, place, slot, life, signal⟩
    refine ⟨trivial, ?_⟩
    cases h with
    | same => exact .same
    | startHash hplace =>
      exact (hact place signal).symm ▸ (hact .startHash true).symm ▸ .startHash hplace
    | startUpload hplace =>
      exact (hact place signal).symm ▸ (hact .startUpload true).symm ▸ .startUpload hplace
    | completed hlife =>
      exact (hact place signal).symm ▸ (hact place true).symm ▸ .completed hlife
  | enqueueTick => exact ⟨trivial, h⟩
  | body c =>
    cases h with
    | same => exact ⟨hok, .same⟩
    | completed hlife => cases c <;> exact absurd (hlife.symm.trans hok.1) (by decide)
    | startHash hplace =>
      cases c with
      | handleRemoveToHash =>
        rcases hplace with rfl | rfl
        · exact ⟨⟨hok.1, .inr rfl⟩, .startHash (.inr rfl)⟩
        · simp [Task.ok] at hok
      | handleComplete =>
        exact ⟨⟨hok.1, hok.2.1, by simp, by simp⟩, .completed rfl⟩
      | decrementHashingCount | decrementUploadingCount => exact ⟨hok, .startHash hplace⟩
      | _ => rcases hplace with rfl | rfl <;> simp [Task.ok] at hok
    | startUpload hplace =>
      cases c with
      | handleRemoveToUpload =>
        rcases hplace with rfl | rfl
        · exact ⟨⟨hok.1, .inr rfl⟩, .startUpload (.inr rfl)⟩
        · simp [Task.ok] at hok
      | handleComplete =>
        exact ⟨⟨hok.1, hok.2.1, by simp, by simp⟩, .completed rfl⟩
      | decrementHashingCount | decrementUploadingCount => exact ⟨hok, .startUpload hplace⟩
      | _ => rcases hplace with rfl | rfl <;> simp [Task.ok] at hok

theorem State.Allows.place_ne_removed {s : State} {place : Place} {signal : Bool}
    (h : s.Allows place signal) : place ≠ .removed := by
  rintro rfl
  cases s <;> simp [State.Allows] at h

theorem View.Idle.moved {v v' : View} (h : v.Moved v') (hidle : v.Idle) : v'.Idle := by
  obtain ⟨state, count, place, slot, life, signal⟩ := v
  obtain ⟨hslot, hidle⟩ := hidle
  cases h with
  | same => exact ⟨hslot, hidle⟩
  | completed hlife =>
    cases hlife
    exact ⟨hslot, hidle⟩
  | startHash hplace =>
    refine ⟨hslot, ?_⟩
    cases life with
    | absent => rcases hplace with rfl | rfl <;> cases hidle.2.2.1
    | completed => rcases hplace with rfl | rfl <;> cases hidle.2.2
    | live =>
      obtain rfl := hplace.resolve_right hidle.2.place_ne_removed
      refine ⟨hidle.1, ?_⟩
      have hallows := hidle.2
      cases state <;> simp [State.Allows] at hallows ⊢
  | startUpload hplace =>
    refine ⟨hslot, ?_⟩
    cases life with
    | absent => rcases hplace with rfl | rfl <;> cases hidle.2.2.1
    | completed => rcases hplace with rfl | rfl <;> cases hidle.2.2
    | live =>
      obtain rfl := hplace.resolve_right hidle.2.place_ne_removed
      refine ⟨hidle.1, ?_⟩
      have hallows := hidle.2
      cases state <;> simp [State.Allows] at hallows ⊢

theorem View.Idle.of_absent {v : View} (h : v.Idle) (hlife : v.life = .absent) :
    v.place = .none ∧ v.slot = .none ∧ v.signal = false := by
  obtain ⟨state, count, place, slot, life, signal⟩ := v
  cases hlife
  exact ⟨h.2.2.2.1, h.1.trans h.2.2.1, h.2.2.2.2⟩

/-- The request fits the rest of its transition. -/
abbrev FitsTodo (todo : List Task) (v : View) : Prop := Fits Task.ok Task.act View.Idle todo v

theorem FitsTodo.moved {todo : List Task} {v v' : View} (h : FitsTodo todo v) (hm : v.Moved v') :
    FitsTodo todo v' :=
  h.stable hm (fun _ _ _ hm hok => Task.ok_moved hm hok) fun _ _ hm hidle => hidle.moved hm

/-! ### Transitions on views -/

/-- The effects lead from a view to one with `Q`. -/
def Leads (effects : List Effect) (Q : View → Prop) (v : View) : Prop :=
  Fits Task.ok Task.act Q (tasks effects) v

theorem leads_append {xs ys : List Effect} {Q : View → Prop} {v : View} :
    Leads (xs ++ ys) Q v ↔ Leads xs (Leads ys Q) v := by
  rw [Leads, tasks_append, fits_append]
  rfl

/-- Effects that no view shows. -/
def Silent (x : Effect) : Prop :=
  (∀ c, x ≠ .callback c) ∧ (∀ s, x ≠ .write (.state s)) ∧ ∀ cs, x ≠ .write (.countState cs)

theorem Silent.act {x : Effect} (h : Silent x) (v : View) : (Task.own x).act v = v := by
  obtain ⟨-, hstate, hcount⟩ := h
  cases x with
  | write w =>
    cases w with
    | state s => exact absurd rfl (hstate s)
    | countState cs => exact absurd rfl (hcount cs)
    | _ => rfl
  | _ => rfl

theorem Silent.tasks {x : Effect} (h : Silent x) : x.tasks = [.own x] := by
  cases x with
  | callback c => exact absurd rfl (h.1 c)
  | _ => rfl

theorem leads_silent {xs : List Effect} {Q : View → Prop} {v : View} (h : ∀ x ∈ xs, Silent x) :
    Leads xs Q v ↔ Q v := by
  refine fits_neutral fun t ht v => ?_
  obtain ⟨x, hx, htask⟩ := List.mem_flatMap.mp ht
  rw [(h x hx).tasks, List.mem_singleton] at htask
  exact htask ▸ ⟨trivial, (h x hx).act v⟩

@[simp] theorem leads_state {s : State} {Q : View → Prop} {v : View} :
    Leads [.write (.state s)] Q v ↔ Q { v with state := s } :=
  and_iff_right trivial

theorem leads_countState {cs : CountState} {xs : List Effect} {Q : View → Prop} {v : View} :
    Leads (.write (.countState cs) :: xs) Q v ↔ Leads xs Q { v with count := cs } :=
  and_iff_right trivial

theorem leads_callback {c : Callback} {xs : List Effect} {Q : View → Prop} {v : View} :
    Leads (.callback c :: xs) Q v ↔ Fits Task.ok Task.act (Leads xs Q) c.tasks v := by
  rw [Leads, tasks_cons, Effect.tasks, fits_append]
  rfl

theorem FromAction.silent {x : Effect} (h : FromAction x) : Silent x := by
  cases h <;> exact ⟨by simp, by simp, by simp⟩

/-- The slot that is given back first. -/
theorem leads_setCountState {m : UploadStateMachine} {Q : View → Prop} {v : View}
    (hcount : v.count = m.countState) (hslot : v.slot = v.count) (hlife : v.life = .live)
    {cs : CountState} (hnext : Leads ((match cs with
      | .none => []
      | .hashing => [.callback .incrementHashingCount]
      | .uploading => [.callback .incrementUploadingCount]) ++ [.write (.countState cs)]) Q
        { v with slot := .none }) :
    Leads (m.setCountState cs) Q v := by
  unfold UploadStateMachine.setCountState
  rw [List.append_assoc, leads_append]
  rw [hcount] at hslot
  cases hm : m.countState with
  | none =>
    rw [hm] at hslot
    have hv : { v with slot := .none } = v := by rw [← hslot]
    exact hv ▸ hnext
  | hashing => exact ⟨trivial, ⟨hlife, hslot.trans hm⟩, hnext⟩
  | uploading => exact ⟨trivial, ⟨hlife, hslot.trans hm⟩, hnext⟩

/-- A machine whose entry action may run: its view shows the slot it holds. -/
structure Entering (m : UploadStateMachine) (v : View) : Prop where
  life : v.life = .live
  count : v.count = m.countState
  slot : v.slot = v.count

section Entry
variable {m : UploadStateMachine} {v : View} {s : State} {evt : Event} {Q : View → Prop}

/-- The slot taken, or none. -/
theorem leads_setCountState_append {cs : CountState} {xs : List Effect} (h : Entering m v)
    (hok : ∀ v' : View, v'.life = .live → v'.slot = .none → v'.place = v.place →
      v'.signal = v.signal → match cs with
        | .none => True
        | .hashing => (Task.body .incrementHashingCount).ok v'
        | .uploading => (Task.body .incrementUploadingCount).ok v')
    (hrest : ∀ v' : View, v'.life = .live → v'.slot = cs → v'.count = cs →
      v'.place = (if cs = .none then v.place else .none) → v'.signal = v.signal → Leads xs Q v') :
    Leads (m.setCountState cs ++ xs) Q v := by
  rw [leads_append]
  refine leads_setCountState h.count h.slot h.life ?_
  have hv := hok { v with slot := .none } h.life rfl rfl rfl
  cases cs with
  | none => exact leads_countState.mpr (hrest _ h.life rfl rfl rfl rfl)
  | hashing => exact leads_callback.mpr ⟨hv, leads_countState.mpr (hrest _ h.life rfl rfl rfl rfl)⟩
  | uploading => exact leads_callback.mpr ⟨hv, leads_countState.mpr (hrest _ h.life rfl rfl rfl rfl)⟩

theorem leads_setupHasher (h : Entering m v) (hplace : v.place = .startHash)
    (hsignal : v.signal = false) :
    Leads (onEntry m .setupHasher evt ++ [.write (.state .setupHasher)]) View.Idle v := by
  rw [onEntry, setupHasherOnEntry, List.append_assoc]
  refine leads_setCountState_append h (fun v' hlife hslot hp hs => ⟨hlife, hslot, hp.trans hplace,
    hs.trans hsignal⟩) fun v' hlife hslot hcount hp hs => ?_
  rw [leads_append, leads_silent, leads_state]
  · exact ⟨hslot.trans hcount.symm, by simp [hlife, hp, hs, hsignal, State.isTerminal, State.Allows]⟩
  · split <;> simp [Silent]

theorem leads_inUploadCheck {token : String} (h : Entering m v) (hplace : v.place = .startUpload)
    (hsignal : v.signal = false) :
    Leads (onEntry m .inUploadCheck (.startUpload token) ++ [.write (.state .inUploadCheck)])
      View.Idle v := by
  have hassert : ∀ x ∈ assertThat (token ≠ "") "! evt.upload_action_token.empty()" ++
      [.write (.actionToken token)], Silent x := by
    unfold assertThat
    split_ifs <;> simp [Silent]
  rw [onEntry, ← List.singleton_append, ← List.append_assoc, List.append_assoc, leads_append,
    leads_silent hassert, List.append_assoc]
  refine leads_setCountState_append h (fun v' hlife hslot hp hs => ⟨hlife, hslot, hp.trans hplace,
    hs.trans hsignal⟩) fun v' hlife hslot hcount hp hs => ?_
  rw [leads_append, leads_silent (by simp [Silent]), leads_state]
  exact ⟨hslot.trans hcount.symm, by simp [hlife, hp, hs, hsignal, State.isTerminal, State.Allows]⟩

/-- `CompleteWithSuccess` and `CompleteWithError`. -/
theorem leads_complete {before : List Effect} {status : UploadState} (h : Entering m v)
    (hbefore : ∀ x ∈ before, Silent x) (hterm : s.isTerminal = true) (hhash : v.place ≠ .toHash)
    (hupload : v.place ≠ .toUpload) :
    Leads (before ++ m.setCountState .none ++ [.sendStatus status, .callback .handleComplete] ++
      [.write (.state s)]) View.Idle v := by
  rw [List.append_assoc, List.append_assoc, leads_append, leads_silent hbefore]
  refine leads_setCountState_append h (fun _ _ _ _ _ => trivial)
    fun v' hlife hslot hcount hp hs => ?_
  rw [if_pos rfl] at hp
  refine ⟨trivial, ⟨hlife, hslot, hp ▸ hhash, hp ▸ hupload⟩, trivial, trivial, ?_⟩
  exact ⟨hslot.trans hcount.symm, hterm, hcount, rfl⟩

theorem leads_waitForHashSignal (h : Entering m v) (hplace : v.place = .none)
    (hsignal : v.signal = false) :
    Leads (onEntry m .waitForHashSignal evt ++ [.write (.state .waitForHashSignal)]) View.Idle v :=
  ⟨⟨h.life, hplace, hsignal⟩, trivial, trivial, trivial, h.slot, by
    simp [Task.act, h.life, hsignal, State.isTerminal, State.Allows]⟩

theorem leads_waitForUploadSignal (h : Entering m v) (hplace : v.place = .none)
    (hsignal : v.signal = false) :
    Leads (onEntry m .waitForUploadSignal evt ++ [.write (.state .waitForUploadSignal)])
      View.Idle v :=
  ⟨⟨h.life, hplace, hsignal⟩, trivial, trivial, trivial, h.slot, by
    simp [Task.act, h.life, hsignal, State.isTerminal, State.Allows]⟩

/-- The states in which a request is in no container and the entry takes no slot. -/
def State.Working : State → Bool
  | .hashing | .uploadFile | .instantUpload | .uploadChunk | .pollUpload => true
  | _ => false

theorem silent_assertThat {p : Prop} [Decidable p] {text : String} :
    ∀ x ∈ assertThat p text, Silent x := by
  intro x hx
  rw [mem_assertThat hx]
  simp [Silent]

theorem silent_chunkSuccess {chunkId : ℕ} {uploadKey : String} :
    ∀ x ∈ chunkSuccessOnEntry m chunkId uploadKey, Silent x := by
  intro x hx
  simp only [chunkSuccessOnEntry, List.mem_append] at hx
  rcases hx with ((hx | hx) | hx) | hx
  · exact silent_assertThat x hx
  · exact silent_assertThat x hx
  · split_ifs at hx
    · cases List.mem_singleton.mp hx
      simp [Silent]
    · cases hx
  · unfold UploadStateMachine.setChunkState at hx
    split_ifs at hx <;> simp only [List.mem_cons, List.not_mem_nil, or_false] at hx
    · subst hx
      simp [Silent]
    · rcases hx with rfl | rfl <;> simp [Silent]

theorem silent_onEntry_working (hs : s.Working = true) : ∀ x ∈ onEntry m s evt, Silent x := by
  intro x hx
  unfold onEntry at hx
  split at hx
  case h_6 => exact silent_chunkSuccess x hx
  case h_3 | h_7 =>
    cases List.mem_singleton.mp hx
    simp [Silent]
  case h_13 => cases hx
  all_goals cases hs

end Entry

/-- The rows of the table by what their entry action does. -/
inductive Row (start : State) (evt : Event) : State → Prop
  | waitForHashSignal (hstart : start = .initial) : Row start evt .waitForHashSignal
  | setupHasher (hstart : start = .waitForHashSignal) (hevt : evt = .startHash) :
    Row start evt .setupHasher
  | waitForUploadSignal (hstart : start = .initial ∨ start = .hashing) :
    Row start evt .waitForUploadSignal
  | inUploadCheck (token : String) (hstart : start = .waitForUploadSignal)
      (hevt : evt = .startUpload token) : Row start evt .inUploadCheck
  | working (target : State) (htarget : target.Working = true)
      (hstart : start ≠ .waitForHashSignal ∧ start ≠ .waitForUploadSignal) : Row start evt target
  | complete (target : State) (htarget : target.isTerminal = true)
      (hentry : ∀ m : UploadStateMachine, ∃ before status, (∀ x ∈ before, Silent x) ∧
        onEntry m target evt =
          before ++ m.setCountState .none ++ [.sendStatus status, .callback .handleComplete]) :
    Row start evt target

theorem row_of_transitionTable {start target : State} {evt : Event} {hasHash : Bool}
    {action : Action} (h : transitionTable start evt hasHash = some (target, action)) :
    Row start evt target := by
  have herror {m : UploadStateMachine} {ec : ErrorCode} {description : String} :
      ∃ before status, (∀ x ∈ before, Silent x) ∧
        completeWithErrorOnEntry m ec description =
          before ++ m.setCountState .none ++ [.sendStatus status, .callback .handleComplete] :=
    ⟨[], _, by simp, rfl⟩
  have hsuccess {m : UploadStateMachine} {quickkey filename : String} {revision : Option ℕ} :
      ∃ before status, (∀ x ∈ before, Silent x) ∧
        completeWithSuccessOnEntry m quickkey filename revision =
          before ++ m.setCountState .none ++ [.sendStatus status, .callback .handleComplete] :=
    ⟨_, _, silent_assertThat, rfl⟩
  unfold transitionTable at h
  split at h <;> try split_ifs at h
  all_goals cases h
  all_goals first
    | exact .waitForHashSignal rfl
    | exact .setupHasher rfl rfl
    | exact .waitForUploadSignal (by simp)
    | exact .inUploadCheck _ rfl rfl
    | exact .working _ rfl (by simp)
    | exact .complete _ rfl fun m => herror
    | exact .complete _ rfl fun m => hsuccess

/-- Where the exit action leaves a request. -/
def exitPlace : State → Place → Place
  | .waitForHashSignal, .toHash => .removed
  | .waitForUploadSignal, .toUpload => .removed
  | _, place => place

theorem State.Allows.exitPlace {s : State} {place : Place} {signal : Bool}
    (h : s.Allows place signal) : exitPlace s place ≠ .toHash ∧ exitPlace s place ≠ .toUpload := by
  cases s with
  | waitForHashSignal | waitForUploadSignal => rcases h with ⟨rfl, -⟩ | ⟨rfl, -⟩ <;> decide
  | _ => obtain ⟨rfl, -⟩ := h; decide

theorem silent_initialOnExit {stat : FileStat} : ∀ x ∈ initialOnExit stat, Silent x := by
  unfold initialOnExit
  split
  · simp [Silent]
  · split
    · simp [Silent]
    · split_ifs <;> simp [Silent]

theorem leads_onExit {w : World} {m : UploadStateMachine} {s : State} {Q : View → Prop} {v : View}
    (hlife : v.life = .live)
    (hhash : s = .waitForHashSignal → v.place = .toHash ∨ v.place = .startHash)
    (hupload : s = .waitForUploadSignal → v.place = .toUpload ∨ v.place = .startUpload)
    (hQ : Q { v with place := exitPlace s v.place }) : Leads (onExit w m s) Q v := by
  have hsilent (h1 : s ≠ .waitForHashSignal) (h2 : s ≠ .waitForUploadSignal) :
      ∀ x ∈ onExit w m s, Silent x := by
    cases s with
    | initial => exact silent_initialOnExit
    | waitForHashSignal => exact absurd rfl h1
    | waitForUploadSignal => exact absurd rfl h2
    | uploadChunk =>
      rw [onExit]
      split_ifs <;> simp [Silent]
    | _ => simp [onExit]
  by_cases h1 : s = .waitForHashSignal
  · subst h1
    have hplace := hhash rfl
    refine ⟨⟨hlife, hplace⟩, trivial, ?_⟩
    rcases hplace with hp | hp <;> simpa [Task.act, hp, exitPlace] using hQ
  · by_cases h2 : s = .waitForUploadSignal
    · subst h2
      have hplace := hupload rfl
      refine ⟨⟨hlife, hplace⟩, trivial, ?_⟩
      rcases hplace with hp | hp <;> simpa [Task.act, hp, exitPlace] using hQ
    · rw [leads_silent (hsilent h1 h2)]
      have hsame : exitPlace s v.place = v.place := by
        cases s <;> first | rfl | exact absurd rfl h1 | exact absurd rfl h2
      rw [hsame] at hQ
      exact hQ

/-- An event that may reach a machine: none of the manager's signals while it handles no event, or
the signal that was posted for it and is posted no more. -/
inductive Receives (v : View) : Event → Prop
  | event {evt : Event} (hidle : v.Idle) (hevt : isSignal evt = false) : Receives v evt
  | startHash (hidle : View.Idle { v with signal := true }) (hlife : v.life = .live)
      (hplace : v.place = .startHash) (hsignal : v.signal = false) : Receives v .startHash
  | startUpload (token : String) (hidle : View.Idle { v with signal := true })
      (hlife : v.life = .live) (hplace : v.place = .startUpload) (hsignal : v.signal = false) :
    Receives v (.startUpload token)

theorem Receives.slot {v : View} {evt : Event} (h : Receives v evt) : v.slot = v.count := by
  cases h with
  | event hidle _ => exact hidle.1
  | startHash hidle _ _ _ => exact hidle.1
  | startUpload _ hidle _ _ _ => exact hidle.1

/-- A live request that receives an event is where its state says. -/
theorem Receives.place {v : View} {evt : Event} (h : Receives v evt) (hlife : v.life = .live) :
    v.state.isTerminal = false ∧
      (isSignal evt = false ∧ v.state.Allows v.place v.signal ∨
        evt = .startHash ∧ v.state = .waitForHashSignal ∧ v.place = .startHash ∧
          v.signal = false ∨
        (∃ token, evt = .startUpload token) ∧ v.state = .waitForUploadSignal ∧
          v.place = .startUpload ∧ v.signal = false) := by
  obtain ⟨state, count, place, slot, life, signal⟩ := v
  cases hlife
  cases h with
  | event hidle hevt => exact ⟨hidle.2.1, .inl ⟨hevt, hidle.2.2⟩⟩
  | startHash hidle _ hplace hsignal =>
    cases hplace
    have hallows := hidle.2.2
    refine ⟨hidle.2.1, .inr (.inl ⟨rfl, ?_, rfl, hsignal⟩)⟩
    cases state <;> simp [State.Allows] at hallows ⊢
  | startUpload token hidle _ hplace hsignal =>
    cases hplace
    have hallows := hidle.2.2
    refine ⟨hidle.2.1, .inr (.inr ⟨⟨token, rfl⟩, ?_, rfl, hsignal⟩)⟩
    cases state <;> simp [State.Allows] at hallows ⊢

theorem acted_countState {w : World} {m : UploadStateMachine} {evt : Event} {action : Action} :
    (m.acted w evt action).countState = m.countState := by
  have hexit : (m.exited w).countState = m.countState :=
    UploadStateMachine.applyAll_same (·.countState) fun x hx m' => by
      cases fromExit_onExit hx <;> rfl
  refine (UploadStateMachine.applyAll_same (·.countState) fun x hx m' => ?_).trans hexit
  cases fromAction_effects hx <;> rfl

/-- Every transition fits. -/
theorem fitsTodo_fire {w : World} {m : UploadStateMachine} {evt : Event} {v : View}
    (h : Receives v evt) (hstate : v.state = m.state) (hcount : v.count = m.countState)
    (hlife : v.life = .live) : FitsTodo (tasks (m.fire w evt)) v := by
  obtain ⟨hterm, hplace⟩ := h.place hlife
  rw [hstate] at hterm hplace
  cases hrow : transitionTable m.state evt (m.hash ≠ "") with
  | none =>
    rw [UploadStateMachine.fire_noTransition hterm hrow]
    refine ⟨trivial, h.slot, ?_⟩
    rcases hplace with ⟨-, hallows⟩ | ⟨rfl, hs, -⟩ | ⟨⟨token, rfl⟩, hs, -⟩
    · simp only [Task.act, hlife, hstate]
      exact ⟨hterm, hallows⟩
    · rw [hs] at hrow; cases hrow
    · rw [hs] at hrow; cases hrow
  | some row =>
    obtain ⟨target, action⟩ := row
    have hentering :
        Entering (m.acted w evt action) { v with place := exitPlace m.state v.place } :=
      ⟨hlife, hcount.trans acted_countState.symm, h.slot⟩
    rw [UploadStateMachine.fire_row hrow, FitsTodo, List.append_assoc, List.append_assoc]
    refine leads_append.mpr (leads_onExit hlife ?_ ?_ (leads_append.mpr ((leads_silent fun x hx =>
      (fromAction_effects hx).silent).mpr ?_)))
    · intro hs
      rw [hs] at hplace
      rcases hplace with ⟨-, ⟨hp, -⟩ | ⟨hp, -⟩⟩ | ⟨-, -, hp, -⟩ | ⟨-, hs', -⟩
      · exact .inl hp
      · exact .inr hp
      · exact .inr hp
      · cases hs'
    · intro hs
      rw [hs] at hplace
      rcases hplace with ⟨-, ⟨hp, -⟩ | ⟨hp, -⟩⟩ | ⟨-, hs', -⟩ | ⟨-, -, hp, -⟩
      · exact .inl hp
      · exact .inr hp
      · cases hs'
      · exact .inr hp
    -- the states apart from the waiting ones are in no container
    have hnone (hs : m.state ≠ .waitForHashSignal ∧ m.state ≠ .waitForUploadSignal) :
        exitPlace m.state v.place = .none ∧ v.signal = false := by
      rcases hplace with ⟨-, hallows⟩ | ⟨-, hs', -⟩ | ⟨-, hs', -⟩
      · revert hallows hs
        cases m.state <;> simp +contextual [State.Allows, exitPlace]
      · exact absurd hs' hs.1
      · exact absurd hs' hs.2
    cases row_of_transitionTable hrow with
    | waitForHashSignal hstart =>
      obtain ⟨hp, hs⟩ := hnone (by rw [hstart]; decide)
      exact leads_waitForHashSignal hentering hp hs
    | setupHasher hstart hevt =>
      subst hevt
      rcases hplace with ⟨hevt, -⟩ | ⟨-, hs', hp, hs⟩ | ⟨⟨_, hevt⟩, -⟩
      · cases hevt
      · exact leads_setupHasher hentering (by rw [hs', hp]; rfl) hs
      · cases hevt
    | waitForUploadSignal hstart =>
      obtain ⟨hp, hs⟩ := hnone (by rcases hstart with hs | hs <;> rw [hs] <;> decide)
      exact leads_waitForUploadSignal hentering hp hs
    | inUploadCheck token hstart hevt =>
      subst hevt
      rcases hplace with ⟨hevt, -⟩ | ⟨hevt, -⟩ | ⟨-, hs', hp, hs⟩
      · cases hevt
      · cases hevt
      · exact leads_inUploadCheck hentering (by rw [hs', hp]; rfl) hs
    | working target htarget hstart =>
      obtain ⟨hp, hs⟩ := hnone hstart
      refine leads_append.mpr ((leads_silent (silent_onEntry_working htarget)).mpr ?_)
      refine leads_state.mpr ⟨h.slot, ?_⟩
      simp only [hlife, hp, hs]
      cases target <;> first | exact ⟨rfl, rfl, rfl⟩ | cases htarget
    | complete target htarget hentry =>
      obtain ⟨before, status, hbefore, hentry⟩ := hentry (m.acted w evt action)
      have hout : exitPlace m.state v.place ≠ .toHash ∧ exitPlace m.state v.place ≠ .toUpload := by
        rcases hplace with ⟨-, hallows⟩ | ⟨-, hs', hp, -⟩ | ⟨-, hs', hp, -⟩
        · exact hallows.exitPlace
        · rw [hs', hp]; decide
        · rw [hs', hp]; decide
      rw [hentry]
      exact leads_complete hentering hbefore htarget hout.1 hout.2

end MediafireSdk.Uploader
