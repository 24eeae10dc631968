import MediafireSdk.Http.PostWaits

/-! What a step does to the operations and their timeouts. A step arms one operation at most, and
only the handler of an operation clears the timeout or takes the race preventer of one. -/

namespace MediafireSdk.Http

/-- The handlers that take a race preventer. -/
def Act.guards : Act → Bool
  | .complete _ _ _ | .timer _ _ => true
  | _ => false

namespace Machine

/-- Nothing is armed, cleared or taken. -/
structure Steady (s s' : Machine) : Prop where
  fresh : s.fresh ≤ s'.fresh
  timeoutId : s'.timeoutId = s.timeoutId
  taken : s'.taken = s.taken
  ops : s'.ops = s.ops
  timers : s'.timers = s.timers

/-- What is armed between two machines: nothing, or one operation by `SetAsyncTimeout`. -/
inductive Arms (s : Machine) : List Op → Machine → Prop
  | none {s' : Machine} (h : Steady s s') : Arms s [] s'
  | one {u s' : Machine} (owner : ℕ) (reason : String) (timeoutSeconds : ℕ) (kind : OpKind)
      (h : Steady s u) (h' : Steady (u.async owner reason timeoutSeconds kind) s') :
      Arms s [{ owner := owner, race := u.fresh, kind := kind }] s'

/-- A state is left, and the next has no data or new data that it may arm an operation for. -/
inductive Enters (s : Machine) (armed : List Op) (s' : Machine) : Prop
  | bare (hlive : s'.live = none) (harmed : armed = [])
  | new (hlive : s'.live = some s.fresh) (harmed : ∀ op ∈ armed, op.owner = s.fresh)

/-- The data of the state stays, and nothing is armed while it has an operation, or the state is
left. -/
inductive Moves (s : Machine) (armed : List Op) (s' : Machine) : Prop
  | stays (hlive : s'.live = s.live) (harmed : armed ≠ [] → ∀ op ∈ s.ops, s.live ≠ some op.owner)
  | enters (h : Enters s armed s')

section
variable {s s' u : Machine} {armed : List Op}

theorem Steady.refl (s : Machine) : Steady s s := ⟨le_rfl, rfl, rfl, rfl, rfl⟩

theorem Steady.trans (h : Steady s u) (h' : Steady u s') : Steady s s' where
  fresh := h.fresh.trans h'.fresh
  timeoutId := h'.timeoutId.trans h.timeoutId
  taken := h'.taken.trans h.taken
  ops := h'.ops.trans h.ops
  timers := h'.timers.trans h.timers

theorem steady_begin (s : Machine) : Steady s s.begin := ⟨Nat.le_succ _, rfl, rfl, rfl, rfl⟩

theorem Arms.of_steady (h : Steady s u) (h' : Arms u armed s') : Arms s armed s' := by
  cases h' with
  | none h' => exact .none (h.trans h')
  | one owner reason timeoutSeconds kind h' hlast =>
    exact .one owner reason timeoutSeconds kind (h.trans h') hlast

theorem Arms.fresh_le (h : Arms s armed s') : s.fresh ≤ s'.fresh := by
  cases h with
  | none h => exact h.fresh
  | one owner reason timeoutSeconds kind h h' =>
    exact h.fresh.trans ((Nat.le_succ _).trans h'.fresh)

theorem Arms.race_ge (h : Arms s armed s') : ∀ op ∈ armed, s.fresh ≤ op.race := by
  cases h with
  | none h => simp
  | one owner reason timeoutSeconds kind h h' => simpa using h.fresh

theorem Arms.ops (h : Arms s armed s') : s'.ops = s.ops ++ armed := by
  cases h with
  | none h => rw [h.ops, List.append_nil]
  | one owner reason timeoutSeconds kind h h' => rw [h'.ops, async_ops, h.ops]

theorem Arms.taken (h : Arms s armed s') : s'.taken = s.taken := by
  cases h with
  | none h => exact h.taken
  | one owner reason timeoutSeconds kind h h' => rw [h'.taken, async_taken, h.taken]

/-- Every call of `SetAsyncTimeout` changes the id by one. -/
theorem Arms.timeoutId (h : Arms s armed s') :
    s'.timeoutId ≡ s.timeoutId + armed.length [MOD 2 ^ 32] := by
  cases h with
  | none h => rw [h.timeoutId]; rfl
  | one owner reason timeoutSeconds kind h h' =>
    rw [h'.timeoutId, async_timeoutId, h.timeoutId]
    exact Nat.mod_modEq _ _

theorem cancel_race (now : ℕ) (t : Timeout) : (t.cancel now).race = t.race := by
  unfold Timeout.cancel
  split_ifs <;> rfl

theorem cancel_id (now : ℕ) (t : Timeout) : (t.cancel now).id = t.id := by
  unfold Timeout.cancel
  split_ifs <;> rfl

/-- A timer is that of an operation that is armed, with the id of now, or has been there before
with its race and id. -/
theorem Arms.timer_cases (h : Arms s armed s') {t : Timeout} (ht : t ∈ s'.timers) :
    (∃ op ∈ armed, t.race = op.race ∧ t.id = s'.timeoutId) ∨
      ∃ t' ∈ s.timers, t'.race = t.race ∧ t'.id = t.id := by
  cases h with
  | none h => exact .inr ⟨t, h.timers ▸ ht, rfl, rfl⟩
  | one owner reason timeoutSeconds kind h h' =>
    rw [h'.timers] at ht
    rcases List.mem_append.mp ht with ht | ht
    · obtain ⟨t', ht', rfl⟩ := List.mem_map.mp ht
      exact .inr ⟨t', h.timers ▸ ht', (cancel_race _ _).symm, (cancel_id _ _).symm⟩
    · rw [List.mem_singleton.mp ht]
      exact .inl ⟨_, List.mem_singleton_self _, rfl, h'.timeoutId.symm⟩

/-- An operation that is armed is guarded. -/
theorem Arms.guarded (h : Arms s armed s') (hnumbered : Numbered s) {op : Op} (hop : op ∈ armed) :
    Guarded s' op.race := by
  cases h with
  | none h => cases hop
  | @one u _ owner reason timeoutSeconds kind h h' =>
    rw [List.mem_singleton.mp hop]
    refine ⟨fun hmem => ?_, ?_, fun t ht hrace => ?_⟩
    · rw [h'.taken, async_taken, h.taken] at hmem
      exact absurd (hnumbered.taken _ hmem) (not_lt.mpr h.fresh)
    · rw [h'.timers]
      exact ⟨_, List.mem_append_right _ (List.mem_singleton_self _), rfl⟩
    · rw [h'.timers] at ht
      rcases List.mem_append.mp ht with ht | ht
      · obtain ⟨t', ht', hrace'⟩ := mem_cancel ht hrace
        exact absurd (hnumbered.timers t' (h.timers ▸ ht')) (not_lt.mpr (hrace' ▸ h.fresh))
      · rw [List.mem_singleton.mp ht]
        exact ⟨rfl, h'.timeoutId.symm⟩

/-! ### Transitions -/

theorem steady_write (s : Machine) (request : Request) : Steady s (s.write request) := by
  rw [write_eq]
  exact ⟨le_rfl, rfl, rfl, rfl, rfl⟩

theorem steady_cancelDelays (s : Machine) : Steady s s.cancelDelays := by
  unfold cancelDelays
  split <;> exact ⟨le_rfl, rfl, rfl, rfl, rfl⟩

theorem arms_beginAsync (h : Steady s u) (hfresh : u.fresh = s.fresh) (reason : String)
    (timeoutSeconds : ℕ) (kind : OpKind)
    (h' : Steady (u.beginAsync reason timeoutSeconds kind) s')
    (hlive : s'.live = some u.fresh) : ∃ armed, Arms s armed s' ∧ Enters s armed s' := by
  refine ⟨_, .one u.fresh reason timeoutSeconds kind (h.trans u.steady_begin) h', ?_⟩
  exact .new (hlive.trans (congrArg some hfresh)) (by simp [hfresh])

theorem enterSendPost_arms (s : Machine) (answer : Answer) (hlive : s.live = none) :
    ∃ armed, Arms s armed (s.enterSendPost answer) ∧ Enters s armed (s.enterSendPost answer) := by
  unfold enterSendPost
  split
  case h_1 => exact ⟨[], .none ⟨le_rfl, rfl, rfl, rfl, rfl⟩, .bare hlive rfl⟩
  case h_2 postData _ =>
    have hwritten : Steady s (s.record (.wrotePost postData)) := ⟨le_rfl, rfl, rfl, rfl, rfl⟩
    exact arms_beginAsync hwritten rfl "write request post" s.cfg.timeoutSeconds .postWrite
      ⟨le_rfl, rfl, rfl, rfl, rfl⟩ rfl
  case h_3 =>
    dsimp only
    split <;>
      exact ⟨[], .none ⟨Nat.le_succ _, rfl, rfl, rfl, rfl⟩, .new rfl (by simp)⟩

theorem enterReadContent_arms (s : Machine) (evt : HeadersParsedEvent) :
    ∃ armed, Arms s armed (s.enterReadContent evt) ∧ Enters s armed (s.enterReadContent evt) := by
  unfold enterReadContent
  dsimp only
  generalize hu : (raiseAll _ _ : Machine) = u
  have hsteady : Steady s u := hu ▸ ⟨Nat.le_succ _, rfl, rfl, rfl, rfl⟩
  have hlive : u.live = some s.fresh := hu ▸ rfl
  split
  · exact ⟨[], .none hsteady, .new hlive (by simp)⟩
  · exact ⟨_, .one s.fresh _ _ _ hsteady (.refl _), .new hlive (by simp)⟩

theorem OnEntry.arms {answer : Answer} {t : Target} (h : OnEntry s answer t s')
    (hlive : s.live = none) : ∃ armed, Arms s armed s' ∧ Enters s armed s' := by
  cases h with
  | resolve url hurl =>
    have hrecorded : Steady s (s.record (.resolving url)) := ⟨le_rfl, rfl, rfl, rfl, rfl⟩
    exact arms_beginAsync hrecorded rfl _ _ _ (.refl _) rfl
  | connect endpoint url hurl =>
    have hrecorded : Steady s ((s.setProxy endpoint.proxy).record (.connecting url)) :=
      ⟨le_rfl, rfl, rfl, rfl, rfl⟩
    exact arms_beginAsync hrecorded rfl _ _ _ (.refl _) rfl
  | proxyConnect url hurl =>
    exact arms_beginAsync (s.steady_write _) (by rw [write_eq]) _ _ _ (.refl _) rfl
  | sslHandshake => exact arms_beginAsync (.refl s) rfl _ _ _ (.refl _) rfl
  | sendHeader url hurl =>
    exact arms_beginAsync (s.steady_write _) (by rw [write_eq]) _ _ _ (.refl _) rfl
  | sendPost post hpost => exact s.enterSendPost_arms answer hlive
  | readHeaders => exact arms_beginAsync (.refl s) rfl _ _ _ (.refl _) rfl
  | readContent evt => exact s.enterReadContent_arms evt
  | finalError evt =>
    refine ⟨[], .none ?_, .bare ((s.enterFinalError_live answer evt).trans hlive) rfl⟩
    have hsteady := s.disconnect.steady_cancelDelays
    exact ⟨hsteady.fresh, hsteady.timeoutId, hsteady.taken, hsteady.ops, hsteady.timers⟩
  | _ => exact ⟨[], .none ⟨le_rfl, rfl, rfl, rfl, rfl⟩, .bare hlive rfl⟩

theorem process_arms (s : Machine) (e : Event) (answer : Answer) :
    ∃ armed, Arms s armed (s.process e answer) ∧ Moves s armed (s.process e answer) :=
  process_cases (P := fun s' => ∃ armed, Arms s armed s' ∧ Moves s armed s') s e answer
    (fun _ => ⟨[], .none (.refl s), .stays rfl (absurd rfl)⟩)
    (fun _ _ => ⟨[], .none ⟨le_rfl, rfl, rfl, rfl, rfl⟩, .stays rfl (absurd rfl)⟩)
    fun t _ _ _ hentry => by
      have hleft : Steady s (s.leave t.state) := ⟨le_rfl, rfl, rfl, rfl, rfl⟩
      obtain ⟨armed, harms, henters⟩ := hentry.arms rfl
      refine ⟨armed, .of_steady hleft harms, .enters ?_⟩
      cases henters with
      | bare hlive harmed => exact .bare hlive harmed
      | new hlive harmed => exact .new hlive harmed

end

/-! ### One thing at a time -/

/-- How much is under way for the data with an owner number. -/
def load (s : Machine) (owner : ℕ) : ℕ :=
  s.ops.countP (·.owner = owner) + s.delays.countP (·.owner = owner) +
    s.tasks.countP (·.owner = some owner)

/-- At most one thing is under way for any data. -/
structure Lone (s : Machine) : Prop where
  one : ∀ owner, s.load owner ≤ 1

section Lone
variable {s s' u : Machine} {owner : ℕ}

theorem countP_eraseIdx {α : Type*} {l : List α} {i : ℕ} {a : α} (h : l[i]? = some a)
    (p : α → Bool) : (l.eraseIdx i).countP p + (if p a then 1 else 0) = l.countP p := by
  obtain ⟨hlt, rfl⟩ := List.getElem?_eq_some_iff.mp h
  rw [← List.countP_cons, (List.getElem_cons_eraseIdx_perm hlt).countP_eq]

theorem load_congr (hops : s'.ops = s.ops) (hdelays : s'.delays = s.delays)
    (htasks : s'.tasks = s.tasks) (owner : ℕ) : s'.load owner = s.load owner := by
  rw [load, load, hops, hdelays, htasks]

theorem Lone.congr (h : Lone s) (hops : s'.ops = s.ops) (hdelays : s'.delays = s.delays)
    (htasks : s'.tasks = s.tasks) : Lone s' :=
  ⟨fun owner => (load_congr hops hdelays htasks owner).trans_le (h.one owner)⟩

theorem Numbered.load_fresh (h : Numbered s) : s.load s.fresh = 0 := by
  have hops : s.ops.countP (·.owner = s.fresh) = 0 :=
    List.countP_eq_zero.mpr fun op hop => by simpa using (h.ops op hop).1.ne
  have hdelays : s.delays.countP (·.owner = s.fresh) = 0 :=
    List.countP_eq_zero.mpr fun d hd => by simpa using (h.delays d hd).ne
  have htasks : s.tasks.countP (·.owner = some s.fresh) = 0 :=
    List.countP_eq_zero.mpr fun t ht => by
      simp only [decide_eq_true_eq]
      exact fun heq => (h.tasks t ht s.fresh heq).ne rfl
  rw [load, hops, hdelays, htasks]

theorem load_async (s : Machine) (owner : ℕ) (reason : String) (timeoutSeconds : ℕ)
    (kind : OpKind) (other : ℕ) : (s.async owner reason timeoutSeconds kind).load other =
      s.load other + if owner = other then 1 else 0 := by
  simp only [load, async_ops, async_delays, async_tasks, List.countP_append, List.countP_cons,
    List.countP_nil, decide_eq_true_eq]
  omega

theorem load_delay (s : Machine) (owner : ℕ) (kind : DelayKind) (other : ℕ) :
    (s.delay owner kind).load other = s.load other + if owner = other then 1 else 0 := by
  simp only [load, delay_ops, delay_delays, delay_tasks, List.countP_append, List.countP_cons,
    List.countP_nil, List.countP_map, decide_eq_true_eq]
  simp only [Function.comp_def]
  omega

theorem load_next (s : Machine) (tasks : List Task) (other : ℕ) :
    (s.next tasks).load other = s.load other + tasks.countP (·.owner = some other) := by
  simp only [load, next_ops, next_delays, next_tasks, List.countP_append]
  omega

theorem load_dropOp {i : ℕ} {op : Op} (h : s.ops[i]? = some op) (other : ℕ) :
    (s.setOps (s.ops.eraseIdx i)).load other + (if op.owner = other then 1 else 0) =
      s.load other := by
  have hcount := countP_eraseIdx h fun op => decide (op.owner = other)
  simp only [decide_eq_true_eq] at hcount
  simp only [load, setOps_ops, setOps_delays, setOps_tasks]
  omega

theorem load_dropDelay {i : ℕ} {d : Delay} (h : s.delays[i]? = some d) (other : ℕ) :
    (s.setDelays (s.delays.eraseIdx i)).load other + (if d.owner = other then 1 else 0) =
      s.load other := by
  have hcount := countP_eraseIdx h fun d => decide (d.owner = other)
  simp only [decide_eq_true_eq] at hcount
  simp only [load, setDelays_ops, setDelays_delays, setDelays_tasks]
  omega

theorem load_dropTask {t : Task} {tasks : List Task} (h : s.tasks = t :: tasks) (other : ℕ) :
    (s.setTasks tasks).load other + (if t.owner = some other then 1 else 0) = s.load other := by
  simp only [load, setTasks_ops, setTasks_delays, setTasks_tasks, h, List.countP_cons,
    decide_eq_true_eq]
  omega

/-- There is room for one thing where there is none. -/
theorem Lone.add (h : Lone s) (hfree : s.load owner = 0)
    (hadd : ∀ other, s'.load other ≤ s.load other + if owner = other then 1 else 0) : Lone s' := by
  refine ⟨fun other => ?_⟩
  have hle := hadd other
  have hone := h.one other
  split_ifs at hle with heq
  · subst heq
    omega
  · omega

theorem Lone.async (h : Lone s) (hfree : s.load owner = 0) (hops : u.ops = s.ops)
    (hdelays : u.delays = s.delays) (htasks : u.tasks = s.tasks) (reason : String)
    (timeoutSeconds : ℕ) (kind : OpKind) : Lone (u.async owner reason timeoutSeconds kind) :=
  h.add hfree fun other => by rw [load_async, load_congr hops hdelays htasks]

theorem Lone.beginAsync (h : Lone s) (hnumbered : Numbered s) (hops : u.ops = s.ops)
    (hdelays : u.delays = s.delays) (htasks : u.tasks = s.tasks) (hfresh : u.fresh = s.fresh)
    (reason : String) (timeoutSeconds : ℕ) (kind : OpKind) :
    Lone (u.beginAsync reason timeoutSeconds kind) :=
  h.async (u := u.begin) (hfresh ▸ hnumbered.load_fresh) hops hdelays htasks reason timeoutSeconds
    kind

theorem Lone.enterSendPost (h : Lone s) (hnumbered : Numbered s) (answer : Answer) :
    Lone (s.enterSendPost answer) := by
  unfold Machine.enterSendPost
  split
  case h_1 => exact h.congr rfl rfl rfl
  case h_2 postData _ =>
    have hbegun := h.beginAsync (u := s.record (.wrotePost postData)) hnumbered rfl rfl rfl rfl
      "write request post" s.cfg.timeoutSeconds .postWrite
    exact hbegun.congr rfl rfl rfl
  case h_3 =>
    dsimp only
    generalize hu : (raiseAll _ _ : Machine) = u
    have hload (other : ℕ) : u.load other = s.load other :=
      load_congr (hu ▸ rfl) (hu ▸ rfl) (hu ▸ rfl) other
    split
    · exact ⟨fun other => (hload other).trans_le (h.one other)⟩
    · refine h.add hnumbered.load_fresh fun other => ?_
      rw [load_delay, hload]

theorem Lone.enterReadContent (h : Lone s) (hnumbered : Numbered s) (evt : HeadersParsedEvent) :
    Lone (s.enterReadContent evt) := by
  unfold Machine.enterReadContent
  dsimp only
  generalize hu : (raiseAll _ _ : Machine) = u
  have hload (other : ℕ) : u.load other = s.load other :=
    load_congr (hu ▸ rfl) (hu ▸ rfl) (hu ▸ rfl) other
  split
  · exact ⟨fun other => (hload other).trans_le (h.one other)⟩
  · refine h.add hnumbered.load_fresh fun other => ?_
    rw [load_async, hload]

theorem load_cancelDelays (s : Machine) (owner : ℕ) : s.cancelDelays.load owner = s.load owner := by
  unfold cancelDelays
  split
  · simp only [load, List.countP_map]
    rfl
  · rfl

theorem OnEntry.lone {answer : Answer} {t : Target} (hentry : OnEntry s answer t s') (h : Lone s)
    (hnumbered : Numbered s) : Lone s' := by
  cases hentry with
  | resolve url hurl =>
    exact h.beginAsync (u := s.record (.resolving url)) hnumbered rfl rfl rfl rfl _ _ _
  | connect endpoint url hurl =>
    exact h.beginAsync (u := (s.setProxy endpoint.proxy).record (.connecting url)) hnumbered rfl rfl
      rfl rfl _ _ _
  | proxyConnect url hurl =>
    exact h.beginAsync hnumbered (by rw [write_eq]) (by rw [write_eq]) (by rw [write_eq])
      (by rw [write_eq]) _ _ _
  | sslHandshake => exact h.beginAsync hnumbered rfl rfl rfl rfl _ _ _
  | sendHeader url hurl =>
    exact h.beginAsync hnumbered (by rw [write_eq]) (by rw [write_eq]) (by rw [write_eq])
      (by rw [write_eq]) _ _ _
  | sendPost post hpost => exact h.enterSendPost hnumbered answer
  | readHeaders => exact h.beginAsync hnumbered rfl rfl rfl rfl _ _ _
  | readContent evt => exact h.enterReadContent hnumbered evt
  | finalError evt =>
    refine ⟨fun owner => ?_⟩
    have hload : (s.enterFinalError evt answer).load owner = s.disconnect.cancelDelays.load owner :=
      rfl
    rw [hload, load_cancelDelays]
    exact h.one owner
  | _ => exact h.congr rfl rfl rfl

theorem Lone.process (h : Lone s) (hnumbered : Numbered s) (e : Event) (answer : Answer) :
    Lone (s.process e answer) :=
  process_cases (P := Lone) s e answer (fun _ => h) (fun _ _ => h.congr rfl rfl rfl)
    fun t _ _ _ hentry => hentry.lone (h.congr rfl rfl rfl) (hnumbered.leave t.state)

theorem ContentTasks.countP_le {total : ℕ} {d d' : ReadContentData} {tasks : List Task}
    (h : ContentTasks owner d total tasks d') (other : ℕ) :
    tasks.countP (·.owner = some other) ≤ if owner = other then 1 else 0 := by
  cases h <;> simp [Task.owner, List.countP_cons]

/-- A handler whose operation is over leaves one thing under way at most. -/
theorem Handled.lone {kind : OpKind} (hhandled : Handled s owner kind s') (h : Lone s)
    (hfree : s.load owner = 0) : Lone s' := by
  refine h.add hfree fun other => ?_
  cases hhandled with
  | event _ e hraises => rw [load_next]; simp [Task.owner]
  | established =>
    have hload : s.establish.load other = s.load other := load_congr rfl rfl rfl other
    rw [load_next, hload]
    simp [Task.owner]
  | proxyRead => rw [load_async]
  | pipe size hpost => rw [load_next]; simp [Task.owner, List.countP_cons]
  | content op received tasks d hcontent =>
    have hload : (s.setContent d).load other = s.load other := load_congr rfl rfl rfl other
    rw [load_next, hload]
    exact Nat.add_le_add_left (hcontent.countP_le other) _

theorem Lone.postViaInterface (h : Lone s) (hfree : s.load owner = 0) (answer : Answer) :
    Lone (s.postViaInterface owner answer) := by
  refine h.add hfree fun other => ?_
  unfold Machine.postViaInterface
  dsimp only
  have hevents (events : List Event) :
      (events.map Task.event).countP (·.owner = some other) = 0 :=
    List.countP_eq_zero.mpr fun t ht => by
      obtain ⟨e, -, rfl⟩ := List.mem_map.mp ht
      simp [Task.owner]
  have hload : (s.readPipe answer.chunk.bytes).load other = s.load other :=
    load_congr rfl rfl rfl other
  rw [load_next, hload, List.countP_append, hevents, zero_add]
  refine Nat.add_le_add_left ?_ _
  by_cases hbytes : answer.chunk.bytes = []
  · simp [hbytes]
  · simp [hbytes, Task.owner, List.countP_cons]

theorem Lone.runTask {t : Task} {tasks : List Task} (h : Lone s) (hnumbered : Numbered s)
    (htasks : s.tasks = t :: tasks) (answer : Answer) :
    Lone ((s.setTasks tasks).runTask t answer) := by
  have hdropped : Lone (s.setTasks tasks) := ⟨fun other => by
    have hload := load_dropTask htasks other
    have hone := h.one other
    omega⟩
  have hfree (owner : ℕ) (howner : t.owner = some owner) : (s.setTasks tasks).load owner = 0 := by
    have hload := load_dropTask htasks owner
    have hone := h.one owner
    rw [if_pos howner] at hload
    omega
  cases t with
  | event e => exact hdropped.process (hnumbered.dropTask htasks) e answer
  | content startPos buffer =>
    refine ⟨fun other => ?_⟩
    have hevents : (((s.setTasks tasks).callbackCalls answer).map Task.event).countP
        (·.owner = some other) = 0 :=
      List.countP_eq_zero.mpr fun t ht => by
        obtain ⟨e, -, rfl⟩ := List.mem_map.mp ht
        simp [Task.owner]
    have hload : ((s.setTasks tasks).record (.responseContentReceived startPos buffer)).load other =
        (s.setTasks tasks).load other := load_congr rfl rfl rfl other
    rw [Machine.runTask, load_next, hevents, hload]
    exact hdropped.one other
  | start owner op =>
    refine hdropped.add (hfree owner rfl) fun other => ?_
    show ((s.setTasks tasks).startContent owner op).load other ≤ _
    unfold startContent
    by_cases hdelay : op.isDelay = true
    · rw [if_pos hdelay, load_delay]
    · rw [if_neg hdelay, load_async]
  | delayPost owner postData =>
    exact hdropped.add (hfree owner rfl) fun other => (load_delay _ _ _ other).le
  | pipe owner => exact hdropped.postViaInterface (hfree owner rfl) answer

theorem Lone.step {a : Act} (h : Lone s) (hnumbered : Numbered s) (hstep : s.step a = some s') :
    Lone s' := by
  cases step_cases hstep with
  | clock elapsed => exact h.congr rfl rfl rfl
  | queued e queue answer hqueue =>
    have hset : Numbered (s.setQueue queue) := hnumbered.congr rfl rfl rfl rfl rfl rfl rfl
    have hlone : Lone (s.setQueue queue) := h.congr rfl rfl rfl
    exact hlone.process hset e answer
  | task t tasks answer hqueue htasks => exact h.runTask hnumbered htasks answer
  | start hqueue htasks => exact h.process hnumbered _ _
  | call call hqueue htasks => exact h.process hnumbered _ _
  | complete i op received err hqueue htasks hop =>
    have hdropped : Lone (s.setOps (s.ops.eraseIdx i)) := ⟨fun other => by
      have hload := load_dropOp hop other
      have hone := h.one other
      omega⟩
    refine completed_cases (P := Lone) _ op received err hdropped (hdropped.congr rfl rfl rfl)
      fun s' _ _ hhandled => ?_
    have hcleared : Lone ((s.setOps (s.ops.eraseIdx i)).take op.race).clearAsyncTimeout :=
      hdropped.congr rfl rfl rfl
    refine hhandled.lone hcleared ?_
    have hload := load_dropOp hop op.owner
    have hone := h.one op.owner
    rw [if_pos rfl] at hload
    have hfree : (s.setOps (s.ops.eraseIdx i)).load op.owner = 0 := by omega
    exact hfree
  | timer i t err hqueue htasks ht hcompletes =>
    have hdropped : Lone (s.setTimers (s.timers.eraseIdx i)) := h.congr rfl rfl rfl
    refine timedOut_cases (P := Lone) _ t err hdropped (hdropped.congr rfl rfl rfl) fun _ _ => ?_
    have htaken : Lone ((s.setTimers (s.timers.eraseIdx i)).take t.race) := h.congr rfl rfl rfl
    exact ⟨fun other => by simpa [load_next, Task.owner] using htaken.one other⟩
  | delay i d err hqueue htasks hd =>
    have hdropped : Lone (s.setDelays (s.delays.eraseIdx i)) := ⟨fun other => by
      have hload := load_dropDelay hd other
      have hone := h.one other
      omega⟩
    have hfree : (s.setDelays (s.delays.eraseIdx i)).load d.owner = 0 := by
      have hload := load_dropDelay hd d.owner
      have hone := h.one d.owner
      rw [if_pos rfl] at hload
      omega
    exact delayed_cases (P := Lone) _ d err hdropped
      (fun _ _ _ => hdropped.async hfree (by rfl) (by rfl) (by rfl) _ _ _)
      fun _ _ _ _ _ _ => hdropped.async hfree (by rfl) (by rfl) (by rfl) _ _ _

theorem lone_create (cfg : Config) (time : ℕ) : Lone (create cfg time) := ⟨fun _ => Nat.zero_le 1⟩

end Lone

/-! ### Steps -/

/-- The handler of a chunk is about to arm the read of the next size although its data is
cancelled, and the state that the machine is in has data of its own. -/
def strays (s : Machine) : Bool :=
  match s.queue, s.tasks with
  | [], .start owner op :: _ => !op.isDelay && s.live.any (· ≠ owner)
  | _, _ => false

/-- What a step does to the operations and timeouts: what is neither the handler of an operation
nor that of a timeout at most arms; a handler of an operation is ignored, or it takes its race
preventer and clears the timeout first. -/
inductive Timing (s s' : Machine) : Act → List Op → Prop
  | other {a : Act} {armed : List Op} (hact : a.guards = false) (harms : Arms s armed s')
      (hmoves : Moves s armed s') : Timing s s' a armed
  | ignored (i : ℕ) (received : List UInt8) (err : Option IoError) (op : Op) (hidle : s.idle = true)
      (hop : s.ops[i]? = some op) (hnot : s.live = some op.owner → op.race ∈ s.taken)
      (h : s' = s.setOps (s.ops.eraseIdx i) ∨
        s.live ≠ some op.owner ∧ s' = (s.setOps (s.ops.eraseIdx i)).take op.race) :
      Timing s s' (.complete i received err) []
  | handled (i : ℕ) (received : List UInt8) (err : Option IoError) (op : Op) (armed : List Op)
      (hidle : s.idle = true) (hop : s.ops[i]? = some op) (hlive : s.live = some op.owner)
      (hfirst : op.race ∉ s.taken)
      (harms : Arms ((s.setOps (s.ops.eraseIdx i)).take op.race).clearAsyncTimeout armed s')
      (hstays : s'.live = s.live) (hfree : ∀ op ∈ s.ops.eraseIdx i, s.live ≠ some op.owner) :
      Timing s s' (.complete i received err) armed
  | timeout (i : ℕ) (err : Bool) (t : Timeout) (hidle : s.idle = true) (ht : s.timers[i]? = some t)
      (hcompletes : t.completes s.now err = true)
      (h : s' = (s.setTimers (s.timers.eraseIdx i)).timedOut t err) : Timing s s' (.timer i err) []

section Timing
variable {s s' u : Machine} {owner : ℕ} {armed : List Op}

theorem ops_of_load (h : s.load owner = 0) (hlive : s.live = some owner) :
    ∀ op ∈ s.ops, s.live ≠ some op.owner := by
  intro op hop heq
  rw [hlive] at heq
  cases heq
  have hcount : 0 < s.ops.countP (·.owner = op.owner) :=
    List.countP_pos_iff.mpr ⟨op, hop, by simp⟩
  unfold load at h
  omega

theorem timing_transition {a : Act} (hact : a.guards = false) (hu : Steady s u)
    (hlive : u.live = s.live) (hfresh : u.fresh = s.fresh) (e : Event) (answer : Answer) :
    ∃ armed, Timing s (u.process e answer) a armed := by
  obtain ⟨armed, harms, hmoves⟩ := u.process_arms e answer
  refine ⟨armed, .other hact (.of_steady hu harms) ?_⟩
  cases hmoves with
  | stays hstays harmed => exact .stays (hstays.trans hlive) (hlive ▸ hu.ops ▸ harmed)
  | enters h =>
    cases h with
    | bare hnone harmed => exact .enters (.bare hnone harmed)
    | new hnew harmed => exact .enters (.new (hfresh ▸ hnew) (hfresh ▸ harmed))

/-- What leaves the operations and timeouts alone. -/
theorem timing_steady {a : Act} (hact : a.guards = false) (h : Steady s s')
    (hlive : s'.live = s.live) : ∃ armed, Timing s s' a armed :=
  ⟨[], .other hact (.none h) (.stays hlive (absurd rfl))⟩

/-- An operation that is armed for the data that is left alone, when nothing else is under way
for it. -/
theorem timing_async {a : Act} (hact : a.guards = false) (hu : Steady s u) (hlive : u.live = s.live)
    (hfree : ∀ op ∈ s.ops, s.live ≠ some op.owner) (owner : ℕ) (reason : String)
    (timeoutSeconds : ℕ) (kind : OpKind) :
    ∃ armed, Timing s (u.async owner reason timeoutSeconds kind) a armed :=
  ⟨_, .other hact (.one owner reason timeoutSeconds kind hu (.refl _))
    (.stays hlive fun _ => hfree)⟩

theorem Handled.arms {kind : OpKind} (h : Handled s owner kind s') :
    ∃ armed, Arms s armed s' := by
  cases h with
  | proxyRead => exact ⟨_, .one owner _ _ _ (.refl s) (.refl _)⟩
  | _ => exact ⟨[], .none ⟨le_rfl, rfl, rfl, rfl, rfl⟩⟩

theorem timing_task {t : Task} {tasks : List Task} (h : Lone s) (hqueue : s.queue = [])
    (htasks : s.tasks = t :: tasks) (hstrays : s.strays = false) (answer : Answer) :
    ∃ armed, Timing s ((s.setTasks tasks).runTask t answer) (.proceed answer) armed := by
  have hset : Steady s (s.setTasks tasks) := ⟨le_rfl, rfl, rfl, rfl, rfl⟩
  cases t with
  | event e => exact timing_transition rfl hset rfl rfl e answer
  | content startPos buffer => exact timing_steady rfl ⟨le_rfl, rfl, rfl, rfl, rfl⟩ rfl
  | delayPost owner postData => exact timing_steady rfl ⟨le_rfl, rfl, rfl, rfl, rfl⟩ rfl
  | pipe owner => exact timing_steady rfl ⟨le_rfl, rfl, rfl, rfl, rfl⟩ rfl
  | start owner op =>
    show ∃ armed, Timing s ((s.setTasks tasks).startContent owner op) _ armed
    unfold startContent
    by_cases hdelay : op.isDelay = true
    · rw [if_pos hdelay]
      exact timing_steady rfl ⟨le_rfl, rfl, rfl, rfl, rfl⟩ rfl
    · rw [if_neg hdelay]
      refine timing_async rfl hset rfl ?_ _ _ _ _
      intro op' hop' hlive
      have howner : op'.owner = owner := by
        simpa [strays, hqueue, htasks, hdelay, hlive] using hstrays
      have hload := load_dropTask htasks owner
      have hone := h.one owner
      have hown : (Task.start owner op).owner = some owner := rfl
      rw [if_pos hown] at hload
      have hfree : (s.setTasks tasks).load owner = 0 := by omega
      exact ops_of_load hfree (howner ▸ hlive) op' hop' hlive

theorem timing_completed {i : ℕ} {op : Op} (h : Lone s) (hidle : s.idle = true)
    (hop : s.ops[i]? = some op) (received : List UInt8) (err : Option IoError) :
    ∃ armed, Timing s ((s.setOps (s.ops.eraseIdx i)).completed op received err)
      (.complete i received err) armed := by
  unfold Machine.completed
  split_ifs with hlive hfirst
  · -- Only the handler of a name resolution takes its race preventer for data that is cancelled.
    have hnot : s.live = some op.owner → op.race ∈ s.taken := fun heq => absurd heq hlive
    split
    · exact ⟨[], .ignored i received err op hidle hop hnot (.inr ⟨hlive, rfl⟩)⟩
    · exact ⟨[], .ignored i received err op hidle hop hnot (.inl rfl)⟩
  · exact ⟨[], .ignored i received err op hidle hop (fun _ => hfirst) (.inl rfl)⟩
  · have hlive' : s.live = some op.owner := not_not.mp hlive
    have hload := load_dropOp hop op.owner
    have hone := h.one op.owner
    rw [if_pos rfl] at hload
    have hfree : (s.setOps (s.ops.eraseIdx i)).load op.owner = 0 := by omega
    have hhandled := handle_cases ((s.setOps (s.ops.eraseIdx i)).take op.race).clearAsyncTimeout
      op.owner op.kind received err
    obtain ⟨armed, harms⟩ := hhandled.arms
    exact ⟨armed, .handled i received err op armed hidle hop hlive' hfirst harms hhandled.kept.live
      (ops_of_load hfree hlive')⟩

theorem timing_delayed {i : ℕ} {d : Delay} (h : Lone s) (hd : s.delays[i]? = some d) (err : Bool) :
    ∃ armed, Timing s ((s.setDelays (s.delays.eraseIdx i)).delayed d err) (.delay i err) armed := by
  have hload := load_dropDelay hd d.owner
  have hone := h.one d.owner
  rw [if_pos rfl] at hload
  have hfree : (s.setDelays (s.delays.eraseIdx i)).load d.owner = 0 := by omega
  have hfree' (hlive : s.live = some d.owner) : ∀ op ∈ s.ops, s.live ≠ some op.owner :=
    ops_of_load (s := s.setDelays (s.delays.eraseIdx i)) hfree hlive
  refine delayed_cases (P := fun s' => ∃ armed, Timing s s' (.delay i err) armed) _ d err
    (timing_steady rfl ⟨le_rfl, rfl, rfl, rfl, rfl⟩ rfl) (fun postData hlive _ => ?_)
    fun op next enabled hlive _ _ => ?_
  · have hu : Steady s (((s.setDelays (s.delays.eraseIdx i)).setDelayTimerEnabled false).record
        (.wrotePost postData)) := ⟨le_rfl, rfl, rfl, rfl, rfl⟩
    exact timing_async rfl hu rfl (hfree' hlive) _ _ _ _
  · have hu : Steady s ((s.setDelays (s.delays.eraseIdx i)).setDelayTimerEnabled enabled) :=
      ⟨le_rfl, rfl, rfl, rfl, rfl⟩
    exact timing_async rfl hu rfl (hfree' hlive) _ _ _ _

theorem timing_step {a : Act} (h : Lone s) (hstrays : s.strays = false)
    (hstep : s.step a = some s') : ∃ armed, Timing s s' a armed := by
  cases step_cases hstep with
  | clock elapsed => exact timing_steady rfl ⟨le_rfl, rfl, rfl, rfl, rfl⟩ rfl
  | queued e queue answer hqueue =>
    have hset : Steady s (s.setQueue queue) := ⟨le_rfl, rfl, rfl, rfl, rfl⟩
    exact timing_transition rfl hset rfl rfl e answer
  | task t tasks answer hqueue htasks => exact timing_task h hqueue htasks hstrays answer
  | start hqueue htasks => exact timing_transition rfl (.refl s) rfl rfl _ _
  | call call hqueue htasks => exact timing_transition rfl (.refl s) rfl rfl _ _
  | complete i op received err hqueue htasks hop =>
    exact timing_completed h (idle_of_nil hqueue htasks) hop received err
  | timer i t err hqueue htasks ht hcompletes =>
    exact ⟨[], .timeout i err t (idle_of_nil hqueue htasks) ht hcompletes rfl⟩
  | delay i d err hqueue htasks hd => exact timing_delayed h hd err

end Timing

end Machine

end MediafireSdk.Http
