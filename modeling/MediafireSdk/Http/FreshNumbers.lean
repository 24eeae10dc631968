import MediafireSdk.Http.Tasks

/-! The numbers of the data and of the race preventers are handed out in order, so that the data
of a state that is entered has no operation, timer or task yet, and no two operations share a
race preventer. -/

namespace MediafireSdk.Http

/-- Whose data a task has. -/
def Task.owner : Task → Option ℕ
  | .start owner _ | .delayPost owner _ | .pipe owner => some owner
  | _ => none

namespace Machine

/-- Every number in use has been handed out. -/
structure Numbered (s : Machine) : Prop where
  taken : ∀ race ∈ s.taken, race < s.fresh
  ops : ∀ op ∈ s.ops, op.owner < s.fresh ∧ op.race < s.fresh
  timers : ∀ t ∈ s.timers, t.race < s.fresh
  delays : ∀ d ∈ s.delays, d.owner < s.fresh
  live : ∀ owner ∈ s.live, owner < s.fresh
  tasks : ∀ t ∈ s.tasks, ∀ owner ∈ t.owner, owner < s.fresh
  races : (s.ops.map Op.race).Nodup

section Numbered
variable {s s' : Machine}

theorem Numbered.mem_race (h : Numbered s) {op op' : Op} (hop : op ∈ s.ops) (hop' : op' ∈ s.ops)
    (hrace : op.race = op'.race) : op = op' :=
  List.inj_on_of_nodup_map h.races hop hop' hrace

theorem mem_cancel {now race : ℕ} {timers : List Timeout} {t : Timeout}
    (ht : t ∈ timers.map (Timeout.cancel now)) (hrace : t.race = race) :
    ∃ t' ∈ timers, t'.race = race := by
  obtain ⟨t', ht', rfl⟩ := List.mem_map.mp ht
  refine ⟨t', ht', ?_⟩
  rw [← hrace, Timeout.cancel]
  split_ifs <;> rfl

theorem Numbered.clearAsyncTimeout (h : Numbered s) : Numbered s.clearAsyncTimeout where
  taken := h.taken
  ops := h.ops
  timers t ht := by
    obtain ⟨t', ht', hrace⟩ := mem_cancel ht rfl
    exact hrace ▸ h.timers t' ht'
  delays := h.delays
  live := h.live
  tasks := h.tasks
  races := h.races

theorem Numbered.async (h : Numbered s) {owner : ℕ} (howner : owner < s.fresh) (reason : String)
    (timeoutSeconds : ℕ) (kind : OpKind) :
    Numbered (s.async owner reason timeoutSeconds kind) where
  taken race hrace := Nat.lt_succ_of_lt (h.taken race hrace)
  ops op hop := by
    rcases List.mem_append.mp hop with hop | hop
    · exact ⟨Nat.lt_succ_of_lt (h.ops op hop).1, Nat.lt_succ_of_lt (h.ops op hop).2⟩
    · rw [List.mem_singleton.mp hop]
      exact ⟨Nat.lt_succ_of_lt howner, Nat.lt_succ_self _⟩
  timers t ht := by
    rcases List.mem_append.mp ht with ht | ht
    · obtain ⟨t', ht', hrace⟩ := mem_cancel ht rfl
      exact hrace ▸ Nat.lt_succ_of_lt (h.timers t' ht')
    · rw [List.mem_singleton.mp ht]
      exact Nat.lt_succ_self _
  delays d hd := Nat.lt_succ_of_lt (h.delays d hd)
  live other hother := Nat.lt_succ_of_lt (h.live other hother)
  tasks t ht other hother := Nat.lt_succ_of_lt (h.tasks t ht other hother)
  races := by
    simp only [async_ops, List.map_append, List.map_cons, List.map_nil]
    refine List.nodup_append.mpr ⟨h.races, List.nodup_singleton _, ?_⟩
    intro race hrace race' hrace' heq
    obtain ⟨op, hop, rfl⟩ := List.mem_map.mp hrace
    have hlt := (h.ops op hop).2
    rw [List.mem_singleton.mp hrace'] at heq
    omega

theorem Numbered.begin (h : Numbered s) : Numbered s.begin where
  taken race hrace := Nat.lt_succ_of_lt (h.taken race hrace)
  ops op hop := ⟨Nat.lt_succ_of_lt (h.ops op hop).1, Nat.lt_succ_of_lt (h.ops op hop).2⟩
  timers t ht := Nat.lt_succ_of_lt (h.timers t ht)
  delays d hd := Nat.lt_succ_of_lt (h.delays d hd)
  live owner howner := by
    rw [begin_live] at howner
    cases howner
    exact Nat.lt_succ_self _
  tasks t ht owner howner := Nat.lt_succ_of_lt (h.tasks t ht owner howner)
  races := h.races

theorem Numbered.beginAsync (h : Numbered s) (reason : String) (timeoutSeconds : ℕ)
    (kind : OpKind) : Numbered (s.beginAsync reason timeoutSeconds kind) :=
  h.begin.async (Nat.lt_succ_self _) reason timeoutSeconds kind

theorem Numbered.delay (h : Numbered s) {owner : ℕ} (howner : owner < s.fresh)
    (kind : DelayKind) : Numbered (s.delay owner kind) where
  taken := h.taken
  ops := h.ops
  timers := h.timers
  delays d hd := by
    rcases List.mem_append.mp hd with hd | hd
    · obtain ⟨d', hd', rfl⟩ := List.mem_map.mp hd
      exact h.delays d' hd'
    · rw [List.mem_singleton.mp hd]
      exact howner
  live := h.live
  tasks := h.tasks
  races := h.races

theorem Numbered.take (h : Numbered s) {race : ℕ} (hrace : race < s.fresh) :
    Numbered (s.take race) where
  taken race' hmem := by
    rcases List.mem_cons.mp hmem with rfl | hmem
    · exact hrace
    · exact h.taken race' hmem
  ops := h.ops
  timers := h.timers
  delays := h.delays
  live := h.live
  tasks := h.tasks
  races := h.races

theorem Numbered.next (h : Numbered s) {tasks : List Task}
    (htasks : ∀ t ∈ tasks, ∀ owner ∈ t.owner, owner < s.fresh) : Numbered (s.next tasks) where
  taken := h.taken
  ops := h.ops
  timers := h.timers
  delays := h.delays
  live := h.live
  tasks t ht := by
    rcases List.mem_append.mp ht with ht | ht
    · exact htasks t ht
    · exact h.tasks t ht
  races := h.races

/-- With fewer things left to complete. -/
theorem Numbered.fewer (h : Numbered s) {ops : List Op} {timers : List Timeout}
    {delays : List Delay} {tasks : List Task} (hops : ops.Sublist s.ops) (htimers : timers ⊆ s.timers)
    (hdelays : delays ⊆ s.delays) (htasks : tasks ⊆ s.tasks) :
    Numbered { s with ops := ops, timers := timers, delays := delays, tasks := tasks } where
  taken := h.taken
  ops op hop := h.ops op (hops.subset hop)
  timers t ht := h.timers t (htimers ht)
  delays d hd := h.delays d (hdelays hd)
  live := h.live
  tasks t ht := h.tasks t (htasks ht)
  races := h.races.sublist (hops.map _)

theorem Numbered.dropOp (h : Numbered s) (i : ℕ) : Numbered (s.setOps (s.ops.eraseIdx i)) :=
  h.fewer (List.eraseIdx_sublist _ _) (List.Subset.refl _) (List.Subset.refl _) (List.Subset.refl _)

theorem Numbered.dropTask (h : Numbered s) {t : Task} {tasks : List Task}
    (htasks : s.tasks = t :: tasks) : Numbered (s.setTasks tasks) :=
  h.fewer (.refl _) (List.Subset.refl _) (List.Subset.refl _) (htasks ▸ List.subset_cons_self _ _)

theorem Numbered.leave (h : Numbered s) (target : StateName) : Numbered (s.leave target) :=
  ⟨h.taken, h.ops, h.timers, h.delays, nofun, h.tasks, h.races⟩

/-- What touches none of the numbers. -/
theorem Numbered.congr (h : Numbered s) (hfresh : s'.fresh = s.fresh) (htaken : s'.taken = s.taken)
    (hops : s'.ops = s.ops) (htimers : s'.timers = s.timers) (hdelays : s'.delays = s.delays)
    (hlive : s'.live = s.live) (htasks : s'.tasks = s.tasks) : Numbered s' where
  taken := by rw [htaken, hfresh]; exact h.taken
  ops := by rw [hops, hfresh]; exact h.ops
  timers := by rw [htimers, hfresh]; exact h.timers
  delays := by rw [hdelays, hfresh]; exact h.delays
  live := by rw [hlive, hfresh]; exact h.live
  tasks := by rw [htasks, hfresh]; exact h.tasks
  races := by rw [hops]; exact h.races

/-! ### Transitions -/

theorem Numbered.write (h : Numbered s) (request : Request) : Numbered (s.write request) := by
  unfold Machine.write
  split
  · exact h
  · exact h.congr rfl rfl rfl rfl rfl rfl rfl

theorem Numbered.cancelDelays (h : Numbered s) : Numbered s.cancelDelays := by
  unfold Machine.cancelDelays
  split
  · refine ⟨h.taken, h.ops, h.timers, fun d hd => ?_, h.live, h.tasks, h.races⟩
    obtain ⟨d', hd', rfl⟩ := List.mem_map.mp hd
    exact h.delays d' hd'
  · exact h

theorem Numbered.enterSendPost (h : Numbered s) (answer : Answer) :
    Numbered (s.enterSendPost answer) := by
  unfold Machine.enterSendPost
  split
  · exact h.congr rfl rfl rfl rfl rfl rfl rfl
  · have hwritten : Numbered (s.record (.wrotePost ‹_›)) := h.congr rfl rfl rfl rfl rfl rfl rfl
    have hbegun := hwritten.beginAsync "write request post" s.cfg.timeoutSeconds .postWrite
    exact hbegun.congr rfl rfl rfl rfl rfl rfl rfl
  · dsimp only
    have hbegun : Numbered (({ s.begin with
        sendPostData := SendPostData.read { postInterfaceSize := ‹_› } answer.chunk.bytes }
          : Machine).raiseAll (answer.calls.map Call.event ++
            SendPostData.pipeEvents { postInterfaceSize := ‹_› } answer.chunk)) :=
      h.begin.congr rfl rfl rfl rfl rfl rfl rfl
    split
    · exact hbegun
    · exact hbegun.delay (Nat.lt_succ_self _) _

theorem Numbered.enterReadContent (h : Numbered s) (evt : HeadersParsedEvent) :
    Numbered (s.enterReadContent evt) := by
  unfold Machine.enterReadContent
  dsimp only
  have hbegun (d : ReadContentData) (events : List Event) :
      Numbered (({ s.begin with readContentData := d } : Machine).raiseAll events) :=
    h.begin.congr rfl rfl rfl rfl rfl rfl rfl
  split
  · exact hbegun _ _
  · exact (hbegun _ _).async (Nat.lt_succ_self _) _ _ _

theorem OnEntry.numbered {answer : Answer} {t : Target} (hentry : OnEntry s answer t s')
    (h : Numbered s) : Numbered s' := by
  have hrecord (entry : Entry) : Numbered (s.record entry) := h.congr rfl rfl rfl rfl rfl rfl rfl
  cases hentry with
  | resolve url hurl => exact (hrecord _).beginAsync _ _ _
  | connect endpoint url hurl =>
    have hproxy : Numbered ((s.setProxy endpoint.proxy).record (.connecting url)) :=
      h.congr rfl rfl rfl rfl rfl rfl rfl
    exact hproxy.beginAsync _ _ _
  | proxyConnect url hurl => exact (h.write _).beginAsync _ _ _
  | sslHandshake => exact h.beginAsync _ _ _
  | sendHeader url hurl => exact (h.write _).beginAsync _ _ _
  | sendPost post hpost => exact h.enterSendPost answer
  | readHeaders => exact h.beginAsync _ _ _
  | readContent evt => exact h.enterReadContent evt
  | finalError evt =>
    have hdisconnected : Numbered s.disconnect := h.congr rfl rfl rfl rfl rfl rfl rfl
    exact hdisconnected.cancelDelays.congr rfl rfl rfl rfl rfl rfl rfl
  | _ => exact h.congr rfl rfl rfl rfl rfl rfl rfl

theorem Numbered.process (h : Numbered s) (e : Event) (answer : Answer) :
    Numbered (s.process e answer) :=
  process_cases (P := Numbered) s e answer (fun _ => h)
    (fun _ _ => h.congr rfl rfl rfl rfl rfl rfl rfl)
    fun t _ _ _ hentry => hentry.numbered (h.leave t.state)

/-! ### Handlers -/

theorem ContentTasks.owner_eq {owner total : ℕ} {d d' : ReadContentData} {tasks : List Task}
    (h : ContentTasks owner d total tasks d') :
    ∀ t ∈ tasks, ∀ owner' ∈ t.owner, owner' = owner := by
  cases h <;> simp [Task.owner]

theorem Handled.numbered {owner : ℕ} {kind : OpKind} (hhandled : Handled s owner kind s')
    (h : Numbered s) (howner : owner < s.fresh) : Numbered s' := by
  cases hhandled with
  | event _ e hraises => exact h.next (by simp [Task.owner])
  | established =>
    have hestablished : Numbered s.establish := h.congr rfl rfl rfl rfl rfl rfl rfl
    exact hestablished.next (by simp [Task.owner])
  | proxyRead => exact h.async howner _ _ _
  | pipe size hpost => exact h.next (by simpa [Task.owner] using howner)
  | content op received tasks d hcontent =>
    have hset : Numbered (s.setContent d) := h.congr rfl rfl rfl rfl rfl rfl rfl
    exact hset.next fun t ht owner' howner' => hcontent.owner_eq t ht owner' howner' ▸ howner

theorem Numbered.postViaInterface (h : Numbered s) {owner : ℕ} (howner : owner < s.fresh)
    (answer : Answer) : Numbered (s.postViaInterface owner answer) := by
  have hread : Numbered (s.readPipe answer.chunk.bytes) := h.congr rfl rfl rfl rfl rfl rfl rfl
  refine hread.next fun t ht other hother => ?_
  rcases List.mem_append.mp ht with ht | ht
  · obtain ⟨e, -, rfl⟩ := List.mem_map.mp ht
    cases hother
  · split_ifs at ht
    · cases ht
    · rw [List.mem_singleton.mp ht] at hother
      cases hother
      exact howner

theorem Numbered.runTask (h : Numbered s) {t : Task}
    (howner : ∀ owner ∈ t.owner, owner < s.fresh) (answer : Answer) :
    Numbered (s.runTask t answer) := by
  cases t with
  | event e => exact h.process e answer
  | content startPos buffer =>
    have hrecord : Numbered (s.record (.responseContentReceived startPos buffer)) :=
      h.congr rfl rfl rfl rfl rfl rfl rfl
    refine hrecord.next fun t ht owner howner => ?_
    obtain ⟨e, -, rfl⟩ := List.mem_map.mp ht
    cases howner
  | start owner op =>
    show Numbered (s.startContent owner op)
    unfold startContent
    split_ifs
    · exact h.delay (howner owner rfl) _
    · exact h.async (howner owner rfl) _ _ _
  | delayPost owner postData => exact h.delay (howner owner rfl) _
  | pipe owner => exact h.postViaInterface (howner owner rfl) answer

theorem Numbered.step {a : Act} (h : Numbered s) (hstep : s.step a = some s') : Numbered s' := by
  cases step_cases hstep with
  | clock elapsed => exact h.congr rfl rfl rfl rfl rfl rfl rfl
  | queued e queue answer hqueue =>
    have hset : Numbered (s.setQueue queue) := h.congr rfl rfl rfl rfl rfl rfl rfl
    exact hset.process e answer
  | task t tasks answer hqueue htasks =>
    exact (h.dropTask htasks).runTask (h.tasks t (htasks ▸ List.mem_cons_self)) answer
  | start hqueue htasks => exact h.process _ _
  | call call hqueue htasks => exact h.process _ _
  | complete i op received err hqueue htasks hop =>
    obtain ⟨howner, hrace⟩ := h.ops op (List.mem_of_getElem? hop)
    have hdropped := h.dropOp i
    exact completed_cases (P := Numbered) _ op received err hdropped (hdropped.take hrace)
      fun s' _ _ hhandled => hhandled.numbered (hdropped.take hrace).clearAsyncTimeout howner
  | timer i t err hqueue htasks ht hcompletes =>
    have hrace := h.timers t (List.mem_of_getElem? ht)
    have hdropped : Numbered (s.setTimers (s.timers.eraseIdx i)) :=
      h.fewer (.refl _) (List.eraseIdx_sublist _ _).subset (List.Subset.refl _) (List.Subset.refl _)
    exact timedOut_cases (P := Numbered) _ t err hdropped (hdropped.take hrace) fun _ _ =>
      (hdropped.take hrace).next (by simp [Task.owner])
  | delay i d err hqueue htasks hd =>
    have howner := h.delays d (List.mem_of_getElem? hd)
    have hdropped : Numbered (s.setDelays (s.delays.eraseIdx i)) :=
      h.fewer (.refl _) (List.Subset.refl _) (List.eraseIdx_sublist _ _).subset (List.Subset.refl _)
    refine delayed_cases (P := Numbered) _ d err hdropped (fun postData _ _ => ?_)
      fun op next enabled _ _ _ => ?_
    · have hrecord : Numbered (((s.setDelays (s.delays.eraseIdx i)).setDelayTimerEnabled
          false).record (.wrotePost postData)) := hdropped.congr rfl rfl rfl rfl rfl rfl rfl
      exact hrecord.async howner _ _ _
    · have hset : Numbered ((s.setDelays (s.delays.eraseIdx i)).setDelayTimerEnabled enabled) :=
        hdropped.congr rfl rfl rfl rfl rfl rfl rfl
      exact hset.async howner _ _ _

theorem numbered_create (cfg : Config) (time : ℕ) : Numbered (create cfg time) :=
  ⟨nofun, nofun, nofun, nofun, nofun, nofun, .nil⟩

end Numbered

end Machine

end MediafireSdk.Http
