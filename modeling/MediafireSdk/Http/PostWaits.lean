import MediafireSdk.Http.FreshNumbers
import MediafireSdk.Http.SentWhole

/-! What `SendPost` waits for. Between its handlers there is always a chunk whose delay runs or
whose write is under way with a timeout beside it, so the state is left in the end. -/

namespace MediafireSdk.Http

open Words

/-- The events that `SendPost` is left with. -/
def Event.endsPost : Event → Bool
  | .postSent | .error _ => true
  | _ => false

/-- The tasks of `SendPost`, whose data has this owner number. -/
def Task.sends (owner : ℕ) : Task → Bool
  | .event _ => true
  | .delayPost owner' _ | .pipe owner' => owner' = owner
  | .content _ _ | .start _ _ => false

namespace Machine

/-- `SendPost` is about to be left. -/
def Over (s : Machine) : Prop := ∃ e : Event, e.endsPost = true ∧ .event e ∈ s.pending

/-- An operation whose handler will be the first of its race, or its timeout. -/
structure Guarded (s : Machine) (race : ℕ) : Prop where
  first : race ∉ s.taken
  timer : ∃ t ∈ s.timers, t.race = race
  running : ∀ t ∈ s.timers, t.race = race → t.wait = .running ∧ t.id = s.timeoutId

/-- A wait on the delay timer whose handler will write. -/
structure Delaying (s : Machine) (d : Delay) : Prop where
  post : ∃ postData, d.kind = .post postData
  kept : d.cancelled = false
  enabled : s.transmissionDelayTimerEnabled = true

/-- Something is under way for the data of `SendPost`. -/
structure Outstanding (s : Machine) (owner : ℕ) : Prop where
  owed : s.owed owner ≠ []
  ops : ∀ op ∈ s.ops, op.owner = owner → op.kind = .postWrite ∧ Guarded s op.race
  delays : ∀ d ∈ s.delays, d.owner = owner → Delaying s d
  tasks : ∀ t ∈ s.tasks, t.sends owner = true

/-- `SendPost` never waits for nothing. -/
def Waits (s : Machine) : Prop :=
  s.state = .sendPost → Over s ∨ ∃ owner ∈ s.live, Outstanding s owner

section Waits
variable {post : Post} {s s' : Machine} {y : Yielded} {owner : ℕ}

theorem not_over_of_idle (hqueue : s.queue = []) (htasks : s.tasks = []) : ¬Over s := by
  rintro ⟨e, -, hmem⟩
  rw [pending_of_idle hqueue htasks] at hmem
  cases hmem

theorem Waits.idle (h : Waits s) (hstate : s.state = .sendPost) (hqueue : s.queue = [])
    (htasks : s.tasks = []) : ∃ owner ∈ s.live, Outstanding s owner :=
  (h hstate).resolve_left (not_over_of_idle hqueue htasks)

theorem Guarded.congr {race : ℕ} (h : Guarded s race) (htaken : s'.taken = s.taken)
    (htimers : s'.timers = s.timers) (hid : s'.timeoutId = s.timeoutId) : Guarded s' race where
  first := htaken ▸ h.first
  timer := htimers ▸ h.timer
  running := by rw [htimers, hid]; exact h.running

/-- What is under way stays so when only tasks change, and they still owe. -/
theorem Outstanding.congr (h : Outstanding s owner) (hops : s'.ops = s.ops)
    (hdelays : s'.delays = s.delays) (htaken : s'.taken = s.taken) (htimers : s'.timers = s.timers)
    (hid : s'.timeoutId = s.timeoutId)
    (henabled : s'.transmissionDelayTimerEnabled = s.transmissionDelayTimerEnabled)
    (howed : s'.owed owner ≠ []) (htasks : ∀ t ∈ s'.tasks, t.sends owner = true) :
    Outstanding s' owner where
  owed := howed
  ops op hop howner := by
    obtain ⟨hkind, hguarded⟩ := h.ops op (hops ▸ hop) howner
    exact ⟨hkind, hguarded.congr htaken htimers hid⟩
  delays d hd howner := by
    obtain ⟨hpost, hkept, henabled'⟩ := h.delays d (hdelays ▸ hd) howner
    exact ⟨hpost, hkept, henabled.trans henabled'⟩
  tasks := htasks

/-! ### Transitions -/

theorem finish_endsPost (d : SendPostData) : d.finish.endsPost = true := by
  unfold SendPostData.finish
  split_ifs <;> rfl

/-- The end of the pipe, or an exception, ends the POST. -/
theorem pipeEvents_endsPost (d : SendPostData) {chunk : PipeChunk} (h : chunk.bytes = []) :
    ∃ e ∈ d.pipeEvents chunk, e.endsPost = true := by
  refine ⟨d.finish, ?_, finish_endsPost d⟩
  cases chunk with
  | data bytes =>
    obtain rfl : bytes = [] := h
    simp [SendPostData.pipeEvents]
  | throws what => simp [SendPostData.pipeEvents]

theorem guarded_async (hnumbered : Numbered s) {owner : ℕ} {reason : String}
    {timeoutSeconds : ℕ} {kind : OpKind} :
    Guarded (s.async owner reason timeoutSeconds kind) s.fresh where
  first hmem := absurd (hnumbered.taken _ hmem) (lt_irrefl _)
  timer := ⟨_, List.mem_append_right _ (List.mem_singleton_self _), rfl⟩
  running t ht hrace := by
    rcases List.mem_append.mp ht with ht | ht
    · obtain ⟨t', ht', hrace'⟩ := mem_cancel ht hrace
      exact absurd (hrace' ▸ hnumbered.timers t' ht') (lt_irrefl _)
    · rw [List.mem_singleton.mp ht]
      exact ⟨rfl, rfl⟩

/-- A write that is begun when nothing else is under way. -/
theorem outstanding_async (hnumbered : Numbered s) {owner : ℕ} (reason : String)
    (timeoutSeconds : ℕ) (hops : ∀ op ∈ s.ops, op.owner ≠ owner)
    (hdelays : ∀ d ∈ s.delays, d.owner ≠ owner) (htasks : ∀ t ∈ s.tasks, t.sends owner = true) :
    Outstanding (s.async owner reason timeoutSeconds .postWrite) owner where
  owed hnone := by
    have hperm := owed_async_postWrite s owner owner reason timeoutSeconds
    rw [hnone, if_pos rfl] at hperm
    exact absurd hperm.length_eq (by simp)
  ops op hop howner := by
    rcases List.mem_append.mp hop with hop | hop
    · exact absurd howner (hops op hop)
    · rw [List.mem_singleton.mp hop]
      exact ⟨rfl, guarded_async hnumbered⟩
  delays d hd howner := absurd howner (hdelays d hd)
  tasks := htasks

/-- A chunk whose delay is begun when nothing else is under way. -/
theorem outstanding_delay {owner : ℕ} (postData : List UInt8)
    (hops : ∀ op ∈ s.ops, op.owner ≠ owner) (hdelays : ∀ d ∈ s.delays, d.owner ≠ owner)
    (htasks : ∀ t ∈ s.tasks, t.sends owner = true) :
    Outstanding (s.delay owner (.post postData)) owner where
  owed hnone := by
    have hperm := owed_delay_post s owner owner postData
    rw [hnone, if_pos rfl] at hperm
    exact absurd hperm.length_eq (by simp)
  ops op hop howner := absurd howner (hops op hop)
  delays d hd howner := by
    rcases List.mem_append.mp hd with hd | hd
    · obtain ⟨d', hd', rfl⟩ := List.mem_map.mp hd
      exact absurd howner (hdelays d' hd')
    · rw [List.mem_singleton.mp hd]
      exact ⟨⟨postData, rfl⟩, rfl, rfl⟩
  tasks := htasks

theorem Numbered.waits_enterSendPost (h : Numbered s) (hpost : s.cfg.post = some post)
    (htasks : s.tasks = []) (answer : Answer) :
    Waits ((s.leave .sendPost).enterSendPost answer) := by
  intro _
  have hops : ∀ op ∈ s.ops, op.owner ≠ s.fresh := fun op hop => (h.ops op hop).1.ne
  have hdelays : ∀ d ∈ s.delays, d.owner ≠ s.fresh := fun d hd => (h.delays d hd).ne
  have hsends : ∀ t ∈ s.tasks, t.sends s.fresh = true := by simp [htasks]
  have hleft := h.leave .sendPost
  rw [Machine.enterSendPost, leave_cfg, hpost]
  cases post with
  | data bytes =>
    refine .inr ⟨s.fresh, rfl, ?_⟩
    have hbegun : Numbered ((s.leave .sendPost).record (.wrotePost bytes)).begin :=
      Numbered.begin (hleft.congr rfl rfl rfl rfl rfl rfl rfl)
    have hasync := outstanding_async hbegun "write request post" s.cfg.timeoutSeconds hops hdelays
      hsends
    exact hasync.congr rfl rfl rfl rfl rfl rfl hasync.owed hsends
  | pipe postDataSize =>
    dsimp only
    split_ifs with hbytes
    · obtain ⟨e, hmem, hends⟩ :=
        pipeEvents_endsPost { postInterfaceSize := postDataSize } hbytes
      refine .inl ⟨e, hends, List.mem_append_left _ (List.mem_map_of_mem ?_)⟩
      exact List.mem_append_right _ (List.mem_append_right _ hmem)
    · exact .inr ⟨s.fresh, rfl, outstanding_delay answer.chunk.bytes hops hdelays hsends⟩

/-- An event that is processed. In `SendPost` one that does not end it changes nothing. -/
theorem Numbered.waits_process (hnumbered : Numbered s) (hpost : s.cfg.post = some post) {e : Event}
    (h : s.state = .sendPost → e.endsPost = false → Over s ∨ ∃ owner ∈ s.live, Outstanding s owner)
    (hidle : e = .headersWritten → s.tasks = []) (answer : Answer) :
    Waits (s.process e answer) := by
  by_cases hentry : e = .headersWritten ∧ s.state = .sendHeader
  · obtain ⟨rfl, hstate⟩ := hentry
    rw [process_headersWritten hpost hstate]
    exact hnumbered.waits_enterSendPost hpost (hidle rfl) answer
  refine process_cases (P := Waits) s e answer (fun hterminate hstate => ?_)
    (fun _ hrow hstate => ?_) fun t s' _ hrow hentered hstate => ?_
  · rw [hstate] at hterminate
    cases hterminate
  · have hsending : s.state = .sendPost := hstate
    have hends : e.endsPost = false := by
      cases e <;> first | rfl | simp [row, hsending] at hrow
    rcases h hsending hends with hover | ⟨owner, hlive, hout⟩
    · exact .inl hover
    · exact .inr ⟨owner, hlive, hout.congr rfl rfl rfl rfl rfl rfl hout.owed hout.tasks⟩
  · exact absurd (hrow.sendPost_cases (hentered.entered.state.symm.trans hstate)).2 hentry

/-- The next event of a handler. -/
theorem Waits.event (s' : Machine) {e : Event} {rest : List Task} (h : Waits s)
    (hnumbered : Numbered s')
    (hposting : Posting post s y) (hpending : s.pending = .event e :: rest)
    (hrest : s'.pending = rest) (hcfg : s'.cfg = s.cfg) (hstate : s'.state = s.state)
    (hlive : s'.live = s.live)
    (hkeep : ∀ owner, Outstanding s owner → Outstanding s' owner) (answer : Answer) :
    Waits (s'.process e answer) := by
  refine hnumbered.waits_process (hcfg ▸ hposting.config) (fun hsending hends => ?_)
    (fun heq => ?_) answer
  · rcases h (hstate ▸ hsending) with ⟨e', hends', hmem⟩ | ⟨owner, howner, hout⟩
    · refine .inl ⟨e', hends', ?_⟩
      rw [hpending] at hmem
      rw [hrest]
      rcases List.mem_cons.mp hmem with heq | hmem
      · rw [Task.event.inj heq, hends] at hends'
        cases hends'
      · exact hmem
    · exact .inr ⟨owner, hlive ▸ howner, hkeep owner hout⟩
  · subst heq
    have hall := hposting.alone (hpending ▸ List.mem_cons_self)
    rw [hpending] at hall
    have hnone : s'.pending = [] := hrest.trans (List.cons.inj hall).2
    exact (List.append_eq_nil_iff.mp hnone).2

/-! ### Handlers -/

/-- Nothing else is owed to the data of the state. -/
theorem Posting.alone_of_owing (h : Posting post s y) (hlive : s.live = some owner)
    {chunk : List UInt8} {rest : List (List UInt8)} (hperm : (s.owed owner).Perm ([chunk] ++ rest)) :
    rest = [] := (h.owing hlive hperm).2.1

theorem ops_of_owed {owner : ℕ} (h : s.owed owner = []) :
    ∀ op ∈ s.ops, op.kind = .postWrite → op.owner ≠ owner := by
  intro op hop hkind howner
  have hnone := (List.append_eq_nil_iff.mp (List.append_eq_nil_iff.mp h).1).2
  have hop' := List.filterMap_eq_nil_iff.mp hnone op hop
  simp [owedByOp, hkind, howner] at hop'

theorem delays_of_owed {owner : ℕ} (h : s.owed owner = []) :
    ∀ d ∈ s.delays, (∃ postData, d.kind = .post postData) → d.owner ≠ owner := by
  rintro d hd ⟨postData, hkind⟩ howner
  have hnone := (List.append_eq_nil_iff.mp (List.append_eq_nil_iff.mp h).1).1
  have hd' := List.filterMap_eq_nil_iff.mp hnone d hd
  simp [owedByDelay, hkind, howner] at hd'

/-- A task of a handler that is no event. -/
theorem Waits.task {t : Task} {tasks : List Task} (h : Waits s) (hposting : Posting post s y)
    (hqueue : s.queue = []) (htasks : s.tasks = t :: tasks) (hevent : ∀ e, t ≠ .event e)
    (answer : Answer) : Waits ((s.setTasks tasks).runTask t answer) := by
  have hpending : s.pending = t :: tasks := by simp [pending, hqueue, htasks]
  -- An event behind the task is still there.
  have hover (hin : Over s) (hsub : tasks ⊆ ((s.setTasks tasks).runTask t answer).pending) :
      Over ((s.setTasks tasks).runTask t answer) := by
    obtain ⟨e, hends, hmem⟩ := hin
    rw [hpending] at hmem
    refine ⟨e, hends, hsub ((List.mem_cons.mp hmem).resolve_left fun heq => hevent e heq.symm)⟩
  have htaken := owed_takeTask htasks
  cases t with
  | event e => exact absurd rfl (hevent e)
  | content startPos buffer =>
    intro hstate
    rcases h hstate with hin | ⟨owner, -, hout⟩
    · exact .inl (hover hin fun t ht => by simp [pending, runTask, ht])
    · have hsends := hout.tasks _ (htasks ▸ List.mem_cons_self)
      cases hsends
  | start owner op =>
    intro hstate
    have hkept := startContent_kept (s.setTasks tasks) owner op
    have hsending : s.state = .sendPost := hkept.state.symm.trans hstate
    rcases h hsending with hin | ⟨owner, -, hout⟩
    · refine .inl (hover hin fun t ht => List.mem_append_right _ ?_)
      show t ∈ (startContent _ owner op).tasks
      unfold startContent
      split_ifs <;> exact ht
    · have hsends := hout.tasks _ (htasks ▸ List.mem_cons_self)
      cases hsends
  | delayPost owner postData =>
    intro hstate
    rcases h hstate with hin | ⟨other, hlive, hout⟩
    · exact .inl (hover hin fun t ht => List.mem_append_right _ ht)
    · have hsends := hout.tasks _ (htasks ▸ List.mem_cons_self)
      obtain rfl : owner = other := of_decide_eq_true hsends
      have hperm := htaken owner
      simp only [owedByTask, if_true, Option.toList_some] at hperm
      have hnone := hposting.alone_of_owing hlive hperm
      refine .inr ⟨owner, hlive, outstanding_delay postData (fun op hop howner => ?_)
        (fun d hd howner => ?_) fun t ht => ?_⟩
      · exact ops_of_owed hnone op hop (hout.ops op hop howner).1 howner
      · exact delays_of_owed hnone d hd (hout.delays d hd howner).post howner
      · exact hout.tasks t (htasks ▸ List.mem_cons_of_mem _ ht)
  | pipe owner =>
    intro hstate
    obtain ⟨-, hlive, hall, -⟩ := hposting.asking owner (htasks ▸ List.mem_cons_self)
    obtain rfl : tasks = [] := by simpa [hpending] using hall
    rcases h hstate with ⟨e, hends, hmem⟩ | ⟨other, hother, hout⟩
    · rw [hall] at hmem
      cases List.mem_singleton.mp hmem
    · obtain rfl : owner = other := Option.some.inj (hlive.symm.trans hother)
      by_cases hbytes : answer.chunk.bytes = []
      · obtain ⟨e, hmem, hends⟩ := pipeEvents_endsPost s.sendPostData hbytes
        refine .inl ⟨e, hends, List.mem_append_right _ (List.mem_append_left _ ?_)⟩
        refine List.mem_append_left _ (List.mem_map_of_mem ?_)
        exact List.mem_append_right _ hmem
      · have htasks' : ((s.setTasks []).postViaInterface owner answer).tasks =
            (answer.calls.map Call.event ++ s.sendPostData.pipeEvents answer.chunk).map Task.event ++
              [.delayPost owner answer.chunk.bytes] := by
          simp [postViaInterface, hbytes]
        refine .inr ⟨owner, hlive, hout.congr rfl rfl rfl rfl rfl rfl (fun hnone => ?_) ?_⟩
        · have hin := (List.append_eq_nil_iff.mp hnone).2
          have hlast := List.filterMap_eq_nil_iff.mp hin (.delayPost owner answer.chunk.bytes)
            (by rw [runTask, htasks']; exact List.mem_append_right _ (List.mem_singleton_self _))
          simp [owedByTask] at hlast
        · intro t ht
          rw [runTask, htasks'] at ht
          rcases List.mem_append.mp ht with ht | ht
          · obtain ⟨e, -, rfl⟩ := List.mem_map.mp ht
            rfl
          · rw [List.mem_singleton.mp ht]
            simp [Task.sends]

/-- A handler that leaves an event behind. -/
theorem over_next {e : Event} (he : e.endsPost = true) : Over (s.next [.event e]) :=
  ⟨e, he, List.mem_append_right _ List.mem_cons_self⟩

theorem Guarded.take {race race' : ℕ} (h : Guarded s race) (hne : race ≠ race') :
    Guarded (s.take race') race where
  first hmem := by
    rcases List.mem_cons.mp hmem with heq | hmem
    · exact hne heq
    · exact h.first hmem
  timer := h.timer
  running := h.running

/-- An operation is over that was not for the data of the state. -/
theorem Outstanding.dropOp {i : ℕ} {op : Op} (h : Outstanding s owner) (hop : s.ops[i]? = some op)
    (hne : op.owner ≠ owner) : Outstanding (s.setOps (s.ops.eraseIdx i)) owner where
  owed hnone := by
    have hperm := owed_takeOp hop owner
    have hother : owedByOp owner op = none := if_neg fun heq => hne heq.1
    rw [hother, hnone] at hperm
    exact h.owed hperm.eq_nil
  ops op' hop' howner := by
    obtain ⟨hkind, hguarded⟩ := h.ops op' ((List.eraseIdx_sublist _ _).subset hop') howner
    exact ⟨hkind, hguarded.congr rfl rfl rfl⟩
  delays d hd howner := by
    obtain ⟨hpost, hkept, henabled⟩ := h.delays d hd howner
    exact ⟨hpost, hkept, henabled⟩
  tasks := h.tasks

theorem Outstanding.take {race : ℕ} (h : Outstanding s owner)
    (hrace : ∀ op ∈ s.ops, op.owner = owner → op.race ≠ race) : Outstanding (s.take race) owner where
  owed := h.owed
  ops op hop howner := by
    obtain ⟨hkind, hguarded⟩ := h.ops op hop howner
    exact ⟨hkind, hguarded.take (hrace op hop howner)⟩
  delays d hd howner := by
    obtain ⟨hpost, hkept, henabled⟩ := h.delays d hd howner
    exact ⟨hpost, hkept, henabled⟩
  tasks := h.tasks

theorem handle_postWrite (s : Machine) (owner : ℕ) (received : List UInt8) (err : Option IoError) :
    s.handle owner .postWrite received err = s.next [.pipe owner] ∨
      ∃ e : Event, e.endsPost = true ∧
        s.handle owner .postWrite received err = s.next [.event e] := by
  simp only [handle]
  split
  · exact .inl rfl
  · refine .inr ⟨_, ?_, rfl⟩
    unfold result
    split <;> rfl

/-- An operation is over. -/
theorem Waits.completed {i : ℕ} {op : Op} (h : Waits s) (hnumbered : Numbered s)
    (hposting : Posting post s y) (hqueue : s.queue = []) (htasks : s.tasks = [])
    (hop : s.ops[i]? = some op) (received : List UInt8) (err : Option IoError) :
    Waits ((s.setOps (s.ops.eraseIdx i)).completed op received err) := by
  intro hstate
  have hsending : s.state = .sendPost :=
    (completed_kept (s.setOps (s.ops.eraseIdx i)) op received err).state.symm.trans hstate
  obtain ⟨owner, hlive, hout⟩ := h.idle hsending hqueue htasks
  have hmem := List.mem_of_getElem? hop
  by_cases howner : op.owner = owner
  · subst howner
    obtain ⟨hkind, hguarded⟩ := hout.ops op hmem rfl
    have hperm := owed_takeOp hop op.owner
    simp only [owedByOp, hkind, and_self, if_true, Option.toList_some] at hperm
    have hnone := hposting.alone_of_owing hlive hperm
    have hcompleted : (s.setOps (s.ops.eraseIdx i)).completed op received err =
        ((s.setOps (s.ops.eraseIdx i)).take op.race).clearAsyncTimeout.handle op.owner .postWrite
          received err := by
      simp [Machine.completed, Option.mem_def.mp hlive, hguarded.first, hkind]
    rw [hcompleted]
    rcases handle_postWrite ((s.setOps (s.ops.eraseIdx i)).take op.race).clearAsyncTimeout op.owner
      received err with hpipe | ⟨e, hends, hevent⟩
    · rw [hpipe]
      refine .inr ⟨op.owner, hlive, fun hempty => ?_, fun op' hop' howner => ?_,
        fun d hd howner => ?_, by simp [htasks, Task.sends]⟩
      · have hin := (List.append_eq_nil_iff.mp hempty).2
        have hfirst := List.filterMap_eq_nil_iff.mp hin (.pipe op.owner) List.mem_cons_self
        simp [owedByTask] at hfirst
      · have hbefore := hout.ops op' ((List.eraseIdx_sublist _ _).subset hop') howner
        exact absurd howner (ops_of_owed hnone op' hop' hbefore.1)
      · exact absurd howner (delays_of_owed hnone d hd (hout.delays d hd howner).post)
    · rw [hevent]
      exact .inl (over_next hends)
  · have hdropped := hout.dropOp hop howner
    have hother : s.live ≠ some op.owner := fun heq => by
      rw [hlive] at heq
      exact howner (Option.some.inj heq).symm
    rw [Machine.completed, if_pos (by exact hother)]
    refine .inr ⟨owner, ?_⟩
    split
    · refine ⟨hlive, hdropped.take fun op' hop' howner' hrace => ?_⟩
      have hsame := hnumbered.mem_race ((List.eraseIdx_sublist _ _).subset hop') hmem hrace
      exact howner (hsame ▸ howner')
    · exact ⟨hlive, hdropped⟩

theorem mem_eraseIdx_of_ne {α : Type*} {l : List α} {i : ℕ} {a b : α} (h : l[i]? = some a)
    (hb : b ∈ l) (hne : b ≠ a) : b ∈ l.eraseIdx i := by
  obtain ⟨hlt, rfl⟩ := List.getElem?_eq_some_iff.mp h
  have hmem := (List.getElem_cons_eraseIdx_perm hlt).symm.subset hb
  exact (List.mem_cons.mp hmem).resolve_left hne

/-- A timer is over that was not for what is under way. -/
theorem Outstanding.dropTimer {i : ℕ} {t : Timeout} (h : Outstanding s owner)
    (ht : s.timers[i]? = some t) (hrace : ∀ op ∈ s.ops, op.owner = owner → op.race ≠ t.race) :
    Outstanding (s.setTimers (s.timers.eraseIdx i)) owner where
  owed := h.owed
  ops op hop howner := by
    obtain ⟨hkind, hguarded⟩ := h.ops op hop howner
    obtain ⟨t', ht', hrace'⟩ := hguarded.timer
    refine ⟨hkind, hguarded.first, ⟨t', mem_eraseIdx_of_ne ht ht' fun heq => ?_, hrace'⟩, ?_⟩
    · exact hrace op hop howner (heq ▸ hrace'.symm)
    · exact fun t' ht' => hguarded.running t' ((List.eraseIdx_sublist _ _).subset ht')
  delays d hd howner := by
    obtain ⟨hpost, hkept, henabled⟩ := h.delays d hd howner
    exact ⟨hpost, hkept, henabled⟩
  tasks := h.tasks

theorem Waits.timedOut {i : ℕ} {t : Timeout} {err : Bool} (h : Waits s) (hqueue : s.queue = [])
    (htasks : s.tasks = []) (ht : s.timers[i]? = some t) (hcompletes : t.completes s.now err = true) :
    Waits ((s.setTimers (s.timers.eraseIdx i)).timedOut t err) := by
  intro hstate
  have hsending : s.state = .sendPost :=
    (timedOut_kept (s.setTimers (s.timers.eraseIdx i)) t err).state.symm.trans hstate
  obtain ⟨owner, hlive, hout⟩ := h.idle hsending hqueue htasks
  have hmem := List.mem_of_getElem? ht
  unfold Machine.timedOut
  split_ifs with hrace hid
  · refine .inr ⟨owner, hlive, hout.dropTimer ht fun op hop howner heq => ?_⟩
    exact (hout.ops op hop howner).2.first (heq ▸ hrace)
  · exact .inl (over_next rfl)
  · -- The timer of what is under way would have raised its error.
    have hother : ∀ op ∈ s.ops, op.owner = owner → op.race ≠ t.race := by
      intro op hop howner heq
      obtain ⟨hrunning, hidle⟩ := (hout.ops op hop howner).2.running t hmem heq.symm
      have herr : err = false := by
        simp [Timeout.completes, hrunning] at hcompletes
        exact hcompletes.1
      exact hid ⟨herr, hidle.symm⟩
    exact .inr ⟨owner, hlive, (hout.dropTimer ht hother).take hother⟩

/-- A wait on the delay timer is over that was not for the data of the state. -/
theorem Outstanding.dropDelay {i : ℕ} {d : Delay} (h : Outstanding s owner)
    (hd : s.delays[i]? = some d) (hne : d.owner ≠ owner) :
    Outstanding (s.setDelays (s.delays.eraseIdx i)) owner where
  owed hnone := by
    have hperm := owed_takeDelay hd owner
    have hother : owedByDelay owner d = none := by
      unfold owedByDelay
      split
      · exact if_neg hne
      · rfl
    rw [hother, hnone] at hperm
    exact h.owed hperm.eq_nil
  ops op hop howner := by
    obtain ⟨hkind, hguarded⟩ := h.ops op hop howner
    exact ⟨hkind, hguarded.congr rfl rfl rfl⟩
  delays d' hd' howner := by
    obtain ⟨hpost, hkept, henabled⟩ := h.delays d' ((List.eraseIdx_sublist _ _).subset hd') howner
    exact ⟨hpost, hkept, henabled⟩
  tasks := h.tasks

theorem step_delay {i : ℕ} {err : Bool} (hstep : s.step (.delay i err) = some s') :
    ∃ d, s.delays[i]? = some d ∧ (d.cancelled || !err) = true ∧
      s' = (s.setDelays (s.delays.eraseIdx i)).delayed d err := by
  simp only [Machine.step] at hstep
  split_ifs at hstep
  obtain ⟨d, hd, hrest⟩ := Option.bind_eq_some_iff.mp hstep
  split_ifs at hrest with hkept
  exact ⟨d, hd, hkept, (Option.some.inj hrest).symm⟩

theorem Waits.delayed {i : ℕ} {d : Delay} {err : Bool} (h : Waits s) (hnumbered : Numbered s)
    (hposting : Posting post s y) (hqueue : s.queue = []) (htasks : s.tasks = [])
    (hd : s.delays[i]? = some d) (hcompletes : (d.cancelled || !err) = true) :
    Waits ((s.setDelays (s.delays.eraseIdx i)).delayed d err) := by
  intro hstate
  have hsending : s.state = .sendPost := by
    refine Eq.trans ?_ hstate
    exact delayed_cases (P := fun s' => s.state = s'.state) _ d err rfl (fun _ _ _ => rfl)
      fun _ _ _ _ _ _ => rfl
  obtain ⟨owner, hlive, hout⟩ := h.idle hsending hqueue htasks
  by_cases howner : d.owner = owner
  · subst howner
    obtain ⟨⟨postData, hkind⟩, hkept, henabled⟩ := hout.delays d (List.mem_of_getElem? hd) rfl
    have herr : err = false := by simpa [hkept] using hcompletes
    have hperm := owed_takeDelay hd d.owner
    simp only [owedByDelay, hkind, if_true, Option.toList_some] at hperm
    have hnone := hposting.alone_of_owing hlive hperm
    have hdropped : Numbered (((s.setDelays (s.delays.eraseIdx i)).setDelayTimerEnabled
        false).record (.wrotePost postData)) :=
      (hnumbered.fewer (.refl _) (List.Subset.refl _) (List.eraseIdx_sublist _ _).subset
        (List.Subset.refl _)).congr rfl rfl rfl rfl rfl rfl rfl
    have hdelayed : (s.setDelays (s.delays.eraseIdx i)).delayed d err =
        ((((s.setDelays (s.delays.eraseIdx i)).setDelayTimerEnabled false).record
          (.wrotePost postData)).async d.owner "write request post" s.cfg.timeoutSeconds
            .postWrite) := by
      simp [Machine.delayed, herr, Option.mem_def.mp hlive, hkind, postDelayed, henabled]
    rw [hdelayed]
    refine .inr ⟨d.owner, hlive, outstanding_async hdropped _ _ (fun op hop howner => ?_)
      (fun d' hd' howner => ?_) (by simp [htasks])⟩
    · exact ops_of_owed hnone op hop (hout.ops op hop howner).1 howner
    · exact delays_of_owed hnone d' hd'
        (hout.delays d' ((List.eraseIdx_sublist _ _).subset hd') howner).post howner
  · have hother : s.live ≠ some d.owner := fun heq => by
      rw [hlive] at heq
      exact howner (Option.some.inj heq).symm
    rw [Machine.delayed, if_pos (.inr hother)]
    exact .inr ⟨owner, hlive, hout.dropDelay hd howner⟩

/-! ### Steps -/

theorem Waits.step {a : Act} (h : Waits s) (hnumbered : Numbered s) (hposting : Posting post s y)
    (hstep : s.step a = some s') : Waits s' := by
  cases step_cases hstep with
  | clock elapsed =>
    intro hstate
    rcases h hstate with hover | ⟨owner, hlive, hout⟩
    · exact .inl hover
    · exact .inr ⟨owner, hlive, hout.congr rfl rfl rfl rfl rfl rfl hout.owed hout.tasks⟩
  | queued e queue answer hqueue =>
    have hpending : s.pending = .event e :: (queue.map Task.event ++ s.tasks) := by
      simp [pending, hqueue]
    exact Waits.event (s.setQueue queue) h (hnumbered.congr rfl rfl rfl rfl rfl rfl rfl) hposting
      hpending rfl rfl rfl rfl (fun owner hout => hout.congr rfl rfl rfl rfl rfl rfl hout.owed
        hout.tasks) answer
  | task t tasks answer hqueue htasks =>
    have hpending : s.pending = t :: tasks := by simp [pending, hqueue, htasks]
    by_cases hevent : ∃ e, t = .event e
    · obtain ⟨e, rfl⟩ := hevent
      refine Waits.event (s.setTasks tasks) h (hnumbered.dropTask htasks) hposting hpending
        (by simp [pending, hqueue]) rfl rfl rfl (fun owner hout => ?_) answer
      refine hout.congr rfl rfl rfl rfl rfl rfl (fun hnone => ?_) fun t ht =>
        hout.tasks t (htasks ▸ List.mem_cons_of_mem _ ht)
      have hperm := owed_takeTask htasks owner
      rw [hnone] at hperm
      exact hout.owed hperm.eq_nil
    · exact h.task hposting hqueue htasks (fun e heq => hevent ⟨e, heq⟩) answer
  | start hqueue htasks =>
    refine hnumbered.waits_process hposting.config (fun hstate _ => h hstate) (fun heq => ?_) _
    cases heq
  | call call hqueue htasks =>
    refine hnumbered.waits_process hposting.config (fun hstate _ => h hstate) (fun heq => ?_) _
    cases call <;> cases heq
  | complete i op received err hqueue htasks hop =>
    exact h.completed hnumbered hposting hqueue htasks hop received err
  | timer i t err hqueue htasks ht hcompletes => exact h.timedOut hqueue htasks ht hcompletes
  | delay i d err hqueue htasks hd =>
    obtain ⟨d', hd', hcompletes, heq⟩ := step_delay hstep
    rw [hd] at hd'
    cases hd'
    exact h.delayed hnumbered hposting hqueue htasks hd hcompletes

theorem waits_create (cfg : Config) (time : ℕ) : Waits (create cfg time) := nofun

/-! ### The socket -/

/-- While a request is sent there is a socket. -/
def Connected (s : Machine) : Prop :=
  s.state = .sendHeader ∨ s.state = .sendPost → s.crashed = false → s.socket.isSome = true

/-- What the handlers leave of a connection. -/
structure Linked (s s' : Machine) : Prop where
  state : s'.state = s.state
  socket : s'.socket.isSome = s.socket.isSome
  crashed : s'.crashed = false → s.crashed = false

theorem Connected.linked (s' : Machine) (h : Connected s) (hlinked : Linked s s') : Connected s' := by
  intro hstate hcrashed
  rw [hlinked.state] at hstate
  rw [hlinked.socket]
  exact h hstate (hlinked.crashed hcrashed)

theorem Connected.process (h : Connected s) (e : Event) (answer : Answer) :
    Connected (s.process e answer) := by
  refine process_cases (P := Connected) s e answer (fun _ => h) (fun _ _ => h)
    fun t s' _ hrow hentered hstate hcrashed => ?_
  rw [hentered.entered.state] at hstate
  cases hentered with
  | crash => cases hcrashed
  | sendHeader url hurl =>
    rw [enterSendHeader, write_eq] at hcrashed ⊢
    have hsome : s.socket.isNone = false := (Bool.or_eq_false_iff.mp hcrashed).2
    show s.socket.isSome = true
    rw [← Option.not_isNone, hsome]
    rfl
  | sendPost post hpost =>
    have hsource := (hrow.sendPost_cases rfl).2.2
    have hsame : ((s.leave .sendPost).enterSendPost answer).socket = s.socket ∧
        (((s.leave .sendPost).enterSendPost answer).crashed = false → s.crashed = false) := by
      unfold Machine.enterSendPost at hcrashed ⊢
      split
      · exact ⟨rfl, by rintro ⟨⟩⟩
      · exact ⟨rfl, fun hfalse => (Bool.or_eq_false_iff.mp hfalse).1⟩
      · dsimp only
        split <;> exact ⟨rfl, id⟩
    have hsocket := h (.inl hsource) (hsame.2 hcrashed)
    exact (congrArg Option.isSome hsame.1).trans hsocket
  | _ => simp [Target.state] at hstate

theorem handled_linked {kind : OpKind} (h : Handled s owner kind s') : Linked s s' := by
  cases h with
  | established =>
    refine ⟨rfl, ?_, id⟩
    simp [establish]
  | proxyRead => exact ⟨rfl, rfl, fun hfalse => (Bool.or_eq_false_iff.mp hfalse).1⟩
  | _ => exact ⟨rfl, rfl, id⟩

theorem Connected.step {a : Act} (h : Connected s) (hstep : s.step a = some s') : Connected s' := by
  cases step_cases hstep with
  | clock elapsed => exact h
  | queued e queue answer hqueue => exact Connected.process (s := s.setQueue queue) h e answer
  | task t tasks answer hqueue htasks =>
    cases t with
    | event e => exact Connected.process (s := s.setTasks tasks) h e answer
    | start owner op =>
      refine Connected.linked ((s.setTasks tasks).startContent owner op) h ?_
      unfold startContent
      split_ifs
      · exact ⟨rfl, rfl, id⟩
      · exact ⟨rfl, rfl, fun hfalse => (Bool.or_eq_false_iff.mp hfalse).1⟩
    | _ => exact h
  | start hqueue htasks => exact h.process _ _
  | call call hqueue htasks => exact h.process _ _
  | complete i op received err hqueue htasks hop =>
    refine Connected.linked _ h (completed_cases (P := Linked s) _ op received err ⟨rfl, rfl, id⟩
      ⟨rfl, rfl, id⟩ fun s' _ _ hhandled => ?_)
    obtain ⟨hstate, hsocket, hcrashed⟩ := handled_linked hhandled
    exact ⟨hstate, hsocket, hcrashed⟩
  | timer i t err hqueue htasks ht hcompletes =>
    exact Connected.linked _ h (timedOut_cases (P := Linked s) _ t err ⟨rfl, rfl, id⟩ ⟨rfl, rfl, id⟩
      fun _ _ => ⟨rfl, rfl, id⟩)
  | delay i d err hqueue htasks hd =>
    exact Connected.linked _ h (delayed_cases (P := Linked s) _ d err ⟨rfl, rfl, id⟩
      (fun _ _ _ => ⟨rfl, rfl, fun hfalse => (Bool.or_eq_false_iff.mp hfalse).1⟩)
      fun _ _ _ _ _ _ => ⟨rfl, rfl, fun hfalse => (Bool.or_eq_false_iff.mp hfalse).1⟩)

end Waits

/-! ### The end of the pipe -/

section Outcome
variable {s s' : Machine} {y : Yielded} {postDataSize : ℕ} {answer : Answer}

/-- What a pipe that has ended raises when this many bytes were written. -/
def outcome (postDataSize written : ℕ) : Event :=
  if written = postDataSize then .postSent else .error (postSizeError postDataSize written)

theorem finish_eq_outcome (d : SendPostData) :
    d.finish = outcome d.postInterfaceSize d.bytesReadFromInterface := rfl

/-- When the pipe is asked nothing else is pending. -/
theorem Posting.asks_cases {first : Bool} (h : Posting (.pipe postDataSize) s y)
    (hasks : s.asks = some first) :
    s.state = .sendHeader ∧ s.pending = [.event .headersWritten] ∨
      ∃ owner, s.state = .sendPost ∧ s.live = some owner ∧ s.queue = [] ∧ s.tasks = [.pipe owner] := by
  unfold asks at hasks
  split at hasks
  case h_1 rest hpending =>
    split_ifs at hasks with hstate
    have hin : .event .headersWritten ∈ s.pending := by
      rw [pending, hpending]
      exact List.mem_cons_self
    exact .inl ⟨hstate, h.alone hin⟩
  case h_2 owner rest hpending =>
    have hin : Task.pipe owner ∈ s.tasks := by
      cases hqueue : s.queue with
      | nil =>
        rw [hqueue] at hpending
        have htasks : s.tasks = .pipe owner :: rest := hpending
        exact htasks ▸ List.mem_cons_self
      | cons e queue =>
        rw [hqueue] at hpending
        cases hpending
    obtain ⟨hstate, hlive, hall, -⟩ := h.asking owner hin
    refine .inr ⟨owner, hstate, hlive, ?_⟩
    cases hqueue : s.queue with
    | nil =>
      refine ⟨rfl, ?_⟩
      rw [pending, hqueue] at hall
      exact hall
    | cons e queue =>
      rw [pending, hqueue] at hall
      cases hall
  case h_3 => cases hasks

/-- The step in which `SendPost` is entered. -/
theorem Posting.entry {post : Post} (h : Posting post s y) (hstate : s.state = .sendHeader)
    (hpending : s.pending = [.event .headersWritten])
    (hstep : s.step (.proceed answer) = some s') :
    ∃ before : Machine, Taken post before y .headersWritten ∧ before.state = .sendHeader ∧
      before.crashed = false ∧ s' = (before.leave .sendPost).enterSendPost answer := by
  have hcrashed : s.crashed = false := by
    by_contra hcrashed
    simp [Machine.step, hcrashed] at hstep
  cases step_cases hstep with
  | queued e queue _ hqueue =>
    have hall : s.pending = .event e :: (queue.map Task.event ++ s.tasks) := by
      simp [pending, hqueue]
    obtain rfl : e = .headersWritten := by
      rw [hpending] at hall
      exact (Task.event.inj (List.cons.inj hall).1).symm
    exact ⟨s.setQueue queue, h.taken hall (alike_setQueue s queue) rfl, hstate, hcrashed,
      process_headersWritten (s := s.setQueue queue) h.config hstate answer⟩
  | task t tasks _ hqueue htasks =>
    have hall : s.pending = t :: tasks := by simp [pending, hqueue, htasks]
    obtain rfl : t = .event .headersWritten := by
      rw [hpending] at hall
      exact (List.cons.inj hall).1.symm
    exact ⟨s.setTasks tasks, h.taken hall (alike_setTasks htasks) (by simp [pending, hqueue]),
      hstate, hcrashed, process_headersWritten (s := s.setTasks tasks) h.config hstate answer⟩

theorem Taken.entry_body {before : Machine} (h : Taken (.pipe postDataSize) before y .headersWritten)
    (hstate : before.state = .sendHeader) (hcrashed : before.crashed = false) (answer : Answer) :
    sentBody ((before.leave .sendPost).enterSendPost answer).log = [] := by
  rw [enterSendPost_log (before.leave .sendPost) answer h.posting.config, Post.entries,
    List.append_nil]
  exact h.body hstate hcrashed

/-- What the pipe is asked for in the middle. -/
theorem step_pipe {owner : ℕ} (hqueue : s.queue = []) (htasks : s.tasks = [.pipe owner])
    (hstep : s.step (.proceed answer) = some s') :
    s' = (s.setTasks []).postViaInterface owner answer := by
  simp only [Machine.step, proceed, hqueue, htasks, runTask] at hstep
  split_ifs at hstep
  exact (Option.some.inj hstep).symm

/-- A step in which the pipe has no buffer: what is raised depends on how much was written. -/
theorem Posting.asked_end {first : Bool} (h : Posting (.pipe postDataSize) s y)
    (hbound : (Post.pipe postDataSize).Bounded y) (hasks : s.asks = some first)
    (hstep : s.step (.proceed answer) = some s') (hchunk : answer.chunk = .data []) :
    s'.state = .sendPost ∧ sentBody s'.log = sentBody s.log ∧
      s'.pending = (answer.calls.map Call.event ++
        [outcome postDataSize (sentBody s.log).length]).map Task.event := by
  rcases h.asks_cases hasks with ⟨hstate, hpending⟩ | ⟨owner, hstate, hlive, hqueue, htasks⟩
  · have hcrashed : s.crashed = false := by
      by_contra hcrashed
      simp [Machine.step, hcrashed] at hstep
    have hunsent := h.unsent hcrashed (by rw [hstate]; rfl)
    obtain ⟨before, htaken, hstate', hcrashed', rfl⟩ := h.entry hstate hpending hstep
    refine ⟨((before.leave .sendPost).enterSendPost_entered answer).state, ?_, ?_⟩
    · rw [htaken.entry_body hstate' hcrashed', hunsent]
    · rw [(htaken.enterPipe_spec answer).1, hunsent, hchunk]
      rfl
  · obtain rfl := step_pipe hqueue htasks hstep
    have htaken := owed_takeTask htasks owner
    simp only [owedByTask, if_true, Option.toList_some] at htaken
    obtain ⟨-, -, hsent⟩ := h.owing hlive htaken
    rw [List.append_nil] at hsent
    have hdata := h.counted hstate postDataSize rfl
    have hcount := trunc_hop hbound h.suffix
    have hfinish : s.sendPostData.finish = outcome postDataSize (sentBody s.log).length := by
      rw [finish_eq_outcome, hdata, hcount, hsent]
      rfl
    refine ⟨hstate, rfl, ?_⟩
    rw [← hfinish]
    simp [pending, postViaInterface, hqueue, hchunk, PipeChunk.bytes, SendPostData.pipeEvents]

end Outcome

/-! ### Undisturbed steps -/

section Undisturbed
variable {post : Post} {s s' : Machine} {y : Yielded}

/-- The write of a chunk is under way, and no handler runs. -/
structure Writing (s : Machine) : Prop where
  state : s.state = .sendPost
  queue : s.queue = []
  tasks : s.tasks = []
  crashed : s.crashed = false
  op : ∃ op ∈ s.ops, s.live = some op.owner

/-- The delay before a chunk runs, and no handler does. -/
structure Paused (s : Machine) (postData : List UInt8) : Prop where
  state : s.state = .sendPost
  queue : s.queue = []
  tasks : s.tasks = []
  crashed : s.crashed = false
  delay : ∃ d ∈ s.delays, s.live = some d.owner ∧ d.kind = .post postData

/-- The handler of a write has this one task left. -/
structure Handling (s : Machine) (t : ℕ → Task) : Prop where
  state : s.state = .sendPost
  queue : s.queue = []
  crashed : s.crashed = false
  task : ∃ owner, s.live = some owner ∧ s.tasks = [t owner]

theorem idle_of_nil (hqueue : s.queue = []) (htasks : s.tasks = []) : s.idle = true :=
  idle_iff.mpr ⟨hqueue, htasks⟩

/-- The delay is over: the chunk is written. -/
theorem Paused.step {postData : List UInt8} (h : Paused s postData) (hwaits : Waits s)
    (hconnected : Connected s) : ∃ i s', s.step (.delay i false) = some s' ∧ Writing s' ∧
      sentBody s'.log = sentBody s.log ++ postData := by
  obtain ⟨d, hd, hlive, hkind⟩ := h.delay
  obtain ⟨i, hi⟩ := List.mem_iff_getElem?.mp hd
  obtain ⟨owner, howner, hout⟩ := hwaits.idle h.state h.queue h.tasks
  obtain rfl : d.owner = owner := Option.some.inj (hlive.symm.trans howner)
  obtain ⟨-, -, henabled⟩ := hout.delays d hd rfl
  have hsocket := hconnected (.inr h.state) h.crashed
  set before := ((s.setDelays (s.delays.eraseIdx i)).setDelayTimerEnabled false).record
    (.wrotePost postData) with hbefore
  have hdelayed : (s.setDelays (s.delays.eraseIdx i)).delayed d false =
      before.async d.owner "write request post" s.cfg.timeoutSeconds .postWrite := by
    simp [Machine.delayed, hlive, hkind, postDelayed, henabled, hbefore]
  refine ⟨i, before.async d.owner "write request post" s.cfg.timeoutSeconds .postWrite, ?_,
    ⟨h.state, h.queue, h.tasks, ?_, ?_⟩, ?_⟩
  · simp [Machine.step, h.crashed, idle_of_nil h.queue h.tasks, begun, hi, hdelayed]
  · show (s.crashed || s.socket.isNone) = false
    rw [h.crashed, ← Option.not_isSome, hsocket]
    rfl
  · exact ⟨_, List.mem_append_right _ (List.mem_singleton_self _), hlive⟩
  · show sentBody (s.log ++ [.wrotePost postData]) = _
    rw [sentBody_append]
    rfl

/-- The write is over: the pipe is to be asked. -/
theorem Writing.step {postDataSize : ℕ} (h : Writing s) (hwaits : Waits s)
    (hpost : s.cfg.post = some (.pipe postDataSize)) :
    ∃ i s', s.step (.complete i [] none) = some s' ∧ Handling s' .pipe ∧ s'.log = s.log := by
  obtain ⟨op, hop, hlive⟩ := h.op
  obtain ⟨i, hi⟩ := List.mem_iff_getElem?.mp hop
  obtain ⟨owner, howner, hout⟩ := hwaits.idle h.state h.queue h.tasks
  obtain rfl : op.owner = owner := Option.some.inj (hlive.symm.trans howner)
  obtain ⟨hkind, hguarded⟩ := hout.ops op hop rfl
  set before := ((s.setOps (s.ops.eraseIdx i)).take op.race).clearAsyncTimeout with hbefore
  have hcompleted : (s.setOps (s.ops.eraseIdx i)).completed op [] none =
      before.next [.pipe op.owner] := by
    simp [Machine.completed, hlive, hguarded.first, hkind, handle, hpost, hbefore]
  refine ⟨i, before.next [.pipe op.owner], ?_, ⟨h.state, h.queue, h.crashed, op.owner, hlive, ?_⟩,
    rfl⟩
  · simp [Machine.step, h.crashed, idle_of_nil h.queue h.tasks, begun, hi, mayComplete, hkind,
      hcompleted]
  · show [Task.pipe op.owner] ++ s.tasks = _
    rw [h.tasks]
    rfl

theorem Handling.proceed {t : ℕ → Task} (h : Handling s t) (answer : Answer) :
    ∃ owner, s.live = some owner ∧ s.tasks = [t owner] ∧
      s.step (.proceed answer) = some ((s.setTasks []).runTask (t owner) answer) := by
  obtain ⟨owner, hlive, htasks⟩ := h.task
  refine ⟨owner, hlive, htasks, ?_⟩
  simp [Machine.step, h.crashed, Machine.proceed, h.queue, htasks]

/-- The pipe has given a chunk. -/
theorem Handling.pipe {postData : List UInt8} (h : Handling s .pipe) (hne : postData ≠ []) :
    ∃ s', s.step (.proceed { chunk := .data postData }) = some s' ∧
      Handling s' (.delayPost · postData) ∧ s'.log = s.log := by
  obtain ⟨owner, hlive, -, hstep⟩ := h.proceed { chunk := .data postData }
  refine ⟨_, hstep, ⟨h.state, h.queue, h.crashed, owner, hlive, ?_⟩, rfl⟩
  simp [runTask, postViaInterface, PipeChunk.bytes, SendPostData.pipeEvents, hne]

/-- The delay of the chunk begins. -/
theorem Handling.delay {postData : List UInt8} (h : Handling s (.delayPost · postData)) :
    ∃ s', s.step (.proceed {}) = some s' ∧ Paused s' postData ∧ s'.log = s.log := by
  obtain ⟨owner, hlive, -, hstep⟩ := h.proceed {}
  refine ⟨_, hstep, ⟨h.state, h.queue, rfl, h.crashed, ?_⟩, rfl⟩
  exact ⟨_, List.mem_append_right _ (List.mem_singleton_self _), hlive, rfl⟩

theorem step_proceed (hcrashed : s.crashed = false) (hpending : s.pending ≠ []) (answer : Answer) :
    ∃ s', s.step (.proceed answer) = some s' := by
  simp only [Machine.step, hcrashed, Bool.false_eq_true, if_false, Machine.proceed]
  cases hqueue : s.queue with
  | cons e queue => exact ⟨_, rfl⟩
  | nil =>
    cases htasks : s.tasks with
    | cons t tasks => exact ⟨_, rfl⟩
    | nil => exact absurd (pending_of_idle hqueue htasks) hpending

/-- `SendPost` is entered with a first chunk. -/
theorem Posting.entry_data {postDataSize : ℕ} {postData : List UInt8}
    (h : Posting (.pipe postDataSize) s y) (hcrashed : s.crashed = false)
    (hstate : s.state = .sendHeader) (hpending : s.pending = [.event .headersWritten])
    (hne : postData ≠ []) : ∃ s', s.step (.proceed { chunk := .data postData }) = some s' ∧
      Paused s' postData ∧ sentBody s'.log = [] := by
  obtain ⟨s', hstep⟩ := step_proceed hcrashed (by simp [hpending]) { chunk := .data postData }
  obtain ⟨before, htaken, hstate', hcrashed', rfl⟩ := h.entry hstate hpending hstep
  refine ⟨_, hstep, ?_, htaken.entry_body hstate' hcrashed' _⟩
  have hraised := (htaken.enterPipe_spec { chunk := .data postData }).1
  have hnothing : ((before.leave .sendPost).enterSendPost { chunk := .data postData }).pending =
      [] := by
    rw [hraised]
    simp [SendPostData.pipeEvents, hne]
  obtain ⟨hqueue, htasks⟩ := List.append_eq_nil_iff.mp hnothing
  have hentered : (before.leave .sendPost).enterSendPost { chunk := .data postData } =
      (({ (before.leave .sendPost).begin with
        sendPostData := SendPostData.read { postInterfaceSize := postDataSize } postData } :
          Machine).raiseAll []).delay before.fresh (.post postData) := by
    rw [Machine.enterSendPost, leave_cfg, htaken.posting.config]
    simp [PipeChunk.bytes, SendPostData.pipeEvents, hne]
  refine ⟨((before.leave .sendPost).enterSendPost_entered _).state, List.map_eq_nil_iff.mp hqueue,
    htasks, ?_, ?_⟩
  · rw [hentered]
    exact hcrashed'
  · rw [hentered]
    exact ⟨_, List.mem_append_right _ (List.mem_singleton_self _), rfl, rfl⟩

end Undisturbed

end Machine

end MediafireSdk.Http
