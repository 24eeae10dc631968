import MediafireSdk.Http.FreshNumbers
import MediafireSdk.Http.Posting

/-! The states that operations, delays and tasks belong to. Data that is not cancelled is that of
the current state, so what has its owner number was begun there. -/

namespace MediafireSdk.Http

/-! ### Homes -/

def OpKind.home : OpKind → StateName
  | .resolve _ => .resolve
  | .connect => .connect
  | .proxyWrite | .proxyRead => .proxyConnect
  | .handshake => .sslHandshake
  | .headerWrite => .sendHeader
  | .postWrite => .sendPost
  | .headerRead => .readHeaders
  | .content _ => .readContent

def DelayKind.home : DelayKind → StateName
  | .post _ => .sendPost
  | .content _ => .readContent

/-- For a task that has an owner. -/
def Task.home : Task → StateName
  | .start _ _ => .readContent
  | _ => .sendPost

namespace Machine

/-- What has the data of the current state is at home. -/
structure AtHome (s : Machine) : Prop where
  ops : ∀ op ∈ s.ops, s.live = some op.owner → s.state = op.kind.home
  delays : ∀ d ∈ s.delays, s.live = some d.owner → s.state = d.kind.home
  tasks : ∀ t ∈ s.tasks, ∀ owner ∈ t.owner, s.live = some owner → s.state = t.home

section AtHome
variable {s s' : Machine}

theorem atHome_create (cfg : Config) (time : ℕ) : AtHome (create cfg time) := ⟨nofun, nofun, nofun⟩

/-- In the same state. -/
theorem AtHome.keep (h : AtHome s) (hstate : s'.state = s.state) (hlive : s'.live = s.live)
    (hops : ∀ op ∈ s'.ops, op ∈ s.ops ∨ (s.live = some op.owner → s.state = op.kind.home))
    (hdelays : ∀ d ∈ s'.delays, (∃ d' ∈ s.delays, d'.owner = d.owner ∧ d'.kind = d.kind) ∨
      (s.live = some d.owner → s.state = d.kind.home))
    (htasks : ∀ t ∈ s'.tasks, t ∈ s.tasks ∨
      ∀ owner ∈ t.owner, s.live = some owner → s.state = t.home) : AtHome s' := by
  refine ⟨fun op hop howner => ?_, fun d hd howner => ?_, fun t ht owner howner hown => ?_⟩
  all_goals
    rw [hlive] at *
    rw [hstate]
  · exact (hops op hop).elim (fun hold => h.ops op hold howner) fun hnew => hnew howner
  · rcases hdelays d hd with ⟨d', hd', howner', hkind⟩ | hnew
    · rw [← hkind]
      exact h.delays d' hd' (howner'.symm ▸ howner)
    · exact hnew howner
  · exact (htasks t ht).elim (fun hold => h.tasks t hold owner howner hown)
      fun hnew => hnew owner howner hown

theorem mem_delays_self {d : Delay} (hd : d ∈ s.delays) :
    ∃ d' ∈ s.delays, d'.owner = d.owner ∧ d'.kind = d.kind := ⟨d, hd, rfl, rfl⟩

theorem mem_delays_cancelled {delays : List Delay} {d : Delay}
    (hd : d ∈ delays.map ({ · with cancelled := true })) :
    ∃ d' ∈ delays, d'.owner = d.owner ∧ d'.kind = d.kind := by
  obtain ⟨d', hd', rfl⟩ := List.mem_map.mp hd
  exact ⟨d', hd', rfl, rfl⟩

/-! ### Transitions -/

/-- What is begun on entry of a state. -/
structure Begins (s : Machine) (home : StateName) (s' : Machine) : Prop where
  state : s'.state = s.state
  live : s'.live = none ∨ s'.live = some s.fresh
  ops : ∀ op ∈ s'.ops, op ∈ s.ops ∨ op.kind.home = home
  delays : ∀ d ∈ s'.delays, (∃ d' ∈ s.delays, d'.owner = d.owner ∧ d'.kind = d.kind) ∨
    d.kind.home = home
  tasks : s'.tasks = s.tasks

/-- What was there before has no owner any more. -/
theorem Begins.atHome {home : StateName} (h : Begins s home s') (hnumbered : Numbered s)
    (hstate : s.state = home) : AtHome s' := by
  have hstale (owner : ℕ) (howner : owner < s.fresh) : s'.live ≠ some owner := by
    rcases h.live with hlive | hlive
    · rw [hlive]
      nofun
    · rw [hlive]
      exact fun heq => howner.ne' (Option.some.inj heq)
  refine ⟨fun op hop howner => ?_, fun d hd howner => ?_, fun t ht owner howner hown => ?_⟩
  · rcases h.ops op hop with hold | hhome
    · exact absurd howner (hstale _ (hnumbered.ops op hold).1)
    · rw [h.state, hstate, hhome]
  · rcases h.delays d hd with ⟨d', hd', howner', -⟩ | hhome
    · exact absurd howner (hstale _ (howner' ▸ hnumbered.delays d' hd'))
    · rw [h.state, hstate, hhome]
  · exact absurd hown (hstale _ (hnumbered.tasks t (h.tasks ▸ ht) owner howner))

/-- Nothing is begun. -/
theorem Begins.of_none {home : StateName} (hstate : s'.state = s.state) (hlive : s'.live = none)
    (hops : s'.ops = s.ops) (hdelays : s'.delays = s.delays) (htasks : s'.tasks = s.tasks) :
    Begins s home s' :=
  ⟨hstate, .inl hlive, fun _ hop => .inl (hops ▸ hop),
    fun _ hd => .inl (mem_delays_self (hdelays ▸ hd)), htasks⟩

theorem begins_beginAsync {u : Machine} {home : StateName} {reason : String} {timeoutSeconds : ℕ}
    {kind : OpKind} (hkind : kind.home = home) (hstate : u.state = s.state)
    (hfresh : u.fresh = s.fresh) (hops : u.ops = s.ops) (hdelays : u.delays = s.delays)
    (htasks : u.tasks = s.tasks) : Begins s home (u.beginAsync reason timeoutSeconds kind) := by
  refine ⟨hstate, .inr (congrArg some hfresh), fun op hop => ?_, fun d hd => ?_, htasks⟩
  · rcases List.mem_append.mp hop with hop | hop
    · exact .inl (hops ▸ hop)
    · rw [List.mem_singleton.mp hop]
      exact .inr hkind
  · exact .inl (mem_delays_self (hdelays ▸ hd))

theorem enterSendPost_begins (s : Machine) (answer : Answer) (hlive : s.live = none) :
    Begins s .sendPost (s.enterSendPost answer) := by
  unfold enterSendPost
  split
  · exact .of_none rfl hlive rfl rfl rfl
  · have hbegins : Begins s .sendPost ((s.record (.wrotePost ‹_›)).beginAsync
        "write request post" s.cfg.timeoutSeconds .postWrite) := by
      apply begins_beginAsync <;> rfl
    exact ⟨hbegins.state, hbegins.live, hbegins.ops, hbegins.delays, hbegins.tasks⟩
  · dsimp only
    split
    · exact ⟨rfl, .inr rfl, fun _ hop => .inl hop, fun _ hd => .inl (mem_delays_self hd), rfl⟩
    · refine ⟨rfl, .inr rfl, fun _ hop => .inl hop, fun d hd => ?_, rfl⟩
      rcases List.mem_append.mp hd with hd | hd
      · exact .inl (mem_delays_cancelled hd)
      · rw [List.mem_singleton.mp hd]
        exact .inr rfl

theorem enterReadContent_begins (s : Machine) (evt : HeadersParsedEvent) :
    Begins s .readContent (s.enterReadContent evt) := by
  unfold enterReadContent
  dsimp only
  split
  · exact ⟨rfl, .inr rfl, fun _ hop => .inl hop, fun _ hd => .inl (mem_delays_self hd), rfl⟩
  · refine ⟨rfl, .inr rfl, fun op hop => ?_, fun _ hd => .inl (mem_delays_self hd), rfl⟩
    rcases List.mem_append.mp hop with hop | hop
    · exact .inl hop
    · rw [List.mem_singleton.mp hop]
      exact .inr rfl

theorem OnEntry.begins {answer : Answer} {t : Target} (h : OnEntry s answer t s')
    (hlive : s.live = none) : Begins s t.state s' := by
  cases h with
  | resolve url hurl => apply begins_beginAsync <;> rfl
  | connect endpoint url hurl => apply begins_beginAsync <;> rfl
  | proxyConnect url hurl =>
    rw [enterProxyConnect, write_eq]
    apply begins_beginAsync <;> rfl
  | sslHandshake => apply begins_beginAsync <;> rfl
  | sendHeader url hurl =>
    rw [enterSendHeader, write_eq]
    apply begins_beginAsync <;> rfl
  | sendPost post hpost => exact s.enterSendPost_begins answer hlive
  | readHeaders => apply begins_beginAsync <;> rfl
  | readContent evt => exact s.enterReadContent_begins evt
  | finalError evt =>
    refine ⟨(s.disconnect.cancelDelays_entered).state, .inl ?_, fun op hop => .inl ?_,
      fun d hd => .inl ?_, (s.disconnect.cancelDelays_entered).tasks⟩
    · exact (s.enterFinalError_live answer evt).trans hlive
    · revert hop
      unfold enterFinalError cancelDelays
      split <;> exact id
    · revert hd
      unfold enterFinalError cancelDelays
      split
      · exact mem_delays_cancelled
      · exact mem_delays_self
  | _ => exact .of_none rfl hlive rfl rfl rfl

theorem AtHome.process (h : AtHome s) (hnumbered : Numbered s) (e : Event) (answer : Answer) :
    AtHome (s.process e answer) :=
  process_cases (P := AtHome) s e answer (fun _ => h) (fun _ _ => ⟨h.ops, h.delays, h.tasks⟩)
    fun t _ _ _ hentry => (hentry.begins rfl).atHome (hnumbered.leave t.state) rfl

/-! ### Steps -/

theorem AtHome.async (h : AtHome s) {owner : ℕ} (kind : OpKind)
    (hhome : s.live = some owner → s.state = kind.home) (reason : String) (timeoutSeconds : ℕ) :
    AtHome (s.async owner reason timeoutSeconds kind) := by
  refine h.keep rfl rfl (fun op hop => ?_) (fun d hd => .inl (mem_delays_self hd))
    fun t ht => .inl ht
  rcases List.mem_append.mp hop with hop | hop
  · exact .inl hop
  · rw [List.mem_singleton.mp hop]
    exact .inr hhome

theorem AtHome.delay (h : AtHome s) {owner : ℕ} {kind : DelayKind}
    (hhome : s.live = some owner → s.state = kind.home) : AtHome (s.delay owner kind) := by
  refine h.keep rfl rfl (fun op hop => .inl hop) (fun d hd => ?_) fun t ht => .inl ht
  rcases List.mem_append.mp hd with hd | hd
  · exact .inl (mem_delays_cancelled hd)
  · rw [List.mem_singleton.mp hd]
    exact .inr hhome

theorem AtHome.next (h : AtHome s) {tasks : List Task}
    (htasks : ∀ t ∈ tasks, ∀ owner ∈ t.owner, s.live = some owner → s.state = t.home) :
    AtHome (s.next tasks) := by
  refine h.keep rfl rfl (fun op hop => .inl hop) (fun d hd => .inl (mem_delays_self hd))
    fun t ht => ?_
  rcases List.mem_append.mp ht with ht | ht
  · exact .inr (htasks t ht)
  · exact .inl ht

/-- With fewer things left to complete. -/
theorem AtHome.fewer (h : AtHome s) (hstate : s'.state = s.state) (hlive : s'.live = s.live)
    (hops : s'.ops ⊆ s.ops) (hdelays : s'.delays ⊆ s.delays) (htasks : s'.tasks ⊆ s.tasks) :
    AtHome s' :=
  h.keep hstate hlive (fun _ hop => .inl (hops hop))
    (fun _ hd => .inl (mem_delays_self (hdelays hd))) fun _ ht => .inl (htasks ht)

theorem ContentTasks.home {owner total : ℕ} {d d' : ReadContentData} {tasks : List Task}
    (h : ContentTasks owner d total tasks d') :
    ∀ t ∈ tasks, ∀ owner' ∈ t.owner, owner' = owner ∧ t.home = .readContent := by
  cases h <;> simp [Task.owner, Task.home]

theorem Handled.atHome {owner : ℕ} {kind : OpKind} (hhandled : Handled s owner kind s')
    (h : AtHome s) (hhome : s.live = some owner → s.state = kind.home) : AtHome s' := by
  cases hhandled with
  | event _ e hraises => exact h.next (by simp [Task.owner])
  | established =>
    have hestablished : AtHome s.establish := ⟨h.ops, h.delays, h.tasks⟩
    exact hestablished.next (by simp [Task.owner])
  | proxyRead => exact h.async .proxyRead hhome _ _
  | pipe size hpost => exact h.next (by simpa [Task.owner, Task.home, OpKind.home] using hhome)
  | content op received tasks d hcontent =>
    have hset : AtHome (s.setContent d) := ⟨h.ops, h.delays, h.tasks⟩
    refine hset.next fun t ht owner' howner' hlive => ?_
    obtain ⟨rfl, hhome'⟩ := hcontent.home t ht owner' howner'
    rw [hhome']
    exact hhome hlive

theorem AtHome.runTask (h : AtHome s) (hnumbered : Numbered s) {t : Task}
    (hhome : ∀ owner ∈ t.owner, s.live = some owner → s.state = t.home) (answer : Answer) :
    AtHome (s.runTask t answer) := by
  cases t with
  | event e => exact h.process hnumbered e answer
  | content startPos buffer =>
    have hrecord : AtHome (s.record (.responseContentReceived startPos buffer)) :=
      ⟨h.ops, h.delays, h.tasks⟩
    exact hrecord.next (by simp [Task.owner])
  | start owner op =>
    show AtHome (s.startContent owner op)
    unfold startContent
    split_ifs
    · exact h.delay (hhome owner rfl)
    · exact h.async _ (hhome owner rfl) _ _
  | delayPost owner postData => exact h.delay (hhome owner rfl)
  | pipe owner =>
    have hread : AtHome (s.readPipe answer.chunk.bytes) := ⟨h.ops, h.delays, h.tasks⟩
    refine hread.next fun t ht other hother hlive => ?_
    rcases List.mem_append.mp ht with ht | ht
    · obtain ⟨e, -, rfl⟩ := List.mem_map.mp ht
      cases hother
    · split_ifs at ht
      · cases ht
      · rw [List.mem_singleton.mp ht] at hother ⊢
        cases hother
        exact hhome owner rfl hlive

theorem AtHome.step {a : Act} (h : AtHome s) (hnumbered : Numbered s)
    (hstep : s.step a = some s') : AtHome s' := by
  cases step_cases hstep with
  | clock elapsed => exact ⟨h.ops, h.delays, h.tasks⟩
  | queued e queue answer hqueue =>
    have hset : AtHome (s.setQueue queue) := ⟨h.ops, h.delays, h.tasks⟩
    have hnumbered' : Numbered (s.setQueue queue) := hnumbered.congr rfl rfl rfl rfl rfl rfl rfl
    exact hset.process hnumbered' e answer
  | task t tasks answer hqueue htasks =>
    have hset : AtHome (s.setTasks tasks) := h.fewer rfl rfl (List.Subset.refl _)
      (List.Subset.refl _) (htasks ▸ List.subset_cons_self _ _)
    exact hset.runTask (hnumbered.dropTask htasks) (h.tasks t (htasks ▸ List.mem_cons_self)) answer
  | start hqueue htasks => exact h.process hnumbered _ _
  | call call hqueue htasks => exact h.process hnumbered _ _
  | complete i op received err hqueue htasks hop =>
    have hset : AtHome (s.setOps (s.ops.eraseIdx i)) := h.fewer rfl rfl
      (List.eraseIdx_sublist _ _).subset (List.Subset.refl _) (List.Subset.refl _)
    refine completed_cases (P := AtHome) _ op received err hset ⟨hset.ops, hset.delays, hset.tasks⟩
      fun s' _ _ hhandled => ?_
    refine hhandled.atHome ⟨hset.ops, hset.delays, hset.tasks⟩ ?_
    exact h.ops op (List.mem_of_getElem? hop)
  | timer i t err hqueue htasks ht hcompletes =>
    have hset : AtHome (s.setTimers (s.timers.eraseIdx i)) := ⟨h.ops, h.delays, h.tasks⟩
    have htaken : AtHome ((s.setTimers (s.timers.eraseIdx i)).take t.race) :=
      ⟨h.ops, h.delays, h.tasks⟩
    exact timedOut_cases (P := AtHome) _ t err hset htaken fun _ _ =>
      htaken.next (by simp [Task.owner])
  | delay i d err hqueue htasks hd =>
    have hset : AtHome (s.setDelays (s.delays.eraseIdx i)) := h.fewer rfl rfl (List.Subset.refl _)
      (List.eraseIdx_sublist _ _).subset (List.Subset.refl _)
    have hhome := h.delays d (List.mem_of_getElem? hd)
    refine delayed_cases (P := AtHome) _ d err hset (fun postData _ hkind => ?_)
      fun op next enabled _ hkind _ => ?_
    · have hrecord : AtHome (((s.setDelays (s.delays.eraseIdx i)).setDelayTimerEnabled
          false).record (.wrotePost postData)) := ⟨hset.ops, hset.delays, hset.tasks⟩
      exact hrecord.async .postWrite (fun hlive => by
        simpa [hkind, DelayKind.home, OpKind.home] using hhome hlive) _ _
    · have henabled : AtHome ((s.setDelays (s.delays.eraseIdx i)).setDelayTimerEnabled enabled) :=
        ⟨hset.ops, hset.delays, hset.tasks⟩
      exact henabled.async (.content next) (fun hlive => by
        simpa [hkind, DelayKind.home, OpKind.home] using hhome hlive) _ _

end AtHome

end Machine

end MediafireSdk.Http
