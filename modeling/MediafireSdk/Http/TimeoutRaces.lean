import MediafireSdk.Http.ArmedTimeouts

/-! The race between the handler of an operation and its timeout. The race preventer lets only the
first of the two act, and the timeout id keeps a timeout from acting for a later operation. An
operation that is armed for other data than that of the state breaks this: it cancels the timeout
of the operation that the state waits for, whose handler is then ignored. -/

namespace MediafireSdk.Http

open Words Runs

namespace Machine

/-! ### The operation that is waited for -/

/-- Only states that an error leads out of have data. -/
def Working (s : Machine) : Prop :=
  s.live ≠ none → s.state.isTerminate = false ∧ s.state ≠ .unstarted

/-- The next event is an error. -/
def Leaving (s : Machine) : Prop :=
  s.queue = [] ∧ ∃ evt tasks, s.tasks = .event (.error evt) :: tasks

/-- The operation of the data of the state is guarded until its state is left. -/
def Watched (s : Machine) : Prop :=
  ∀ op ∈ s.ops, s.live = some op.owner → Leaving s ∨ Guarded s op.race

section Waiting
variable {s s' u : Machine} {armed : List Op}

theorem OnEntry.working {answer : Answer} {t : Target} (h : OnEntry s answer t s')
    (hlive : s.live = none) (hstate : s.state = t.state) : Working s' := by
  intro hsome
  rw [h.entered.state, hstate]
  cases h with
  | finalError evt => exact absurd ((s.enterFinalError_live answer evt).trans hlive) hsome
  | complete => exact absurd hlive hsome
  | crash t => exact absurd hlive hsome
  | _ => exact ⟨rfl, nofun⟩

theorem Working.process (h : Working s) (e : Event) (answer : Answer) :
    Working (s.process e answer) :=
  process_cases (P := Working) s e answer (fun _ => h) (fun _ _ => h) fun _ _ _ _ hentry =>
    hentry.working rfl rfl

theorem Working.congr (h : Working s) (hlive : s'.live = s.live) (hstate : s'.state = s.state) :
    Working s' := by
  intro hsome
  rw [hstate]
  exact h (hlive ▸ hsome)

theorem Working.runTask (h : Working s) (t : Task) (answer : Answer) :
    Working (s.runTask t answer) := by
  cases t with
  | event e => exact h.process e answer
  | content startPos buffer => exact h
  | start owner op =>
    have hkept := s.startContent_kept owner op
    exact h.congr hkept.live hkept.state
  | delayPost owner postData => exact h
  | pipe owner => exact h

theorem Working.step {a : Act} (h : Working s) (hstep : s.step a = some s') : Working s' := by
  cases step_cases hstep with
  | clock elapsed => exact h
  | queued e queue answer hqueue => exact Working.process (s := s.setQueue queue) h e answer
  | task t tasks answer hqueue htasks => exact Working.runTask (s := s.setTasks tasks) h t answer
  | start hqueue htasks => exact h.process _ _
  | call call hqueue htasks => exact h.process _ _
  | complete i op received err hqueue htasks hop =>
    have hkept := (s.setOps_kept (s.ops.eraseIdx i)).trans (completed_kept _ op received err)
    exact h.congr hkept.live hkept.state
  | timer i t err hqueue htasks ht hcompletes =>
    have hkept := (s.setTimers_kept (s.timers.eraseIdx i)).trans (timedOut_kept _ t err)
    exact h.congr hkept.live hkept.state
  | delay i d err hqueue htasks hd =>
    exact delayed_cases (P := Working) _ d err h (fun _ _ _ => h) fun _ _ _ _ _ _ => h

theorem row_error (hterminate : s.state.isTerminate = false) (hunstarted : s.state ≠ .unstarted)
    (evt : ErrorEvent) : s.row (.error evt) ≠ none := by
  unfold row
  split <;> simp_all [StateName.isTerminate]

/-- An error leaves every state that has data. -/
theorem Working.error (h : Working s) (evt : ErrorEvent) (answer : Answer) :
    (s.process (.error evt) answer).live = none := by
  refine process_cases (P := fun s' => s'.live = none) s (.error evt) answer (fun hterminate => ?_)
    (fun _ hnone => ?_) fun t s' _ hrow hentry => ?_
  · by_contra hlive
    exact absurd ((h hlive).1.symm.trans hterminate) Bool.false_ne_true
  · by_contra hlive
    exact s.row_error (h hlive).1 (h hlive).2 evt hnone
  · cases hrow with
    | error evt _ _ => cases hentry <;> rfl
    | finalError evt _ =>
      cases hentry with
      | crash => rfl
      | finalError evt => exact enterFinalError_live _ _ _

theorem working_create (cfg : Config) (time : ℕ) : Working (create cfg time) :=
  fun hlive => absurd rfl hlive

/-! ### It stays guarded -/

theorem not_leaving_of_idle (hidle : s.idle = true) : ¬Leaving s := by
  rintro ⟨-, evt, tasks, htasks⟩
  rw [(idle_iff.mp hidle).2] at htasks
  cases htasks

theorem Watched.guarded (h : Watched s) (hidle : s.idle = true) {op : Op} (hop : op ∈ s.ops)
    (hlive : s.live = some op.owner) : Guarded s op.race :=
  (h op hop hlive).resolve_left (not_leaving_of_idle hidle)

/-- Where a handler runs that ends with an error, nothing else does but the clock. -/
theorem Leaving.step {a : Act} (h : Leaving s) (hworking : Working s)
    (hstep : s.step a = some s') : Leaving s' ∨ s'.live = none := by
  obtain ⟨hqueue, evt, tasks, htasks⟩ := h
  have hbusy : s.tasks ≠ [] := by simp [htasks]
  cases step_cases hstep with
  | clock elapsed => exact .inl ⟨hqueue, evt, tasks, htasks⟩
  | queued e queue answer hqueue' =>
    rw [hqueue] at hqueue'
    cases hqueue'
  | task t tasks' answer _ htasks' =>
    rw [htasks] at htasks'
    cases htasks'
    exact .inr (Working.error (s := s.setTasks tasks) hworking evt answer)
  | _ => exact absurd ‹s.tasks = []› hbusy

/-- Nothing is armed while the operation is under way, so it stays guarded. -/
theorem Watched.arms (hguarded : ∀ op ∈ s.ops, s.live = some op.owner → Guarded s op.race)
    (hnumbered : Numbered s) (harms : Arms s armed s') (hmoves : Moves s armed s') :
    ∀ op ∈ s'.ops, s'.live = some op.owner → Guarded s' op.race := by
  intro op hop hlive
  rw [harms.ops] at hop
  rcases List.mem_append.mp hop with hmem | hmem
  · cases hmoves with
    | stays hstays hfree =>
      rw [hstays] at hlive
      cases harms with
      | none hsteady =>
        exact (hguarded op hmem hlive).congr hsteady.taken hsteady.timers hsteady.timeoutId
      | one => exact absurd hlive (hfree (List.cons_ne_nil _ _) op hmem)
    | enters henters =>
      cases henters with
      | bare hnone =>
        rw [hnone] at hlive
        cases hlive
      | new hnew =>
        rw [hnew] at hlive
        have hlt := (hnumbered.ops op hmem).1
        exact absurd (Option.some.inj hlive) hlt.ne'
  · exact harms.guarded hnumbered hmem

theorem Guarded.dropTimer {i race : ℕ} {t : Timeout} (h : Guarded s race)
    (ht : s.timers[i]? = some t) (hne : race ≠ t.race) :
    Guarded (s.setTimers (s.timers.eraseIdx i)) race where
  first := h.first
  timer := by
    obtain ⟨t', ht', hrace⟩ := h.timer
    exact ⟨t', mem_eraseIdx_of_ne ht ht' fun heq => hne (heq ▸ hrace.symm), hrace⟩
  running t' ht' := h.running t' ((List.eraseIdx_sublist _ _).subset ht')

/-- A timeout whose timer has not been cancelled acts. -/
theorem Guarded.completes {race : ℕ} {t : Timeout} {err : Bool} (h : Guarded s race)
    (ht : t ∈ s.timers) (hrace : t.race = race) (hcompletes : t.completes s.now err = true) :
    t.race ∉ s.taken ∧ err = false ∧ s.timeoutId = t.id := by
  obtain ⟨hrunning, hid⟩ := h.running t ht hrace
  refine ⟨hrace ▸ h.first, ?_, hid.symm⟩
  simp [Timeout.completes, hrunning] at hcompletes
  exact hcompletes.1

theorem Watched.step {a : Act} (h : Watched s) (hnumbered : Numbered s) (hworking : Working s)
    (htiming : Timing s s' a armed) (hstep : s.step a = some s') : Watched s' := by
  by_cases hleaving : Leaving s
  · intro op hop hlive
    refine .inl ((hleaving.step hworking hstep).resolve_right fun hnone => ?_)
    rw [hnone] at hlive
    cases hlive
  have hguarded : ∀ op ∈ s.ops, s.live = some op.owner → Guarded s op.race :=
    fun op hop hlive => (h op hop hlive).resolve_left hleaving
  cases htiming with
  | other hact harms hmoves =>
    exact fun op hop hlive => .inr (Watched.arms hguarded hnumbered harms hmoves op hop hlive)
  | ignored i received err op hidle hop hnot heq =>
    intro op' hop' hlive
    refine .inr ?_
    rcases heq with rfl | ⟨hne, rfl⟩
    · have hmem := (List.eraseIdx_sublist s.ops i).subset hop'
      exact (hguarded op' hmem hlive).congr rfl rfl rfl
    · have hmem := (List.eraseIdx_sublist s.ops i).subset hop'
      have hrace : op'.race ≠ op.race := fun hrace =>
        hne (hnumbered.mem_race hmem (List.mem_of_getElem? hop) hrace ▸ hlive)
      have hdropped : Guarded (s.setOps (s.ops.eraseIdx i)) op'.race :=
        (hguarded op' hmem hlive).congr rfl rfl rfl
      exact hdropped.take hrace
  | handled i received err op _ hidle hop hlive hfirst harms hstays hfree =>
    intro op' hop' hlive'
    rw [harms.ops] at hop'
    rw [hstays] at hlive'
    refine .inr ?_
    rcases List.mem_append.mp hop' with hmem | hmem
    · exact absurd hlive' (hfree op' hmem)
    · have hrace := (hnumbered.ops op (List.mem_of_getElem? hop)).2
      exact harms.guarded ((hnumbered.dropOp i).take hrace).clearAsyncTimeout hmem
  | timeout i err t hidle ht hcompletes heq =>
    intro op hop hlive
    obtain ⟨hqueue, htasks⟩ := idle_iff.mp hidle
    subst heq
    unfold Machine.timedOut at hop hlive ⊢
    split_ifs at hop hlive ⊢ with hrace hid
    · have hop' := hguarded op hop hlive
      exact .inr (hop'.dropTimer ht fun heq => hop'.first (heq ▸ hrace))
    · exact .inl ⟨hqueue, _, s.tasks, rfl⟩
    · have hop' := hguarded op hop hlive
      have hne : op.race ≠ t.race := fun heq =>
        hid (hop'.completes (List.mem_of_getElem? ht) heq.symm hcompletes).2
      exact .inr ((hop'.dropTimer ht hne).take hne)

theorem watched_create (cfg : Config) (time : ℕ) : Watched (create cfg time) := nofun

end Waiting

end Machine

/-! ### Which of the two acts -/

/-- A step of a run: the machine before it, and what is done. -/
structure Visit where
  machine : Machine
  act : Act

namespace Visit
variable (v : Visit)

/-- The operation whose handler runs. -/
def op : Option Op :=
  match v.act with
  | .complete i _ _ => v.machine.ops[i]?
  | _ => none

/-- The wait whose timeout handler runs. -/
def timeout : Option Timeout :=
  match v.act with
  | .timer i _ => v.machine.timers[i]?
  | _ => none

/-- One of the two handlers of an operation runs. -/
def Runs (op : Op) : Prop := v.op = some op ∨ ∃ t, v.timeout = some t ∧ t.race = op.race

/-- The handler of the operation with this race preventer acts: its data is not cancelled, and it
is the first. -/
def handles (race : ℕ) : Bool :=
  v.op.any fun op => op.race = race && v.machine.live = some op.owner && race ∉ v.machine.taken

/-- The timeout of the operation with this race preventer acts. -/
def timesOut (race : ℕ) : Bool :=
  match v.act with
  | .timer i false => v.machine.timers[i]?.any fun t =>
      t.race = race && race ∉ v.machine.taken && v.machine.timeoutId = t.id
  | _ => false

def acts (race : ℕ) : Bool := v.handles race || v.timesOut race

/-- The operations that `SetAsyncTimeout` is called for. -/
def armed : List Op :=
  ((v.machine.step v.act).getD v.machine).ops.filter (v.machine.fresh ≤ ·.race)

/-- The calls of `SetAsyncTimeout` and `ClearAsyncTimeout`. -/
def timerCalls : ℕ := v.armed.length + (v.op.any fun op => v.handles op.race).toNat

end Visit

/-- What a run has done, the last step first. -/
abbrev History := List Visit

def observeVisit (s : Machine) (a : Act) (h : History) : History := ⟨s, a⟩ :: h

/-- How often one of the two handlers has acted. -/
def acted (race : ℕ) (h : History) : ℕ := h.countP (·.acts race)

def armedOps (h : History) : List Op := h.flatMap Visit.armed

/-- What there has been since an operation was armed. -/
def since (count : Visit → ℕ) (race : ℕ) : History → ℕ
  | [] => 0
  | v :: h => if race ∈ v.armed.map Op.race then 0 else count v + since count race h

/-- The handler of an operation and its timeout do not both act. One of them has acted as soon as
one has run before the state is left that armed the operation. A timeout does not act once
another operation is armed or the timeout is cleared, and the handler of an operation is ignored,
before its data is cancelled, only because its own timeout has acted. -/
structure ActsOnce (h : History) : Prop where
  atMostOnce : ∀ race, acted race h ≤ 1
  once : ∀ op ∈ armedOps h, ∀ v ∈ h, v.Runs op → v.machine.live = some op.owner →
    acted op.race h = 1
  stale : ∀ v earlier, v :: earlier <:+ h → ∀ t ∈ v.timeout,
    since (·.armed.length) t.race earlier < 2 ^ 32 → 0 < since Visit.timerCalls t.race earlier →
      v.timesOut t.race = false
  kept : ∀ v ∈ h, ∀ op ∈ v.op, v.machine.live = some op.owner → op.race ∈ v.machine.taken →
    ∃ u ∈ h, u.timesOut op.race = true

namespace Machine

/-! ### What a step adds -/

section Visits
variable {s s' : Machine} {a : Act} {armed : List Op}

/-- The operations before a step have older race preventers than those that it arms. -/
theorem armed_eq {ops : List Op} (hnumbered : Numbered s) (hstep : s.step a = some s')
    (hops : s'.ops = ops ++ armed) (hold : ops ⊆ s.ops) (hnew : ∀ op ∈ armed, s.fresh ≤ op.race) :
    Visit.armed ⟨s, a⟩ = armed := by
  have hnone : ops.filter (s.fresh ≤ ·.race) = [] :=
    List.filter_eq_nil_iff.mpr fun op hop => by simpa using (hnumbered.ops op (hold hop)).2
  have hall : armed.filter (s.fresh ≤ ·.race) = armed :=
    List.filter_eq_self.mpr fun op hop => by simpa using hnew op hop
  rw [Visit.armed, hstep, Option.getD_some, hops, List.filter_append, hnone, hall, List.nil_append]

/-- What a step does, as the history sees it. -/
structure Seen (s : Machine) (a : Act) (s' : Machine) : Prop where
  fresh : s.fresh ≤ s'.fresh
  armed : ∀ op ∈ Visit.armed ⟨s, a⟩, s.fresh ≤ op.race ∧ op ∈ s'.ops
  ops : ∀ op ∈ s.ops, op ∈ s'.ops ∨ Visit.op ⟨s, a⟩ = some op
  taken : s.taken ⊆ s'.taken
  acts : ∀ race, Visit.acts ⟨s, a⟩ race = true → race ∉ s.taken ∧ race ∈ s'.taken
  timeoutId : s'.timeoutId ≡ s.timeoutId + Visit.timerCalls ⟨s, a⟩ [MOD 2 ^ 32]
  timers : ∀ t ∈ s'.timers, (∃ op ∈ Visit.armed ⟨s, a⟩, t.race = op.race ∧ t.id = s'.timeoutId) ∨
    ∃ t' ∈ s.timers, t'.race = t.race ∧ t'.id = t.id

theorem visit_of_not_guards (h : a.guards = false) : Visit.op ⟨s, a⟩ = none ∧
    Visit.timeout ⟨s, a⟩ = none ∧ ∀ race, Visit.acts ⟨s, a⟩ race = false := by
  cases a with
  | complete i received err => cases h
  | timer i err => cases h
  | _ => exact ⟨rfl, rfl, fun _ => rfl⟩

section Complete
variable {i : ℕ} {received : List UInt8} {err : Option IoError} {op : Op}

theorem visit_op (hop : s.ops[i]? = some op) :
    Visit.op ⟨s, .complete i received err⟩ = some op := hop

theorem acts_complete (hop : s.ops[i]? = some op) (race : ℕ) :
    Visit.acts ⟨s, .complete i received err⟩ race = true ↔
      op.race = race ∧ s.live = some op.owner ∧ race ∉ s.taken := by
  simp [Visit.acts, Visit.timesOut, Visit.handles, visit_op hop, and_assoc]

theorem timerCalls_complete (hop : s.ops[i]? = some op) :
    Visit.timerCalls ⟨s, .complete i received err⟩ =
      (Visit.armed ⟨s, .complete i received err⟩).length +
        if s.live = some op.owner ∧ op.race ∉ s.taken then 1 else 0 := by
  by_cases h : s.live = some op.owner ∧ op.race ∉ s.taken
  · simp [Visit.timerCalls, Visit.handles, visit_op hop, h.1, h.2]
  · rw [if_neg h]
    have htaken : s.live = some op.owner → op.race ∈ s.taken := by simpa using h
    simpa [Visit.timerCalls, Visit.handles, visit_op hop] using htaken

end Complete

theorem acts_timer {i : ℕ} {err : Bool} {t : Timeout} (ht : s.timers[i]? = some t) (race : ℕ) :
    Visit.acts ⟨s, .timer i err⟩ race = true ↔
      err = false ∧ t.race = race ∧ race ∉ s.taken ∧ s.timeoutId = t.id := by
  cases err <;> simp [Visit.acts, Visit.timesOut, Visit.handles, Visit.op, ht, and_assoc]

/-- A timeout that acts raises the error. -/
theorem timesOut_raises {race : ℕ} (hacts : Visit.timesOut ⟨s, a⟩ race = true)
    (hstep : s.step a = some s') : s'.tasks = .event (.error s.ioTimeoutError) :: s.tasks := by
  cases step_cases hstep with
  | timer i t err hqueue htasks ht hcompletes =>
    have hacts' : Visit.acts ⟨s, .timer i err⟩ race = true := by simp [Visit.acts, hacts]
    obtain ⟨rfl, rfl, hfirst, hid⟩ := (acts_timer ht race).mp hacts'
    have htaken : t.race ∉ (s.setTimers (s.timers.eraseIdx i)).taken := hfirst
    rw [Machine.timedOut, if_neg htaken, if_pos ⟨rfl, hid⟩]
    rfl
  | _ => cases hacts

/-- A handler that does not act leaves the machine alone. -/
theorem kept_of_not_acts (hact : a.guards = true)
    (hacts : ∀ race, Visit.acts ⟨s, a⟩ race = false) (hstep : s.step a = some s') :
    Kept s s' ∧ s'.tasks = s.tasks ∧ s'.timeoutId = s.timeoutId := by
  cases step_cases hstep with
  | complete i op received err hqueue htasks hop =>
    have hnot : ¬(s.live = some op.owner ∧ op.race ∉ s.taken) := fun hboth => by
      have hyes : Visit.acts ⟨s, .complete i received err⟩ op.race = true :=
        (acts_complete hop op.race).mpr ⟨rfl, hboth⟩
      rw [hacts op.race] at hyes
      cases hyes
    have hkept := (s.setOps_kept (s.ops.eraseIdx i)).trans (completed_kept _ op received err)
    unfold Machine.completed at hkept ⊢
    split_ifs at hkept ⊢ with hlive hfirst
    · split at hkept <;> exact ⟨hkept, rfl, rfl⟩
    · exact ⟨hkept, rfl, rfl⟩
    · exact absurd ⟨not_not.mp hlive, hfirst⟩ hnot
  | timer i t err hqueue htasks ht hcompletes =>
    have hkept := (s.setTimers_kept (s.timers.eraseIdx i)).trans (timedOut_kept _ t err)
    unfold Machine.timedOut at hkept ⊢
    split_ifs at hkept ⊢ with hrace hid
    · exact ⟨hkept, rfl, rfl⟩
    · have hyes := (acts_timer ht t.race).mpr ⟨hid.1, rfl, hrace, hid.2⟩
      rw [hacts t.race] at hyes
      cases hyes
    · exact ⟨hkept, rfl, rfl⟩
  | _ => cases hact

theorem Timing.seen_other (hact : a.guards = false) (harms : Arms s armed s')
    (hnumbered : Numbered s) (hstep : s.step a = some s') : Seen s a s' := by
  have harmed := armed_eq hnumbered hstep harms.ops (List.Subset.refl _) harms.race_ge
  obtain ⟨hop, -, hacts⟩ := visit_of_not_guards (s := s) hact
  refine ⟨harms.fresh_le, fun op hmem => ?_, fun op hmem => .inl ?_, ?_, fun race hrace => ?_, ?_,
    ?_⟩
  · rw [harmed] at hmem
    exact ⟨harms.race_ge op hmem, harms.ops ▸ List.mem_append_right _ hmem⟩
  · exact harms.ops ▸ List.mem_append_left _ hmem
  · exact harms.taken.symm ▸ List.Subset.refl _
  · rw [hacts race] at hrace
    cases hrace
  · rw [Visit.timerCalls, harmed, hop]
    exact harms.timeoutId
  · intro t ht
    rw [harmed]
    exact harms.timer_cases ht

theorem Timing.seen_handled {i : ℕ} {received : List UInt8} {err : Option IoError} {op : Op}
    (hop : s.ops[i]? = some op) (hlive : s.live = some op.owner) (hfirst : op.race ∉ s.taken)
    (harms : Arms ((s.setOps (s.ops.eraseIdx i)).take op.race).clearAsyncTimeout armed s')
    (hnumbered : Numbered s) (hstep : s.step (.complete i received err) = some s') :
    Seen s (.complete i received err) s' := by
  have hold := (List.eraseIdx_sublist s.ops i).subset
  have harmed := armed_eq hnumbered hstep harms.ops hold harms.race_ge
  refine ⟨harms.fresh_le, fun op' hmem => ?_, fun op' hmem => ?_, ?_, fun race hrace => ?_, ?_, ?_⟩
  · rw [harmed] at hmem
    exact ⟨harms.race_ge op' hmem, harms.ops ▸ List.mem_append_right _ hmem⟩
  · by_cases heq : op' = op
    · exact .inr (heq ▸ hop)
    · exact .inl (harms.ops ▸ List.mem_append_left _ (mem_eraseIdx_of_ne hop hmem heq))
  · rw [harms.taken]
    exact List.subset_cons_self _ _
  · obtain ⟨rfl, -, hnot⟩ := (acts_complete hop race).mp hrace
    rw [harms.taken]
    exact ⟨hnot, List.mem_cons_self⟩
  · rw [timerCalls_complete hop, harmed, if_pos ⟨hlive, hfirst⟩]
    have hid : ((s.setOps (s.ops.eraseIdx i)).take op.race).clearAsyncTimeout.timeoutId ≡
        s.timeoutId + 1 [MOD 2 ^ 32] := Nat.mod_modEq _ _
    have hsum := harms.timeoutId.trans (hid.add_right armed.length)
    rwa [Nat.add_assoc, Nat.add_comm 1] at hsum
  · intro t ht
    rw [harmed]
    rcases harms.timer_cases ht with hnew | ⟨t', ht', hrace, hid⟩
    · exact .inl hnew
    · obtain ⟨t₀, ht₀, rfl⟩ := List.mem_map.mp ht'
      exact .inr ⟨t₀, ht₀, (cancel_race _ _).symm.trans hrace, (cancel_id _ _).symm.trans hid⟩

/-- A handler that arms nothing and clears nothing. -/
theorem Seen.of_dropped {ops : List Op} (hnumbered : Numbered s) (hstep : s.step a = some s')
    (hfresh : s'.fresh = s.fresh) (hid : s'.timeoutId = s.timeoutId) (hops : s'.ops = ops)
    (hold : ops ⊆ s.ops) (hdropped : ∀ op ∈ s.ops, op ∈ ops ∨ Visit.op ⟨s, a⟩ = some op)
    (htaken : s.taken ⊆ s'.taken) (htimers : s'.timers ⊆ s.timers)
    (hacts : ∀ race, Visit.acts ⟨s, a⟩ race = true → race ∉ s.taken ∧ race ∈ s'.taken)
    (hcalls : (Visit.op ⟨s, a⟩).any (fun op => Visit.handles ⟨s, a⟩ op.race) = false) :
    Seen s a s' := by
  have harmed : Visit.armed ⟨s, a⟩ = [] :=
    armed_eq hnumbered hstep (hops.trans (List.append_nil _).symm) hold nofun
  refine ⟨hfresh.ge, ?_, hops ▸ hdropped, htaken, hacts, ?_, fun t ht => .inr ?_⟩
  · rw [harmed]
    exact nofun
  · rw [Visit.timerCalls, harmed, hcalls, hid]
    rfl
  · exact ⟨t, htimers ht, rfl, rfl⟩

theorem Timing.seen_ignored {i : ℕ} {received : List UInt8} {err : Option IoError} {op : Op}
    (hop : s.ops[i]? = some op) (hnot : s.live = some op.owner → op.race ∈ s.taken)
    (h : s' = s.setOps (s.ops.eraseIdx i) ∨
      s.live ≠ some op.owner ∧ s' = (s.setOps (s.ops.eraseIdx i)).take op.race)
    (hnumbered : Numbered s) (hstep : s.step (.complete i received err) = some s') :
    Seen s (.complete i received err) s' := by
  have hold := (List.eraseIdx_sublist s.ops i).subset
  have hdropped : ∀ op' ∈ s.ops, op' ∈ s.ops.eraseIdx i ∨
      Visit.op ⟨s, .complete i received err⟩ = some op' := by
    intro op' hmem
    by_cases heq : op' = op
    · exact .inr (heq ▸ hop)
    · exact .inl (mem_eraseIdx_of_ne hop hmem heq)
  have hacts (race : ℕ) (hrace : Visit.acts ⟨s, .complete i received err⟩ race = true) : False := by
    obtain ⟨rfl, hlive, hfirst⟩ := (acts_complete hop race).mp hrace
    exact hfirst (hnot hlive)
  have hcalls : (Visit.op ⟨s, .complete i received err⟩).any
      (fun op => Visit.handles ⟨s, .complete i received err⟩ op.race) = false := by
    simpa [Visit.handles, visit_op hop] using hnot
  rcases h with rfl | ⟨-, rfl⟩
  · exact .of_dropped hnumbered hstep rfl rfl rfl hold hdropped (List.Subset.refl _)
      (List.Subset.refl _) (fun race hrace => (hacts race hrace).elim) hcalls
  · exact .of_dropped hnumbered hstep rfl rfl rfl hold hdropped (List.subset_cons_self _ _)
      (List.Subset.refl _) (fun race hrace => (hacts race hrace).elim) hcalls

theorem Timing.seen_timeout {i : ℕ} {err : Bool} {t : Timeout} (ht : s.timers[i]? = some t)
    (hnumbered : Numbered s)
    (hstep : s.step (.timer i err) = some ((s.setTimers (s.timers.eraseIdx i)).timedOut t err)) :
    Seen s (.timer i err) ((s.setTimers (s.timers.eraseIdx i)).timedOut t err) := by
  have hold := (List.eraseIdx_sublist s.timers i).subset
  have hdropped : ∀ op ∈ s.ops, op ∈ s.ops ∨ Visit.op ⟨s, .timer i err⟩ = some op :=
    fun _ hmem => .inl hmem
  unfold Machine.timedOut at hstep ⊢
  split_ifs at hstep ⊢ with hrace hid
  · refine .of_dropped hnumbered hstep rfl rfl rfl (List.Subset.refl _) hdropped
      (List.Subset.refl _) hold (fun race hacts => ?_) rfl
    obtain ⟨-, rfl, hfirst, -⟩ := (acts_timer ht race).mp hacts
    exact absurd hrace hfirst
  · refine .of_dropped hnumbered hstep rfl rfl rfl (List.Subset.refl _) hdropped
      (List.subset_cons_self _ _) hold (fun race hacts => ?_) rfl
    obtain ⟨-, rfl, hfirst, -⟩ := (acts_timer ht race).mp hacts
    exact ⟨hfirst, List.mem_cons_self⟩
  · refine .of_dropped hnumbered hstep rfl rfl rfl (List.Subset.refl _) hdropped
      (List.subset_cons_self _ _) hold (fun race hacts => ?_) rfl
    obtain ⟨-, rfl, hfirst, -⟩ := (acts_timer ht race).mp hacts
    exact ⟨hfirst, List.mem_cons_self⟩

theorem Timing.seen (h : Timing s s' a armed) (hnumbered : Numbered s)
    (hstep : s.step a = some s') : Seen s a s' := by
  cases h with
  | other hact harms hmoves => exact Timing.seen_other hact harms hnumbered hstep
  | ignored i received err op hidle hop hnot heq =>
    exact Timing.seen_ignored hop hnot heq hnumbered hstep
  | handled i received err op _ hidle hop hlive hfirst harms hstays hfree =>
    exact Timing.seen_handled hop hlive hfirst harms hnumbered hstep
  | timeout i err t hidle ht hcompletes heq =>
    subst heq
    exact Timing.seen_timeout ht hnumbered hstep

theorem Timing.live (h : Timing s s' a armed) :
    s'.live = s.live ∨ s'.live = none ∨ s'.live = some s.fresh := by
  cases h with
  | other hact harms hmoves =>
    cases hmoves with
    | stays hstays => exact .inl hstays
    | enters henters =>
      cases henters with
      | bare hnone => exact .inr (.inl hnone)
      | new hnew => exact .inr (.inr hnew)
  | ignored i received err op hidle hop hnot heq =>
    rcases heq with rfl | ⟨-, rfl⟩ <;> exact .inl rfl
  | handled i received err op _ hidle hop hlive hfirst harms hstays hfree => exact .inl hstays
  | timeout i err t hidle ht hcompletes heq =>
    rw [heq]
    exact .inl (timedOut_kept (s.setTimers (s.timers.eraseIdx i)) t err).live

theorem idle_of_op {op : Op} (h : Timing s s' a armed) (hop : Visit.op ⟨s, a⟩ = some op) :
    s.idle = true := by
  cases h with
  | other hact =>
    rw [(visit_of_not_guards hact).1] at hop
    cases hop
  | ignored i received err op hidle => exact hidle
  | handled i received err op _ hidle => exact hidle
  | timeout => cases hop

/-- The first of the two handlers to run in the state that armed the operation acts. -/
theorem Watched.acts {op : Op} (h : Watched s) (htiming : Timing s s' a armed) (hop : op ∈ s.ops)
    (hlive : s.live = some op.owner) (hruns : Visit.Runs ⟨s, a⟩ op) :
    Visit.acts ⟨s, a⟩ op.race = true := by
  cases htiming with
  | other hact =>
    obtain ⟨hop, htimeout, -⟩ := visit_of_not_guards (s := s) hact
    rcases hruns with hruns | ⟨t, ht, -⟩
    · rw [hop] at hruns
      cases hruns
    · rw [htimeout] at ht
      cases ht
  | ignored i received err op' hidle hop' hnot heq =>
    rcases hruns with hruns | ⟨t, ht, -⟩
    · exact (acts_complete hruns _).mpr ⟨rfl, hlive, (h.guarded hidle hop hlive).first⟩
    · cases ht
  | handled i received err op' _ hidle hop' =>
    rcases hruns with hruns | ⟨t, ht, -⟩
    · exact (acts_complete hruns _).mpr ⟨rfl, hlive, (h.guarded hidle hop hlive).first⟩
    · cases ht
  | timeout i err t hidle ht hcompletes heq =>
    rcases hruns with hruns | ⟨t', ht', hrace⟩
    · cases hruns
    · obtain rfl : t = t' := Option.some.inj (ht.symm.trans ht')
      obtain ⟨hfirst, herr, hid⟩ := (h.guarded hidle hop hlive).completes
        (List.mem_of_getElem? ht) hrace hcompletes
      exact (acts_timer ht _).mpr ⟨herr, hrace, hrace ▸ hfirst, hid⟩

end Visits

/-! ### Runs -/

/-- What a run keeps. -/
structure Raced (s : Machine) (h : History) : Prop where
  numbered : Numbered s
  lone : Lone s
  working : Working s
  watched : Watched s
  ran : ∀ v ∈ h, ∀ op, v.Runs op → op.race < s.fresh
  owners : ∀ op ∈ armedOps h, op.owner < s.fresh
  first : ∀ race, 0 < acted race h → race ∈ s.taken
  pending : ∀ op ∈ armedOps h, s.live = some op.owner → op ∈ s.ops ∨ 0 < acted op.race h
  ids : ∀ t ∈ s.timers, t.id + since Visit.timerCalls t.race h ≡ s.timeoutId [MOD 2 ^ 32]
  acts : ActsOnce h

/-- A step that keeps the timeouts apart: it does not arm an operation for cancelled data beside
that of the state, and the id of a timeout has not come round when its handler runs. -/
def Fair (p : Machine × History) (a : Act) : Prop :=
  p.1.strays = false ∧
    ∀ t ∈ Visit.timeout ⟨p.1, a⟩, since Visit.timerCalls t.race p.2 < 2 ^ 32

instance (p : Machine × History) (a : Act) : Decidable (Fair p a) :=
  inferInstanceAs (Decidable (_ ∧ _))

section Runs
variable {s s' : Machine} {a : Act} {h : History}

@[simp] theorem acted_cons (race : ℕ) (v : Visit) (h : History) :
    acted race (v :: h) = acted race h + if v.acts race then 1 else 0 := List.countP_cons

theorem mem_armedOps_cons {op : Op} {v : Visit} :
    op ∈ armedOps (v :: h) ↔ op ∈ v.armed ∨ op ∈ armedOps h := by
  simp [armedOps]

theorem Numbered.ran (hnumbered : Numbered s) {op : Op} (hruns : Visit.Runs ⟨s, a⟩ op) :
    op.race < s.fresh := by
  rcases hruns with hop | ⟨t, ht, hrace⟩
  · cases a with
    | complete i received err => exact (hnumbered.ops op (List.mem_of_getElem? hop)).2
    | _ => cases hop
  · cases a with
    | timer i err => exact hrace ▸ hnumbered.timers t (List.mem_of_getElem? ht)
    | _ => cases ht

theorem Raced.live_old (hraced : Raced s h) {armed : List Op} (htiming : Timing s s' a armed)
    {op : Op} (hop : op ∈ armedOps h) (hlive : s'.live = some op.owner) :
    s.live = some op.owner := by
  rcases htiming.live with hsame | hnone | hnew
  · exact hsame ▸ hlive
  · rw [hnone] at hlive
    cases hlive
  · rw [hnew] at hlive
    exact absurd (hraced.owners op hop) (Option.some.inj hlive ▸ lt_irrefl _)

theorem Raced.pending_step (hraced : Raced s h) {armed : List Op} (htiming : Timing s s' a armed)
    (hseen : Seen s a s') : ∀ op ∈ armedOps (observeVisit s a h), s'.live = some op.owner →
      op ∈ s'.ops ∨ 0 < acted op.race (observeVisit s a h) := by
  intro op hop hlive
  rcases mem_armedOps_cons.mp hop with hop | hop
  · exact .inl (hseen.armed op hop).2
  · have hlive' := hraced.live_old htiming hop hlive
    rw [observeVisit, acted_cons]
    rcases hraced.pending op hop hlive' with hmem | hacted
    · rcases hseen.ops op hmem with hmem' | hruns
      · exact .inl hmem'
      · have hacts := hraced.watched.acts htiming hmem hlive' (.inl hruns)
        exact .inr (by rw [if_pos hacts]; omega)
    · exact .inr (by omega)

/-- The id of a timeout has been changed since as often as the operations and the handlers have
called for it. -/
theorem Raced.ids_step (hraced : Raced s h) (hseen : Seen s a s') :
    ∀ t ∈ s'.timers,
      t.id + since Visit.timerCalls t.race (observeVisit s a h) ≡ s'.timeoutId [MOD 2 ^ 32] := by
  intro t ht
  rw [observeVisit, since]
  rcases hseen.timers t ht with ⟨op, hop, hrace, hid⟩ | ⟨t', ht', hrace, hid⟩
  · rw [if_pos (hrace ▸ List.mem_map_of_mem hop), hid]
    rfl
  · have hlt := hraced.numbered.timers t' ht'
    have hold : t.race ∉ (Visit.armed ⟨s, a⟩).map Op.race := by
      intro hmem
      obtain ⟨op, hop, heq⟩ := List.mem_map.mp hmem
      have hge := (hseen.armed op hop).1
      rw [heq, ← hrace] at hge
      exact absurd hlt (not_lt.mpr hge)
    rw [if_neg hold, ← hrace, ← hid]
    have hsum := (hraced.ids t' ht').add_right (Visit.timerCalls ⟨s, a⟩)
    rw [Nat.add_assoc, Nat.add_comm (since _ _ _)] at hsum
    exact hsum.trans hseen.timeoutId.symm

theorem Raced.atMostOnce_step (hraced : Raced s h) (hseen : Seen s a s') (race : ℕ) :
    acted race (observeVisit s a h) ≤ 1 := by
  rw [observeVisit, acted_cons]
  split_ifs with hacts
  · have hnone : ¬0 < acted race h := fun hpos =>
      (hseen.acts race hacts).1 (hraced.first race hpos)
    omega
  · exact hraced.acts.atMostOnce race

theorem Raced.once_step (hraced : Raced s h) {armed : List Op} (htiming : Timing s s' a armed)
    (hseen : Seen s a s') : ∀ op ∈ armedOps (observeVisit s a h), ∀ v ∈ observeVisit s a h,
      v.Runs op → v.machine.live = some op.owner → acted op.race (observeVisit s a h) = 1 := by
  intro op hop v hv hruns hlive
  refine le_antisymm (hraced.atMostOnce_step hseen op.race) ?_
  rw [observeVisit, acted_cons]
  have hran : op.race < s.fresh := by
    rcases List.mem_cons.mp hv with rfl | hv
    · exact hraced.numbered.ran hruns
    · exact hraced.ran v hv op hruns
  rcases mem_armedOps_cons.mp hop with hop | hop
  · exact absurd hran (not_lt.mpr (hseen.armed op hop).1)
  · rcases List.mem_cons.mp hv with rfl | hv
    · rcases hraced.pending op hop hlive with hmem | hacted
      · rw [if_pos (hraced.watched.acts htiming hmem hlive hruns)]
        omega
      · omega
    · have hone := hraced.acts.once op hop v hv hruns hlive
      omega

/-- A timeout that acts is the latest, unless the id has come round. -/
theorem Raced.timesOut_eq (hraced : Raced s h) {t : Timeout}
    (ht : Visit.timeout ⟨s, a⟩ = some t)
    (hfair : since Visit.timerCalls t.race h < 2 ^ 32)
    (hcalls : 0 < since Visit.timerCalls t.race h) : Visit.timesOut ⟨s, a⟩ t.race = false := by
  cases a with
  | timer i err =>
    rw [Bool.eq_false_iff]
    intro hacts
    have hmem := List.mem_of_getElem? ht
    have hacts' : Visit.acts ⟨s, .timer i err⟩ t.race = true := by simp [Visit.acts, hacts]
    obtain ⟨-, -, -, hid⟩ := (acts_timer ht _).mp hacts'
    have hmod := hraced.ids t hmem
    rw [hid] at hmod
    have hzero : since Visit.timerCalls t.race h ≡ 0 [MOD 2 ^ 32] :=
      Nat.ModEq.add_left_cancel' t.id hmod
    have hdvd := Nat.le_of_dvd hcalls ((Nat.modEq_zero_iff_dvd).mp hzero)
    omega
  | _ => cases ht

theorem Raced.step (hraced : Raced s h) (hfair : Fair (s, h) a) (hstep : s.step a = some s') :
    Raced s' (observeVisit s a h) := by
  obtain ⟨armed, htiming⟩ := timing_step hraced.lone hfair.1 hstep
  have hseen := htiming.seen hraced.numbered hstep
  have hnumbered := hraced.numbered.step hstep
  refine ⟨hnumbered, hraced.lone.step hraced.numbered hstep, hraced.working.step hstep,
    hraced.watched.step hraced.numbered hraced.working htiming hstep, fun v hv op hruns => ?_,
    fun op hop => ?_, fun race hacted => ?_, hraced.pending_step htiming hseen,
    hraced.ids_step hseen, hraced.atMostOnce_step hseen, hraced.once_step htiming hseen,
    fun v earlier hsuffix t ht _ hcalls => ?_, fun v hv op hop hlive htaken => ?_⟩
  · rcases List.mem_cons.mp hv with rfl | hv
    · exact (hraced.numbered.ran hruns).trans_le hseen.fresh
    · exact (hraced.ran v hv op hruns).trans_le hseen.fresh
  · rcases mem_armedOps_cons.mp hop with hop | hop
    · exact (hnumbered.ops op (hseen.armed op hop).2).1
    · exact (hraced.owners op hop).trans_le hseen.fresh
  · rw [observeVisit, acted_cons] at hacted
    split_ifs at hacted with hacts
    · exact (hseen.acts race hacts).2
    · exact hseen.taken (hraced.first race hacted)
  · rcases List.suffix_cons_iff.mp hsuffix with heq | hsuffix
    · cases heq
      exact hraced.timesOut_eq ht (hfair.2 t ht) hcalls
    · exact hraced.acts.stale v earlier hsuffix t ht ‹_› hcalls
  · rcases List.mem_cons.mp hv with rfl | hv
    · -- The handler of an operation that its state still waits for is never ignored.
      have hmem : op ∈ s.ops := by
        cases a with
        | complete i received err => exact List.mem_of_getElem? hop
        | _ => cases hop
      have hguarded := hraced.watched.guarded (idle_of_op htiming hop) hmem hlive
      exact absurd htaken hguarded.first
    · obtain ⟨u, hu, hacts⟩ := hraced.acts.kept v hv op hop hlive htaken
      exact ⟨u, List.mem_cons_of_mem _ hu, hacts⟩

theorem raced_create (cfg : Config) (time : ℕ) : Raced (create cfg time) [] where
  numbered := numbered_create cfg time
  lone := lone_create cfg time
  working := working_create cfg time
  watched := watched_create cfg time
  ran := by simp
  owners := by simp [armedOps]
  first := by simp [acted]
  pending := by simp [armedOps]
  ids := fun t ht => absurd ht List.not_mem_nil
  acts := ⟨by simp [acted], by simp, by simp, by simp⟩

end Runs

/-- In a run of fair steps the handler of an operation and its timeout never both act, one of them
does as long as the state waits for it, and neither gets in the way of another operation. -/
theorem run_actsOnce (cfg : Config) (time : ℕ) (acts : List Act)
    (hfair : Along (watch step observeVisit) (fun p a _ => Fair p a) (create cfg time, []) acts) :
    Always (watch step observeVisit) (fun p => ActsOnce p.2) (create cfg time, []) acts := by
  refine Always.of_guarded (I := fun p => Raced p.1 p.2) (fun _ h => h.acts) ?_
    (raced_create cfg time) hfair
  rintro ⟨s, h⟩ a ⟨s', h'⟩ hraced hfair hstep
  obtain ⟨hs, rfl⟩ := watch_eq_some hstep
  exact hraced.step hfair hs

def plainStart : Machine :=
  create { originalUrl := "http://h/", gunzip := fun _ => .error (.exception "") } 0

/-- A name is resolved, and then the timeout runs that this has cancelled. The connection times
out before its handler runs. -/
def resolvedThenTimedOut : List Act :=
  [.start, .proceed {}, .complete 0 [] none, .proceed {}, .timer 0 true, .clock (31 * second),
    .timer 0 false, .proceed {}, .proceed {}, .proceed {}, .complete 0 [] none]

theorem run_actsOnce_resolved :
    (run step plainStart resolvedThenTimedOut).isSome = true ∧
      Always (watch step observeVisit) (fun p => ActsOnce p.2) (plainStart, [])
        resolvedThenTimedOut := by
  refine ⟨by decide +kernel, run_actsOnce _ _ _
    (along_of_check (p := fun p a => decide (Fair p a))
      (fun p a _ hfair => of_decide_eq_true hfair) ?_)⟩
  decide +kernel

/-- The callback that gets the first chunk fails the request with an I/O timeout, so that it is
made again. Its handler then goes on to the size of the next chunk. The timeout of the new name
resolution, which this has cancelled, runs before its handler. -/
def failedInChunk : List Act :=
  [.start, .proceed {}, .complete 0 [] none, .proceed {}, .complete 0 [] none, .proceed {},
    .complete 0 [] none, .proceed {},
    .complete 0 "HTTP/1.1 200 OK\r\nTransfer-Encoding: chunked\r\n\r\n".toUTF8.toList none,
    .proceed {}, .proceed {}, .complete 0 "1\r\n".toUTF8.toList none, .proceed {}, .delay 0 false,
    .complete 0 "a\r\n".toUTF8.toList none, .proceed { calls := [.fail (.http .ioTimeout) ""] },
    .proceed {}, .proceed {}, .proceed {}, .proceed {}, .timer 6 true, .complete 0 [] none]

def failedInChunkOp : Op where
  owner := 11
  race := 12
  kind := .resolve { host := "h", port := "http", proxy := none }

def failedInChunkHistory : History :=
  ((run (watch step observeVisit) (plainStart, []) failedInChunk).map Prod.snd).getD []

/-- Both handlers of the name resolution have run while the machine waited for it, and neither has
acted. -/
theorem not_actsOnce_failedInChunk :
    ¬Always (watch step observeVisit) (fun p => ActsOnce p.2) (plainStart, []) failedInChunk := by
  intro h
  have hsome : (run (watch step observeVisit) (plainStart, []) failedInChunk).isSome = true := by
    decide +kernel
  obtain ⟨p, hp⟩ := Option.isSome_iff_exists.mp hsome
  have hhistory : failedInChunkHistory = p.2 := by rw [failedInChunkHistory, hp]; rfl
  have hacts : ActsOnce failedInChunkHistory := hhistory ▸ h.last hp
  have harmed : failedInChunkOp ∈ armedOps failedInChunkHistory := by decide +kernel
  have hhandler : ∃ v ∈ failedInChunkHistory, v.op = some failedInChunkOp ∧
      v.machine.live = some failedInChunkOp.owner := by decide +kernel
  obtain ⟨v, hv, hop, hlive⟩ := hhandler
  have hone := hacts.once _ harmed v hv (.inl hop) hlive
  have hzero : acted failedInChunkOp.race failedInChunkHistory = 0 := by decide +kernel
  omega

end Machine

end MediafireSdk.Http
