import MediafireSdk.Actions.WorkManager

/-! When `ExecuteWork` runs all queued work, for a parent that queues and executes work round
after round. The loop ends once it has posted nothing and no suspension is left, and it finds the
list of work in progress with the coroutine in it whose callback it runs inside: with a limit below
three nothing may be posted although there is work left. -/

namespace MediafireSdk.Actions.ExecuteWork

open Runs MediafireSdk.Actions.System

/-- A parent that queues one list of work after the other and executes each. -/
def inRounds (ω β : Type*) : Body ω β (List (List ω)) where
  next
    | [] => ([], [], false)
    | tasks :: rounds => (tasks, rounds, true)
  handle _ _ rounds := rounds

section

variable {ω ρ α β π : Type*}

/-- What has been started, beside the run. -/
def observeStart (s : System ω ρ α β π) : Event α → List ω → List ω
  | .startPosted index, started => started ++ (s.posted[index]?.map Work.task).toList
  | _, started => started

abbrev step (coroutine : Coroutine ω ρ α β) :=
  watch (System.step (inRounds ω β) coroutine) observeStart

def create (rounds : List (List ω)) (maxConcurrentWork : ℕ) :
    System ω ρ α β (List (List ω)) × List ω :=
  (System.create rounds maxConcurrentWork, [])

/-- What the parent has queued. -/
def queued (rounds : List (List ω)) (s : System ω ρ α β (List (List ω))) : List ω :=
  rounds.flatten.take s.created

/-- The parent is not suspended in `ExecuteWork`. -/
inductive Returned : Control → Prop
  | running (caller : Option ℕ) : Returned (.running caller)
  | finished : Returned .finished

/-- What is expected of every state. The parent is not resumed when it is not suspended. The list of
work in progress is within the limit also when `ExecuteWork` has posted work. The `io_service` may
run what is posted to it in order. -/
structure RanAll (rounds : List (List ω)) (limit : ℕ) (inOrder : Prop)
    (s : System ω ρ α β (List (List ω))) (started : List ω) : Prop where
  defined : s.control ≠ .crashed
  limited : ∀ workQueue : List (Work ω), (postWork s.manager.maxConcurrentWork workQueue
    s.manager.inProgressList).2.2.length ≤ limit
  once : List.Subperm started (queued rounds s)
  ordered : inOrder → started <+: queued rounds s
  awake : ¬ Returned s.control → s.control ≠ .idle → s.outstanding ≠ []
  returned : Returned s.control →
    started.Perm (queued rounds s) ∧ (s.done.map Done.task).Perm (queued rounds s)

end

/-- In every run every round of work is run to its end, whatever the coroutines do. -/
def RunsAll (limit : ℕ) (sizes : List ℕ) : Prop :=
  ∀ (ω ρ α β : Type) (coroutine : Coroutine ω ρ α β) (rounds : List (List ω)),
    rounds.map List.length = sizes → ∀ events s started,
      run (step coroutine) (create rounds limit) events = some (s, started) →
        RanAll rounds limit (∀ index, Event.startPosted index ∈ events → index = 0) s started

/-- The rounds before a parent whose coroutines have called back. -/
def SuitsResumed (limit : ℕ) (sizes : List ℕ) : Prop :=
  3 ≤ limit ∨ limit = 2 ∨ sizes.sum = 0

/-- The limits and rounds of work for which no work is left behind: with a limit of two the first
round that is not empty has at most two coroutines, with a limit of one there is only one in all. -/
def Suits (limit : ℕ) (sizes : List ℕ) : Prop :=
  3 ≤ limit ∨ (limit = 2 ∧ ∀ first ∈ sizes.find? (· ≠ 0), first ≤ 2) ∨ sizes.sum ≤ min limit 1

section Rounds

variable {limit size : ℕ} {sizes : List ℕ}

theorem suits_zero : Suits limit (0 :: sizes) ↔ Suits limit sizes := by
  simp [Suits]

theorem suits_cons (hsize : size ≠ 0) : Suits limit (size :: sizes) ↔
    3 ≤ limit ∨ (size ≤ limit ∧ SuitsResumed limit sizes) := by
  simp only [Suits, SuitsResumed, List.find?_cons, hsize, ne_eq, not_false_eq_true, decide_true,
    Option.mem_some_iff, forall_eq', List.sum_cons]
  omega

theorem suitsResumed_cons : SuitsResumed limit (size :: sizes) ↔
    (3 ≤ limit ∨ limit = 2 ∨ size = 0) ∧ SuitsResumed limit sizes := by
  simp only [SuitsResumed, List.sum_cons]
  omega

end Rounds

/-! ### Posting -/

section Post

variable {ω ρ α β π : Type*} {limit : ℕ}

theorem length_postWork_le {workQueue : List (Work ω)} {inProgressList : List ℕ}
    (h : inProgressList.length ≤ limit) :
    (postWork limit workQueue inProgressList).2.2.length ≤ limit := by
  induction workQueue generalizing inProgressList with
  | nil => exact h
  | cons work workQueue ih =>
    rw [postWork]
    split_ifs with hlt
    · exact ih (by simpa using hlt)
    · exact h

theorem postWork_all {workQueue : List (Work ω)} {inProgressList : List ℕ}
    (h : inProgressList.length + workQueue.length ≤ limit) :
    (postWork limit workQueue inProgressList).2.1 = [] := by
  induction workQueue generalizing inProgressList with
  | nil => rfl
  | cons work workQueue ih =>
    rw [List.length_cons] at h
    rw [postWork, if_pos (by omega)]
    exact ih (by rw [List.length_append, List.length_singleton]; omega)

/-- Work is left in the queue only if another suspension follows, or if only one coroutine is in
progress and the loop will post again. -/
def Ahead (limit yields : ℕ) (queueMoreWork : Bool) (workQueue : List (Work ω)) : Prop :=
  workQueue ≠ [] → (3 ≤ limit ∧ 1 ≤ yields) ∨ (limit = 2 ∧ yields = 0 ∧ queueMoreWork = true)

/-- `Scheduled` for any limit. -/
def Planned (limit : ℕ) (s : System ω ρ α β π) : Prop :=
  match s.control with
  | .idle => s.pending = [] ∧ s.manager.inProgressList = []
  | .running caller => s.pending = [] ∧ s.manager.inProgressList = caller.toList
  | .executing yields queueMoreWork =>
    s.outstanding.length = yields + 1 ∧
      s.manager.inProgressList.Perm (s.outstanding.map Work.id) ∧
      Ahead limit yields queueMoreWork s.manager.workQueue
  | .finished => s.pending = []
  | .crashed => False

theorem executeWork_planned {yields : ℕ} {caller : Option ℕ} (s : System ω ρ α β π)
    (hlimit : s.manager.maxConcurrentWork = limit)
    (hroom : s.manager.inProgressList.length ≤ limit) (hyields : s.outstanding.length = yields)
    (hlist : s.manager.inProgressList.Perm (caller.toList ++ s.outstanding.map Work.id))
    (hcaller : ∀ id ∈ caller, id ∉ s.pending.map Work.id)
    (hahead : s.manager.inProgressList.length + s.manager.workQueue.length ≤ limit ∨ 3 ≤ limit ∨
      (limit = 2 ∧ yields = 0 ∧ caller ≠ none)) :
    Planned limit (executeWork yields caller s) ∧
      (executeWork yields caller s).manager.inProgressList.length ≤ limit := by
  subst hlimit
  have hpost := post_outstanding s
  have hcount : s.post.outstanding.length = yields + s.toPost.length := by
    rw [hpost.length_eq, List.length_append, hyields]
  have hids : s.post.manager.inProgressList.Perm
      (caller.toList ++ s.post.outstanding.map Work.id) := by
    rw [post_inProgressList]
    refine (hlist.append_right _).trans ?_
    rw [List.append_assoc, ← List.map_append]
    exact ((hpost.map Work.id).symm).append_left _
  have hlength : s.post.manager.inProgressList.length = caller.toList.length +
      (yields + s.toPost.length) := by
    rw [hids.length_eq, List.length_append, List.length_map, hcount]
  have hone : caller.toList.length ≤ 1 := by cases caller <;> simp
  have hbound : s.post.manager.inProgressList.length ≤ s.manager.maxConcurrentWork :=
    length_postWork_le hroom
  have hfull : s.post.manager.workQueue ≠ [] →
      s.manager.maxConcurrentWork ≤ s.post.manager.inProgressList.length := le_length_postWork
  have hleft : s.post.manager.workQueue ≠ [] → 3 ≤ s.manager.maxConcurrentWork ∨
      (s.manager.maxConcurrentWork = 2 ∧ yields = 0 ∧ caller.toList.length = 1) := by
    intro hne
    rcases hahead with hfits | hthree | ⟨htwo, hnone, hsome⟩
    · exact absurd (postWork_all hfits) hne
    · exact .inl hthree
    · obtain ⟨id, rfl⟩ := Option.ne_none_iff_exists'.mp hsome
      exact .inr ⟨htwo, hnone, rfl⟩
  unfold executeWork
  dsimp only
  split_ifs with hnone
  · refine ⟨?_, hbound⟩
    have hqueue : s.post.manager.workQueue = [] := by
      by_contra hne
      have := hfull hne
      have := hleft hne
      omega
    have hnothing : s.post.outstanding = [] := List.eq_nil_of_length_eq_zero (by omega)
    rw [hnothing, List.map_nil, List.append_nil] at hids
    refine ⟨?_, ?_⟩
    · show s.post.outstanding ++ s.post.manager.workQueue = []
      rw [hnothing, hqueue, List.append_nil]
    · cases caller with
      | none => exact hids.eq_nil
      | some id => exact List.perm_singleton.mp hids
  · have hremoved : (complete caller { s.post with
        control := .executing (yields + s.toPost.length - 1) !s.toPost.isEmpty
        }).manager.inProgressList.Perm (s.post.outstanding.map Work.id) := by
      refine complete_inProgressList _ hids fun id hid hmem => hcaller id hid ?_
      rw [← (post_pending s).map Work.id |>.mem_iff]
      rw [pending, List.map_append]
      exact List.mem_append_left _ hmem
    refine ⟨?_, ?_⟩
    · simp only [Planned, complete_control]
      refine ⟨?_, ?_, ?_⟩
      · rw [complete_outstanding]
        show s.post.outstanding.length = _
        omega
      · rw [complete_outstanding]
        exact hremoved
      · rw [complete_workQueue]
        intro hne
        have hmost := hfull hne
        rcases hleft hne with hthree | ⟨htwo, hzero, hsome⟩
        · exact .inl ⟨hthree, by omega⟩
        · refine .inr ⟨htwo, by omega, ?_⟩
          rw [Bool.not_eq_true', List.isEmpty_eq_false_iff]
          refine List.ne_nil_of_length_pos ?_
          omega
    · rw [hremoved.length_eq, List.length_map]
      omega

end Post

/-! ### What is started -/

section Counted

variable {ω ρ α β : Type*} {coroutine : Coroutine ω ρ α β} {rounds : List (List ω)}
  {inOrder : Prop} {hand started : List ω} {s s' : System ω ρ α β (List (List ω))}

/-- The work that has not been started. -/
def waiting {π : Type*} (s : System ω ρ α β π) : List ω :=
  (s.posted ++ s.manager.workQueue).map Work.task

theorem waiting_post {π : Type*} (s : System ω ρ α β π) : waiting s.post = waiting s := by
  obtain ⟨hqueue, -⟩ := postWork_append s.manager.maxConcurrentWork s.manager.workQueue
    s.manager.inProgressList
  simp only [waiting, post, toPost, List.append_assoc, hqueue]

@[simp] theorem waiting_complete {π : Type*} (caller : Option ℕ) (s : System ω ρ α β π) :
    waiting (complete caller s) = waiting s := by simp [waiting]

theorem waiting_executeWork {π : Type*} (yields : ℕ) (caller : Option ℕ) (s : System ω ρ α β π) :
    waiting (executeWork yields caller s) = waiting s := by
  unfold executeWork
  dsimp only
  split_ifs
  · exact waiting_post s
  · rw [waiting_complete]
    exact waiting_post s

theorem waiting_queueWork {π : Type*} (tasks : List ω) (s : System ω ρ α β π) :
    waiting (queueWork tasks s) = waiting s ++ tasks := by
  have hnew : (tasks.mapIdx fun i => Work.mk (s.created + i)).map Work.task = tasks := by
    refine List.ext_getElem (by simp) fun i hi hi' => by simp
  simp only [waiting, queueWork, List.map_append, List.append_assoc, hnew]

/-- All work that has been queued waits, has been started or has called back; `hand` is the work
that a step is about. -/
structure Counted (rounds : List (List ω)) (inOrder : Prop) (hand : List ω)
    (s : System ω ρ α β (List (List ω))) (started : List ω) : Prop where
  left : s.parent.flatten = rounds.flatten.drop s.created
  once : (started ++ waiting s).Perm (queued rounds s)
  ordered : inOrder → started ++ waiting s = queued rounds s
  begun : (s.done.map Done.task ++ (s.active.map fun active => active.work.task) ++ hand).Perm
    started

theorem Counted.create (rounds : List (List ω)) (inOrder : Prop) (limit : ℕ) :
    Counted rounds inOrder [] (create (ρ := ρ) (α := α) (β := β) rounds limit).1 [] :=
  ⟨rfl, .refl _, fun _ => rfl, .refl _⟩

theorem Counted.congr (h : Counted rounds inOrder hand s started) (hparent : s'.parent = s.parent)
    (hdone : s'.done = s.done) (hactive : s'.active = s.active) (hcreated : s'.created = s.created)
    (hwaiting : waiting s' = waiting s) : Counted rounds inOrder hand s' started := by
  refine ⟨?_, ?_, fun hin => ?_, ?_⟩
  · rw [hparent, hcreated]
    exact h.left
  · rw [hwaiting, queued, hcreated]
    exact h.once
  · rw [hwaiting, queued, hcreated]
    exact h.ordered hin
  · rw [hdone, hactive]
    exact h.begun

theorem Counted.executeWork (h : Counted rounds inOrder hand s started) (yields : ℕ)
    (caller : Option ℕ) : Counted rounds inOrder hand (executeWork yields caller s) started := by
  have hexecuted := executeWork_executed yields caller s
  exact h.congr hexecuted.parent hexecuted.done hexecuted.active hexecuted.created
    (waiting_executeWork yields caller s)

theorem Counted.queueWork {tasks : List ω} {rest : List (List ω)}
    (h : Counted rounds inOrder hand s started) (hparent : s.parent = tasks :: rest) :
    Counted rounds inOrder hand (queueWork tasks { s with parent := rest }) started := by
  have hleft : rounds.flatten.drop s.created = tasks ++ rest.flatten := by
    rw [← h.left, hparent, List.flatten_cons]
  have hqueued : queued rounds (System.queueWork tasks { s with parent := rest }) =
      queued rounds s ++ tasks := by
    simp only [queued, System.queueWork]
    rw [List.take_add, hleft, List.take_left]
  have hwaiting : waiting (System.queueWork tasks { s with parent := rest }) =
      waiting s ++ tasks := waiting_queueWork tasks { s with parent := rest }
  refine ⟨?_, ?_, fun hin => ?_, h.begun⟩
  · simp only [System.queueWork]
    rw [← List.drop_drop, hleft, List.drop_left]
  · rw [hqueued, hwaiting, ← List.append_assoc]
    exact h.once.append_right tasks
  · rw [hqueued, hwaiting, ← List.append_assoc, h.ordered hin]

theorem Counted.proceed (h : Counted rounds inOrder [] s started) (caller : Option ℕ) :
    Counted rounds inOrder [] (proceed (inRounds ω β) caller s) started := by
  cases hparent : s.parent with
  | nil =>
    have hnext : (inRounds ω β).next s.parent = ([], [], false) := by rw [hparent]; rfl
    simp only [System.proceed, hnext]
    refine h.congr ?_ ?_ ?_ ?_ ?_
    · simp [System.queueWork, hparent]
    · simp [System.queueWork]
    · simp [System.queueWork]
    · simp [System.queueWork]
    · simp [waiting, System.queueWork]
  | cons tasks rest =>
    have hnext : (inRounds ω β).next s.parent = (tasks, rest, true) := by rw [hparent]; rfl
    simp only [System.proceed, hnext]
    exact (h.queueWork hparent).executeWork 0 caller

theorem Counted.advance {work : Work ω} (answers : List α) (outcome : ρ ⊕ β)
    (h : Counted rounds inOrder [work.task] s started) :
    Counted rounds inOrder [] (advance (inRounds ω β) work answers outcome s) started := by
  cases outcome with
  | inl frame =>
    refine ⟨h.left, h.once, h.ordered, ?_⟩
    simp only [System.advance, List.map_append, List.map_cons, List.map_nil, List.append_nil]
    rw [← List.append_assoc]
    exact h.begun
  | inr result =>
    have hcalled : Counted rounds inOrder [] { s with
        parent := (inRounds ω β).handle work.task result s.parent
        done := s.done ++ [Done.mk work.task answers result] } started := by
      refine ⟨h.left, h.once, h.ordered, ?_⟩
      simp only [List.map_append, List.map_cons, List.map_nil, List.append_nil, List.append_assoc]
      refine List.Perm.trans ?_ h.begun
      rw [List.append_assoc]
      exact List.perm_append_comm.append_left _
    simp only [System.advance, System.callback]
    split
    · split_ifs
      · exact hcalled.congr rfl rfl rfl rfl rfl
      · exact hcalled.executeWork _ _
    · exact hcalled.congr rfl rfl rfl rfl rfl

theorem Counted.step {event : Event α} (h : Counted rounds inOrder [] s started)
    (hfirst : ∀ index, event = .startPosted index → inOrder → index = 0)
    (hstep : System.step (inRounds ω β) coroutine s event = some s') :
    Counted rounds inOrder [] s' (observeStart s event started) := by
  cases event with
  | start =>
    simp only [System.step] at hstep
    split_ifs at hstep
    cases hstep
    exact h.congr rfl rfl rfl rfl rfl
  | proceed =>
    simp only [System.step] at hstep
    split at hstep
    · next caller hcontrol =>
      cases hstep
      exact h.proceed caller
    · cases hstep
  | startPosted index =>
    simp only [System.step] at hstep
    split at hstep
    · cases hstep
    · obtain ⟨work, hwork, rfl⟩ := Option.map_eq_some_iff.mp hstep
      obtain ⟨hlt, rfl⟩ := List.getElem?_eq_some_iff.mp hwork
      simp only [observeStart, hwork, Option.map_some, Option.toList_some]
      have hperm := (List.getElem_cons_eraseIdx_perm hlt).append_right s.manager.workQueue
      refine Counted.advance _ _ ⟨h.left, ?_, fun hin => ?_, ?_⟩
      · refine List.Perm.trans ?_ h.once
        rw [List.append_assoc]
        exact (hperm.map Work.task).append_left _
      · obtain rfl := hfirst index rfl hin
        have hfirst : s.posted[0] :: s.posted.eraseIdx 0 = s.posted := by
          rw [List.eraseIdx_zero, List.getElem_zero, List.cons_head_tail]
        have hwaiting : (s.posted[0] :: (s.posted.eraseIdx 0 ++ s.manager.workQueue)).map
            Work.task = waiting s := by
          rw [← List.cons_append, hfirst]
          rfl
        refine Eq.trans ?_ (h.ordered hin)
        rw [← hwaiting, List.append_assoc]
        rfl
      · have hbegun := h.begun
        rw [List.append_nil] at hbegun
        exact hbegun.append_right _
  | respond index answer =>
    simp only [System.step] at hstep
    split at hstep
    · cases hstep
    · obtain ⟨active, hactive, hresume⟩ := Option.bind_eq_some_iff.mp hstep
      obtain ⟨outcome, -, rfl⟩ := Option.map_eq_some_iff.mp hresume
      obtain ⟨hlt, rfl⟩ := List.getElem?_eq_some_iff.mp hactive
      have hperm := (List.getElem_cons_eraseIdx_perm hlt).map fun active => active.work.task
      refine Counted.advance _ _ ⟨h.left, h.once, h.ordered, ?_⟩
      refine List.Perm.trans ?_ h.begun
      rw [List.append_nil, List.append_assoc]
      exact ((List.perm_append_singleton _ _).trans hperm).append_left _

end Counted

/-! ### What is in progress -/

section Steered

variable {ω ρ α β : Type*} {coroutine : Coroutine ω ρ α β} {limit : ℕ}
  {s s₀ s' : System ω ρ α β (List (List ω))}

/-- What the limit is for the rounds that the parent has before it. -/
def SuitsNext (limit : ℕ) (control : Control) (sizes : List ℕ) : Prop :=
  match control with
  | .idle | .running none => Suits limit sizes
  | _ => SuitsResumed limit sizes

/-- The work manager and the parent fit together, and no work will be left behind. -/
structure Steered (limit : ℕ) (s : System ω ρ α β (List (List ω))) : Prop where
  bound : s.manager.maxConcurrentWork = limit
  limited : s.manager.inProgressList.length ≤ limit
  planned : Planned limit s
  nodup : (s.pending.map Work.id).Nodup
  lt : ∀ id ∈ s.pending.map Work.id, id < s.created
  caller : ∀ id, s.control = .running (some id) → id < s.created
  suits : SuitsNext limit s.control (s.parent.map List.length)

theorem Steered.create {rounds : List (List ω)} (h : Suits limit (rounds.map List.length)) :
    Steered limit (create (ρ := ρ) (α := α) (β := β) rounds limit).1 := by
  refine ⟨rfl, Nat.zero_le _, ⟨rfl, rfl⟩, List.nodup_nil, ?_, nofun, h⟩
  intro id hid
  cases hid

theorem Planned.congr (h : Planned limit s) (hmanager : s'.manager = s.manager)
    (hcontrol : s'.control = s.control) (houtstanding : s'.outstanding.Perm s.outstanding) :
    Planned limit s' := by
  have hpending : s'.pending.Perm s.pending := by
    rw [pending, pending, hmanager]
    exact houtstanding.append_right _
  have hempty {l l' : List (Work ω)} (hperm : l.Perm l') (hl : l' = []) : l = [] := by
    subst hl
    exact hperm.eq_nil
  unfold Planned at h ⊢
  rw [hcontrol, hmanager]
  split at h
  · exact ⟨hempty hpending h.1, h.2⟩
  · exact ⟨hempty hpending h.1, h.2⟩
  · exact ⟨houtstanding.length_eq.trans h.1, h.2.1.trans (houtstanding.map Work.id).symm, h.2.2⟩
  · exact hempty hpending h
  · exact h

/-- Nothing but the place of a coroutine among the ones that have not called back has changed. -/
theorem Steered.congr (h : Steered limit s) (hmanager : s'.manager = s.manager)
    (hparent : s'.parent = s.parent) (hcontrol : s'.control = s.control)
    (hcreated : s'.created = s.created) (houtstanding : s'.outstanding.Perm s.outstanding) :
    Steered limit s' := by
  have hpending : s'.pending.Perm s.pending := by
    rw [pending, pending, hmanager]
    exact houtstanding.append_right _
  have hids := hpending.map Work.id
  refine ⟨hmanager ▸ h.bound, hmanager ▸ h.limited, h.planned.congr hmanager hcontrol houtstanding,
    hids.nodup_iff.mpr h.nodup, fun id hid => ?_, fun id hid => ?_, ?_⟩
  · exact hcreated ▸ h.lt id (hids.mem_iff.mp hid)
  · exact hcreated ▸ h.caller id (hcontrol ▸ hid)
  · rw [hcontrol, hparent]
    exact h.suits

theorem Steered.executeWork {yields : ℕ} {caller : Option ℕ}
    (hlimit : s.manager.maxConcurrentWork = limit)
    (hroom : s.manager.inProgressList.length ≤ limit) (hyields : s.outstanding.length = yields)
    (hlist : s.manager.inProgressList.Perm (caller.toList ++ s.outstanding.map Work.id))
    (hnodup : (s.pending.map Work.id).Nodup) (hlt : ∀ id ∈ s.pending.map Work.id, id < s.created)
    (hcaller : ∀ id ∈ caller, id ∉ s.pending.map Work.id ∧ id < s.created)
    (hahead : s.manager.inProgressList.length + s.manager.workQueue.length ≤ limit ∨ 3 ≤ limit ∨
      (limit = 2 ∧ yields = 0 ∧ caller ≠ none))
    (hsuits : ((s.pending ≠ [] ∨ caller ≠ none) ∧
        SuitsResumed limit (s.parent.map List.length)) ∨
      (s.pending = [] ∧ caller = none ∧ Suits limit (s.parent.map List.length))) :
    Steered limit (System.executeWork yields caller s) := by
  have hexecuted := executeWork_executed yields caller s
  obtain ⟨hplanned, hlimited⟩ := executeWork_planned s hlimit hroom hyields hlist
    (fun id hid => (hcaller id hid).1) hahead
  have hids := hexecuted.pending.map Work.id
  have hcontrol := executeWork_control yields caller s
  refine ⟨hexecuted.limit.trans hlimit, hlimited, hplanned, hids.nodup_iff.mpr hnodup,
    fun id hid => ?_, fun id hid => ?_, ?_⟩
  · rw [hexecuted.created]
    exact hlt id (hids.mem_iff.mp hid)
  · rw [hexecuted.created]
    rcases hcontrol with hrunning | ⟨_, _, hexecuting⟩
    · rw [hrunning, Control.running.injEq] at hid
      exact (hcaller id hid).2
    · rw [hexecuting] at hid
      cases hid
  · rw [hexecuted.parent]
    rcases hsuits with ⟨hsome, hresumed⟩ | ⟨hnothing, rfl, hfresh⟩
    · rcases hcontrol with hrunning | ⟨_, _, hexecuting⟩
      · rw [hrunning]
        cases caller with
        | some id => exact hresumed
        | none =>
          rw [Planned, hrunning] at hplanned
          have hpending := hexecuted.pending
          rw [hplanned.1] at hpending
          simp [hpending.symm.eq_nil] at hsome
      · rw [hexecuting]
        exact hresumed
    · rcases hcontrol with hrunning | ⟨_, _, hexecuting⟩
      · rw [hrunning]
        exact hfresh
      · rw [Planned, hexecuting] at hplanned
        have hpending := hexecuted.pending
        rw [hnothing] at hpending
        simp [(List.append_eq_nil_iff.mp hpending.eq_nil).1] at hplanned

theorem Steered.proceed {caller : Option ℕ} (h : Steered limit s)
    (hcontrol : s.control = .running caller) :
    Steered limit (System.proceed (inRounds ω β) caller s) := by
  have hplanned := h.planned
  simp only [Planned, hcontrol] at hplanned
  obtain ⟨hpending, hlist⟩ := hplanned
  have houtstanding := (List.append_eq_nil_iff.mp hpending).1
  have hqueue := (List.append_eq_nil_iff.mp hpending).2
  have hcaller : ∀ id ∈ caller, id < s.created := by
    rintro id rfl
    exact h.caller id hcontrol
  cases hparent : s.parent with
  | nil =>
    have hnext : (inRounds ω β).next s.parent = ([], [], false) := by rw [hparent]; rfl
    have hpending' : (System.proceed (inRounds ω β) caller s).pending = [] := by
      simp only [System.proceed, hnext, Bool.false_eq_true, if_false, complete_pending]
      simpa [System.queueWork, pending, outstanding] using hpending
    have hcontrol' : (System.proceed (inRounds ω β) caller s).control = .finished := by
      simp only [System.proceed, hnext, complete_control, Bool.false_eq_true, if_false]
    refine ⟨?_, ?_, ?_, ?_, ?_, ?_, ?_⟩
    · simpa [System.proceed, hnext, System.queueWork] using h.bound
    · refine le_trans ?_ h.limited
      simp only [System.proceed, hnext, Bool.false_eq_true, if_false]
      cases caller with
      | none => exact le_rfl
      | some id => exact List.length_filter_le _ _
    · simp only [Planned, hcontrol', hpending']
    · rw [hpending']
      exact List.nodup_nil
    · rw [hpending']
      rintro _ ⟨⟩
    · rw [hcontrol']
      simp
    · rw [hcontrol']
      simp [System.proceed, hnext, System.queueWork, SuitsNext, SuitsResumed]
  | cons tasks rest =>
    have hnext : (inRounds ω β).next s.parent = (tasks, rest, true) := by rw [hparent]; rfl
    have hids := queueWork_ids tasks { s with parent := rest }
    have hnew : (System.queueWork tasks { s with parent := rest }).pending.length =
        tasks.length := by
      rw [← List.length_map Work.id, hids]
      simp [show ({ s with parent := rest } : System ω ρ α β (List (List ω))).pending = [] from
        hpending]
    rw [show ({ s with parent := rest } : System ω ρ α β (List (List ω))).pending = s.pending
      from rfl, hpending, List.map_nil, List.nil_append] at hids
    have hrange : ∀ id ∈ List.range' s.created tasks.length, s.created ≤ id ∧
        id < s.created + tasks.length := fun id hid => List.mem_range'_1.mp hid
    have hsuits := h.suits
    rw [hcontrol, hparent, List.map_cons] at hsuits
    simp only [System.proceed, hnext]
    refine Steered.executeWork h.bound h.limited ?_ ?_ ?_ ?_ ?_ ?_ ?_
    · exact congrArg List.length houtstanding
    · rw [show (System.queueWork tasks { s with parent := rest }).outstanding = s.outstanding
        from rfl, houtstanding, List.map_nil, List.append_nil]
      exact .of_eq hlist
    · rw [hids]
      exact List.nodup_range'
    · rw [hids]
      exact fun id hid => (hrange id hid).2
    · rw [hids]
      intro id hid
      have hbelow := hcaller id hid
      exact ⟨fun hmem => absurd (hrange id hmem).1 (by omega), Nat.lt_add_right _ hbelow⟩
    · have hlength : (System.queueWork tasks { s with parent := rest }).manager.workQueue.length =
          tasks.length := by simp [System.queueWork, hqueue]
      have hroom := h.limited
      rw [hlength]
      show s.manager.inProgressList.length + tasks.length ≤ limit ∨ _
      rw [hlist] at hroom ⊢
      cases caller with
      | none =>
        by_cases hnone : tasks.length = 0
        · exact .inl (by simp [hnone])
        · rcases (suits_cons hnone).mp hsuits with hthree | ⟨hfits, -⟩
          · exact .inr (.inl hthree)
          · exact .inl (by simpa using hfits)
      | some id =>
        rcases (suitsResumed_cons.mp hsuits).1 with hthree | htwo | hnone
        · exact .inr (.inl hthree)
        · exact .inr (.inr ⟨htwo, rfl, by rintro ⟨⟩⟩)
        · exact .inl (by simpa [hnone] using hroom)
    · show (_ ∧ SuitsResumed limit (rest.map List.length)) ∨
        (_ ∧ _ ∧ Suits limit (rest.map List.length))
      cases caller with
      | none =>
        by_cases hnone : tasks.length = 0
        · rw [hnone] at hsuits hnew
          exact .inr ⟨List.eq_nil_of_length_eq_zero hnew, rfl, suits_zero.mp hsuits⟩
        · refine .inl ⟨.inl fun hnil => hnone ?_, ?_⟩
          · rw [← hnew, hnil, List.length_nil]
          · rcases (suits_cons hnone).mp hsuits with hthree | ⟨-, hresumed⟩
            · exact .inl hthree
            · exact hresumed
      | some id => exact .inl ⟨.inr (by rintro ⟨⟩), (suitsResumed_cons.mp hsuits).2⟩

theorem Steered.callback {work : Work ω} (answers : List α) (result : β) (h : Steered limit s)
    (hrunning : ∀ caller, s.control ≠ .running caller)
    (hsame : s₀.manager = s.manager ∧ s₀.parent = s.parent ∧ s₀.control = s.control ∧
      s₀.created = s.created)
    (htaken : s.outstanding.Perm (work :: s₀.outstanding)) :
    Steered limit (System.callback (inRounds ω β) work answers result s₀) := by
  obtain ⟨hmanager, hparent, hcontrol, hcreated⟩ := hsame
  have hpending : s.pending.Perm (work :: s₀.pending) := by
    rw [pending, pending, hmanager]
    exact htaken.append_right _
  have hids := hpending.map Work.id
  rw [List.map_cons] at hids
  have hnodup := hids.nodup_iff.mp h.nodup
  have hlt : ∀ id ∈ work.id :: s₀.pending.map Work.id, id < s₀.created := fun id hid =>
    hcreated ▸ h.lt id (hids.mem_iff.mpr hid)
  have hplanned := h.planned
  have hsuits := h.suits
  cases hwhere : s.control with
  | idle =>
    simp only [Planned, hwhere] at hplanned
    exact absurd (hplanned.1 ▸ hpending).symm (by simp)
  | running caller => exact absurd hwhere (hrunning caller)
  | finished =>
    simp only [Planned, hwhere] at hplanned
    exact absurd (hplanned ▸ hpending).symm (by simp)
  | crashed => simp only [Planned, hwhere] at hplanned
  | executing yields queueMoreWork =>
    simp only [Planned, hwhere] at hplanned
    obtain ⟨hlength, hlist, hahead⟩ := hplanned
    rw [hwhere] at hsuits
    have hyields : s₀.outstanding.length = yields := by
      have := htaken.length_eq
      rw [List.length_cons] at this
      omega
    have hlist₀ : s₀.manager.inProgressList.Perm (work.id :: s₀.outstanding.map Work.id) := by
      rw [hmanager]
      exact hlist.trans (htaken.map Work.id)
    have hresumed : SuitsResumed limit (s₀.parent.map List.length) := hparent ▸ hsuits
    simp only [System.callback, hcontrol, hwhere]
    split_ifs with hlast
    · obtain ⟨rfl, rfl⟩ := hlast
      have hnothing : s₀.outstanding = [] := List.eq_nil_of_length_eq_zero hyields
      have hempty : s₀.manager.workQueue = [] := by
        rw [hmanager]
        by_contra hne
        have := hahead hne
        simp at this
      have hpending₀ : s₀.pending = [] := by rw [pending, hnothing, hempty, List.append_nil]
      rw [hnothing, List.map_nil] at hlist₀
      refine ⟨hmanager ▸ h.bound, hmanager ▸ h.limited, ⟨hpending₀, List.perm_singleton.mp hlist₀⟩,
        (List.nodup_cons.mp hnodup).2, fun id hid => hlt id (List.mem_cons_of_mem _ hid), ?_,
        hresumed⟩
      intro id hid
      cases hid
      exact hlt work.id List.mem_cons_self
    · refine Steered.executeWork (hmanager ▸ h.bound) (hmanager ▸ h.limited) hyields hlist₀
        (List.nodup_cons.mp hnodup).2 (fun id hid => hlt id (List.mem_cons_of_mem _ hid)) ?_ ?_
        (.inl ⟨.inr (by rintro ⟨⟩), hresumed⟩)
      · intro id hid
        cases hid
        exact ⟨(List.nodup_cons.mp hnodup).1, hlt work.id List.mem_cons_self⟩
      · by_cases hqueue : s.manager.workQueue = []
        · refine .inl ?_
          show s₀.manager.inProgressList.length + s₀.manager.workQueue.length ≤ limit
          rw [hmanager, hqueue]
          exact h.limited
        · rcases hahead hqueue with ⟨hthree, -⟩ | ⟨htwo, hnone, -⟩
          · exact .inr (.inl hthree)
          · exact .inr (.inr ⟨htwo, hnone, by rintro ⟨⟩⟩)

theorem Steered.advance {work : Work ω} (answers : List α) (outcome : ρ ⊕ β) (h : Steered limit s)
    (hrunning : ∀ caller, s.control ≠ .running caller)
    (hsame : s₀.manager = s.manager ∧ s₀.parent = s.parent ∧ s₀.control = s.control ∧
      s₀.created = s.created)
    (htaken : s.outstanding.Perm (work :: s₀.outstanding)) :
    Steered limit (System.advance (inRounds ω β) work answers outcome s₀) := by
  cases outcome with
  | inr result => exact h.callback answers result hrunning hsame htaken
  | inl frame =>
    obtain ⟨hmanager, hparent, hcontrol, hcreated⟩ := hsame
    refine h.congr hmanager hparent hcontrol hcreated (List.Perm.trans ?_ htaken.symm)
    simp only [System.advance, outstanding, List.map_append, List.map_cons, List.map_nil,
      ← List.append_assoc]
    exact List.perm_append_singleton _ _

theorem Steered.step {event : Event α} (h : Steered limit s)
    (hstep : System.step (inRounds ω β) coroutine s event = some s') : Steered limit s' := by
  cases event with
  | start =>
    simp only [System.step] at hstep
    split_ifs at hstep with hidle
    cases hstep
    have hplanned := h.planned
    have hsuits := h.suits
    simp only [Planned, hidle] at hplanned
    rw [hidle] at hsuits
    exact ⟨h.bound, h.limited, hplanned, h.nodup, h.lt, by rintro _ ⟨⟩, hsuits⟩
  | proceed =>
    simp only [System.step] at hstep
    split at hstep
    · next caller hcontrol =>
      cases hstep
      exact h.proceed hcontrol
    · cases hstep
  | startPosted index =>
    simp only [System.step] at hstep
    split at hstep
    · cases hstep
    · next hrunning =>
      obtain ⟨work, hwork, rfl⟩ := Option.map_eq_some_iff.mp hstep
      obtain ⟨hlt, rfl⟩ := List.getElem?_eq_some_iff.mp hwork
      refine h.advance _ _ hrunning ⟨rfl, rfl, rfl, rfl⟩ ?_
      exact (List.getElem_cons_eraseIdx_perm hlt).symm.append_right _
  | respond index answer =>
    simp only [System.step] at hstep
    split at hstep
    · cases hstep
    · next hrunning =>
      obtain ⟨active, hactive, hresume⟩ := Option.bind_eq_some_iff.mp hstep
      obtain ⟨outcome, -, rfl⟩ := Option.map_eq_some_iff.mp hresume
      obtain ⟨hlt, rfl⟩ := List.getElem?_eq_some_iff.mp hactive
      refine h.advance _ _ hrunning ⟨rfl, rfl, rfl, rfl⟩ ?_
      have hperm := (List.getElem_cons_eraseIdx_perm hlt).symm.map Active.work
      exact (hperm.append_left s.posted).trans List.perm_middle

end Steered

/-! ### Runs that leave no work behind -/

section

variable {ω ρ α β : Type} {rounds : List (List ω)} {limit : ℕ} {inOrder : Prop}
  {s : System ω ρ α β (List (List ω))} {started : List ω}

/-- When the parent goes on behind `ExecuteWork`, nothing is left to call back. -/
theorem Planned.pending_eq_nil (h : Planned limit s) (hreturned : Returned s.control) :
    s.pending = [] := by
  unfold Planned at h
  generalize s.control = control at h hreturned
  cases hreturned with
  | running caller => exact h.1
  | finished => exact h

theorem Steered.ranAll (h : Steered limit s) (hcounted : Counted rounds inOrder [] s started) :
    RanAll rounds limit inOrder s started := by
  have hplanned := h.planned
  refine ⟨fun hcrashed => ?_,
    fun workQueue => h.bound ▸ length_postWork_le (h.bound ▸ h.limited), ?_,
    fun hin => ⟨_, hcounted.ordered hin⟩, fun hnot hstarted => ?_, fun hreturned => ?_⟩
  · simp only [Planned, hcrashed] at hplanned
  · exact (List.sublist_append_left started _).subperm.trans hcounted.once.subperm
  · cases hcontrol : s.control with
    | idle => exact absurd hcontrol hstarted
    | running caller => exact absurd (hcontrol ▸ .running caller) hnot
    | finished => exact absurd (hcontrol ▸ .finished) hnot
    | crashed => simp only [Planned, hcontrol] at hplanned
    | executing yields queueMoreWork =>
      simp only [Planned, hcontrol] at hplanned
      refine List.ne_nil_of_length_pos ?_
      rw [hplanned.1]
      exact Nat.succ_pos yields
  · have hpending := hplanned.pending_eq_nil hreturned
    obtain ⟨houtstanding, hqueue⟩ := List.append_eq_nil_iff.mp hpending
    obtain ⟨hposted, hactive⟩ := List.append_eq_nil_iff.mp houtstanding
    have hwaiting : waiting s = [] := by simp [waiting, hposted, hqueue]
    have hstarted := hcounted.once
    have hbegun := hcounted.begun
    rw [hwaiting, List.append_nil] at hstarted
    rw [List.map_eq_nil_iff.mp hactive, List.map_nil, List.append_nil, List.append_nil] at hbegun
    exact ⟨hstarted, hbegun.trans hstarted⟩

theorem Suits.runsAll {sizes : List ℕ} (h : Suits limit sizes) : RunsAll limit sizes := by
  rintro ω ρ α β coroutine rounds rfl events s started hrun
  have hkept := run_guarded
    (I := fun p => Steered limit p.1 ∧
      Counted rounds (∀ index, Event.startPosted index ∈ events → index = 0) [] p.1 p.2)
    (G := fun _ event _ => event ∈ events) ?_
    ⟨Steered.create h, Counted.create rounds _ limit⟩ (along_of_forall fun _ ha _ _ => ha) hrun
  · exact hkept.1.ranAll hkept.2
  · rintro p event p' ⟨hsteered, hcounted⟩ hmem hstep
    obtain ⟨hstep, hstarted⟩ := watch_eq_some hstep
    refine ⟨hsteered.step hstep, ?_⟩
    rw [hstarted]
    refine hcounted.step ?_ hstep
    rintro index rfl hin
    exact hin index hmem

end

/-! ### Runs that leave work behind -/

/-- A coroutine that calls back when it is started. -/
def atOnce : Coroutine Unit Unit Unit Unit where
  start _ := .inr ()
  resume _ _ := none

/-- The parent between two rounds, when all its coroutines have called back. -/
def between (limit : ℕ) (caller : Option ℕ) (created : ℕ) (done : List (Done Unit Unit Unit))
    (rounds : List (List Unit)) : System Unit Unit Unit Unit (List (List Unit)) where
  parent := rounds
  manager := { inProgressList := caller.toList, maxConcurrentWork := limit }
  done
  control := .running caller
  created

/-- A state in which the parent has returned too early. -/
structure Early (most : ℕ) (s : System Unit Unit Unit Unit (List (List Unit))) : Prop where
  returned : Returned s.control
  left : s.done.length < s.created
  most : s.created ≤ most

section

variable {limit created : ℕ} {caller : Option ℕ} {done : List (Done Unit Unit Unit)}
  {rounds : List (List Unit)} {started : List Unit}

theorem proceed_nil : step atOnce (between limit caller created done ([] :: rounds), started)
    .proceed = some (between limit caller created done rounds, started) := rfl

theorem postWork_full {ω : Type*} {workQueue : List (Work ω)} {inProgressList : List ℕ}
    (h : limit ≤ inProgressList.length) :
    postWork limit workQueue inProgressList = ([], workQueue, inProgressList) := by
  cases workQueue with
  | nil => rfl
  | cons work workQueue => rw [postWork, if_neg (by omega)]

/-- Nothing is posted next to a caller that takes the last place. -/
theorem proceed_full {tasks : List Unit} (hfull : limit ≤ caller.toList.length) :
    step atOnce (between limit caller created done (tasks :: rounds), started) .proceed =
      some ({ between limit caller (created + tasks.length) done rounds with
          manager.workQueue := tasks.mapIdx fun i => Work.mk (created + i) }, started) := by
  simp [watch, System.step, between, proceed, inRounds, queueWork, executeWork, toPost, post,
    postWork_full hfull, observeStart]

/-- With a limit of one the first coroutine leaves the others in the queue. -/
theorem run_one {tasks : List Unit} :
    run (step atOnce) (between 1 none created done ((() :: tasks) :: rounds), started)
      [.proceed, .startPosted 0] =
      some ({ between 1 (some created) (created + (tasks.length + 1))
        (done ++ [⟨(), [], ()⟩]) rounds with
          manager.workQueue := tasks.mapIdx fun i => Work.mk (created + (i + 1)) },
        started ++ [()]) := by
  simp [run, watch, System.step, between, proceed, inRounds, queueWork, executeWork, toPost, post,
    postWork, List.mapIdx_cons, advance, atOnce, callback, observeStart, complete, postWork_full]

/-- With a limit of two the first two coroutines do. -/
theorem run_two {tasks : List Unit} :
    run (step atOnce) (between 2 none created done ((() :: () :: tasks) :: rounds), started)
      [.proceed, .startPosted 0, .startPosted 0] =
      some ({ between 2 (some (created + 1)) (created + (tasks.length + 2))
        (done ++ [⟨(), [], ()⟩, ⟨(), [], ()⟩]) rounds with
          manager.workQueue := tasks.mapIdx fun i => Work.mk (created + (i + 2)) },
        started ++ [(), ()]) := by
  simp [run, watch, System.step, between, proceed, inRounds, queueWork, executeWork, toPost, post,
    postWork, List.mapIdx_cons, advance, atOnce, callback, observeStart, complete, postWork_full]

/-- Otherwise some run leaves work behind. -/
theorem exists_early (hlimit : limit < 3) (caller : Option ℕ) (created : ℕ)
    (done : List (Done Unit Unit Unit)) (rounds : List (List Unit)) (started : List Unit)
    (hdone : done.length = created)
    (hfresh : caller = none → ¬ Suits limit (rounds.map List.length))
    (hresumed : caller ≠ none → ¬ SuitsResumed limit (rounds.map List.length)) :
    ∃ events p, run (step atOnce) (between limit caller created done rounds, started) events =
      some p ∧ Early (created + rounds.flatten.length) p.1 := by
  induction rounds generalizing caller created done started with
  | nil =>
    cases caller with
    | none => exact absurd (by simp [Suits]) (hfresh rfl)
    | some id => exact absurd (by simp [SuitsResumed]) (hresumed nofun)
  | cons tasks rounds ih =>
    rw [List.map_cons] at hfresh hresumed
    cases tasks with
    | nil =>
      obtain ⟨events, p, hrun, hearly⟩ := ih caller created done started hdone
        (fun hnone => mt suits_zero.mpr (hfresh hnone))
        (fun hsome => mt (fun h => suitsResumed_cons.mpr ⟨.inr (.inr rfl), h⟩) (hresumed hsome))
      exact ⟨.proceed :: events, p, run_cons.mpr ⟨_, proceed_nil, hrun⟩, hearly⟩
    | cons task tasks =>
      by_cases hfull : limit ≤ caller.toList.length
      · refine ⟨[.proceed], _, run_cons.mpr ⟨_, proceed_full hfull, rfl⟩, .running _, ?_, ?_⟩
        · show done.length < created + (tasks.length + 1)
          omega
        · simp [between]
      · cases caller with
        | some id =>
          rw [not_le, Option.toList_some, List.length_singleton] at hfull
          exact absurd (.inr (.inl (by omega))) (hresumed nofun)
        | none =>
          rw [not_le, Option.toList_none, List.length_nil] at hfull
          have hnot := mt (suits_cons (Nat.succ_ne_zero _)).mpr (hfresh rfl)
          obtain rfl | rfl : limit = 1 ∨ limit = 2 := by omega
          · cases tasks with
            | nil =>
              obtain ⟨events, p, hrun, hearly⟩ := ih (some created) (created + 1)
                (done ++ [⟨(), [], ()⟩]) (started ++ [()]) (by simp [hdone]) nofun
                (fun _ hresumed => hnot (.inr ⟨le_rfl, hresumed⟩))
              refine ⟨_, p, run_append.mpr ⟨_, run_one, hrun⟩, hearly.returned, hearly.left, ?_⟩
              have hmost := hearly.most
              rw [List.flatten_cons, List.length_append, List.length_singleton]
              omega
            | cons task' tasks =>
              refine ⟨_, _, run_one, .running _, ?_, ?_⟩
              · simp [between, hdone]
              · simp [between]
          · rcases tasks with _ | ⟨task', _ | ⟨task'', tasks⟩⟩
            · exact absurd (.inr ⟨by simp, .inr (.inl rfl)⟩) hnot
            · exact absurd (.inr ⟨by simp, .inr (.inl rfl)⟩) hnot
            · refine ⟨_, _, run_two, .running _, ?_, ?_⟩
              · simp [between, hdone]
              · simp [between]

end

/-- `ExecuteWork` runs all work for a limit of three or more, and for smaller ones only where the
first round fits. -/
theorem runsAll_iff (limit : ℕ) (sizes : List ℕ) : RunsAll limit sizes ↔ Suits limit sizes := by
  refine ⟨fun h => ?_, Suits.runsAll⟩
  by_contra hnot
  have hlimit : limit < 3 := by
    by_contra hthree
    exact hnot (.inl (not_lt.mp hthree))
  have hsizes : (sizes.map fun size => List.replicate size ()).map List.length = sizes := by
    simp [Function.comp_def]
  obtain ⟨events, p, hrun, hearly⟩ := exists_early hlimit none 0 [] _ [] rfl
    (fun _ => by rwa [hsizes]) (fun hsome => absurd rfl hsome)
  have hstart : run (step atOnce) (create (sizes.map fun size => List.replicate size ()) limit)
      (.start :: events) = some p := run_cons.mpr ⟨_, rfl, hrun⟩
  have hran := h Unit Unit Unit Unit atOnce _ hsizes _ p.1 p.2 hstart
  have hlength := (hran.returned hearly.returned).2.length_eq
  have hleft := hearly.left
  have hmost := hearly.most
  rw [List.length_map, queued, List.length_take] at hlength
  omega

/-- Two coroutines, one at a time: the second one is never started. -/
theorem not_runsAll_twoByOne : ¬ RunsAll 1 [2] := by
  intro h
  have hran := h Unit Unit Unit Unit atOnce [[(), ()]] rfl [.start, .proceed, .startPosted 0]
    _ _ rfl
  exact absurd (hran.returned (.running _)).1.length_eq (by decide)

end MediafireSdk.Actions.ExecuteWork
