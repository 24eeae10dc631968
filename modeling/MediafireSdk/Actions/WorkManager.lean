import MediafireSdk.Lib.Runs

/-! Coroutines (`coroutine.hpp`) that a parent coroutine hands to a `WorkManager`
(`work_manager.cpp`). `ExecuteWork` runs inside the parent: it posts queued coroutines up to the
limit and suspends the parent once for each of them, and the callback of each resumes it. The
callback runs inside the coroutine that calls back, so the parent goes on while that coroutine
is still in progress. One thread runs everything. -/

namespace MediafireSdk.Actions

open Runs

/-- The body of a coroutine from one suspension to the next: it waits in a frame `ρ` for answers
`α`, or calls back with `β`. -/
structure Coroutine (ω ρ α β : Type*) where
  start : ω → ρ ⊕ β
  resume : ρ → α → Option (ρ ⊕ β)

/-- The body of a parent between its calls of `ExecuteWork`: what it queues, and whether it
executes the work or ends with its callback. `handle` is what the callback of a coroutine does
to it before it resumes it. -/
structure Body (ω β π : Type*) where
  next : π → List ω × π × Bool
  handle : ω → β → π → π

/-- A `shared_ptr<Coroutine>`. -/
structure Work (ω : Type*) where
  id : ℕ
  task : ω

/-- A coroutine that awaits answers. -/
structure Active (ω ρ α : Type*) where
  work : Work ω
  answers : List α
  frame : ρ

/-- A coroutine that has called back. -/
structure Done (ω α β : Type*) where
  task : ω
  answers : List α
  result : β

/-! ### The work manager -/

structure WorkManager (ω : Type*) where
  workQueue : List (Work ω) := []
  inProgressList : List ℕ := []
  maxConcurrentWork : ℕ := 10

/-- The loop of `ExecuteWork` that posts work: what it posts, and the queue and the list of work
in progress behind it. -/
def postWork {ω : Type*} (maxConcurrentWork : ℕ) :
    List (Work ω) → List ℕ → List (Work ω) × List (Work ω) × List ℕ
  | [], inProgressList => ([], [], inProgressList)
  | work :: workQueue, inProgressList =>
    if inProgressList.length < maxConcurrentWork then
      let (posted, rest) := postWork maxConcurrentWork workQueue (inProgressList ++ [work.id])
      (work :: posted, rest)
    else ([], work :: workQueue, inProgressList)

theorem postWork_append {ω : Type*} (limit : ℕ) (workQueue : List (Work ω))
    (inProgressList : List ℕ) :
    (postWork limit workQueue inProgressList).1 ++ (postWork limit workQueue inProgressList).2.1 =
        workQueue ∧
      (postWork limit workQueue inProgressList).2.2 =
        inProgressList ++ (postWork limit workQueue inProgressList).1.map Work.id := by
  induction workQueue generalizing inProgressList with
  | nil => simp [postWork]
  | cons work workQueue ih =>
    rw [postWork]
    split_ifs
    · obtain ⟨hqueue, hlist⟩ := ih (inProgressList ++ [work.id])
      simp [hqueue, hlist]
    · simp

/-- Work is left in the queue only when the limit is reached. -/
theorem le_length_postWork {ω : Type*} {limit : ℕ} {workQueue : List (Work ω)}
    {inProgressList : List ℕ} (h : (postWork limit workQueue inProgressList).2.1 ≠ []) :
    limit ≤ (postWork limit workQueue inProgressList).2.2.length := by
  induction workQueue generalizing inProgressList with
  | nil => exact absurd rfl h
  | cons work workQueue ih =>
    rw [postWork] at h ⊢
    split_ifs at h ⊢ with hlt
    · exact ih h
    · exact not_lt.mp hlt

/-- Where the parent is. -/
inductive Control where
  | idle
  /-- Outside `ExecuteWork`, resumed by the callback of `caller` if it has one. -/
  | running (caller : Option ℕ)
  /-- Suspended in `ExecuteWork`. -/
  | executing (yields : ℕ) (queueMoreWork : Bool)
  | finished
  /-- A coroutine was resumed that was not suspended. -/
  | crashed
  deriving DecidableEq, Repr

structure System (ω ρ α β π : Type*) where
  parent : π
  manager : WorkManager ω := {}
  posted : List (Work ω) := []
  active : List (Active ω ρ α) := []
  done : List (Done ω α β) := []
  control : Control := .idle
  called : List π := []
  created : ℕ := 0

inductive Event (α : Type*) where
  | start
  | proceed
  | startPosted (index : ℕ)
  | respond (index : ℕ) (answer : α)
  deriving DecidableEq, Repr

section

variable {ω ρ α β π : Type*}

namespace System

/-- The completion handler of the coroutine that called back, which runs when the parent has
suspended itself again or has ended. -/
def complete (caller : Option ℕ) (s : System ω ρ α β π) : System ω ρ α β π :=
  match caller with
  | none => s
  | some id =>
    { s with manager.inProgressList := s.manager.inProgressList.filter (· ≠ id) }

/-- What the loop of `ExecuteWork` posts in one go. -/
def toPost (s : System ω ρ α β π) : List (Work ω) :=
  (postWork s.manager.maxConcurrentWork s.manager.workQueue s.manager.inProgressList).1

def post (s : System ω ρ α β π) : System ω ρ α β π :=
  let rest := (postWork s.manager.maxConcurrentWork s.manager.workQueue s.manager.inProgressList).2
  { s with
    manager.workQueue := rest.1, manager.inProgressList := rest.2, posted := s.posted ++ s.toPost }

/-- The loop of `ExecuteWork` from its head up to the next suspension or its end; there are
`yields` suspensions left. -/
def executeWork (yields : ℕ) (caller : Option ℕ) (s : System ω ρ α β π) : System ω ρ α β π :=
  let yields := yields + s.toPost.length
  if yields = 0 then { s.post with control := .running caller }
  else complete caller { s.post with control := .executing (yields - 1) !s.toPost.isEmpty }

/-- `QueueWork` of new coroutines. -/
def queueWork (tasks : List ω) (s : System ω ρ α β π) : System ω ρ α β π :=
  { s with
    manager.workQueue := s.manager.workQueue ++ tasks.mapIdx fun i => Work.mk (s.created + i)
    created := s.created + tasks.length }

/-- The parent goes on outside `ExecuteWork`. -/
def proceed (body : Body ω β π) (caller : Option ℕ) (s : System ω ρ α β π) : System ω ρ α β π :=
  let (tasks, parent, executes) := body.next s.parent
  let s := queueWork tasks { s with parent }
  if executes then executeWork 0 caller s
  else complete caller { s with control := .finished, called := s.called ++ [parent] }

/-- A coroutine calls back, which resumes the parent. -/
def callback (body : Body ω β π) (work : Work ω) (answers : List α) (result : β)
    (s : System ω ρ α β π) : System ω ρ α β π :=
  let s := { s with
    parent := body.handle work.task result s.parent
    done := s.done ++ [Done.mk work.task answers result] }
  match s.control with
  | .executing yields queueMoreWork =>
    if yields = 0 ∧ queueMoreWork = false then { s with control := .running (some work.id) }
    else executeWork yields (some work.id) s
  | _ => { s with control := .crashed }

def advance (body : Body ω β π) (work : Work ω) (answers : List α) (outcome : ρ ⊕ β)
    (s : System ω ρ α β π) : System ω ρ α β π :=
  match outcome with
  | .inl frame => { s with active := s.active ++ [⟨work, answers, frame⟩] }
  | .inr result => callback body work answers result s

def step (body : Body ω β π) (coroutine : Coroutine ω ρ α β) (s : System ω ρ α β π) :
    Event α → Option (System ω ρ α β π)
  | .start => if s.control = .idle then some { s with control := .running none } else none
  | .proceed =>
    match s.control with
    | .running caller => some (proceed body caller s)
    | _ => none
  | .startPosted index =>
    match s.control with
    | .running _ => none
    | _ => s.posted[index]?.map fun work =>
      advance body work [] (coroutine.start work.task)
        { s with posted := s.posted.eraseIdx index }
  | .respond index answer =>
    match s.control with
    | .running _ => none
    | _ => s.active[index]?.bind fun waiting =>
      (coroutine.resume waiting.frame answer).map fun outcome =>
        advance body waiting.work (waiting.answers ++ [answer]) outcome
          { s with active := s.active.eraseIdx index }

/-! ### What ExecuteWork keeps -/

/-- The coroutines that have been started or posted and have not called back. -/
def outstanding (s : System ω ρ α β π) : List (Work ω) :=
  s.posted ++ s.active.map Active.work

/-- All coroutines that have not called back. -/
def pending (s : System ω ρ α β π) : List (Work ω) := s.outstanding ++ s.manager.workQueue

/-- The work manager and the parent agree on what is still to call back. While the parent is
suspended it has as many suspensions before it as there are calls back to come, and work is left
in the queue only if another one follows. -/
def Scheduled (s : System ω ρ α β π) : Prop :=
  match s.control with
  | .idle => s.pending = [] ∧ s.manager.inProgressList = []
  | .running caller => s.pending = [] ∧ s.manager.inProgressList = caller.toList
  | .executing yields _ =>
    s.outstanding.length = yields + 1 ∧
      s.manager.inProgressList.Perm (s.outstanding.map Work.id) ∧
      (s.manager.workQueue ≠ [] → 1 ≤ yields)
  | .finished => s.outstanding = []
  | .crashed => False

theorem filter_ne_perm {id : ℕ} {ids rest : List ℕ} (h : ids.Perm (id :: rest))
    (hid : id ∉ rest) : (ids.filter (· ≠ id)).Perm rest := by
  have hrest : rest.filter (· ≠ id) = rest := by
    refine List.filter_eq_self.mpr fun other hother => ?_
    have hne : other ≠ id := fun heq => hid (heq ▸ hother)
    simpa using hne
  have hfilter := h.filter (· ≠ id)
  rwa [List.filter_cons_of_neg (by simp), hrest] at hfilter

section ExecuteWork

variable {yields : ℕ} {caller : Option ℕ} (s : System ω ρ α β π)

/-- The coroutine that has called back is gone from the list, all others are still there. -/
theorem complete_inProgressList {ids : List ℕ}
    (hlist : s.manager.inProgressList.Perm (caller.toList ++ ids))
    (hcaller : ∀ id ∈ caller, id ∉ ids) :
    (complete caller s).manager.inProgressList.Perm ids := by
  cases caller with
  | none => exact hlist
  | some id => exact filter_ne_perm hlist (hcaller id rfl)

@[simp] theorem complete_parent : (complete caller s).parent = s.parent := by cases caller <;> rfl

@[simp] theorem complete_done : (complete caller s).done = s.done := by cases caller <;> rfl

@[simp] theorem complete_called : (complete caller s).called = s.called := by cases caller <;> rfl

@[simp] theorem complete_created : (complete caller s).created = s.created := by
  cases caller <;> rfl

@[simp] theorem complete_active : (complete caller s).active = s.active := by cases caller <;> rfl

@[simp] theorem complete_posted : (complete caller s).posted = s.posted := by cases caller <;> rfl

@[simp] theorem complete_workQueue :
    (complete caller s).manager.workQueue = s.manager.workQueue := by cases caller <;> rfl

@[simp] theorem complete_maxConcurrentWork :
    (complete caller s).manager.maxConcurrentWork = s.manager.maxConcurrentWork := by
  cases caller <;> rfl

@[simp] theorem complete_control : (complete caller s).control = s.control := by
  cases caller <;> rfl

@[simp] theorem complete_outstanding : (complete caller s).outstanding = s.outstanding := by
  simp [outstanding]

@[simp] theorem complete_pending : (complete caller s).pending = s.pending := by simp [pending]

/-- What `ExecuteWork` leaves alone. -/
structure Executed (s s' : System ω ρ α β π) : Prop where
  parent : s'.parent = s.parent
  done : s'.done = s.done
  called : s'.called = s.called
  created : s'.created = s.created
  active : s'.active = s.active
  limit : s'.manager.maxConcurrentWork = s.manager.maxConcurrentWork
  pending : s'.pending.Perm s.pending

theorem post_outstanding : s.post.outstanding.Perm (s.outstanding ++ s.toPost) := by
  simp only [post, outstanding, List.append_assoc]
  exact List.perm_append_comm.append_left _

theorem post_pending : s.post.pending.Perm s.pending := by
  obtain ⟨hqueue, -⟩ := postWork_append s.manager.maxConcurrentWork s.manager.workQueue
    s.manager.inProgressList
  have hrest : s.pending = (s.outstanding ++ s.toPost) ++ s.post.manager.workQueue := by
    rw [pending, ← hqueue, List.append_assoc]
    rfl
  rw [hrest]
  exact (post_outstanding s).append_right _

theorem post_inProgressList :
    s.post.manager.inProgressList = s.manager.inProgressList ++ s.toPost.map Work.id :=
  (postWork_append s.manager.maxConcurrentWork s.manager.workQueue s.manager.inProgressList).2

theorem executeWork_executed (yields : ℕ) (caller : Option ℕ) (s : System ω ρ α β π) :
    Executed s (executeWork yields caller s) := by
  unfold executeWork
  dsimp only
  split_ifs
  · exact ⟨rfl, rfl, rfl, rfl, rfl, rfl, post_pending s⟩
  · refine ⟨?_, ?_, ?_, ?_, ?_, ?_, ?_⟩
    iterate 6 simp [post]
    rw [complete_pending]
    exact post_pending s

/-- With a limit of three the parent leaves `ExecuteWork` only when all work has called back: two
places are taken by the coroutine that has just called back and one that another suspension
waits for. -/
theorem executeWork_scheduled (hlimit : 3 ≤ s.manager.maxConcurrentWork)
    (hyields : s.outstanding.length = yields)
    (hlist : s.manager.inProgressList.Perm (caller.toList ++ s.outstanding.map Work.id))
    (hcaller : ∀ id ∈ caller, id ∉ s.pending.map Work.id) :
    (executeWork yields caller s).Scheduled := by
  have hpost := post_outstanding s
  have hcount : s.post.outstanding.length = yields + s.toPost.length := by
    rw [hpost.length_eq, List.length_append, hyields]
  have hids : s.post.manager.inProgressList.Perm
      (caller.toList ++ s.post.outstanding.map Work.id) := by
    rw [post_inProgressList]
    refine (hlist.append_right _).trans ?_
    rw [List.append_assoc, ← List.map_append]
    exact ((hpost.map Work.id).symm).append_left _
  have hlength : s.post.manager.inProgressList.length = caller.toList.length +
      (yields + s.toPost.length) := by
    rw [hids.length_eq, List.length_append, List.length_map, hcount]
  have hone : caller.toList.length ≤ 1 := by cases caller <;> simp
  have hfull : s.post.manager.workQueue ≠ [] → 3 ≤ s.post.manager.inProgressList.length :=
    fun hne => hlimit.trans (le_length_postWork hne)
  unfold executeWork
  dsimp only
  split_ifs with hnone
  · have hqueue : s.post.manager.workQueue = [] := by
      by_contra hne
      have := hfull hne
      omega
    have hnothing : s.post.outstanding = [] := List.eq_nil_of_length_eq_zero (by omega)
    rw [hnothing, List.map_nil, List.append_nil] at hids
    refine ⟨?_, ?_⟩
    · show s.post.outstanding ++ s.post.manager.workQueue = []
      rw [hnothing, hqueue, List.append_nil]
    · cases caller with
      | none => exact hids.eq_nil
      | some id => exact List.perm_singleton.mp hids
  · simp only [Scheduled, complete_control]
    refine ⟨?_, ?_, ?_⟩
    · rw [complete_outstanding]
      show s.post.outstanding.length = _
      omega
    · rw [complete_outstanding]
      refine complete_inProgressList _ hids fun id hid hmem => hcaller id hid ?_
      rw [← (post_pending s).map Work.id |>.mem_iff]
      rw [pending, List.map_append]
      exact List.mem_append_left _ hmem
    · rw [complete_workQueue]
      intro hne
      have := hfull hne
      omega

end ExecuteWork

end System

/-! ### Invariants of a parent -/

namespace Coroutine

/-- A coroutine that goes on with some answers. -/
def goOn (coroutine : Coroutine ω ρ α β) : ρ ⊕ β → List α → Option (ρ ⊕ β)
  | outcome, [] => some outcome
  | .inl frame, answer :: answers =>
    (coroutine.resume frame answer).bind fun outcome => coroutine.goOn outcome answers
  | .inr _, _ :: _ => none

/-- The frame or the result a coroutine has after some answers. -/
def after (coroutine : Coroutine ω ρ α β) (task : ω) (answers : List α) : Option (ρ ⊕ β) :=
  coroutine.goOn (coroutine.start task) answers

variable {coroutine : Coroutine ω ρ α β}

@[simp] theorem goOn_nil (outcome : ρ ⊕ β) : coroutine.goOn outcome [] = some outcome := by
  cases outcome <;> rfl

theorem goOn_append (outcome : ρ ⊕ β) (answers answers' : List α) :
    coroutine.goOn outcome (answers ++ answers') =
      (coroutine.goOn outcome answers).bind fun outcome => coroutine.goOn outcome answers' := by
  induction answers generalizing outcome with
  | nil => simp
  | cons answer answers ih =>
    cases outcome with
    | inl frame =>
      simp only [List.cons_append, goOn, Option.bind_assoc]
      congr 1
      exact funext ih
    | inr result => rfl

theorem after_concat {task : ω} {answers : List α} {frame : ρ} {answer : α}
    (h : coroutine.after task answers = some (.inl frame)) :
    coroutine.after task (answers ++ [answer]) = coroutine.resume frame answer := by
  rw [after, goOn_append, ← after, h]
  simp [goOn]

/-- What a coroutine keeps in its frame and gives as its result. -/
theorem after_spec {I : List α → ρ → Prop} {Q : List α → β → Prop} {task : ω} {answers : List α}
    {outcome : ρ ⊕ β} (hstart : Sum.elim (I []) (Q []) (coroutine.start task))
    (hresume : ∀ answers frame answer outcome, I answers frame →
      coroutine.resume frame answer = some outcome →
        Sum.elim (I (answers ++ [answer])) (Q (answers ++ [answer])) outcome)
    (h : coroutine.after task answers = some outcome) :
    Sum.elim (I answers) (Q answers) outcome := by
  induction answers using List.reverseRecOn generalizing outcome with
  | nil =>
    rw [after, goOn_nil, Option.some.injEq] at h
    exact h ▸ hstart
  | append_singleton answers answer ih =>
    rw [after, goOn_append] at h
    obtain ⟨middle, hmiddle, hlast⟩ := Option.bind_eq_some_iff.mp h
    have hkept := ih hmiddle
    cases middle with
    | inl frame =>
      refine hresume answers frame answer outcome hkept ?_
      simpa [goOn] using hlast
    | inr result => cases hlast

end Coroutine

/-- A property of the parent, of what has called back and of the tasks that will. -/
structure Rule (body : Body ω β π) (coroutine : Coroutine ω ρ α β)
    (P : π → List (Done ω α β) → List ω → Prop) : Prop where
  perm : ∀ {parent done tasks tasks'}, tasks.Perm tasks' → P parent done tasks →
    P parent done tasks'
  next : ∀ {parent done tasks parent'}, P parent done [] →
    body.next parent = (tasks, parent', true) → P parent' done tasks
  handle : ∀ {parent done task tasks answers result}, P parent done (task :: tasks) →
    coroutine.after task answers = some (.inr result) →
      P (body.handle task result parent) (done ++ [⟨task, answers, result⟩]) tasks

namespace System

/-- What holds of every state of the system. -/
structure Sound (body : Body ω β π) (coroutine : Coroutine ω ρ α β)
    (P : π → List (Done ω α β) → List ω → Prop) (s : System ω ρ α β π) : Prop where
  limit : 3 ≤ s.manager.maxConcurrentWork
  scheduled : s.Scheduled
  nodup : (s.pending.map Work.id).Nodup
  lt : ∀ id ∈ s.pending.map Work.id, id < s.created
  caller : ∀ id, s.control = .running (some id) → id < s.created
  answers : ∀ waiting ∈ s.active,
    coroutine.after waiting.work.task waiting.answers = some (.inl waiting.frame)
  holds : s.control ≠ .finished → P s.parent s.done (s.pending.map Work.task)
  called : s.control ≠ .finished → s.called = []
  finished : s.control = .finished → ∃ parent tasks, P parent s.done [] ∧
    body.next parent = (tasks, s.parent, false) ∧ s.called = [s.parent]

variable {body : Body ω β π} {coroutine : Coroutine ω ρ α β}
  {P : π → List (Done ω α β) → List ω → Prop} {s s' : System ω ρ α β π}

/-- The callback is called once, at the end of the body. -/
theorem Sound.of_called {parent : π} (h : Sound body coroutine P s) (hcalled : parent ∈ s.called) :
    s.called = [parent] ∧ ∃ before tasks, P before s.done [] ∧
      body.next before = (tasks, parent, false) := by
  have hfinished : s.control = .finished := by
    by_contra hne
    rw [h.called hne] at hcalled
    cases hcalled
  obtain ⟨before, tasks, hholds, hnext, hparent⟩ := h.finished hfinished
  rw [hparent] at hcalled
  cases List.mem_singleton.mp hcalled
  exact ⟨hparent, before, tasks, hholds, hnext⟩

theorem executeWork_control (yields : ℕ) (caller : Option ℕ) (s : System ω ρ α β π) :
    (executeWork yields caller s).control = .running caller ∨
      ∃ yields' queueMoreWork, (executeWork yields caller s).control =
        .executing yields' queueMoreWork := by
  unfold executeWork
  dsimp only
  split_ifs
  · exact .inl rfl
  · exact .inr ⟨_, _, complete_control _⟩

/-- `ExecuteWork` entered with what is right but for the control. -/
theorem Sound.executeWork (rule : Rule body coroutine P) {yields : ℕ} {caller : Option ℕ}
    (hlimit : 3 ≤ s.manager.maxConcurrentWork) (hyields : s.outstanding.length = yields)
    (hlist : s.manager.inProgressList.Perm (caller.toList ++ s.outstanding.map Work.id))
    (hnodup : (s.pending.map Work.id).Nodup) (hlt : ∀ id ∈ s.pending.map Work.id, id < s.created)
    (hcaller : ∀ id ∈ caller, id ∉ s.pending.map Work.id ∧ id < s.created)
    (hanswers : ∀ waiting ∈ s.active,
      coroutine.after waiting.work.task waiting.answers = some (.inl waiting.frame))
    (hholds : P s.parent s.done (s.pending.map Work.task)) (hcalled : s.called = []) :
    Sound body coroutine P (System.executeWork yields caller s) := by
  have hexecuted := executeWork_executed yields caller s
  have hcontrol := executeWork_control yields caller s
  have hids := hexecuted.pending.map Work.id
  refine ⟨hexecuted.limit ▸ hlimit,
    executeWork_scheduled s hlimit hyields hlist fun id hid => (hcaller id hid).1,
    hids.nodup_iff.mpr hnodup, fun id hid => ?_, fun id hid => ?_, ?_, fun _ => ?_,
    fun _ => hexecuted.called.trans hcalled, fun hfinished => ?_⟩
  · rw [hexecuted.created]
    exact hlt id (hids.mem_iff.mp hid)
  · rw [hexecuted.created]
    rcases hcontrol with hrunning | ⟨_, _, hexecuting⟩
    · rw [hrunning, Control.running.injEq] at hid
      exact (hcaller id hid).2
    · rw [hexecuting] at hid
      cases hid
  · rw [hexecuted.active]
    exact hanswers
  · rw [hexecuted.parent, hexecuted.done]
    exact rule.perm (hexecuted.pending.map Work.task).symm hholds
  · rcases hcontrol with hrunning | ⟨_, _, hexecuting⟩
    · rw [hrunning] at hfinished
      cases hfinished
    · rw [hexecuting] at hfinished
      cases hfinished

theorem queueWork_ids (tasks : List ω) (s : System ω ρ α β π) :
    (queueWork tasks s).pending.map Work.id = s.pending.map Work.id ++
      List.range' s.created tasks.length := by
  have hnew : (tasks.mapIdx fun i => Work.mk (s.created + i)).map Work.id =
      List.range' s.created tasks.length := by
    refine List.ext_getElem (by simp) fun i hi hi' => by simp
  rw [← hnew, ← List.map_append, pending, pending, List.append_assoc]
  rfl

theorem queueWork_tasks (tasks : List ω) (s : System ω ρ α β π) :
    (queueWork tasks s).pending.map Work.task = s.pending.map Work.task ++ tasks := by
  have hnew : (tasks.mapIdx fun i => Work.mk (s.created + i)).map Work.task = tasks := by
    refine List.ext_getElem (by simp) fun i hi hi' => by simp
  nth_rewrite 2 [← hnew]
  rw [← List.map_append, pending, pending, List.append_assoc]
  rfl

theorem Sound.proceed (rule : Rule body coroutine P) {caller : Option ℕ}
    (h : Sound body coroutine P s) (hcontrol : s.control = .running caller) :
    Sound body coroutine P (System.proceed body caller s) := by
  have hscheduled := h.scheduled
  simp only [Scheduled, hcontrol] at hscheduled
  obtain ⟨hpending, hlist⟩ := hscheduled
  have hfinished : s.control ≠ .finished := by rw [hcontrol]; nofun
  have hholds := h.holds hfinished
  rw [hpending, List.map_nil] at hholds
  obtain ⟨⟨tasks, parent, executes⟩, hnext⟩ : ∃ next, body.next s.parent = next := ⟨_, rfl⟩
  have hids := queueWork_ids tasks { s with parent }
  have htasks := queueWork_tasks tasks { s with parent }
  rw [show ({ s with parent } : System ω ρ α β π).pending = s.pending from rfl, hpending,
    List.map_nil, List.nil_append] at hids htasks
  have hrange : ∀ id ∈ List.range' s.created tasks.length, s.created ≤ id ∧
      id < s.created + tasks.length := fun id hid => List.mem_range'_1.mp hid
  have hcaller : ∀ id ∈ caller, id < s.created := by
    rintro id rfl
    exact h.caller id hcontrol
  simp only [System.proceed, hnext]
  cases executes with
  | true =>
    refine Sound.executeWork rule h.limit ?_ ?_ ?_ ?_ ?_ h.answers ?_ (h.called hfinished)
    · rw [show (queueWork tasks { s with parent }).outstanding = s.outstanding from rfl,
        (List.append_eq_nil_iff.mp hpending).1]
      rfl
    · rw [show (queueWork tasks { s with parent }).outstanding = s.outstanding from rfl,
        (List.append_eq_nil_iff.mp hpending).1, List.map_nil, List.append_nil]
      exact .of_eq hlist
    · rw [hids]
      exact List.nodup_range'
    · rw [hids]
      exact fun id hid => (hrange id hid).2
    · rw [hids]
      intro id hid
      have hlt := hcaller id hid
      exact ⟨fun hmem => absurd (hrange id hmem).1 (by omega), Nat.lt_add_right _ hlt⟩
    · rw [htasks]
      exact rule.next hholds hnext
  | false =>
    have hactive : s.active = [] := by
      have := (List.append_eq_nil_iff.mp (List.append_eq_nil_iff.mp hpending).1).2
      exact List.map_eq_nil_iff.mp this
    refine ⟨?_, ?_, ?_, ?_, ?_, ?_, ?_, ?_, ?_⟩
    · simpa [queueWork] using h.limit
    · simp only [Bool.false_eq_true, if_false, Scheduled, complete_control]
      rw [complete_outstanding]
      exact (List.append_eq_nil_iff.mp hpending).1
    · simp only [Bool.false_eq_true, if_false, complete_pending]
      exact hids ▸ List.nodup_range'
    · simp only [Bool.false_eq_true, if_false, complete_pending, complete_created]
      exact fun id hid => (hrange id (hids ▸ hid)).2
    · simp
    · simp only [Bool.false_eq_true, if_false, complete_active]
      exact fun waiting hmem => h.answers waiting hmem
    · simp
    · simp
    · intro _
      refine ⟨s.parent, tasks, ?_, ?_, ?_⟩
      · simpa [queueWork] using hholds
      · simpa [queueWork] using hnext
      · simpa [queueWork] using h.called hfinished

theorem Sound.callback (rule : Rule body coroutine P) {work : Work ω} {answers : List α}
    {result : β} {s₀ : System ω ρ α β π} (h : Sound body coroutine P s)
    (hrunning : ∀ caller, s.control ≠ .running caller)
    (hsame : s₀.manager = s.manager ∧ s₀.parent = s.parent ∧ s₀.done = s.done ∧
      s₀.control = s.control ∧ s₀.called = s.called ∧ s₀.created = s.created)
    (htaken : s.outstanding.Perm (work :: s₀.outstanding))
    (hanswers : ∀ waiting ∈ s₀.active,
      coroutine.after waiting.work.task waiting.answers = some (.inl waiting.frame))
    (hresult : coroutine.after work.task answers = some (.inr result)) :
    Sound body coroutine P (System.callback body work answers result s₀) := by
  obtain ⟨hmanager, hparent, hdone, hcontrol, hcalled, hcreated⟩ := hsame
  have hpending : s.pending.Perm (work :: s₀.pending) := by
    rw [pending, pending, hmanager]
    exact htaken.append_right _
  have hids := hpending.map Work.id
  rw [List.map_cons] at hids
  have hnodup := hids.nodup_iff.mp h.nodup
  have hlt : ∀ id ∈ work.id :: s₀.pending.map Work.id, id < s₀.created := fun id hid =>
    hcreated ▸ h.lt id (hids.mem_iff.mpr hid)
  have hscheduled := h.scheduled
  cases hwhere : s.control with
  | idle =>
    simp only [Scheduled, hwhere] at hscheduled
    exact absurd (hscheduled.1 ▸ hpending).symm (by simp)
  | running caller => exact absurd hwhere (hrunning caller)
  | finished =>
    simp only [Scheduled, hwhere] at hscheduled
    exact absurd (hscheduled ▸ htaken).symm (by simp)
  | crashed =>
    simp only [Scheduled, hwhere] at hscheduled
  | executing yields queueMoreWork =>
    simp only [Scheduled, hwhere] at hscheduled
    obtain ⟨hlength, hlist, hqueue⟩ := hscheduled
    have hnot : s.control ≠ .finished := by rw [hwhere]; nofun
    have hyields : s₀.outstanding.length = yields := by
      have := htaken.length_eq
      rw [List.length_cons] at this
      omega
    have hlist₀ : s₀.manager.inProgressList.Perm (work.id :: s₀.outstanding.map Work.id) := by
      rw [hmanager]
      exact hlist.trans (htaken.map Work.id)
    have hholds : P (body.handle work.task result s₀.parent)
        (s₀.done ++ [⟨work.task, answers, result⟩]) (s₀.pending.map Work.task) := by
      rw [hparent, hdone]
      exact rule.handle (rule.perm (hpending.map Work.task) (h.holds hnot)) hresult
    simp only [System.callback, hcontrol, hwhere]
    split_ifs with hlast
    · obtain ⟨rfl, -⟩ := hlast
      have hnothing : s₀.outstanding = [] := List.eq_nil_of_length_eq_zero hyields
      have hempty : s₀.manager.workQueue = [] := by
        rw [hmanager]
        by_contra hne
        exact absurd (hqueue hne) (by omega)
      have hpending₀ : s₀.pending = [] := by rw [pending, hnothing, hempty, List.append_nil]
      rw [hnothing, List.map_nil] at hlist₀
      refine ⟨hmanager ▸ h.limit, ⟨hpending₀, List.perm_singleton.mp hlist₀⟩,
        (List.nodup_cons.mp hnodup).2, fun id hid => hlt id (List.mem_cons_of_mem _ hid), ?_,
        hanswers, fun _ => hholds, fun _ => hcalled.trans (h.called hnot), nofun⟩
      intro id hid
      cases hid
      exact hlt work.id List.mem_cons_self
    · refine Sound.executeWork rule (hmanager ▸ h.limit) hyields hlist₀
        (List.nodup_cons.mp hnodup).2 (fun id hid => hlt id (List.mem_cons_of_mem _ hid)) ?_
        hanswers hholds (hcalled.trans (h.called hnot))
      intro id hid
      cases hid
      exact ⟨(List.nodup_cons.mp hnodup).1, hlt work.id List.mem_cons_self⟩

/-- Nothing but the place of a coroutine among the ones that have not called back has changed. -/
theorem Sound.congr (h : Sound body coroutine P s) (hmanager : s'.manager = s.manager)
    (hparent : s'.parent = s.parent) (hdone : s'.done = s.done) (hcontrol : s'.control = s.control)
    (hcalled : s'.called = s.called) (hcreated : s'.created = s.created)
    (houtstanding : s'.outstanding.Perm s.outstanding)
    (hanswers : ∀ waiting ∈ s'.active,
      coroutine.after waiting.work.task waiting.answers = some (.inl waiting.frame))
    (rule : Rule body coroutine P) : Sound body coroutine P s' := by
  have hpending : s'.pending.Perm s.pending := by
    rw [pending, pending, hmanager]
    exact houtstanding.append_right _
  have hids := hpending.map Work.id
  refine ⟨hmanager ▸ h.limit, ?_, hids.nodup_iff.mpr h.nodup, fun id hid => ?_, fun id hid => ?_,
    hanswers, fun hne => ?_, fun hne => ?_, fun heq => ?_⟩
  · have hscheduled := h.scheduled
    have hempty {l l' : List (Work ω)} (hperm : l.Perm l') (hl : l' = []) : l = [] := by
      subst hl
      exact hperm.eq_nil
    unfold Scheduled at hscheduled ⊢
    rw [hcontrol, hmanager]
    split at hscheduled
    · exact ⟨hempty hpending hscheduled.1, hscheduled.2⟩
    · exact ⟨hempty hpending hscheduled.1, hscheduled.2⟩
    · exact ⟨houtstanding.length_eq.trans hscheduled.1,
        hscheduled.2.1.trans (houtstanding.map Work.id).symm, hscheduled.2.2⟩
    · exact hempty houtstanding hscheduled
    · exact hscheduled
  · exact hcreated ▸ h.lt id (hids.mem_iff.mp hid)
  · exact hcreated ▸ h.caller id (hcontrol ▸ hid)
  · rw [hparent, hdone]
    exact rule.perm (hpending.map Work.task).symm (h.holds (hcontrol ▸ hne))
  · exact hcalled.trans (h.called (hcontrol ▸ hne))
  · rw [hparent, hdone, hcalled]
    exact h.finished (hcontrol ▸ heq)

theorem Sound.advance (rule : Rule body coroutine P) {work : Work ω} {answers : List α}
    {outcome : ρ ⊕ β} {s₀ : System ω ρ α β π} (h : Sound body coroutine P s)
    (hrunning : ∀ caller, s.control ≠ .running caller)
    (hsame : s₀.manager = s.manager ∧ s₀.parent = s.parent ∧ s₀.done = s.done ∧
      s₀.control = s.control ∧ s₀.called = s.called ∧ s₀.created = s.created)
    (htaken : s.outstanding.Perm (work :: s₀.outstanding))
    (hanswers : ∀ waiting ∈ s₀.active,
      coroutine.after waiting.work.task waiting.answers = some (.inl waiting.frame))
    (houtcome : coroutine.after work.task answers = some outcome) :
    Sound body coroutine P (System.advance body work answers outcome s₀) := by
  cases outcome with
  | inr result => exact h.callback rule hrunning hsame htaken hanswers houtcome
  | inl frame =>
    obtain ⟨hmanager, hparent, hdone, hcontrol, hcalled, hcreated⟩ := hsame
    refine h.congr hmanager hparent hdone hcontrol hcalled hcreated ?_ ?_ rule
    · refine List.Perm.trans ?_ htaken.symm
      simp only [System.advance, outstanding, List.map_append, List.map_cons, List.map_nil,
        ← List.append_assoc]
      exact List.perm_append_singleton _ _
    · intro waiting hmem
      rcases List.mem_append.mp hmem with hmem | hmem
      · exact hanswers waiting hmem
      · rw [List.mem_singleton.mp hmem]
        exact houtcome

theorem Sound.step (rule : Rule body coroutine P) {event : Event α}
    (h : Sound body coroutine P s) (hstep : step body coroutine s event = some s') :
    Sound body coroutine P s' := by
  cases event with
  | start =>
    simp only [System.step] at hstep
    split_ifs at hstep with hidle
    cases hstep
    have hscheduled := h.scheduled
    have hnot : s.control ≠ .finished := by rw [hidle]; nofun
    simp only [Scheduled, hidle] at hscheduled
    exact ⟨h.limit, hscheduled, h.nodup, h.lt, nofun, h.answers, fun _ => h.holds hnot,
      fun _ => h.called hnot, nofun⟩
  | proceed =>
    simp only [System.step] at hstep
    split at hstep
    · next caller hcontrol =>
      cases hstep
      exact h.proceed rule hcontrol
    · cases hstep
  | startPosted index =>
    simp only [System.step] at hstep
    split at hstep
    · cases hstep
    · next hrunning =>
      obtain ⟨work, hwork, rfl⟩ := Option.map_eq_some_iff.mp hstep
      obtain ⟨hlt, rfl⟩ := List.getElem?_eq_some_iff.mp hwork
      refine h.advance rule hrunning ⟨rfl, rfl, rfl, rfl, rfl, rfl⟩ ?_ h.answers rfl
      exact (List.getElem_cons_eraseIdx_perm hlt).symm.append_right _
  | respond index answer =>
    simp only [System.step] at hstep
    split at hstep
    · cases hstep
    · next hrunning =>
      obtain ⟨waiting, hwaiting, hresume⟩ := Option.bind_eq_some_iff.mp hstep
      obtain ⟨outcome, houtcome, rfl⟩ := Option.map_eq_some_iff.mp hresume
      obtain ⟨hlt, rfl⟩ := List.getElem?_eq_some_iff.mp hwaiting
      have hmem := List.getElem_mem hlt
      refine h.advance rule hrunning ⟨rfl, rfl, rfl, rfl, rfl, rfl⟩ ?_
        (fun waiting hin => h.answers waiting ((List.eraseIdx_subset) hin)) ?_
      · have hperm := ((List.getElem_cons_eraseIdx_perm hlt).symm.map Active.work)
        exact (hperm.append_left s.posted).trans List.perm_middle
      · rw [Coroutine.after_concat (h.answers _ hmem)]
        exact houtcome

/-- A parent that has not been started. -/
def create (parent : π) (maxConcurrentWork : ℕ) : System ω ρ α β π :=
  { parent, manager := { maxConcurrentWork } }

theorem Sound.create {parent : π} {limit : ℕ} (hlimit : 3 ≤ limit) (hP : P parent [] []) :
    Sound body coroutine P (System.create parent limit) := by
  refine ⟨hlimit, ⟨rfl, rfl⟩, List.nodup_nil, ?_, nofun, ?_, fun _ => hP, fun _ => rfl, nofun⟩
  · intro id hid
    cases hid
  · intro waiting hmem
    cases hmem

/-- What a run keeps: from a property of the parent's own steps to every state reached. -/
theorem Sound.run (rule : Rule body coroutine P) {parent : π} {limit : ℕ} (hlimit : 3 ≤ limit)
    (hP : P parent [] []) {events : List (Event α)}
    (hrun : Runs.run (System.step body coroutine) (System.create parent limit) events = some s) :
    Sound body coroutine P s :=
  run_invariant (fun _ _ _ h hstep => h.step rule hstep) (Sound.create hlimit hP) hrun

end System

end

end MediafireSdk.Actions
