import MediafireSdk.Lib.Runs
import MediafireSdk.Uploader.Responses

/-! One upload: the state machine with the events, requests and timers it waits
for. The machine handles one event at a time. Events raised during a transition
are queued by boost::msm and handled in order before anything else; the rest wait
on the strand or the io_service. Answers and timers come in any order, also while
the queue is not empty, and so do the events from outside. -/

namespace MediafireSdk.Uploader

open Runs

/-- `queue` is the event queue of boost::msm, `pending` the events on the strand or the
io_service, `calls` the requests not yet answered, and `timers` the upload keys bound to the waits
for the poll timer. -/
structure Upload where
  machine : UploadStateMachine
  queue : List Event := []
  pending : List Event := []
  calls : List ApiRequest := []
  timers : List String := []
  log : List Effect := []
  deriving DecidableEq, Repr

namespace Upload

/-- An upload as `Add` makes it, before its `Start` event. -/
def create (pathFilename : String) (cloudFileName : Option String)
    (onDuplicateAction : OnDuplicateAction) : Upload where
  machine := {
    pathFilename := pathFilename
    cloudFileName := cloudFileName
    onDuplicateAction := onDuplicateAction }

/-- One effect. `inline` tells which events the strand dispatches at once, which in a transition
leads to the queue. -/
def exec (inline : Event → Bool) (u : Upload) (x : Effect) : Upload :=
  let u := { u with machine := u.machine.apply x, log := u.log ++ [x] }
  match x with
  | .processEvent e =>
    if inline e then { u with queue := u.queue ++ [e] } else { u with pending := u.pending ++ [e] }
  | .processEventNow e => { u with queue := u.queue ++ [e] }
  | .postEvent e => { u with pending := u.pending ++ [e] }
  | .call r => { u with calls := u.calls ++ [r] }
  | .startTimer uploadKey => { u with timers := u.timers ++ [uploadKey] }
  | _ => u

def execAll (inline : Event → Bool) (u : Upload) (effects : List Effect) : Upload :=
  effects.foldl (exec inline) u

/-- Handles one event; nothing follows undefined behaviour. -/
def process (w : World) (inline : Event → Bool) (u : Upload) (evt : Event) : Option Upload :=
  let effects := u.machine.fire w evt
  if .halted ∈ effects then none else some (u.execAll inline effects)

/-- The effects of a handler outside the machine: its events go to the strand. -/
def handle (u : Upload) (effects : List Effect) : Option Upload :=
  if .halted ∈ effects then none else some (u.execAll (fun _ => false) effects)

/-- `arrive` is an event from outside, `next` handles the head of the queue, `deliver` an event
waiting on the strand or the io_service, `answer` a response, and `retryPoll` the wait for the
poll timer, with an error or not. -/
inductive Act where
  | arrive (evt : Event)
  | next (w : World) (inline : Event → Bool)
  | deliver (i : ℕ) (w : World) (inline : Event → Bool)
  | answer (i : ℕ) (response : Response)
  | retryPoll (i : ℕ) (err : Bool)

/-- The events that the upload manager raises. -/
def isOutside : Event → Bool
  | .start | .startHash | .startUpload _ | .error _ _ => true
  | _ => false

/-- The event an action handles. -/
def handled (u : Upload) : Act → Option Event
  | .next _ _ => u.queue.head?
  | .deliver i _ _ => if u.queue = [] then u.pending[i]? else none
  | _ => none

def step (u : Upload) : Act → Option Upload
  | .arrive evt => if isOutside evt then u.handle [.processEvent evt] else none
  | .next w inline =>
    match u.queue with
    | [] => none
    | evt :: queue => { u with queue := queue }.process w inline evt
  | .deliver i w inline =>
    if u.queue = [] then
      match u.pending[i]? with
      | none => none
      | some evt => { u with pending := u.pending.eraseIdx i }.process w inline evt
    else none
  | .answer i response =>
    match u.calls[i]? with
    | none => none
    | some request =>
      match handleResponse u.machine request response with
      | none => none
      | some effects => { u with calls := u.calls.eraseIdx i }.handle effects
  | .retryPoll i err =>
    match u.timers[i]? with
    | none => none
    | some uploadKey =>
      { u with timers := u.timers.eraseIdx i }.handle (Uploader.retryPoll uploadKey err)

/-- A file of one byte that can be read and does not change. -/
def smallFile : World where
  stat := ⟨.ok 1, .ok 0⟩
  statAfter := ⟨.ok 1, .ok 0⟩
  openFile := .ok { content := [0] }
  pick := 0
  sha256 := fun _ => "digest"

/-! ### Executing effects -/

section Exec
variable {inline : Event → Bool} {u : Upload}

@[simp] theorem machine_exec (x : Effect) : (u.exec inline x).machine = u.machine.apply x := by
  cases x <;> simp only [exec]
  split <;> rfl

@[simp] theorem log_exec (x : Effect) : (u.exec inline x).log = u.log ++ [x] := by
  cases x <;> simp only [exec]
  split <;> rfl

@[simp] theorem execAll_nil : u.execAll inline [] = u := rfl

@[simp] theorem execAll_cons (x : Effect) (xs : List Effect) :
    u.execAll inline (x :: xs) = (u.exec inline x).execAll inline xs := rfl

@[simp] theorem execAll_append (xs ys : List Effect) :
    u.execAll inline (xs ++ ys) = (u.execAll inline xs).execAll inline ys := List.foldl_append

@[simp] theorem machine_execAll (xs : List Effect) :
    (u.execAll inline xs).machine = u.machine.applyAll xs := by
  induction xs generalizing u with
  | nil => rfl
  | cons x xs ih => rw [execAll_cons, ih, machine_exec]; rfl

@[simp] theorem log_execAll (xs : List Effect) : (u.execAll inline xs).log = u.log ++ xs := by
  induction xs generalizing u with
  | nil => simp
  | cons x xs ih => rw [execAll_cons, ih, log_exec]; simp

end Exec

/-! ### What a list of effects leaves behind -/

/-- The events raised, in any of the three ways. -/
def raised (effects : List Effect) : List Event :=
  effects.filterMap fun
    | .processEvent e | .processEventNow e | .postEvent e => some e
    | _ => none

/-- The requests started. -/
def issued (effects : List Effect) : List ApiRequest :=
  effects.filterMap fun
    | .call r => some r
    | _ => none

/-- The waits started for the poll timer. -/
def waits (effects : List Effect) : List String :=
  effects.filterMap fun
    | .startTimer uploadKey => some uploadKey
    | _ => none

/-- The events not yet handled. -/
def inFlight (u : Upload) : Multiset Event := ↑(u.queue ++ u.pending)

theorem mem_issued {effects : List Effect} {r : ApiRequest} :
    r ∈ issued effects ↔ .call r ∈ effects := by
  simp only [issued, List.mem_filterMap]
  constructor
  · rintro ⟨x, hx, hr⟩
    cases x <;> cases hr
    exact hx
  · exact fun h => ⟨_, h, rfl⟩

theorem mem_waits {effects : List Effect} {uploadKey : String} :
    uploadKey ∈ waits effects ↔ .startTimer uploadKey ∈ effects := by
  simp only [waits, List.mem_filterMap]
  constructor
  · rintro ⟨x, hx, hk⟩
    cases x <;> cases hk
    exact hx
  · exact fun h => ⟨_, h, rfl⟩

@[simp] theorem raised_append (xs ys : List Effect) : raised (xs ++ ys) = raised xs ++ raised ys :=
  List.filterMap_append

@[simp] theorem issued_append (xs ys : List Effect) : issued (xs ++ ys) = issued xs ++ issued ys :=
  List.filterMap_append

@[simp] theorem waits_append (xs ys : List Effect) : waits (xs ++ ys) = waits xs ++ waits ys :=
  List.filterMap_append

/-- Effects that leave nothing to wait for. -/
def Inert (effects : List Effect) : Prop :=
  raised effects = [] ∧ issued effects = [] ∧ waits effects = []

theorem Inert.append {xs ys : List Effect} (hx : Inert xs) (hy : Inert ys) : Inert (xs ++ ys) :=
  ⟨by simp [hx.1, hy.1], by simp [hx.2.1, hy.2.1], by simp [hx.2.2, hy.2.2]⟩

theorem inert_assertThat (p : Prop) [Decidable p] (text : String) :
    Inert (assertThat p text) := by
  unfold assertThat
  split_ifs <;> exact ⟨rfl, rfl, rfl⟩

theorem inert_setCountState (m : UploadStateMachine) (cs : CountState) :
    Inert (m.setCountState cs) := by
  unfold UploadStateMachine.setCountState
  cases m.countState <;> cases cs <;> exact ⟨rfl, rfl, rfl⟩

section Leaves
variable {inline : Event → Bool} {u : Upload}

@[simp] theorem calls_execAll (xs : List Effect) :
    (u.execAll inline xs).calls = u.calls ++ issued xs := by
  induction xs generalizing u with
  | nil => simp [issued]
  | cons x xs ih =>
    rw [execAll_cons, ih]
    cases x <;> simp only [exec, issued, List.filterMap_cons, List.append_assoc] <;>
      first | rfl | (split <;> rfl)

@[simp] theorem timers_execAll (xs : List Effect) :
    (u.execAll inline xs).timers = u.timers ++ waits xs := by
  induction xs generalizing u with
  | nil => simp [waits]
  | cons x xs ih =>
    rw [execAll_cons, ih]
    cases x <;> simp only [exec, waits, List.filterMap_cons, List.append_assoc] <;>
      first | rfl | (split <;> rfl)

theorem inFlight_execAll (xs : List Effect) :
    (u.execAll inline xs).inFlight = u.inFlight + (raised xs : Multiset Event) := by
  induction xs generalizing u with
  | nil => simp [raised]
  | cons x xs ih =>
    have hx : (u.exec inline x).inFlight = u.inFlight + (raised [x] : Multiset Event) := by
      cases x <;> simp only [exec, inFlight, raised, List.filterMap_cons, List.filterMap_nil,
        Multiset.coe_add, Multiset.coe_nil, add_zero, List.append_assoc]
      · split
        · simp only [Multiset.coe_eq_coe, List.append_assoc]
          exact List.perm_append_comm.append_left _
        · rfl
      · simp only [Multiset.coe_eq_coe]
        exact List.perm_append_comm.append_left _
    rw [execAll_cons, ih, hx, add_assoc]
    congr 1
    simp only [raised, Multiset.coe_add, ← List.filterMap_append, List.singleton_append]

end Leaves

/-! ### What a step can do -/

/-- `u'` is `u` after `effects`, where `events`, `calls` and `timers` were left to wait for. -/
structure Executes (u u' : Upload) (events : Multiset Event) (calls : List ApiRequest)
    (timers : List String) (effects : List Effect) : Prop where
  machine : u'.machine = u.machine.applyAll effects
  log : u'.log = u.log ++ effects
  inFlight : u'.inFlight = events + (raised effects : Multiset Event)
  calls : u'.calls = calls ++ issued effects
  timers : u'.timers = timers ++ waits effects
  defined : .halted ∉ effects

inductive Stepped (u u' : Upload) : Act → Prop where
  | arrive {evt : Event} (houtside : isOutside evt = true)
      (hexec : u.Executes u' u.inFlight u.calls u.timers [.processEvent evt]) :
      Stepped u u' (.arrive evt)
  | event {act : Act} {evt : Event} {rest : Multiset Event} (w : World)
      (hact : u.handled act = some evt) (hrest : u.inFlight = evt ::ₘ rest)
      (hexec : u.Executes u' rest u.calls u.timers (u.machine.fire w evt)) :
      Stepped u u' act
  | answer {i : ℕ} {response : Response} {request : ApiRequest} {effects : List Effect}
      (hcall : u.calls[i]? = some request)
      (hresponse : handleResponse u.machine request response = some effects)
      (hexec : u.Executes u' u.inFlight (u.calls.eraseIdx i) u.timers effects) :
      Stepped u u' (.answer i response)
  | retryPoll {i : ℕ} {err : Bool} {uploadKey : String}
      (htimer : u.timers[i]? = some uploadKey)
      (hexec : u.Executes u' u.inFlight u.calls (u.timers.eraseIdx i)
        (Uploader.retryPoll uploadKey err)) :
      Stepped u u' (.retryPoll i err)

theorem executes_of_handle {base u' : Upload} {effects : List Effect}
    (h : base.handle effects = some u') :
    base.Executes u' base.inFlight base.calls base.timers effects := by
  unfold handle at h
  split_ifs at h with hdef
  cases h
  exact ⟨machine_execAll _, log_execAll _, inFlight_execAll _, calls_execAll _,
    timers_execAll _, hdef⟩

theorem executes_of_process {base u' : Upload} {w : World} {inline : Event → Bool} {evt : Event}
    (h : base.process w inline evt = some u') :
    base.Executes u' base.inFlight base.calls base.timers (base.machine.fire w evt) := by
  unfold process at h
  dsimp only at h
  split_ifs at h with hdef
  cases h
  exact ⟨machine_execAll _, log_execAll _, inFlight_execAll _, calls_execAll _,
    timers_execAll _, hdef⟩

theorem step_cases {u u' : Upload} {act : Act} (h : u.step act = some u') :
    Stepped u u' act := by
  cases act with
  | arrive evt =>
    rw [step] at h
    split_ifs at h with houtside
    exact .arrive houtside (executes_of_handle h)
  | next w inline =>
    rw [step] at h
    split at h
    · cases h
    · rename_i evt queue hqueue
      obtain ⟨hm, hl, hf, hc, ht, hd⟩ := executes_of_process h
      refine .event w (?_ : _ = some evt) (?_ : _ = evt ::ₘ ↑(queue ++ u.pending))
        ⟨hm, hl, hf, hc, ht, hd⟩
      · simp only [handled, hqueue, List.head?_cons]
      · simp only [inFlight, hqueue, List.cons_append, Multiset.cons_coe]
  | deliver i w inline =>
    rw [step] at h
    split_ifs at h with hqueue
    split at h
    · cases h
    · rename_i evt hpending
      obtain ⟨hm, hl, hf, hc, ht, hd⟩ := executes_of_process h
      refine .event w (?_ : _ = some evt) (?_ : _ = evt ::ₘ ↑(u.pending.eraseIdx i))
        ⟨hm, hl, ?_, hc, ht, hd⟩
      · rw [handled, if_pos hqueue, hpending]
      · obtain ⟨hi, rfl⟩ := List.getElem?_eq_some_iff.mp hpending
        rw [inFlight, hqueue, List.nil_append, Multiset.cons_coe, Multiset.coe_eq_coe]
        exact (List.getElem_cons_eraseIdx_perm hi).symm
      · simpa only [inFlight, hqueue, List.nil_append] using hf
  | answer i response =>
    rw [step] at h
    split at h
    · cases h
    · rename_i request hcall
      split at h
      · cases h
      · rename_i effects hresponse
        obtain ⟨hm, hl, hf, hc, ht, hd⟩ := executes_of_handle h
        exact .answer hcall hresponse ⟨hm, hl, hf, hc, ht, hd⟩
  | retryPoll i err =>
    rw [step] at h
    split at h
    · cases h
    · rename_i uploadKey htimer
      obtain ⟨hm, hl, hf, hc, ht, hd⟩ := executes_of_handle h
      exact .retryPoll htimer ⟨hm, hl, hf, hc, ht, hd⟩

/-- The step of an action that handles an event runs the transition of that event. -/
theorem executes_fire {u u' : Upload} {act : Act} {evt : Event} (h : u.step act = some u')
    (hact : u.handled act = some evt) :
    ∃ w rest, u.inFlight = evt ::ₘ rest ∧
      u.Executes u' rest u.calls u.timers (u.machine.fire w evt) := by
  cases step_cases h with
  | arrive _ _ => cases hact
  | event w hact' hrest hexec =>
    cases hact.symm.trans hact'
    exact ⟨w, _, hrest, hexec⟩
  | answer _ _ _ => cases hact
  | retryPoll _ _ => cases hact

/-! ### Poll keys -/

/-- Every effect of a transition comes from one of its parts. -/
theorem mem_fire {w : World} {m : UploadStateMachine} {evt : Event} {x : Effect}
    (h : x ∈ m.fire w evt) :
    FromExit x ∨ FromAction x ∨ (∃ target, FromEntry target x) ∨
      (∃ s, x = .write (.state s)) ∨ ∃ s, x = .noTransition s evt := by
  unfold UploadStateMachine.fire at h
  split_ifs at h
  · cases h
  · split at h
    · exact .inr (.inr (.inr (.inr ⟨_, List.mem_singleton.mp h⟩)))
    · rcases List.mem_append.mp h with h | h
      · rcases List.mem_append.mp h with h | h
        · rcases List.mem_append.mp h with h | h
          · exact .inl (fromExit_onExit h)
          · exact .inr (.inl (fromAction_effects h))
        · exact .inr (.inr (.inl ⟨_, fromEntry_onEntry h⟩))
      · exact .inr (.inr (.inr (.inl ⟨_, List.mem_singleton.mp h⟩)))

/-- Polls are started with an upload key. -/
structure PollKeys (u : Upload) : Prop where
  calls : .pollUpload "" ∉ u.calls
  timers : "" ∉ u.timers

theorem PollKeys.of_executes {u u' : Upload} {events : Multiset Event} {calls : List ApiRequest}
    {timers : List String} {effects : List Effect} (h : u.PollKeys)
    (hexec : u.Executes u' events calls timers effects) (hcalls : calls ⊆ u.calls)
    (htimers : timers ⊆ u.timers) (hcall : .call (.pollUpload "") ∉ effects)
    (htimer : .startTimer "" ∉ effects) : u'.PollKeys := by
  constructor
  · rw [hexec.calls, List.mem_append, mem_issued]
    exact fun hmem => hmem.elim (fun hc => h.calls (hcalls hc)) hcall
  · rw [hexec.timers, List.mem_append, mem_waits]
    exact fun hmem => hmem.elim (fun ht => h.timers (htimers ht)) htimer

theorem call_mem_startPoll {uploadKey : String} {r : ApiRequest}
    (h : .call r ∈ startPoll uploadKey) : r = .pollUpload uploadKey ∧ uploadKey ≠ "" := by
  unfold startPoll at h
  split_ifs at h with hkey
  · simp at h
  · exact ⟨by simpa using h, hkey⟩

theorem PollKeys.step {u u' : Upload} {act : Act} (h : u.PollKeys) (hs : u.step act = some u') :
    u'.PollKeys := by
  cases step_cases hs with
  | arrive _ hexec =>
    exact h.of_executes hexec (List.Subset.refl _) (List.Subset.refl _) (by simp) (by simp)
  | event w _ _ hexec =>
    refine h.of_executes hexec (List.Subset.refl _) (List.Subset.refl _) ?_ ?_
    · intro hmem
      rcases mem_fire hmem with hx | hx | ⟨_, hx⟩ | ⟨_, hx⟩ | ⟨_, hx⟩
      · cases hx
      · cases hx with
        | call _ hkey => exact hkey rfl
      all_goals cases hx
    · intro hmem
      rcases mem_fire hmem with hx | hx | ⟨_, hx⟩ | ⟨_, hx⟩ | ⟨_, hx⟩ <;> cases hx
  | answer hcall hresponse hexec =>
    refine h.of_executes hexec (List.eraseIdx_subset ..) (List.Subset.refl _) ?_ ?_
    · exact fun hmem => by cases fromHandler_handleResponse hresponse hmem
    · intro hmem
      cases fromHandler_handleResponse hresponse hmem with
      | startTimer _ hr => exact h.calls (hr ▸ List.mem_of_getElem? hcall)
  | @retryPoll i err uploadKey htimer hexec =>
    refine h.of_executes hexec (List.Subset.refl _) (List.eraseIdx_subset ..) ?_ ?_
    · cases err
      · exact fun hmem => (call_mem_startPoll hmem).2
          (ApiRequest.pollUpload.inj (call_mem_startPoll hmem).1).symm
      · exact List.not_mem_nil
    · cases err
      · exact fun hmem => by cases fromAction_startPoll hmem
      · exact List.not_mem_nil

end Upload

end MediafireSdk.Uploader
