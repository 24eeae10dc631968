import MediafireSdk.Lib.Runs
import MediafireSdk.Utils.TimedEvents

/-! `TimedEvents` with its timer and its `io_service` (`timed_events.hpp`). What holds the mutex is
one step: `Add`, `CancelAll`, the flag of `Stop`, and a pass of the loop of `ResetTimer` from where
it locks the mutex to the next callback or to its end. Between two passes the event processor and
other threads may do anything. Handlers run in any order, and several at a time. -/

namespace MediafireSdk.Utils

open Runs

/-! ### The service -/

/-- What is posted to the `io_service`: `ResetTimer`, the handler of a wait that is over or was
cancelled, or the event processor for an event of `CancelAll`. -/
inductive Handler (α : Type) where
  | resetTimer
  | handleTimeout (err : Bool)
  | process (timeout : ℕ) (event : α)
  deriving DecidableEq, Repr

/-- A run of `ResetTimer` that has not ended, and what it takes as the time. -/
structure ResetRun where
  id : ℕ
  now : ℕ
  deriving DecidableEq, Repr

inductive ServiceEntry (α : Type) where
  | added (timeout : ℕ) (event : α)
  | passed (run : ℕ) (time : ℕ) (timeout : ℕ) (event : α)
  | cancelled (timeout : ℕ) (event : α)
  deriving DecidableEq, Repr

structure TimedService (α : Type) where
  map : TimedEvents α := {}
  /-- The expiry of the timer while a wait is on it. -/
  timer : Option ℕ := none
  handlers : List (Handler α) := []
  runs : List ResetRun := []
  fresh : ℕ := 0
  now : ℕ := 0
  destroyed : Bool := false
  log : List (ServiceEntry α) := []
  deriving DecidableEq, Repr

inductive ServiceAct (α : Type) where
  | clock (elapsed : ℕ)
  | add (timeoutTime : ℕ) (event : α)
  | cancelAll
  | halt
  | destroy
  | expire
  | begin (i : ℕ)
  | advance (i : ℕ)
  deriving DecidableEq, Repr

/-- A handler that runs `ResetTimer`. -/
def Handler.resets {α : Type} : Handler α → Bool
  | .resetTimer | .handleTimeout false => true
  | _ => false

/-- A handler that shares the object. -/
def Handler.shares {α : Type} : Handler α → Bool
  | .process _ _ => false
  | _ => true

namespace TimedService

variable {α : Type} (s : TimedService α)

def add (timeoutTime : ℕ) (event : α) : TimedService α :=
  { s with
    map := s.map.add timeoutTime event
    handlers := s.handlers ++ [.resetTimer]
    log := s.log ++ [.added timeoutTime event] }

/-- `cancel` and `expires_at` of the timer: a wait on it completes with an error. -/
def cancelTimer : TimedService α :=
  { s with
    timer := none
    handlers := s.handlers ++ (s.timer.map fun _ => Handler.handleTimeout true).toList }

def cancelAll : TimedService α :=
  { s.cancelTimer with
    map := { s.map with data := [] }
    handlers := s.cancelTimer.handlers ++ s.map.data.map fun p => .process p.1 p.2 }

/-- The first part of `Stop`; `CancelAll` is the other one. -/
def halt : TimedService α := { s with map := { s.map with running := false } }

/-- Nothing shares the object but its users. -/
def unshared : Bool :=
  s.runs.isEmpty && s.timer.isNone && s.handlers.all fun h => !h.shares

def destroy : TimedService α := { s.halt.cancelAll with destroyed := true }

/-- The wait on the timer is over. -/
def expire : TimedService α :=
  { s with timer := none, handlers := s.handlers ++ [.handleTimeout false] }

def dropHandler (i : ℕ) : TimedService α := { s with handlers := s.handlers.eraseIdx i }

def beginReset : TimedService α :=
  { s with fresh := s.fresh + 1, runs := s.runs ++ [{ id := s.fresh, now := s.now }] }

/-- The `io_service` runs a handler. -/
def runHandler : Handler α → TimedService α
  | .resetTimer => s.beginReset
  | .handleTimeout err => if err then s else s.beginReset
  | .process timeout event => { s with log := s.log ++ [.cancelled timeout event] }

def endRun (i : ℕ) : TimedService α := { s with runs := s.runs.eraseIdx i }

/-- `ResetTimer` from where it has the lock. -/
def advance (i : ℕ) (r : ResetRun) : TimedService α :=
  if s.map.running then
    match s.map.data with
    | [] => s.endRun i
    | (timeout, event) :: data =>
      if timeout ≤ r.now then
        { s with
          map := { s.map with data := data }
          log := s.log ++ [.passed r.id s.now timeout event] }
      else { s.cancelTimer with timer := some timeout }.endRun i
  else s.endRun i

def step : ServiceAct α → Option (TimedService α)
  | .clock elapsed => some { s with now := s.now + elapsed }
  | .add timeoutTime event => if s.destroyed then none else some (s.add timeoutTime event)
  | .cancelAll => if s.destroyed then none else some s.cancelAll
  | .halt => if s.destroyed then none else some s.halt
  | .destroy => if s.destroyed || !s.unshared then none else some s.destroy
  | .expire => if s.timer.any (· ≤ s.now) then some s.expire else none
  | .begin i => s.handlers[i]?.map (s.dropHandler i).runHandler
  | .advance i => s.runs[i]?.map (s.advance i)

end TimedService

/-! ### What is delivered -/

/-- An event with its due time, when it is added and when it is passed on. -/
def ServiceEntry.addedItem {α : Type} : ServiceEntry α → Option (ℕ × α)
  | .added timeout event => some (timeout, event)
  | _ => none

def ServiceEntry.passedItem {α : Type} : ServiceEntry α → Option (ℕ × α)
  | .passed _ _ timeout event | .cancelled timeout event => some (timeout, event)
  | .added _ _ => none

def Handler.item {α : Type} : Handler α → Option (ℕ × α)
  | .process timeout event => some (timeout, event)
  | _ => none

/-- Within one run of `ResetTimer` no event is passed behind a later one. -/
def InOrder {α : Type} (log : List (ServiceEntry α)) : Prop :=
  ∀ run time timeout event time' timeout' event' before between rest,
    log = before ++ .passed run time timeout event ::
      (between ++ .passed run time' timeout' event' :: rest) → timeout ≤ timeout'

/-- An event is passed behind a later one only when it has been added behind it. -/
def EarliestFirst {α : Type} (log : List (ServiceEntry α)) : Prop :=
  ∀ run time timeout event run' time' timeout' event' before between rest,
    log = before ++ .passed run time timeout event ::
      (between ++ .passed run' time' timeout' event' :: rest) →
    timeout' < timeout → .added timeout' event' ∈ between

/-! A log with one more entry. -/

theorem append_split {β : Type*} {log before later : List β} {x y : β}
    (h : log ++ [x] = before ++ y :: later) :
    (∃ later', later = later' ++ [x] ∧ log = before ++ y :: later') ∨
      later = [] ∧ y = x ∧ before = log := by
  rcases List.eq_nil_or_concat later with rfl | ⟨later', z, rfl⟩
  · obtain ⟨hlog, hx⟩ := List.append_inj' h rfl
    exact .inr ⟨rfl, (List.singleton_inj.mp hx).symm, hlog.symm⟩
  · rw [List.concat_eq_append, ← List.cons_append, ← List.append_assoc] at h
    obtain ⟨hlog, hx⟩ := List.append_inj' h rfl
    refine .inl ⟨later', ?_, hlog⟩
    rw [List.concat_eq_append, ← hx]

theorem EarliestFirst.append {α : Type} {log : List (ServiceEntry α)} (h : EarliestFirst log)
    {x : ServiceEntry α}
    (hx : ∀ run' time' timeout' event', x = .passed run' time' timeout' event' →
      ∀ before run time timeout event between,
        log = before ++ .passed run time timeout event :: between →
        timeout' < timeout → .added timeout' event' ∈ between) : EarliestFirst (log ++ [x]) := by
  intro run time timeout event run' time' timeout' event' before between rest hlog hlt
  rcases append_split hlog with ⟨later, hlater, hlog'⟩ | ⟨hnil, -⟩
  · rcases append_split hlater.symm with ⟨rest', -, hbetween⟩ | ⟨-, hpassed, hbetween⟩
    · exact h run time timeout event run' time' timeout' event' before between rest'
        (hbetween ▸ hlog') hlt
    · exact hx run' time' timeout' event' hpassed.symm before run time timeout event between
        (hbetween ▸ hlog') hlt
  · simp at hnil

/-- What is added or cancelled is passed by no run. -/
theorem EarliestFirst.append_other {α : Type} {log : List (ServiceEntry α)} (h : EarliestFirst log)
    {x : ServiceEntry α} (hx : ∀ run time timeout event, x ≠ .passed run time timeout event) :
    EarliestFirst (log ++ [x]) :=
  h.append fun run time timeout event heq => absurd heq (hx run time timeout event)

namespace TimedService

variable {α : Type}

/-- Nothing is left for the `io_service` to do. -/
def Quiet (s : TimedService α) : Prop := s.handlers = [] ∧ s.runs = [] ∧ s.timer = none

def ServiceAct.isAdd {α : Type} : ServiceAct α → Bool
  | .add _ _ => true
  | _ => false

/-- Without a further event everything comes to its end. -/
def Drains (s : TimedService α) : Prop :=
  ∃ acts s', (∀ a ∈ acts, ServiceAct.isAdd a = false) ∧ run step s acts = some s' ∧ s'.Quiet ∧
    s'.destroyed = true

/-- The delivery of the events. -/
structure Delivers (s : TimedService α) : Prop where
  /-- Every event has been passed once or is in one other place. -/
  once : (s.log.filterMap ServiceEntry.addedItem).Perm (s.log.filterMap ServiceEntry.passedItem ++
    (s.handlers.filterMap Handler.item ++ s.map.data))
  due : ∀ run time timeout event, .passed run time timeout event ∈ s.log → timeout ≤ time
  order : EarliestFirst s.log
  /-- The earliest event is waited for. -/
  covered : s.map.running = true → s.map.data ≠ [] → s.runs = [] →
    (∃ h ∈ s.handlers, h.resets = true) ∨
      ∃ expiry, s.timer = some expiry ∧ ∀ p ∈ s.map.data, expiry ≤ p.1
  /-- When there is nothing left to do every event has been passed. -/
  all : s.Quiet → s.map.running = true ∨ s.destroyed = true →
    (s.log.filterMap ServiceEntry.addedItem).Perm (s.log.filterMap ServiceEntry.passedItem)
  drains : s.Drains

/-! ### The invariant -/

/-- An event that waits behind a later one that has been passed has been added since. -/
def AddedSince (s : TimedService α) : Prop :=
  ∀ before run time timeout event later,
    s.log = before ++ .passed run time timeout event :: later →
    ∀ p ∈ s.map.data, p.1 < timeout → .added p.1 p.2 ∈ later

/-- A run of `ResetTimer` goes on, one is posted, or the timer waits for the earliest event. -/
def Covered (s : TimedService α) : Prop :=
  s.runs ≠ [] ∨ (∃ h ∈ s.handlers, h.resets = true) ∨
    ∃ expiry, s.timer = some expiry ∧ ∀ p ∈ s.map.data, expiry ≤ p.1

structure Delivering (s : TimedService α) : Prop where
  items : (s.log.filterMap ServiceEntry.addedItem).Perm (s.log.filterMap ServiceEntry.passedItem ++
    (s.handlers.filterMap Handler.item ++ s.map.data))
  sorted : s.map.data.Pairwise fun p q => p.1 ≤ q.1
  runs : ∀ r ∈ s.runs, r.now ≤ s.now
  due : ∀ run time timeout event, .passed run time timeout event ∈ s.log → timeout ≤ time
  order : EarliestFirst s.log
  since : s.AddedSince
  covered : s.map.running = true → s.map.data ≠ [] → s.Covered
  destroyed : s.destroyed = true → s.map.data = [] ∧ s.map.running = false ∧ s.timer = none

section Invariant
variable {s s' : TimedService α}

/-! ### Steps -/

theorem pairwise_add {data : List (ℕ × α)} (h : data.Pairwise fun p q => p.1 ≤ q.1)
    (timeoutTime : ℕ) (event : α) :
    (data.takeWhile (·.1 ≤ timeoutTime) ++
      (timeoutTime, event) :: data.dropWhile (·.1 ≤ timeoutTime)).Pairwise
        fun p q => p.1 ≤ q.1 := by
  induction data with
  | nil => exact List.pairwise_singleton _ _
  | cons p data ih =>
    obtain ⟨hp, hdata⟩ := List.pairwise_cons.mp h
    by_cases hle : p.1 ≤ timeoutTime
    · rw [List.takeWhile_cons_of_pos (by simpa using hle),
        List.dropWhile_cons_of_pos (by simpa using hle), List.cons_append]
      refine List.pairwise_cons.mpr ⟨fun q hq => ?_, ih hdata⟩
      rcases List.mem_append.mp hq with hq | hq
      · exact hp q ((List.takeWhile_sublist _).subset hq)
      · rcases List.mem_cons.mp hq with rfl | hq
        · exact hle
        · exact hp q ((List.dropWhile_sublist _).subset hq)
    · rw [List.takeWhile_cons_of_neg (by simpa using hle),
        List.dropWhile_cons_of_neg (by simpa using hle), List.nil_append]
      refine List.pairwise_cons.mpr ⟨fun q hq => ?_, h⟩
      rcases List.mem_cons.mp hq with rfl | hq
      · exact (Nat.lt_of_not_le hle).le
      · exact (Nat.lt_of_not_le hle).le.trans (hp q hq)

theorem perm_add (data : List (ℕ × α)) (timeoutTime : ℕ) (event : α) :
    (data.takeWhile (·.1 ≤ timeoutTime) ++
      (timeoutTime, event) :: data.dropWhile (·.1 ≤ timeoutTime)).Perm
        ((timeoutTime, event) :: data) := by
  have hsplit : data.takeWhile (·.1 ≤ timeoutTime) ++ data.dropWhile (·.1 ≤ timeoutTime) = data :=
    List.takeWhile_append_dropWhile
  refine List.perm_middle.trans ?_
  rw [hsplit]

theorem Delivering.add (h : Delivering s) (hdestroyed : s.destroyed = false) (timeoutTime : ℕ)
    (event : α) : Delivering (s.add timeoutTime event) where
  items := by
    have hitems := (h.items.append_right [(timeoutTime, event)]).trans (List.Perm.of_eq
      (List.append_assoc _ _ _))
    have hdata := (List.perm_append_singleton (timeoutTime, event) s.map.data).trans
      (perm_add s.map.data timeoutTime event).symm
    have hmoved := (hdata.append_left (s.handlers.filterMap Handler.item)).append_left
      (s.log.filterMap ServiceEntry.passedItem)
    rw [List.append_assoc] at hitems
    simpa [TimedService.add, TimedEvents.add, List.filterMap_cons, ServiceEntry.addedItem,
      ServiceEntry.passedItem, Handler.item] using hitems.trans hmoved
  sorted := pairwise_add h.sorted timeoutTime event
  runs := h.runs
  due run time timeout event' hmem := by
    rcases List.mem_append.mp hmem with hmem | hmem
    · exact h.due run time timeout event' hmem
    · cases List.mem_singleton.mp hmem
  order := h.order.append_other nofun
  since before run time timeout event' later hlog p hp hlt := by
    rcases append_split hlog with ⟨later', rfl, hlog'⟩ | ⟨-, heq, -⟩
    · rcases List.mem_cons.mp ((perm_add _ _ _).mem_iff.mp hp) with rfl | hp
      · exact List.mem_append_right _ (List.mem_singleton_self _)
      · exact List.mem_append_left _ (h.since before run time timeout event' later' hlog' p hp hlt)
    · cases heq
  covered _ _ := .inr (.inl ⟨.resetTimer, List.mem_append_right _ (List.mem_singleton_self _), rfl⟩)
  destroyed hend := by
    rw [show (s.add timeoutTime event).destroyed = s.destroyed from rfl, hdestroyed] at hend
    cases hend

theorem Delivering.clock (h : Delivering s) (elapsed : ℕ) :
    Delivering { s with now := s.now + elapsed } :=
  ⟨h.items, h.sorted, fun r hr => (h.runs r hr).trans (Nat.le_add_right _ _), h.due, h.order,
    h.since, h.covered, h.destroyed⟩

theorem Delivering.halt (h : Delivering s) : Delivering s.halt :=
  ⟨h.items, h.sorted, h.runs, h.due, h.order, h.since, nofun,
    fun hend => ⟨(h.destroyed hend).1, rfl, (h.destroyed hend).2.2⟩⟩

/-- Cancelling the timer hands nothing over. -/
theorem items_cancelTimer (s : TimedService α) :
    s.cancelTimer.handlers.filterMap Handler.item = s.handlers.filterMap Handler.item := by
  unfold cancelTimer
  cases s.timer <;> simp [List.filterMap_cons, Handler.item]

theorem items_data (data : List (ℕ × α)) :
    (data.map fun p => Handler.process p.1 p.2).filterMap Handler.item = data := by
  rw [List.filterMap_map]
  exact List.filterMap_some

theorem Delivering.cancelAll (h : Delivering s) : Delivering s.cancelAll where
  items := by
    have hitems : s.cancelAll.handlers.filterMap Handler.item =
        s.handlers.filterMap Handler.item ++ s.map.data := by
      rw [TimedService.cancelAll, List.filterMap_append, items_cancelTimer, items_data]
    have hnone : s.cancelAll.map.data = [] := rfl
    rw [hitems, hnone, List.append_nil]
    exact h.items
  sorted := .nil
  runs := h.runs
  due := h.due
  order := h.order
  since _ _ _ _ _ _ _ p hp := by cases hp
  covered _ hne := absurd rfl hne
  destroyed hend := ⟨rfl, (h.destroyed hend).2.1, rfl⟩

theorem Delivering.destroy (h : Delivering s) : Delivering s.destroy :=
  have hcancelled := h.halt.cancelAll
  ⟨hcancelled.items, hcancelled.sorted, hcancelled.runs, hcancelled.due, hcancelled.order,
    hcancelled.since, hcancelled.covered, fun _ => ⟨rfl, rfl, rfl⟩⟩

theorem Delivering.expire (h : Delivering s) : Delivering s.expire where
  items := by
    simpa [TimedService.expire, List.filterMap_cons, Handler.item] using h.items
  sorted := h.sorted
  runs := h.runs
  due := h.due
  order := h.order
  since := h.since
  covered _ _ := .inr (.inl ⟨.handleTimeout false, List.mem_append_right _
    (List.mem_singleton_self _), rfl⟩)
  destroyed hend := ⟨(h.destroyed hend).1, (h.destroyed hend).2.1, rfl⟩

theorem perm_dropHandler {i : ℕ} {handler : Handler α} (hhandler : s.handlers[i]? = some handler) :
    s.handlers.Perm (handler :: (s.dropHandler i).handlers) := by
  obtain ⟨hlt, rfl⟩ := List.getElem?_eq_some_iff.mp hhandler
  exact (List.getElem_cons_eraseIdx_perm hlt).symm

/-- A handler that passes nothing. -/
theorem Delivering.dropped_items (h : Delivering s) {i : ℕ} {handler : Handler α}
    (hhandler : s.handlers[i]? = some handler) (hitem : handler.item = none) :
    (s.log.filterMap ServiceEntry.addedItem).Perm (s.log.filterMap ServiceEntry.passedItem ++
      ((s.dropHandler i).handlers.filterMap Handler.item ++ s.map.data)) := by
  have hperm := (perm_dropHandler hhandler).filterMap Handler.item
  rw [List.filterMap_cons_none hitem] at hperm
  exact h.items.trans ((hperm.append_right _).append_left _)

/-- A handler that does not run `ResetTimer`. -/
theorem Covered.dropHandler (h : s.Covered) {i : ℕ} {handler : Handler α}
    (hhandler : s.handlers[i]? = some handler) (hresets : handler.resets = false) :
    (s.dropHandler i).Covered := by
  rcases h with hruns | ⟨other, hmem, hother⟩ | htimer
  · exact .inl hruns
  · refine .inr (.inl ⟨other, ?_, hother⟩)
    rcases List.mem_cons.mp ((perm_dropHandler hhandler).mem_iff.mp hmem) with rfl | hmem
    · rw [hresets] at hother
      cases hother
    · exact hmem
  · exact .inr (.inr htimer)

theorem Delivering.dropHandler (h : Delivering s) {i : ℕ} {handler : Handler α}
    (hhandler : s.handlers[i]? = some handler) (hitem : handler.item = none)
    (hresets : handler.resets = false) : Delivering (s.dropHandler i) :=
  ⟨h.dropped_items hhandler hitem, h.sorted, h.runs, h.due, h.order, h.since,
    fun hrunning hne => (h.covered hrunning hne).dropHandler hhandler hresets, h.destroyed⟩

theorem Delivering.beginReset (h : Delivering s) {i : ℕ} {handler : Handler α}
    (hhandler : s.handlers[i]? = some handler) (hitem : handler.item = none) :
    Delivering (s.dropHandler i).beginReset where
  items := h.dropped_items hhandler hitem
  sorted := h.sorted
  runs r hr := by
    rcases List.mem_append.mp hr with hr | hr
    · exact h.runs r hr
    · rw [List.mem_singleton.mp hr]
      exact le_rfl
  due := h.due
  order := h.order
  since := h.since
  covered _ _ := .inl (by simp [TimedService.beginReset])
  destroyed := h.destroyed

theorem Delivering.process (h : Delivering s) {i : ℕ} {timeout : ℕ} {event : α}
    (hhandler : s.handlers[i]? = some (.process timeout event)) :
    Delivering ((s.dropHandler i).runHandler (.process timeout event)) where
  items := by
    have hperm := (perm_dropHandler hhandler).filterMap Handler.item
    rw [List.filterMap_cons_some (f := Handler.item) rfl] at hperm
    have hitems := h.items.trans ((hperm.append_right s.map.data).append_left _)
    simpa [TimedService.runHandler, TimedService.dropHandler, List.filterMap_cons,
      ServiceEntry.addedItem, ServiceEntry.passedItem] using hitems
  sorted := h.sorted
  runs := h.runs
  due run time timeout' event' hmem := by
    rcases List.mem_append.mp hmem with hmem | hmem
    · exact h.due run time timeout' event' hmem
    · cases List.mem_singleton.mp hmem
  order := h.order.append_other nofun
  since before run time timeout' event' later hlog p hp hlt := by
    rcases append_split hlog with ⟨later', rfl, hlog'⟩ | ⟨-, heq, -⟩
    · exact List.mem_append_left _ (h.since before run time timeout' event' later' hlog' p hp hlt)
    · cases heq
  covered hrunning hne := (h.covered hrunning hne).dropHandler hhandler rfl
  destroyed := h.destroyed

theorem Delivering.runHandler (h : Delivering s) {i : ℕ} {handler : Handler α}
    (hhandler : s.handlers[i]? = some handler) :
    Delivering ((s.dropHandler i).runHandler handler) := by
  cases handler with
  | resetTimer => exact h.beginReset hhandler rfl
  | handleTimeout err =>
    cases err with
    | true => exact h.dropHandler hhandler rfl rfl
    | false => exact h.beginReset hhandler rfl
  | process timeout event => exact h.process hhandler

/-- The earliest event is passed. -/
theorem Delivering.pass (h : Delivering s) {r : ResetRun} (hr : r ∈ s.runs) {timeout : ℕ}
    {event : α} {data : List (ℕ × α)} (hdata : s.map.data = (timeout, event) :: data)
    (hdue : timeout ≤ r.now) :
    Delivering { s with
      map := { s.map with data := data }
      log := s.log ++ [.passed r.id s.now timeout event] } where
  items := by
    have hitems := h.items
    rw [hdata] at hitems
    have hmiddle : (s.handlers.filterMap Handler.item ++ (timeout, event) :: data).Perm
        ((timeout, event) :: (s.handlers.filterMap Handler.item ++ data)) := List.perm_middle
    have hmoved := hitems.trans (hmiddle.append_left _)
    simpa [List.filterMap_cons, ServiceEntry.addedItem, ServiceEntry.passedItem] using hmoved
  sorted := (List.pairwise_cons.mp (hdata ▸ h.sorted)).2
  runs := h.runs
  due run time timeout' event' hmem := by
    rcases List.mem_append.mp hmem with hmem | hmem
    · exact h.due run time timeout' event' hmem
    · cases List.mem_singleton.mp hmem
      exact hdue.trans (h.runs r hr)
  order := by
    refine h.order.append fun run' time' timeout' event' heq before run time timeout'' event''
      between hlog hlt => ?_
    cases heq
    exact h.since before run time timeout'' event'' between hlog (timeout, event)
      (hdata ▸ List.mem_cons_self) hlt
  since before run time timeout' event' later hlog p hp hlt := by
    rcases append_split hlog with ⟨later', rfl, hlog'⟩ | ⟨-, heq, -⟩
    · exact List.mem_append_left _ (h.since before run time timeout' event' later' hlog' p
        (hdata ▸ List.mem_cons_of_mem _ hp) hlt)
    · cases heq
      exact absurd hlt ((List.pairwise_cons.mp (hdata ▸ h.sorted)).1 p hp).not_gt
  covered _ _ := .inl (List.ne_nil_of_mem hr)
  destroyed hend := by
    rw [(h.destroyed hend).1] at hdata
    cases hdata

theorem Delivering.endRun (h : Delivering s) (i : ℕ)
    (hdone : s.map.running = true → s.map.data = []) : Delivering (s.endRun i) :=
  ⟨h.items, h.sorted, fun r hr => h.runs r (List.mem_of_mem_eraseIdx hr), h.due, h.order, h.since,
    fun hrunning hne => absurd (hdone hrunning) hne, h.destroyed⟩

/-- The timer waits for the earliest event. -/
theorem Delivering.wait (h : Delivering s) {timeout : ℕ} {event : α} {data : List (ℕ × α)}
    (hdata : s.map.data = (timeout, event) :: data) (i : ℕ) :
    Delivering ({ s.cancelTimer with timer := some timeout }.endRun i) where
  items := by
    rw [TimedService.endRun, items_cancelTimer]
    exact h.items
  sorted := h.sorted
  runs r hr := h.runs r (List.mem_of_mem_eraseIdx hr)
  due := h.due
  order := h.order
  since := h.since
  covered _ _ := by
    refine .inr (.inr ⟨timeout, rfl, fun p hp => ?_⟩)
    obtain ⟨hfirst, -⟩ := List.pairwise_cons.mp (hdata ▸ h.sorted)
    have hp' : p ∈ (timeout, event) :: data := hdata ▸ hp
    rcases List.mem_cons.mp hp' with rfl | hp'
    · exact le_rfl
    · exact hfirst p hp'
  destroyed hend := by
    rw [(h.destroyed hend).1] at hdata
    cases hdata

theorem Delivering.advance (h : Delivering s) {i : ℕ} {r : ResetRun} (hr : s.runs[i]? = some r) :
    Delivering (s.advance i r) := by
  unfold TimedService.advance
  split_ifs with hrunning
  · split
    case h_1 hnone => exact h.endRun i fun _ => hnone
    case h_2 timeout event data hdata =>
      split_ifs with hdue
      · exact h.pass (List.mem_of_getElem? hr) hdata hdue
      · exact h.wait hdata i
  · exact h.endRun i fun hrunning' => absurd hrunning' hrunning

theorem Delivering.step {a : ServiceAct α} (h : Delivering s) (hstep : s.step a = some s') :
    Delivering s' := by
  cases a with
  | clock elapsed =>
    cases hstep
    exact h.clock elapsed
  | add timeoutTime event =>
    rw [TimedService.step] at hstep
    split_ifs at hstep with hdestroyed
    cases hstep
    exact h.add (Bool.eq_false_iff.mpr hdestroyed) timeoutTime event
  | cancelAll =>
    rw [TimedService.step] at hstep
    split_ifs at hstep
    cases hstep
    exact h.cancelAll
  | halt =>
    rw [TimedService.step] at hstep
    split_ifs at hstep
    cases hstep
    exact h.halt
  | destroy =>
    rw [TimedService.step] at hstep
    split_ifs at hstep
    cases hstep
    exact h.destroy
  | expire =>
    rw [TimedService.step] at hstep
    split_ifs at hstep
    cases hstep
    exact h.expire
  | begin i =>
    obtain ⟨handler, hhandler, rfl⟩ := Option.map_eq_some_iff.mp hstep
    exact h.runHandler hhandler
  | advance i =>
    obtain ⟨r, hr, rfl⟩ := Option.map_eq_some_iff.mp hstep
    exact h.advance hr

/-- The service after `Stop`, with a bound on what its handlers and runs still do. -/
structure Draining (destroyed : Bool) (n : ℕ) (s : TimedService α) : Prop where
  running : s.map.running = false
  data : s.map.data = []
  timer : s.timer = none
  destroyed : s.destroyed = destroyed
  bound : 2 * s.handlers.length + s.runs.length ≤ n

theorem Draining.next {destroyed : Bool} {n : ℕ} (h : Draining destroyed (n + 1) s) :
    ∃ a s', ServiceAct.isAdd a = false ∧ step s a = some s' ∧ Draining destroyed n s' := by
  obtain ⟨hrunning, hdata, htimer, hdestroyed, hbound⟩ := h
  cases hruns : s.runs with
  | cons r runs =>
    have hstep : step s (.advance 0) = some (s.endRun 0) := by
      simp [step, hruns, TimedService.advance, hrunning]
    refine ⟨.advance 0, _, rfl, hstep, hrunning, hdata, htimer, hdestroyed, ?_⟩
    rw [hruns, List.length_cons] at hbound
    simp only [endRun, hruns, List.eraseIdx_cons_zero]
    omega
  | nil =>
    rw [hruns, List.length_nil] at hbound
    cases hhandlers : s.handlers with
    | nil =>
      refine ⟨.clock 0, _, rfl, rfl, hrunning, hdata, htimer, hdestroyed, ?_⟩
      simp [hhandlers, hruns]
    | cons handler handlers =>
      rw [hhandlers, List.length_cons] at hbound
      have hstep : step s (.begin 0) = some ((s.dropHandler 0).runHandler handler) := by
        simp [step, hhandlers]
      refine ⟨.begin 0, _, rfl, hstep, ?_⟩
      have hreset : Draining destroyed n (s.dropHandler 0).beginReset := by
        refine ⟨hrunning, hdata, htimer, hdestroyed, ?_⟩
        simp only [TimedService.beginReset, TimedService.dropHandler, hhandlers, hruns,
          List.eraseIdx_cons_zero, List.nil_append, List.length_singleton]
        omega
      have hdrop : 2 * (s.dropHandler 0).handlers.length + (s.dropHandler 0).runs.length ≤ n := by
        simp only [TimedService.dropHandler, hhandlers, hruns, List.eraseIdx_cons_zero,
          List.length_nil]
        omega
      cases handler with
      | resetTimer => exact hreset
      | handleTimeout err =>
        cases err with
        | true => exact ⟨hrunning, hdata, htimer, hdestroyed, hdrop⟩
        | false => exact hreset
      | process timeout event => exact ⟨hrunning, hdata, htimer, hdestroyed, hdrop⟩

theorem Draining.drains {n : ℕ} {destroyed : Bool} (h : Draining destroyed n s) :
    ∃ acts s', (∀ a ∈ acts, ServiceAct.isAdd a = false) ∧ run step s acts = some s' ∧
      s'.Quiet ∧ s'.map.data = [] ∧ s'.destroyed = destroyed := by
  have hnext : ∀ n (s : TimedService α), Draining destroyed (n + 1) s →
      ∃ a s', ServiceAct.isAdd a = false ∧ step s a = some s' ∧ Draining destroyed n s' :=
    fun _ _ h => h.next
  obtain ⟨acts, s', hacts, hrun, hzero⟩ := exists_run_to_zero hnext h
  have hhandlers : s'.handlers = [] := List.length_eq_zero_iff.mp (by have := hzero.bound; omega)
  have hruns : s'.runs = [] := List.length_eq_zero_iff.mp (by have := hzero.bound; omega)
  exact ⟨acts, s', hacts, hrun, ⟨hhandlers, hruns, hzero.timer⟩, hzero.data, hzero.destroyed⟩

theorem Delivering.drains (h : Delivering s) : s.Drains := by
  cases hdestroyed : s.destroyed with
  | true =>
    obtain ⟨hdata, hrunning, htimer⟩ := h.destroyed hdestroyed
    have hdraining : Draining true (2 * s.handlers.length + s.runs.length) s :=
      ⟨hrunning, hdata, htimer, hdestroyed, le_rfl⟩
    obtain ⟨acts, s', hacts, hrun, hquiet, -, hend⟩ := hdraining.drains
    exact ⟨acts, s', hacts, hrun, hquiet, hend⟩
  | false =>
    have hdraining : Draining false _ s.halt.cancelAll := ⟨rfl, rfl, rfl, hdestroyed, le_rfl⟩
    obtain ⟨acts, s', hacts, hrun, ⟨hhandlers, hruns, htimer⟩, hdata, hend⟩ := hdraining.drains
    have hhalt : TimedService.step s .halt = some s.halt := by simp [TimedService.step, hdestroyed]
    have hcancel : TimedService.step s.halt .cancelAll = some s.halt.cancelAll := by
      simp [TimedService.step, TimedService.halt, hdestroyed]
    have hdestroy : TimedService.step s' .destroy = some s'.destroy := by
      simp [TimedService.step, unshared, hhandlers, hruns, htimer, hend]
    refine ⟨.halt :: .cancelAll :: (acts ++ [.destroy]), s'.destroy, ?_, ?_, ⟨?_, hruns, rfl⟩, rfl⟩
    · intro a ha
      simp only [List.mem_cons, List.mem_append, List.not_mem_nil, or_false] at ha
      rcases ha with rfl | rfl | ha | rfl
      · rfl
      · rfl
      · exact hacts a ha
      · rfl
    · refine run_cons.mpr ⟨_, hhalt, run_cons.mpr ⟨_, hcancel, run_append.mpr ⟨s', hrun, ?_⟩⟩⟩
      exact run_cons.mpr ⟨_, hdestroy, rfl⟩
    · simp [TimedService.destroy, TimedService.cancelAll, cancelTimer, TimedService.halt, hhandlers,
        htimer, hdata]

theorem Delivering.delivers (h : Delivering s) : Delivers s where
  once := h.items
  due := h.due
  order := h.order
  covered hrunning hdata hruns := by
    rcases h.covered hrunning hdata with hbusy | hcovered
    · exact absurd hruns hbusy
    · exact hcovered
  all hquiet hend := by
    obtain ⟨hhandlers, hruns, htimer⟩ := hquiet
    have hdata : s.map.data = [] := by
      rcases hend with hrunning | hdestroyed
      · by_contra hdata
        rcases h.covered hrunning hdata with hbusy | ⟨handler, hmem, -⟩ | ⟨expiry, hexpiry, -⟩
        · exact hbusy hruns
        · rw [hhandlers] at hmem
          cases hmem
        · rw [htimer] at hexpiry
          cases hexpiry
      · exact (h.destroyed hdestroyed).1
    simpa [hhandlers, hdata] using h.items
  drains := h.drains

end Invariant

/-! ### Runs -/

end TimedService

end MediafireSdk.Utils
