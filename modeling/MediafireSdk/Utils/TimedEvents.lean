import Mathlib.Tactic

/-! `TimedEvents` (`timed_events.hpp`): events in the order of their due times, those of
one time in the order they were added. Stopping hands every event to the processor with
an error, which the processors of the session maintainer ignore; later events stay in
the map for good. -/

namespace MediafireSdk.Utils

structure TimedEvents (α : Type) where
  running : Bool := true
  data : List (ℕ × α) := []
  deriving DecidableEq, Repr

namespace TimedEvents

variable {α : Type} (t : TimedEvents α)

def add (timeoutTime : ℕ) (event : α) : TimedEvents α :=
  { t with data := t.data.takeWhile (·.1 ≤ timeoutTime) ++
      (timeoutTime, event) :: t.data.dropWhile (·.1 ≤ timeoutTime) }

def stop (_ : TimedEvents α) : TimedEvents α := { running := false, data := [] }

/-- The event that `ResetTimer` processes next, and the others. -/
def next (now : ℕ) : Option (α × TimedEvents α) :=
  match t.data with
  | [] => none
  | (timeout, event) :: data =>
    if t.running = true ∧ timeout ≤ now then some (event, { t with data := data }) else none

def events : List α := t.data.map Prod.snd

/-- The number of actions yet to be processed. -/
def size : ℕ := t.data.length

@[simp] theorem events_stop : t.stop.events = [] := rfl

theorem mem_data_add {timeoutTime : ℕ} {event : α} :
    (timeoutTime, event) ∈ (t.add timeoutTime event).data := by
  simp [add]

theorem mem_data_add_of_mem {timeoutTime : ℕ} {event : α} {p : ℕ × α} (h : p ∈ t.data) :
    p ∈ (t.add timeoutTime event).data := by
  have hsplit : t.data.takeWhile (·.1 ≤ timeoutTime) ++ t.data.dropWhile (·.1 ≤ timeoutTime) =
      t.data := List.takeWhile_append_dropWhile
  rw [← hsplit] at h
  simp only [add, List.mem_append, List.mem_cons] at h ⊢
  tauto

theorem count_events_add [DecidableEq α] {timeoutTime : ℕ} {event : α} (e : α) :
    (t.add timeoutTime event).events.count e =
      t.events.count e + if event = e then 1 else 0 := by
  have hsplit : t.data.takeWhile (·.1 ≤ timeoutTime) ++ t.data.dropWhile (·.1 ≤ timeoutTime) =
      t.data := List.takeWhile_append_dropWhile
  unfold events
  conv_rhs => rw [← hsplit]
  simp only [add, List.map_append, List.map_cons, List.count_append, List.count_cons, beq_iff_eq]
  omega

variable {t}

theorem data_of_next {now : ℕ} {event : α} {rest : TimedEvents α}
    (h : t.next now = some (event, rest)) :
    ∃ time, t.data = (time, event) :: rest.data ∧ time ≤ now := by
  unfold next at h
  split at h
  · cases h
  · rename_i timeout e data hdata
    split_ifs at h with hdue
    cases h
    exact ⟨timeout, hdata, hdue.2⟩

theorem events_of_next {now : ℕ} {event : α} {rest : TimedEvents α}
    (h : t.next now = some (event, rest)) : t.events = event :: rest.events := by
  unfold next at h
  split at h
  · cases h
  · rename_i timeout e data hdata
    split_ifs at h
    cases h
    rw [events, hdata]
    rfl

end TimedEvents

end MediafireSdk.Utils
