import MediafireSdk.Actions.WorkManager

/-! Every run of a parent and its coroutines ends. The effort of a state counts what has happened
in it, and each step adds to it as long as the parent queues something whenever it executes work.
A state without a next step is one where the parent has called back. -/

namespace MediafireSdk.Actions

open Runs

variable {ω ρ α β π : Type*}

/-- A rank that the parent raises whenever it executes work. -/
structure Ranked (body : Body ω β π) (rank : π → ℕ) : Prop where
  next : ∀ {parent tasks parent' executes}, body.next parent = (tasks, parent', executes) →
    rank parent + (if executes = true then 1 else 0) ≤ rank parent'
  handle : ∀ task result parent, rank parent ≤ rank (body.handle task result parent)

namespace System

/-- The answers that coroutines have got. -/
def answered (s : System ω ρ α β π) : ℕ :=
  (s.done.map fun ended => ended.answers.length).sum +
    (s.active.map fun waiting => waiting.answers.length).sum

def begun : Control → ℕ
  | .idle => 0
  | _ => 1

theorem begun_le_one (control : Control) : begun control ≤ 1 := by
  cases control <;> simp [begun]

theorem begun_of_ne {control : Control} (h : control ≠ .idle) : begun control = 1 := by
  cases control <;> first | rfl | exact absurd rfl h

def effort (rank : π → ℕ) (s : System ω ρ α β π) : ℕ :=
  begun s.control + rank s.parent + s.called.length + s.done.length +
    s.active.length + s.answered

variable {body : Body ω β π} {coroutine : Coroutine ω ρ α β} {rank : π → ℕ}
  {P : π → List (Done ω α β) → List ω → Prop} {s s' : System ω ρ α β π}

theorem executeWork_effort (rank : π → ℕ) (yields : ℕ) (caller : Option ℕ)
    (s : System ω ρ α β π) : (executeWork yields caller s).effort rank =
      1 + rank s.parent + s.called.length + s.done.length + s.active.length + s.answered := by
  have h := executeWork_executed yields caller s
  have hcontrol : (executeWork yields caller s).control ≠ .idle := by
    rcases executeWork_control yields caller s with heq | ⟨_, _, heq⟩ <;> rw [heq] <;> nofun
  rw [effort, begun_of_ne hcontrol, answered, h.parent, h.called, h.done, h.active]
  rfl

theorem proceed_effort (hrank : Ranked body rank) {caller : Option ℕ}
    (hcontrol : s.control = .running caller) :
    s.effort rank < (proceed body caller s).effort rank := by
  obtain ⟨⟨tasks, parent, executes⟩, hnext⟩ : ∃ next, body.next s.parent = next := ⟨_, rfl⟩
  have hraised := hrank.next hnext
  have hbefore : s.control ≠ .idle := by rw [hcontrol]; nofun
  rw [effort, begun_of_ne hbefore]
  simp only [proceed, hnext]
  cases executes with
  | true =>
    rw [if_pos rfl] at hraised ⊢
    rw [executeWork_effort]
    simp only [queueWork, answered]
    omega
  | false =>
    rw [if_neg (by simp)] at hraised ⊢
    simp only [effort, complete_control, complete_parent, complete_called, complete_done,
      complete_active, queueWork, answered, begun, List.length_append, List.length_singleton]
    omega

theorem callback_effort (hrank : Ranked body rank) (work : Work ω) (answers : List α) (result : β)
    (s : System ω ρ α β π) :
    s.effort rank + answers.length < (callback body work answers result s).effort rank := by
  have hraised := hrank.handle work.task result s.parent
  have hbefore : s.effort rank ≤ 1 + rank s.parent + s.called.length + s.done.length +
      s.active.length + s.answered := by
    have hone := begun_le_one s.control
    unfold effort
    omega
  have hafter : (callback body work answers result s).effort rank =
      1 + rank (body.handle work.task result s.parent) + s.called.length + (s.done.length + 1) +
        s.active.length + (s.answered + answers.length) := by
    have hanswered : ((s.done ++ [Done.mk work.task answers result]).map fun ended =>
        ended.answers.length).sum + (s.active.map fun waiting => waiting.answers.length).sum =
        s.answered + answers.length := by
      rw [List.map_append, List.sum_append, answered]
      simp only [List.map_cons, List.map_nil, List.sum_singleton]
      omega
    simp only [callback]
    split
    · split_ifs
      · simp only [effort, begun, List.length_append, List.length_singleton]
        rw [answered, hanswered]
      · rw [executeWork_effort, answered, hanswered]
        simp only [List.length_append, List.length_singleton]
    · simp only [effort, begun, List.length_append, List.length_singleton]
      rw [answered, hanswered]
  rw [hafter]
  omega

theorem advance_effort (hrank : Ranked body rank) (work : Work ω) (answers : List α)
    (outcome : ρ ⊕ β) (s : System ω ρ α β π) :
    s.effort rank + answers.length < (advance body work answers outcome s).effort rank := by
  cases outcome with
  | inr result => exact callback_effort hrank work answers result s
  | inl frame =>
    simp only [advance, effort, answered, List.length_append, List.length_singleton,
      List.map_append, List.sum_append, List.map_cons, List.map_nil, List.sum_singleton]
    omega

theorem step_effort (hrank : Ranked body rank) {event : Event α}
    (hstep : step body coroutine s event = some s') : s.effort rank < s'.effort rank := by
  cases event with
  | start =>
    simp only [step] at hstep
    split_ifs at hstep with hidle
    cases hstep
    simp only [effort, hidle, begun, answered]
    omega
  | proceed =>
    simp only [step] at hstep
    split at hstep
    · next caller hcontrol =>
      cases hstep
      exact proceed_effort hrank hcontrol
    · cases hstep
  | startPosted index =>
    simp only [step] at hstep
    split at hstep
    · cases hstep
    · obtain ⟨work, -, rfl⟩ := Option.map_eq_some_iff.mp hstep
      have hposted : s.effort rank = ({ s with posted := s.posted.eraseIdx index } :
          System ω ρ α β π).effort rank + ([] : List α).length := rfl
      exact lt_of_eq_of_lt hposted (advance_effort hrank _ _ _ _)
  | respond index answer =>
    simp only [step] at hstep
    split at hstep
    · cases hstep
    · obtain ⟨waiting, hwaiting, hresume⟩ := Option.bind_eq_some_iff.mp hstep
      obtain ⟨outcome, -, rfl⟩ := Option.map_eq_some_iff.mp hresume
      obtain ⟨hlt, hget⟩ := List.getElem?_eq_some_iff.mp hwaiting
      -- What the coroutine leaves behind where it waited, it takes with it.
      have hperm : (waiting :: s.active.eraseIdx index).Perm s.active :=
        hget ▸ List.getElem_cons_eraseIdx_perm hlt
      have hlength := hperm.length_eq
      have hsum := (hperm.map fun waiting => waiting.answers.length).sum_eq
      rw [List.length_cons] at hlength
      rw [List.map_cons, List.sum_cons] at hsum
      have hleaves : s.effort rank = ({ s with active := s.active.eraseIdx index } :
          System ω ρ α β π).effort rank + (waiting.answers ++ [answer]).length := by
        simp only [effort, answered, List.length_append, List.length_singleton]
        omega
      exact lt_of_eq_of_lt hleaves (advance_effort hrank _ _ _ _)

/-- A state without a next step: the parent has called back once. -/
theorem Sound.finished_of_quiet (h : Sound body coroutine P s)
    (hwaits : ∀ waiting ∈ s.active, ∃ answer outcome,
      coroutine.resume waiting.frame answer = some outcome)
    (hquiet : ∀ event, System.step body coroutine s event = none) : s.control = .finished := by
  have hscheduled := h.scheduled
  cases hcontrol : s.control with
  | idle => simpa [System.step, hcontrol] using hquiet .start
  | running caller => simpa [System.step, hcontrol] using hquiet .proceed
  | finished => rfl
  | crashed => simp [Scheduled, hcontrol] at hscheduled
  | executing yields queueMoreWork =>
    exfalso
    simp only [Scheduled, hcontrol] at hscheduled
    have hlength := hscheduled.1
    rw [outstanding, List.length_append, List.length_map] at hlength
    cases hposted : s.posted with
    | cons work rest => simpa [System.step, hcontrol, hposted] using hquiet (.startPosted 0)
    | nil =>
      cases hactive : s.active with
      | nil => simp [hposted, hactive] at hlength
      | cons waiting rest =>
        obtain ⟨answer, outcome, hresume⟩ := hwaits waiting (hactive ▸ List.mem_cons_self)
        simpa [System.step, hcontrol, hactive, hresume] using hquiet (.respond 0 answer)

theorem Sound.called_ne_nil_of_quiet (h : Sound body coroutine P s)
    (hwaits : ∀ waiting ∈ s.active, ∃ answer outcome,
      coroutine.resume waiting.frame answer = some outcome)
    (hquiet : ∀ event, System.step body coroutine s event = none) : s.called ≠ [] := by
  obtain ⟨-, -, -, -, hparent⟩ := h.finished (h.finished_of_quiet hwaits hquiet)
  rw [hparent]
  exact List.cons_ne_nil _ _

end System

end MediafireSdk.Actions
