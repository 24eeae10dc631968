import MediafireSdk.Uploader.Upload

/-! Which errors end an upload. An `event::Error` handled in a state that has a
row for it moves the machine to `CompleteWithError` with the code of the error.
Every state that is not terminal has such a row except `SetupHasher` and
`Hashing`, whose only error row is for `hash_event::Error`: an error handled
there goes to `no_transition` and the upload continues. -/

namespace MediafireSdk.Uploader.Upload

open Runs

/-- If the step handles an error in a state that is not terminal, the machine ends with it. -/
def AcceptsError (u : Upload) (act : Act) (u' : Upload) : Prop :=
  ∀ ec description, u.handled act = some (.error ec description) →
    u.machine.state.isTerminal = false →
      u'.machine.state = .completeWithError ∧
      ∃ effects, u'.log = u.log ++ effects ∧
        (∃ hash, .sendStatus (.error ec description hash) ∈ effects) ∧
        ∀ s e, .noTransition s e ∉ effects

/-- The step handles no error while the file is set up for hashing or hashed. -/
def NoErrorWhileHashing (u : Upload) (act : Act) (_ : Upload) : Prop :=
  ∀ ec description, u.handled act = some (.error ec description) →
    u.machine.state ≠ .setupHasher ∧ u.machine.state ≠ .hashing

/-- The rows for `event::Error`. -/
theorem transitionTable_error {s : State} (ec : ErrorCode) (description : String) (hasHash : Bool)
    (hterm : s.isTerminal = false) (hsetup : s ≠ .setupHasher) (hhash : s ≠ .hashing) :
    transitionTable s (.error ec description) hasHash = some (.completeWithError, .none) := by
  cases s <;> first | rfl | contradiction

/-- A row for an error sends the error and skips nothing. -/
theorem fire_error {w : World} {m : UploadStateMachine} {ec : ErrorCode} {description : String}
    (h : transitionTable m.state (.error ec description) (m.hash ≠ "") =
      some (.completeWithError, .none)) :
    (∃ hash, .sendStatus (.error ec description hash) ∈ m.fire w (.error ec description)) ∧
      ∀ s e, .noTransition s e ∉ m.fire w (.error ec description) := by
  rw [UploadStateMachine.fire_row h]
  refine ⟨⟨_, List.mem_append_left _ (List.mem_append_right _
    (List.mem_append_right _ List.mem_cons_self))⟩, fun s e hmem => ?_⟩
  · rcases List.mem_append.mp hmem with hmem | hmem
    · rcases List.mem_append.mp hmem with hmem | hmem
      · rcases List.mem_append.mp hmem with hmem | hmem
        · cases fromExit_onExit hmem
        · cases fromAction_effects hmem
      · cases fromEntry_onEntry hmem
    · cases List.mem_singleton.mp hmem

theorem acceptsError_iff_step {u u' : Upload} {act : Act} (h : u.step act = some u') :
    AcceptsError u act u' ↔ NoErrorWhileHashing u act u' := by
  constructor
  · intro haccept ec description hact
    obtain ⟨w, _, -, hexec⟩ := executes_fire h hact
    have hstuck : u.machine.state.isTerminal = false →
        transitionTable u.machine.state (.error ec description) (u.machine.hash ≠ "") = none →
          False := by
      intro hterm hnone
      obtain ⟨-, effects, hlog, -, hskip⟩ := haccept ec description hact hterm
      rw [hexec.log, UploadStateMachine.fire_noTransition hterm hnone] at hlog
      exact hskip _ _ (List.append_cancel_left hlog ▸ List.mem_singleton_self _)
    constructor <;> intro hs <;> exact hstuck (by rw [hs]; rfl) (by rw [hs]; rfl)
  · intro hnone ec description hact hterm
    obtain ⟨w, _, -, hexec⟩ := executes_fire h hact
    obtain ⟨hsetup, hhash⟩ := hnone ec description hact
    have hrow := transitionTable_error ec description (u.machine.hash ≠ "") hterm hsetup hhash
    obtain ⟨hstatus, hskip⟩ := fire_error (w := w) hrow
    refine ⟨?_, _, hexec.log, hstatus, hskip⟩
    rw [hexec.machine]
    exact UploadStateMachine.applyAll_fire_row_state hrow

/-- In a run of an upload every error is accepted exactly when none is handled in `SetupHasher`
or `Hashing`. -/
theorem along_acceptsError_iff (pathFilename : String) (cloudFileName : Option String)
    (onDuplicateAction : OnDuplicateAction) (acts : List Act) :
    Along step AcceptsError (create pathFilename cloudFileName onDuplicateAction) acts ↔
      Along step NoErrorWhileHashing (create pathFilename cloudFileName onDuplicateAction) acts :=
  along_iff (I := fun _ => True) (fun _ _ _ _ h => acceptsError_iff_step h)
    (fun _ _ _ _ _ _ => trivial) trivial

/-- A cancellation is handled between `StartHash` and the event that `SetupHasher` raises: it was
on the strand before that event. -/
theorem not_along_acceptsError_cancel : ¬ ∀ pathFilename cloudFileName onDuplicateAction acts,
    Along step AcceptsError (create pathFilename cloudFileName onDuplicateAction) acts := by
  intro h
  let cancel : Event := .error (.upload .cancelled) "Cancellation requested"
  let before : List Act :=
    [.arrive .start, .deliver 0 smallFile fun _ => false, .arrive .startHash, .arrive cancel,
      .deliver 0 smallFile fun _ => false]
  let handleCancel : Act := .deliver 0 smallFile fun _ => false
  have hcompute : (run step (create "file" none .fail) before).map (fun u =>
      (u.machine.state, u.handled handleCancel, (u.step handleCancel).isSome)) =
        some (.setupHasher, some cancel, true) := by decide +kernel
  obtain ⟨u, hrun, hu⟩ := Option.map_eq_some_iff.mp hcompute
  obtain ⟨hstate, hhandled, hsome⟩ : _ ∧ _ ∧ _ := by simpa only [Prod.mk.injEq] using hu
  obtain ⟨u', hstep⟩ := Option.isSome_iff_exists.mp hsome
  have haccept := (h "file" none .fail (before ++ [handleCancel])).step_after hrun hstep
  exact ((acceptsError_iff_step hstep).mp haccept _ _ hhandled).1 hstate

end MediafireSdk.Uploader.Upload
