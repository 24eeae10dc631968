import MediafireSdk.Actions.WorkManager
import MediafireSdk.Lib.Words

/-! `GetForeignChangesDevice` (`get_foreign_changes_device_impl.hpp`): a coroutine that asks for
the changes of one window of revisions after the other. Windows end at multiples of 500;
revisions are `uint32_t`. -/

namespace MediafireSdk.Actions

open Words

structure File where
  quickkey : String
  deriving DecidableEq, Repr

structure Folder where
  folderkey : String
  deriving DecidableEq, Repr

/-- `error_code` and `error_string` of a response that has failed. -/
structure CallError where
  errorCode : ℤ
  errorString : Option String
  deriving DecidableEq, Repr

namespace ForeignChanges

/-- What `device/get_foreign_changes` answers. -/
structure Changes where
  deviceRevision : ℕ
  updatedFiles : List File := []
  updatedFolders : List Folder := []
  deletedFiles : List File := []
  deletedFolders : List Folder := []
  deriving DecidableEq, Repr

abbrev Response := Except CallError Changes

/-- The members of `GetForeignChangesDevice`, with the variables of its body. -/
structure GetForeignChangesDevice where
  latestDeviceRevision : ℕ := 2 ^ 32 - 1
  getForeignChangesErrors : List CallError := []
  updatedFiles : List File := []
  updatedFolders : List Folder := []
  deletedFiles : List File := []
  deletedFolders : List Folder := []
  cancelled : Bool := false
  startRevision : ℕ
  minRevision : ℕ
  maxRevision : ℕ

/-- The arguments of the callback. -/
structure Result where
  latestChangesRevision : ℕ
  updatedFiles : List File
  updatedFolders : List Folder
  deletedFiles : List File
  deletedFolders : List Folder
  getChangesErrors : List CallError

namespace GetForeignChangesDevice

/-- `HandleDeviceGetForeignChanges`. The trash among the folders is left out. -/
def handle (response : Response) (m : GetForeignChangesDevice) : GetForeignChangesDevice :=
  match response with
  | .error error => { m with getForeignChangesErrors := m.getForeignChangesErrors ++ [error] }
  | .ok changes =>
    { m with
      updatedFiles := m.updatedFiles ++ changes.updatedFiles
      updatedFolders := m.updatedFolders ++ changes.updatedFolders.filter (·.folderkey ≠ "trash")
      deletedFiles := m.deletedFiles ++ changes.deletedFiles
      deletedFolders := m.deletedFolders ++ changes.deletedFolders
      latestDeviceRevision := changes.deviceRevision }

def result (m : GetForeignChangesDevice) : Result where
  latestChangesRevision := m.startRevision
  updatedFiles := m.updatedFiles
  updatedFolders := m.updatedFolders
  deletedFiles := m.deletedFiles
  deletedFolders := m.deletedFolders
  getChangesErrors := m.getForeignChangesErrors

/-- `((min_revision / 500) + 1) * 500`. -/
def windowEnd (minRevision : ℕ) : ℕ := trunc 32 (trunc 32 (minRevision / 500 + 1) * 500)

def create (latestKnownRevision : ℕ) : GetForeignChangesDevice where
  startRevision := latestKnownRevision
  minRevision := trunc 32 (latestKnownRevision + 1)
  maxRevision := windowEnd (trunc 32 (latestKnownRevision + 1))

/-- The end of the body of the loop. -/
def nextWindow (m : GetForeignChangesDevice) : GetForeignChangesDevice :=
  { m with
    startRevision := m.maxRevision
    minRevision := trunc 32 (m.maxRevision + 1)
    maxRevision := windowEnd (trunc 32 (m.maxRevision + 1)) }

/-- The head of the loop: a request for `start_revision`, or the callback. -/
def loop (m : GetForeignChangesDevice) : GetForeignChangesDevice ⊕ Result :=
  if m.startRevision < m.latestDeviceRevision ∧ m.cancelled = false then .inl m else .inr m.result

end GetForeignChangesDevice

def getForeignChangesDevice :
    Coroutine ℕ GetForeignChangesDevice Response Result where
  start latestKnownRevision := (GetForeignChangesDevice.create latestKnownRevision).loop
  resume m response := some (m.handle response).nextWindow.loop

/-! ### The revision that is handed on -/

/-- The start of the window behind the one that starts at a revision. -/
def nextStart (startRevision : ℕ) : ℕ :=
  GetForeignChangesDevice.windowEnd (trunc 32 (startRevision + 1))

/-- The start revision of the last request that succeeded, and the device revision in its
answer. The first request is for `startRevision`. -/
def lastSuccess : (startRevision : ℕ) → List Response → Option (ℕ × ℕ)
  | _, [] => none
  | startRevision, response :: responses =>
    (lastSuccess (nextStart startRevision) responses).orElse fun _ =>
      match response with
      | .ok changes => some (startRevision, changes.deviceRevision)
      | .error _ => none

/-- The next multiple of 500, or what is left of it behind `2 ^ 32`. -/
theorem nextStart_eq (startRevision : ℕ) :
    nextStart startRevision =
      if (startRevision + 1) % 2 ^ 32 < 4294967000 then
        ((startRevision + 1) % 2 ^ 32 / 500 + 1) * 500
      else 204 := by
  simp only [nextStart, GetForeignChangesDevice.windowEnd, trunc]
  have hlt : (startRevision + 1) % 2 ^ 32 < 2 ^ 32 := Nat.mod_lt _ (by decide)
  generalize (startRevision + 1) % 2 ^ 32 = minRevision at hlt ⊢
  have hwindow : (minRevision / 500 + 1) % 2 ^ 32 = minRevision / 500 + 1 :=
    Nat.mod_eq_of_lt (by omega)
  rw [hwindow]
  split_ifs with hinside
  · exact Nat.mod_eq_of_lt (by omega)
  · have hlast : minRevision / 500 = 8589934 := by omega
    rw [hlast]
    norm_num

theorem nextStart_cases (startRevision : ℕ) :
    nextStart startRevision % 500 = 0 ∨ nextStart startRevision = 204 := by
  rw [nextStart_eq]
  split_ifs
  · exact .inl (Nat.mul_mod_left _ _)
  · exact .inr rfl

theorem nextStart_le_iff {startRevision latest : ℕ} (hlt : startRevision < latest)
    (hstart : startRevision % 500 = 0 ∨ startRevision = 204) :
    nextStart startRevision ≤ latest ∧ (nextStart startRevision = latest ∨ 500 ∣ latest) ↔
      500 ∣ latest := by
  rw [nextStart_eq]
  have hmod : (startRevision + 1) % 2 ^ 32 ≤ startRevision + 1 := Nat.mod_le _ _
  split_ifs with hinside
  · have hend : ((startRevision + 1) % 2 ^ 32 / 500 + 1) * 500 ≤ startRevision + 500 := by omega
    omega
  · omega

namespace GetForeignChangesDevice

/-- The variables of the body belong together. -/
structure Aligned (m : GetForeignChangesDevice) : Prop where
  uncancelled : m.cancelled = false
  max : m.maxRevision = nextStart m.startRevision

theorem aligned_create (latestKnownRevision : ℕ) : (create latestKnownRevision).Aligned :=
  ⟨rfl, rfl⟩

theorem Aligned.handle {m : GetForeignChangesDevice} (h : m.Aligned) (response : Response) :
    ((m.handle response).nextWindow).Aligned := by
  cases response with
  | error error => exact ⟨h.uncancelled, rfl⟩
  | ok changes => exact ⟨h.uncancelled, rfl⟩

theorem Aligned.startRevision {m : GetForeignChangesDevice} (h : m.Aligned)
    (response : Response) :
    (m.handle response).nextWindow.startRevision = nextStart m.startRevision := by
  cases response with
  | error error => exact h.max
  | ok changes => exact h.max

end GetForeignChangesDevice

open GetForeignChangesDevice

/-- With requests that fail from now on, the loop stops at the first start of a window from the
latest device revision on. -/
theorem revision_le_iff_of_errors {m : GetForeignChangesDevice} {responses : List Response}
    {result : Result} (hm : m.Aligned)
    (hstart : m.startRevision % 500 = 0 ∨ m.startRevision = 204)
    (hnone : lastSuccess m.startRevision responses = none)
    (hrun : getForeignChangesDevice.goOn m.loop responses = some (.inr result)) :
    result.latestChangesRevision ≤ m.latestDeviceRevision ↔
      m.startRevision ≤ m.latestDeviceRevision ∧
        (m.startRevision = m.latestDeviceRevision ∨ 500 ∣ m.latestDeviceRevision) := by
  induction responses generalizing m with
  | nil =>
    simp only [Coroutine.goOn_nil, Option.some.injEq, loop] at hrun
    split_ifs at hrun with hloop
    cases hrun
    have hle : ¬ m.startRevision < m.latestDeviceRevision := fun hlt =>
      hloop ⟨hlt, hm.uncancelled⟩
    simp only [GetForeignChangesDevice.result]
    omega
  | cons response responses ih =>
    rw [loop] at hrun
    split_ifs at hrun with hloop
    · obtain ⟨hrest, herror⟩ : lastSuccess (nextStart m.startRevision) responses = none ∧
          ∃ error, response = .error error := by
        cases response with
        | error error => exact ⟨by simpa [lastSuccess] using hnone, error, rfl⟩
        | ok changes => simp [lastSuccess] at hnone
      obtain ⟨error, rfl⟩ := herror
      have hnext := hm.startRevision (.error error)
      have hle := ih (hm.handle _) (hnext ▸ nextStart_cases _) (hnext ▸ hrest) hrun
      rw [hnext, show ((m.handle (.error error)).nextWindow).latestDeviceRevision =
        m.latestDeviceRevision from rfl] at hle
      rw [hle, nextStart_le_iff hloop.1 hstart]
      have := hloop.1
      omega
    · cases hrun

theorem goOn_revision_le_iff {m : GetForeignChangesDevice} {responses : List Response}
    {result : Result} {startRevision deviceRevision : ℕ} (hm : m.Aligned)
    (hlast : lastSuccess m.startRevision responses = some (startRevision, deviceRevision))
    (hrun : getForeignChangesDevice.goOn m.loop responses = some (.inr result)) :
    result.latestChangesRevision ≤ deviceRevision ↔
      nextStart startRevision ≤ deviceRevision ∧
        (nextStart startRevision = deviceRevision ∨ 500 ∣ deviceRevision) := by
  induction responses generalizing m with
  | nil => cases hlast
  | cons response responses ih =>
    rw [loop] at hrun
    split_ifs at hrun with hloop
    · have hnext := hm.startRevision response
      cases hrest : lastSuccess (nextStart m.startRevision) responses with
      | some last =>
        have hsame : lastSuccess m.startRevision (response :: responses) = some last := by
          simp [lastSuccess, hrest]
        exact ih (hm.handle response) (by rw [hnext, hrest, ← hsame, hlast]) hrun
      | none =>
        cases response with
        | error error => simp [lastSuccess, hrest] at hlast
        | ok changes =>
          simp only [lastSuccess, hrest, Option.orElse_none, Option.some.injEq,
            Prod.mk.injEq] at hlast
          obtain ⟨rfl, rfl⟩ := hlast
          have hiff := revision_le_iff_of_errors (hm.handle _) (hnext ▸ nextStart_cases _)
            (hnext ▸ hrest) hrun
          rwa [hnext] at hiff
    · cases hrun

end ForeignChanges

end MediafireSdk.Actions
