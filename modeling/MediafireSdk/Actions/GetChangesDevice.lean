import MediafireSdk.Actions.ForeignChanges
import MediafireSdk.Lib.Ranges

/-! `GetChangesDevice` (`get_changes_device_impl.hpp`): a coroutine that asks for the latest
revision of the device and then for the changes of one window of revisions after the other. The
windows are computed as in `GetForeignChangesDevice`. -/

namespace MediafireSdk.Actions.ChangesDevice

open Ranges Words ForeignChanges

/-- What `device/get_changes` answers. -/
structure Changes where
  updatedFiles : List File := []
  updatedFolders : List Folder := []
  deletedFiles : List File := []
  deletedFolders : List Folder := []
  deriving DecidableEq, Repr

/-- The answer of `device/get_status`, which is the latest revision, or of `device/get_changes`. -/
inductive Answer where
  | status (response : Except CallError ℕ)
  | changes (response : Except CallError Changes)

structure DeviceGetStatusError where
  errorCode : ℤ
  errorString : String
  deriving DecidableEq, Repr

structure DeviceGetChangesError where
  startRevision : ℕ
  errorCode : ℤ
  errorString : String
  deriving DecidableEq, Repr

/-- The members of `GetChangesDevice`. Nothing initializes `latestDeviceRevision`. -/
structure GetChangesDevice where
  latestKnownRevision : ℕ
  latestDeviceRevision : ℕ
  getStatusErrors : List DeviceGetStatusError := []
  getChangesErrors : List DeviceGetChangesError := []
  updatedFiles : List File := []
  updatedFolders : List Folder := []
  deletedFiles : List File := []
  deletedFolders : List Folder := []
  cancelled : Bool := false

/-- Where the body is suspended, with its variables. -/
inductive Frame where
  | status (m : GetChangesDevice)
  | changes (m : GetChangesDevice) (startRevision maxRevision : ℕ)

/-- The arguments of the callback. -/
structure Result where
  latestDeviceRevision : ℕ
  updatedFiles : List File
  updatedFolders : List Folder
  deletedFiles : List File
  deletedFolders : List Folder
  getStatusErrors : List DeviceGetStatusError
  getChangesErrors : List DeviceGetChangesError
  deriving DecidableEq, Repr

namespace GetChangesDevice

def create (latestKnownRevision latestDeviceRevision : ℕ) : GetChangesDevice where
  latestKnownRevision
  latestDeviceRevision

/-- `HandleDeviceGetStatus`. -/
def handleStatus (response : Except CallError ℕ) (m : GetChangesDevice) : GetChangesDevice :=
  match response with
  | .error error =>
    { m with
      getStatusErrors := m.getStatusErrors ++
        [⟨error.errorCode, error.errorString.getD "No error string provided"⟩] }
  | .ok deviceRevision => { m with latestDeviceRevision := deviceRevision }

/-- `HandleDeviceGetChanges`. -/
def handleChanges (startRevision : ℕ) (response : Except CallError Changes)
    (m : GetChangesDevice) : GetChangesDevice :=
  match response with
  | .error error =>
    { m with
      getChangesErrors := m.getChangesErrors ++
        [⟨startRevision, error.errorCode,
          error.errorString.getD "No error string provided "⟩] }
  | .ok changes =>
    { m with
      updatedFiles := m.updatedFiles ++ changes.updatedFiles
      updatedFolders := m.updatedFolders ++ changes.updatedFolders
      deletedFiles := m.deletedFiles ++ changes.deletedFiles
      deletedFolders := m.deletedFolders ++ changes.deletedFolders }

def result (m : GetChangesDevice) : Result where
  latestDeviceRevision := m.latestDeviceRevision
  updatedFiles := m.updatedFiles
  updatedFolders := m.updatedFolders
  deletedFiles := m.deletedFiles
  deletedFolders := m.deletedFolders
  getStatusErrors := m.getStatusErrors
  getChangesErrors := m.getChangesErrors

/-- `((min_revision / 500) + 1) * 500` with `start_revision + 1` for `min_revision`. -/
def maxRevision (startRevision : ℕ) : ℕ :=
  GetForeignChangesDevice.windowEnd (trunc 32 (startRevision + 1))

/-- The head of the loop: a request for `startRevision`, or the callback. -/
def loop (startRevision : ℕ) (m : GetChangesDevice) : Frame ⊕ Result :=
  if startRevision < m.latestDeviceRevision ∧ m.cancelled = false then
    .inl (.changes m startRevision (maxRevision startRevision))
  else .inr m.result

end GetChangesDevice

/-- The task is the latest known revision and what is in the memory of
`latest_device_revision_`. -/
def getChangesDevice : Coroutine (ℕ × ℕ) Frame Answer Result where
  start task := .inl (.status (.create task.1 task.2))
  resume
    | .status m, .status response =>
      let m := m.handleStatus response
      some (m.loop m.latestKnownRevision)
    | .changes m startRevision maxRevision, .changes response =>
      some ((m.handleChanges startRevision response).loop maxRevision)
    | _, _ => none

/-! ### Windows -/

/-- The windows `(start_revision, max_revision)` of the requests that the coroutine makes while it
gets some answers, and what it calls back with when it has got all of them. -/
def exchange : Frame ⊕ Result → List Answer → List Range × Option Result
  | .inr result, [] => ([], some result)
  | .inr _, _ :: _ => ([], none)
  | .inl _, [] => ([], none)
  | .inl frame, answer :: answers =>
    match getChangesDevice.resume frame answer with
    | none => ([], none)
    | some outcome =>
      match frame with
      | .status _ => exchange outcome answers
      | .changes _ startRevision maxRevision =>
        ((startRevision, maxRevision) :: (exchange outcome answers).1, (exchange outcome answers).2)

/-- The items of a response; one that has failed has none. -/
def items : Except CallError Changes → Changes
  | .ok changes => changes
  | .error _ => {}

/-- The error of a failed request, with its start revision. -/
def failure (request : Range × Except CallError Changes) : Option DeviceGetChangesError :=
  match request.2 with
  | .ok _ => none
  | .error error =>
    some ⟨request.1.1, error.errorCode, error.errorString.getD "No error string provided "⟩

/-- What the callback gets: the items of all responses, and one error for each that has failed. -/
def gathered (latest : ℕ) (windows : List Range) (responses : List (Except CallError Changes)) :
    Result where
  latestDeviceRevision := latest
  updatedFiles := responses.flatMap fun response => (items response).updatedFiles
  updatedFolders := responses.flatMap fun response => (items response).updatedFolders
  deletedFiles := responses.flatMap fun response => (items response).deletedFiles
  deletedFolders := responses.flatMap fun response => (items response).deletedFolders
  getStatusErrors := []
  getChangesErrors := (windows.zip responses).filterMap failure

/-- Windows of at most 500 revisions that cover all from behind `known` up to `latest`, and nothing
else is asked for, whatever is answered. -/
structure TiledBy (known latest : ℕ) (windows : List Range) (stop : ℕ) : Prop where
  tiles : Tiles known stop windows
  covers : latest ≤ stop
  needed : ∀ window ∈ windows, window.1 < latest
  aligned : ∀ window ∈ windows.tail, 500 ∣ window.1
  short : ∀ window ∈ windows, window.2 - window.1 ≤ 500
  exchanged : ∀ prior (responses : List (Except CallError Changes)),
    responses.length = windows.length →
      exchange (getChangesDevice.start (known, prior))
        (.status (.ok latest) :: responses.map .changes) =
          (windows, some (gathered latest windows responses))

def TilesMissing (known latest : ℕ) : Prop := ∃ windows stop, TiledBy known latest windows stop

/-- The windows of the loop from a start revision on. -/
def Asked (latest : ℕ) : ℕ → List Range → Prop
  | startRevision, [] => latest ≤ startRevision
  | startRevision, window :: windows =>
    startRevision < latest ∧ window = (startRevision, nextStart startRevision) ∧
      Asked latest (nextStart startRevision) windows

namespace GetChangesDevice

/-- The members behind requests and their responses. -/
def extend (windows : List Range) (responses : List (Except CallError Changes))
    (m : GetChangesDevice) : GetChangesDevice :=
  { m with
    getChangesErrors := m.getChangesErrors ++ (windows.zip responses).filterMap failure
    updatedFiles := m.updatedFiles ++ responses.flatMap fun r => (items r).updatedFiles
    updatedFolders := m.updatedFolders ++ responses.flatMap fun r => (items r).updatedFolders
    deletedFiles := m.deletedFiles ++ responses.flatMap fun r => (items r).deletedFiles
    deletedFolders := m.deletedFolders ++ responses.flatMap fun r => (items r).deletedFolders }

theorem extend_nil (m : GetChangesDevice) : m.extend [] [] = m := by simp [extend]

theorem extend_cons (m : GetChangesDevice) (window : Range) (windows : List Range)
    (response : Except CallError Changes) (responses : List (Except CallError Changes)) :
    m.extend (window :: windows) (response :: responses) =
      (m.handleChanges window.1 response).extend windows responses := by
  cases response <;> simp [extend, handleChanges, items, failure, List.filterMap_cons]

theorem handleChanges_kept (m : GetChangesDevice) (startRevision : ℕ)
    (response : Except CallError Changes) :
    (m.handleChanges startRevision response).latestDeviceRevision = m.latestDeviceRevision ∧
      (m.handleChanges startRevision response).cancelled = m.cancelled := by
  cases response <;> exact ⟨rfl, rfl⟩

/-- The loop asks for its windows and gathers what it gets. -/
theorem exchange_loop {m : GetChangesDevice} {startRevision : ℕ} {windows : List Range}
    {responses : List (Except CallError Changes)} (hcancelled : m.cancelled = false)
    (hasked : Asked m.latestDeviceRevision startRevision windows)
    (hlength : responses.length = windows.length) :
    exchange (m.loop startRevision) (responses.map .changes) =
      (windows, some (m.extend windows responses).result) := by
  induction windows generalizing m startRevision responses with
  | nil =>
    rw [List.eq_nil_of_length_eq_zero hlength, loop, if_neg fun h => not_le.mpr h.1 hasked,
      extend_nil]
    rfl
  | cons window windows ih =>
    obtain ⟨hlt, rfl, hasked⟩ := hasked
    obtain ⟨response, responses, rfl⟩ := List.exists_cons_of_length_eq_add_one hlength
    obtain ⟨hlatest, hsame⟩ := m.handleChanges_kept startRevision response
    have hrest := ih (hsame.trans hcancelled) (hlatest ▸ hasked) (Nat.succ.inj hlength)
    rw [loop, if_pos ⟨hlt, hcancelled⟩, extend_cons]
    show (_ :: (exchange ((m.handleChanges startRevision response).loop (nextStart startRevision))
      (responses.map .changes)).1, _) = _
    rw [hrest]
    exact congrArg (_, ·) (congrArg Prod.snd hrest)

/-- Every window ends where the next one starts. -/
theorem window_eq_of_exchange {m : GetChangesDevice} {startRevision : ℕ} {answers : List Answer}
    {window : Range} (h : window ∈ (exchange (m.loop startRevision) answers).1) :
    window.2 = nextStart window.1 := by
  induction answers generalizing m startRevision with
  | nil =>
    rw [loop] at h
    split_ifs at h <;> cases h
  | cons answer answers ih =>
    rw [loop] at h
    split_ifs at h
    · cases answer with
      | status response => cases h
      | changes response =>
        rcases List.mem_cons.mp h with rfl | h
        · rfl
        · exact ih h
    · cases h

end GetChangesDevice

/-! ### Where the windows are right -/

theorem nextStart_le (startRevision : ℕ) : nextStart startRevision ≤ 4294967000 := by
  rw [nextStart_eq]
  split_ifs <;> omega

/-- A window that starts where none is too long. -/
theorem nextStart_short {startRevision latest : ℕ} (hlt : startRevision < latest)
    (hlatest : latest ≤ 4294967000) (hstart : startRevision % 500 ≠ 499) :
    startRevision < nextStart startRevision ∧ nextStart startRevision - startRevision ≤ 500 ∧
      500 ∣ nextStart startRevision := by
  have hmin : (startRevision + 1) % 2 ^ 32 = startRevision + 1 := Nat.mod_eq_of_lt (by omega)
  rw [nextStart_eq, hmin, if_pos (by omega)]
  omega

theorem exists_asked {startRevision latest : ℕ} (hlatest : latest ≤ 4294967000)
    (hstart : startRevision < latest → startRevision % 500 ≠ 499) :
    ∃ windows stop, Asked latest startRevision windows ∧ Tiles startRevision stop windows ∧
      latest ≤ stop ∧ (∀ window ∈ windows, window.1 < latest ∧ window.2 - window.1 ≤ 500) ∧
      ∀ window ∈ windows.tail, 500 ∣ window.1 := by
  generalize hleft : latest - startRevision = left
  induction left using Nat.strong_induction_on generalizing startRevision with
  | _ left ih =>
    by_cases hlt : startRevision < latest
    · obtain ⟨hgrows, hshort, haligned⟩ := nextStart_short hlt hlatest (hstart hlt)
      obtain ⟨windows, stop, hasked, htiles, hstop, hwindows, htail⟩ :=
        @ih (latest - nextStart startRevision) (by omega) (nextStart startRevision)
          (fun _ => by omega) rfl
      refine ⟨(startRevision, nextStart startRevision) :: windows, stop, ⟨hlt, rfl, hasked⟩,
        ⟨rfl, hgrows, htiles⟩, hstop, ?_, ?_⟩
      · intro window hmem
        rcases List.mem_cons.mp hmem with rfl | hmem
        · exact ⟨hlt, hshort⟩
        · exact hwindows window hmem
      · intro window hmem
        cases windows with
        | nil => cases hmem
        | cons first windows =>
          rcases List.mem_cons.mp hmem with rfl | hmem
          · rw [htiles.1]
            exact haligned
          · exact htail window hmem
    · exact ⟨[], startRevision, not_lt.mp hlt, rfl, not_lt.mp hlt, by simp, by simp⟩

theorem exists_last {start stop : ℕ} {windows : List Range} (h : Tiles start stop windows)
    (hne : windows ≠ []) : ∃ window ∈ windows, window.2 = stop := by
  induction windows generalizing start with
  | nil => exact absurd rfl hne
  | cons window windows ih =>
    obtain ⟨-, -, hrest⟩ := h
    by_cases hnil : windows = []
    · subst hnil
      exact ⟨window, List.mem_cons_self, hrest⟩
    · obtain ⟨last, hmem, hlast⟩ := ih hrest hnil
      exact ⟨last, List.mem_cons_of_mem _ hmem, hlast⟩

theorem exchange_start (knownRevision prior latest : ℕ) (answers : List Answer) :
    exchange (getChangesDevice.start (knownRevision, prior)) (.status (.ok latest) :: answers) =
      exchange ((GetChangesDevice.create knownRevision latest).loop knownRevision) answers := rfl

theorem TiledBy.of_asked {knownRevision latest stop : ℕ} {windows : List Range}
    (hasked : Asked latest knownRevision windows) (htiles : Tiles knownRevision stop windows)
    (hstop : latest ≤ stop)
    (hwindows : ∀ window ∈ windows, window.1 < latest ∧ window.2 - window.1 ≤ 500)
    (htail : ∀ window ∈ windows.tail, 500 ∣ window.1) :
    TiledBy knownRevision latest windows stop where
  tiles := htiles
  covers := hstop
  needed window hmem := (hwindows window hmem).1
  aligned := htail
  short window hmem := (hwindows window hmem).2
  exchanged prior responses hlength := by
    rw [exchange_start, GetChangesDevice.exchange_loop rfl hasked hlength]
    rfl

/-- The windows are right when there are none, or when the first one does not start on the last
revision of a page and the latest revision is not above the last page that `uint32_t` holds. -/
theorem tilesMissing_iff {knownRevision latest : ℕ} (hknown : knownRevision < 2 ^ 32)
    (hlatest : latest < 2 ^ 32) :
    TilesMissing knownRevision latest ↔
      latest ≤ knownRevision ∨ (knownRevision % 500 ≠ 499 ∧ latest ≤ 4294967000) := by
  constructor
  · rintro ⟨windows, stop, h⟩
    by_cases hle : latest ≤ knownRevision
    · exact .inl hle
    · have hends : ∀ window ∈ windows, window.2 = nextStart window.1 := by
        intro window hmem
        have hexchange := h.exchanged 0 (List.replicate windows.length (.error ⟨1, none⟩))
          List.length_replicate
        have hsame : _ = windows := congrArg Prod.fst hexchange
        rw [exchange_start] at hsame
        rw [← hsame] at hmem
        exact GetChangesDevice.window_eq_of_exchange hmem
      have hne : windows ≠ [] := by
        rintro rfl
        exact hle (h.covers.trans h.tiles.ge)
      obtain ⟨last, hlast, hstop⟩ := exists_last h.tiles hne
      have hcovers := h.covers
      rw [← hstop, hends last hlast] at hcovers
      refine .inr ⟨?_, hcovers.trans (nextStart_le _)⟩
      obtain ⟨first, rest, rfl⟩ := List.exists_cons_of_ne_nil hne
      obtain ⟨hfirst, hgrows, -⟩ := h.tiles
      have hshort := h.short first List.mem_cons_self
      rw [hends first List.mem_cons_self, hfirst, nextStart_eq] at hgrows hshort
      have hmin : (knownRevision + 1) % 2 ^ 32 = knownRevision + 1 := Nat.mod_eq_of_lt (by omega)
      rw [hmin] at hgrows hshort
      split_ifs at hgrows hshort <;> omega
  · rintro (hle | ⟨hstart, hle⟩)
    · exact ⟨[], knownRevision, .of_asked hle rfl hle (by simp) (by simp)⟩
    · obtain ⟨windows, stop, hasked, htiles, hstop, hwindows, htail⟩ :=
        exists_asked hle fun _ => hstart
      exact ⟨windows, stop, .of_asked hasked htiles hstop hwindows htail⟩

/-- With 499 known the first window has 501 revisions. -/
theorem not_tilesMissing_longWindow : ¬ TilesMissing 499 1001 := by
  rintro ⟨windows, stop, h⟩
  have hexchange := h.exchanged 0 (List.replicate windows.length (.error ⟨1, none⟩))
    List.length_replicate
  cases windows with
  | nil => exact absurd (h.covers.trans h.tiles.ge) (by decide)
  | cons window windows =>
    have hwindow := (List.cons.inj (congrArg Prod.fst hexchange)).1
    have hshort := h.short window List.mem_cons_self
    rw [← hwindow] at hshort
    exact absurd hshort (by decide)

theorem tilesMissing_iff_oneRevision : TilesMissing 0 1 ↔
    1 ≤ 0 ∨ (0 % 500 ≠ 499 ∧ 1 ≤ 4294967000) :=
  tilesMissing_iff (by decide) (by decide)

/-! ### The memory of the revision -/

/-- When the status query has failed, nothing else is asked for, and what was in the memory of the
revision shows in nothing. -/
def StopsAlike (knownRevision : ℕ) (error : CallError) (prior prior' : ℕ) : Prop :=
  ∃ result, ∀ memory ∈ [prior, prior'],
    getChangesDevice.after (knownRevision, memory) [.status (.error error)] = some (.inr result)

/-- What was in the memory bounds the loop and is what the callback gets. -/
theorem stopsAlike_iff (knownRevision : ℕ) (error : CallError) (prior prior' : ℕ) :
    StopsAlike knownRevision error prior prior' ↔ prior = prior' ∧ prior ≤ knownRevision := by
  have hafter (memory : ℕ) : getChangesDevice.after (knownRevision, memory)
      [.status (.error error)] = some
        (((GetChangesDevice.create knownRevision memory).handleStatus (.error error)).loop
          knownRevision) := rfl
  have hcallback (memory : ℕ) (result : Result) : getChangesDevice.after (knownRevision, memory)
      [.status (.error error)] = some (.inr result) ↔ memory ≤ knownRevision ∧
        ((GetChangesDevice.create knownRevision memory).handleStatus (.error error)).result =
          result := by
    rw [hafter, GetChangesDevice.loop]
    split_ifs with hloop
    · exact iff_of_false (by simp) fun h => absurd hloop.1 (not_lt.mpr h.1)
    · have hle : memory ≤ knownRevision := not_lt.mp fun hlt => hloop ⟨hlt, rfl⟩
      simp [hle]
  simp only [StopsAlike, List.mem_cons, List.not_mem_nil, or_false, forall_eq_or_imp, forall_eq,
    hcallback]
  constructor
  · rintro ⟨result, ⟨hle, rfl⟩, -, hsame⟩
    exact ⟨(congrArg Result.latestDeviceRevision hsame).symm, hle⟩
  · rintro ⟨rfl, hle⟩
    exact ⟨_, ⟨hle, rfl⟩, hle, rfl⟩

/-- A revision of 1 left in the memory. -/
theorem not_stopsAlike_leftover : ¬ StopsAlike 0 ⟨1, none⟩ 0 1 := by
  rintro ⟨result, h⟩
  have hone := h 1 (by simp)
  cases hone

end MediafireSdk.Actions.ChangesDevice
