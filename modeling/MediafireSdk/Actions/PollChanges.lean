import MediafireSdk.Actions.GetChangesDevice
import MediafireSdk.Actions.Polls
import MediafireSdk.Actions.WorkProgress

/-! `PollChanges` (`poll_changes_impl.hpp`): a poll over `GetChangesDevice`. It looks at the errors
that `GetInfoFile` and `GetInfoFolder` call back with, where `PollForeignChanges` looks at the
response. -/

namespace MediafireSdk.Actions

open Runs Ranges ChangesDevice

/-- The members of `PollChanges`. -/
structure PollChanges (ι κ : Type*) [Inhabited ι] [Inhabited κ] where
  revision : ℕ
  phase : Phase := .changes
  latestDeviceRevision : ℕ := 0
  updatedFiles : List File := []
  updatedFolders : List Folder := []
  deletedFiles : List File := []
  deletedFolders : List Folder := []
  getStatusErrors : List DeviceGetStatusError := []
  getChangesErrors : List DeviceGetChangesError := []
  getInfoFolderErrors : List GetInfoError := []
  getInfoFileErrors : List GetInfoError := []
  updatedFoldersInfo : List (InfoResponse κ) := []
  updatedFilesInfo : List (InfoResponse ι) := []

namespace PollChanges

section

variable {ι κ : Type*} [Inhabited ι] [Inhabited κ]

/-- The trash is left out of the folders that were updated. -/
def handleGetChangesDevice (result : ChangesDevice.Result) (m : PollChanges ι κ) :
    PollChanges ι κ :=
  { m with
    latestDeviceRevision := result.latestDeviceRevision
    getStatusErrors := result.getStatusErrors
    getChangesErrors := result.getChangesErrors
    updatedFiles := result.updatedFiles
    updatedFolders := m.updatedFolders ++ result.updatedFolders.filter (·.folderkey ≠ "trash")
    deletedFiles := result.deletedFiles
    deletedFolders := result.deletedFolders }

/-- The infos and the errors behind a callback. -/
def collect {ι : Type*} [Inhabited ι] (result : InfoResponse ι × List GetInfoError)
    (infos : List (InfoResponse ι)) (errors : List GetInfoError) :
    List (InfoResponse ι) × List GetInfoError :=
  if result.2 ≠ [] then (infos, errors ++ result.2) else (infos ++ [result.1], errors)

def handleGetInfoFile (response : InfoResponse ι) (errors : List GetInfoError)
    (m : PollChanges ι κ) : PollChanges ι κ :=
  let collected := collect (response, errors) m.updatedFilesInfo m.getInfoFileErrors
  { m with updatedFilesInfo := collected.1, getInfoFileErrors := collected.2 }

def handleGetInfoFolder (response : InfoResponse κ) (errors : List GetInfoError)
    (m : PollChanges ι κ) : PollChanges ι κ :=
  let collected := collect (response, errors) m.updatedFoldersInfo m.getInfoFolderErrors
  { m with updatedFoldersInfo := collected.1, getInfoFolderErrors := collected.2 }

/-- `CoroutineBody`. -/
def body : Body Task (TaskResult ChangesDevice.Result ι κ) (PollChanges ι κ) where
  next m :=
    let (tasks, phase, executes) := nextWork m.revision (m.updatedFiles.map File.quickkey)
      (m.updatedFolders.map Folder.folderkey) m.phase
    (tasks, { m with phase }, executes)
  handle _ result m :=
    match result with
    | .changes result => m.handleGetChangesDevice result
    | .file response errors => m.handleGetInfoFile response errors
    | .folder response errors => m.handleGetInfoFolder response errors

/-- A poll with its coroutines. -/
abbrev Poll (ι κ : Type*) [Inhabited ι] [Inhabited κ] :=
  System Task (Frame ChangesDevice.Frame ι κ) (Answer ChangesDevice.Answer ι κ)
    (TaskResult ChangesDevice.Result ι κ) (PollChanges ι κ)

/-- A poll from a revision, before it is started. The work manager is the caller's. -/
def poll (revision maxConcurrentWork : ℕ) : Poll ι κ :=
  System.create { revision } maxConcurrentWork

/-- `memory` is what `GetChangesDevice` finds in the member that it does not initialize. -/
def pollTask (memory : ℕ) : Coroutine Task (Frame ChangesDevice.Frame ι κ)
    (Answer ChangesDevice.Answer ι κ) (TaskResult ChangesDevice.Result ι κ) :=
  pollCalls getChangesDevice fun latestKnownRevision => (latestKnownRevision, memory)

abbrev step (memory : ℕ) :
    Poll ι κ → Event (Answer ChangesDevice.Answer ι κ) → Option (Poll ι κ) :=
  System.step body (pollTask memory)

/-! ### What a poll keeps -/

/-- Infos and errors are those of the answers, in their order. -/
structure Collected {ι : Type*} [Inhabited ι] (errorText : Option String → Option String)
    (answers : List (String × InfoResponse ι)) (infos : List (InfoResponse ι))
    (errors : List GetInfoError) : Prop where
  infos : infos = (answers.filter (·.2.errorCode = 0)).map Prod.snd
  errors : errors = (answers.filter (·.2.errorCode ≠ 0)).map (infoError errorText)

theorem Collected.collect {ι : Type*} [Inhabited ι] {errorText : Option String → Option String}
    {answers : List (String × InfoResponse ι)} {infos : List (InfoResponse ι)}
    {errors : List GetInfoError} (h : Collected errorText answers infos errors) (key : String)
    (response : InfoResponse ι) :
    Collected errorText (answers ++ [(key, response)])
      (PollChanges.collect (getInfo errorText response { key }) infos errors).1
      (PollChanges.collect (getInfo errorText response { key }) infos errors).2 := by
  obtain ⟨rfl, rfl⟩ := h
  by_cases herror : response.errorCode = 0
  · have hinfo : getInfo errorText response { key } = (response, []) := by
      rw [getInfo, GetInfo.handle, if_neg (not_not.mpr herror)]
    rw [hinfo, PollChanges.collect, if_neg (by simp)]
    constructor <;> simp [List.filter_append, herror]
  · have hinfo : getInfo errorText response { key } = ({}, [infoError errorText (key, response)]) :=
      by rw [getInfo, GetInfo.handle, if_pos herror]; rfl
    rw [hinfo, PollChanges.collect, if_pos (by simp)]
    constructor <;> simp [List.filter_append, herror]

theorem Collected.accounted {ι : Type*} [Inhabited ι] {errorText : Option String → Option String}
    {answers : List (String × InfoResponse ι)} {infos : List (InfoResponse ι)}
    {errors : List GetInfoError} {keys : List String} (h : Collected errorText answers infos errors)
    (hkeys : (answers.map Prod.fst).Perm keys) :
    InfoAccounted errorText keys answers infos errors :=
  ⟨hkeys, .of_eq h.infos, .of_eq h.errors⟩

/-- What the poll has kept of the change query. -/
def changes (m : PollChanges ι κ) : ChangesDevice.Result where
  latestDeviceRevision := m.latestDeviceRevision
  updatedFiles := m.updatedFiles
  updatedFolders := m.updatedFolders
  deletedFiles := m.deletedFiles
  deletedFolders := m.deletedFolders
  getStatusErrors := m.getStatusErrors
  getChangesErrors := m.getChangesErrors

/-- The change query has called back, and the poll has kept what it got, the trash apart. -/
structure Changed (memory revision : ℕ) (m : PollChanges ι κ)
    (done : Log ChangesDevice.Answer ChangesDevice.Result ι κ) (result : ChangesDevice.Result) :
    Prop where
  after : getChangesDevice.after (revision, memory) (changesAnswers done) = some (.inr result)
  changes : m.changes =
    { result with updatedFolders := result.updatedFolders.filter (·.folderkey ≠ "trash") }

/-- Every answer has become an info or an error. -/
structure Polled (memory revision : ℕ) (m : PollChanges ι κ)
    (done : Log ChangesDevice.Answer ChangesDevice.Result ι κ) (tasks : List Task) : Prop where
  start : m.revision = revision
  files : Collected fileErrorText (fileAnswers done) m.updatedFilesInfo m.getInfoFileErrors
  folders : Collected folderErrorText (folderAnswers done) m.updatedFoldersInfo
    m.getInfoFolderErrors
  unchanged : done = [] → m.updatedFolders = []
  asked : Asked revision (m.updatedFiles.map File.quickkey)
    (m.updatedFolders.map Folder.folderkey) (∃ result, Changed memory revision m done result)
    m.phase done tasks

variable {memory revision limit : ℕ} {m : PollChanges ι κ}
  {done : Log ChangesDevice.Answer ChangesDevice.Result ι κ} {tasks tasks' : List Task}

theorem Polled.perm (hperm : tasks.Perm tasks') (h : Polled memory revision m done tasks) :
    Polled memory revision m done tasks' :=
  { h with asked := h.asked.perm hperm }

/-- What a later state of the poll has kept, if it is the same. -/
theorem Changed.kept {m' : PollChanges ι κ}
    {done' : Log ChangesDevice.Answer ChangesDevice.Result ι κ}
    (h : ∃ result, Changed memory revision m done result) (hchanges : m'.changes = m.changes)
    (hanswers : changesAnswers done' = changesAnswers done) :
    ∃ result, Changed memory revision m' done' result := by
  obtain ⟨result, hafter, hkept⟩ := h
  exact ⟨result, hanswers ▸ hafter, hchanges.trans hkept⟩

theorem Polled.next {m' : PollChanges ι κ} (h : Polled memory revision m done [])
    (hnext : body.next m = (tasks, m', true)) : Polled memory revision m' done tasks := by
  obtain ⟨rfl, hfiles, hfolders, hunchanged, hasked⟩ := h
  simp only [body, Prod.mk.injEq] at hnext
  obtain ⟨rfl, rfl, hexecutes⟩ := hnext
  refine ⟨rfl, hfiles, hfolders, hunchanged, Asked.imp ?_ (hasked.next hexecutes)⟩
  exact fun hchanged => Changed.kept hchanged rfl rfl

theorem Polled.handle {task : Task} {answers : List (Answer ChangesDevice.Answer ι κ)}
    {result : TaskResult ChangesDevice.Result ι κ}
    (h : Polled memory revision m done (task :: tasks))
    (hafter : (pollTask memory).after task answers = some (.inr result)) :
    Polled memory revision (body.handle task result m) (done ++ [⟨task, answers, result⟩])
      tasks := by
  obtain ⟨hstart, hfilesInfo, hfoldersInfo, hunchanged, hasked⟩ := h
  generalize hphase : m.phase = phase at hasked
  cases hasked.handle hafter with
  | changes answers result hdone hquery hnow =>
    have hfolders := hunchanged hdone
    subst hdone
    refine ⟨hstart, hfilesInfo, hfoldersInfo, by simp, hphase ▸ hnow _ _ _ ⟨result, ?_, ?_⟩⟩
    · simpa [changesAnswers] using hquery
    · simp [body, handleGetChangesDevice, changes, hfolders]
  | file quickkey response hnow =>
    refine ⟨hstart, ?_, ?_, by simp, ?_⟩
    · rw [fileAnswers_file]
      exact hfilesInfo.collect quickkey response
    · rw [folderAnswers_file]
      exact hfoldersInfo
    · show Asked _ _ _ _ m.phase _ _
      rw [hphase]
      refine hnow _ (fun hchanged => ?_) _
      exact Changed.kept hchanged rfl changesAnswers_file
  | folder folderkey response hnow =>
    refine ⟨hstart, ?_, ?_, by simp, ?_⟩
    · rw [fileAnswers_folder]
      exact hfilesInfo
    · rw [folderAnswers_folder]
      exact hfoldersInfo.collect folderkey response
    · show Asked _ _ _ _ m.phase _ _
      rw [hphase]
      refine hnow _ (fun hchanged => ?_) _
      exact Changed.kept hchanged rfl changesAnswers_folder

theorem polled_rule (memory revision : ℕ) :
    Rule (body (ι := ι) (κ := κ)) (pollTask memory) (Polled memory revision) where
  perm := Polled.perm
  next := Polled.next
  handle := Polled.handle

theorem polled_create (memory revision : ℕ) :
    Polled memory revision ({ revision } : PollChanges ι κ) [] [] :=
  ⟨rfl, ⟨rfl, rfl⟩, ⟨rfl, rfl⟩, fun _ => rfl, rfl, rfl⟩

/-! ### Runs -/

/-- What the change query has called back with has been passed on, and everything it has listed
as updated was asked for once and is an info or an error. -/
structure Accounted (memory revision : ℕ) (m : PollChanges ι κ)
    (done : Log ChangesDevice.Answer ChangesDevice.Result ι κ) (result : ChangesDevice.Result) :
    Prop where
  changed : Changed memory revision m done result
  files : InfoAccounted fileErrorText (result.updatedFiles.map File.quickkey) (fileAnswers done)
    m.updatedFilesInfo m.getInfoFileErrors
  folders : InfoAccounted folderErrorText
    ((result.updatedFolders.filter (·.folderkey ≠ "trash")).map Folder.folderkey)
    (folderAnswers done) m.updatedFoldersInfo m.getInfoFolderErrors

theorem Polled.accounted {m' : PollChanges ι κ} (h : Polled memory revision m done [])
    (hnext : body.next m = (tasks, m', false)) :
    ∃ result, Accounted memory revision m' done result := by
  obtain ⟨rfl, hfilesInfo, hfoldersInfo, -, hasked⟩ := h
  simp only [body, Prod.mk.injEq] at hnext
  obtain ⟨rfl, rfl, hends⟩ := hnext
  obtain ⟨hchanged, hfiles, hfolders⟩ := hasked.ended hends
  obtain ⟨result, hafter, hchanges⟩ := hchanged
  have hupdated : m.updatedFiles = result.updatedFiles :=
    congrArg ChangesDevice.Result.updatedFiles hchanges
  have hkept : m.updatedFolders = result.updatedFolders.filter (·.folderkey ≠ "trash") :=
    congrArg ChangesDevice.Result.updatedFolders hchanges
  exact ⟨result, ⟨hafter, hchanges⟩, hfilesInfo.accounted (hupdated ▸ hfiles),
    hfoldersInfo.accounted (hkept ▸ hfolders)⟩

/-- Every frame that a coroutine of a poll waits in takes an answer. -/
theorem exists_resume (memory : ℕ) (frame : Frame ChangesDevice.Frame ι κ) :
    ∃ answer outcome, (pollTask memory).resume frame answer = some outcome := by
  cases frame with
  | changes frame =>
    cases frame with
    | status m => exact ⟨.changes (.status (.error ⟨0, none⟩)), _, rfl⟩
    | changes m startRevision maxRevision => exact ⟨.changes (.changes (.ok {})), _, rfl⟩
  | file m => exact ⟨.file {}, _, rfl⟩
  | folder m => exact ⟨.folder {}, _, rfl⟩

variable {s : Poll ι κ} {events : List (Event (Answer ChangesDevice.Answer ι κ))}

theorem sound_run (hlimit : 3 ≤ limit)
    (hrun : run (step memory) (poll revision limit) events = some s) :
    System.Sound body (pollTask memory) (Polled memory revision) s :=
  System.Sound.run (polled_rule memory revision) hlimit (polled_create memory revision) hrun

theorem accounted_of_called (hlimit : 3 ≤ limit)
    (hrun : run (step memory) (poll revision limit) events = some s) (hcalled : m ∈ s.called) :
    s.called = [m] ∧ ∃ result, Accounted memory revision m s.done result := by
  obtain ⟨hone, parent, tasks, hpolled, hnext⟩ := (sound_run hlimit hrun).of_called hcalled
  exact ⟨hone, hpolled.accounted hnext⟩

/-- A poll accounts for everything it is told to have changed, in whatever order its calls are
answered, and a poll that cannot go on has called back. -/
theorem run_accounted (hlimit : 3 ≤ limit)
    (hrun : run (step memory) (poll revision limit) events = some s) :
    (∀ m ∈ s.called, s.called = [m] ∧ ∃ result, Accounted memory revision m s.done result) ∧
      ((∀ event, step memory s event = none) → s.called ≠ []) :=
  ⟨fun _ hcalled => accounted_of_called hlimit hrun hcalled,
    (sound_run hlimit hrun).called_ne_nil_of_quiet
      fun waiting _ => exists_resume memory waiting.frame⟩

/-! ### Every window -/

/-- A loop that has called back has got an answer for each of its windows. -/
theorem responses_of_goOn {windows : List Range} {device : GetChangesDevice} {startRevision : ℕ}
    {answers : List ChangesDevice.Answer} {result : ChangesDevice.Result}
    (hcancelled : device.cancelled = false)
    (hasked : ChangesDevice.Asked device.latestDeviceRevision startRevision windows)
    (h : getChangesDevice.goOn (device.loop startRevision) answers = some (.inr result)) :
    ∃ responses : List (Except CallError Changes), answers = responses.map .changes ∧
      responses.length = windows.length ∧ result = (device.extend windows responses).result := by
  induction windows generalizing device startRevision answers with
  | nil =>
    rw [GetChangesDevice.loop, if_neg fun hlt => not_le.mpr hlt.1 hasked] at h
    cases answers with
    | nil =>
      cases h
      exact ⟨[], rfl, rfl, by rw [device.extend_nil]⟩
    | cons answer answers => cases h
  | cons window windows ih =>
    obtain ⟨hlt, rfl, hasked⟩ := hasked
    rw [GetChangesDevice.loop, if_pos ⟨hlt, hcancelled⟩] at h
    cases answers with
    | nil => cases h
    | cons answer answers =>
      cases answer with
      | status response => cases h
      | changes response =>
        obtain ⟨hlatest, hsame⟩ := device.handleChanges_kept startRevision response
        obtain ⟨responses, rfl, hlength, rfl⟩ := ih (hsame.trans hcancelled) (hlatest ▸ hasked) h
        exact ⟨response :: responses, rfl, by simp [hlength], by rw [device.extend_cons]⟩

/-- When the device has said which revision is its latest, a poll asks for windows that tile the
revisions behind the known one, and accounts for what is listed in the answers to all of them. -/
theorem run_missing {latest : ℕ} (hlimit : 3 ≤ limit)
    (hrun : run (step memory) (poll revision limit) events = some s) (hcalled : m ∈ s.called)
    (hstatus : (changesAnswers s.done).head? = some (.status (.ok latest)))
    (hlatest : latest ≤ 4294967000) (hstart : revision < latest → revision % 500 ≠ 499) :
    ∃ windows stop responses, TiledBy revision latest windows stop ∧
      responses.length = windows.length ∧
      changesAnswers s.done = .status (.ok latest) :: responses.map .changes ∧
      Accounted memory revision m s.done (gathered latest windows responses) := by
  obtain ⟨-, result, h⟩ := accounted_of_called hlimit hrun hcalled
  obtain ⟨windows, stop, hasked, htiles, hstop, hwindows, htail⟩ := exists_asked hlatest hstart
  obtain ⟨answers, hanswers⟩ := List.head?_eq_some_iff.mp hstatus
  have hafter := h.changed.after
  rw [hanswers] at hafter
  obtain ⟨responses, rfl, hlength, hresult⟩ := responses_of_goOn
    (show (GetChangesDevice.create revision latest).cancelled = false from rfl) hasked hafter
  have hgathered : result = gathered latest windows responses := hresult
  exact ⟨windows, stop, responses, .of_asked hasked htiles hstop hwindows htail, hlength, hanswers,
    hgathered ▸ h⟩

/-! ### Two polls -/

/-- A poll from revision 0 of a device at revision 3, with one updated file and the trash. -/
def onePoll (errorCode : ℤ) : List (Event (Answer ChangesDevice.Answer Unit Unit)) :=
  [.start, .proceed, .startPosted 0, .respond 0 (.changes (.status (.ok 3))),
    .respond 0 (.changes (.changes (.ok
      { updatedFiles := [⟨"key"⟩], updatedFolders := [⟨"trash"⟩] }))),
    .proceed, .startPosted 0, .respond 0 (.file { errorCode }), .proceed, .proceed]

/-- The failed call is among the errors. -/
theorem run_accounted_failed_call : ∃ s, ∃ m : PollChanges Unit Unit,
    run (step 0) (poll 0 10) (onePoll 1) = some s ∧ m ∈ s.called ∧
    m.getInfoFileErrors = [⟨"key", 1, some "No error string provided"⟩] ∧
    (∀ m ∈ s.called, s.called = [m] ∧ ∃ result, Accounted 0 0 m s.done result) ∧
      ((∀ event, step 0 s event = none) → s.called ≠ []) := by
  obtain ⟨s, m, hrun, hcalled, herrors⟩ : ∃ s, ∃ m : PollChanges Unit Unit,
      run (step 0) (poll 0 10) (onePoll 1) = some s ∧ m ∈ s.called ∧
        m.getInfoFileErrors = [⟨"key", 1, some "No error string provided"⟩] :=
    ⟨_, _, rfl, List.mem_singleton_self _, rfl⟩
  exact ⟨s, m, hrun, hcalled, herrors, run_accounted (by decide) hrun⟩

theorem run_missing_one_window : ∃ s, ∃ m : PollChanges Unit Unit,
    run (step 0) (poll 0 10) (onePoll 0) = some s ∧
    ∃ windows stop responses, TiledBy 0 3 windows stop ∧ responses.length = windows.length ∧
      changesAnswers s.done = .status (.ok 3) :: responses.map .changes ∧
      Accounted 0 0 m s.done (gathered 3 windows responses) := by
  obtain ⟨s, m, hrun, hcalled, hstatus⟩ : ∃ s, ∃ m : PollChanges Unit Unit,
      run (step 0) (poll 0 10) (onePoll 0) = some s ∧ m ∈ s.called ∧
        (changesAnswers s.done).head? = some (.status (.ok 3)) :=
    ⟨_, _, rfl, List.mem_singleton_self _, rfl⟩
  exact ⟨s, m, hrun, run_missing (by decide) hrun hcalled hstatus (by decide) (by decide)⟩

end

end PollChanges

end MediafireSdk.Actions
