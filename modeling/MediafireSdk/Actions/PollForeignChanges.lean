import MediafireSdk.Actions.ForeignChanges
import MediafireSdk.Actions.Polls
import MediafireSdk.Actions.WorkProgress

/-! `PollForeignChanges` (`poll_foreign_changes_impl.hpp`): a poll over `GetForeignChangesDevice`.
It looks at the response that `GetInfoFile` and `GetInfoFolder` call back with, which these leave
as it was constructed when the call has failed. -/

namespace MediafireSdk.Actions

open Runs ForeignChanges

/-- The members of `PollForeignChanges`. -/
structure PollForeignChanges (ι κ : Type*) [Inhabited ι] [Inhabited κ] where
  revision : ℕ
  phase : Phase := .changes
  updatedFiles : List File := []
  updatedFolders : List Folder := []
  deletedFiles : List File := []
  deletedFolders : List Folder := []
  getChangesErrors : List CallError := []
  getInfoFolderErrors : List GetInfoError := []
  getInfoFileErrors : List GetInfoError := []
  updatedFoldersInfo : List (InfoResponse κ) := []
  updatedFilesInfo : List (InfoResponse ι) := []
  latestChangesRevision : ℕ := 0

namespace PollForeignChanges

section

variable {ι κ : Type*} [Inhabited ι] [Inhabited κ]

def handleGetForeignChangesDevice (result : ForeignChanges.Result) (m : PollForeignChanges ι κ) :
    PollForeignChanges ι κ :=
  { m with
    latestChangesRevision := result.latestChangesRevision
    getChangesErrors := result.getChangesErrors
    updatedFiles := result.updatedFiles
    updatedFolders := result.updatedFolders
    deletedFiles := result.deletedFiles
    deletedFolders := result.deletedFolders }

def handleGetInfoFile (response : InfoResponse ι) (errors : List GetInfoError)
    (m : PollForeignChanges ι κ) : PollForeignChanges ι κ :=
  if response.errorCode ≠ 0 then { m with getInfoFileErrors := m.getInfoFileErrors ++ errors }
  else { m with updatedFilesInfo := m.updatedFilesInfo ++ [response] }

def handleGetInfoFolder (response : InfoResponse κ) (errors : List GetInfoError)
    (m : PollForeignChanges ι κ) : PollForeignChanges ι κ :=
  if response.errorCode ≠ 0 then { m with getInfoFolderErrors := m.getInfoFolderErrors ++ errors }
  else { m with updatedFoldersInfo := m.updatedFoldersInfo ++ [response] }

/-- `CoroutineBody`. -/
def body : Body Task (TaskResult ForeignChanges.Result ι κ) (PollForeignChanges ι κ) where
  next m :=
    let (tasks, phase, executes) := nextWork m.revision (m.updatedFiles.map File.quickkey)
      (m.updatedFolders.map Folder.folderkey) m.phase
    (tasks, { m with phase }, executes)
  handle _ result m :=
    match result with
    | .changes result => m.handleGetForeignChangesDevice result
    | .file response errors => m.handleGetInfoFile response errors
    | .folder response errors => m.handleGetInfoFolder response errors

/-- A poll with its coroutines. -/
abbrev Poll (ι κ : Type*) [Inhabited ι] [Inhabited κ] :=
  System Task (Frame GetForeignChangesDevice ι κ) (Answer Response ι κ)
    (TaskResult ForeignChanges.Result ι κ) (PollForeignChanges ι κ)

/-- A poll from a revision, before it is started. The work manager is the caller's. -/
def poll (revision maxConcurrentWork : ℕ) : Poll ι κ :=
  System.create { revision } maxConcurrentWork

abbrev step : Poll ι κ → Event (Answer Response ι κ) → Option (Poll ι κ) :=
  System.step body (pollCalls getForeignChangesDevice id)

/-! ### What a poll keeps -/

/-- Every updated file and folder is accounted for in what the callback gets. -/
def Accounted (m : PollForeignChanges ι κ) (done : Log Response ForeignChanges.Result ι κ) : Prop :=
  InfoAccounted fileErrorText (m.updatedFiles.map File.quickkey) (fileAnswers done)
      m.updatedFilesInfo m.getInfoFileErrors ∧
    InfoAccounted folderErrorText (m.updatedFolders.map Folder.folderkey) (folderAnswers done)
      m.updatedFoldersInfo m.getInfoFolderErrors

/-- What the two classes report of an answer: their member `response_` is left as it was
constructed when the call has failed. -/
def reported {ι : Type*} [Inhabited ι] (response : InfoResponse ι) : InfoResponse ι :=
  if response.errorCode ≠ 0 then {} else response

theorem getInfo_response {ι : Type*} [Inhabited ι] (errorText : Option String → Option String)
    (key : String) (response : InfoResponse ι) :
    (getInfo errorText response { key }).1 = reported response := by
  unfold getInfo GetInfo.handle reported
  split_ifs <;> rfl

theorem reported_errorCode {ι : Type*} [Inhabited ι] (response : InfoResponse ι) :
    (reported response).errorCode = 0 := by
  unfold reported
  split_ifs with herror
  · rfl
  · exact not_not.mp herror

/-- What the poll has kept of the change query. -/
def changes (m : PollForeignChanges ι κ) : ForeignChanges.Result where
  latestChangesRevision := m.latestChangesRevision
  updatedFiles := m.updatedFiles
  updatedFolders := m.updatedFolders
  deletedFiles := m.deletedFiles
  deletedFolders := m.deletedFolders
  getChangesErrors := m.getChangesErrors

/-- The change query has called back with what the poll has kept. -/
def Changed (revision : ℕ) (m : PollForeignChanges ι κ)
    (done : Log Response ForeignChanges.Result ι κ) : Prop :=
  getForeignChangesDevice.after revision (changesAnswers done) = some (.inr m.changes)

/-- Every answer has become an info. -/
structure Polled (revision : ℕ) (m : PollForeignChanges ι κ)
    (done : Log Response ForeignChanges.Result ι κ) (tasks : List Task) : Prop where
  start : m.revision = revision
  filesInfo : m.updatedFilesInfo = (fileAnswers done).map fun answer => reported answer.2
  foldersInfo : m.updatedFoldersInfo = (folderAnswers done).map fun answer => reported answer.2
  fileErrors : m.getInfoFileErrors = []
  folderErrors : m.getInfoFolderErrors = []
  asked : Asked revision (m.updatedFiles.map File.quickkey)
    (m.updatedFolders.map Folder.folderkey) (Changed revision m done) m.phase done tasks

variable {revision limit : ℕ} {m : PollForeignChanges ι κ}
  {done : Log Response ForeignChanges.Result ι κ} {tasks tasks' : List Task}

theorem Polled.perm (hperm : tasks.Perm tasks') (h : Polled revision m done tasks) :
    Polled revision m done tasks' :=
  { h with asked := h.asked.perm hperm }

theorem Polled.next {m' : PollForeignChanges ι κ} (h : Polled revision m done [])
    (hnext : body.next m = (tasks, m', true)) : Polled revision m' done tasks := by
  obtain ⟨rfl, hfilesInfo, hfoldersInfo, hfileErrors, hfolderErrors, hasked⟩ := h
  simp only [body, Prod.mk.injEq] at hnext
  obtain ⟨rfl, rfl, hexecutes⟩ := hnext
  exact ⟨rfl, hfilesInfo, hfoldersInfo, hfileErrors, hfolderErrors, hasked.next hexecutes⟩

theorem Polled.handle {task : Task} {answers : List (Answer Response ι κ)}
    {result : TaskResult ForeignChanges.Result ι κ} (h : Polled revision m done (task :: tasks))
    (hafter : (pollCalls getForeignChangesDevice id).after task answers = some (.inr result)) :
    Polled revision (body.handle task result m) (done ++ [⟨task, answers, result⟩]) tasks := by
  obtain ⟨hstart, hfilesInfo, hfoldersInfo, hfileErrors, hfolderErrors, hasked⟩ := h
  generalize hphase : m.phase = phase at hasked
  cases hasked.handle hafter with
  | changes answers result hdone hquery hnow =>
    subst hdone
    refine ⟨hstart, hfilesInfo, hfoldersInfo, hfileErrors, hfolderErrors, ?_⟩
    have hkept : (body.handle (.changes revision) (.changes result) m).changes = result := rfl
    refine hphase ▸ hnow _ _ _ ?_
    rw [Changed, hkept]
    simpa [changesAnswers] using hquery
  | file quickkey response hnow =>
    have hhandle : body.handle (.file quickkey) (.file (getInfo fileErrorText response
        { key := quickkey }).1 (getInfo fileErrorText response { key := quickkey }).2) m =
        { m with updatedFilesInfo := m.updatedFilesInfo ++ [reported response] } := by
      rw [getInfo_response]
      exact if_neg (not_not.mpr (reported_errorCode response))
    rw [hhandle]
    refine ⟨hstart, by simp [hfilesInfo], by simpa using hfoldersInfo, hfileErrors, hfolderErrors,
      ?_⟩
    refine hphase ▸ hnow _ (fun hchanged => ?_) _
    rw [Changed, changesAnswers_file]
    exact hchanged
  | folder folderkey response hnow =>
    have hhandle : body.handle (.folder folderkey) (.folder (getInfo folderErrorText response
        { key := folderkey }).1 (getInfo folderErrorText response { key := folderkey }).2) m =
        { m with updatedFoldersInfo := m.updatedFoldersInfo ++ [reported response] } := by
      rw [getInfo_response]
      exact if_neg (not_not.mpr (reported_errorCode response))
    rw [hhandle]
    refine ⟨hstart, by simpa using hfilesInfo, by simp [hfoldersInfo], hfileErrors, hfolderErrors,
      ?_⟩
    refine hphase ▸ hnow _ (fun hchanged => ?_) _
    rw [Changed, changesAnswers_folder]
    exact hchanged

theorem polled_rule (revision : ℕ) :
    Rule (body (ι := ι) (κ := κ)) (pollCalls getForeignChangesDevice id) (Polled revision) where
  perm := Polled.perm
  next := Polled.next
  handle := Polled.handle

theorem polled_create (revision : ℕ) :
    Polled revision ({ revision } : PollForeignChanges ι κ) [] [] :=
  ⟨rfl, rfl, rfl, rfl, rfl, rfl, rfl⟩

/-- What is left when the callback of a poll has been called. -/
structure Ended (revision : ℕ) (m : PollForeignChanges ι κ)
    (done : Log Response ForeignChanges.Result ι κ) : Prop where
  changed : Changed revision m done
  files : ((fileAnswers done).map Prod.fst).Perm (m.updatedFiles.map File.quickkey)
  folders : ((folderAnswers done).map Prod.fst).Perm (m.updatedFolders.map Folder.folderkey)
  filesInfo : m.updatedFilesInfo = (fileAnswers done).map fun answer => reported answer.2
  foldersInfo : m.updatedFoldersInfo = (folderAnswers done).map fun answer => reported answer.2
  fileErrors : m.getInfoFileErrors = []
  folderErrors : m.getInfoFolderErrors = []

theorem Polled.ended {m' : PollForeignChanges ι κ} (h : Polled revision m done [])
    (hnext : body.next m = (tasks, m', false)) : Ended revision m' done := by
  obtain ⟨rfl, hfilesInfo, hfoldersInfo, hfileErrors, hfolderErrors, hasked⟩ := h
  simp only [body, Prod.mk.injEq] at hnext
  obtain ⟨rfl, rfl, hends⟩ := hnext
  obtain ⟨hchanged, hfiles, hfolders⟩ := hasked.ended hends
  exact ⟨hchanged, hfiles, hfolders, hfilesInfo, hfoldersInfo, hfileErrors, hfolderErrors⟩

/-! ### Runs -/

variable {s : Poll ι κ} {events : List (Event (Answer Response ι κ))}

theorem sound_run (hlimit : 3 ≤ limit) (hrun : run step (poll revision limit) events = some s) :
    System.Sound body (pollCalls getForeignChangesDevice id) (Polled revision) s :=
  System.Sound.run (polled_rule revision) hlimit (polled_create revision) hrun

theorem ended_of_called (hlimit : 3 ≤ limit)
    (hrun : run step (poll revision limit) events = some s) (hcalled : m ∈ s.called) :
    s.called = [m] ∧ Ended revision m s.done := by
  obtain ⟨hone, parent, tasks, hpolled, hnext⟩ := (sound_run hlimit hrun).of_called hcalled
  exact ⟨hone, hpolled.ended hnext⟩

/-! ### The revision to poll from next -/

/-- The revision that is handed on is one that the device has reported only if the device has
reported the end of a window. -/
theorem revision_le_iff (hlimit : 3 ≤ limit)
    (hrun : run step (poll revision limit) events = some s) (hcalled : m ∈ s.called)
    {startRevision deviceRevision : ℕ}
    (hlast : lastSuccess revision (changesAnswers s.done) = some (startRevision, deviceRevision)) :
    (∃ result, getForeignChangesDevice.after revision (changesAnswers s.done) =
        some (.inr result) ∧ m.latestChangesRevision = result.latestChangesRevision) ∧
      (m.latestChangesRevision ≤ deviceRevision ↔
        nextStart startRevision ≤ deviceRevision ∧
          (nextStart startRevision = deviceRevision ∨ 500 ∣ deviceRevision)) := by
  have hresult := (ended_of_called hlimit hrun hcalled).2.changed
  exact ⟨⟨m.changes, hresult, rfl⟩,
    goOn_revision_le_iff (GetForeignChangesDevice.aligned_create revision) hlast hresult⟩

/-! ### The infos of what has changed -/

theorem infoAccounted_iff {ι : Type*} [Inhabited ι] {errorText : Option String → Option String}
    {keys : List String} {answers : List (String × InfoResponse ι)}
    (hkeys : (answers.map Prod.fst).Perm keys) :
    InfoAccounted errorText keys answers (answers.map fun answer => reported answer.2) [] ↔
      ∀ answer ∈ answers, answer.2.errorCode = 0 := by
  constructor
  · intro h answer hmem
    have hnone := List.map_eq_nil_iff.mp h.errors.symm.eq_nil
    by_contra herror
    have hfailed : answer ∈ answers.filter (·.2.errorCode ≠ 0) := by simp [hmem, herror]
    rw [hnone] at hfailed
    cases hfailed
  · intro hall
    have hsuccess : answers.filter (·.2.errorCode = 0) = answers := by
      rw [List.filter_eq_self]
      simpa using hall
    have hfailure : answers.filter (·.2.errorCode ≠ 0) = [] := by
      rw [List.filter_eq_nil_iff]
      simpa using hall
    have hreported : answers.map (fun answer => reported answer.2) = answers.map Prod.snd :=
      List.map_congr_left fun answer hmem => if_neg (not_not.mpr (hall answer hmem))
    refine ⟨hkeys, ?_, ?_⟩
    · rw [hsuccess, hreported]
    · rw [hfailure]
      exact .refl _

theorem Ended.accounted (h : Ended revision m s.done) : Accounted m s.done ↔
    (∀ answer ∈ fileAnswers s.done, answer.2.errorCode = 0) ∧
      ∀ answer ∈ folderAnswers s.done, answer.2.errorCode = 0 := by
  unfold Accounted
  rw [h.filesInfo, h.foldersInfo, h.fileErrors, h.folderErrors, infoAccounted_iff h.files,
    infoAccounted_iff h.folders]

/-- Every frame that a coroutine of a poll waits in takes an answer. -/
theorem exists_resume (frame : Frame GetForeignChangesDevice ι κ) :
    ∃ answer outcome, (pollCalls getForeignChangesDevice id).resume frame answer =
      some outcome := by
  cases frame with
  | changes m => exact ⟨.changes (.ok { deviceRevision := 0 }), _, rfl⟩
  | file m => exact ⟨.file {}, _, rfl⟩
  | folder m => exact ⟨.folder {}, _, rfl⟩

/-- A poll that has called back has passed on what the change query called back with, and accounts
for everything in it that was updated exactly when no call has failed. One that cannot go on has
called back. -/
theorem accounted_iff (hlimit : 3 ≤ limit)
    (hrun : run step (poll revision limit) events = some s) :
    (∀ m ∈ s.called, s.called = [m] ∧ Changed revision m s.done ∧
      (Accounted m s.done ↔ (∀ answer ∈ fileAnswers s.done, answer.2.errorCode = 0) ∧
        ∀ answer ∈ folderAnswers s.done, answer.2.errorCode = 0)) ∧
      ((∀ event, step s event = none) → s.called ≠ []) := by
  refine ⟨fun m hcalled => ?_, fun hquiet => ?_⟩
  · obtain ⟨hone, hended⟩ := ended_of_called hlimit hrun hcalled
    exact ⟨hone, hended.changed, hended.accounted⟩
  · exact (sound_run hlimit hrun).called_ne_nil_of_quiet
      (fun waiting _ => exists_resume waiting.frame) hquiet

/-! ### Two polls -/

/-- A poll from revision 0: one answer to the change query, which updates one file, and one to
`file/get_info`. -/
def onePoll (deviceRevision : ℕ) (errorCode : ℤ) : List (Event (Answer Response Unit Unit)) :=
  [.start, .proceed, .startPosted 0,
    .respond 0 (.changes (.ok { deviceRevision, updatedFiles := [⟨"key"⟩] })), .proceed,
    .startPosted 0, .respond 0 (.file { errorCode }), .proceed, .proceed]

theorem revision_le_whole_window : ∃ s, ∃ m : PollForeignChanges Unit Unit,
    run step (poll 0 10) (onePoll 500 0) = some s ∧
    (∃ result, getForeignChangesDevice.after 0 (changesAnswers s.done) = some (.inr result) ∧
        m.latestChangesRevision = result.latestChangesRevision) ∧
      (m.latestChangesRevision ≤ 500 ↔
        nextStart 0 ≤ 500 ∧ (nextStart 0 = 500 ∨ 500 ∣ 500)) := by
  obtain ⟨s, m, hrun, hcalled, hlast⟩ : ∃ s m, run step (poll 0 10) (onePoll 500 0) = some s ∧
      m ∈ s.called ∧ lastSuccess 0 (changesAnswers s.done) = some (0, 500) :=
    ⟨_, _, rfl, List.mem_singleton_self _, rfl⟩
  exact ⟨s, m, hrun, revision_le_iff (by decide) hrun hcalled hlast⟩

/-- The device is at revision 3, and the poll is told to go on from 500. -/
theorem not_revision_le_three : ¬ ∀ (revision : ℕ) (events : List (Event (Answer Response Unit Unit)))
    (s : Poll Unit Unit) (m : PollForeignChanges Unit Unit),
    run step (poll revision 10) events = some s → m ∈ s.called →
      ∀ startRevision deviceRevision, lastSuccess revision (changesAnswers s.done) =
        some (startRevision, deviceRevision) → m.latestChangesRevision ≤ deviceRevision := by
  intro h
  obtain ⟨s, m, hrun, hcalled, hlast, hrevision⟩ : ∃ s m,
      run step (poll 0 10) (onePoll 3 0) = some s ∧ m ∈ s.called ∧
        lastSuccess 0 (changesAnswers s.done) = some (0, 3) ∧ m.latestChangesRevision = 500 :=
    ⟨_, _, rfl, List.mem_singleton_self _, rfl, rfl⟩
  have hle := h 0 _ s m hrun hcalled 0 3 hlast
  omega

theorem accounted_all_answered : ∃ s, ∃ m : PollForeignChanges Unit Unit,
    run step (poll 0 10) (onePoll 500 0) = some s ∧ m ∈ s.called ∧
      (∀ m ∈ s.called, s.called = [m] ∧ Changed 0 m s.done ∧
        (Accounted m s.done ↔ (∀ answer ∈ fileAnswers s.done, answer.2.errorCode = 0) ∧
          ∀ answer ∈ folderAnswers s.done, answer.2.errorCode = 0)) ∧
        ((∀ event, step s event = none) → s.called ≠ []) := by
  obtain ⟨s, m, hrun, hcalled⟩ : ∃ s m, run step (poll 0 10) (onePoll 500 0) = some s ∧
      m ∈ s.called := ⟨_, _, rfl, List.mem_singleton_self _⟩
  exact ⟨s, m, hrun, hcalled, accounted_iff (by decide) hrun⟩

/-- `file/get_info` fails for the only updated file. -/
theorem not_accounted_failed_call :
    ¬ ∀ (revision : ℕ) (events : List (Event (Answer Response Unit Unit))) (s : Poll Unit Unit)
      (m : PollForeignChanges Unit Unit),
      run step (poll revision 10) events = some s → m ∈ s.called → Accounted m s.done := by
  intro h
  obtain ⟨s, m, hrun, hcalled, hanswers, herrors⟩ : ∃ s m,
      run step (poll 0 10) (onePoll 500 1) = some s ∧ m ∈ s.called ∧
        fileAnswers s.done = [("key", { errorCode := 1 })] ∧ m.getInfoFileErrors = [] :=
    ⟨_, _, rfl, List.mem_singleton_self _, rfl, rfl⟩
  have hfile := (h 0 _ s m hrun hcalled).1.errors
  rw [hanswers, herrors] at hfile
  exact absurd hfile.length_eq (by decide)

end

end PollForeignChanges

end MediafireSdk.Actions
