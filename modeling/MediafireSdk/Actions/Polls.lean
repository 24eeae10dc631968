import MediafireSdk.Actions.WorkManager

/-! What `PollForeignChanges` and `PollChanges` share: the changes of a device first, then
`file/get_info` and `folder/get_info` for everything that was updated, each call a coroutine of
its own (`get_info_file_impl.hpp`, `get_info_folder_impl.hpp`) behind a `WorkManager`. The change
query is a parameter, and so is what the calls answer beside an error. -/

namespace MediafireSdk.Actions

/-! ### GetInfoFile and GetInfoFolder -/

/-- A response of `get_info`; the default is what a default-constructed one has. -/
structure InfoResponse (ι : Type*) [Inhabited ι] where
  errorCode : ℤ := 0
  errorString : Option String := none
  info : ι := default

structure GetInfoError where
  key : String
  errorCode : ℤ
  errorString : Option String
  deriving DecidableEq, Repr

/-- The members of `GetInfoFile` and `GetInfoFolder`. -/
structure GetInfo (ι : Type*) [Inhabited ι] where
  key : String
  response : InfoResponse ι := {}
  errors : List GetInfoError := []

/-- The handler of the response. Only its error text differs between the two classes. -/
def GetInfo.handle {ι : Type*} [Inhabited ι] (errorText : Option String → Option String)
    (response : InfoResponse ι) (m : GetInfo ι) : GetInfo ι :=
  if response.errorCode ≠ 0 then
    { m with errors := m.errors ++
        [⟨m.key, response.errorCode, errorText response.errorString⟩] }
  else { m with response }

def fileErrorText (errorString : Option String) : Option String :=
  some (errorString.getD "No error string provided")

def folderErrorText (errorString : Option String) : Option String := errorString

/-- What `GetInfoFile` and `GetInfoFolder` call back with after the response. -/
def getInfo {ι : Type*} [Inhabited ι] (errorText : Option String → Option String)
    (response : InfoResponse ι) (m : GetInfo ι) : InfoResponse ι × List GetInfoError :=
  let m := m.handle errorText response
  (m.response, m.errors)

/-! ### The calls of a poll -/

inductive Task where
  | changes (latestKnownRevision : ℕ)
  | file (quickkey : String)
  | folder (folderkey : String)
  deriving DecidableEq, Repr

/-- Where a call waits; `φ` are the frames of the change query. -/
inductive Frame (φ ι κ : Type*) [Inhabited ι] [Inhabited κ] where
  | changes (frame : φ)
  | file (m : GetInfo ι)
  | folder (m : GetInfo κ)

inductive Answer (ψ ι κ : Type*) [Inhabited ι] [Inhabited κ] where
  | changes (answer : ψ)
  | file (response : InfoResponse ι)
  | folder (response : InfoResponse κ)

/-- The arguments of the callbacks. -/
inductive TaskResult (θ ι κ : Type*) [Inhabited ι] [Inhabited κ] where
  | changes (result : θ)
  | file (response : InfoResponse ι) (errors : List GetInfoError)
  | folder (response : InfoResponse κ) (errors : List GetInfoError)

section

variable {ω φ ψ θ ι κ : Type*} [Inhabited ι] [Inhabited κ]

/-- The coroutines of a poll whose change query gets `arguments revision`. -/
def pollCalls (query : Coroutine ω φ ψ θ) (arguments : ℕ → ω) :
    Coroutine Task (Frame φ ι κ) (Answer ψ ι κ) (TaskResult θ ι κ) where
  start
    | .changes latestKnownRevision =>
      (query.start (arguments latestKnownRevision)).map .changes .changes
    | .file quickkey => .inl (.file { key := quickkey })
    | .folder folderkey => .inl (.folder { key := folderkey })
  resume
    | .changes frame, .changes answer => (query.resume frame answer).map (Sum.map .changes .changes)
    | .file m, .file response =>
      let result := getInfo fileErrorText response m
      some (.inr (.file result.1 result.2))
    | .folder m, .folder response =>
      let result := getInfo folderErrorText response m
      some (.inr (.folder result.1 result.2))
    | _, _ => none

/-- Which call of `ExecuteWork` the body comes to next. -/
inductive Phase where
  | changes | files | folders | done
  deriving DecidableEq, Repr

/-- What `CoroutineBody` queues for its next call of `ExecuteWork`, and whether it comes to one. -/
def nextWork (revision : ℕ) (quickkeys folderkeys : List String) : Phase → List Task × Phase × Bool
  | .changes => ([.changes revision], .files, true)
  | .files => (quickkeys.map .file, .folders, true)
  | .folders => (folderkeys.map .folder, .done, true)
  | .done => ([], .done, false)

/-! ### What the calls have answered -/

abbrev Log (ψ θ ι κ : Type*) [Inhabited ι] [Inhabited κ] :=
  List (Done Task (Answer ψ ι κ) (TaskResult θ ι κ))

def Answer.toChanges : Answer ψ ι κ → Option ψ
  | .changes answer => some answer
  | _ => none

/-- The answers to the change query. -/
def changesAnswers (done : Log ψ θ ι κ) : List ψ :=
  done.flatMap fun call => call.answers.filterMap Answer.toChanges

/-- The keys and answers of `file/get_info`. -/
def fileAnswers (done : Log ψ θ ι κ) : List (String × InfoResponse ι) :=
  done.flatMap fun call =>
    match call.task, call.answers with
    | .file quickkey, [.file response] => [(quickkey, response)]
    | _, _ => []

/-- The keys and answers of `folder/get_info`. -/
def folderAnswers (done : Log ψ θ ι κ) : List (String × InfoResponse κ) :=
  done.flatMap fun call =>
    match call.task, call.answers with
    | .folder folderkey, [.folder response] => [(folderkey, response)]
    | _, _ => []

/-- The error that an answer is expected to be reported as. -/
def infoError {ι : Type*} [Inhabited ι] (errorText : Option String → Option String)
    (answer : String × InfoResponse ι) : GetInfoError :=
  ⟨answer.1, answer.2.errorCode, errorText answer.2.errorString⟩

/-- One list of calls: each key is asked for once, and its answer is among the infos if the call
succeeded, among the errors if it failed. -/
structure InfoAccounted {ι : Type*} [Inhabited ι] (errorText : Option String → Option String)
    (keys : List String) (answers : List (String × InfoResponse ι))
    (infos : List (InfoResponse ι)) (errors : List GetInfoError) : Prop where
  asked : (answers.map Prod.fst).Perm keys
  infos : infos.Perm ((answers.filter (·.2.errorCode = 0)).map Prod.snd)
  errors : errors.Perm ((answers.filter (·.2.errorCode ≠ 0)).map (infoError errorText))

section Answers

variable {done : Log ψ θ ι κ} {key : String}

@[simp] theorem changesAnswers_file {response : InfoResponse ι} {result : TaskResult θ ι κ} :
    changesAnswers (done ++ [⟨.file key, [.file response], result⟩]) = changesAnswers done := by
  simp [changesAnswers, Answer.toChanges]

@[simp] theorem changesAnswers_folder {response : InfoResponse κ} {result : TaskResult θ ι κ} :
    changesAnswers (done ++ [⟨.folder key, [.folder response], result⟩]) = changesAnswers done := by
  simp [changesAnswers, Answer.toChanges]

@[simp] theorem fileAnswers_file {response : InfoResponse ι} {result : TaskResult θ ι κ} :
    fileAnswers (done ++ [⟨.file key, [.file response], result⟩]) =
      fileAnswers done ++ [(key, response)] := by
  simp [fileAnswers]

@[simp] theorem fileAnswers_folder {response : InfoResponse κ} {result : TaskResult θ ι κ} :
    fileAnswers (done ++ [⟨.folder key, [.folder response], result⟩]) = fileAnswers done := by
  simp [fileAnswers]

@[simp] theorem folderAnswers_file {response : InfoResponse ι} {result : TaskResult θ ι κ} :
    folderAnswers (done ++ [⟨.file key, [.file response], result⟩]) = folderAnswers done := by
  simp [folderAnswers]

@[simp] theorem folderAnswers_folder {response : InfoResponse κ} {result : TaskResult θ ι κ} :
    folderAnswers (done ++ [⟨.folder key, [.folder response], result⟩]) =
      folderAnswers done ++ [(key, response)] := by
  simp [folderAnswers]

end Answers

section Calls

variable {query : Coroutine ω φ ψ θ} {arguments : ℕ → ω} {answers : List (Answer ψ ι κ)}
  {result : TaskResult θ ι κ}

theorem after_file {quickkey : String}
    (h : (pollCalls query arguments).after (.file quickkey) answers = some (.inr result)) :
    ∃ response, answers = [.file response] ∧
      result = .file (getInfo fileErrorText response { key := quickkey }).1
        (getInfo fileErrorText response { key := quickkey }).2 := by
  rcases answers with _ | ⟨answer, _ | ⟨answer', answers⟩⟩
  · cases h
  · cases answer with
    | file response =>
      cases h
      exact ⟨response, rfl, rfl⟩
    | changes answer => cases h
    | folder response => cases h
  · cases answer <;> cases h

theorem after_folder {folderkey : String}
    (h : (pollCalls query arguments).after (.folder folderkey) answers = some (.inr result)) :
    ∃ response, answers = [.folder response] ∧
      result = .folder (getInfo folderErrorText response { key := folderkey }).1
        (getInfo folderErrorText response { key := folderkey }).2 := by
  rcases answers with _ | ⟨answer, _ | ⟨answer', answers⟩⟩
  · cases h
  · cases answer with
    | folder response =>
      cases h
      exact ⟨response, rfl, rfl⟩
    | changes answer => cases h
    | file response => cases h
  · cases answer <;> cases h

/-- The change query sees only its own answers. -/
theorem goOn_changes {outcome : φ ⊕ θ}
    (h : (pollCalls query arguments).goOn (outcome.map .changes .changes) answers =
      some (.inr result)) :
    ∃ result', result = .changes result' ∧
      query.goOn outcome (answers.filterMap Answer.toChanges) = some (.inr result') := by
  induction answers generalizing outcome with
  | nil =>
    cases outcome with
    | inl frame => cases h
    | inr result' =>
      cases h
      exact ⟨result', rfl, rfl⟩
  | cons answer answers ih =>
    cases outcome with
    | inr result' => cases h
    | inl frame =>
      cases answer with
      | changes answer =>
        obtain ⟨outcome, houtcome, hrest⟩ := Option.bind_eq_some_iff.mp h
        obtain ⟨outcome, hresume, rfl⟩ := Option.map_eq_some_iff.mp houtcome
        obtain ⟨result', hresult, hlast⟩ := ih hrest
        refine ⟨result', hresult, ?_⟩
        rw [List.filterMap_cons_some (f := Answer.toChanges) rfl, Coroutine.goOn, hresume]
        exact hlast
      | file response => cases h
      | folder response => cases h

end Calls

/-! ### What has been asked for -/

/-- What has been asked for and what is still to be, at each call of `ExecuteWork`. `changed` is
what holds once the change query has called back. -/
def Asked (revision : ℕ) (quickkeys folderkeys : List String) (changed : Prop) (phase : Phase)
    (done : Log ψ θ ι κ) (tasks : List Task) : Prop :=
  match phase with
  | .changes => tasks = [] ∧ done = []
  | .files => (tasks = [.changes revision] ∧ done = []) ∨
    (tasks = [] ∧ changed ∧ fileAnswers done = [] ∧ folderAnswers done = [])
  | .folders => changed ∧ folderAnswers done = [] ∧
    (tasks ++ (fileAnswers done).map fun answer => Task.file answer.1).Perm
      (quickkeys.map .file)
  | .done => changed ∧ ((fileAnswers done).map Prod.fst).Perm quickkeys ∧
    (tasks ++ (folderAnswers done).map fun answer => Task.folder answer.1).Perm
      (folderkeys.map .folder)

/-- A call that has called back, and what has been asked for behind it. -/
inductive Handled (query : Coroutine ω φ ψ θ) (arguments : ℕ → ω) (revision : ℕ)
    (quickkeys folderkeys : List String) (changed : Prop) (done : Log ψ θ ι κ) (tasks : List Task) :
    Phase → Done Task (Answer ψ ι κ) (TaskResult θ ι κ) → Prop
  | changes (answers : List (Answer ψ ι κ)) (result : θ) (hdone : done = [])
      (hquery : query.after (arguments revision) (answers.filterMap Answer.toChanges) =
        some (.inr result))
      (hasked : ∀ quickkeys' folderkeys' changed', changed' →
        Asked revision quickkeys' folderkeys' changed' .files
          (done ++ [⟨.changes revision, answers, .changes result⟩]) tasks) :
    Handled query arguments revision quickkeys folderkeys changed done tasks .files
      ⟨.changes revision, answers, .changes result⟩
  | file (quickkey : String) (response : InfoResponse ι)
      (hasked : ∀ changed', (changed → changed') →
        ∀ result, Asked revision quickkeys folderkeys changed' .folders
          (done ++ [⟨.file quickkey, [.file response], result⟩]) tasks) :
    Handled query arguments revision quickkeys folderkeys changed done tasks .folders
      ⟨.file quickkey, [.file response],
        .file (getInfo fileErrorText response { key := quickkey }).1
          (getInfo fileErrorText response { key := quickkey }).2⟩
  | folder (folderkey : String) (response : InfoResponse κ)
      (hasked : ∀ changed', (changed → changed') →
        ∀ result, Asked revision quickkeys folderkeys changed' .done
          (done ++ [⟨.folder folderkey, [.folder response], result⟩]) tasks) :
    Handled query arguments revision quickkeys folderkeys changed done tasks .done
      ⟨.folder folderkey, [.folder response],
        .folder (getInfo folderErrorText response { key := folderkey }).1
          (getInfo folderErrorText response { key := folderkey }).2⟩

section Asked

variable {revision : ℕ} {quickkeys folderkeys : List String} {changed changed' : Prop}
  {phase : Phase} {done : Log ψ θ ι κ} {tasks tasks' : List Task}

theorem Asked.perm (hperm : tasks.Perm tasks')
    (h : Asked revision quickkeys folderkeys changed phase done tasks) :
    Asked revision quickkeys folderkeys changed phase done tasks' := by
  cases phase with
  | changes =>
    obtain ⟨rfl, hdone⟩ := h
    exact ⟨hperm.symm.eq_nil, hdone⟩
  | files =>
    rcases h with ⟨rfl, hdone⟩ | ⟨rfl, hrest⟩
    · exact .inl ⟨List.perm_singleton.mp hperm.symm, hdone⟩
    · exact .inr ⟨hperm.symm.eq_nil, hrest⟩
  | folders => exact ⟨h.1, h.2.1, (hperm.symm.append_right _).trans h.2.2⟩
  | done => exact ⟨h.1, h.2.1, (hperm.symm.append_right _).trans h.2.2⟩

theorem Asked.imp (himp : changed → changed')
    (h : Asked revision quickkeys folderkeys changed phase done tasks) :
    Asked revision quickkeys folderkeys changed' phase done tasks := by
  cases phase with
  | changes => exact h
  | files => exact Or.imp_right (fun hrest => ⟨hrest.1, himp hrest.2.1, hrest.2.2⟩) h
  | folders => exact ⟨himp h.1, h.2⟩
  | done => exact ⟨himp h.1, h.2⟩

theorem perm_keys {answers : List (String × InfoResponse ι)} {keys : List String}
    {task : String → Task} (hinj : Function.Injective task)
    (h : (answers.map fun answer => task answer.1).Perm (keys.map task)) :
    (answers.map Prod.fst).Perm keys := by
  rw [← List.map_perm_map_iff hinj, List.map_map]
  exact h

theorem Asked.next (h : Asked revision quickkeys folderkeys changed phase done [])
    (hexecutes : (nextWork revision quickkeys folderkeys phase).2.2 = true) :
    Asked revision quickkeys folderkeys changed (nextWork revision quickkeys folderkeys phase).2.1
      done (nextWork revision quickkeys folderkeys phase).1 := by
  cases phase with
  | changes => exact .inl ⟨rfl, h.2⟩
  | files =>
    rcases h with ⟨htasks, -⟩ | ⟨-, hchanged, hfiles, hfolders⟩
    · cases htasks
    · refine ⟨hchanged, hfolders, ?_⟩
      rw [hfiles, List.map_nil, List.append_nil]
      rfl
  | folders =>
    obtain ⟨hchanged, hfolders, hfiles⟩ := h
    refine ⟨hchanged, perm_keys (fun _ _ => Task.file.inj) hfiles, ?_⟩
    rw [hfolders, List.map_nil, List.append_nil]
    rfl
  | done => cases hexecutes

/-- The body has come to its end. -/
theorem Asked.ended (h : Asked revision quickkeys folderkeys changed phase done [])
    (hends : (nextWork revision quickkeys folderkeys phase).2.2 = false) :
    changed ∧ ((fileAnswers done).map Prod.fst).Perm quickkeys ∧
      ((folderAnswers done).map Prod.fst).Perm folderkeys := by
  cases phase with
  | changes => cases hends
  | files => cases hends
  | folders => cases hends
  | done => exact ⟨h.1, h.2.1, perm_keys (fun _ _ => Task.folder.inj) h.2.2⟩

theorem Asked.handle {query : Coroutine ω φ ψ θ} {arguments : ℕ → ω} {task : Task}
    {answers : List (Answer ψ ι κ)} {result : TaskResult θ ι κ}
    (h : Asked revision quickkeys folderkeys changed phase done (task :: tasks))
    (hafter : (pollCalls query arguments).after task answers = some (.inr result)) :
    Handled query arguments revision quickkeys folderkeys changed done tasks phase
      ⟨task, answers, result⟩ := by
  cases phase with
  | changes => cases h.1
  | files =>
    rcases h with ⟨htasks, rfl⟩ | ⟨htasks, -⟩
    · cases htasks
      obtain ⟨result, rfl, hquery⟩ := goOn_changes hafter
      exact .changes answers result rfl hquery fun _ _ _ hchanged =>
        .inr ⟨rfl, hchanged, rfl, rfl⟩
    · cases htasks
  | folders =>
    obtain ⟨hchanged, hfolders, hfiles⟩ := h
    obtain ⟨quickkey, -, rfl⟩ := List.mem_map.mp (hfiles.subset List.mem_cons_self)
    obtain ⟨response, rfl, rfl⟩ := after_file hafter
    refine .file quickkey response fun _ himp result => ⟨himp hchanged, ?_, ?_⟩
    · rw [folderAnswers_file, hfolders]
    · rw [fileAnswers_file, List.map_append, ← List.append_assoc]
      exact (List.perm_append_singleton _ _).trans hfiles
  | done =>
    obtain ⟨hchanged, hfiles, hfolders⟩ := h
    obtain ⟨folderkey, -, rfl⟩ := List.mem_map.mp (hfolders.subset List.mem_cons_self)
    obtain ⟨response, rfl, rfl⟩ := after_folder hafter
    refine .folder folderkey response fun _ himp result => ⟨himp hchanged, ?_, ?_⟩
    · rw [fileAnswers_folder]
      exact hfiles
    · rw [folderAnswers_folder, List.map_append, ← List.append_assoc]
      exact (List.perm_append_singleton _ _).trans hfolders

end Asked

end

end MediafireSdk.Actions
