import MediafireSdk.Actions.ForeignChanges

/-! `GetFolderContents` (`get_folder_contents_impl.hpp`): a coroutine that asks for the chunks of
a folder's files and folders, one of each at a time. The two requests of a round may be answered
in either order. -/

namespace MediafireSdk.Actions

/-- What is asked for, and what an answer is about. -/
inductive ContentType where
  | files | folders
  deriving DecidableEq, Repr

inductive FilesOrFoldersOrBoth where
  | files | folders | both
  deriving DecidableEq, Repr

/-- A response of `folder/get_content`. -/
structure ContentResponse where
  errorCode : ℤ := 0
  errorString : Option String := none
  chunkNumber : ℕ := 0
  lastChunk : Bool := true
  files : List File := []
  folders : List Folder := []
  deriving DecidableEq, Repr

structure ContentError where
  folderKey : String
  contentType : ContentType
  chunkNum : ℕ
  errorCode : ℤ
  errorString : Option String
  deriving DecidableEq, Repr

/-- The members of `GetFolderContents`, with the variables of its body. A request is the number
of the chunk that it asks for; these numbers are `int`, so a folder has less than `2 ^ 31` chunks. -/
structure GetFolderContents where
  folderKey : String
  filesOrFoldersOrBoth : FilesOrFoldersOrBoth
  files : List File := []
  folders : List Folder := []
  errors : List ContentError := []
  fileChunksRemaining : Bool
  folderChunksRemaining : Bool
  filesRequest : Option ℕ := none
  foldersRequest : Option ℕ := none
  cancelled : Bool := false
  filesChunkNum : ℕ := 1
  foldersChunkNum : ℕ := 1
  yieldCount : ℕ := 0
  deriving DecidableEq, Repr

/-- The arguments of the callback. -/
structure Contents where
  files : List File
  folders : List Folder
  errors : List ContentError
  deriving DecidableEq, Repr

namespace GetFolderContents

def create (folderKey : String) (filesOrFoldersOrBoth : FilesOrFoldersOrBoth) :
    GetFolderContents where
  folderKey
  filesOrFoldersOrBoth
  fileChunksRemaining := filesOrFoldersOrBoth = .files ∨ filesOrFoldersOrBoth = .both
  folderChunksRemaining := filesOrFoldersOrBoth = .folders ∨ filesOrFoldersOrBoth = .both

/-- `HandleFolderGetContentsFiles`. -/
def handleFiles (response : ContentResponse) (m : GetFolderContents) : GetFolderContents :=
  if response.errorCode ≠ 0 then
    { m with
      filesRequest := none
      errors := m.errors ++
        [⟨m.folderKey, .files, response.chunkNumber, response.errorCode, response.errorString⟩] }
  else
    { m with
      filesRequest := none
      files := m.files ++ response.files
      fileChunksRemaining := !response.lastChunk && m.fileChunksRemaining }

/-- `HandleFolderGetContentsFolders`. -/
def handleFolders (response : ContentResponse) (m : GetFolderContents) : GetFolderContents :=
  if response.errorCode ≠ 0 then
    { m with
      foldersRequest := none
      errors := m.errors ++
        [⟨m.folderKey, .folders, response.chunkNumber, response.errorCode,
          some (response.errorString.getD "No error string provided")⟩] }
  else
    { m with
      foldersRequest := none
      folders := m.folders ++ response.folders
      folderChunksRemaining := !response.lastChunk && m.folderChunksRemaining }

/-- The head of the loop: the requests of a round, or the callback. -/
def loop (m : GetFolderContents) : GetFolderContents ⊕ Contents :=
  if (m.folderChunksRemaining ∨ m.fileChunksRemaining) ∧ m.cancelled = false then
    let asksFiles := (m.filesOrFoldersOrBoth = .files ∨ m.filesOrFoldersOrBoth = .both) ∧
      m.fileChunksRemaining
    let asksFolders := (m.filesOrFoldersOrBoth = .folders ∨ m.filesOrFoldersOrBoth = .both) ∧
      m.folderChunksRemaining
    .inl { m with
      filesRequest := if asksFiles then some m.filesChunkNum else m.filesRequest
      foldersRequest := if asksFolders then some m.foldersChunkNum else m.foldersRequest
      yieldCount := (if asksFiles then 1 else 0) + if asksFolders then 1 else 0 }
  else .inr ⟨m.files, m.folders, m.errors⟩

/-- The end of the body of the loop. -/
def nextChunks (m : GetFolderContents) : GetFolderContents :=
  { m with
    foldersChunkNum := if m.folderChunksRemaining then m.foldersChunkNum + 1 else m.foldersChunkNum
    filesChunkNum := if m.fileChunksRemaining then m.filesChunkNum + 1 else m.filesChunkNum }

/-- A handler has resumed the body, which is suspended once for each request. -/
def resume (m : GetFolderContents) : GetFolderContents ⊕ Contents :=
  let m := { m with yieldCount := m.yieldCount - 1 }
  if m.yieldCount = 0 then m.nextChunks.loop else .inl m

end GetFolderContents

def getFolderContents :
    Coroutine (String × FilesOrFoldersOrBoth) GetFolderContents (ContentType × ContentResponse)
      Contents where
  start task := (GetFolderContents.create task.1 task.2).loop
  resume
    | m, (.files, response) =>
      m.filesRequest.map fun _ => (m.handleFiles response).resume
    | m, (.folders, response) =>
      m.foldersRequest.map fun _ => (m.handleFolders response).resume

end MediafireSdk.Actions
