import MediafireSdk.Actions.GetFolderContents

/-! `CloneCloudTree` (`clone_cloud_tree_impl.hpp`): the contents of a folder and of all folders
below it, each folder a `GetFolderContents` of its own behind a `WorkManager`. The keys of one
level are queued before the level is executed; the loop that queues them counts the keys and
gives up behind `MAX_LOOP_ITERATIONS`. -/

namespace MediafireSdk.Actions

def maxLoopIterations : ℕ := 100

/-- The members of `CloneCloudTree`, with the counter of its body. `asserted` is set by the
`assert(0)` behind the last iteration. -/
structure CloneCloudTree where
  newFolderKeys : List String
  files : List File := []
  folders : List Folder := []
  errors : List ContentError := []
  numLoopIterations : ℕ := 0
  asserted : Bool := false
  deriving DecidableEq, Repr

namespace CloneCloudTree

/-- Where the loop of the body stops. -/
inductive LoopEnd where
  | executesWork | noMoreKeys | tooManyIterations
  deriving DecidableEq, Repr

/-- The loop of the body up to `ExecuteWork` or its end: the keys it queues and leaves, and the
iterations then. -/
def queueKeys (numLoopIterations : ℕ) : List String → List String × List String × ℕ × LoopEnd
  | [] => ([], [], numLoopIterations, .noMoreKeys)
  | folderKey :: newFolderKeys =>
    if maxLoopIterations < numLoopIterations then
      ([], folderKey :: newFolderKeys, numLoopIterations, .tooManyIterations)
    else if newFolderKeys = [] then ([folderKey], [], numLoopIterations + 1, .executesWork)
    else
      let rest := queueKeys (numLoopIterations + 1) newFolderKeys
      (folderKey :: rest.1, rest.2)

/-- `HandleGetFolderContents`. -/
def handleGetFolderContents (contents : Contents) (m : CloneCloudTree) : CloneCloudTree :=
  { m with
    errors := m.errors ++ contents.errors
    files := m.files ++ contents.files
    folders := m.folders ++ contents.folders
    newFolderKeys := m.newFolderKeys ++ contents.folders.map Folder.folderkey }

/-- `CoroutineBody`. -/
def body : Body (String × FilesOrFoldersOrBoth) Contents CloneCloudTree where
  next m :=
    let (queued, newFolderKeys, numLoopIterations, loopEnd) :=
      queueKeys m.numLoopIterations m.newFolderKeys
    (queued.map (·, .both),
      { m with newFolderKeys, numLoopIterations, asserted := loopEnd = .tooManyIterations },
      loopEnd = .executesWork)
  handle _ contents m := m.handleGetFolderContents contents

/-! ### A server -/

/-- The chunks in which a server sends the files and the folders of each folder. -/
structure Server where
  fileChunks : String → List (List File)
  folderChunks : String → List (List Folder)
  fileChunks_ne_nil : ∀ folderKey, fileChunks folderKey ≠ []
  folderChunks_ne_nil : ∀ folderKey, folderChunks folderKey ≠ []

namespace Server

def files (server : Server) (folderKey : String) : List File :=
  (server.fileChunks folderKey).flatten

def folders (server : Server) (folderKey : String) : List Folder :=
  (server.folderChunks folderKey).flatten

/-- The number of requests for a folder. -/
def requests (server : Server) (folderKey : String) : ℕ :=
  (server.fileChunks folderKey).length + (server.folderChunks folderKey).length

def answerFiles (server : Server) (folderKey : String) (chunkNum : ℕ) : ContentResponse where
  chunkNumber := chunkNum
  lastChunk := chunkNum = (server.fileChunks folderKey).length
  files := (server.fileChunks folderKey).getD (chunkNum - 1) []

def answerFolders (server : Server) (folderKey : String) (chunkNum : ℕ) : ContentResponse where
  chunkNumber := chunkNum
  lastChunk := chunkNum = (server.folderChunks folderKey).length
  folders := (server.folderChunks folderKey).getD (chunkNum - 1) []

/-- `GetFolderContents` with the answers of the server: what is left open is which of its
requests is answered. -/
def getFolderContents (server : Server) :
    Coroutine (String × FilesOrFoldersOrBoth) GetFolderContents ContentType Contents where
  start := Actions.getFolderContents.start
  resume m contentType :=
    match contentType with
    | .files => m.filesRequest.bind fun chunkNum =>
      Actions.getFolderContents.resume m (.files, server.answerFiles m.folderKey chunkNum)
    | .folders => m.foldersRequest.bind fun chunkNum =>
      Actions.getFolderContents.resume m (.folders, server.answerFolders m.folderKey chunkNum)

end Server

/-- A clone with its coroutines. -/
abbrev CloneSystem :=
  System (String × FilesOrFoldersOrBoth) GetFolderContents ContentType Contents CloneCloudTree

/-- The clone of a tree, before it is started. The work manager is the caller's. -/
def clone (folderKey : String) (maxConcurrentWork : ℕ) : CloneSystem :=
  System.create { newFolderKeys := [folderKey] } maxConcurrentWork

abbrev step (server : Server) : CloneSystem → Event ContentType → Option CloneSystem :=
  System.step body server.getFolderContents

/-! ### The contents of one folder -/

/-- How much of one kind of content a coroutine has, between two rounds. -/
structure Ready {τ : Type*} (chunks : List (List τ)) (received : ℕ) (items : List τ)
    (remaining : Bool) (request : Option ℕ) (chunkNum : ℕ) : Prop where
  items : items = (chunks.take received).flatten
  remaining : remaining = decide (received < chunks.length)
  unasked : request = none
  num : received < chunks.length → chunkNum = received + 1
  le : received ≤ chunks.length

/-- The same inside a round. -/
structure Asking {τ : Type*} (chunks : List (List τ)) (received : ℕ) (items : List τ)
    (remaining : Bool) (request : Option ℕ) (chunkNum : ℕ) : Prop where
  items : items = (chunks.take received).flatten
  remaining : remaining = decide (received < chunks.length)
  requested : ∀ asked ∈ request, asked = received + 1 ∧ received < chunks.length ∧
    chunkNum = received + 1
  answered : request = none → received < chunks.length → chunkNum = received
  le : received ≤ chunks.length

section Kind

variable {τ : Type*} {chunks : List (List τ)} {received chunkNum : ℕ} {items : List τ}
  {remaining : Bool} {request : Option ℕ}

theorem Ready.ask (h : Ready chunks received items remaining request chunkNum) :
    Asking chunks received items remaining (if remaining = true then some chunkNum else request)
      chunkNum := by
  refine ⟨h.items, h.remaining, ?_, ?_, h.le⟩
  · intro asked hasked
    split_ifs at hasked with hremaining
    · cases hasked
      have hlt : received < chunks.length := by
        rw [h.remaining] at hremaining
        exact of_decide_eq_true hremaining
      exact ⟨h.num hlt, hlt, h.num hlt⟩
    · rw [h.unasked] at hasked
      cases hasked
  · intro hnone hlt
    have hremaining : remaining = true := h.remaining.trans (decide_eq_true hlt)
    rw [if_pos hremaining] at hnone
    cases hnone

theorem Asking.answer {asked : ℕ}
    (h : Asking chunks received items remaining (some asked) chunkNum) :
    Asking chunks (received + 1) (items ++ chunks.getD (asked - 1) [])
      (!decide (asked = chunks.length) && remaining) none chunkNum := by
  obtain ⟨rfl, hlt, hnum⟩ := h.requested asked rfl
  refine ⟨?_, ?_, nofun, fun _ _ => hnum, hlt⟩
  · have hget : chunks.getD (received + 1 - 1) [] = chunks[received] := by
      simp [List.getD, hlt]
    rw [h.items, hget, List.take_succ_eq_append_getElem hlt, List.flatten_append]
    simp
  · rw [h.remaining, decide_eq_true hlt, Bool.and_true, ← decide_not]
    exact decide_eq_decide.mpr (by omega)

theorem Asking.next (h : Asking chunks received items remaining none chunkNum) :
    Ready chunks received items remaining none
      (if remaining = true then chunkNum + 1 else chunkNum) := by
  refine ⟨h.items, h.remaining, rfl, fun hlt => ?_, h.le⟩
  rw [if_pos (h.remaining.trans (decide_eq_true hlt)), h.answered rfl hlt]

theorem Ready.all (h : Ready chunks received items remaining request chunkNum)
    (hremaining : remaining = false) : items = chunks.flatten ∧ received = chunks.length := by
  rw [h.remaining, decide_eq_false_iff_not, not_lt] at hremaining
  exact ⟨by rw [h.items, List.take_of_length_le hremaining], le_antisymm h.le hremaining⟩

end Kind

/-- What no round changes. -/
structure Unchanged (folderKey : String) (m : GetFolderContents) : Prop where
  key : m.folderKey = folderKey
  both : m.filesOrFoldersOrBoth = .both
  uncancelled : m.cancelled = false
  errors : m.errors = []

/-- A coroutine between two rounds, `a` chunks of files and `b` chunks of folders behind it. -/
structure Between (server : Server) (folderKey : String) (m : GetFolderContents) (a b : ℕ) : Prop
    extends Unchanged folderKey m where
  files : Ready (server.fileChunks folderKey) a m.files m.fileChunksRemaining m.filesRequest
    m.filesChunkNum
  folders : Ready (server.folderChunks folderKey) b m.folders m.folderChunksRemaining
    m.foldersRequest m.foldersChunkNum

/-- A coroutine that waits inside a round, once for each request. -/
structure Fetching (server : Server) (folderKey : String) (m : GetFolderContents) (a b : ℕ) : Prop
    extends Unchanged folderKey m where
  files : Asking (server.fileChunks folderKey) a m.files m.fileChunksRemaining m.filesRequest
    m.filesChunkNum
  folders : Asking (server.folderChunks folderKey) b m.folders m.folderChunksRemaining
    m.foldersRequest m.foldersChunkNum
  yields : m.yieldCount = m.filesRequest.toList.length + m.foldersRequest.toList.length
  waits : m.yieldCount ≠ 0

/-- What a coroutine is left with after a number of answers. -/
def Fetched (server : Server) (folderKey : String) (answers : ℕ) :
    GetFolderContents ⊕ Contents → Prop :=
  Sum.elim (fun m => ∃ a b, Fetching server folderKey m a b ∧ answers = a + b)
    fun contents => contents = ⟨server.files folderKey, server.folders folderKey, []⟩ ∧
      answers = server.requests folderKey

section Folder

variable {server : Server} {folderKey : String} {m : GetFolderContents} {a b : ℕ}

theorem Between.loop (h : Between server folderKey m a b) :
    Fetched server folderKey (a + b) m.loop := by
  have hloop : m.loop =
      if m.folderChunksRemaining = true ∨ m.fileChunksRemaining = true then
        .inl { m with
          filesRequest :=
            if m.fileChunksRemaining = true then some m.filesChunkNum else m.filesRequest
          foldersRequest :=
            if m.folderChunksRemaining = true then some m.foldersChunkNum else m.foldersRequest
          yieldCount := (if m.fileChunksRemaining = true then 1 else 0) +
            if m.folderChunksRemaining = true then 1 else 0 }
      else .inr ⟨m.files, m.folders, m.errors⟩ := by
    simp [GetFolderContents.loop, h.both, h.uncancelled]
  rw [hloop]
  by_cases hleft : m.folderChunksRemaining = true ∨ m.fileChunksRemaining = true
  · rw [if_pos hleft]
    refine ⟨a, b, ⟨⟨h.key, h.both, h.uncancelled, h.errors⟩, h.files.ask, h.folders.ask,
      ?_, ?_⟩, rfl⟩
    · simp only [h.files.unasked, h.folders.unasked]
      split_ifs <;> rfl
    · rcases hleft with hleft | hleft <;> simp [hleft]
  · rw [if_neg hleft]
    rw [not_or, Bool.not_eq_true, Bool.not_eq_true] at hleft
    obtain ⟨hfolders, hb⟩ := h.folders.all hleft.1
    obtain ⟨hfiles, ha⟩ := h.files.all hleft.2
    refine ⟨?_, by rw [ha, hb, Server.requests]⟩
    rw [hfiles, hfolders, h.errors]
    rfl

theorem Fetching.resume (h : Unchanged folderKey m)
    (hfiles : Asking (server.fileChunks folderKey) a m.files m.fileChunksRemaining m.filesRequest
      m.filesChunkNum)
    (hfolders : Asking (server.folderChunks folderKey) b m.folders m.folderChunksRemaining
      m.foldersRequest m.foldersChunkNum)
    (hyields : m.yieldCount = m.filesRequest.toList.length + m.foldersRequest.toList.length + 1) :
    Fetched server folderKey (a + b) m.resume := by
  unfold GetFolderContents.resume
  dsimp only
  have hcount : m.yieldCount - 1 =
      m.filesRequest.toList.length + m.foldersRequest.toList.length := by omega
  split_ifs with hlast
  · have hnone : m.filesRequest = none ∧ m.foldersRequest = none := by
      cases hasked : m.filesRequest <;> cases hasked' : m.foldersRequest <;>
        simp [hasked, hasked'] at hcount <;> simp_all
    refine Between.loop ⟨⟨h.key, h.both, h.uncancelled, h.errors⟩, ?_, ?_⟩
    · rw [hnone.1] at hfiles
      exact (show m.filesRequest = none from hnone.1) ▸ hfiles.next
    · rw [hnone.2] at hfolders
      exact (show m.foldersRequest = none from hnone.2) ▸ hfolders.next
  · exact ⟨a, b, ⟨⟨h.key, h.both, h.uncancelled, h.errors⟩, hfiles, hfolders, hcount, hlast⟩, rfl⟩

theorem Fetching.answer {contentType : ContentType} {outcome : GetFolderContents ⊕ Contents}
    (h : Fetching server folderKey m a b)
    (hresume : server.getFolderContents.resume m contentType = some outcome) :
    Fetched server folderKey (a + b + 1) outcome := by
  cases contentType with
  | files =>
    obtain ⟨asked, hasked, houtcome⟩ := Option.bind_eq_some_iff.mp hresume
    rw [h.key] at houtcome
    obtain ⟨-, -, rfl⟩ := Option.map_eq_some_iff.mp houtcome
    have hfiles := h.files
    have hyields := h.yields
    rw [hasked] at hfiles hyields
    rw [show a + b + 1 = (a + 1) + b by omega]
    refine Fetching.resume (a := a + 1) ⟨h.key, h.both, h.uncancelled, h.errors⟩ hfiles.answer
      h.folders ?_
    exact hyields.trans (Nat.add_right_comm _ _ _ |>.trans (by rfl))
  | folders =>
    obtain ⟨asked, hasked, houtcome⟩ := Option.bind_eq_some_iff.mp hresume
    rw [h.key] at houtcome
    obtain ⟨-, -, rfl⟩ := Option.map_eq_some_iff.mp houtcome
    have hfolders := h.folders
    have hyields := h.yields
    rw [hasked] at hfolders hyields
    refine Fetching.resume (b := b + 1) ⟨h.key, h.both, h.uncancelled, h.errors⟩ h.files
      hfolders.answer ?_
    exact hyields

theorem fetched_start (server : Server) (folderKey : String) :
    Fetched server folderKey 0 (server.getFolderContents.start (folderKey, .both)) := by
  have hfiles := List.length_pos_iff.mpr (server.fileChunks_ne_nil folderKey)
  have hfolders := List.length_pos_iff.mpr (server.folderChunks_ne_nil folderKey)
  refine Between.loop (m := .create folderKey .both) (a := 0) (b := 0)
    ⟨⟨rfl, rfl, rfl, rfl⟩, ?_, ?_⟩
  · exact ⟨rfl, by simpa [GetFolderContents.create] using hfiles, rfl, fun _ => rfl, Nat.zero_le _⟩
  · exact ⟨rfl, by simpa [GetFolderContents.create] using hfolders, rfl, fun _ => rfl,
      Nat.zero_le _⟩

/-- Whichever of its requests are answered first, a coroutine has the whole folder when it calls
back. -/
theorem fetched_after {answers : List ContentType} {outcome : GetFolderContents ⊕ Contents}
    (h : server.getFolderContents.after (folderKey, .both) answers = some outcome) :
    Fetched server folderKey answers.length outcome := by
  refine Coroutine.after_spec
    (I := fun answers m => ∃ a b, Fetching server folderKey m a b ∧ answers.length = a + b)
    (Q := fun answers contents => contents =
      Contents.mk (server.files folderKey) (server.folders folderKey) [] ∧
        answers.length = server.requests folderKey) ?_ ?_ h
  · exact fetched_start server folderKey
  rintro answers m answer outcome ⟨a, b, hm, hlength⟩ hresume
  have hfetched := hm.answer hresume
  rw [← hlength] at hfetched
  simpa [Fetched] using hfetched

end Folder

end CloneCloudTree

end MediafireSdk.Actions
