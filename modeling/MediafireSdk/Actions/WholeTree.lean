import MediafireSdk.Actions.CloneCloudTree
import MediafireSdk.Actions.WorkProgress
import MediafireSdk.Lib.Below

/-! Whether `CloneCloudTree` has a whole tree when it calls back. Nothing depends on the order in
which the coroutines are answered: between the levels and inside them every key is queued next, a
task or done, and what is below the first two is what is still missing. The loop's limit is all
that can cut a clone short, and it counts one key for each folder. -/

namespace MediafireSdk.Actions

open Runs Trees
open scoped List

namespace CloneCloudTree

/-! ### The keys of a level -/

/-- What the loop of the body does with the keys of a level. -/
structure Queued (n : ℕ) (keys : List String) (queued left : List String) (n' : ℕ)
    (loopEnd : LoopEnd) : Prop where
  append : queued ++ left = keys
  count : n' = n + queued.length
  executes : loopEnd = .executesWork → left = [] ∧ queued ≠ [] ∧ n' ≤ maxLoopIterations + 1
  noMore : loopEnd = .noMoreKeys → keys = []
  tooMany : loopEnd = .tooManyIterations → left ≠ [] ∧ maxLoopIterations < n'

theorem queueKeys_queued (n : ℕ) (keys : List String) :
    Queued n keys (queueKeys n keys).1 (queueKeys n keys).2.1 (queueKeys n keys).2.2.1
      (queueKeys n keys).2.2.2 := by
  induction keys generalizing n with
  | nil => exact ⟨rfl, rfl, nofun, fun _ => rfl, nofun⟩
  | cons key keys ih =>
    rw [queueKeys]
    split_ifs with hmany hlast
    · exact ⟨rfl, rfl, nofun, nofun, fun _ => ⟨List.cons_ne_nil _ _, hmany⟩⟩
    · subst hlast
      refine ⟨rfl, rfl, fun _ => ⟨rfl, List.cons_ne_nil _ _, ?_⟩, nofun, nofun⟩
      exact Nat.succ_le_succ (not_lt.mp hmany)
    · have h := ih (n + 1)
      refine ⟨by simp [h.append], ?_, fun hend => ?_, fun hend => absurd (h.noMore hend) hlast,
        h.tooMany⟩
      · rw [h.count, List.length_cons]
        omega
      · obtain ⟨hleft, -, hcount⟩ := h.executes hend
        exact ⟨hleft, List.cons_ne_nil _ _, hcount⟩

/-! ### The tree -/

/-- How far a clone is: `unseen` is below the folders that it has not got the contents of, and
every key is either queued next, a task, or done. -/
structure Cloning (server : Server) (folderKey : String) (folders : List Folder)
    (m : CloneCloudTree)
    (done : List (Done (String × FilesOrFoldersOrBoth) ContentType Contents))
    (tasks : List (String × FilesOrFoldersOrBoth)) : Prop where
  errors : m.errors = []
  both : ∀ task ∈ tasks, task.2 = .both
  unasserted : m.asserted = false
  count : m.numLoopIterations = done.length + tasks.length
  few : m.numLoopIterations ≤ maxLoopIterations + 1
  answered : ∀ ended ∈ done, ended.answers.length = server.requests ended.task.1
  keys : (done.map (·.task.1) ++ (m.newFolderKeys ++ tasks.map Prod.fst)).Perm
    (folderKey :: m.folders.map Folder.folderkey)
  unseen : ∃ unseen, Below server.folders Folder.folderkey
    (m.newFolderKeys ++ tasks.map Prod.fst) unseen ∧ (m.folders ++ unseen).Perm folders
  files : m.files.Perm ((done.map (·.task.1)).flatMap server.files)

section Tree

variable {server : Server} {folderKey : String} {folders : List Folder} {m : CloneCloudTree}
  {done : List (Done (String × FilesOrFoldersOrBoth) ContentType Contents)}
  {tasks tasks' : List (String × FilesOrFoldersOrBoth)}

theorem Cloning.create (h : Below server.folders Folder.folderkey [folderKey] folders) :
    Cloning server folderKey folders { newFolderKeys := [folderKey] } [] [] :=
  ⟨rfl, nofun, rfl, rfl, Nat.zero_le _, nofun, .refl _, ⟨folders, h, .refl _⟩, .refl _⟩

theorem Cloning.perm (hperm : tasks.Perm tasks')
    (h : Cloning server folderKey folders m done tasks) :
    Cloning server folderKey folders m done tasks' := by
  have hkeys : (m.newFolderKeys ++ tasks.map Prod.fst).Perm
      (m.newFolderKeys ++ tasks'.map Prod.fst) := (hperm.map _).append_left _
  obtain ⟨unseen, hbelow, hunseen⟩ := h.unseen
  obtain ⟨unseen', hbelow', hsame⟩ := hbelow.perm hkeys
  exact ⟨h.errors, fun task htask => h.both task (hperm.mem_iff.mpr htask), h.unasserted,
    hperm.length_eq ▸ h.count, h.few, h.answered, (hkeys.symm.append_left _).trans h.keys,
    ⟨unseen', hbelow', (hsame.symm.append_left _).trans hunseen⟩, h.files⟩

theorem Cloning.next {m' : CloneCloudTree} (h : Cloning server folderKey folders m done [])
    (hnext : body.next m = (tasks, m', true)) :
    Cloning server folderKey folders m' done tasks := by
  have hqueued := queueKeys_queued m.numLoopIterations m.newFolderKeys
  simp only [body, Prod.mk.injEq, decide_eq_true_eq] at hnext
  obtain ⟨rfl, rfl, hend⟩ := hnext
  obtain ⟨hleft, -, hfew⟩ := hqueued.executes hend
  have hall : (queueKeys m.numLoopIterations m.newFolderKeys).1 = m.newFolderKeys := by
    simpa [hleft] using hqueued.append
  have hkeys : (queueKeys m.numLoopIterations m.newFolderKeys).2.1 ++
      ((queueKeys m.numLoopIterations m.newFolderKeys).1.map
        fun key => (key, FilesOrFoldersOrBoth.both)).map Prod.fst =
      m.newFolderKeys ++ ([] : List (String × FilesOrFoldersOrBoth)).map Prod.fst := by
    simp [hleft, hall, Function.comp_def]
  refine ⟨h.errors, ?_, by simp [hend], ?_, hfew, h.answered, ?_, ?_, h.files⟩
  · simp
  · rw [hqueued.count, h.count]
    simp
  · rw [hkeys]
    exact h.keys
  · rw [hkeys]
    exact h.unseen

theorem Cloning.handle {task : String × FilesOrFoldersOrBoth} {answers : List ContentType}
    {result : Contents} (h : Cloning server folderKey folders m done (task :: tasks))
    (hresult : server.getFolderContents.after task answers = some (.inr result)) :
    Cloning server folderKey folders (m.handleGetFolderContents result)
      (done ++ [⟨task, answers, result⟩]) tasks := by
  obtain ⟨key, content⟩ := task
  obtain rfl : content = .both := h.both _ List.mem_cons_self
  obtain ⟨rfl, hanswers⟩ := fetched_after hresult
  obtain ⟨unseen, hbelow, hunseen⟩ := h.unseen
  -- The key that has been looked up moves to the front, and its children take its place.
  have hfront : (m.newFolderKeys ++ ((key, FilesOrFoldersOrBoth.both) :: tasks).map Prod.fst).Perm
      (key :: (m.newFolderKeys ++ tasks.map Prod.fst)) := List.perm_middle
  obtain ⟨unseen', hbelow', hsame⟩ := hbelow.perm hfront
  obtain ⟨first, rest, hfirst, hrest, rfl⟩ := hbelow'.uncons
  have hback : ((server.folders key).map Folder.folderkey ++
      (m.newFolderKeys ++ tasks.map Prod.fst)).Perm
      (m.newFolderKeys ++ (server.folders key).map Folder.folderkey ++ tasks.map Prod.fst) := by
    rw [← List.append_assoc]
    exact List.perm_append_comm.append_right _
  obtain ⟨unseen'', hbelow'', hsame'⟩ := (hfirst.append hrest).perm hback
  refine ⟨by simp [handleGetFolderContents, h.errors], fun task htask =>
    h.both task (List.mem_cons_of_mem _ htask), h.unasserted, ?_, h.few, ?_, ?_, ?_, ?_⟩
  · have hcount := h.count
    simp only [List.length_cons] at hcount
    simp only [handleGetFolderContents, List.length_append, List.length_singleton]
    omega
  · intro ended hended
    rcases List.mem_append.mp hended with hended | hended
    · exact h.answered ended hended
    · rw [List.mem_singleton.mp hended]
      exact hanswers
  · set children := (server.folders key).map Folder.folderkey
    have hback' : m.newFolderKeys ++ children ++ tasks.map Prod.fst ~
        m.newFolderKeys ++ tasks.map Prod.fst ++ children := by
      rw [List.append_assoc, List.append_assoc]
      exact List.perm_append_comm.append_left _
    rw [List.map_append, List.append_assoc]
    calc done.map (·.task.1) ++ (key :: (m.newFolderKeys ++ children ++ tasks.map Prod.fst))
      _ ~ done.map (·.task.1) ++ (key :: (m.newFolderKeys ++ tasks.map Prod.fst ++ children)) :=
        (hback'.cons key).append_left _
      _ = done.map (·.task.1) ++ (key :: (m.newFolderKeys ++ tasks.map Prod.fst)) ++ children := by
        simp
      _ ~ folderKey :: m.folders.map Folder.folderkey ++ children :=
        ((hfront.symm.append_left _).trans h.keys).append_right _
      _ = folderKey :: (m.folders ++ server.folders key).map Folder.folderkey := by
        simp [children]
  · refine ⟨unseen'', hbelow'', ?_⟩
    calc m.folders ++ server.folders key ++ unseen''
      _ ~ m.folders ++ server.folders key ++ (first ++ rest) := hsame'.symm.append_left _
      _ = m.folders ++ (server.folders key ++ first ++ rest) := by simp only [List.append_assoc]
      _ ~ m.folders ++ unseen := hsame.symm.append_left _
      _ ~ folders := hunseen
  · simp only [handleGetFolderContents, List.map_append, List.map_cons, List.map_nil,
      List.flatMap_append, List.flatMap_singleton]
    exact h.files.append_right _

theorem rule (server : Server) (folderKey : String) (folders : List Folder) :
    Rule body server.getFolderContents (Cloning server folderKey folders) :=
  ⟨Cloning.perm, Cloning.next, Cloning.handle⟩

theorem ranked : Ranked body CloneCloudTree.numLoopIterations := by
  refine ⟨fun {m tasks m' executes} hnext => ?_, fun _ _ _ => le_rfl⟩
  have hqueued := queueKeys_queued m.numLoopIterations m.newFolderKeys
  simp only [body, Prod.mk.injEq] at hnext
  obtain ⟨-, rfl, rfl⟩ := hnext
  simp only [decide_eq_true_eq]
  rw [hqueued.count]
  split_ifs with hend
  · have hsome := List.length_pos_iff.mpr (hqueued.executes hend).2.1
    omega
  · omega

/-- The keys of a tree, and how many requests it takes. -/
def treeKeys (folderKey : String) (folders : List Folder) : List String :=
  folderKey :: folders.map Folder.folderkey

def treeRequests (server : Server) (folderKey : String) (folders : List Folder) : ℕ :=
  ((treeKeys folderKey folders).map server.requests).sum

/-- No key is seen that is not one of the tree. -/
theorem Cloning.keys_le (h : Cloning server folderKey folders m done tasks) :
    ∃ others, done.map (·.task.1) ++ (m.newFolderKeys ++ tasks.map Prod.fst) ++ others ~
      treeKeys folderKey folders := by
  obtain ⟨unseen, -, hunseen⟩ := h.unseen
  refine ⟨unseen.map Folder.folderkey, (h.keys.append_right _).trans ?_⟩
  rw [List.cons_append, ← List.map_append]
  exact (hunseen.map Folder.folderkey).cons folderKey

theorem Cloning.length_le (h : Cloning server folderKey folders m done tasks) :
    done.length + m.newFolderKeys.length + tasks.length ≤ folders.length + 1 := by
  obtain ⟨others, hothers⟩ := h.keys_le
  have hlength := hothers.length_eq
  simp only [List.length_append, List.length_map, treeKeys, List.length_cons] at hlength
  omega

theorem Cloning.requests_le (h : Cloning server folderKey folders m done tasks) :
    (done.map fun ended => ended.answers.length).sum +
      (tasks.map fun task => server.requests task.1).sum ≤
        treeRequests server folderKey folders := by
  obtain ⟨others, hothers⟩ := h.keys_le
  have hdone : done.map (fun ended => ended.answers.length) =
      done.map fun ended => server.requests ended.task.1 :=
    List.map_congr_left h.answered
  have hsum := (hothers.map server.requests).sum_eq
  simp only [List.map_append, List.sum_append, List.map_map, Function.comp_def] at hsum
  rw [treeRequests, hdone, ← hsum]
  omega

/-- A coroutine that waits has not got all answers, and one of its requests is still to be
answered. -/
theorem waiting_fetching {s : CloneSystem}
    (h : System.Sound body server.getFolderContents (Cloning server folderKey folders) s)
    {waiting : Active (String × FilesOrFoldersOrBoth) GetFolderContents ContentType}
    (hmem : waiting ∈ s.active) :
    ∃ a b, Fetching server waiting.work.task.1 waiting.frame a b ∧
      waiting.answers.length = a + b := by
  have hnot : s.control ≠ .finished := by
    intro hfinished
    have hscheduled := h.scheduled
    simp only [System.Scheduled, hfinished, System.outstanding, List.append_eq_nil_iff,
      List.map_eq_nil_iff] at hscheduled
    rw [hscheduled.2] at hmem
    cases hmem
  have htask : waiting.work.task ∈ s.pending.map Work.task := by
    refine List.mem_map_of_mem (List.mem_append_left _ (List.mem_append_right _ ?_))
    exact List.mem_map_of_mem hmem
  have hboth := (h.holds hnot).both _ htask
  have hafter := h.answers waiting hmem
  rw [show waiting.work.task = (waiting.work.task.1, .both) from Prod.ext rfl hboth] at hafter
  exact fetched_after hafter

theorem Fetching.answers_le {a b : ℕ} {m : GetFolderContents}
    (h : Fetching server folderKey m a b) : a + b ≤ server.requests folderKey :=
  Nat.add_le_add h.files.le h.folders.le

theorem Fetching.exists_answer {a b : ℕ} {m : GetFolderContents}
    (h : Fetching server folderKey m a b) :
    ∃ contentType outcome, server.getFolderContents.resume m contentType = some outcome := by
  have hyields := h.yields
  have hwaits := h.waits
  cases hfiles : m.filesRequest with
  | some asked =>
    refine ⟨.files, (m.handleFiles (server.answerFiles m.folderKey asked)).resume, ?_⟩
    simp [Server.getFolderContents, getFolderContents, hfiles]
  | none =>
    cases hfolders : m.foldersRequest with
    | some asked =>
      refine ⟨.folders, (m.handleFolders (server.answerFolders m.folderKey asked)).resume, ?_⟩
      simp [Server.getFolderContents, getFolderContents, hfolders]
    | none => simp [hfiles, hfolders, hwaits] at hyields

section Run

variable {s : CloneSystem}

theorem active_answers_le
    (h : System.Sound body server.getFolderContents (Cloning server folderKey folders) s) :
    (s.active.map fun waiting => waiting.answers.length).sum ≤
      ((s.pending.map Work.task).map fun task => server.requests task.1).sum := by
  have hle : (s.active.map fun waiting => waiting.answers.length).sum ≤
      (s.active.map fun waiting => server.requests waiting.work.task.1).sum := by
    refine List.sum_le_sum fun waiting hmem => ?_
    obtain ⟨a, b, hfetching, hanswers⟩ := waiting_fetching h hmem
    rw [hanswers]
    exact hfetching.answers_le
  refine hle.trans ?_
  simp only [System.pending, System.outstanding, List.map_append, List.sum_append, List.map_map,
    Function.comp_def]
  omega

/-- A clone has called back only when all its coroutines have, and its last look at the keys
has found none or too many. -/
theorem finished_spec
    (h : System.Sound body server.getFolderContents (Cloning server folderKey folders) s)
    (hfinished : s.control = .finished) :
    ∃ m, Cloning server folderKey folders m s.done [] ∧ s.active = [] ∧ s.called = [s.parent] ∧
      s.parent.numLoopIterations ≤ folders.length + 1 ∧
      (m.newFolderKeys = [] ∧ s.parent = { m with asserted := false } ∨
        s.parent.asserted = true ∧ maxLoopIterations < folders.length) := by
  obtain ⟨m, tasks, hm, hnext, hcalled⟩ := h.finished hfinished
  have hscheduled := h.scheduled
  simp only [System.Scheduled, hfinished, System.outstanding, List.append_eq_nil_iff,
    List.map_eq_nil_iff] at hscheduled
  have hqueued := queueKeys_queued m.numLoopIterations m.newFolderKeys
  have hlength := hm.length_le
  have hcount := hm.count
  have hiterations := hqueued.count
  have hkeys := congrArg List.length hqueued.append
  rw [List.length_append] at hkeys
  rw [List.length_nil] at hlength hcount
  simp only [body, Prod.mk.injEq, decide_eq_false_iff_not] at hnext
  obtain ⟨-, hparent, hend⟩ := hnext
  refine ⟨m, hm, hscheduled.2, hcalled, ?_, ?_⟩
  · rw [← hparent]
    show (queueKeys m.numLoopIterations m.newFolderKeys).2.2.1 ≤ _
    omega
  · cases hloop : (queueKeys m.numLoopIterations m.newFolderKeys).2.2.2 with
    | executesWork => exact absurd hloop hend
    | noMoreKeys =>
      have hnone := hqueued.noMore hloop
      refine .inl ⟨hnone, ?_⟩
      rw [← hparent, hnone]
      rfl
    | tooManyIterations =>
      obtain ⟨hleft, hmany⟩ := hqueued.tooMany hloop
      have hsome := List.length_pos_iff.mpr hleft
      refine .inr ⟨by rw [← hparent, hloop]; rfl, ?_⟩
      omega

theorem effort_le
    (h : System.Sound body server.getFolderContents (Cloning server folderKey folders) s) :
    s.effort numLoopIterations ≤
      2 * folders.length + 4 + treeRequests server folderKey folders := by
  have hbegun := System.begun_le_one s.control
  unfold System.effort System.answered
  by_cases hfinished : s.control = .finished
  · obtain ⟨m, hm, hactive, hcalled, hiterations, -⟩ := finished_spec h hfinished
    have hlength := hm.length_le
    have hrequests := hm.requests_le
    rw [hactive, hcalled, List.length_singleton]
    simp only [List.length_nil, List.map_nil, List.sum_nil] at hlength hrequests ⊢
    omega
  · have hm := h.holds hfinished
    have hlength := hm.length_le
    have hrequests := hm.requests_le
    have hcount := hm.count
    have hanswers := active_answers_le h
    rw [h.called hfinished]
    simp only [System.pending, System.outstanding, List.map_append, List.length_append,
      List.length_map, List.length_nil] at hlength hcount ⊢
    omega

end Run

end Tree

/-! ### What a clone gives -/

/-- The callback has been invoked once, with every file and every folder of the tree once. -/
def Cloned (server : Server) (folderKey : String) (folders : List Folder) (s : CloneSystem) :
    Prop :=
  ∃ m, s.called = [m] ∧ m.asserted = false ∧ m.errors = [] ∧ m.folders ~ folders ∧
    m.files ~ (treeKeys folderKey folders).flatMap server.files

/-- Whatever is answered first, a clone comes to an end, and then it has the whole tree. -/
def LosesNothing (server : Server) (folderKey : String) (limit : ℕ) (folders : List Folder) : Prop :=
  ∀ events s, run (step server) (clone folderKey limit) events = some s →
    events.length ≤ 2 * folders.length + 4 + treeRequests server folderKey folders ∧
      s.called.length ≤ 1 ∧
      ((∀ event, step server s event = none) → Cloned server folderKey folders s)

section Run

variable {server : Server} {folderKey : String} {limit : ℕ} {folders : List Folder}
  {events : List (Event ContentType)} {s : CloneSystem}

theorem clone_sound (hlimit : 3 ≤ limit)
    (h : Below server.folders Folder.folderkey [folderKey] folders)
    (hrun : run (step server) (clone folderKey limit) events = some s) :
    System.Sound body server.getFolderContents (Cloning server folderKey folders) s :=
  System.Sound.run (rule server folderKey folders) hlimit (.create h) hrun

theorem clone_length_le (hlimit : 3 ≤ limit)
    (h : Below server.folders Folder.folderkey [folderKey] folders)
    (hrun : run (step server) (clone folderKey limit) events = some s) :
    events.length ≤ 2 * folders.length + 4 + treeRequests server folderKey folders := by
  have hmeasure := length_le_of_measure (fun _ _ _ => System.step_effort ranked) hrun
  have heffort := effort_le (clone_sound hlimit h hrun)
  omega

theorem called_le_one
    (h : System.Sound body server.getFolderContents (Cloning server folderKey folders) s) :
    s.called.length ≤ 1 := by
  by_cases hfinished : s.control = .finished
  · obtain ⟨-, -, -, hcalled, -⟩ := finished_spec h hfinished
    rw [hcalled, List.length_singleton]
  · rw [h.called hfinished]
    exact Nat.zero_le 1

/-- Every run that cannot go on has the whole tree if the loop's limit lets it, and only then. -/
theorem cloned_iff_of_quiet (hlimit : 3 ≤ limit)
    (h : Below server.folders Folder.folderkey [folderKey] folders)
    (hrun : run (step server) (clone folderKey limit) events = some s)
    (hquiet : ∀ event, step server s event = none) :
    Cloned server folderKey folders s ↔ folders.length ≤ maxLoopIterations := by
  have hsound := clone_sound hlimit h hrun
  have hfinished : s.control = .finished := by
    refine hsound.finished_of_quiet (fun waiting hmem => ?_) hquiet
    obtain ⟨a, b, hfetching, -⟩ := waiting_fetching hsound hmem
    exact hfetching.exists_answer
  obtain ⟨m, hm, -, hcalled, -, hlast⟩ := finished_spec hsound hfinished
  constructor
  · rintro ⟨m', hcalled', hasserted, -⟩
    obtain rfl : s.parent = m' := by simpa [hcalled] using hcalled'
    rcases hlast with ⟨hnone, hparent⟩ | ⟨hlast, -⟩
    · have hkeys := hm.keys.length_eq
      obtain ⟨unseen, hbelow, hunseen⟩ := hm.unseen
      rw [hnone] at hbelow hkeys
      cases hbelow
      have hfolders := hunseen.length_eq
      have hfew := hm.few
      have hcount := hm.count
      simp only [List.map_nil, List.append_nil, List.length_map, List.length_cons,
        List.length_nil] at hkeys hfolders hcount
      omega
    · rw [hlast] at hasserted
      cases hasserted
  · intro hfew
    rcases hlast with ⟨hnone, hparent⟩ | ⟨-, hmany⟩
    · obtain ⟨unseen, hbelow, hunseen⟩ := hm.unseen
      have hkeys := hm.keys
      rw [hnone] at hbelow hkeys
      cases hbelow
      rw [List.append_nil] at hunseen
      refine ⟨s.parent, hcalled, by rw [hparent], by rw [hparent]; exact hm.errors,
        by rw [hparent]; exact hunseen, ?_⟩
      rw [hparent]
      refine hm.files.trans ((List.Perm.flatMap_right server.files ?_))
      rw [List.map_nil, List.append_nil, List.append_nil] at hkeys
      exact hkeys.trans ((hunseen.map _).cons folderKey)
    · omega

theorem not_losesNothing_of_many (hlimit : 3 ≤ limit)
    (h : Below server.folders Folder.folderkey [folderKey] folders)
    (hmany : maxLoopIterations < folders.length) : ¬LosesNothing server folderKey limit folders := by
  intro hall
  obtain ⟨events, s, hrun, hquiet⟩ :=
    exists_quiet fun events s hrun => clone_length_le hlimit h hrun
  have hcloned := (hall events s hrun).2.2 hquiet
  exact absurd ((cloned_iff_of_quiet hlimit h hrun hquiet).mp hcloned) (not_le.mpr hmany)

/-- A clone loses nothing exactly of the trees with at most a hundred folders below the start. -/
theorem losesNothing_iff (hlimit : 3 ≤ limit)
    (h : Below server.folders Folder.folderkey [folderKey] folders) :
    LosesNothing server folderKey limit folders ↔ folders.length ≤ 100 := by
  constructor
  · intro hall
    by_contra hmany
    exact not_losesNothing_of_many hlimit h (not_le.mp hmany) hall
  · intro hfew events s hrun
    exact ⟨clone_length_le hlimit h hrun, called_le_one (clone_sound hlimit h hrun), fun hquiet =>
      (cloned_iff_of_quiet hlimit h hrun hquiet).mpr hfew⟩

end Run

/-! ### Flat trees -/

/-- A server with some folders in "root", each with one file. -/
def flat (folderKeys : List String) : Server where
  fileChunks folderKey := if folderKey = "root" then [[]] else [[File.mk folderKey]]
  folderChunks folderKey := if folderKey = "root" then [folderKeys.map Folder.mk] else [[]]
  fileChunks_ne_nil _ := by split_ifs <;> exact List.cons_ne_nil _ _
  folderChunks_ne_nil _ := by split_ifs <;> exact List.cons_ne_nil _ _

theorem flat_below {folderKeys : List String} (h : "root" ∉ folderKeys) :
    Below (flat folderKeys).folders Folder.folderkey ["root"] (folderKeys.map Folder.mk) := by
  have hleaves : ∀ keys, "root" ∉ keys →
      Below (flat folderKeys).folders Folder.folderkey keys [] := by
    intro keys hkeys
    induction keys with
    | nil => exact .nil
    | cons key keys ih =>
      have hnone : (flat folderKeys).folders key = [] := by
        simp [Server.folders, flat, Ne.symm (List.ne_of_not_mem_cons hkeys)]
      have hleaf : Below (flat folderKeys).folders Folder.folderkey
          (((flat folderKeys).folders key).map Folder.folderkey) [] := by
        rw [hnone]
        exact .nil
      simpa [hnone] using Below.cons hleaf (ih (List.not_mem_of_not_mem_cons hkeys))
  have hroot : (flat folderKeys).folders "root" = folderKeys.map Folder.mk := by
    simp [Server.folders, flat]
  have hchildren : Below (flat folderKeys).folders Folder.folderkey
      (((flat folderKeys).folders "root").map Folder.folderkey) [] := by
    simpa [hroot, Function.comp_def] using hleaves folderKeys h
  simpa [hroot] using Below.cons hchildren Below.nil

theorem losesNothing_two : LosesNothing (flat ["a", "b"]) "root" 10 [⟨"a"⟩, ⟨"b"⟩] :=
  (losesNothing_iff (by decide) (flat_below (by decide))).mpr (by decide)

/-- A hundred and one folders next to each other are too many. -/
theorem not_losesNothing_flat :
    ¬LosesNothing (flat ((List.range 101).map fun i => toString i)) "root" 10
      (((List.range 101).map fun i => toString i).map Folder.mk) :=
  not_losesNothing_of_many (by decide) (flat_below (by decide +kernel))
    (by simp [maxLoopIterations])

end CloneCloudTree

end MediafireSdk.Actions
