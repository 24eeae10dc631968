import MediafireSdk.Actions.GetFolderContents

/-! When a folder listing ends and what it has then, whatever the server answers. A failed chunk
clears no flag and the chunk counters go on behind it, so a listing goes on for as long as no chunk
is answered as the last one of its kind. -/

namespace MediafireSdk.Actions.FolderListing

/-- `GetFolderContents` with the answers of a server: what is left open is which of its requests
is answered. No chunk is asked for twice, so the answers of any server to one run are a function of
what it is asked for. -/
def served (serve : ContentType → ℕ → ContentResponse) :
    Coroutine (String × FilesOrFoldersOrBoth) GetFolderContents ContentType Contents where
  start := getFolderContents.start
  resume m contentType :=
    match contentType with
    | .files => m.filesRequest.bind fun chunkNum =>
      getFolderContents.resume m (.files, serve .files chunkNum)
    | .folders => m.foldersRequest.bind fun chunkNum =>
      getFolderContents.resume m (.folders, serve .folders chunkNum)

/-- The requests that a choice stands for. -/
def wants (choice : FilesOrFoldersOrBoth) : ContentType → Bool
  | .files => choice = .files ∨ choice = .both
  | .folders => choice = .folders ∨ choice = .both

/-- An answer that clears a flag. -/
def IsLast (response : ContentResponse) : Prop :=
  response.errorCode = 0 ∧ response.lastChunk = true

/-- The server splits one kind of content into chunks. It may fail to answer for any of them. -/
structure Splits {τ : Type*} (respond : ℕ → ContentResponse) (content : ContentResponse → List τ)
    (chunks : List (List τ)) : Prop where
  ne_nil : chunks ≠ []
  chunk : ∀ chunkNum, 1 ≤ chunkNum → chunkNum ≤ chunks.length →
    (respond chunkNum).errorCode = 0 →
      content (respond chunkNum) = chunks.getD (chunkNum - 1) [] ∧
        ((respond chunkNum).lastChunk = true ↔ chunkNum = chunks.length)

/-- The listing ends after finitely many requests and is complete if it reports no error. -/
structure Settles (folderKey : String) (choice : FilesOrFoldersOrBoth)
    (serve : ContentType → ℕ → ContentResponse) : Prop where
  bounded : ∃ bound, ∀ answers outcome,
    (served serve).after (folderKey, choice) answers = some outcome → answers.length ≤ bound
  awake : ∀ answers m, (served serve).after (folderKey, choice) answers = some (.inl m) →
    ∃ contentType outcome, (served serve).resume m contentType = some outcome
  complete : ∀ fileChunks folderChunks answers contents,
    Splits (serve .files) ContentResponse.files fileChunks →
    Splits (serve .folders) ContentResponse.folders folderChunks →
    (served serve).after (folderKey, choice) answers = some (.inr contents) →
    contents.errors = [] →
      contents.files = (if wants choice .files then fileChunks.flatten else []) ∧
        contents.folders = if wants choice .folders then folderChunks.flatten else []

/-! ### One kind of content -/

section Kind

variable {τ : Type*} {respond : ℕ → ContentResponse} {content : ContentResponse → List τ}
  {wanted remaining : Bool} {received chunkNum : ℕ} {items : List τ} {errors : List ContentError}
  {request : Option ℕ}

/-- What is taken from the first answers. -/
def taken (respond : ℕ → ContentResponse) (content : ContentResponse → List τ) : ℕ → List τ
  | 0 => []
  | received + 1 =>
    taken respond content received ++
      if (respond (received + 1)).errorCode = 0 then content (respond (received + 1)) else []

/-- The members behind a number of answers of one kind. -/
structure Taken (respond : ℕ → ContentResponse) (content : ContentResponse → List τ)
    (wanted : Bool) (received : ℕ) (items : List τ) (remaining : Bool)
    (errors : List ContentError) : Prop where
  items : items = taken respond content received
  remaining : remaining = true ↔ wanted = true ∧ ∀ i < received, ¬ IsLast (respond (i + 1))
  before : ∀ i, i + 1 < received → ¬ IsLast (respond (i + 1))
  unwanted : wanted = false → received = 0
  clean : errors = [] → ∀ i < received, (respond (i + 1)).errorCode = 0

theorem Taken.zero (respond : ℕ → ContentResponse) (content : ContentResponse → List τ)
    (wanted : Bool) : Taken respond content wanted 0 [] wanted [] :=
  ⟨rfl, by simp, fun i hi => absurd hi (by omega), fun _ => rfl,
    fun _ i hi => absurd hi (by omega)⟩

/-- An error of the other kind. -/
theorem Taken.concat_error (h : Taken respond content wanted received items remaining errors)
    (error : ContentError) :
    Taken respond content wanted received items remaining (errors ++ [error]) :=
  ⟨h.items, h.remaining, h.before, h.unwanted, fun hnil => absurd hnil (by simp)⟩

section Answer

variable (h : Taken respond content wanted received items remaining errors)
  (hremaining : remaining = true)
include h hremaining

theorem Taken.fail (hfailed : (respond (received + 1)).errorCode ≠ 0) (error : ContentError) :
    Taken respond content wanted (received + 1) items remaining (errors ++ [error]) := by
  obtain ⟨hwanted, hopen⟩ := h.remaining.mp hremaining
  refine ⟨?_, ?_, fun i hi => hopen i (by omega), fun hnot => ?_, fun hnil => absurd hnil (by simp)⟩
  · rw [h.items, taken, if_neg hfailed, List.append_nil]
  · refine ⟨fun _ => ⟨hwanted, fun i hi => ?_⟩, fun _ => hremaining⟩
    rcases Nat.lt_succ_iff_lt_or_eq.mp hi with hi | rfl
    · exact hopen i hi
    · exact fun hlast => hfailed hlast.1
  · rw [hwanted] at hnot
    cases hnot

theorem Taken.succeed (hanswered : (respond (received + 1)).errorCode = 0) :
    Taken respond content wanted (received + 1) (items ++ content (respond (received + 1)))
      (!(respond (received + 1)).lastChunk && remaining) errors := by
  obtain ⟨hwanted, hopen⟩ := h.remaining.mp hremaining
  refine ⟨?_, ?_, fun i hi => hopen i (by omega), fun hnot => ?_, fun hnil i hi => ?_⟩
  · rw [h.items, taken, if_pos hanswered]
  · rw [hremaining, Bool.and_true, Bool.not_eq_true']
    refine ⟨fun hnot => ⟨hwanted, fun i hi => ?_⟩, fun hall => ?_⟩
    · rcases Nat.lt_succ_iff_lt_or_eq.mp hi with hi | rfl
      · exact hopen i hi
      · exact fun hlast => absurd hlast.2 (by simp [hnot])
    · rw [← Bool.not_eq_true]
      exact fun hlast => hall.2 received (Nat.lt_succ_self _) ⟨hanswered, hlast⟩
  · rw [hwanted] at hnot
    cases hnot
  · rcases Nat.lt_succ_iff_lt_or_eq.mp hi with hi | rfl
    · exact h.clean hnil i hi
    · exact hanswered

end Answer

/-- Nothing is asked for behind an answer that was the last one. -/
theorem Taken.le (h : Taken respond content wanted received items remaining errors)
    (hpos : 1 ≤ chunkNum) (hlast : IsLast (respond chunkNum)) : received ≤ chunkNum := by
  by_contra hlt
  refine h.before (chunkNum - 1) (by omega) ?_
  rwa [Nat.sub_add_cancel hpos]

theorem taken_flatten {chunks : List (List τ)} (hsplits : Splits respond content chunks)
    (hle : received ≤ chunks.length) (hclean : ∀ i < received, (respond (i + 1)).errorCode = 0) :
    taken respond content received = (chunks.take received).flatten := by
  induction received with
  | zero => rfl
  | succ received ih =>
    have hanswered := hclean received (Nat.lt_succ_self _)
    obtain ⟨hcontent, -⟩ := hsplits.chunk (received + 1) (by omega) hle hanswered
    have hget : chunks.getD (received + 1 - 1) [] = chunks[received] := by
      simp [List.getD, Nat.lt_of_succ_le hle]
    rw [taken, if_pos hanswered, hcontent, hget,
      ih (by omega) fun i hi => hclean i (by omega),
      List.take_succ_eq_append_getElem (Nat.lt_of_succ_le hle), List.flatten_append]
    simp

theorem Taken.all {chunks : List (List τ)}
    (h : Taken respond content wanted received items remaining errors)
    (hsplits : Splits respond content chunks) (hremaining : remaining = false)
    (herrors : errors = []) : items = if wanted then chunks.flatten else [] := by
  have hclean := h.clean herrors
  cases wanted with
  | false =>
    rw [h.items, h.unwanted rfl]
    rfl
  | true =>
    have hclosed : ∃ i < received, IsLast (respond (i + 1)) := by
      have hnot := mt h.remaining.mpr (by simp [hremaining])
      push Not at hnot
      exact hnot rfl
    obtain ⟨i, hi, hlast⟩ := hclosed
    have hreceived : received = i + 1 := by
      by_contra hne
      exact h.before i (by omega) hlast
    have hpos := List.length_pos_iff.mpr hsplits.ne_nil
    have hle : received ≤ chunks.length := by
      by_contra hlt
      have hanswered := hclean (chunks.length - 1) (by omega)
      have hbefore := h.before (chunks.length - 1) (by omega)
      rw [Nat.sub_add_cancel hpos] at hanswered hbefore
      exact hbefore ⟨hanswered, ((hsplits.chunk _ hpos le_rfl hanswered).2).mpr rfl⟩
    have hlength : received = chunks.length := by
      subst hreceived
      exact ((hsplits.chunk _ (by omega) hle hlast.1).2).mp hlast.2
    rw [h.items, taken_flatten hsplits hle hclean, List.take_of_length_le hlength.ge, if_pos rfl]

/-- A chunk is outstanding, or has been answered in the round. -/
structure Asking (remaining : Bool) (request : Option ℕ) (chunkNum received : ℕ) : Prop where
  requested : ∀ asked ∈ request, asked = received + 1 ∧ remaining = true ∧ chunkNum = received + 1
  answered : request = none → remaining = true → chunkNum = received

theorem Asking.ask (hnum : remaining = true → chunkNum = received + 1) :
    Asking remaining (if remaining = true then some chunkNum else none) chunkNum received := by
  refine ⟨fun asked hasked => ?_, fun hnone hremaining => ?_⟩
  · split_ifs at hasked with hremaining
    · cases hasked
      exact ⟨hnum hremaining, hremaining, hnum hremaining⟩
    · cases hasked
  · rw [if_pos hremaining] at hnone
    cases hnone

theorem Asking.next (h : Asking remaining none chunkNum received) (hremaining : remaining = true) :
    (if remaining = true then chunkNum + 1 else chunkNum) = received + 1 := by
  rw [if_pos hremaining, h.answered rfl hremaining]

end Kind

/-! ### The coroutine -/

/-- A coroutine between two rounds, `a` answers about files and `b` about folders behind it. -/
structure Between (serve : ContentType → ℕ → ContentResponse) (choice : FilesOrFoldersOrBoth)
    (m : GetFolderContents) (a b : ℕ) : Prop where
  chosen : m.filesOrFoldersOrBoth = choice
  uncancelled : m.cancelled = false
  files : Taken (serve .files) ContentResponse.files (wants choice .files) a m.files
    m.fileChunksRemaining m.errors
  folders : Taken (serve .folders) ContentResponse.folders (wants choice .folders) b m.folders
    m.folderChunksRemaining m.errors
  unasked : m.filesRequest = none ∧ m.foldersRequest = none
  filesNum : m.fileChunksRemaining = true → m.filesChunkNum = a + 1
  foldersNum : m.folderChunksRemaining = true → m.foldersChunkNum = b + 1

/-- A coroutine inside a round. -/
structure Fetching (serve : ContentType → ℕ → ContentResponse) (choice : FilesOrFoldersOrBoth)
    (m : GetFolderContents) (a b : ℕ) : Prop where
  chosen : m.filesOrFoldersOrBoth = choice
  uncancelled : m.cancelled = false
  files : Taken (serve .files) ContentResponse.files (wants choice .files) a m.files
    m.fileChunksRemaining m.errors
  folders : Taken (serve .folders) ContentResponse.folders (wants choice .folders) b m.folders
    m.folderChunksRemaining m.errors
  askingFiles : Asking m.fileChunksRemaining m.filesRequest m.filesChunkNum a
  askingFolders : Asking m.folderChunksRemaining m.foldersRequest m.foldersChunkNum b

/-- The suspensions that a coroutine has before it. -/
def outstanding (m : GetFolderContents) : ℕ :=
  m.filesRequest.toList.length + m.foldersRequest.toList.length

/-- A coroutine that waits, once for each request. -/
structure Waiting (serve : ContentType → ℕ → ContentResponse) (choice : FilesOrFoldersOrBoth)
    (m : GetFolderContents) (a b : ℕ) : Prop extends Fetching serve choice m a b where
  yields : m.yieldCount = outstanding m
  waits : m.yieldCount ≠ 0

/-- What a listing calls back with behind its last answers. -/
structure Listed (serve : ContentType → ℕ → ContentResponse) (choice : FilesOrFoldersOrBoth)
    (contents : Contents) (a b : ℕ) : Prop where
  files : Taken (serve .files) ContentResponse.files (wants choice .files) a contents.files false
    contents.errors
  folders : Taken (serve .folders) ContentResponse.folders (wants choice .folders) b
    contents.folders false contents.errors

/-- What a coroutine is left with after a number of answers. -/
def Fetched (serve : ContentType → ℕ → ContentResponse) (choice : FilesOrFoldersOrBoth)
    (answers : ℕ) : GetFolderContents ⊕ Contents → Prop :=
  Sum.elim (fun m => ∃ a b, Waiting serve choice m a b ∧ answers = a + b)
    fun contents => ∃ a b, Listed serve choice contents a b ∧ answers = a + b

section Coroutine

variable {serve : ContentType → ℕ → ContentResponse} {choice : FilesOrFoldersOrBoth}
  {folderKey : String} {m : GetFolderContents} {a b : ℕ}

theorem Between.loop (h : Between serve choice m a b) : Fetched serve choice (a + b) m.loop := by
  have hfiles : ((m.filesOrFoldersOrBoth = .files ∨ m.filesOrFoldersOrBoth = .both) ∧
      m.fileChunksRemaining = true) ↔ m.fileChunksRemaining = true := by
    refine and_iff_right_of_imp fun hremaining => ?_
    have hwants := (h.files.remaining.mp hremaining).1
    rw [h.chosen]
    exact of_decide_eq_true hwants
  have hfolders : ((m.filesOrFoldersOrBoth = .folders ∨ m.filesOrFoldersOrBoth = .both) ∧
      m.folderChunksRemaining = true) ↔ m.folderChunksRemaining = true := by
    refine and_iff_right_of_imp fun hremaining => ?_
    have hwants := (h.folders.remaining.mp hremaining).1
    rw [h.chosen]
    exact of_decide_eq_true hwants
  unfold GetFolderContents.loop
  simp only [h.uncancelled, and_true, hfiles, hfolders, h.unasked.1, h.unasked.2]
  by_cases hleft : m.folderChunksRemaining = true ∨ m.fileChunksRemaining = true
  · rw [if_pos hleft]
    refine ⟨a, b, ⟨⟨h.chosen, rfl, h.files, h.folders, Asking.ask h.filesNum,
      Asking.ask h.foldersNum⟩, ?_, ?_⟩, rfl⟩
    · simp only [outstanding]
      split_ifs <;> rfl
    · rcases hleft with hleft | hleft <;> simp [hleft]
  · rw [if_neg hleft]
    rw [not_or, Bool.not_eq_true, Bool.not_eq_true] at hleft
    exact ⟨a, b, ⟨hleft.2 ▸ h.files, hleft.1 ▸ h.folders⟩, rfl⟩

theorem Fetching.resume (h : Fetching serve choice m a b)
    (hyields : m.yieldCount = outstanding m + 1) : Fetched serve choice (a + b) m.resume := by
  unfold GetFolderContents.resume
  dsimp only
  have hcount : m.yieldCount - 1 = outstanding m := by omega
  split_ifs with hlast
  · rw [hcount, outstanding, Nat.add_eq_zero_iff, List.length_eq_zero_iff,
      List.length_eq_zero_iff, Option.toList_eq_nil_iff, Option.toList_eq_nil_iff] at hlast
    have hfiles := h.askingFiles
    have hfolders := h.askingFolders
    rw [hlast.1] at hfiles
    rw [hlast.2] at hfolders
    exact Between.loop ⟨h.chosen, h.uncancelled, h.files, h.folders, hlast, hfiles.next,
      hfolders.next⟩
  · exact ⟨a, b, ⟨⟨h.chosen, h.uncancelled, h.files, h.folders, h.askingFiles, h.askingFolders⟩,
      hcount, hlast⟩, rfl⟩

theorem Waiting.answerFiles {asked : ℕ} (h : Waiting serve choice m a b)
    (hasked : m.filesRequest = some asked) :
    Fetched serve choice (a + 1 + b) (m.handleFiles (serve .files asked)).resume := by
  obtain ⟨rfl, hremaining, hnum⟩ := h.askingFiles.requested asked hasked
  have hyields := h.yields
  rw [outstanding, hasked] at hyields
  unfold GetFolderContents.handleFiles
  split_ifs with hfailed
  · exact Fetching.resume ⟨h.chosen, h.uncancelled, h.files.fail hremaining hfailed _,
      h.folders.concat_error _, ⟨nofun, fun _ _ => hnum⟩, h.askingFolders⟩
      (hyields.trans (Nat.add_right_comm 0 1 _))
  · exact Fetching.resume ⟨h.chosen, h.uncancelled,
      h.files.succeed hremaining (not_not.mp hfailed), h.folders, ⟨nofun, fun _ _ => hnum⟩,
      h.askingFolders⟩ (hyields.trans (Nat.add_right_comm 0 1 _))

theorem Waiting.answerFolders {asked : ℕ} (h : Waiting serve choice m a b)
    (hasked : m.foldersRequest = some asked) :
    Fetched serve choice (a + (b + 1)) (m.handleFolders (serve .folders asked)).resume := by
  obtain ⟨rfl, hremaining, hnum⟩ := h.askingFolders.requested asked hasked
  have hyields := h.yields
  rw [outstanding, hasked] at hyields
  unfold GetFolderContents.handleFolders
  split_ifs with hfailed
  · exact Fetching.resume ⟨h.chosen, h.uncancelled, h.files.concat_error _,
      h.folders.fail hremaining hfailed _, h.askingFiles, ⟨nofun, fun _ _ => hnum⟩⟩ hyields
  · exact Fetching.resume ⟨h.chosen, h.uncancelled, h.files,
      h.folders.succeed hremaining (not_not.mp hfailed), h.askingFiles, ⟨nofun, fun _ _ => hnum⟩⟩
      hyields

theorem Waiting.answer {contentType : ContentType} {outcome : GetFolderContents ⊕ Contents}
    (h : Waiting serve choice m a b)
    (hresume : (served serve).resume m contentType = some outcome) :
    Fetched serve choice (a + b + 1) outcome := by
  cases contentType with
  | files =>
    obtain ⟨asked, hasked, houtcome⟩ := Option.bind_eq_some_iff.mp hresume
    obtain ⟨-, -, rfl⟩ := Option.map_eq_some_iff.mp houtcome
    rw [Nat.add_right_comm]
    exact h.answerFiles hasked
  | folders =>
    obtain ⟨asked, hasked, houtcome⟩ := Option.bind_eq_some_iff.mp hresume
    obtain ⟨-, -, rfl⟩ := Option.map_eq_some_iff.mp houtcome
    exact h.answerFolders hasked

theorem fetched_start (folderKey : String) :
    Fetched serve choice 0 ((served serve).start (folderKey, choice)) := by
  refine Between.loop (m := .create folderKey choice) (a := 0) (b := 0)
    ⟨rfl, rfl, .zero _ _ _, .zero _ _ _, ⟨rfl, rfl⟩, fun _ => rfl, fun _ => rfl⟩

theorem fetched_after {answers : List ContentType} {outcome : GetFolderContents ⊕ Contents}
    (h : (served serve).after (folderKey, choice) answers = some outcome) :
    Fetched serve choice answers.length outcome := by
  refine Coroutine.after_spec
    (I := fun answers m => ∃ a b, Waiting serve choice m a b ∧ answers.length = a + b)
    (Q := fun answers contents =>
      ∃ a b, Listed serve choice contents a b ∧ answers.length = a + b) ?_ ?_ h
  · exact fetched_start folderKey
  rintro answers m answer outcome ⟨a, b, hm, hlength⟩ hresume
  have hfetched := hm.answer hresume
  rw [← hlength] at hfetched
  simpa [Fetched] using hfetched

/-- One of the requests of a coroutine that waits can be answered. -/
theorem Waiting.exists_resume (h : Waiting serve choice m a b) :
    ∃ contentType outcome, (served serve).resume m contentType = some outcome := by
  cases hfiles : m.filesRequest with
  | some asked =>
    exact ⟨.files, (m.handleFiles (serve .files asked)).resume, by
      simp [served, getFolderContents, hfiles]⟩
  | none =>
    cases hfolders : m.foldersRequest with
    | some asked =>
      exact ⟨.folders, (m.handleFolders (serve .folders asked)).resume, by
        simp [served, getFolderContents, hfolders]⟩
    | none =>
      refine absurd ?_ h.waits
      rw [h.yields, outstanding, hfiles, hfolders]
      rfl

end Coroutine

/-! ### Listings that end -/

section

variable {serve : ContentType → ℕ → ContentResponse} {choice : FilesOrFoldersOrBoth}
  {folderKey : String}

theorem awake {answers : List ContentType} {m : GetFolderContents}
    (h : (served serve).after (folderKey, choice) answers = some (.inl m)) :
    ∃ contentType outcome, (served serve).resume m contentType = some outcome := by
  obtain ⟨a, b, hwaiting, -⟩ := fetched_after h
  exact hwaiting.exists_resume

theorem complete {fileChunks : List (List File)} {folderChunks : List (List Folder)}
    {answers : List ContentType} {contents : Contents}
    (hfiles : Splits (serve .files) ContentResponse.files fileChunks)
    (hfolders : Splits (serve .folders) ContentResponse.folders folderChunks)
    (h : (served serve).after (folderKey, choice) answers = some (.inr contents))
    (herrors : contents.errors = []) :
    contents.files = (if wants choice .files then fileChunks.flatten else []) ∧
      contents.folders = if wants choice .folders then folderChunks.flatten else [] := by
  obtain ⟨a, b, hlisted, -⟩ := fetched_after h
  exact ⟨hlisted.files.all hfiles rfl herrors, hlisted.folders.all hfolders rfl herrors⟩

/-- Each kind that is asked for has an answer that clears its flag. -/
def Closes (choice : FilesOrFoldersOrBoth) (serve : ContentType → ℕ → ContentResponse) : Prop :=
  ∀ contentType, wants choice contentType = true →
    ∃ chunkNum, 1 ≤ chunkNum ∧ IsLast (serve contentType chunkNum)

/-- A kind of content is asked for no more often than up to its last chunk. -/
theorem Closes.exists_le (h : Closes choice serve) (contentType : ContentType) :
    ∃ most, ∀ {τ : Type} {content : ContentResponse → List τ} {received items remaining errors},
      Taken (serve contentType) content (wants choice contentType) received items remaining
        errors → received ≤ most := by
  by_cases hwants : wants choice contentType = true
  · obtain ⟨chunkNum, hpos, hlast⟩ := h contentType hwants
    exact ⟨chunkNum, fun htaken => htaken.le hpos hlast⟩
  · exact ⟨0, fun htaken => (htaken.unwanted (Bool.not_eq_true _ ▸ hwants)).le⟩

theorem Closes.bounded (h : Closes choice serve) (folderKey : String) :
    ∃ bound, ∀ answers outcome,
      (served serve).after (folderKey, choice) answers = some outcome →
        answers.length ≤ bound := by
  obtain ⟨mostFiles, hfiles⟩ := h.exists_le .files
  obtain ⟨mostFolders, hfolders⟩ := h.exists_le .folders
  refine ⟨mostFiles + mostFolders, fun answers outcome hafter => ?_⟩
  have hfetched := fetched_after hafter
  cases outcome with
  | inl m =>
    obtain ⟨a, b, hwaiting, hlength⟩ := hfetched
    have ha := hfiles hwaiting.files
    have hb := hfolders hwaiting.folders
    omega
  | inr contents =>
    obtain ⟨a, b, hlisted, hlength⟩ := hfetched
    have ha := hfiles hlisted.files
    have hb := hfolders hlisted.folders
    omega

/-- A listing that calls back has had its last chunks. -/
theorem Listed.closes {contents : Contents} {a b : ℕ} (h : Listed serve choice contents a b) :
    Closes choice serve := by
  have hlast {τ : Type} {respond : ℕ → ContentResponse} {content : ContentResponse → List τ}
      {wanted : Bool} {received : ℕ} {items : List τ} {errors : List ContentError}
      (htaken : Taken respond content wanted received items false errors)
      (hwanted : wanted = true) : ∃ chunkNum, 1 ≤ chunkNum ∧ IsLast (respond chunkNum) := by
    have hnot := mt htaken.remaining.mpr Bool.false_ne_true
    push Not at hnot
    obtain ⟨i, -, hi⟩ := hnot hwanted
    exact ⟨i + 1, by omega, hi⟩
  rintro (_ | _) hwants
  · exact hlast h.files hwants
  · exact hlast h.folders hwants

/-- Without them it goes on, one answer after the other. -/
theorem exists_after (h : ¬ Closes choice serve) (folderKey : String) (requests : ℕ) :
    ∃ answers m, (served serve).after (folderKey, choice) answers = some (.inl m) ∧
      answers.length = requests := by
  have hwaits {answers : List ContentType} {outcome : GetFolderContents ⊕ Contents}
      (hafter : (served serve).after (folderKey, choice) answers = some outcome) :
      ∃ m, outcome = .inl m := by
    cases outcome with
    | inl m => exact ⟨m, rfl⟩
    | inr contents =>
      obtain ⟨a, b, hlisted, -⟩ := fetched_after hafter
      exact absurd hlisted.closes h
  induction requests with
  | zero =>
    have hstart : (served serve).after (folderKey, choice) [] =
      some ((served serve).start (folderKey, choice)) := Coroutine.goOn_nil _
    obtain ⟨m, hm⟩ := hwaits hstart
    exact ⟨[], m, hm ▸ hstart, rfl⟩
  | succ requests ih =>
    obtain ⟨answers, m, hafter, hlength⟩ := ih
    obtain ⟨answer, outcome, hresume⟩ := awake hafter
    have hnext : (served serve).after (folderKey, choice) (answers ++ [answer]) = some outcome :=
      (Coroutine.after_concat hafter).trans hresume
    obtain ⟨m', rfl⟩ := hwaits hnext
    exact ⟨_, m', hnext, by simp [hlength]⟩

/-- A listing ends for a server that answers a last chunk of each kind that is asked for, however
many others it fails, and for no other one. -/
theorem settles_iff (folderKey : String) (choice : FilesOrFoldersOrBoth)
    (serve : ContentType → ℕ → ContentResponse) :
    Settles folderKey choice serve ↔ Closes choice serve := by
  refine ⟨fun h => ?_, fun h => ⟨h.bounded folderKey, fun _ _ hafter => awake hafter,
    fun _ _ _ _ => complete⟩⟩
  by_contra hnot
  obtain ⟨bound, hbound⟩ := h.bounded
  obtain ⟨answers, m, hafter, hlength⟩ := exists_after hnot folderKey (bound + 1)
  have hle := hbound answers _ hafter
  omega

/-- A server that fails every request. -/
def failing (_ : ContentType) (chunkNum : ℕ) : ContentResponse where
  errorCode := 1
  chunkNumber := chunkNum

theorem not_settles_failing : ¬ Settles "myfiles" .both failing := by
  rintro ⟨⟨bound, hbound⟩, -, -⟩
  have hnot : ¬ Closes .both failing := by
    intro hcloses
    obtain ⟨chunkNum, -, hanswered, -⟩ := hcloses .files rfl
    cases hanswered
  obtain ⟨answers, m, hafter, hlength⟩ := exists_after hnot "myfiles" (bound + 1)
  have hle := hbound answers _ hafter
  omega

end

end MediafireSdk.Actions.FolderListing
