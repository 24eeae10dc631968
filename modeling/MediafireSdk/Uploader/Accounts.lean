import MediafireSdk.Uploader.Views

/-! The accounts of the upload manager: views of all requests that agree with its
containers, its counters and the posted signals. Every section keeps them. One
request changes in each, so a step is proved for that request, and a frame lemma
carries the rest. -/

namespace MediafireSdk.Uploader.Uploads

open Words

/-- The view of a request agrees with the manager and the machine. -/
structure Shows (s : Uploads) (i : ℕ) (v : View) : Prop where
  state : v.state = (s.machine i).state
  count : v.count = (s.machine i).countState
  fits : FitsTodo (s.todo i) v
  toHash : i ∈ s.manager.toHash ↔ v.place = .toHash
  startHash : i ∈ s.manager.enqueuedToStartHashings ↔ v.place = .startHash
  toUpload : i ∈ s.manager.toUpload ↔ v.place = .toUpload
  startUpload : i ∈ s.manager.enqueuedToStartUploads ↔ v.place = .startUpload
  requests : i ∈ s.manager.requests ↔ v.life = .live
  added : i < s.added ↔ v.life ≠ .absent
  absent : v.life = .absent → s.todo i = []
  holder : v.slot ≠ .none → v.life = .live
  waiting : v.place = .toHash ∨ v.place = .toUpload → v.signal = false
  signal : v.signal = true ↔ ∃ evt, (i, evt) ∈ s.posted
  posted : ∀ evt, (i, evt) ∈ s.posted →
    evt = .startHash ∧ (v.place = .startHash ∨ v.life = .completed) ∨
      (∃ token, evt = .startUpload token) ∧ (v.place = .startUpload ∨ v.life = .completed)

/-- `n` requests hold a slot of this kind. -/
def Holders (view : ℕ → View) (cs : CountState) (n : ℕ) : Prop :=
  ∃ holders : Finset ℕ, (∀ i, i ∈ holders ↔ (view i).slot = cs) ∧ holders.card = n

structure Totals (s : Uploads) (view : ℕ → View) : Prop where
  nodupHash : s.manager.toHash.Nodup
  nodupUpload : s.manager.toUpload.Nodup
  nodupPosted : (s.posted.map Prod.fst).Nodup
  hashings : Holders view .hashing s.manager.currentHashings
  uploads : Holders view .uploading s.manager.currentUploads
  hashingBound : s.manager.currentHashings + s.manager.enqueuedToStartHashings.card ≤
    s.manager.maxConcurrentHashings
  uploadBound : s.manager.currentUploads + s.manager.enqueuedToStartUploads.card ≤
    s.manager.maxConcurrentUploads
  limits : s.manager.maxConcurrentHashings < 2 ^ 32 ∧ s.manager.maxConcurrentUploads < 2 ^ 32

structure Accounts (s : Uploads) (view : ℕ → View) : Prop where
  shows : ∀ i, s.Shows i (view i)
  totals : s.Totals view

/-! ### Frame -/

/-- Nothing about the request changed. -/
structure SameFor (s s' : Uploads) (i : ℕ) : Prop where
  request : s'.request i = s.request i
  toHash : i ∈ s'.manager.toHash ↔ i ∈ s.manager.toHash
  startHash : i ∈ s'.manager.enqueuedToStartHashings ↔ i ∈ s.manager.enqueuedToStartHashings
  toUpload : i ∈ s'.manager.toUpload ↔ i ∈ s.manager.toUpload
  startUpload : i ∈ s'.manager.enqueuedToStartUploads ↔ i ∈ s.manager.enqueuedToStartUploads
  requests : i ∈ s'.manager.requests ↔ i ∈ s.manager.requests
  added : i < s'.added ↔ i < s.added
  posted : ∀ evt, (i, evt) ∈ s'.posted ↔ (i, evt) ∈ s.posted

section Frame
variable {s s' : Uploads} {i : ℕ} {v v' : View} {view : ℕ → View} {cs : CountState} {n : ℕ}

theorem Shows.congr (h : s.Shows i v) (hsame : s.SameFor s' i) : s'.Shows i v where
  state := by rw [h.state, machine, machine, hsame.request]
  count := by rw [h.count, machine, machine, hsame.request]
  fits := by
    have := h.fits
    rwa [todo, ← hsame.request] at this
  toHash := hsame.toHash.trans h.toHash
  startHash := hsame.startHash.trans h.startHash
  toUpload := hsame.toUpload.trans h.toUpload
  startUpload := hsame.startUpload.trans h.startUpload
  requests := hsame.requests.trans h.requests
  added := hsame.added.trans h.added
  absent hlife := by rw [todo, hsame.request]; exact h.absent hlife
  holder := h.holder
  waiting := h.waiting
  signal := h.signal.trans (exists_congr fun evt => (hsame.posted evt).symm)
  posted evt hmem := h.posted evt ((hsame.posted evt).mp hmem)

/-- A step that changes one request. -/
theorem Accounts.update (h : s.Accounts view) (hsame : ∀ j, j ≠ i → s.SameFor s' j)
    (hshows : s'.Shows i v') (htotals : s'.Totals (Function.update view i v')) :
    s'.Accounts (Function.update view i v') where
  shows j := by
    by_cases hj : j = i
    · subst hj
      rwa [Function.update_self]
    · rw [Function.update_of_ne hj]
      exact (h.shows j).congr (hsame j hj)
  totals := htotals

theorem Holders.update_same (h : Holders view cs n) (hslot : v'.slot = cs ↔ (view i).slot = cs) :
    Holders (Function.update view i v') cs n := by
  obtain ⟨holders, hmem, hcard⟩ := h
  refine ⟨holders, fun j => (hmem j).trans ?_, hcard⟩
  by_cases hj : j = i
  · subst hj
    rw [Function.update_self, hslot]
  · rw [Function.update_of_ne hj]

theorem of_count {n' : ℕ} (hn : n' = n) (h : Holders view cs n) : Holders view cs n' := hn ▸ h

theorem Holders.update_insert (h : Holders view cs n) (hold : (view i).slot ≠ cs)
    (hnew : v'.slot = cs) : Holders (Function.update view i v') cs (n + 1) := by
  obtain ⟨holders, hmem, hcard⟩ := h
  refine ⟨insert i holders, fun j => ?_, ?_⟩
  · by_cases hj : j = i
    · subst hj
      simp [hnew]
    · rw [Function.update_of_ne hj, Finset.mem_insert, hmem, or_iff_right hj]
  · rw [Finset.card_insert_of_notMem fun hi => hold ((hmem i).mp hi), hcard]

theorem Holders.update_erase (h : Holders view cs n) (v' : View) (hold : (view i).slot = cs)
    (hnew : v'.slot ≠ cs) : 0 < n ∧ Holders (Function.update view i v') cs (n - 1) := by
  obtain ⟨holders, hmem, hcard⟩ := h
  have hi : i ∈ holders := (hmem i).mpr hold
  refine ⟨hcard ▸ Finset.card_pos.mpr ⟨i, hi⟩, holders.erase i, fun j => ?_, ?_⟩
  · by_cases hj : j = i
    · subst hj
      simp [hnew]
    · rw [Function.update_of_ne hj, Finset.mem_erase, hmem, and_iff_right hj]
  · rw [Finset.card_erase_of_mem hi, hcard]

end Frame

/-! ### Tasks -/

section Task
variable {s : Uploads} {view : ℕ → View} {i j : ℕ} {todo : List Task} {c : Callback} {v : View}

@[simp] theorem machine_setRequest {r : Request} : (s.setRequest i r).machine i = r.machine := by
  simp [machine, setRequest]

@[simp] theorem todo_setRequest {r : Request} : (s.setRequest i r).todo i = r.todo := by
  simp [Uploads.todo, setRequest]

theorem sameFor_setRequest {r : Request} (hj : j ≠ i) : s.SameFor (s.setRequest i r) j where
  request := Function.update_of_ne hj _ _
  toHash := Iff.rfl
  startHash := Iff.rfl
  toUpload := Iff.rfl
  startUpload := Iff.rfl
  requests := Iff.rfl
  added := Iff.rfl
  posted _ := Iff.rfl

/-- A task changes nothing for other requests. -/
theorem sameFor_runTask {t : Task} (hj : j ≠ i) : s.SameFor (s.runTask i todo t) j where
  request := by cases t <;> exact Function.update_of_ne hj _ _
  toHash := by
    cases t with
    | body c =>
      cases c with
      | handleAddToHash => exact List.mem_append.trans (or_iff_left (by simpa using hj))
      | handleRemoveToHash => exact List.mem_erase_of_ne hj
      | _ => exact Iff.rfl
    | _ => exact Iff.rfl
  startHash := by
    cases t with
    | body c =>
      cases c with
      | handleComplete | incrementHashingCount => exact Finset.mem_erase.trans (and_iff_right hj)
      | _ => exact Iff.rfl
    | _ => exact Iff.rfl
  toUpload := by
    cases t with
    | body c =>
      cases c with
      | handleAddToUpload => exact List.mem_append.trans (or_iff_left (by simpa using hj))
      | handleRemoveToUpload => exact List.mem_erase_of_ne hj
      | _ => exact Iff.rfl
    | _ => exact Iff.rfl
  startUpload := by
    cases t with
    | body c =>
      cases c with
      | handleComplete | incrementUploadingCount => exact Finset.mem_erase.trans (and_iff_right hj)
      | _ => exact Iff.rfl
    | _ => exact Iff.rfl
  requests := by
    cases t with
    | body c =>
      cases c with
      | handleComplete => exact Finset.mem_erase.trans (and_iff_right hj)
      | _ => exact Iff.rfl
    | _ => exact Iff.rfl
  added := by cases t <;> exact Iff.rfl
  posted _ := by cases t <;> exact Iff.rfl

@[simp] theorem machine_runTask_body :
    (s.runTask i todo (.body c)).machine i = s.machine i := by
  simp [runTask, machine, setRequest]

@[simp] theorem machine_runTask_enqueueTick :
    (s.runTask i todo .enqueueTick).machine i = s.machine i := by
  simp [runTask, machine, setRequest]

@[simp] theorem todo_runTask {t : Task} : (s.runTask i todo t).todo i = todo := by
  cases t <;> simp [runTask, Uploads.todo, setRequest]

/-- Where a section leaves the request whose thread runs it. -/
theorem mem_runTask_body (todo : List Task) (h : s.Shows i v)
    (hnodup : s.manager.toHash.Nodup ∧ s.manager.toUpload.Nodup) (hok : (Task.body c).ok v) :
    (i ∈ (s.runTask i todo (.body c)).manager.toHash ↔ ((Task.body c).act v).place = .toHash) ∧
    (i ∈ (s.runTask i todo (.body c)).manager.enqueuedToStartHashings ↔
      ((Task.body c).act v).place = .startHash) ∧
    (i ∈ (s.runTask i todo (.body c)).manager.toUpload ↔
      ((Task.body c).act v).place = .toUpload) ∧
    (i ∈ (s.runTask i todo (.body c)).manager.enqueuedToStartUploads ↔
      ((Task.body c).act v).place = .startUpload) ∧
    (i ∈ (s.runTask i todo (.body c)).manager.requests ↔ ((Task.body c).act v).life = .live) := by
  have hhash := h.toHash
  have hstartHash := h.startHash
  have hupload := h.toUpload
  have hstartUpload := h.startUpload
  have hlive := h.requests
  cases c with
  | handleAddToHash =>
    obtain ⟨-, hp, -⟩ := hok
    simp_all [runTask, setRequest, UploadManagerImpl.body, UploadManagerImpl.handleAddToHash,
      Task.act]
  | handleRemoveToHash =>
    rcases hok.2 with hp | hp <;>
      simp_all [runTask, setRequest, UploadManagerImpl.body, UploadManagerImpl.handleRemoveToHash,
        Task.act, hnodup.1.mem_erase_iff]
  | handleAddToUpload =>
    obtain ⟨-, hp, -⟩ := hok
    simp_all [runTask, setRequest, UploadManagerImpl.body, UploadManagerImpl.handleAddToUpload,
      Task.act]
  | handleRemoveToUpload =>
    rcases hok.2 with hp | hp <;>
      simp_all [runTask, setRequest, UploadManagerImpl.body,
        UploadManagerImpl.handleRemoveToUpload, Task.act, hnodup.2.mem_erase_iff]
  | handleComplete =>
    obtain ⟨-, -, hp, hp'⟩ := hok
    simp_all [runTask, setRequest, UploadManagerImpl.body, UploadManagerImpl.handleComplete,
      Task.act]
  | incrementHashingCount =>
    obtain ⟨-, -, hp, -⟩ := hok
    simp_all [runTask, setRequest, UploadManagerImpl.body,
      UploadManagerImpl.incrementHashingCount, Task.act]
  | incrementUploadingCount =>
    obtain ⟨-, -, hp, -⟩ := hok
    simp_all [runTask, setRequest, UploadManagerImpl.body,
      UploadManagerImpl.incrementUploadingCount, Task.act]
  | decrementHashingCount => exact ⟨hhash, hstartHash, hupload, hstartUpload, hlive⟩
  | decrementUploadingCount => exact ⟨hhash, hstartHash, hupload, hstartUpload, hlive⟩

/-- The request whose thread runs the section. -/
theorem Shows.body (h : s.Shows i v) (hnodup : s.manager.toHash.Nodup ∧ s.manager.toUpload.Nodup)
    (hok : (Task.body c).ok v) (hfits : FitsTodo todo ((Task.body c).act v)) :
    (s.runTask i todo (.body c)).Shows i ((Task.body c).act v) := by
  obtain ⟨hhash, hstartHash, hupload, hstartUpload, hlive⟩ :=
    mem_runTask_body todo h hnodup hok
  have hlife : v.life = .live := by cases c <;> exact hok.1
  have hlife' : ((Task.body c).act v).life ≠ .absent := by cases c <;> simp [Task.act, hlife]
  refine ⟨?_, ?_, by rwa [todo_runTask], hhash, hstartHash, hupload, hstartUpload, hlive, ?_,
    fun habsent => absurd habsent hlife', ?_, ?_, ?_, ?_⟩
  · rw [machine_runTask_body, ← h.state]
    cases c <;> rfl
  · rw [machine_runTask_body, ← h.count]
    cases c <;> rfl
  · exact iff_of_true (h.added.mpr (by simp [hlife])) hlife'
  · intro hslot
    cases c with
    | handleComplete => exact absurd hok.2.1 hslot
    | _ => exact hlife
  · intro hwaiting
    have hold := h.waiting
    cases c with
    | handleAddToHash | handleAddToUpload => exact hok.2.2
    | handleRemoveToHash | handleRemoveToUpload =>
      simp only [Task.act] at hwaiting
      split_ifs at hwaiting
      · simp at hwaiting
      · exact hold hwaiting
    | decrementHashingCount | decrementUploadingCount => exact hold hwaiting
    | _ => simp [Task.act] at hwaiting
  · have hsignal : ((Task.body c).act v).signal = v.signal := by cases c <;> rfl
    rw [hsignal]
    exact h.signal
  · intro evt hmem
    have hsignal : v.signal = true := h.signal.mpr ⟨evt, hmem⟩
    have hposted := h.posted evt hmem
    cases c with
    | handleAddToHash | handleAddToUpload => simp [hok.2.2] at hsignal
    | incrementHashingCount | incrementUploadingCount => simp [hok.2.2.2] at hsignal
    | handleRemoveToHash =>
      have hp : v.place ≠ .toHash := fun hp => by simp [h.waiting (.inl hp)] at hsignal
      simpa only [Task.act, if_neg hp] using hposted
    | handleRemoveToUpload =>
      have hp : v.place ≠ .toUpload := fun hp => by simp [h.waiting (.inr hp)] at hsignal
      simpa only [Task.act, if_neg hp] using hposted
    | handleComplete => exact hposted.imp (fun hp => ⟨hp.1, .inr rfl⟩) (fun hp => ⟨hp.1, .inr rfl⟩)
    | decrementHashingCount | decrementUploadingCount => exact hposted

theorem Shows.own (h : s.Shows i v) {x : Effect} (hfits : FitsTodo todo ((Task.own x).act v))
    (hlive : v.life ≠ .absent) : (s.runTask i todo (.own x)).Shows i ((Task.own x).act v) := by
  have hmachine : (s.runTask i todo (.own x)).machine i = (s.machine i).apply x := by
    simp [runTask, machine, setRequest]
  obtain ⟨state, count, hact⟩ := act_own x v
  have hv : (Task.own x).act v = ⟨state, count, v.place, v.slot, v.life, v.signal⟩ :=
    hact v.place v.signal
  refine ⟨?_, ?_, by rwa [todo_runTask], ?_, ?_, ?_, ?_, ?_, ?_, ?_, ?_, ?_, ?_, ?_⟩
  · rw [hmachine]
    have hstate := h.state
    cases x with
    | write w => cases w <;> first | exact hstate | rfl
    | _ => exact hstate
  · rw [hmachine]
    have hcount := h.count
    cases x with
    | write w => cases w <;> first | exact hcount | rfl
    | _ => exact hcount
  · rw [hv]; exact h.toHash
  · rw [hv]; exact h.startHash
  · rw [hv]; exact h.toUpload
  · rw [hv]; exact h.startUpload
  · rw [hv]; exact h.requests
  · rw [hv]; exact h.added
  · rw [hv]; exact fun habsent => absurd habsent hlive
  · rw [hv]; exact h.holder
  · rw [hv]; exact h.waiting
  · rw [hv]; exact h.signal
  · rw [hv]; exact h.posted

/-- What a section does to the counters; neither is decremented at zero. -/
theorem Totals.body (ht : s.Totals view) (h : s.Shows i (view i))
    (hok : (Task.body c).ok (view i)) :
    (s.runTask i todo (.body c)).Totals
      (Function.update view i ((Task.body c).act (view i))) := by
  obtain ⟨hlimit, hlimit'⟩ := ht.limits
  have hbound := ht.hashingBound
  have hbound' := ht.uploadBound
  cases c with
  | handleAddToHash =>
    have hnot : i ∉ s.manager.toHash := fun hmem => by
      have := h.toHash.mp hmem
      simp [hok.2.1] at this
    exact { ht with
      nodupHash := ht.nodupHash.append (List.nodup_singleton i) (by simpa using hnot)
      hashings := ht.hashings.update_same Iff.rfl
      uploads := ht.uploads.update_same Iff.rfl }
  | handleAddToUpload =>
    have hnot : i ∉ s.manager.toUpload := fun hmem => by
      have := h.toUpload.mp hmem
      simp [hok.2.1] at this
    exact { ht with
      nodupUpload := ht.nodupUpload.append (List.nodup_singleton i) (by simpa using hnot)
      hashings := ht.hashings.update_same Iff.rfl
      uploads := ht.uploads.update_same Iff.rfl }
  | handleRemoveToHash =>
    exact { ht with
      nodupHash := ht.nodupHash.erase i
      hashings := ht.hashings.update_same Iff.rfl
      uploads := ht.uploads.update_same Iff.rfl }
  | handleRemoveToUpload =>
    exact { ht with
      nodupUpload := ht.nodupUpload.erase i
      hashings := ht.hashings.update_same Iff.rfl
      uploads := ht.uploads.update_same Iff.rfl }
  | handleComplete =>
    exact { ht with
      hashings := ht.hashings.update_same Iff.rfl
      uploads := ht.uploads.update_same Iff.rfl
      hashingBound := (Nat.add_le_add_left (Finset.card_le_card (Finset.erase_subset ..)) _).trans
        hbound
      uploadBound := (Nat.add_le_add_left (Finset.card_le_card (Finset.erase_subset ..)) _).trans
        hbound' }
  | incrementHashingCount =>
    obtain ⟨-, hslot, hplace, -⟩ := hok
    have hmem := h.startHash.mpr hplace
    have hcard := Finset.card_erase_of_mem hmem
    have hpos := Finset.card_pos.mpr ⟨i, hmem⟩
    have hcount : increment 32 s.manager.currentHashings = s.manager.currentHashings + 1 :=
      increment_of_lt (by omega)
    exact { ht with
      hashings := of_count hcount (ht.hashings.update_insert (by simp [hslot]) rfl)
      uploads := ht.uploads.update_same (by simp [Task.act, hslot])
      hashingBound := by
        change increment 32 s.manager.currentHashings +
          (s.manager.enqueuedToStartHashings.erase i).card ≤ s.manager.maxConcurrentHashings
        omega }
  | incrementUploadingCount =>
    obtain ⟨-, hslot, hplace, -⟩ := hok
    have hmem := h.startUpload.mpr hplace
    have hcard := Finset.card_erase_of_mem hmem
    have hpos := Finset.card_pos.mpr ⟨i, hmem⟩
    have hcount : increment 32 s.manager.currentUploads = s.manager.currentUploads + 1 :=
      increment_of_lt (by omega)
    exact { ht with
      hashings := ht.hashings.update_same (by simp [Task.act, hslot])
      uploads := of_count hcount (ht.uploads.update_insert (by simp [hslot]) rfl)
      uploadBound := by
        change increment 32 s.manager.currentUploads +
          (s.manager.enqueuedToStartUploads.erase i).card ≤ s.manager.maxConcurrentUploads
        omega }
  | decrementHashingCount =>
    obtain ⟨hpos, hholders⟩ := ht.hashings.update_erase
      ((Task.body .decrementHashingCount).act (view i)) hok.2 (by simp [Task.act])
    have hcount : decrement 32 s.manager.currentHashings = s.manager.currentHashings - 1 :=
      decrement_of_pos hpos
    exact { ht with
      hashings := of_count hcount hholders
      uploads := ht.uploads.update_same (by simp [Task.act, hok.2])
      hashingBound := by
        change decrement 32 s.manager.currentHashings +
          s.manager.enqueuedToStartHashings.card ≤ s.manager.maxConcurrentHashings
        omega }
  | decrementUploadingCount =>
    obtain ⟨hpos, hholders⟩ := ht.uploads.update_erase
      ((Task.body .decrementUploadingCount).act (view i)) hok.2 (by simp [Task.act])
    have hcount : decrement 32 s.manager.currentUploads = s.manager.currentUploads - 1 :=
      decrement_of_pos hpos
    exact { ht with
      hashings := ht.hashings.update_same (by simp [Task.act, hok.2])
      uploads := of_count hcount hholders
      uploadBound := by
        change decrement 32 s.manager.currentUploads +
          s.manager.enqueuedToStartUploads.card ≤ s.manager.maxConcurrentUploads
        omega }

theorem Accounts.task (h : s.Accounts view) {t : Task} (htodo : s.todo i = t :: todo) :
    (s.runTask i todo t).Accounts (Function.update view i (t.act (view i))) := by
  have hshows := h.shows i
  have hfits := hshows.fits
  rw [htodo] at hfits
  obtain ⟨hok, hfits⟩ := hfits
  have hlive : (view i).life ≠ .absent := fun habsent => by
    have := hshows.absent habsent
    rw [htodo] at this
    cases this
  refine h.update (fun j hj => sameFor_runTask hj) ?_ ?_
  · cases t with
    | own x => exact hshows.own hfits hlive
    | enqueueTick =>
      refine { hshows with
        state := by rw [machine_runTask_enqueueTick]; exact hshows.state
        count := by rw [machine_runTask_enqueueTick]; exact hshows.count
        fits := by rw [todo_runTask]; exact hfits
        absent := fun habsent => absurd habsent hlive }
    | body c => exact hshows.body ⟨h.totals.nodupHash, h.totals.nodupUpload⟩ hok hfits
  · cases t with
    | own x =>
      obtain ⟨state, count, hact⟩ := act_own x (view i)
      have hv : (Task.own x).act (view i) = ⟨state, count, (view i).place, (view i).slot,
          (view i).life, (view i).signal⟩ := hact (view i).place (view i).signal
      have hslot : ((Task.own x).act (view i)).slot = (view i).slot := by rw [hv]
      exact { h.totals with
        hashings := h.totals.hashings.update_same (by rw [hslot])
        uploads := h.totals.uploads.update_same (by rw [hslot]) }
    | enqueueTick =>
      exact { h.totals with
        hashings := h.totals.hashings.update_same Iff.rfl
        uploads := h.totals.uploads.update_same Iff.rfl }
    | body c => exact h.totals.body hshows hok

end Task

/-! ### Ticks -/

section Tick
variable {s : Uploads} {view : ℕ → View} {i : ℕ}

/-- Steps that change neither requests, containers, counters nor posted signals. -/
theorem Accounts.congr {s' : Uploads} (h : s.Accounts view) (hrequest : s'.request = s.request)
    (hadded : s'.added = s.added) (hposted : s'.posted = s.posted)
    (hmanager : ∃ token expires state, s'.manager = { s.manager with
      actionToken := token, actionTokenExpires := expires, actionTokenState := state }) :
    s'.Accounts view := by
  obtain ⟨token, expires, state, hmanager⟩ := hmanager
  refine ⟨fun i => (h.shows i).congr ⟨congrFun hrequest i, ?_, ?_, ?_, ?_, ?_, by rw [hadded],
    fun evt => by rw [hposted]⟩, ?_⟩ <;> try rw [hmanager]
  obtain ⟨h1, h2, h3, h4, h5, h6, h7, h8⟩ := h.totals
  exact ⟨by rw [hmanager]; exact h1, by rw [hmanager]; exact h2, by rw [hposted]; exact h3,
    by rw [hmanager]; exact h4, by rw [hmanager]; exact h5, by rw [hmanager]; exact h6,
    by rw [hmanager]; exact h7, by rw [hmanager]; exact h8⟩

theorem startHashing_eq_some {um um' : UploadManagerImpl}
    (h : um.startHashing = some (i, um')) : ∃ toHash, um.toHash = i :: toHash ∧ um.CanHashMore ∧
      um' = { um with
        toHash := toHash, enqueuedToStartHashings := insert i um.enqueuedToStartHashings } := by
  unfold UploadManagerImpl.startHashing at h
  split at h
  · cases h
  · rename_i request toHash htoHash
    split_ifs at h with hmore
    cases h
    exact ⟨toHash, htoHash, hmore, rfl⟩

/-- A posted signal is the first one for a request that waits. -/
theorem Totals.nodup_posted (h : s.Totals view) (hshows : s.Shows i (view i)) {evt : Event}
    (hsignal : (view i).signal = false) : ((s.posted ++ [(i, evt)]).map Prod.fst).Nodup := by
  have hnot : i ∉ s.posted.map Prod.fst := fun hmem => by
    obtain ⟨⟨j, evt'⟩, hposted, hj⟩ := List.mem_map.mp hmem
    obtain rfl : j = i := hj
    rw [hshows.signal.mpr ⟨evt', hposted⟩] at hsignal
    cases hsignal
  rw [List.map_append]
  exact h.nodupPosted.append (List.nodup_singleton i) (by simpa using hnot)

theorem mem_posted_append {j : ℕ} {evt evt' : Event} :
    (j, evt') ∈ s.posted ++ [(i, evt)] ↔ (j, evt') ∈ s.posted ∨ j = i ∧ evt' = evt := by
  simp

/-- One iteration of the loop of `Tick_StartHashings`. -/
theorem Accounts.startHashing (h : s.Accounts view) {um : UploadManagerImpl}
    (hstart : s.manager.startHashing = some (i, um)) :
    Uploads.Accounts { s with manager := um, posted := s.posted ++ [(i, .startHash)] }
      (Function.update view i { view i with place := .startHash, signal := true }) := by
  obtain ⟨toHash, htoHash, hmore, rfl⟩ := startHashing_eq_some hstart
  have hi := h.shows i
  have hplace : (view i).place = .toHash := hi.toHash.mp (by rw [htoHash]; exact List.mem_cons_self)
  have hsignal := hi.waiting (.inl hplace)
  have hnodup := h.totals.nodupHash
  rw [htoHash, List.nodup_cons] at hnodup
  have hnot : i ∉ s.manager.enqueuedToStartHashings := fun hmem => by
    have := hi.startHash.mp hmem
    simp [hplace] at this
  refine h.update (fun j hj => ⟨rfl, ?_, ?_, Iff.rfl, Iff.rfl, Iff.rfl, Iff.rfl, fun evt => ?_⟩) ?_ ?_
  · rw [htoHash, List.mem_cons, or_iff_right hj]
  · exact Finset.mem_insert.trans (or_iff_right hj)
  · exact mem_posted_append.trans (or_iff_left fun hand => hj hand.1)
  · refine { hi with
      fits := hi.fits.moved (.startHash (.inl hplace))
      toHash := iff_of_false hnodup.1 (by simp)
      startHash := iff_of_true (Finset.mem_insert_self ..) rfl
      toUpload := iff_of_false (fun hmem => ?_) (by simp)
      startUpload := iff_of_false (fun hmem => ?_) (by simp)
      waiting := by simp
      signal := iff_of_true rfl ⟨.startHash, mem_posted_append.mpr (.inr ⟨rfl, rfl⟩)⟩
      posted := fun evt hmem => ?_ }
    · have := hi.toUpload.mp hmem
      simp [hplace] at this
    · have := hi.startUpload.mp hmem
      simp [hplace] at this
    · rcases mem_posted_append.mp hmem with hmem | ⟨-, rfl⟩
      · rw [hi.signal.mpr ⟨evt, hmem⟩] at hsignal
        cases hsignal
      · exact .inl ⟨rfl, .inl rfl⟩
  · exact { h.totals with
      nodupHash := hnodup.2
      nodupPosted := h.totals.nodup_posted hi hsignal
      hashings := h.totals.hashings.update_same Iff.rfl
      uploads := h.totals.uploads.update_same Iff.rfl
      hashingBound := by
        change _ + (insert i s.manager.enqueuedToStartHashings).card ≤ _
        rw [Finset.card_insert_of_notMem hnot]
        exact hmore }

/-- The loop of `Tick_StartHashings`. -/
theorem Accounts.startHashings (h : s.Accounts view) (fuel : ℕ) :
    ∃ view', Uploads.Accounts { s with
      manager := (UploadManagerImpl.startHashings fuel s.manager).1
      posted := s.posted ++ (UploadManagerImpl.startHashings fuel s.manager).2.map
        fun i => (i, .startHash) } view' := by
  induction fuel generalizing s view with
  | zero => exact ⟨view, h.congr rfl rfl (List.append_nil _) ⟨_, _, _, rfl⟩⟩
  | succ fuel ih =>
    rw [UploadManagerImpl.startHashings]
    cases hstart : s.manager.startHashing with
    | none => exact ⟨view, h.congr rfl rfl (List.append_nil _) ⟨_, _, _, rfl⟩⟩
    | some started =>
      obtain ⟨i, um⟩ := started
      obtain ⟨view', h'⟩ := ih (h.startHashing hstart)
      refine ⟨view', h'.congr rfl rfl ?_ ⟨_, _, _, rfl⟩⟩
      simp

/-- The loop of `Tick_StartHashings` changes two containers. -/
theorem startHashings_fields (fuel : ℕ) (um : UploadManagerImpl) : ∃ toHash enqueued,
    (UploadManagerImpl.startHashings fuel um).1 =
      { um with toHash := toHash, enqueuedToStartHashings := enqueued } := by
  induction fuel generalizing um with
  | zero => exact ⟨_, _, rfl⟩
  | succ fuel ih =>
    rw [UploadManagerImpl.startHashings]
    cases hstart : um.startHashing with
    | none => exact ⟨_, _, rfl⟩
    | some started =>
      obtain ⟨i, um'⟩ := started
      obtain ⟨toHash, -, -, rfl⟩ := startHashing_eq_some hstart
      obtain ⟨toHash', enqueued, hfields⟩ := ih { um with
        toHash := toHash, enqueuedToStartHashings := insert i um.enqueuedToStartHashings }
      exact ⟨toHash', enqueued, hfields⟩

/-- `ActionTokenRetry` changes the token only. -/
theorem actionTokenRetry_fields (um : UploadManagerImpl) (err : Bool) : ∃ token state,
    (um.actionTokenRetry err).1 = { um with actionToken := token, actionTokenState := state } := by
  unfold UploadManagerImpl.actionTokenRetry
  split_ifs <;> exact ⟨_, _, rfl⟩

/-- What `Tick_StartUploads` does. -/
inductive TicksUploads (um : UploadManagerImpl) (hash : ℕ → String) (now : ℕ) :
    UploadManagerImpl × UploadManagerImpl.StartedUpload → Prop
  | empty (hempty : um.toUpload = []) : TicksUploads um hash now (um, .nothing)
  | early (hstate : um.actionTokenState = .error) (hnow : now < um.actionTokenExpires) :
    TicksUploads um hash now (um, .nothing)
  | getActionToken (hne : um.toUpload ≠ [])
      (hinvalid : um.actionTokenState ≠ .valid ∨ um.actionTokenExpires < now)
      (hretry : ¬ (um.actionTokenState = .error ∧ now < um.actionTokenExpires)) :
    TicksUploads um hash now ({ um with actionTokenState := .retrieving }, .getActionToken)
  | full (hvalid : um.actionTokenState = .valid) (hfull : ¬ um.CanUploadMore) :
    TicksUploads um hash now (um, .nothing)
  | duplicates (hvalid : um.actionTokenState = .valid)
      (hall : ∀ i ∈ um.toUpload, hash i ∈ um.uploadingHashes) :
    TicksUploads um hash now (um, .nothing)
  | startUpload (i : ℕ) (hi : i ∈ um.toUpload) (hhash : hash i ∉ um.uploadingHashes)
      (hmore : um.CanUploadMore) (hvalid : um.actionTokenState = .valid) :
    TicksUploads um hash now ({ um with
      toUpload := um.toUpload.erase i
      uploadingHashes := insert (hash i) um.uploadingHashes
      enqueuedToStartUploads := insert i um.enqueuedToStartUploads },
      .startUpload i um.actionToken)

theorem ticksUploads (um : UploadManagerImpl) (hash : ℕ → String) (now : ℕ) :
    TicksUploads um hash now (um.tickStartUploads hash now) := by
  unfold UploadManagerImpl.tickStartUploads
  split_ifs with hempty hinvalid hretry hmore
  · exact .empty hempty
  · exact .early hretry.1 hretry.2
  · exact .getActionToken hempty hinvalid hretry
  · have hvalid : um.actionTokenState = .valid := by
      by_contra hne
      exact hinvalid (.inl hne)
    split
    · rename_i hnone
      exact .duplicates hvalid fun i hi => by simpa using List.find?_eq_none.mp hnone i hi
    · rename_i i hsome
      exact .startUpload i (List.mem_of_find?_eq_some hsome)
        (by simpa using List.find?_some hsome) hmore hvalid
  · refine .full ?_ hmore
    by_contra hne
    exact hinvalid (.inl hne)

theorem Accounts.tickStartUploads (h : s.Accounts view) :
    ∃ view', s.tickStartUploads.Accounts view' := by
  have hticks := ticksUploads s.manager s.hash s.now
  unfold Uploads.tickStartUploads
  generalize s.manager.tickStartUploads s.hash s.now = result at hticks
  cases hticks with
  | empty _ => exact ⟨view, h.congr rfl rfl rfl ⟨_, _, _, rfl⟩⟩
  | early _ _ => exact ⟨view, h.congr rfl rfl rfl ⟨_, _, _, rfl⟩⟩
  | getActionToken _ _ _ => exact ⟨view, h.congr rfl rfl rfl ⟨_, _, _, rfl⟩⟩
  | full _ _ => exact ⟨view, h.congr rfl rfl rfl ⟨_, _, _, rfl⟩⟩
  | duplicates _ _ => exact ⟨view, h.congr rfl rfl rfl ⟨_, _, _, rfl⟩⟩
  | startUpload i hmem hhash hmore hvalid =>
    have hi := h.shows i
    have hplace : (view i).place = .toUpload := hi.toUpload.mp hmem
    have hsignal := hi.waiting (.inr hplace)
    have hnot : i ∉ s.manager.enqueuedToStartUploads := fun hmem => by
      have := hi.startUpload.mp hmem
      simp [hplace] at this
    refine ⟨Function.update view i { view i with place := .startUpload, signal := true },
      h.update (fun j hj => ⟨rfl, Iff.rfl, Iff.rfl, ?_, ?_, Iff.rfl, Iff.rfl, fun evt => ?_⟩) ?_ ?_⟩
    · exact List.mem_erase_of_ne hj
    · exact Finset.mem_insert.trans (or_iff_right hj)
    · exact mem_posted_append.trans (or_iff_left fun hand => hj hand.1)
    · refine { hi with
        fits := hi.fits.moved (.startUpload (.inl hplace))
        toHash := iff_of_false (fun hmem => ?_) (by simp)
        startHash := iff_of_false (fun hmem => ?_) (by simp)
        toUpload := iff_of_false (fun hmem => ?_) (by simp)
        startUpload := iff_of_true (Finset.mem_insert_self ..) rfl
        waiting := by simp
        signal := iff_of_true rfl ⟨_, mem_posted_append.mpr (.inr ⟨rfl, rfl⟩)⟩
        posted := fun evt hmem => ?_ }
      · have := hi.toHash.mp hmem
        simp [hplace] at this
      · have := hi.startHash.mp hmem
        simp [hplace] at this
      · exact (h.totals.nodupUpload.mem_erase_iff.mp hmem).1 rfl
      · rcases mem_posted_append.mp hmem with hmem | ⟨-, rfl⟩
        · rw [hi.signal.mpr ⟨evt, hmem⟩] at hsignal
          cases hsignal
        · exact .inr ⟨⟨_, rfl⟩, .inl rfl⟩
    · exact { h.totals with
        nodupUpload := h.totals.nodupUpload.erase i
        nodupPosted := h.totals.nodup_posted hi hsignal
        hashings := h.totals.hashings.update_same Iff.rfl
        uploads := h.totals.uploads.update_same Iff.rfl
        uploadBound := by
          change _ + (insert i s.manager.enqueuedToStartUploads).card ≤ _
          rw [Finset.card_insert_of_notMem hnot]
          exact hmore }

end Tick

/-! ### Events -/

section Events
variable {s s' : Uploads} {view : ℕ → View} {i : ℕ} {w : World} {evt : Event} {v : View}

theorem processEvent_eq_some (h : s.processEvent i w evt = some s') :
    s.todo i = [] ∧ .halted ∉ (s.machine i).fire w evt ∧
      s' = s.setRequest i
        { machine := s.machine i, todo := tasks ((s.machine i).fire w evt) } := by
  unfold processEvent at h
  dsimp only at h
  split_ifs at h with hcond
  cases h
  exact ⟨hcond.1, hcond.2, rfl⟩

theorem Shows.idle (h : s.Shows i v) (htodo : s.todo i = []) : v.Idle := by
  have := h.fits
  rw [htodo] at this
  exact this

/-- A transition that starts fits the view of its request. -/
theorem fitsTodo_start (h : s.Shows i v) (hlife : v.life ≠ .absent) {v' : View}
    (hv' : ∃ signal, v' = { v with signal := signal })
    (hreceives : v.life = .live → Receives v' evt) (htodo : s.todo i = []) :
    FitsTodo (tasks ((s.machine i).fire w evt)) v' := by
  obtain ⟨signal, rfl⟩ := hv'
  have hidle := h.idle htodo
  obtain ⟨state, count, place, slot, life, signal'⟩ := v
  cases life with
  | absent => exact absurd rfl hlife
  | live => exact fitsTodo_fire (hreceives rfl) h.state h.count rfl
  | completed =>
    have hterm : (s.machine i).state.isTerminal = true := h.state ▸ hidle.2.1
    rw [UploadStateMachine.fire_terminal hterm]
    exact hidle

theorem Accounts.event (h : s.Accounts view) (hi : i < s.added) (hevt : isSignal evt = false)
    (hprocess : s.processEvent i w evt = some s') : s'.Accounts view := by
  obtain ⟨htodo, -, rfl⟩ := processEvent_eq_some hprocess
  have hshows := h.shows i
  have hlife := hshows.added.mp hi
  have hidle := hshows.idle htodo
  refine ⟨fun j => ?_, { h.totals with }⟩
  by_cases hj : j = i
  · subst hj
    refine { hshows with
      state := by rw [machine_setRequest]; exact hshows.state
      count := by rw [machine_setRequest]; exact hshows.count
      fits := ?_
      absent := fun habsent => absurd habsent hlife }
    rw [todo_setRequest]
    exact fitsTodo_start hshows hlife ⟨_, rfl⟩ (fun _ => .event hidle hevt) htodo
  · exact (h.shows j).congr (sameFor_setRequest hj)

theorem Accounts.process (h : s.Accounts view) {k : ℕ} (hk : s.posted[k]? = some (i, evt))
    (hprocess : { s with posted := s.posted.eraseIdx k }.processEvent i w evt = some s') :
    ∃ view', s'.Accounts view' := by
  obtain ⟨htodo, -, rfl⟩ := processEvent_eq_some hprocess
  have hshows := h.shows i
  have hmem : (i, evt) ∈ s.posted := List.mem_of_getElem? hk
  have hsignal : (view i).signal = true := hshows.signal.mpr ⟨evt, hmem⟩
  have hperm : s.posted.Perm ((i, evt) :: s.posted.eraseIdx k) := by
    obtain ⟨hlt, hget⟩ := List.getElem?_eq_some_iff.mp hk
    exact hget ▸ (List.getElem_cons_eraseIdx_perm hlt).symm
  have hnodup := (hperm.map Prod.fst).nodup_iff.mp h.totals.nodupPosted
  rw [List.map_cons, List.nodup_cons] at hnodup
  have hnot : ∀ evt', (i, evt') ∉ s.posted.eraseIdx k := fun evt' hmem' =>
    hnodup.1 (List.mem_map.mpr ⟨_, hmem', rfl⟩)
  have hidle := hshows.idle htodo
  have hlife : (view i).life ≠ .absent := by
    intro habsent
    rw [(hidle.of_absent habsent).2.2] at hsignal
    cases hsignal
  refine ⟨Function.update view i { view i with signal := false },
    h.update (fun j hj => ⟨Function.update_of_ne hj _ _, Iff.rfl, Iff.rfl, Iff.rfl, Iff.rfl, Iff.rfl,
      Iff.rfl, fun evt' => ?_⟩) ?_ { h.totals with
        nodupPosted := hnodup.2
        hashings := h.totals.hashings.update_same Iff.rfl
        uploads := h.totals.uploads.update_same Iff.rfl }⟩
  · rw [hperm.mem_iff, List.mem_cons, or_iff_right (by simp [hj])]
    rfl
  · refine { hshows with
      state := by rw [machine_setRequest]; exact hshows.state
      count := by rw [machine_setRequest]; exact hshows.count
      fits := ?_
      absent := fun habsent => absurd habsent hlife
      waiting := fun _ => rfl
      signal := iff_of_false (by simp) fun ⟨evt', hmem'⟩ => hnot evt' hmem'
      posted := fun evt' hmem' => absurd hmem' (hnot evt') }
    rw [todo_setRequest]
    refine fitsTodo_start hshows hlife ⟨_, rfl⟩ (fun hlive => ?_) htodo
    have hrestored : { view i with signal := true } = view i := by rw [← hsignal]
    rcases hshows.posted evt hmem with ⟨rfl, hp | hp⟩ | ⟨⟨token, rfl⟩, hp | hp⟩
    · exact .startHash (hrestored ▸ hidle) hlive hp rfl
    · rw [hlive] at hp; cases hp
    · exact .startUpload token (hrestored ▸ hidle) hlive hp rfl
    · rw [hlive] at hp; cases hp

theorem Accounts.add (h : s.Accounts view) {machine : UploadStateMachine}
    (hstate : machine.state = .initial) (hcount : machine.countState = .none) :
    ∃ view', Uploads.Accounts { s.setRequest s.added { machine := machine } with
      manager := { s.manager with requests := insert s.added s.manager.requests }
      added := s.added + 1 } view' := by
  have hshows := h.shows s.added
  have habsent : (view s.added).life = .absent := by
    by_contra hlife
    exact absurd (hshows.added.mpr hlife) (lt_irrefl _)
  obtain ⟨hplace, hslot, hsignal⟩ := (hshows.idle (hshows.absent habsent)).of_absent habsent
  have hin {place : Place} : (view s.added).place = place ↔ Place.none = place := by rw [hplace]
  refine ⟨Function.update view s.added ⟨.initial, .none, .none, .none, .live, false⟩,
    h.update (fun j hj => ⟨Function.update_of_ne hj _ _, Iff.rfl, Iff.rfl, Iff.rfl, Iff.rfl, ?_, ?_,
      fun _ => Iff.rfl⟩) ?_ { h.totals with
        hashings := h.totals.hashings.update_same ?_
        uploads := h.totals.uploads.update_same ?_ }⟩
  · exact Finset.mem_insert.trans (or_iff_right hj)
  · exact (Nat.lt_succ_iff_lt_or_eq).trans (or_iff_left hj)
  · refine ⟨?_, ?_, ?_, hshows.toHash.trans hin, hshows.startHash.trans hin,
      hshows.toUpload.trans hin, hshows.startUpload.trans hin,
      iff_of_true (Finset.mem_insert_self ..) rfl, iff_of_true (Nat.lt_succ_self _) (by simp),
      by simp, by simp, by simp, (by rw [hsignal] : _ ↔ (view s.added).signal = true).trans
        hshows.signal, fun evt hmem => ?_⟩
    · exact ((congrArg UploadStateMachine.state machine_setRequest).trans hstate).symm
    · exact ((congrArg UploadStateMachine.countState machine_setRequest).trans hcount).symm
    · have htodo : (s.setRequest s.added { machine := machine }).todo s.added = [] :=
        todo_setRequest
      exact (congrArg (FitsTodo · _) htodo).mpr ⟨rfl, rfl, rfl, rfl⟩
    · exact absurd (hshows.signal.mpr ⟨evt, hmem⟩) (by simp [hsignal])
  · rw [hslot]
  · rw [hslot]

theorem Accounts.step (h : s.Accounts view) {act : Act} (hs : s.step act = some s') :
    ∃ view', s'.Accounts view' := by
  cases act with
  | add pathFilename cloudFileName onDuplicateAction =>
    cases hs
    exact h.add rfl rfl
  | event i w evt =>
    rw [Uploads.step] at hs
    split_ifs at hs with hcond
    exact ⟨view, h.event hcond.1 hcond.2 hs⟩
  | process k w =>
    rw [Uploads.step] at hs
    split at hs
    · cases hs
    · rename_i hk
      exact h.process hk hs
  | task i =>
    rw [Uploads.step] at hs
    split at hs
    · cases hs
    · rename_i htodo
      cases hs
      exact ⟨_, h.task htodo⟩
  | tick =>
    cases hs
    exact ⟨view, h.congr rfl rfl rfl ⟨_, _, _, rfl⟩⟩
  | tickStartUploads =>
    rw [Uploads.step] at hs
    split_ifs at hs
    cases hs
    exact Accounts.tickStartUploads (h.congr rfl rfl rfl ⟨_, _, _, rfl⟩)
  | tickStartHashings =>
    rw [Uploads.step] at hs
    split_ifs at hs
    cases hs
    exact Accounts.startHashings (s := { s with halfTicks := s.halfTicks - 1 })
      (h.congr rfl rfl rfl ⟨_, _, _, rfl⟩) _
  | actionToken response =>
    rw [Uploads.step] at hs
    split_ifs at hs
    cases hs
    cases response <;> exact ⟨view, h.congr rfl rfl rfl ⟨_, _, _, rfl⟩⟩
  | asyncWait =>
    rw [Uploads.step] at hs
    split_ifs at hs
    cases hs
    exact ⟨view, h.congr rfl rfl rfl ⟨_, _, _, rfl⟩⟩
  | timerExpires =>
    rw [Uploads.step] at hs
    split_ifs at hs
    cases hs
    exact ⟨view, h.congr rfl rfl rfl ⟨_, _, _, rfl⟩⟩
  | actionTokenRetry err =>
    obtain ⟨token, state, hmanager⟩ := actionTokenRetry_fields s.manager err
    cases err <;> rw [Uploads.step] at hs <;> split_ifs at hs <;> cases hs <;>
      exact ⟨view, h.congr rfl rfl rfl ⟨_, _, _, hmanager⟩⟩
  | clock seconds =>
    cases hs
    exact ⟨view, h.congr rfl rfl rfl ⟨_, _, _, rfl⟩⟩

end Events

end MediafireSdk.Uploader.Uploads
