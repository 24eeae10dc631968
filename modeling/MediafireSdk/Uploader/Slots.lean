import MediafireSdk.Uploader.Accounts

/-! Slot accounting of the upload manager. In every state the counters stay within
their bounds together with the requests enqueued to start, and each counter counts
a set of live requests. A request that handles no event is in the container its
state says and in no other, and it holds a slot when its `count_state_` says so. -/

namespace MediafireSdk.Uploader.Uploads

open Runs

/-- In exactly one of a deque, once, and a set. -/
def InOneOf (i : ℕ) (deque : List ℕ) (enqueued : Finset ℕ) : Prop :=
  deque.count i = 1 ∧ i ∉ enqueued ∨ i ∉ deque ∧ i ∈ enqueued

/-- The live requests between two events that count as `cs`. -/
def CountsAs (s : Uploads) (cs : CountState) (i : ℕ) : Prop :=
  i ∈ s.manager.requests ∧ (s.machine i).countState = cs

/-- A request between two events: its containers. -/
structure Placed (s : Uploads) (i : ℕ) : Prop where
  live : i ∈ s.manager.requests ↔ i < s.added ∧ (s.machine i).state.isTerminal = false
  hash : i ∈ s.manager.requests ∧ (s.machine i).state = .waitForHashSignal →
    InOneOf i s.manager.toHash s.manager.enqueuedToStartHashings
  upload : i ∈ s.manager.requests ∧ (s.machine i).state = .waitForUploadSignal →
    InOneOf i s.manager.toUpload s.manager.enqueuedToStartUploads
  noHash : ¬ (i ∈ s.manager.requests ∧ (s.machine i).state = .waitForHashSignal) →
    i ∉ s.manager.toHash ∧ i ∉ s.manager.enqueuedToStartHashings
  noUpload : ¬ (i ∈ s.manager.requests ∧ (s.machine i).state = .waitForUploadSignal) →
    i ∉ s.manager.toUpload ∧ i ∉ s.manager.enqueuedToStartUploads
  completed : (s.machine i).state.isTerminal = true → (s.machine i).countState = .none

/-- A counter counts live requests: those whose `count_state_` says so, and of the requests that
handle an event perhaps others. -/
def Counts (s : Uploads) (cs : CountState) (current : ℕ) : Prop :=
  ∃ holders : Finset ℕ, holders.card = current ∧ holders ⊆ s.manager.requests ∧
    ∀ i, s.todo i = [] → (i ∈ holders ↔ s.CountsAs cs i)

structure SlotsExact (s : Uploads) : Prop where
  hashingBound : s.manager.currentHashings + s.manager.enqueuedToStartHashings.card ≤
    s.manager.maxConcurrentHashings
  uploadBound : s.manager.currentUploads + s.manager.enqueuedToStartUploads.card ≤
    s.manager.maxConcurrentUploads
  hashings : s.Counts .hashing s.manager.currentHashings
  uploads : s.Counts .uploading s.manager.currentUploads
  placed : ∀ i, s.todo i = [] → s.Placed i
  counted : (∀ i, s.todo i = []) →
    s.manager.currentHashings =
        (s.manager.requests.filter fun i => (s.machine i).countState = .hashing).card ∧
      s.manager.currentUploads =
        (s.manager.requests.filter fun i => (s.machine i).countState = .uploading).card

/-- A step that decrements a counter finds it above zero. -/
def NoUnderflow (s : Uploads) (act : Act) (_ : Uploads) : Prop :=
  ∀ i todo, act = .task i →
    (s.todo i = .body .decrementHashingCount :: todo → 0 < s.manager.currentHashings) ∧
    (s.todo i = .body .decrementUploadingCount :: todo → 0 < s.manager.currentUploads)

section Idle
variable {s : Uploads} {view : ℕ → View} {i : ℕ} {v : View}

theorem inOneOf_iff {deque : List ℕ} {enqueued : Finset ℕ} {p q : Place}
    (hdeque : i ∈ deque ↔ v.place = p) (henqueued : i ∈ enqueued ↔ v.place = q)
    (hnodup : deque.Nodup) (hpq : p ≠ q) (hplace : v.place = p ∨ v.place = q) :
    InOneOf i deque enqueued := by
  rcases hplace with hp | hp
  · exact .inl ⟨List.count_eq_one_of_mem hnodup (hdeque.mpr hp),
      fun hmem => hpq (hp.symm.trans (henqueued.mp hmem))⟩
  · exact .inr ⟨fun hmem => hpq ((hdeque.mp hmem).symm.trans hp), henqueued.mpr hp⟩

theorem idle_place (h : v.Idle) :
    (v.place = .toHash ∨ v.place = .startHash ↔ v.life = .live ∧ v.state = .waitForHashSignal) ∧
    (v.place = .toUpload ∨ v.place = .startUpload ↔
      v.life = .live ∧ v.state = .waitForUploadSignal) := by
  obtain ⟨state, count, place, slot, life, signal⟩ := v
  obtain ⟨-, h⟩ := h
  cases life with
  | absent =>
    obtain ⟨-, -, rfl, -⟩ := h
    simp
  | completed =>
    obtain ⟨-, -, rfl⟩ := h
    simp
  | live =>
    obtain ⟨-, h⟩ := h
    cases state with
    | waitForHashSignal | waitForUploadSignal => rcases h with ⟨rfl, -⟩ | ⟨rfl, -⟩ <;> simp
    | _ => obtain ⟨rfl, -⟩ := h; simp

theorem Accounts.placed (h : s.Accounts view) (htodo : s.todo i = []) : s.Placed i := by
  have hi := h.shows i
  have hidle := hi.idle htodo
  obtain ⟨hhash, hupload⟩ := idle_place hidle
  rw [hi.state] at hhash hupload
  have hlive := hi.requests
  refine ⟨?_, fun hwait => ?_, fun hwait => ?_, fun hwait => ?_, fun hwait => ?_, fun hterm => ?_⟩
  · rw [hlive, hi.added, ← hi.state]
    generalize view i = v at hidle
    obtain ⟨state, count, place, slot, life, signal⟩ := v
    cases life with
    | absent => simp
    | live => simpa using hidle.2.1
    | completed => simpa using hidle.2.1
  · exact inOneOf_iff hi.toHash hi.startHash h.totals.nodupHash (by decide)
      (hhash.mpr ⟨hlive.mp hwait.1, hwait.2⟩)
  · exact inOneOf_iff hi.toUpload hi.startUpload h.totals.nodupUpload (by decide)
      (hupload.mpr ⟨hlive.mp hwait.1, hwait.2⟩)
  · rw [hlive, ← hhash, not_or] at hwait
    exact ⟨fun hmem => hwait.1 (hi.toHash.mp hmem), fun hmem => hwait.2 (hi.startHash.mp hmem)⟩
  · rw [hlive, ← hupload, not_or] at hwait
    exact ⟨fun hmem => hwait.1 (hi.toUpload.mp hmem), fun hmem => hwait.2 (hi.startUpload.mp hmem)⟩
  · rw [← hi.count]
    rw [← hi.state] at hterm
    generalize view i = v at hidle hterm
    obtain ⟨state, count, place, slot, life, signal⟩ := v
    cases life with
    | absent => exact hidle.2.2.1
    | live =>
      have hlive := hidle.2.1
      rw [hterm] at hlive
      cases hlive
    | completed => exact hidle.2.2.1

/-- The holders of slots, as the machines know them. -/
theorem Accounts.counts (h : s.Accounts view) {cs : CountState} (hcs : cs ≠ .none) {n : ℕ}
    (hn : Holders view cs n) : s.Counts cs n := by
  obtain ⟨holders, hmem, hcard⟩ := hn
  have hlive (j : ℕ) (hslot : (view j).slot = cs) : j ∈ s.manager.requests :=
    (h.shows j).requests.mpr ((h.shows j).holder (hslot ▸ hcs))
  refine ⟨holders, hcard, fun j hj => hlive j ((hmem j).mp hj), fun j htodo => ?_⟩
  have hj := h.shows j
  rw [hmem, CountsAs, ← hj.count, ← (hj.idle htodo).1]
  exact ⟨fun hslot => ⟨hlive j hslot, hslot⟩, And.right⟩

theorem Counts.eq_card {cs : CountState} {n : ℕ} (h : s.Counts cs n) (hidle : ∀ i, s.todo i = []) :
    n = (s.manager.requests.filter fun i => (s.machine i).countState = cs).card := by
  obtain ⟨holders, rfl, -, hmem⟩ := h
  congr 1
  ext j
  rw [Finset.mem_filter]
  exact hmem j (hidle j)

theorem Accounts.slotsExact (h : s.Accounts view) : SlotsExact s where
  hashingBound := h.totals.hashingBound
  uploadBound := h.totals.uploadBound
  hashings := h.counts (by decide) h.totals.hashings
  uploads := h.counts (by decide) h.totals.uploads
  placed _ htodo := h.placed htodo
  counted hidle := ⟨(h.counts (by decide) h.totals.hashings).eq_card hidle,
    (h.counts (by decide) h.totals.uploads).eq_card hidle⟩

theorem Holders.pos {cs : CountState} {n : ℕ} (h : Holders view cs n) (hslot : (view i).slot = cs) :
    0 < n := by
  obtain ⟨holders, hmem, rfl⟩ := h
  exact Finset.card_pos.mpr ⟨i, (hmem i).mpr hslot⟩

theorem Accounts.noUnderflow (h : s.Accounts view) (act : Act) (s' : Uploads) :
    NoUnderflow s act s' := by
  rintro i todo -
  have hfits := (h.shows i).fits
  constructor <;> intro htodo <;> rw [htodo] at hfits
  · exact h.totals.hashings.pos hfits.1.2
  · exact h.totals.uploads.pos hfits.1.2

end Idle

/-- Before the first upload is added. -/
theorem accounts_init : Uploads.Accounts {} fun _ => ⟨.initial, .none, .none, .none, .absent, false⟩
    where
  shows i := by
    refine ⟨rfl, rfl, ⟨rfl, rfl, rfl, rfl, rfl⟩, ?_, ?_, ?_, ?_, ?_, ?_, fun _ => rfl, ?_, ?_, ?_,
      ?_⟩ <;>
      simp
  totals := by
    refine ⟨List.nodup_nil, List.nodup_nil, List.nodup_nil, ⟨∅, by simp, rfl⟩, ⟨∅, by simp, rfl⟩,
      ?_, ?_, ?_, ?_⟩ <;> simp

/-- Slot accounting holds in every reachable state, and no counter is decremented at zero. -/
theorem always_slotsExact (acts : List Act) :
    Always step SlotsExact {} acts ∧ Along step NoUnderflow {} acts := by
  have hstep (s : Uploads) (act : Act) (s' : Uploads) (h : ∃ view, s.Accounts view)
      (hs : s.step act = some s') : NoUnderflow s act s' ∧ ∃ view, s'.Accounts view := by
    obtain ⟨view, h⟩ := h
    exact ⟨h.noUnderflow act s', h.step hs⟩
  have hinit : ∃ view, Uploads.Accounts {} view := ⟨_, accounts_init⟩
  exact ⟨.of_guarded (G := fun _ _ _ => True) (fun s ⟨_, h⟩ => h.slotsExact)
    (fun s a s' h _ hs => (hstep s a s' h hs).2) hinit along_true, .of_invariant hstep hinit⟩

end MediafireSdk.Uploader.Uploads
