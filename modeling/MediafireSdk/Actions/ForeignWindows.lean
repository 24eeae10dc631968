import MediafireSdk.Actions.ForeignChanges

/-! When `GetForeignChangesDevice` ends. The loop is bounded by the largest `uint32_t` until a
request has succeeded, and behind the last whole window of that type the windows start again. -/

namespace MediafireSdk.Actions.ForeignChanges

open GetForeignChangesDevice

/-- The answers to the first requests. -/
def firsts (answers : ℕ → Response) (requests : ℕ) : List Response :=
  (List.range requests).map answers

/-- The start revision behind a number of requests. -/
def startAfter (knownRevision requests : ℕ) : ℕ := nextStart^[requests] knownRevision

/-- The device revision that the last successful one of the first answers reports. -/
def lastReported (answers : ℕ → Response) : ℕ → Option ℕ
  | 0 => none
  | requests + 1 =>
    match answers requests with
    | .ok changes => some changes.deviceRevision
    | .error _ => lastReported answers requests

/-- The largest device revision that the first answers report, or the known one. -/
def largest (knownRevision : ℕ) (answers : ℕ → Response) : ℕ → ℕ
  | 0 => knownRevision
  | requests + 1 =>
    match answers requests with
    | .ok changes => max (largest knownRevision answers requests) changes.deviceRevision
    | .error _ => largest knownRevision answers requests

/-- `start_revision + 1` and `((min_revision / 500) + 1) * 500` do not wrap around. -/
def Unwrapped (startRevision : ℕ) : Prop :=
  startRevision + 1 < 2 ^ 32 ∧ ((startRevision + 1) / 500 + 1) * 500 < 2 ^ 32

/-- The callback comes after few requests, and nothing wraps around on the way. -/
structure EndsBehind (constant knownRevision : ℕ) (answers : ℕ → Response) (requests : ℕ) :
    Prop where
  ends : ∃ result,
    getForeignChangesDevice.after knownRevision (firsts answers requests) = some (.inr result)
  few : requests ≤ largest knownRevision answers requests / 500 + constant
  unwrapped : ∀ i ≤ requests, Unwrapped (startAfter knownRevision i)

def EndsSoon (constant knownRevision : ℕ) (answers : ℕ → Response) : Prop :=
  ∃ requests, EndsBehind constant knownRevision answers requests

/-- The end of the window of a request, without wrap-around. -/
def pageEnd (knownRevision requests : ℕ) : ℕ := ((knownRevision + 1) / 500 + requests) * 500

/-- Some page is reached on which the last reported revision is not above it, and the first answer
that reports one comes soon. -/
structure ReportsInTime (constant knownRevision : ℕ) (answers : ℕ → Response) : Prop where
  known : knownRevision < 4294966999
  reached : ∃ requests revision, lastReported answers requests = some revision ∧
    revision ≤ pageEnd knownRevision requests ∧ pageEnd knownRevision requests ≤ 4294966500
  first : ∀ requests changes, lastReported answers requests = none →
    answers requests = .ok changes →
      requests + 1 ≤ max knownRevision changes.deviceRevision / 500 + constant

/-! ### The run -/

section

variable {knownRevision : ℕ} {answers : ℕ → Response}

/-- The head of the loop lets another request through. -/
def GoesOn (knownRevision : ℕ) (answers : ℕ → Response) (requests : ℕ) : Prop :=
  startAfter knownRevision requests < (lastReported answers requests).getD (2 ^ 32 - 1)

theorem firsts_succ (requests : ℕ) :
    firsts answers (requests + 1) = firsts answers requests ++ [answers requests] := by
  simp [firsts, List.range_succ]

/-- The members behind requests. -/
structure Standing (knownRevision : ℕ) (answers : ℕ → Response) (requests : ℕ)
    (m : GetForeignChangesDevice) : Prop where
  aligned : m.Aligned
  startRevision : m.startRevision = startAfter knownRevision requests
  latest : m.latestDeviceRevision = (lastReported answers requests).getD (2 ^ 32 - 1)

theorem standing_create : Standing knownRevision answers 0 (create knownRevision) :=
  ⟨aligned_create knownRevision, rfl, rfl⟩

theorem Standing.next {requests : ℕ} {m : GetForeignChangesDevice}
    (h : Standing knownRevision answers requests m) :
    Standing knownRevision answers (requests + 1) (m.handle (answers requests)).nextWindow := by
  refine ⟨h.aligned.handle _, ?_, ?_⟩
  · rw [h.aligned.startRevision, h.startRevision, startAfter, startAfter,
      Function.iterate_succ_apply']
  · cases hanswer : answers requests with
    | ok changes => simp [lastReported, hanswer, handle, nextWindow]
    | error error =>
      simp only [lastReported, hanswer, handle, nextWindow]
      exact h.latest

theorem Standing.loop {requests : ℕ} {m : GetForeignChangesDevice}
    (h : Standing knownRevision answers requests m) :
    (GoesOn knownRevision answers requests → m.loop = .inl m) ∧
      (¬ GoesOn knownRevision answers requests → m.loop = .inr m.result) := by
  rw [GetForeignChangesDevice.loop, GoesOn, ← h.startRevision, ← h.latest]
  exact ⟨fun hgoes => if_pos ⟨hgoes, h.aligned.uncancelled⟩, fun hnot => if_neg fun h => hnot h.1⟩

/-- The body is at the head of its loop after each request up to which it has gone on. -/
theorem exists_standing {requests : ℕ} (h : ∀ i < requests, GoesOn knownRevision answers i) :
    ∃ m, Standing knownRevision answers requests m ∧
      getForeignChangesDevice.after knownRevision (firsts answers requests) = some m.loop := by
  induction requests with
  | zero => exact ⟨_, standing_create, rfl⟩
  | succ requests ih =>
    obtain ⟨m, hstanding, hafter⟩ := ih fun i hi => h i (by omega)
    rw [hstanding.loop.1 (h requests (by omega))] at hafter
    refine ⟨_, hstanding.next, ?_⟩
    rw [firsts_succ, Coroutine.after_concat hafter]
    rfl

theorem goesOn_of_after {requests : ℕ} {outcome : GetForeignChangesDevice ⊕ Result}
    (h : getForeignChangesDevice.after knownRevision (firsts answers requests) = some outcome) :
    ∀ i < requests, GoesOn knownRevision answers i := by
  induction requests generalizing outcome with
  | zero => exact fun i hi => absurd hi (Nat.not_lt_zero i)
  | succ requests ih =>
    rw [firsts_succ, Coroutine.after, Coroutine.goOn_append] at h
    obtain ⟨middle, hmiddle, hlast⟩ := Option.bind_eq_some_iff.mp h
    have hbefore := ih hmiddle
    obtain ⟨m, hstanding, hafter⟩ := exists_standing hbefore
    obtain rfl : middle = m.loop := Option.some.inj (hmiddle.symm.trans hafter)
    intro i hi
    rcases Nat.lt_succ_iff_lt_or_eq.mp hi with hi | rfl
    · exact hbefore i hi
    · by_contra hnot
      rw [hstanding.loop.2 hnot] at hlast
      cases hlast

/-- The callback comes where the loop does not go on for the first time. -/
theorem ends_iff (requests : ℕ) :
    (∃ result, getForeignChangesDevice.after knownRevision (firsts answers requests) =
        some (.inr result)) ↔
      (∀ i < requests, GoesOn knownRevision answers i) ∧
        ¬ GoesOn knownRevision answers requests := by
  constructor
  · rintro ⟨result, hresult⟩
    have hbefore := goesOn_of_after hresult
    obtain ⟨m, hstanding, hafter⟩ := exists_standing hbefore
    refine ⟨hbefore, fun hgoes => ?_⟩
    rw [hstanding.loop.1 hgoes, hresult] at hafter
    cases hafter
  · rintro ⟨hbefore, hnot⟩
    obtain ⟨m, hstanding, hafter⟩ := exists_standing hbefore
    exact ⟨_, hafter.trans (congrArg some (hstanding.loop.2 hnot))⟩

/-! ### Pages -/

theorem unwrapped_iff (startRevision : ℕ) :
    Unwrapped startRevision ↔ startRevision < 4294966999 := by
  unfold Unwrapped
  omega

theorem nextStart_of_unwrapped {startRevision : ℕ} (h : Unwrapped startRevision) :
    nextStart startRevision = ((startRevision + 1) / 500 + 1) * 500 := by
  rw [unwrapped_iff] at h
  have hmin : (startRevision + 1) % 2 ^ 32 = startRevision + 1 := Nat.mod_eq_of_lt (by omega)
  rw [nextStart_eq, hmin, if_pos (by omega)]

/-- Without wrap-around so far the requests go through the pages. -/
theorem startAfter_eq {requests : ℕ}
    (h : ∀ i ≤ requests, Unwrapped (startAfter knownRevision i)) :
    startAfter knownRevision (requests + 1) = pageEnd knownRevision (requests + 1) := by
  have hnext (i : ℕ) (hi : i ≤ requests) : startAfter knownRevision (i + 1) =
      ((startAfter knownRevision i + 1) / 500 + 1) * 500 := by
    rw [startAfter, Function.iterate_succ_apply']
    exact nextStart_of_unwrapped (h i hi)
  induction requests with
  | zero => exact hnext 0 le_rfl
  | succ requests ih =>
    rw [hnext _ le_rfl, ih (fun i hi => h i (by omega)) fun i hi => hnext i (by omega), pageEnd,
      pageEnd]
    omega

/-- Up to the last whole page nothing wraps around. -/
theorem unwrapped_of_pageEnd_le {requests : ℕ} (hknown : knownRevision < 4294966999)
    (hpage : pageEnd knownRevision requests ≤ 4294966500) :
    ∀ i ≤ requests, Unwrapped (startAfter knownRevision i) := by
  intro i hi
  induction i using Nat.strong_induction_on with
  | _ i ih =>
    cases i with
    | zero => exact (unwrapped_iff _).mpr hknown
    | succ i =>
      rw [startAfter_eq fun j hj => ih j (by omega) (by omega), unwrapped_iff]
      unfold pageEnd at hpage ⊢
      omega

/-! ### Reported revisions -/

theorem largest_mono {requests more : ℕ} (h : requests ≤ more) :
    largest knownRevision answers requests ≤ largest knownRevision answers more := by
  induction h with
  | refl => exact le_rfl
  | step _ ih =>
    rw [largest]
    split
    · exact ih.trans (le_max_left _ _)
    · exact ih

theorem lastReported_le_largest {requests revision : ℕ}
    (h : lastReported answers requests = some revision) :
    revision ≤ largest knownRevision answers requests := by
  induction requests with
  | zero => cases h
  | succ requests ih =>
    rw [lastReported] at h
    rw [largest]
    split at h
    · cases h
      exact le_max_right _ _
    · exact ih h

theorem largest_eq_known {requests : ℕ} (h : lastReported answers requests = none) :
    largest knownRevision answers requests = knownRevision := by
  induction requests with
  | zero => rfl
  | succ requests ih =>
    rw [lastReported] at h
    rw [largest]
    split at h
    · cases h
    · exact ih h

/-- What has been reported stays reported. -/
theorem exists_lastReported {first requests : ℕ} {changes : Changes}
    (hfirst : answers first = .ok changes) (hlt : first < requests) :
    ∃ revision, lastReported answers requests = some revision := by
  induction hlt with
  | refl => exact ⟨changes.deviceRevision, by simp [lastReported, hfirst]⟩
  | step _ ih =>
    rw [lastReported]
    split
    · exact ⟨_, rfl⟩
    · exact ih

theorem exists_first {requests revision : ℕ} (h : lastReported answers requests = some revision) :
    ∃ first changes, first < requests ∧ lastReported answers first = none ∧
      answers first = .ok changes := by
  induction requests generalizing revision with
  | zero => cases h
  | succ requests ih =>
    cases hbefore : lastReported answers requests with
    | some revision =>
      obtain ⟨first, changes, hlt, hfirst⟩ := ih hbefore
      exact ⟨first, changes, by omega, hfirst⟩
    | none =>
      rw [lastReported] at h
      split at h
      · next changes hanswer => exact ⟨requests, changes, by omega, hbefore, hanswer⟩
      · rw [hbefore] at h
        cases h

/-- Once a revision has been reported, the loop does not go past it, so only the requests before
that count. -/
theorem few_iff {constant requests first : ℕ} {changes : Changes} (hconstant : 1 ≤ constant)
    (hgoes : ∀ i < requests, GoesOn knownRevision answers i)
    (hpages : ∀ i < requests, Unwrapped (startAfter knownRevision i))
    (hnone : lastReported answers first = none) (hfirst : answers first = .ok changes)
    (hlt : first < requests) :
    requests ≤ largest knownRevision answers requests / 500 + constant ↔
      first + 1 ≤ max knownRevision changes.deviceRevision / 500 + constant := by
  have hpage (i : ℕ) (hi : i + 1 < requests) : pageEnd knownRevision (i + 1) <
      (lastReported answers (i + 1)).getD (2 ^ 32 - 1) := by
    rw [← startAfter_eq fun j hj => hpages j (by omega)]
    exact hgoes (i + 1) hi
  rcases (Nat.succ_le_of_lt hlt).eq_or_lt with rfl | hmore
  · have hlargest : largest knownRevision answers (first + 1) =
        max knownRevision changes.deviceRevision := by
      simp [largest, hfirst, largest_eq_known hnone]
    rw [hlargest]
  · refine iff_of_true ?_ ?_
    · obtain ⟨before, rfl⟩ : ∃ before, requests = before + 2 := ⟨requests - 2, by omega⟩
      obtain ⟨revision, hrevision⟩ :=
        exists_lastReported hfirst (show first < before + 1 by omega)
      have hlast := hpage before (by omega)
      have hle : revision ≤ largest knownRevision answers (before + 2) :=
        (lastReported_le_largest hrevision).trans (largest_mono (by omega))
      rw [hrevision, Option.getD_some] at hlast
      unfold pageEnd at hlast
      omega
    · have hbelow := hpage first hmore
      have hreported : lastReported answers (first + 1) = some changes.deviceRevision := by
        simp [lastReported, hfirst]
      rw [hreported, Option.getD_some] at hbelow
      have hmax := le_max_right knownRevision changes.deviceRevision
      unfold pageEnd at hbelow
      omega

end

/-- The query ends soon exactly when the server reports a revision in time. -/
theorem endsSoon_iff {constant : ℕ} (hconstant : 1 ≤ constant) (knownRevision : ℕ)
    (answers : ℕ → Response) :
    EndsSoon constant knownRevision answers ↔ ReportsInTime constant knownRevision answers := by
  constructor
  · rintro ⟨requests, hends, hfew, hunwrapped⟩
    obtain ⟨hgoes, hnot⟩ := (ends_iff requests).mp hends
    have hknown : knownRevision < 4294966999 := (unwrapped_iff _).mp (hunwrapped 0 (Nat.zero_le _))
    have hpos : requests ≠ 0 := by
      rintro rfl
      exact hnot (show knownRevision < _ by simp [lastReported]; omega)
    obtain ⟨before, rfl⟩ := Nat.exists_eq_succ_of_ne_zero hpos
    have hpage := startAfter_eq fun i (hi : i ≤ before) => hunwrapped i (by omega)
    have hlast := (unwrapped_iff _).mp (hunwrapped (before + 1) le_rfl)
    rw [hpage] at hlast
    have hle : pageEnd knownRevision (before + 1) ≤ 4294966500 := by
      unfold pageEnd at hlast ⊢
      omega
    rw [GoesOn, Nat.succ_eq_add_one, hpage] at hnot
    cases hreported : lastReported answers (before + 1) with
    | none =>
      rw [hreported, Option.getD_none] at hnot
      omega
    | some revision =>
      rw [hreported, Option.getD_some] at hnot
      refine ⟨hknown, ⟨before + 1, revision, hreported, not_lt.mp hnot, hle⟩, ?_⟩
      intro first changes hnone hfirst
      have hlt : first < before + 1 := by
        by_contra hge
        obtain ⟨first', changes', hlt', -, hfirst'⟩ := exists_first hreported
        obtain ⟨revision', hrevision'⟩ := exists_lastReported hfirst' (show first' < first by omega)
        rw [hnone] at hrevision'
        cases hrevision'
      exact (few_iff hconstant hgoes (fun i hi => hunwrapped i (by omega)) hnone hfirst hlt).mp hfew
  · rintro ⟨hknown, ⟨page, revision, hreported, hrevision, hle⟩, hfirst⟩
    have hunwrapped := unwrapped_of_pageEnd_le hknown hle
    have hstop : ¬ GoesOn knownRevision answers page := by
      cases page with
      | zero => cases hreported
      | succ page =>
        rw [GoesOn, startAfter_eq fun i hi => hunwrapped i (by omega), hreported,
          Option.getD_some]
        exact not_lt.mpr hrevision
    classical
    have hstops : ∃ requests, ¬ GoesOn knownRevision answers requests := ⟨page, hstop⟩
    have hnot := Nat.find_spec hstops
    have hgoes (i : ℕ) (hi : i < Nat.find hstops) : GoesOn knownRevision answers i :=
      not_not.mp (Nat.find_min hstops hi)
    have hpage : Nat.find hstops ≤ page := Nat.find_min' hstops hstop
    generalize Nat.find hstops = requests at hnot hgoes hpage
    have hbefore (i : ℕ) (hi : i ≤ requests) := hunwrapped i (by omega)
    obtain ⟨last, hlast⟩ : ∃ last, lastReported answers requests = some last := by
      by_contra hnone
      have hsmall := (unwrapped_iff _).mp (hbefore requests le_rfl)
      rw [GoesOn, Option.eq_none_iff_forall_not_mem.mpr fun r hr => hnone ⟨r, hr⟩,
        Option.getD_none] at hnot
      omega
    obtain ⟨first, changes, hlt, hnone, hanswer⟩ := exists_first hlast
    exact ⟨requests, (ends_iff requests).mpr ⟨hgoes, hnot⟩,
      (few_iff hconstant hgoes (fun i hi => hbefore i hi.le) hnone hanswer hlt).mpr
        (hfirst first changes hnone hanswer), hbefore⟩

/-- A server that answers every request with an error. -/
theorem not_endsSoon_failing : ¬ ∃ constant, EndsSoon constant 0 fun _ => .error ⟨1, none⟩ := by
  rintro ⟨constant, requests, hends, -, hunwrapped⟩
  obtain ⟨-, hnot⟩ := (ends_iff requests).mp hends
  have hnothing (n : ℕ) : lastReported (fun _ => .error ⟨1, none⟩) n = none := by
    induction n with
    | zero => rfl
    | succ n ih => exact ih
  have hsmall := (unwrapped_iff _).mp (hunwrapped requests le_rfl)
  rw [GoesOn, hnothing, Option.getD_none] at hnot
  omega

/-- One request that is answered with the revision 1. -/
theorem endsSoon_iff_oneRevision :
    EndsSoon 1 0 (fun _ => .ok { deviceRevision := 1 }) ↔
      ReportsInTime 1 0 fun _ => .ok { deviceRevision := 1 } :=
  endsSoon_iff le_rfl 0 _

end MediafireSdk.Actions.ForeignChanges
