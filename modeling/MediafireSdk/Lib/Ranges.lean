import Mathlib.Tactic

/-! Half-open ranges of list positions. `slice` reads one range, `Tiles` says
that a list of ranges covers an interval without gap or overlap and that no
range is empty, and `cuts` is the tiling by a fixed step whose last range may be
shorter. Reading a tiling range by range gives back the interval. -/

namespace MediafireSdk.Ranges

variable {α : Type*}

/-- `(first, last)` stands for `[first, last)`. -/
abbrev Range := ℕ × ℕ

def slice (l : List α) (r : Range) : List α := (l.take r.2).drop r.1

def Tiles : ℕ → ℕ → List Range → Prop
  | lo, hi, [] => lo = hi
  | lo, hi, r :: rs => r.1 = lo ∧ r.1 < r.2 ∧ Tiles r.2 hi rs

/-! ### Slices -/

theorem slice_eq (l : List α) (a b : ℕ) : slice l (a, b) = (l.drop a).take (b - a) :=
  List.drop_take

theorem length_slice {l : List α} {r : Range} (h : r.2 ≤ l.length) :
    (slice l r).length = r.2 - r.1 := by
  simp [slice, Nat.min_eq_left h]

theorem slice_full (l : List α) : slice l (0, l.length) = l := by
  simp [slice]

theorem slice_append (l : List α) {a b c : ℕ} (hab : a ≤ b) (hbc : b ≤ c) :
    slice l (a, b) ++ slice l (b, c) = slice l (a, c) := by
  have hdrop : l.drop b = (l.drop a).drop (b - a) := by
    rw [List.drop_drop, Nat.add_sub_cancel' hab]
  have hlen : c - a = (b - a) + (c - b) := by omega
  rw [slice_eq, slice_eq, slice_eq, hdrop, hlen, List.take_add]

/-- What a prefix has of a range is what the whole has. -/
theorem slice_of_prefix {l l' : List α} (h : l <+: l') {r : Range} (hr : r.2 ≤ l.length) :
    slice l r = slice l' r := by
  obtain ⟨t, rfl⟩ := h
  rw [slice, slice, List.take_append_of_le_length hr]

/-- A beginning of a range is a prefix of it. -/
theorem slice_initial (l : List α) {a b c : ℕ} (hab : a ≤ b) (hbc : b ≤ c) :
    slice l (a, b) <+: slice l (a, c) :=
  ⟨slice l (b, c), slice_append l hab hbc⟩

/-! ### Tilings -/

theorem Tiles.le {lo hi : ℕ} {rs : List Range} (h : Tiles lo hi rs) : lo ≤ hi := by
  induction rs generalizing lo with
  | nil => exact le_of_eq h
  | cons r rs ih =>
    obtain ⟨rfl, hlt, ht⟩ := h
    exact hlt.le.trans (ih ht)

theorem Tiles.append {lo mid hi : ℕ} {rs ts : List Range} (h : Tiles lo mid rs)
    (h' : Tiles mid hi ts) : Tiles lo hi (rs ++ ts) := by
  induction rs generalizing lo with
  | nil => cases h; exact h'
  | cons r rs ih => exact ⟨h.1, h.2.1, ih h.2.2⟩

theorem Tiles.bounds {lo hi : ℕ} {rs : List Range} (h : Tiles lo hi rs) :
    ∀ r ∈ rs, lo ≤ r.1 ∧ r.1 < r.2 ∧ r.2 ≤ hi := by
  induction rs generalizing lo with
  | nil => intro r hr; cases hr
  | cons t rs ih =>
    obtain ⟨rfl, hlt, ht⟩ := h
    intro r hr
    rcases List.mem_cons.mp hr with rfl | hr
    · exact ⟨le_rfl, hlt, ht.le⟩
    · have hb := ih ht r hr
      exact ⟨by omega, hb.2⟩

/-- The end of an interval that is not empty is the end of a range. -/
theorem Tiles.exists_end {lo hi : ℕ} {rs : List Range} (h : Tiles lo hi rs) (hlt : lo < hi) :
    ∃ r ∈ rs, r.2 = hi := by
  induction rs generalizing lo with
  | nil => exact absurd h hlt.ne
  | cons r rs ih =>
    obtain ⟨-, -, ht⟩ := h
    rcases ht.le.eq_or_lt with heq | hmore
    · exact ⟨r, List.mem_cons_self, heq⟩
    · obtain ⟨t, ht', hend⟩ := ih ht hmore
      exact ⟨t, List.mem_cons_of_mem r ht', hend⟩

/-- The ranges that end by a position come first. -/
theorem Tiles.filter_le {lo hi : ℕ} {rs : List Range} (h : Tiles lo hi rs) (n : ℕ) :
    ∃ k, rs.filter (·.2 ≤ n) = rs.take k := by
  induction rs generalizing lo with
  | nil => exact ⟨0, rfl⟩
  | cons r rs ih =>
    obtain ⟨-, -, ht⟩ := h
    by_cases hr : r.2 ≤ n
    · obtain ⟨k, hk⟩ := ih ht
      exact ⟨k + 1, by simp [hr, hk]⟩
    · refine ⟨0, List.filter_eq_nil_iff.mpr fun t ht' => ?_⟩
      rcases List.mem_cons.mp ht' with rfl | ht'
      · simpa using hr
      · have := ht.bounds t ht'
        simp only [decide_eq_true_eq]
        omega

/-! ### Cutting by a fixed step -/

/-- The first `k` ranges of step `c` inside `[0, n)`. -/
def cutsTo (c n k : ℕ) : List Range := (List.range k).map fun i => (c * i, min (c * (i + 1)) n)

/-- All ranges of step `c` inside `[0, n)`. -/
def cuts (c n : ℕ) : List Range := cutsTo c n ((n + c - 1) / c)

@[simp] theorem cutsTo_zero (c n : ℕ) : cutsTo c n 0 = [] := rfl

theorem cutsTo_succ (c n k : ℕ) :
    cutsTo c n (k + 1) = cutsTo c n k ++ [(c * k, min (c * (k + 1)) n)] := by
  simp [cutsTo, List.range_succ]

@[simp] theorem length_cutsTo (c n k : ℕ) : (cutsTo c n k).length = k := by simp [cutsTo]

theorem getElem_cutsTo {c n k i : ℕ} (h : i < (cutsTo c n k).length) :
    (cutsTo c n k)[i] = (c * i, min (c * (i + 1)) n) := by
  simp [cutsTo]

theorem cutsTo_tiles {c n : ℕ} (hc : 0 < c) :
    ∀ k : ℕ, (∀ i < k, c * i < n) → Tiles 0 (min (c * k) n) (cutsTo c n k)
  | 0, _ => by simp [Tiles]
  | k + 1, h => by
    have hk : c * k < n := h k (by omega)
    have hstep : c * k < c * (k + 1) := Nat.mul_lt_mul_of_pos_left (by omega) hc
    have ih := cutsTo_tiles hc k (fun i hi => h i (by omega))
    rw [Nat.min_eq_left hk.le] at ih
    rw [cutsTo_succ]
    exact ih.append ⟨rfl, lt_min hstep hk, rfl⟩

theorem lt_ceilDiv_iff {c : ℕ} (hc : 0 < c) (n i : ℕ) : i < (n + c - 1) / c ↔ c * i < n := by
  rw [Nat.lt_div_iff_mul_lt hc, Nat.mul_comm i c]
  omega

theorem cuts_tiles {c : ℕ} (hc : 0 < c) (n : ℕ) : Tiles 0 n (cuts c n) := by
  have h := cutsTo_tiles hc ((n + c - 1) / c) (fun i hi => (lt_ceilDiv_iff hc n i).mp hi)
  have hend : n ≤ c * ((n + c - 1) / c) :=
    not_lt.mp (fun hlt => lt_irrefl _ ((lt_ceilDiv_iff hc n _).mpr hlt))
  rwa [Nat.min_eq_right hend] at h

/-- Every range but the last is a whole step. -/
theorem length_of_mem_dropLast_cuts {c n : ℕ} (hc : 0 < c) {r : Range}
    (h : r ∈ (cuts c n).dropLast) : r.2 - r.1 = c := by
  obtain ⟨i, hi, rfl⟩ := List.getElem_of_mem h
  rw [List.length_dropLast, cuts, length_cutsTo] at hi
  have hnext : c * (i + 1) < n := (lt_ceilDiv_iff hc n (i + 1)).mp (by omega)
  have hstep : c * (i + 1) = c * i + c := Nat.mul_succ c i
  simp only [List.getElem_dropLast, cuts, getElem_cutsTo]
  omega

theorem length_le_of_mem_cuts {c n : ℕ} {r : Range} (h : r ∈ cuts c n) : r.2 - r.1 ≤ c := by
  obtain ⟨i, hi, rfl⟩ := List.getElem_of_mem h
  have hstep : c * (i + 1) = c * i + c := Nat.mul_succ c i
  simp only [cuts, getElem_cutsTo]
  omega

end MediafireSdk.Ranges
