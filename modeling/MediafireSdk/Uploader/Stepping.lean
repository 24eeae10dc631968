import MediafireSdk.Lib.Ranges
import MediafireSdk.Lib.Words

/-! Chunk stepping of resumable uploads (`detail/stepping.cpp`). A file is cut
into chunks whose size grows with the file. Sizes are `uint64_t`; the loop of
`ChunkRanges` multiplies modulo `2 ^ 64`, so for a file within one chunk of
`2 ^ 64` bytes it never ends. Below that bound the ranges are the cuts of the
file by a power of two between 1 MB and 64 MB. -/

namespace MediafireSdk.Uploader

open Ranges Words

/-! ### Chunk size -/

def maxStepping : ℕ := 7

def mb (n : ℕ) : ℕ := n * 1024 * 1024

def steppingMinFileSize (stepping : ℕ) : ℕ :=
  if stepping = 0 then 0 else trunc 64 (mb 4 <<< ((stepping - 1) * 2))

/-- The loop of `ThresholdStepping`; `rounds` is `MaxStepping - stepping`. -/
def thresholdSteppingLoop (filesize : ℕ) : (rounds stepping : ℕ) → ℕ
  | 0, stepping => stepping
  | rounds + 1, stepping =>
    if steppingMinFileSize (stepping + 1) ≤ filesize then
      thresholdSteppingLoop filesize rounds (stepping + 1)
    else stepping

def thresholdStepping (filesize : ℕ) : ℕ := thresholdSteppingLoop filesize maxStepping 0

/-- Stepping 0 uploads the whole file, which is less than 4 MB. -/
def chunkMaxSize (filesize : ℕ) : ℕ :=
  let thresholdStepping := thresholdStepping filesize
  if thresholdStepping = 0 then 1024 * 1024 * 4
  else 1024 * 1024 * (1 <<< (thresholdStepping - 1))

theorem thresholdSteppingLoop_le (filesize rounds stepping : ℕ) :
    thresholdSteppingLoop filesize rounds stepping ≤ stepping + rounds := by
  induction rounds generalizing stepping with
  | zero => exact le_rfl
  | succ rounds ih =>
    rw [thresholdSteppingLoop]
    split_ifs
    · exact (ih _).trans (by omega)
    · omega

theorem thresholdStepping_le (filesize : ℕ) : thresholdStepping filesize ≤ maxStepping := by
  simpa [thresholdStepping] using thresholdSteppingLoop_le filesize maxStepping 0

/-- A file reaches the minimum size of its stepping and of every smaller one, and not that
of the next. -/
theorem thresholdSteppingLoop_spec (filesize rounds stepping : ℕ)
    (h : steppingMinFileSize stepping ≤ filesize) :
    steppingMinFileSize (thresholdSteppingLoop filesize rounds stepping) ≤ filesize ∧
      (thresholdSteppingLoop filesize rounds stepping < stepping + rounds →
        filesize < steppingMinFileSize (thresholdSteppingLoop filesize rounds stepping + 1)) := by
  induction rounds generalizing stepping with
  | zero => exact ⟨h, fun hlt => absurd hlt (lt_irrefl _)⟩
  | succ rounds ih =>
    rw [thresholdSteppingLoop]
    split_ifs with hc
    · have := ih (stepping + 1) hc
      exact ⟨this.1, fun hlt => this.2 (by omega)⟩
    · exact ⟨h, fun _ => not_le.mp hc⟩

theorem thresholdStepping_spec (filesize : ℕ) :
    steppingMinFileSize (thresholdStepping filesize) ≤ filesize ∧
      (thresholdStepping filesize < maxStepping →
        filesize < steppingMinFileSize (thresholdStepping filesize + 1)) := by
  simpa [thresholdStepping] using
    thresholdSteppingLoop_spec filesize maxStepping 0 (Nat.zero_le _)

example : thresholdStepping (mb 4 - 1) = 0 ∧ thresholdStepping (mb 4) = 1 ∧
    thresholdStepping (mb 1024) = 5 := by decide

/-- Every chunk size is a power of two between 1 MB and 64 MB. -/
theorem chunkMaxSize_pow (filesize : ℕ) : ∃ k, 20 ≤ k ∧ k ≤ 26 ∧ chunkMaxSize filesize = 2 ^ k := by
  have hle := thresholdStepping_le filesize
  unfold chunkMaxSize
  generalize thresholdStepping filesize = t at hle
  simp only [maxStepping] at hle
  by_cases ht : t = 0
  · exact ⟨22, by omega, by omega, by simp [ht]⟩
  · refine ⟨20 + (t - 1), by omega, by omega, ?_⟩
    simp only [ht, ↓reduceIte, Nat.one_shiftLeft, pow_add]
    norm_num

theorem chunkMaxSize_pos (filesize : ℕ) : 0 < chunkMaxSize filesize := by
  obtain ⟨k, _, _, hk⟩ := chunkMaxSize_pow filesize
  rw [hk]; positivity

theorem chunkMaxSize_dvd (filesize : ℕ) {n : ℕ} (hn : 26 ≤ n) : chunkMaxSize filesize ∣ 2 ^ n := by
  obtain ⟨k, _, hk, he⟩ := chunkMaxSize_pow filesize
  rw [he]
  exact pow_dvd_pow 2 (hk.trans hn)

/-! ### Chunk ranges -/

/-- The loop of `ChunkRanges`, bounded by `fuel`; `none` when the bound is reached. -/
def chunkRangesLoop (filesize chunkSize : ℕ) :
    (fuel : ℕ) → (currentEnd currentChunk : ℕ) → List Range → Option (List Range)
  | 0, _, _, _ => none
  | fuel + 1, currentEnd, currentChunk, ranges =>
    if currentEnd < filesize then
      let currentStart := currentEnd
      let currentEnd := min (trunc 64 (chunkSize * trunc 64 (currentChunk + 1))) filesize
      chunkRangesLoop filesize chunkSize fuel currentEnd (trunc 64 (currentChunk + 1))
        (ranges ++ [(currentStart, currentEnd)])
    else some ranges

/-- `none` stands for the runs that never return. -/
def chunkRanges (filesize : ℕ) : Option (List Range) :=
  chunkRangesLoop filesize (chunkMaxSize filesize) (filesize + 1) 0 0 []

section Loop
variable {n c : ℕ}

/-- From the `k`-th iteration on, the loop returns the cuts of the file. -/
theorem chunkRangesLoop_cuts (hc : 0 < c) (hn : n + c ≤ 2 ^ 64) :
    ∀ (fuel k : ℕ), n + 1 ≤ fuel + k → (∀ i < k, c * i < n) →
      chunkRangesLoop n c fuel (min (c * k) n) k (cutsTo c n k) = some (cuts c n)
  | 0, k, hf, hk => by
    have hlast := hk (k - 1) (by omega)
    have : k - 1 ≤ c * (k - 1) := Nat.le_mul_of_pos_left _ hc
    omega
  | fuel + 1, k, hf, hk => by
    by_cases hlt : c * k < n
    · have hkc : k ≤ c * k := Nat.le_mul_of_pos_left _ hc
      have hmul : c * (k + 1) = c * k + c := Nat.mul_succ c k
      have hk1 : trunc 64 (k + 1) = k + 1 := trunc_of_lt (by omega)
      have hck : trunc 64 (c * (k + 1)) = c * (k + 1) := trunc_of_lt (by omega)
      have ih := chunkRangesLoop_cuts hc hn fuel (k + 1) (by omega) (fun i hi => by
        rcases Nat.lt_succ_iff_lt_or_eq.mp hi with h | rfl
        · exact hk i h
        · exact hlt)
      rw [chunkRangesLoop, Nat.min_eq_left hlt.le, if_pos hlt]
      simpa only [hk1, hck, ← cutsTo_succ] using ih
    · have hceil : (n + c - 1) / c = k := by
        apply le_antisymm
        · exact not_lt.mp (fun h => hlt ((lt_ceilDiv_iff hc n k).mp h))
        · exact not_lt.mp (fun h => absurd (hk _ h) (mt (lt_ceilDiv_iff hc n _).mpr (lt_irrefl _)))
      rw [chunkRangesLoop, Nat.min_eq_right (not_lt.mp hlt), if_neg (lt_irrefl n), cuts, hceil]

/-- Past the last multiple of the chunk size below `2 ^ 64` the loop never ends. -/
theorem chunkRangesLoop_none (hc : c ∣ 2 ^ 64) (hn : 2 ^ 64 < n + c) :
    ∀ (fuel currentEnd k : ℕ) (ranges : List Range), currentEnd < n →
      chunkRangesLoop n c fuel currentEnd k ranges = none
  | 0, _, _, _, _ => rfl
  | fuel + 1, currentEnd, k, ranges, hlt => by
    rw [chunkRangesLoop, if_pos hlt]
    have hle := trunc_mul_le hc (trunc 64 (k + 1))
    have hcle : c ≤ 2 ^ 64 := Nat.le_of_dvd (by positivity) hc
    exact chunkRangesLoop_none hc hn fuel _ _ _ (lt_of_le_of_lt (min_le_left _ _) (by omega))

end Loop

theorem chunkRanges_eq_cuts {filesize : ℕ} (h : filesize + chunkMaxSize filesize ≤ 2 ^ 64) :
    chunkRanges filesize = some (cuts (chunkMaxSize filesize) filesize) := by
  simpa [chunkRanges] using
    chunkRangesLoop_cuts (chunkMaxSize_pos filesize) h (filesize + 1) 0 (by omega) (by simp)

/-- No bound on the iterations is enough for a file this large. -/
theorem chunkRanges_diverges {filesize : ℕ} (h : 2 ^ 64 < filesize + chunkMaxSize filesize)
    (fuel : ℕ) : chunkRangesLoop filesize (chunkMaxSize filesize) fuel 0 0 [] = none := by
  have hdvd := chunkMaxSize_dvd filesize (n := 64) (by norm_num)
  have hle := Nat.le_of_dvd (by positivity) hdvd
  rcases Nat.eq_zero_or_pos filesize with rfl | hpos
  · exact absurd hle (by omega)
  · exact chunkRangesLoop_none hdvd h fuel 0 0 [] hpos

/-- `ChunkRanges` returns exactly for the files that leave one chunk below `2 ^ 64`. -/
theorem chunkRanges_eq_some_iff {filesize : ℕ} {ranges : List Range} :
    chunkRanges filesize = some ranges ↔
      filesize + chunkMaxSize filesize ≤ 2 ^ 64 ∧
        ranges = cuts (chunkMaxSize filesize) filesize := by
  constructor
  · intro h
    have hle : filesize + chunkMaxSize filesize ≤ 2 ^ 64 := by
      by_contra hlt
      rw [chunkRanges, chunkRanges_diverges (not_le.mp hlt)] at h
      cases h
    rw [chunkRanges_eq_cuts hle, Option.some.injEq] at h
    exact ⟨hle, h.symm⟩
  · rintro ⟨hle, rfl⟩
    exact chunkRanges_eq_cuts hle

/-- The ranges tile the file. -/
theorem chunkRanges_tiles {filesize : ℕ} {ranges : List Range}
    (h : chunkRanges filesize = some ranges) : Tiles 0 filesize ranges := by
  obtain ⟨_, rfl⟩ := chunkRanges_eq_some_iff.mp h
  exact cuts_tiles (chunkMaxSize_pos filesize) filesize

/-! ### The whole range of sizes -/

/-- No iteration of the loop of `ChunkRanges` within `fuel` computes a value of more than 64
bits. -/
def LoopExact (filesize chunkSize : ℕ) : (fuel currentEnd currentChunk : ℕ) → Prop
  | 0, _, _ => True
  | fuel + 1, currentEnd, currentChunk =>
    currentEnd < filesize → currentChunk + 1 < 2 ^ 64 ∧ chunkSize * (currentChunk + 1) < 2 ^ 64 ∧
      LoopExact filesize chunkSize fuel (min (chunkSize * (currentChunk + 1)) filesize)
        (currentChunk + 1)

/-- What the chunks of a file of this size are expected to be. -/
structure PartitionsFile (filesize : ℕ) : Prop where
  limits : ∀ stepping ≤ maxStepping, mb 4 <<< (stepping * 2) < 2 ^ 64
  reached : steppingMinFileSize (thresholdStepping filesize) ≤ filesize
  next : thresholdStepping filesize ≠ 7 →
    filesize < steppingMinFileSize (thresholdStepping filesize + 1)
  monotone : ∀ smaller ≤ filesize, thresholdStepping smaller ≤ thresholdStepping filesize
  exact : ∀ fuel, LoopExact filesize (chunkMaxSize filesize) fuel 0 0
  ranges : ∃ ranges, chunkRanges filesize = some ranges ∧ Tiles 0 filesize ranges ∧
    (∀ range ∈ ranges.dropLast, range.2 - range.1 = chunkMaxSize filesize) ∧
    ∀ range ∈ ranges.getLast?, range.2 - range.1 ≤ chunkMaxSize filesize

theorem steppingMinFileSize_mono (stepping stepping' : ℕ) (h : stepping ≤ stepping')
    (hle : stepping' ≤ maxStepping + 1) :
    steppingMinFileSize stepping ≤ steppingMinFileSize stepping' := by
  have hall : ∀ t ≤ maxStepping + 1, ∀ s ≤ t, steppingMinFileSize s ≤ steppingMinFileSize t := by
    decide
  exact hall _ hle _ h

theorem thresholdStepping_mono {smaller filesize : ℕ} (h : smaller ≤ filesize) :
    thresholdStepping smaller ≤ thresholdStepping filesize := by
  by_contra hlt
  have hle := thresholdStepping_le smaller
  have hreached := (thresholdStepping_spec smaller).1
  have hnext := (thresholdStepping_spec filesize).2 (by omega)
  have hmin := steppingMinFileSize_mono (thresholdStepping filesize + 1)
    (thresholdStepping smaller) (by omega) (by omega)
  omega

/-- The largest files have the largest chunks. -/
theorem chunkMaxSize_of_le {filesize : ℕ} (h : 2 ^ 34 ≤ filesize) :
    chunkMaxSize filesize = 2 ^ 26 := by
  have hseven : thresholdStepping filesize = 7 := by
    have hle := thresholdStepping_le filesize
    by_contra hne
    have hlt : thresholdStepping filesize < maxStepping := lt_of_le_of_ne hle hne
    have hmin := steppingMinFileSize_mono (thresholdStepping filesize + 1) maxStepping hlt
      (by omega)
    have hmax : steppingMinFileSize maxStepping = 2 ^ 34 := by decide
    have hnext := (thresholdStepping_spec filesize).2 hlt
    omega
  rw [chunkMaxSize, hseven]
  rfl

theorem add_chunkMaxSize_le_iff (filesize : ℕ) :
    filesize + chunkMaxSize filesize ≤ 2 ^ 64 ↔ filesize ≤ 2 ^ 64 - 2 ^ 26 := by
  rcases lt_or_ge filesize (2 ^ 34) with hlt | hle
  · obtain ⟨k, -, hk, hsize⟩ := chunkMaxSize_pow filesize
    have hpow : 2 ^ k ≤ 2 ^ 26 := Nat.pow_le_pow_right (by decide) hk
    omega
  · rw [chunkMaxSize_of_le hle]
    omega

theorem loopExact_of_le {filesize chunkSize : ℕ} (hpos : 0 < chunkSize)
    (hle : filesize + chunkSize ≤ 2 ^ 64) (fuel currentChunk : ℕ) :
    LoopExact filesize chunkSize fuel (min (chunkSize * currentChunk) filesize) currentChunk := by
  induction fuel generalizing currentChunk with
  | zero => trivial
  | succ fuel ih =>
    intro hlt
    have hchunk : currentChunk ≤ chunkSize * currentChunk := Nat.le_mul_of_pos_left _ hpos
    have hstep : chunkSize * (currentChunk + 1) = chunkSize * currentChunk + chunkSize :=
      Nat.mul_succ _ _
    exact ⟨by omega, by omega, ih (currentChunk + 1)⟩

/-- Files that end in the last chunk below `2 ^ 64` are never cut, all others are as expected. -/
theorem partitionsFile_iff (filesize : ℕ) : PartitionsFile filesize ↔ filesize ≤ 2 ^ 64 - 2 ^ 26 := by
  rw [← add_chunkMaxSize_le_iff]
  constructor
  · intro h
    obtain ⟨ranges, hranges, -⟩ := h.ranges
    exact (chunkRanges_eq_some_iff.mp hranges).1
  · intro hle
    have hpos := chunkMaxSize_pos filesize
    obtain ⟨hreached, hnext⟩ := thresholdStepping_spec filesize
    have hseven := thresholdStepping_le filesize
    refine ⟨by decide, hreached, fun hne => hnext (lt_of_le_of_ne hseven hne),
      fun _ => thresholdStepping_mono, fun fuel => by simpa using loopExact_of_le hpos hle fuel 0,
      _, chunkRanges_eq_cuts hle, cuts_tiles hpos filesize, ?_, ?_⟩
    · exact fun range => length_of_mem_dropLast_cuts hpos
    · exact fun range hlast => length_le_of_mem_cuts (List.mem_of_getLast? hlast)

/-- `uintmax_t(-1)`, the size of a file that cannot be read. -/
theorem not_partitionsFile_unreadable : ¬ PartitionsFile (2 ^ 64 - 1) := by
  intro h
  obtain ⟨ranges, hranges, -⟩ := h.ranges
  have hle := (chunkRanges_eq_some_iff.mp hranges).1
  rw [chunkMaxSize_of_le (by decide)] at hle
  omega

end MediafireSdk.Uploader
