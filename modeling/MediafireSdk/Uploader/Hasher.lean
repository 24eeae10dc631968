import MediafireSdk.Uploader.Stepping

/-! Hashing a file while it is read (`detail/hasher_transitions.cpp`). Each read
goes to one hasher for the whole file and one for the current chunk; a read that
ends a chunk is split there and its tail parsed again. SHA-256 is a function of
the absorbed bytes. The chunk hashes are right for every way of cutting the file
into reads. The file hash is right exactly when no read reaches past the end of
the chunk it starts in: the whole-file hasher absorbs the tail of such a read
once more in the recursive call. -/

namespace MediafireSdk.Uploader

open Ranges Words

/-! ### Hashers -/

/-- The bytes given to `Update` since the last reset. -/
structure Sha256Hasher where
  absorbed : List UInt8 := []
  deriving DecidableEq, Repr

namespace Sha256Hasher

def update (hasher : Sha256Hasher) (bytes : List UInt8) : Sha256Hasher :=
  ⟨hasher.absorbed ++ bytes⟩

/-- The digest, and the hasher after the reset that comes with it. -/
def digest (sha256 : List UInt8 → String) (hasher : Sha256Hasher) : String × Sha256Hasher :=
  (sha256 hasher.absorbed, {})

@[simp] theorem absorbed_update (hasher : Sha256Hasher) (bytes : List UInt8) :
    (hasher.update bytes).absorbed = hasher.absorbed ++ bytes := rfl

@[simp] theorem digest_fst (sha256 : List UInt8 → String) (hasher : Sha256Hasher) :
    (hasher.digest sha256).1 = sha256 hasher.absorbed := rfl

end Sha256Hasher

/-- `HasherStateData_` without the io_service and the path. -/
structure HasherStateData where
  filesize : ℕ
  mtime : ℤ
  primaryHasher : Sha256Hasher := {}
  chunkHasher : Sha256Hasher := {}
  chunkRanges : List Range
  chunkHashes : List String := []
  deriving DecidableEq, Repr

/-- What stops `ParseRead`: `chunk_ranges.at` throws, or its assertion fails. -/
inductive ParseFault where
  | outOfRange | assertion
  deriving DecidableEq, Repr

/-! ### Parsing one read -/

/-- `buffer` is the `bytes_read` bytes at the pointer. Returns the byte total. -/
def parseRead (sha256 : List UInt8 → String) (state : HasherStateData)
    (previousTotalBytesRead : ℕ) (buffer : List UInt8) :
    Except ParseFault (ℕ × HasherStateData) :=
  if buffer.length = 0 then .ok (previousTotalBytesRead, state)
  else
    let readStart := previousTotalBytesRead
    let readEnd := trunc 64 (readStart + buffer.length)
    match state.chunkRanges[state.chunkHashes.length]? with
    | none => .error .outOfRange
    | some chunkRange =>
      let primaryHasher := state.primaryHasher.update buffer
      if _ : readStart < chunkRange.2 then
        if readEnd < chunkRange.2 then
          .ok (readEnd, { state with
            primaryHasher := primaryHasher
            chunkHasher := state.chunkHasher.update buffer })
        else
          let bytesToFirstChunk := chunkRange.2 - readStart
          let unparsedBytes := buffer.length - bytesToFirstChunk
          let chunkHasher := state.chunkHasher.update (buffer.take bytesToFirstChunk)
          let state := { state with
            primaryHasher := primaryHasher
            chunkHasher := {}
            chunkHashes := state.chunkHashes ++ [(chunkHasher.digest sha256).1] }
          let newTotalBytesRead := trunc 64 (previousTotalBytesRead + bytesToFirstChunk)
          if 0 < unparsedBytes then
            parseRead sha256 state newTotalBytesRead (buffer.drop bytesToFirstChunk)
          else .ok (newTotalBytesRead, state)
      else .error .assertion
termination_by buffer.length
decreasing_by simp only [List.length_drop]; omega

/-- The reads of a file in order, from byte total `total`. -/
def feed (sha256 : List UInt8 → String) :
    HasherStateData → ℕ → List (List UInt8) → Except ParseFault (ℕ × HasherStateData)
  | state, total, [] => .ok (total, state)
  | state, total, read :: reads =>
    match parseRead sha256 state total read with
    | .error fault => .error fault
    | .ok (total, state) => feed sha256 state total reads

/-! ### Specification -/

/-- The hasher before the first read. -/
def HasherStateData.initial (file : List UInt8) (mtime : ℤ) (ranges : List Range) :
    HasherStateData where
  filesize := file.length
  mtime := mtime
  chunkRanges := ranges

/-- No fault, the running total after every read, and the digests of the ranges and of the
whole file at the end. -/
structure HashesFile (sha256 : List UInt8 → String) (file : List UInt8) (mtime : ℤ)
    (ranges : List Range) (reads : List (List UInt8)) : Prop where
  running : ∀ k, ∃ state, feed sha256 (.initial file mtime ranges) 0 (reads.take k) =
    .ok ((reads.take k).flatten.length, state)
  digests : ∃ total state, feed sha256 (.initial file mtime ranges) 0 reads = .ok (total, state) ∧
    state.chunkHashes = ranges.map (fun r => sha256 (slice file r)) ∧
    (state.primaryHasher.digest sha256).1 = sha256 file

/-- A read of `[start, stop)` that has bytes on both sides of the end of a range. -/
def Crosses (ranges : List Range) (start stop : ℕ) : Prop :=
  ∃ r ∈ ranges, start < r.2 ∧ r.2 < stop

/-- No read, the first starting at `start`, has bytes of two ranges. -/
def NoReadCrosses (ranges : List Range) : ℕ → List (List UInt8) → Prop
  | _, [] => True
  | start, read :: reads =>
    ¬ Crosses ranges start (start + read.length) ∧
      NoReadCrosses ranges (start + read.length) reads

instance (ranges : List Range) (start stop : ℕ) : Decidable (Crosses ranges start stop) :=
  inferInstanceAs (Decidable (∃ r ∈ ranges, start < r.2 ∧ r.2 < stop))

/-! ### One read -/

/-- The hasher at byte `p` of the file: the ranges `done` are hashed, the current chunk starts
at `q`, and `rest` starts with it. -/
structure HashedTo (sha256 : List UInt8 → String) (file : List UInt8) (done rest : List Range)
    (q p : ℕ) (state : HasherStateData) : Prop where
  ranges : state.chunkRanges = done ++ rest
  hashes : state.chunkHashes = done.map (fun r => sha256 (slice file r))
  tiles : Tiles q file.length rest
  done_le : ∀ r ∈ done, r.2 ≤ q
  start_le : q ≤ p
  current : state.chunkHasher.absorbed = slice file (q, p)
  before_end : ∀ r ∈ rest.head?, p < r.2
  all_done : rest = [] → p = file.length

section Read
variable {sha256 : List UInt8 → String} {file : List UInt8} {done rest : List Range} {q p : ℕ}
  {state : HasherStateData}

theorem HashedTo.current_range (h : HashedTo sha256 file done rest q p state) :
    state.chunkRanges[state.chunkHashes.length]? = rest.head? := by
  rw [h.ranges, h.hashes, List.length_map, List.getElem?_append_right le_rfl, Nat.sub_self,
    List.head?_eq_getElem?]

/-- A range that the interval `(p, stop)` ends in is not one already hashed. -/
theorem HashedTo.crosses_iff (h : HashedTo sha256 file done rest q p state) (stop : ℕ) :
    Crosses state.chunkRanges p stop ↔ ∃ r ∈ rest, r.2 < stop := by
  rw [h.ranges]
  constructor
  · rintro ⟨r, hr, hlt, hstop⟩
    rcases List.mem_append.mp hr with hd | hr
    · have := h.done_le r hd
      have := h.start_le
      omega
    · exact ⟨r, hr, hstop⟩
  · rintro ⟨r, hr, hstop⟩
    refine ⟨r, List.mem_append_right _ hr, ?_, hstop⟩
    cases rest with
    | nil => cases hr
    | cons t rest =>
      have hp := h.before_end t rfl
      rcases List.mem_cons.mp hr with rfl | hr
      · exact hp
      · have := h.tiles.2.2.bounds r hr
        omega

/-- Bytes of the current range only. -/
theorem HashedTo.advance {r : Range} (h : HashedTo sha256 file done (r :: rest) q p state) {stop : ℕ}
    (hp : p ≤ stop) (hin : stop < r.2) (primary : Sha256Hasher) :
    HashedTo sha256 file done (r :: rest) q stop { state with
      primaryHasher := primary
      chunkHasher := state.chunkHasher.update (slice file (p, stop)) } where
  ranges := h.ranges
  hashes := h.hashes
  tiles := h.tiles
  done_le := h.done_le
  start_le := h.start_le.trans hp
  current := by simpa [h.current] using slice_append file h.start_le hp
  before_end := by simpa using hin
  all_done := by simp

/-- The rest of the current range, whose digest is then stored. -/
theorem HashedTo.complete {r : Range} (h : HashedTo sha256 file done (r :: rest) q p state)
    (primary : Sha256Hasher) :
    HashedTo sha256 file (done ++ [r]) rest r.2 r.2 { state with
      primaryHasher := primary
      chunkHasher := {}
      chunkHashes := state.chunkHashes ++
        [sha256 (state.chunkHasher.absorbed ++ slice file (p, r.2))] } := by
  obtain ⟨hrq, -, htiles⟩ := h.tiles
  have hpr : p < r.2 := h.before_end r rfl
  have hchunk : state.chunkHasher.absorbed ++ slice file (p, r.2) = slice file r := by
    rw [h.current, slice_append file h.start_le hpr.le, ← hrq]
  refine ⟨by simp [h.ranges], by simp [h.hashes, hchunk], htiles, ?_, le_rfl, by simp [slice],
    ?_, fun hr => by subst hr; exact htiles⟩
  · intro t ht
    rcases List.mem_append.mp ht with ht | ht
    · have := h.done_le t ht
      have := h.start_le
      omega
    · rw [List.mem_singleton.mp ht]
  · intro t ht
    cases rest with
    | nil => cases ht
    | cons u rest =>
      cases ht
      exact htiles.1 ▸ htiles.2.1

/-- A read reports no fault and the new total and leaves the hasher right at its end. The
whole-file hasher absorbs the read, and more exactly when the read crosses a range end. -/
theorem parseRead_spec (hfile : file.length < 2 ^ 64) (h : HashedTo sha256 file done rest q p state)
    {stop : ℕ} (hp : p ≤ stop) (hstop : stop ≤ file.length) :
    ∃ state' done' rest' q' again,
      parseRead sha256 state p (slice file (p, stop)) = .ok (stop, state') ∧
      HashedTo sha256 file done' rest' q' stop state' ∧
      state'.chunkRanges = state.chunkRanges ∧
      state'.primaryHasher.absorbed =
        state.primaryHasher.absorbed ++ slice file (p, stop) ++ again ∧
      (again = [] ↔ ¬ Crosses state.chunkRanges p stop) := by
  have hbuf : (slice file (p, stop)).length = stop - p := length_slice hstop
  rcases Nat.eq_or_lt_of_le hp with rfl | hlt
  · refine ⟨state, done, rest, q, [], ?_, h, rfl, ?_, ?_⟩
    · rw [parseRead, if_pos (by omega)]
    · simp [slice]
    · simp only [true_iff]
      rintro ⟨t, _, h1, h2⟩
      omega
  induction rest generalizing done q p state with
  | nil => exact absurd (h.all_done rfl) (by omega)
  | cons r rest ih =>
    have hpr : p < r.2 := h.before_end r rfl
    -- a range after the current one ends later
    have hlater : ∀ t ∈ r :: rest, t.2 < stop → r.2 < stop := by
      intro t ht hts
      rcases List.mem_cons.mp ht with rfl | ht
      · exact hts
      · have := h.tiles.2.2.bounds t ht
        omega
    have hread : trunc 64 (p + (slice file (p, stop)).length) = stop := by
      rw [hbuf, trunc_of_lt (by omega)]; omega
    rw [parseRead, if_neg (by omega), h.current_range, List.head?_cons]
    simp only [hpr, ↓reduceDIte, hread]
    by_cases hin : stop < r.2
    · rw [if_pos hin]
      refine ⟨_, done, r :: rest, q, [], rfl, h.advance hp hin _, rfl, by simp, ?_⟩
      simp only [true_iff, h.crosses_iff]
      rintro ⟨t, ht, hts⟩
      have := hlater t ht hts
      omega
    · have hrs : r.2 ≤ stop := not_lt.mp hin
      have htake : (slice file (p, stop)).take (r.2 - p) = slice file (p, r.2) := by
        rw [slice_eq, slice_eq, List.take_take]; congr 1; omega
      have hdrop : (slice file (p, stop)).drop (r.2 - p) = slice file (r.2, stop) := by
        rw [slice, slice, List.drop_drop]; congr 1; omega
      have hnew : trunc 64 (p + (r.2 - p)) = r.2 := by rw [trunc_of_lt (by omega)]; omega
      have hnext := h.complete (state.primaryHasher.update (slice file (p, stop)))
      rw [if_neg hin]
      simp only [htake, hdrop, hnew, Sha256Hasher.digest_fst, Sha256Hasher.absorbed_update]
      rcases Nat.eq_or_lt_of_le hrs with hend | hmore
      · -- the read ends with the range
        subst hend
        rw [if_neg (by omega)]
        refine ⟨_, _, _, _, [], rfl, hnext, rfl, by simp, ?_⟩
        simp only [true_iff, h.crosses_iff]
        rintro ⟨t, ht, hts⟩
        exact lt_irrefl _ (hlater t ht hts)
      · -- the tail of the read is parsed, and absorbed, again
        rw [if_pos (by omega)]
        obtain ⟨state', done', rest', q', again, hrun, hinv, hranges, habs, -⟩ :=
          ih hnext hrs (length_slice hstop) hmore
        refine ⟨state', done', rest', q', slice file (r.2, stop) ++ again, hrun, hinv, hranges,
          by simpa using habs, ?_⟩
        have hne : slice file (r.2, stop) ≠ [] := by
          rw [← List.length_pos_iff, length_slice hstop]; omega
        have hcross : Crosses state.chunkRanges p stop :=
          (h.crosses_iff stop).mpr ⟨r, by simp, hmore⟩
        simp [hne, hcross]

end Read

/-! ### All reads -/

section Feed
variable {sha256 : List UInt8 → String} {file : List UInt8} {done rest : List Range} {q p : ℕ}
  {state : HasherStateData}

/-- Reads that continue the file at `p`. -/
theorem feed_spec (hfile : file.length < 2 ^ 64) (reads : List (List UInt8))
    (h : HashedTo sha256 file done rest q p state)
    (hreads : slice file (p, p + reads.flatten.length) = reads.flatten)
    (hle : p + reads.flatten.length ≤ file.length) :
    ∃ state' done' rest' q' again,
      feed sha256 state p reads = .ok (p + reads.flatten.length, state') ∧
      HashedTo sha256 file done' rest' q' (p + reads.flatten.length) state' ∧
      state'.chunkRanges = state.chunkRanges ∧
      state'.primaryHasher.absorbed.length =
        state.primaryHasher.absorbed.length + reads.flatten.length + again ∧
      (again = 0 ↔ NoReadCrosses state.chunkRanges p reads) ∧
      (NoReadCrosses state.chunkRanges p reads →
        state'.primaryHasher.absorbed = state.primaryHasher.absorbed ++ reads.flatten) := by
  induction reads generalizing done rest q p state with
  | nil => exact ⟨state, done, rest, q, 0, rfl, h, rfl, rfl, by simp [NoReadCrosses], by simp⟩
  | cons read reads ih =>
    simp only [List.flatten_cons, List.length_append] at hreads hle ⊢
    have hsplit : slice file (p, p + read.length) ++
        slice file (p + read.length, p + (read.length + reads.flatten.length)) =
          read ++ reads.flatten := by
      rw [slice_append file (by omega) (by omega), hreads]
    have hlen : (slice file (p, p + read.length)).length = read.length := by
      rw [length_slice (by simpa using by omega)]; simp
    obtain ⟨hhead, htail⟩ := List.append_inj hsplit hlen
    obtain ⟨s₁, done₁, rest₁, q₁, again₁, hrun, hinv, hranges, habs, hcross⟩ :=
      parseRead_spec hfile h (Nat.le_add_right p read.length) (by omega)
    rw [← Nat.add_assoc] at htail hle ⊢
    obtain ⟨s₂, done₂, rest₂, q₂, again₂, hfeed, hinv₂, hranges₂, habs₂, hagain₂, hno₂⟩ :=
      ih hinv htail hle
    rw [hhead] at hrun habs
    rw [hranges] at hranges₂ hagain₂ hno₂
    refine ⟨s₂, done₂, rest₂, q₂, again₁.length + again₂, ?_, hinv₂, hranges₂, ?_, ?_, ?_⟩
    · rw [feed, hrun]
      exact hfeed
    · rw [habs₂, habs]
      simp only [List.length_append]
      omega
    · rw [NoReadCrosses, ← hcross, ← hagain₂, Nat.add_eq_zero_iff, List.length_eq_zero_iff]
    · rintro ⟨hno, hrest⟩
      rw [hno₂ hrest, habs, hcross.mpr hno]
      simp

theorem HashedTo.initial {mtime : ℤ} {ranges : List Range}
    (hr : chunkRanges file.length = some ranges) :
    HashedTo sha256 file [] ranges 0 0 (.initial file mtime ranges) where
  ranges := rfl
  hashes := rfl
  tiles := chunkRanges_tiles hr
  done_le := by simp
  start_le := le_rfl
  current := by simp [HasherStateData.initial, slice]
  before_end := by
    intro r hr'
    have := (chunkRanges_tiles hr).bounds r (List.mem_of_mem_head? hr')
    omega
  all_done := by
    rintro rfl
    exact chunkRanges_tiles hr

/-- At the end of the file every range is hashed. -/
theorem HashedTo.at_end (h : HashedTo sha256 file done rest q file.length state) : rest = [] := by
  cases rest with
  | nil => rfl
  | cons r rest =>
    have hlt := h.before_end r rfl
    have hle := (h.tiles.bounds r (by simp)).2.2
    omega

/-- The reads of a whole file: totals, chunk hashes, and what the whole-file hasher absorbed. -/
theorem feed_file (sha256 : List UInt8 → String) (mtime : ℤ) {ranges : List Range}
    {reads : List (List UInt8)}
    (hr : chunkRanges file.length = some ranges) (hreads : reads.flatten = file) :
    (∀ k, ∃ state, feed sha256 (.initial file mtime ranges) 0 (reads.take k) =
      .ok ((reads.take k).flatten.length, state)) ∧
    ∃ state again, feed sha256 (.initial file mtime ranges) 0 reads = .ok (file.length, state) ∧
      state.chunkHashes = ranges.map (fun r => sha256 (slice file r)) ∧
      state.primaryHasher.absorbed.length = file.length + again ∧
      (again = 0 ↔ NoReadCrosses ranges 0 reads) ∧
      (NoReadCrosses ranges 0 reads → state.primaryHasher.absorbed = file) := by
  have hlen : file.length < 2 ^ 64 := by
    have := (chunkRanges_eq_some_iff.mp hr).1
    have := chunkMaxSize_pos file.length
    omega
  have hinit : HashedTo sha256 file [] ranges 0 0 (.initial file mtime ranges) := .initial hr
  constructor
  · intro k
    have hpre : (reads.take k).flatten ++ (reads.drop k).flatten = file := by
      rw [← List.flatten_append, List.take_append_drop, hreads]
    obtain ⟨state, _, _, _, _, hfeed, _⟩ := feed_spec hlen (reads.take k) hinit
      (by rw [slice_eq]; simp [← hpre])
      (by rw [← congrArg List.length hpre, List.length_append]; omega)
    exact ⟨state, by simpa using hfeed⟩
  · obtain ⟨state, done', rest', _, again, hfeed, hinv, hranges, habs, hagain, hno⟩ :=
      feed_spec hlen reads hinit (by simp [hreads, slice_full]) (by simp [hreads])
    simp only [hreads, Nat.zero_add, HasherStateData.initial, List.length_nil,
      List.nil_append] at hfeed hinv hranges habs hagain hno
    have hrest := hinv.at_end
    have hdone : done' = ranges := by
      have := hinv.ranges
      rw [hranges, hrest, List.append_nil] at this
      exact this.symm
    exact ⟨state, again, hfeed, hdone ▸ hinv.hashes, habs, hagain, hno⟩

end Feed

/-- A digest that tells all byte strings apart. -/
theorem exists_injective_digest : ∃ sha256 : List UInt8 → String, Function.Injective sha256 := by
  refine ⟨fun bytes => String.ofList (bytes.map Char.ofUInt8), fun a b h => ?_⟩
  have hchar : Function.Injective Char.ofUInt8 := by
    intro x y hxy
    have hval : x.toUInt32 = y.toUInt32 := congrArg Char.val hxy
    simpa [UInt8.toNat_inj] using congrArg UInt32.toNat hval
  exact hchar.list_map (String.ofList_injective h)

theorem noReadCrosses_of_hashesFile {file : List UInt8} {mtime : ℤ} {ranges : List Range}
    {reads : List (List UInt8)} (hr : chunkRanges file.length = some ranges)
    (hreads : reads.flatten = file) (h : ∀ sha256, HashesFile sha256 file mtime ranges reads) :
    NoReadCrosses ranges 0 reads := by
  obtain ⟨sha256, hinj⟩ := exists_injective_digest
  obtain ⟨-, state, again, hfeed, -, habs, hagain, -⟩ :=
    feed_file sha256 mtime hr hreads
  obtain ⟨total, state', hfeed', -, hdigest⟩ := (h sha256).digests
  rw [hfeed] at hfeed'
  cases hfeed'
  have hfile : state.primaryHasher.absorbed = file := hinj hdigest
  rw [hfile] at habs
  exact hagain.mp (by omega)

/-- For the ranges of a file and any way of cutting it into reads, the digests are right for
every digest function exactly when no read reaches past the end of the range it starts in. -/
theorem feed_hashesFile_iff (file : List UInt8) (mtime : ℤ) (ranges : List Range)
    (reads : List (List UInt8)) (hr : chunkRanges file.length = some ranges)
    (hreads : reads.flatten = file) :
    (∀ sha256, HashesFile sha256 file mtime ranges reads) ↔ NoReadCrosses ranges 0 reads := by
  refine ⟨noReadCrosses_of_hashesFile hr hreads, fun hno sha256 => ?_⟩
  obtain ⟨hrun, state, again, hfeed, hchunks, -, -, hfile⟩ :=
    feed_file sha256 mtime hr hreads
  exact ⟨hrun, _, state, hfeed, hchunks, by simp [hfile hno]⟩

theorem feed_hashesFile_three_bytes :
    HashesFile (fun bytes => toString bytes) [1, 2, 3] 0 [(0, 3)] [[1], [], [2, 3]] :=
  (feed_hashesFile_iff [1, 2, 3] 0 [(0, 3)] [[1], [], [2, 3]] (by decide) rfl).mpr
    (by simp [NoReadCrosses, Crosses]) _

/-- Four megabytes of zeros, four chunks, in a single read. -/
theorem not_hashesFile_four_mb_read :
    ∃ ranges, chunkRanges (List.replicate (mb 4) (0 : UInt8)).length = some ranges ∧
      ¬ ∀ sha256, HashesFile sha256 (List.replicate (mb 4) 0) 0 ranges
        [List.replicate (mb 4) 0] := by
  have hlen : (List.replicate (mb 4) (0 : UInt8)).length = 4194304 :=
    List.length_replicate
  have hsize : chunkMaxSize 4194304 = 1048576 := by decide
  have hfit : 4194304 + chunkMaxSize 4194304 ≤ 2 ^ 64 := by rw [hsize]; norm_num
  have hr := chunkRanges_eq_cuts hfit
  rw [← hlen] at hr
  refine ⟨_, hr, fun h => ?_⟩
  have hno := (noReadCrosses_of_hashesFile hr (List.flatten_singleton ..) h).1
  rw [Nat.zero_add, hlen, hsize] at hno
  refine hno ⟨(0, 1048576), ?_, by norm_num, by norm_num⟩
  exact List.mem_map.mpr ⟨0, by simp, by simp⟩

end MediafireSdk.Uploader
