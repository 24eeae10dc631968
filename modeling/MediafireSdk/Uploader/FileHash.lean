import MediafireSdk.Uploader.Hasher
import MediafireSdk.Utils.FileIO

/-! Hashing a file in blocks of 8 KB, as `ReadFile` reads it. Chunks start at
multiples of the block, so no block has bytes of two chunks, and the hash is that
of the whole file. The chunks are cut for the size that the file system told
before; a file with more bytes is not hashed at all, and one with fewer has no hash
for its last chunks. -/

namespace MediafireSdk.Uploader

open Ranges Words Utils

/-! ### Reading a file in blocks -/

/-- What is known of a file when its hash is adopted, with the chunks of a file of `filesize`
bytes: its hash and those of the chunks that end within it. -/
structure HashData (sha256 : List UInt8 → String) (filesize : ℕ) (file : List UInt8)
    (hash : String) (ranges : List Range) (hashes : List String) : Prop where
  size : file.length ≤ filesize
  cut : chunkRanges filesize = some ranges
  whole : hash = sha256 file
  chunks : hashes = (ranges.filter (·.2 ≤ file.length)).map fun r => sha256 (slice file r)

/-- A file cut or filled up to a size. -/
def resize (file : List UInt8) (size : ℕ) : List UInt8 :=
  file.take size ++ List.replicate (size - file.length) 0

/-- The hasher at byte `p` of a file. -/
structure HashesTo (sha256 : List UInt8 → String) (file : List UInt8) (p : ℕ)
    (state : HasherStateData) : Prop where
  cut : chunkRanges state.filesize = some state.chunkRanges
  le : p ≤ file.length
  primary : state.primaryHasher.absorbed = file.take p
  chunks : ∃ done rest q, HashedTo sha256 (resize file state.filesize) done rest q p state

section Blocks
variable {sha256 : List UInt8 → String} {file : List UInt8} {p stop filesize : ℕ}
  {state state' : HasherStateData} {done rest ranges : List Range} {q : ℕ}

@[simp] theorem length_resize : (resize file filesize).length = filesize := by
  rw [resize, List.length_append, List.length_take, List.length_replicate]
  omega

theorem slice_resize {r : Range} (hfile : r.2 ≤ file.length) (hsize : r.2 ≤ filesize) :
    slice (resize file filesize) r = slice file r := by
  have hlen : r.2 ≤ (file.take filesize).length := by
    rw [List.length_take]
    omega
  have hprefix : file.take filesize <+: resize file filesize := List.prefix_append _ _
  rw [← slice_of_prefix (List.take_prefix filesize file) hlen,
    ← slice_of_prefix hprefix hlen]

/-- Only the hashers and the chunk hashes change. -/
theorem parseRead_filesize {buffer : List UInt8} {total : ℕ}
    (h : parseRead sha256 state p buffer = .ok (total, state')) :
    state'.filesize = state.filesize := by
  fun_induction parseRead sha256 state p buffer with
  | case1 | case3 | case5 =>
    obtain ⟨-, rfl⟩ := Prod.mk.inj (Except.ok.inj h)
    rfl
  | case2 | case6 => cases h
  | case4 => rename_i ih; exact ih h

theorem HashedTo.le (h : HashedTo sha256 file done rest q p state) : p ≤ file.length := by
  cases rest with
  | nil => exact (h.all_done rfl).le
  | cons r rest =>
    have hlt := h.before_end r rfl
    have hle := h.tiles.2.2.le
    omega

/-- The hasher right at `p`, with a read that reaches behind the last range. -/
theorem parseRead_behind {buffer : List UInt8} {n : ℕ} (hcut : state.chunkRanges = done ++ rest)
    (hhashes : state.chunkHashes.length = done.length) (htiles : Tiles q n rest) (hq : q ≤ p)
    (hbefore : ∀ r ∈ rest.head?, p < r.2) (hend : rest = [] → p = n)
    (hbehind : n < p + buffer.length) (hlt : p + buffer.length < 2 ^ 64) :
    ∃ fault, parseRead sha256 state p buffer = .error fault := by
  induction rest generalizing state done q p buffer with
  | nil =>
    have hp := hend rfl
    rw [parseRead, if_neg (by omega), hcut, hhashes, List.append_nil,
      List.getElem?_eq_none le_rfl]
    exact ⟨_, rfl⟩
  | cons r rest ih =>
    obtain ⟨hr, hpos, hrest⟩ := htiles
    have hpr : p < r.2 := hbefore r rfl
    have hle := hrest.le
    have hread : trunc 64 (p + buffer.length) = p + buffer.length := trunc_of_lt hlt
    have hnew : trunc 64 (p + (r.2 - p)) = r.2 := by rw [trunc_of_lt (by omega)]; omega
    rw [parseRead, if_neg (by omega), hcut, hhashes, List.getElem?_append_right le_rfl,
      Nat.sub_self, List.getElem?_cons_zero]
    simp only [hpr, ↓reduceDIte, hread, hnew]
    rw [if_neg (by omega), if_pos (by omega)]
    have hcut' : done ++ r :: rest = (done ++ [r]) ++ rest := by simp
    refine ih hcut' (by simp [hhashes]) hrest le_rfl ?_ ?_ ?_ ?_
    · intro t ht
      cases rest with
      | nil => cases ht
      | cons u rest =>
        cases ht
        exact hrest.1 ▸ hrest.2.1
    · rintro rfl
      exact hrest
    · rw [List.length_drop]
      omega
    · rw [List.length_drop]
      omega

/-- A block has bytes of one chunk only. -/
theorem not_crosses_block (h : chunkRanges filesize = some ranges) (hblock : 8192 ∣ p)
    (hle : stop ≤ p + 8192) (hsize : stop ≤ filesize) : ¬ Crosses ranges p stop := by
  obtain ⟨-, rfl⟩ := chunkRanges_eq_some_iff.mp h
  rintro ⟨r, hr, hlt, hstop⟩
  obtain ⟨i, hi, rfl⟩ := List.getElem_of_mem hr
  simp only [cuts, getElem_cutsTo] at hlt hstop
  have hend : min (chunkMaxSize filesize * (i + 1)) filesize = chunkMaxSize filesize * (i + 1) := by
    omega
  rw [hend] at hlt hstop
  obtain ⟨k, hk, -, hsize'⟩ := chunkMaxSize_pow filesize
  have hdvd : 8192 ∣ chunkMaxSize filesize * (i + 1) := by
    refine Dvd.dvd.mul_right ?_ _
    rw [hsize', show 8192 = 2 ^ 13 by norm_num]
    exact pow_dvd_pow 2 (by omega)
  -- the end of the chunk would be a multiple of the block strictly inside it
  omega

/-- A block of the file is parsed, unless it reaches behind the size the chunks were cut for. -/
theorem HashesTo.read (h : HashesTo sha256 file p state) (hblock : 8192 ∣ p) (hp : p ≤ stop)
    (hle : stop ≤ p + 8192) (hstop : stop ≤ file.length) :
    (∃ fault, parseRead sha256 state p (slice file (p, stop)) = .error fault) ∨
      ∃ state', parseRead sha256 state p (slice file (p, stop)) = .ok (stop, state') ∧
        state'.filesize = state.filesize ∧ HashesTo sha256 file stop state' := by
  obtain ⟨done, rest, q, hchunks⟩ := h.chunks
  have hbound := (chunkRanges_eq_some_iff.mp h.cut).1
  obtain ⟨k, hk, -, hmax⟩ := chunkMaxSize_pow state.filesize
  have hpow : 2 ^ 20 ≤ 2 ^ k := Nat.pow_le_pow_right (by norm_num) hk
  by_cases hsize : stop ≤ state.filesize
  · refine .inr ?_
    have hslice : slice (resize file state.filesize) (p, stop) = slice file (p, stop) :=
      slice_resize hstop hsize
    obtain ⟨state', done', rest', q', again, hread, hinv, hcut, habs, hagain⟩ :=
      parseRead_spec (by rw [length_resize]; omega) hchunks hp (by rwa [length_resize])
    rw [hslice] at hread habs
    have hfilesize := parseRead_filesize hread
    rw [hagain.mpr (not_crosses_block h.cut hblock hle hsize), List.append_nil, h.primary] at habs
    refine ⟨state', hread, hfilesize, ?_, hstop, ?_, done', rest', q', ?_⟩
    · rw [hfilesize, hcut, h.cut]
    · rw [habs]
      exact slice_append file (Nat.zero_le p) hp
    · rwa [hfilesize]
  · refine .inl (parseRead_behind hchunks.ranges ?_ hchunks.tiles hchunks.start_le
      hchunks.before_end hchunks.all_done ?_ ?_)
    · rw [hchunks.hashes, List.length_map]
    · rw [length_resize, length_slice hstop]
      omega
    · rw [length_slice hstop]
      have := hchunks.le
      rw [length_resize] at this
      omega

theorem HashesTo.initial (hcut : chunkRanges filesize = some ranges) (mtime : ℤ) :
    HashesTo sha256 file 0
      { filesize := filesize, mtime := mtime, chunkRanges := ranges } where
  cut := hcut
  le := Nat.zero_le _
  primary := rfl
  chunks := by
    have hinit : HashedTo sha256 (resize file filesize) [] ranges 0 0
        (.initial (resize file filesize) mtime ranges) :=
      .initial (by rwa [length_resize])
    rw [HasherStateData.initial, length_resize] at hinit
    exact ⟨[], ranges, 0, hinit⟩

/-- At the end of the file. -/
theorem HashesTo.hashData (h : HashesTo sha256 file file.length state) :
    HashData sha256 state.filesize file (sha256 state.primaryHasher.absorbed) state.chunkRanges
      state.chunkHashes := by
  obtain ⟨done, rest, q, hchunks⟩ := h.chunks
  have hle := hchunks.le
  rw [length_resize] at hle
  have hdone : ∀ r ∈ done, r.2 ≤ file.length := fun r hr =>
    (hchunks.done_le r hr).trans hchunks.start_le
  have hrest : ∀ r ∈ rest, file.length < r.2 := by
    intro r hr
    cases rest with
    | nil => cases hr
    | cons t rest =>
      have ht := hchunks.before_end t rfl
      rcases List.mem_cons.mp hr with rfl | hr
      · exact ht
      · have := hchunks.tiles.2.2.bounds r hr
        omega
  refine ⟨hle, h.cut, by rw [h.primary, List.take_length], ?_⟩
  rw [hchunks.hashes, hchunks.ranges, List.filter_append,
    List.filter_eq_self.mpr (by simpa using hdone),
    List.filter_eq_nil_iff.mpr (by simpa using hrest), List.append_nil]
  exact List.map_congr_left fun r hr =>
    congrArg sha256 (slice_resize (hdone r hr) ((hdone r hr).trans hle))

end Blocks

section Data
variable {sha256 : List UInt8 → String} {file : List UInt8} {filesize : ℕ} {hash : String}
  {ranges : List Range} {hashes : List String}

/-- With a hash for every chunk, the file has the size that the chunks were cut for. -/
theorem HashData.length_eq (h : HashData sha256 filesize file hash ranges hashes)
    (hlength : ranges.length = hashes.length) : file.length = filesize := by
  rw [h.chunks, List.length_map] at hlength
  have hall := List.length_filter_eq_length_iff.mp hlength.symm
  rcases Nat.eq_zero_or_pos filesize with rfl | hpos
  · exact Nat.le_zero.mp h.size
  · obtain ⟨r, hr, hend⟩ := (chunkRanges_tiles h.cut).exists_end hpos
    have hle : r.2 ≤ file.length := by simpa using hall r hr
    exact le_antisymm h.size (hend ▸ hle)

/-- A chunk hash is that of its range. -/
theorem HashData.of_getElem? (h : HashData sha256 filesize file hash ranges hashes) {chunkId : ℕ}
    {unitHash : String} (hunit : hashes[chunkId]? = some unitHash) :
    ∃ r, ranges[chunkId]? = some r ∧ unitHash = sha256 (slice file r) := by
  obtain ⟨k, hk⟩ := (chunkRanges_tiles h.cut).filter_le file.length
  rw [h.chunks, hk, List.getElem?_map, Option.map_eq_some_iff] at hunit
  obtain ⟨r, hr, rfl⟩ := hunit
  rw [List.getElem?_take] at hr
  split_ifs at hr
  exact ⟨r, hr, rfl⟩

end Data

end MediafireSdk.Uploader

namespace MediafireSdk.Utils.FileIO

open Ranges

/-- A read up to the end of the file returns what is left of it. -/
theorem read_endOfFile {file file' : FileIO} {bufferSize : ℕ} {bytes : List UInt8}
    (h : file.read bufferSize = (bytes, some .endOfFile, file')) :
    bytes = slice file.content (file.pos, file.content.length) ∧
      file.content.length ≤ file.pos + bufferSize := by
  simp only [read, Prod.mk.injEq] at h
  obtain ⟨rfl, herr, -⟩ := h
  split_ifs at herr with hfull hlength
  · have hall : file.readable = file.content := file.readable_initial.eq_of_length hlength
    rw [hall, List.length_take, List.length_drop] at hfull
    refine ⟨?_, by omega⟩
    rw [hall, slice_eq, List.take_of_length_le (by rw [List.length_drop]; omega),
      List.take_of_length_le (by rw [List.length_drop])]
  · cases herr

/-- A read without error returns the bytes asked for. -/
theorem read_block {file file' : FileIO} {bufferSize : ℕ} {bytes : List UInt8}
    (hpos : 0 < bufferSize) (h : file.read bufferSize = (bytes, none, file')) :
    bytes = slice file.content (file.pos, file.pos + bufferSize) ∧
      file.pos + bufferSize ≤ file.content.length ∧
      file' = { file with pos := file.pos + bufferSize } := by
  have hle : file.pos + bufferSize ≤ file.readable.length := by
    by_contra hlt
    obtain ⟨_, _, _, hread⟩ := read_of_lt file bufferSize hpos (not_le.mp hlt)
    simp [hread] at h
  rw [read_of_le file bufferSize hle] at h
  simp only [Prod.mk.injEq, true_and] at h
  obtain ⟨rfl, rfl⟩ := h
  exact ⟨rfl, hle.trans file.readable_initial.length_le, rfl⟩

end MediafireSdk.Utils.FileIO
