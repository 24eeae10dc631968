import MediafireSdk.Uploader.Machine
import MediafireSdk.Uploader.PostDataPipe

/-! The request that uploads one chunk (`DoChunkUpload::UploadNextChunk` and
`SetHeaders` in `detail/transition_upload.hpp`). Both copy the `uint64_t` range
of the chunk into two `int`s, which keep the low 32 bits. The begin is converted
back for the seek, both ends for the pipe, and the `x-unit-size` header is their
difference as an `int`. What the headers announce is what the pipe sends exactly
while the file is smaller than 2 GB. The URL is left out. -/

namespace MediafireSdk.Uploader

open Ranges Words Utils

structure PostRequest where
  headers : List (String × String)
  pipe : UploadPostDataPipe
  deriving DecidableEq, Repr

/-- How `UploadNextChunk` ends: an error event, undefined behaviour, or a started request. -/
inductive ChunkUpload where
  | failed (errorCode : ErrorCode) (description : String)
  | undefined
  | posted (request : PostRequest)
  deriving DecidableEq, Repr

/-- `SetHeaders`; `none` when an index is out of range or the size overflows `int`. -/
def setHeaders (m : UploadStateMachine) (chunkId : ℕ) : Option (List (String × String)) := do
  let range ← m.chunkRanges[chunkId]?
  let begin' := signed 32 range.1
  let end' := signed 32 range.2
  let unitHash ← m.chunkHashes[chunkId]?
  let unitSize ← checkedSub 32 end' begin'
  return [("Content-Type", "application/octet-stream"),
    ("x-filename", m.filename),
    ("x-filesize", toString m.filesize),
    ("x-filehash", m.hash),
    ("x-unit-hash", unitHash),
    ("x-unit-id", toString chunkId),
    ("x-unit-size", toString unitSize)]

/-- `UploadNextChunk`, given the outcome of opening the file. -/
def uploadNextChunk (openFile : Except ErrorCode FileIO) (m : UploadStateMachine) (chunkId : ℕ) :
    ChunkUpload :=
  match openFile with
  | .error ec => .failed ec "Unable to open file."
  | .ok fileIo =>
    match m.chunkRanges[chunkId]? with
    | none => .undefined
    | some range =>
      let begin' := signed 32 range.1
      let end' := signed 32 range.2
      match fileIo.seek .beginning (unsigned 64 begin') with
      | (some ec, _) => .failed (.fileIo ec) "Seek file failed."
      | (none, fileIo) =>
        let pipe := UploadPostDataPipe.create fileIo (unsigned 64 begin') (unsigned 64 end')
        match setHeaders m chunkId with
        | none => .undefined
        | some headers => .posted ⟨headers, pipe⟩

/-- The machine once `file` has been hashed. -/
def UploadStateMachine.hashed (m : UploadStateMachine) (sha256 : List UInt8 → String)
    (file : List UInt8) (ranges : List Range) : UploadStateMachine :=
  { m with
    filesize := file.length
    chunkRanges := ranges
    chunkHashes := ranges.map fun r => sha256 (slice file r) }

/-- The file is cut into chunks, and for each of them a request is posted whose body is the
chunk, whose `x-unit-size` is the length of the body and whose `x-unit-hash` is its hash. -/
def SendsAnnounced (sha256 : List UInt8 → String) (file : List UInt8) (m : UploadStateMachine) :
    Prop :=
  ∃ ranges, chunkRanges file.length = some ranges ∧
    ∀ (chunkId : ℕ) (h : chunkId < ranges.length), ∃ request body,
      uploadNextChunk (.ok { content := file }) (m.hashed sha256 file ranges) chunkId =
        .posted request ∧
      request.pipe.body = some body ∧
      body = slice file ranges[chunkId] ∧
      request.headers.lookup "x-unit-size" = some (toString body.length) ∧
      request.headers.lookup "x-unit-hash" = some (sha256 body)

section Announced
variable {sha256 : List UInt8 → String} {file : List UInt8} {m : UploadStateMachine}
  {ranges : List Range}

/-- The header of a range that fits `int` is the size of the range. -/
theorem setHeaders_hashed (sha256 : List UInt8 → String) (file : List UInt8)
    (m : UploadStateMachine) {chunkId : ℕ} (h : chunkId < ranges.length)
    (hle : ranges[chunkId].1 ≤ ranges[chunkId].2) (hlt : ranges[chunkId].2 < 2 ^ 31) :
    ∃ headers, setHeaders (m.hashed sha256 file ranges) chunkId = some headers ∧
      headers.lookup "x-unit-size" = some (toString (ranges[chunkId].2 - ranges[chunkId].1)) ∧
      headers.lookup "x-unit-hash" = some (sha256 (slice file ranges[chunkId])) := by
  have hb : signed 32 ranges[chunkId].1 = ranges[chunkId].1 := signed_of_lt (by omega)
  have he : signed 32 ranges[chunkId].2 = ranges[chunkId].2 := signed_of_lt (by omega)
  have hsub : checkedSub 32 ranges[chunkId].2 ranges[chunkId].1 =
      some ((ranges[chunkId].2 - ranges[chunkId].1 : ℕ) : ℤ) := by
    rw [checkedSub_natCast (by omega) (by omega), Nat.cast_sub hle]
  have hr : (m.hashed sha256 file ranges).chunkRanges[chunkId]? = some ranges[chunkId] :=
    List.getElem?_eq_getElem h
  have hh : (m.hashed sha256 file ranges).chunkHashes[chunkId]? =
      some (sha256 (slice file ranges[chunkId])) := by
    simp [UploadStateMachine.hashed, h]
  simp only [setHeaders, hr, hh, hb, he, hsub, Option.bind_eq_bind, Option.bind_some]
  exact ⟨_, rfl, rfl, rfl⟩

/-- A chunk that ends below `2 ^ 31` is sent as announced. -/
theorem uploadNextChunk_small (hr : chunkRanges file.length = some ranges) {chunkId : ℕ}
    (h : chunkId < ranges.length) (hlt : ranges[chunkId].2 < 2 ^ 31) :
    ∃ request body,
      uploadNextChunk (.ok { content := file }) (m.hashed sha256 file ranges) chunkId =
        .posted request ∧
      request.pipe.body = some body ∧
      body = slice file ranges[chunkId] ∧
      request.headers.lookup "x-unit-size" = some (toString body.length) ∧
      request.headers.lookup "x-unit-hash" = some (sha256 body) := by
  obtain ⟨-, hpos, hend⟩ := (chunkRanges_tiles hr).bounds _ (List.getElem_mem h)
  obtain ⟨headers, hset, hsize, hhash⟩ :=
    setHeaders_hashed sha256 file m h hpos.le hlt
  have hb : signed 32 ranges[chunkId].1 = ranges[chunkId].1 := signed_of_lt (by omega)
  have he : signed 32 ranges[chunkId].2 = ranges[chunkId].2 := signed_of_lt (by omega)
  have hb' : unsigned 64 (ranges[chunkId].1 : ℤ) = ranges[chunkId].1 :=
    unsigned_natCast (by omega)
  have he' : unsigned 64 (ranges[chunkId].2 : ℤ) = ranges[chunkId].2 :=
    unsigned_natCast (by omega)
  have hrange : (m.hashed sha256 file ranges).chunkRanges[chunkId]? = some ranges[chunkId] :=
    List.getElem?_eq_getElem h
  have haligned : UploadPostDataPipe.Aligned (.create
      { content := file, pos := ranges[chunkId].1 } ranges[chunkId].1 ranges[chunkId].2) :=
    ⟨rfl, rfl, hpos.le, hend, by simp only [UploadPostDataPipe.create]; omega⟩
  refine ⟨⟨headers, .create { content := file, pos := ranges[chunkId].1 } ranges[chunkId].1
    ranges[chunkId].2⟩, slice file ranges[chunkId], ?_, haligned.body, rfl, ?_, hhash⟩
  · simp only [uploadNextChunk, hrange, hb, he, hb', he', hset,
      FileIO.seek_beginning _ (show ranges[chunkId].1 < 2 ^ 63 by omega)]
  · rw [length_slice hend]
    exact hsize

/-- The size of a chunk that ends at `2 ^ 31` does not fit `int`. -/
theorem setHeaders_at_two_gb {chunkId : ℕ} {range : Range}
    (h : m.chunkRanges[chunkId]? = some range) (hb : 0 < range.1) (hlt : range.1 < 2 ^ 31)
    (he : range.2 = 2 ^ 31) : setHeaders m chunkId = none := by
  have hb' : signed 32 range.1 = range.1 := signed_of_lt (by omega)
  have he' : signed 32 range.2 = -2 ^ 31 := by rw [he]; decide
  have hsub : checkedSub 32 (-2 ^ 31) range.1 = none := by
    rw [checkedSub, if_neg]
    simp only [InRange]
    omega
  simp only [setHeaders, h, hb', he', hsub, Option.bind_eq_bind, Option.bind_some]
  cases m.chunkHashes[chunkId]? <;> rfl

/-- A file of 2 GB or more has a chunk that ends at `2 ^ 31`. -/
theorem exists_range_end_two_gb (hr : chunkRanges file.length = some ranges)
    (hlen : 2 ^ 31 ≤ file.length) :
    ∃ (chunkId : ℕ) (h : chunkId < ranges.length),
      0 < ranges[chunkId].1 ∧ ranges[chunkId].1 < 2 ^ 31 ∧ ranges[chunkId].2 = 2 ^ 31 := by
  obtain ⟨-, rfl⟩ := chunkRanges_eq_some_iff.mp hr
  obtain ⟨k, -, hk, hc⟩ := chunkMaxSize_pow file.length
  rw [hc]
  set c := 2 ^ k with hcdef
  have hcpos : 0 < c := by positivity
  have hcle : c ≤ 2 ^ 26 := Nat.pow_le_pow_right (by norm_num) hk
  obtain ⟨q, hq⟩ : c ∣ 2 ^ 31 := pow_dvd_pow 2 (by omega)
  have hq1 : 1 < q := by
    by_contra hle
    have : c * q ≤ c * 1 := Nat.mul_le_mul_left c (by omega)
    omega
  have hmul : c * (q - 1) + c = 2 ^ 31 := by
    rw [← Nat.mul_succ, Nat.succ_eq_add_one, Nat.sub_add_cancel (by omega), hq]
  have hidx : q - 1 < (cuts c file.length).length := by
    rw [cuts, length_cutsTo]
    exact (lt_ceilDiv_iff hcpos _ _).mpr (by omega)
  refine ⟨q - 1, hidx, ?_⟩
  simp only [cuts, getElem_cutsTo]
  refine ⟨Nat.mul_pos hcpos (by omega), by omega, ?_⟩
  rw [Nat.mul_succ, hmul]
  exact Nat.min_eq_left hlen

end Announced

theorem not_sendsAnnounced_of_two_gb {sha256 : List UInt8 → String} {file : List UInt8}
    {m : UploadStateMachine} (hlen : 2 ^ 31 ≤ file.length) : ¬ SendsAnnounced sha256 file m := by
  rintro ⟨ranges, hr, hall⟩
  obtain ⟨chunkId, h, hb, hlt, he⟩ := exists_range_end_two_gb hr hlen
  obtain ⟨request, _, hpost, -⟩ := hall chunkId h
  have hrange : (m.hashed sha256 file ranges).chunkRanges[chunkId]? = some ranges[chunkId] :=
    List.getElem?_eq_getElem h
  have hset := setHeaders_at_two_gb hrange hb hlt he
  unfold uploadNextChunk at hpost
  rw [hrange, hset] at hpost
  dsimp only at hpost
  split at hpost <;> cases hpost

/-- Every chunk of a file is sent as announced exactly when the file is smaller than 2 GB. -/
theorem sendsAnnounced_iff (sha256 : List UInt8 → String) (file : List UInt8)
    (m : UploadStateMachine) : SendsAnnounced sha256 file m ↔ file.length < 2 ^ 31 := by
  constructor
  · intro h
    by_contra hlen
    exact not_sendsAnnounced_of_two_gb (not_lt.mp hlen) h
  · intro hlen
    have hc : chunkMaxSize file.length ≤ 2 ^ 26 :=
      Nat.le_of_dvd (by norm_num) (chunkMaxSize_dvd _ le_rfl)
    have hfit : file.length + chunkMaxSize file.length ≤ 2 ^ 64 := by omega
    have hr := chunkRanges_eq_cuts hfit
    refine ⟨_, hr, fun chunkId h => uploadNextChunk_small hr h ?_⟩
    have := (chunkRanges_tiles hr).bounds _ (List.getElem_mem h)
    omega

/-- Two gigabytes of zeros. -/
theorem not_sendsAnnounced_two_gb_zeros :
    ¬ ∀ (sha256 : List UInt8 → String) (m : UploadStateMachine),
      SendsAnnounced sha256 (List.replicate (2 ^ 31) 0) m := by
  intro h
  exact not_sendsAnnounced_of_two_gb (by rw [List.length_replicate])
    (h (fun _ => "") { pathFilename := "zeros" })

end MediafireSdk.Uploader
