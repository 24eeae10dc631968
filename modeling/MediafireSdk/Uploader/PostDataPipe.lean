import MediafireSdk.Utils.FileIO

/-! The pipe that feeds a file range to a POST (`UploadPostDataPipe` in
`detail/transition_upload.hpp`). It hands out buffers of at most 8 KB until its
end position, and a bad pointer at the end or on any error. The body of the POST
is what it hands out before that. -/

namespace MediafireSdk.Uploader

open Ranges Words Utils

structure UploadPostDataPipe where
  file : FileIO
  startByte : ℕ
  endByte : ℕ
  currentReadPos : ℕ
  deriving DecidableEq, Repr

namespace UploadPostDataPipe

def create (file : FileIO) (startByte endByte : ℕ) : UploadPostDataPipe :=
  ⟨file, startByte, endByte, startByte⟩

def postDataSize (pipe : UploadPostDataPipe) : ℕ := sub 64 pipe.endByte pipe.startByte

/-- The stream at the read position; `none` when the seek fails. -/
def reposition (pipe : UploadPostDataPipe) : Option FileIO :=
  if pipe.file.tell ≠ pipe.currentReadPos then
    match pipe.file.seek .beginning pipe.currentReadPos with
    | (some _, _) => none
    | (none, file) => some file
  else some pipe.file

/-- `RetreivePostDataChunk`: the buffer and the pipe afterwards, or `none` for a bad pointer. -/
def retreivePostDataChunk (pipe : UploadPostDataPipe) : Option (List UInt8 × UploadPostDataPipe) :=
  match pipe.reposition with
  | none => none
  | some file =>
    let maxBufferSize := 1024 * 8
    let remainingBytes := sub 64 pipe.endByte pipe.currentReadPos
    if remainingBytes = 0 then none
    else
      let bufferSize := min maxBufferSize remainingBytes
      match file.read bufferSize with
      | (_, some _, _) => none
      | (buffer, none, file) =>
        some (buffer, { pipe with
          file := file
          currentReadPos := trunc 64 (pipe.currentReadPos + bufferSize) })

/-- The buffers up to the first bad pointer, joined; `none` when there are more than `fuel`. -/
def drain : (fuel : ℕ) → UploadPostDataPipe → Option (List UInt8)
  | 0, _ => none
  | fuel + 1, pipe =>
    match pipe.retreivePostDataChunk with
    | none => some []
    | some (buffer, pipe) => (drain fuel pipe).map (buffer ++ ·)

/-- The body of the POST: no buffer is empty, so the file bounds how many there are. -/
def body (pipe : UploadPostDataPipe) : Option (List UInt8) :=
  drain (pipe.file.content.length + 1) pipe

/-- The stream stands at the read position, and the range lies in a file that can be read. -/
structure Aligned (pipe : UploadPostDataPipe) : Prop where
  fault : pipe.file.fault = none
  pos : pipe.file.pos = pipe.currentReadPos
  le_end : pipe.currentReadPos ≤ pipe.endByte
  end_le : pipe.endByte ≤ pipe.file.content.length
  end_lt : pipe.endByte < 2 ^ 64

/-- The pipe `n` bytes on. -/
def advance (pipe : UploadPostDataPipe) (n : ℕ) : UploadPostDataPipe :=
  { pipe with
    file := { pipe.file with pos := pipe.file.pos + n }
    currentReadPos := pipe.currentReadPos + n }

variable {pipe : UploadPostDataPipe}

theorem Aligned.reposition (h : Aligned pipe) : pipe.reposition = some pipe.file := by
  simp [UploadPostDataPipe.reposition, FileIO.tell, h.pos]

theorem Aligned.remaining (h : Aligned pipe) :
    sub 64 pipe.endByte pipe.currentReadPos = pipe.endByte - pipe.currentReadPos :=
  sub_of_le h.le_end h.end_lt

theorem Aligned.advance (h : Aligned pipe) {n : ℕ} (hn : pipe.currentReadPos + n ≤ pipe.endByte) :
    Aligned (pipe.advance n) where
  fault := h.fault
  pos := by simp [UploadPostDataPipe.advance, h.pos]
  le_end := hn
  end_le := h.end_le
  end_lt := h.end_lt

theorem Aligned.chunk_at_end (h : Aligned pipe) (hend : pipe.currentReadPos = pipe.endByte) :
    pipe.retreivePostDataChunk = none := by
  have hzero : sub 64 pipe.endByte pipe.currentReadPos = 0 := by rw [h.remaining]; omega
  simp [retreivePostDataChunk, h.reposition, hzero]

/-- Before the end the next buffer is the next bytes of the range. -/
theorem Aligned.chunk (h : Aligned pipe) (hlt : pipe.currentReadPos < pipe.endByte) {n : ℕ}
    (hn : n = min (1024 * 8) (pipe.endByte - pipe.currentReadPos)) :
    pipe.retreivePostDataChunk =
      some (slice pipe.file.content (pipe.currentReadPos, pipe.currentReadPos + n),
        pipe.advance n) := by
  have hread : pipe.file.read n = (slice pipe.file.content
      (pipe.currentReadPos, pipe.currentReadPos + n), none,
      { pipe.file with pos := pipe.file.pos + n }) := by
    rw [ FileIO.read_slice h.fault (by have := h.end_le; have := h.pos; omega), h.pos]
  have hpos : trunc 64 (pipe.currentReadPos + n) = pipe.currentReadPos + n :=
    trunc_of_lt (by have := h.end_lt; omega)
  simp only [retreivePostDataChunk, h.reposition, h.remaining, ← hn, hread, hpos]
  rw [if_neg (by omega)]
  rfl

/-- The buffers of an aligned pipe are the rest of its range. -/
theorem Aligned.drain (fuel : ℕ) (h : Aligned pipe)
    (hfuel : pipe.endByte - pipe.currentReadPos < fuel) :
    pipe.drain fuel = some (slice pipe.file.content (pipe.currentReadPos, pipe.endByte)) := by
  induction fuel generalizing pipe with
  | zero => omega
  | succ fuel ih =>
    rcases Nat.eq_or_lt_of_le h.le_end with hend | hlt
    · rw [UploadPostDataPipe.drain, h.chunk_at_end hend, hend]
      simp [slice]
    · set n := min (1024 * 8) (pipe.endByte - pipe.currentReadPos) with hn
      have hle : pipe.currentReadPos + n ≤ pipe.endByte := by omega
      have hrest := ih (h.advance hle) (by simp only [UploadPostDataPipe.advance]; omega)
      rw [UploadPostDataPipe.drain, h.chunk hlt hn]
      simp only
      rw [hrest, Option.map_some]
      exact congrArg some (slice_append _ (Nat.le_add_right _ _) hle)

theorem Aligned.body (h : Aligned pipe) :
    pipe.body = some (slice pipe.file.content (pipe.currentReadPos, pipe.endByte)) :=
  h.drain _ (by have := h.end_le; omega)

end UploadPostDataPipe

end MediafireSdk.Uploader
