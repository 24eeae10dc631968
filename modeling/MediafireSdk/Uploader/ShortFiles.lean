import MediafireSdk.Uploader.PostDataPipe

/-! Files that fall short while they are sent. Before any call of `RetreivePostDataChunk` the file
may have become shorter, or a byte of it unreadable. A read that falls short moves the stream and
not the read position; the pipe seeks back before it reads again. -/

namespace MediafireSdk.Uploader

open Ranges Words Utils

/-- What a disk has left of a file: its length, and the first byte that cannot be read. -/
structure Disk where
  length : ℕ
  fault : Option ℕ := none
  deriving DecidableEq, Repr

namespace Disk

def file (disk : Disk) (content : List UInt8) (pos : ℕ) : FileIO where
  content := content.take disk.length
  fault := disk.fault
  pos := pos

/-- How many bytes of the content can be read. -/
def readable (disk : Disk) (content : List UInt8) : ℕ := (disk.file content 0).readable.length

variable (disk : Disk) (content : List UInt8)

theorem readable_le : disk.readable content ≤ content.length :=
  (disk.file content 0).readable_initial.length_le.trans (List.length_take_le' _ _)

theorem slice_file {pos : ℕ} {r : Range} (h : r.2 ≤ disk.readable content) :
    slice (disk.file content pos).content r = slice content r :=
  slice_of_prefix (List.take_prefix _ _)
    (h.trans (disk.file content 0).readable_initial.length_le)

end Disk

namespace UploadPostDataPipe

/-- The pipe when the disk has this left. -/
def onDisk (pipe : UploadPostDataPipe) (content : List UInt8) (disk : Disk) : UploadPostDataPipe :=
  { pipe with file := disk.file content pipe.file.pos }

/-- `RetreivePostDataChunk` with the pipe behind a bad pointer as well. -/
def chunk (pipe : UploadPostDataPipe) : Option (List UInt8) × UploadPostDataPipe :=
  match pipe.reposition with
  | none => (none, pipe)
  | some file =>
    let maxBufferSize := 1024 * 8
    let remainingBytes := sub 64 pipe.endByte pipe.currentReadPos
    if remainingBytes = 0 then (none, { pipe with file := file })
    else
      let bufferSize := min maxBufferSize remainingBytes
      match file.read bufferSize with
      | (_, some _, file) => (none, { pipe with file := file })
      | (buffer, none, file) =>
        (some buffer, { pipe with
          file := file
          currentReadPos := trunc 64 (pipe.currentReadPos + bufferSize) })

theorem retreivePostDataChunk_eq_chunk (pipe : UploadPostDataPipe) :
    pipe.retreivePostDataChunk = pipe.chunk.1.map fun buffer => (buffer, pipe.chunk.2) := by
  unfold retreivePostDataChunk chunk
  cases pipe.reposition with
  | none => rfl
  | some file =>
    dsimp only
    split_ifs with hzero
    · rfl
    · rcases file.read (min (1024 * 8) (sub 64 pipe.endByte pipe.currentReadPos)) with
        ⟨buffer, _ | error, file'⟩ <;> rfl

/-- The read position is in the range, wherever the stream stands. -/
structure Within (pipe : UploadPostDataPipe) : Prop where
  start_le : pipe.startByte ≤ pipe.currentReadPos
  le_end : pipe.currentReadPos ≤ pipe.endByte
  end_lt : pipe.endByte < 2 ^ 64

/-- What the next call asks the file for. -/
def bufferSize (pipe : UploadPostDataPipe) : ℕ :=
  min (1024 * 8) (pipe.endByte - pipe.currentReadPos)

/-- The pipe behind a call that has got all that it has asked for. -/
@[simps] def behind (pipe : UploadPostDataPipe) (content : List UInt8) (disk : Disk) :
    UploadPostDataPipe :=
  { pipe with
    file := disk.file content (pipe.currentReadPos + pipe.bufferSize)
    currentReadPos := pipe.currentReadPos + pipe.bufferSize }

/-- There is something left, and the file still has all that the next call asks for. -/
def Full (pipe : UploadPostDataPipe) (content : List UInt8) (disk : Disk) : Prop :=
  pipe.currentReadPos < pipe.endByte ∧
    pipe.currentReadPos + pipe.bufferSize ≤ disk.readable content

/-- What a call does: a bad pointer, and only the stream has moved, or the next bytes. -/
inductive Retreived (pipe : UploadPostDataPipe) (content : List UInt8) (disk : Disk) :
    Option (List UInt8) × UploadPostDataPipe → Prop
  | bad (file : FileIO) : Retreived pipe content disk (none, { pipe with file := file })
  | data (hfull : pipe.Full content disk) :
      Retreived pipe content disk
        (some (slice content (pipe.currentReadPos, pipe.currentReadPos + pipe.bufferSize)),
          pipe.behind content disk)

section Calls
variable {pipe : UploadPostDataPipe} {content : List UInt8} {disk : Disk}

theorem Within.remaining (h : Within pipe) :
    sub 64 pipe.endByte pipe.currentReadPos = pipe.endByte - pipe.currentReadPos :=
  sub_of_le h.le_end h.end_lt

/-- The stream is brought to the read position, or not at all. -/
theorem reposition_cases (hlt : pipe.currentReadPos < 2 ^ 64) :
    pipe.reposition = none ∨
      pipe.reposition = some { pipe.file with pos := pipe.currentReadPos } := by
  unfold UploadPostDataPipe.reposition
  split_ifs with hpos
  · by_cases hsmall : pipe.currentReadPos < 2 ^ 63
    · exact .inr (by rw [ FileIO.seek_beginning _ hsmall])
    · have hnegative : signed 64 pipe.currentReadPos < 0 := signed_neg (by omega) hlt
      exact .inl (by simp [ FileIO.seek, hnegative])
  · exact .inr (by rw [← not_not.mp hpos]; rfl)

theorem Within.chunk_full (h : Within pipe)
    (hfile : (pipe.onDisk content disk).reposition = some (disk.file content pipe.currentReadPos))
    (hfull : pipe.Full content disk) :
    (pipe.onDisk content disk).chunk =
      (some (slice content (pipe.currentReadPos, pipe.currentReadPos + pipe.bufferSize)),
        pipe.behind content disk) := by
  obtain ⟨hlt, hread⟩ := hfull
  have hremaining : sub 64 (pipe.onDisk content disk).endByte
      (pipe.onDisk content disk).currentReadPos = pipe.endByte - pipe.currentReadPos :=
    h.remaining
  have hsize : min (1024 * 8) (pipe.endByte - pipe.currentReadPos) = pipe.bufferSize := rfl
  have hok := (disk.file content pipe.currentReadPos).read_of_le pipe.bufferSize hread
  have hbytes : slice (disk.file content pipe.currentReadPos).content
      (pipe.currentReadPos, pipe.currentReadPos + pipe.bufferSize) =
        slice content (pipe.currentReadPos, pipe.currentReadPos + pipe.bufferSize) :=
    disk.slice_file content hread
  have hpos : trunc 64 (pipe.currentReadPos + pipe.bufferSize) =
      pipe.currentReadPos + pipe.bufferSize := by
    have hend := h.end_lt
    exact trunc_of_lt (by omega)
  have hok' : (disk.file content pipe.currentReadPos).read pipe.bufferSize =
      (slice content (pipe.currentReadPos, pipe.currentReadPos + pipe.bufferSize), none,
        disk.file content (pipe.currentReadPos + pipe.bufferSize)) := by
    rw [hok]
    exact Prod.ext hbytes rfl
  unfold chunk
  rw [hfile]
  dsimp only
  rw [hremaining, if_neg (by omega), hsize, hok']
  simp only [behind, onDisk, hpos]

theorem Within.chunk_short (h : Within pipe)
    (hfile : (pipe.onDisk content disk).reposition = some (disk.file content pipe.currentReadPos))
    (hshort : ¬pipe.Full content disk) :
    ∃ file, (pipe.onDisk content disk).chunk = (none, { pipe with file := file }) := by
  have hremaining : sub 64 (pipe.onDisk content disk).endByte
      (pipe.onDisk content disk).currentReadPos = pipe.endByte - pipe.currentReadPos :=
    h.remaining
  have hsize : min (1024 * 8) (pipe.endByte - pipe.currentReadPos) = pipe.bufferSize := rfl
  unfold chunk
  rw [hfile]
  dsimp only
  rw [hremaining]
  split_ifs with hzero
  · exact ⟨_, rfl⟩
  · have hread : disk.readable content < pipe.currentReadPos + pipe.bufferSize :=
      not_le.mp fun hread => hshort ⟨by omega, hread⟩
    obtain ⟨bytes, error, file, hbad⟩ :=
      (disk.file content pipe.currentReadPos).read_of_lt pipe.bufferSize (by omega) hread
    rw [hsize, hbad]
    exact ⟨file, rfl⟩

theorem Within.retreived (h : Within pipe) (content : List UInt8) (disk : Disk) :
    Retreived pipe content disk (pipe.onDisk content disk).chunk := by
  have hlt : (pipe.onDisk content disk).currentReadPos < 2 ^ 64 := h.le_end.trans_lt h.end_lt
  rcases reposition_cases hlt with hnone | hfile
  · have hchunk : (pipe.onDisk content disk).chunk = (none, pipe.onDisk content disk) := by
      rw [chunk, hnone]
    rw [hchunk]
    exact .bad _
  · by_cases hfull : pipe.Full content disk
    · rw [h.chunk_full hfile hfull]
      exact .data hfull
    · obtain ⟨file, hchunk⟩ := h.chunk_short hfile hfull
      rw [hchunk]
      exact .bad file

theorem Within.behind (h : Within pipe) (content : List UInt8) (disk : Disk) :
    Within (pipe.behind content disk) where
  start_le := h.start_le.trans (Nat.le_add_right _ _)
  le_end := by
    have hle := h.le_end
    simp only [behind_currentReadPos, behind_endByte, bufferSize]
    omega
  end_lt := h.end_lt

theorem Within.onFile (h : Within pipe) (file : FileIO) : Within { pipe with file := file } :=
  ⟨h.start_le, h.le_end, h.end_lt⟩

/-- What a call gets is as long as what it asks for. -/
theorem Full.length (h : pipe.Full content disk) :
    (slice content (pipe.currentReadPos, pipe.currentReadPos + pipe.bufferSize)).length =
      pipe.bufferSize := by
  rw [length_slice (h.2.trans (disk.readable_le content)), Nat.add_sub_cancel_left]

theorem Full.pos (h : pipe.Full content disk) : 0 < pipe.bufferSize := by
  have hlt := h.1
  simp only [bufferSize]
  omega

/-- Without a seek a call gets something exactly when the file still has all that it asks for. -/
theorem Within.chunk_at (h : Within pipe) (hpos : pipe.file.pos = pipe.currentReadPos)
    (content : List UInt8) (disk : Disk) :
    (pipe.onDisk content disk).chunk.1.isSome = true ↔ pipe.Full content disk := by
  have hfile : (pipe.onDisk content disk).reposition =
      some (disk.file content pipe.currentReadPos) := by
    have htell : (pipe.onDisk content disk).file.tell =
        (pipe.onDisk content disk).currentReadPos := hpos
    rw [UploadPostDataPipe.reposition, if_neg (not_not.mpr htell), ← hpos]
    rfl
  by_cases hfull : pipe.Full content disk
  · rw [h.chunk_full hfile hfull]
    exact iff_of_true rfl hfull
  · obtain ⟨file, hchunk⟩ := h.chunk_short hfile hfull
    rw [hchunk]
    exact iff_of_false (by rintro ⟨⟩) hfull

end Calls

/-! ### Successive calls -/

/-- The buffers that successive calls return, and the pipe behind them. -/
def retreive (content : List UInt8) :
    List Disk → UploadPostDataPipe → List (List UInt8) × UploadPostDataPipe
  | [], pipe => ([], pipe)
  | disk :: disks, pipe =>
    let (buffer, pipe) := (pipe.onDisk content disk).chunk
    let (buffers, pipe) := retreive content disks pipe
    (buffer.toList ++ buffers, pipe)

/-- What successive calls return, those behind bad pointers as well. -/
structure Retreives (pipe : UploadPostDataPipe) (content : List UInt8) (buffers : List (List UInt8))
    (pipe' : UploadPostDataPipe) : Prop where
  within : Within pipe'
  startByte : pipe'.startByte = pipe.startByte
  endByte : pipe'.endByte = pipe.endByte
  le : pipe.currentReadPos ≤ pipe'.currentReadPos
  flatten : buffers.flatten = slice content (pipe.currentReadPos, pipe'.currentReadPos)
  size : ∀ buffer ∈ buffers, buffer ≠ [] ∧ buffer.length ≤ 1024 * 8

theorem Within.retreives {pipe : UploadPostDataPipe} (h : Within pipe) (content : List UInt8)
    (disks : List Disk) :
    Retreives pipe content (retreive content disks pipe).1 (retreive content disks pipe).2 := by
  induction disks generalizing pipe with
  | nil => exact ⟨h, rfl, rfl, le_rfl, by simp [retreive, slice], nofun⟩
  | cons disk disks ih =>
    have hcall := h.retreived content disk
    rw [retreive]
    generalize (pipe.onDisk content disk).chunk = called at hcall ⊢
    cases hcall with
    | bad file =>
      have hrest := ih (h.onFile file)
      exact ⟨hrest.within, hrest.startByte, hrest.endByte, hrest.le, hrest.flatten, hrest.size⟩
    | data hfull =>
      have hrest := ih (h.behind content disk)
      have hle : pipe.currentReadPos ≤ pipe.currentReadPos + pipe.bufferSize :=
        Nat.le_add_right _ _
      refine ⟨hrest.within, hrest.startByte, hrest.endByte, hle.trans hrest.le, ?_, ?_⟩
      · show _ ++ (retreive content disks (pipe.behind content disk)).1.flatten = _
        rw [hrest.flatten]
        exact slice_append content hle hrest.le
      · intro buffer hmem
        rcases List.mem_cons.mp hmem with rfl | hmem
        · have hlength := hfull.length
          have hpos := hfull.pos
          have hsize : pipe.bufferSize ≤ 1024 * 8 := Nat.min_le_left _ _
          exact ⟨List.ne_nil_of_length_pos (by omega), by omega⟩
        · exact hrest.size buffer hmem

/-- The buffers up to the first bad pointer, when call `call` finds the disk `disks call`; `none`
when there are more than `fuel`. -/
def drainDisks (content : List UInt8) (disks : ℕ → Disk) :
    (fuel call : ℕ) → UploadPostDataPipe → Option (List (List UInt8))
  | 0, _, _ => none
  | fuel + 1, call, pipe =>
    match (pipe.onDisk content (disks call)).chunk with
    | (none, _) => some []
    | (some buffer, pipe) => (drainDisks content disks fuel (call + 1) pipe).map (buffer :: ·)

/-- Whether no read falls short: the calls ask for one block of the range after the other. -/
def NoneShort (pipe : UploadPostDataPipe) (content : List UInt8) (disks : ℕ → Disk) (call : ℕ) :
    Prop :=
  ∀ k, pipe.currentReadPos + 8192 * k < pipe.endByte →
    min (pipe.currentReadPos + 8192 * (k + 1)) pipe.endByte ≤ (disks (call + k)).readable content

section Drain
variable {pipe : UploadPostDataPipe} {content : List UInt8} {disks : ℕ → Disk} {call : ℕ}

theorem bufferSize_eq (pipe : UploadPostDataPipe) (h : Within pipe) :
    pipe.currentReadPos + pipe.bufferSize =
      min (pipe.currentReadPos + 8192) pipe.endByte := by
  have hle := h.le_end
  simp only [bufferSize]
  omega

/-- The blocks behind the first are those of the pipe behind it. -/
theorem block_eq {pos size last : ℕ} (h : pos + size = min (pos + 8192) last) (k : ℕ)
    (hk : pos + size + 8192 * k < last) :
    min (pos + size + 8192 * (k + 1)) last = min (pos + 8192 * (k + 1 + 1)) last := by
  omega

theorem Within.noneShort_iff (h : Within pipe) (hlt : pipe.currentReadPos < pipe.endByte) :
    NoneShort pipe content disks call ↔ pipe.Full content (disks call) ∧
      NoneShort (pipe.behind content (disks call)) content disks (call + 1) := by
  have hsize := bufferSize_eq pipe h
  constructor
  · intro hnone
    refine ⟨⟨hlt, ?_⟩, fun k hk => ?_⟩
    · simpa [hsize] using hnone 0 (by omega)
    · simp only [behind_currentReadPos, behind_endByte] at hk ⊢
      have hblock := hnone (k + 1) (by omega)
      rw [Nat.add_assoc call 1 k, Nat.add_comm 1 k, block_eq hsize k hk]
      exact hblock
  · rintro ⟨⟨-, hread⟩, hnone⟩ k hk
    cases k with
    | zero => simpa [hsize] using hread
    | succ k =>
      have hk' : pipe.currentReadPos + pipe.bufferSize + 8192 * k < pipe.endByte := by omega
      have hblock := hnone k hk'
      simp only [behind_currentReadPos, behind_endByte] at hblock
      rw [Nat.add_assoc call 1 k, Nat.add_comm 1 k, block_eq hsize k hk'] at hblock
      exact hblock

theorem noneShort_at_end (hend : pipe.endByte ≤ pipe.currentReadPos) :
    NoneShort pipe content disks call := fun k hk => by omega

/-- The calls up to the first bad pointer return a prefix of what is left of the range, and all of
it exactly when no read falls short. -/
theorem Within.drainDisks (disks : ℕ → Disk) (h : Within pipe)
    (hpos : pipe.file.pos = pipe.currentReadPos) (fuel : ℕ)
    (hfuel : pipe.endByte - pipe.currentReadPos < fuel) (call : ℕ) :
    ∃ buffers, UploadPostDataPipe.drainDisks content disks fuel call pipe = some buffers ∧
      (∀ buffer ∈ buffers, buffer.length ≤ 8192) ∧
      buffers.flatten <+: slice content (pipe.currentReadPos, pipe.endByte) ∧
      (buffers.flatten.length = pipe.endByte - pipe.currentReadPos ↔
        NoneShort pipe content disks call) := by
  induction fuel generalizing pipe call with
  | zero => omega
  | succ fuel ih =>
    have hat := h.chunk_at hpos content (disks call)
    have hcall := h.retreived content (disks call)
    rw [UploadPostDataPipe.drainDisks]
    generalize (pipe.onDisk content (disks call)).chunk = called at hat hcall ⊢
    cases hcall with
    | bad file =>
      have hshort : ¬pipe.Full content (disks call) := fun hfull => nomatch hat.mpr hfull
      refine ⟨[], rfl, nofun, List.nil_prefix, ?_⟩
      rcases Nat.eq_or_lt_of_le h.le_end with hend | hlt
      · exact iff_of_true (by simp [hend]) (noneShort_at_end hend.ge)
      · have hleft : 0 ≠ pipe.endByte - pipe.currentReadPos := by omega
        exact iff_of_false hleft fun hnone => hshort ((h.noneShort_iff hlt).mp hnone).1
    | data hfull =>
      have hlength := hfull.length
      have hsize := hfull.pos
      have hle := (h.behind content (disks call)).le_end
      obtain ⟨buffers, hrest, hlengths, hprefix, hiff⟩ := ih (h.behind content (disks call)) rfl
        (by have hlt := hfull.1; simp only [behind_currentReadPos, behind_endByte]; omega) (call + 1)
      simp only [behind_currentReadPos, behind_endByte] at hprefix hiff hle
      refine ⟨_ :: buffers, congrArg (Option.map _) hrest, fun buffer hmem => ?_, ?_, ?_⟩
      · rcases List.mem_cons.mp hmem with rfl | hmem
        · exact hlength.le.trans (Nat.min_le_left _ _)
        · exact hlengths buffer hmem
      · rw [List.flatten_cons, ← slice_append content (Nat.le_add_right _ pipe.bufferSize) hle]
        exact (List.prefix_append_right_inj _).mpr hprefix
      · rw [List.flatten_cons, List.length_append, hlength, h.noneShort_iff hfull.1,
          and_iff_right hfull]
        refine Iff.trans ?_ hiff
        omega

end Drain


end UploadPostDataPipe

end MediafireSdk.Uploader
