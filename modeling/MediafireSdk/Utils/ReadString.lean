import MediafireSdk.Lib.Steps
import MediafireSdk.Utils.FileIO

/-! `FileIO::ReadString` (`fileio.cpp`). The buffer grows by a first block that the size of the
file suggests and then by blocks of 64 MB, and each block is read behind the ones before. The
error pointer is never null. -/

namespace MediafireSdk.Utils.FileIO

open Steps Words

/-- `skDefaultBlockSize`. -/
def defaultBlockSize : ℕ := 64 * 2 ^ 20

/-- What `std::string::resize` throws. -/
inductive AllocationError where
  | badAlloc | lengthError
  deriving DecidableEq, Repr

def AllocationError.readError : AllocationError → FileIoError
  | badAlloc => .notEnoughMemory
  | lengthError => .bufferTooLarge

/-- The variables of `ReadString`. `overrun` says that a read may have gone past the buffer. -/
structure Reading where
  file : FileIO
  buffer : List UInt8 := []
  totalBytesRead : ℕ := 0
  readError : Option FileIoError := none
  readSize : ℕ
  overrun : Bool := false
  deriving DecidableEq, Repr

/-- `std::string::resize`. -/
def resize (buffer : List UInt8) (size : ℕ) : List UInt8 :=
  buffer.take size ++ List.replicate (size - buffer.length) 0

/-- The buffer with bytes written over it. -/
def overwrite (buffer : List UInt8) (pos : ℕ) (bytes : List UInt8) : List UInt8 :=
  buffer.take pos ++ bytes ++ buffer.drop (pos + bytes.length)

namespace Reading

/-- `size_hint_` is what `Open` has seen of the size of the file. -/
def start (file : FileIO) (sizeHint desiredBytes : ℕ) : Reading where
  file
  readSize := min desiredBytes (trunc 64 (sizeHint + 1))

/-- The loop; `allocation` is what a resize throws. -/
def step (allocation : ℕ → Option AllocationError) (desiredBytes : ℕ) (s : Reading) :
    Option Reading :=
  if s.readError = none ∧ s.totalBytesRead < desiredBytes then
    let size := s.buffer.length + s.readSize
    match allocation size with
    | some error => some { s with readError := some error.readError }
    | none =>
      let (bytes, readError, file) := s.file.read s.readSize
      let totalBytesRead := s.totalBytesRead + bytes.length
      some
        { file, totalBytesRead, readError
          buffer := overwrite (resize s.buffer size) s.totalBytesRead bytes
          readSize := min (desiredBytes - totalBytesRead) defaultBlockSize
          overrun := s.overrun || size < s.totalBytesRead + s.readSize }
  else none

/-- The string that is returned. -/
def result (s : Reading) : List UInt8 := resize s.buffer s.totalBytesRead

end Reading

/-- What the stream has left to deliver. -/
def remaining (file : FileIO) : List UInt8 := file.readable.drop file.pos

/-- What a call has done in the end. -/
structure ReadsPromised (file : FileIO) (desiredBytes : ℕ) (s : Reading) : Prop where
  result : s.result = file.remaining.take desiredBytes
  position : s.file = { file with pos := file.pos + s.result.length }
  endOfFile : s.readError = some .endOfFile ↔
    file.remaining.length < desiredBytes ∧ file.readable = file.content
  streamError : s.readError = some .streamError ↔
    file.remaining.length < desiredBytes ∧ file.readable ≠ file.content
  noError : s.readError = none ↔ desiredBytes ≤ file.remaining.length
  inBounds : s.overrun = false

/-! ### The buffer -/

theorem resize_of_le {buffer : List UInt8} {size : ℕ} (h : buffer.length ≤ size) :
    resize buffer size = buffer ++ List.replicate (size - buffer.length) 0 := by
  rw [resize, List.take_of_length_le h]

theorem resize_append (bytes rest : List UInt8) : resize (bytes ++ rest) bytes.length = bytes := by
  simp [resize]

/-- Bytes written behind what is in a buffer that has been grown. -/
theorem overwrite_resize {buffer bytes : List UInt8} {size : ℕ}
    (h : buffer.length + bytes.length ≤ size) :
    overwrite (resize buffer size) buffer.length bytes =
      buffer ++ bytes ++ List.replicate (size - buffer.length - bytes.length) 0 := by
  rw [overwrite, resize_of_le (by omega), List.take_left']
  · rw [List.drop_append, List.drop_of_length_le (by omega), List.drop_replicate, List.nil_append]
    simp only [Nat.add_sub_cancel_left]
  · rfl

/-! ### The loop -/

/-- Blocks have been read so far, each of them as large as asked for. -/
structure Progress (file : FileIO) (desiredBytes : ℕ) (s : Reading) : Prop where
  source : s.file = { file with pos := file.pos + s.buffer.length }
  buffer : s.buffer <+: file.remaining
  totalBytesRead : s.totalBytesRead = s.buffer.length
  le : s.buffer.length ≤ desiredBytes
  readError : s.readError = none
  readSize : s.buffer.length < desiredBytes →
    0 < s.readSize ∧ s.buffer.length + s.readSize ≤ desiredBytes
  inBounds : s.overrun = false

section

variable {file : FileIO} {allocation : ℕ → Option AllocationError} {desiredBytes : ℕ}
  {s : Reading}

theorem progress_start {sizeHint : ℕ} (hhint : sizeHint < 2 ^ 64 - 1) :
    Progress file desiredBytes (Reading.start file sizeHint desiredBytes) := by
  have hblock : trunc 64 (sizeHint + 1) = sizeHint + 1 := trunc_of_lt (by omega)
  refine ⟨rfl, List.nil_prefix, rfl, Nat.zero_le _, rfl, fun hlt => ?_, rfl⟩
  simp only [Reading.start, hblock, List.length_nil] at hlt ⊢
  omega

/-- Where everything desired has been read the loop ends. -/
theorem Progress.promised (h : Progress file desiredBytes s)
    (hdone : s.buffer.length = desiredBytes) : ReadsPromised file desiredBytes s := by
  have hlength := h.buffer.length_le
  have hall : s.result = s.buffer := by
    rw [Reading.result, h.totalBytesRead, resize_of_le le_rfl, Nat.sub_self, List.replicate_zero,
      List.append_nil]
  refine ⟨?_, hall ▸ h.source, ?_, ?_, ?_, h.inBounds⟩
  · rw [hall, ← hdone]
    exact List.prefix_iff_eq_take.mp h.buffer
  · exact iff_of_false (by rw [h.readError]; nofun) fun hshort => by omega
  · exact iff_of_false (by rw [h.readError]; nofun) fun hshort => by omega
  · exact iff_of_true h.readError (by omega)

/-- What one pass of the loop does: a whole block, or the rest of the stream and an error. -/
theorem Progress.step (hallocation : ∀ size ≤ desiredBytes, allocation size = none)
    (h : Progress file desiredBytes s) (hlt : s.buffer.length < desiredBytes) :
    ∃ t, s.step allocation desiredBytes = some t ∧
      (Progress file desiredBytes t ∧ s.buffer.length < t.buffer.length ∨
        ReadsPromised file desiredBytes t ∧ t.readError ≠ none) := by
  obtain ⟨hpos, hsize⟩ := h.readSize hlt
  obtain ⟨rest, hrest⟩ := h.buffer
  have hleft : s.file.readable.drop s.file.pos = rest := by
    have hreadable : s.file.readable = file.readable := by rw [h.source]; rfl
    rw [hreadable, h.source, ← List.drop_drop]
    show file.remaining.drop s.buffer.length = rest
    rw [← hrest, List.drop_left]
  have hread : s.file.read s.readSize =
      (rest.take s.readSize,
        if (rest.take s.readSize).length = s.readSize then none
        else if file.readable.length = file.content.length then some .endOfFile
        else some .streamError,
        { file with pos := file.pos + (s.buffer ++ rest.take s.readSize).length }) := by
    rw [read, hleft, h.source, List.length_append, Nat.add_assoc]
    rfl
  have hbuffer : overwrite (resize s.buffer (s.buffer.length + s.readSize)) s.buffer.length
      (rest.take s.readSize) = s.buffer ++ rest.take s.readSize ++
        List.replicate (s.readSize - (rest.take s.readSize).length) 0 := by
    rw [overwrite_resize (by rw [List.length_take]; omega), Nat.add_sub_cancel_left]
  refine ⟨_, by
    rw [Reading.step, if_pos ⟨h.readError, by rw [h.totalBytesRead]; exact hlt⟩]
    simp only [hallocation _ hsize, hread, h.totalBytesRead, hbuffer, h.inBounds]
    rfl, ?_⟩
  have htotal : (s.buffer ++ rest.take s.readSize).length =
      s.buffer.length + (rest.take s.readSize).length := List.length_append
  by_cases hwhole : (rest.take s.readSize).length = s.readSize
  · left
    simp only [hwhole, Nat.sub_self, List.replicate_zero, List.append_nil, if_true]
    refine ⟨⟨rfl, ?_, ?_, ?_, rfl, fun hmore => ?_, ?_⟩, ?_⟩
    · rw [← hrest]
      exact (List.prefix_append_right_inj _).mpr (List.take_prefix _ _)
    · simp only [htotal, hwhole]
    · simp only [htotal, hwhole]
      exact hsize
    · simp only [htotal, hwhole, defaultBlockSize] at hmore ⊢
      omega
    · simp
    · simp only [htotal]
      omega
  · right
    have hshort : rest.length < s.readSize := by
      rw [List.length_take] at hwhole
      omega
    have htake : rest.take s.readSize = rest := List.take_of_length_le hshort.le
    have hremaining : file.remaining.length < desiredBytes := by
      rw [← hrest, List.length_append]
      omega
    have hresult : resize (s.buffer ++ rest ++ List.replicate (s.readSize - rest.length) 0)
        (s.buffer.length + rest.length) = file.remaining := by
      rw [← List.length_append, resize_append, hrest]
    have hwhole : file.remaining.take desiredBytes = file.remaining :=
      List.take_of_length_le hremaining.le
    have hsame : file.readable.length = file.content.length ↔ file.readable = file.content :=
      ⟨file.readable_initial.eq_of_length, fun heq => by rw [heq]⟩
    simp only [htake, if_neg hshort.ne, hsame]
    refine ⟨⟨?_, ?_, ?_, ?_, ?_, ?_⟩, ?_⟩
    · simp only [Reading.result, hresult, hwhole]
    · simp only [Reading.result, hresult]
      rw [hrest]
    · split_ifs with heq <;> simp [hremaining, heq]
    · split_ifs with heq <;> simp [hremaining, heq]
    · split_ifs <;> simpa using hremaining
    · simp
    · split_ifs <;> simp

theorem Progress.ends (hallocation : ∀ size ≤ desiredBytes, allocation size = none)
    (h : Progress file desiredBytes s) :
    ∃ t, Ends (Reading.step allocation desiredBytes) s t ∧ ReadsPromised file desiredBytes t := by
  generalize hleft : desiredBytes - s.buffer.length = left
  induction left using Nat.strong_induction_on generalizing s with
  | _ left ih =>
    have hle := h.le
    by_cases hdone : s.buffer.length = desiredBytes
    · refine ⟨s, ⟨.refl, ?_⟩, h.promised hdone⟩
      exact if_neg fun hgoes => by rw [h.totalBytesRead] at hgoes; omega
    · obtain ⟨t, hstep, ⟨hnext, hgrown⟩ | ⟨hpromised, herror⟩⟩ := h.step hallocation (by omega)
      · obtain ⟨u, hends, hpromised⟩ := ih _ (by omega) hnext rfl
        exact ⟨u, (Reaches.of_step hstep).ends hends, hpromised⟩
      · exact ⟨t, ⟨.of_step hstep, if_neg fun hgoes => herror hgoes.1⟩, hpromised⟩

end

/-- A call ends with what it promises, whatever the size of the file was when it was opened. -/
theorem readString_promised (file : FileIO) {sizeHint desiredBytes : ℕ}
    (hhint : sizeHint < 2 ^ 64 - 1) (allocation : ℕ → Option AllocationError)
    (hallocation : ∀ size ≤ desiredBytes, allocation size = none) :
    ∃ s, Ends (Reading.step allocation desiredBytes) (.start file sizeHint desiredBytes) s ∧
      ReadsPromised file desiredBytes s :=
  (progress_start hhint).ends hallocation

theorem readString_fiveOfThree : ∃ s, Ends (Reading.step (fun _ => none) 5)
    (.start { content := [1, 2, 3, 4], pos := 1 } 0 5) s ∧
      ReadsPromised { content := [1, 2, 3, 4], pos := 1 } 5 s :=
  readString_promised _ (by decide) _ fun _ _ => rfl

end MediafireSdk.Utils.FileIO
