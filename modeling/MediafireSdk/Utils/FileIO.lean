import MediafireSdk.Lib.Ranges
import MediafireSdk.Lib.Words

/-! Files opened for reading (`utils/fileio.cpp`) over the stdio calls they wrap.
A stream has a content, a position and possibly a first byte the medium cannot
deliver. `fread` is short only at the end of the file or at such a byte, and
`fseeko` takes a signed 64-bit offset and rejects a negative target. -/

namespace MediafireSdk.Utils

open Ranges Words

/-- `file_io_error`. -/
inductive FileIoError where
  | unknownError | endOfFile | streamError | lineTooLong | notEnoughMemory | bufferTooLarge
  | fileModified
  deriving DecidableEq, Repr

inductive SeekAnchor where
  | current | beginning | «end»
  deriving DecidableEq, Repr

structure FileIO where
  content : List UInt8
  fault : Option ℕ := none
  pos : ℕ := 0
  deriving DecidableEq, Repr

namespace FileIO

/-- The bytes before the fault. -/
def readable (file : FileIO) : List UInt8 :=
  match file.fault with
  | none => file.content
  | some k => file.content.take k

/-- `Read` with an error pointer: the bytes, the error, and the stream afterwards. -/
def read (file : FileIO) (bufferSize : ℕ) : List UInt8 × Option FileIoError × FileIO :=
  let bytes := (file.readable.drop file.pos).take bufferSize
  let error :=
    if bytes.length = bufferSize then none
    else if file.readable.length = file.content.length then some .endOfFile
    else some .streamError
  (bytes, error, { file with pos := file.pos + bytes.length })

/-- `Seek`; the offset is a `uint64_t` that `fseeko` reads as signed. -/
def seek (file : FileIO) (anchor : SeekAnchor) (offset : ℕ) : Option FileIoError × FileIO :=
  let base : ℕ := match anchor with
    | .current => file.pos
    | .beginning => 0
    | .end => file.content.length
  let target : ℤ := base + signed 64 offset
  if target < 0 then (some .unknownError, file)
  else (none, { file with pos := target.toNat })

def tell (file : FileIO) : ℕ := file.pos

/-- A seek from the beginning to a position of the signed range succeeds. -/
theorem seek_beginning (file : FileIO) {offset : ℕ} (h : offset < 2 ^ 63) :
    file.seek .beginning offset = (none, { file with pos := offset }) := by
  have hs : signed 64 offset = offset := signed_of_lt (by omega)
  simp [seek, hs]

/-- A read inside a file without fault returns the next bytes and no error. -/
theorem read_slice {file : FileIO} (hf : file.fault = none) {bufferSize : ℕ}
    (h : file.pos + bufferSize ≤ file.content.length) :
    file.read bufferSize =
      (slice file.content (file.pos, file.pos + bufferSize), none,
        { file with pos := file.pos + bufferSize }) := by
  have hr : file.readable = file.content := by simp [readable, hf]
  have hs : (file.content.drop file.pos).take bufferSize =
      slice file.content (file.pos, file.pos + bufferSize) := by
    rw [slice_eq, Nat.add_sub_cancel_left]
  have hl : (slice file.content (file.pos, file.pos + bufferSize)).length = bufferSize := by
    rw [length_slice h]; simp
  simp only [read, hr, hs, hl, ↓reduceIte]

theorem readable_initial (file : FileIO) : file.readable <+: file.content := by
  unfold readable
  split
  · exact List.prefix_rfl
  · exact List.take_prefix _ _

/-- Bytes that can all be read are returned, without an error. -/
theorem read_of_le (file : FileIO) (bufferSize : ℕ)
    (h : file.pos + bufferSize ≤ file.readable.length) :
    file.read bufferSize =
      (slice file.content (file.pos, file.pos + bufferSize), none,
        { file with pos := file.pos + bufferSize }) := by
  have hbytes : (file.readable.drop file.pos).take bufferSize =
      slice file.content (file.pos, file.pos + bufferSize) := by
    rw [← slice_of_prefix file.readable_initial h, slice_eq, Nat.add_sub_cancel_left]
  have hlength : (slice file.content (file.pos, file.pos + bufferSize)).length = bufferSize := by
    rw [length_slice (h.trans file.readable_initial.length_le), Nat.add_sub_cancel_left]
  simp only [read, hbytes, hlength, if_true]

/-- Otherwise there is one. -/
theorem read_of_lt (file : FileIO) (bufferSize : ℕ) (hpos : 0 < bufferSize)
    (h : file.readable.length < file.pos + bufferSize) :
    ∃ bytes error file', file.read bufferSize = (bytes, some error, file') := by
  have hlength : ((file.readable.drop file.pos).take bufferSize).length ≠ bufferSize := by
    rw [List.length_take, List.length_drop]
    omega
  simp only [read, if_neg hlength]
  split_ifs <;> exact ⟨_, _, _, rfl⟩

end FileIO

end MediafireSdk.Utils
