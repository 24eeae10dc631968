import MediafireSdk.Uploader.Types
import Mathlib.Data.Nat.Bitwise

/-! Data members of `UploadStateMachine_` (`detail/upload_state_machine.hpp`) and
the member functions that compute on them: the chunk bitmap and the choice of
the next chunk. `unsigned int` and `uint32_t` counters are kept modulo `2 ^ 32`. -/

namespace MediafireSdk.Uploader

open Ranges Words

/-- The twelve states the transition table uses. -/
inductive State where
  | initial | waitForHashSignal | setupHasher | hashing | waitForUploadSignal | inUploadCheck
  | uploadFile | instantUpload | uploadChunk | pollUpload | completeWithSuccess | completeWithError
  deriving DecidableEq, Repr

/-- The `terminate_state`s. -/
def State.isTerminal : State → Bool
  | .completeWithSuccess | .completeWithError => true
  | _ => false

/-- The members read or written by a transition, with the active state of the back end.
`uploadRequest` is the chunk or simple upload whose request is held. -/
structure UploadStateMachine where
  state : State := .initial
  pathFilename : String
  cloudFileName : Option String := none
  onDuplicateAction : OnDuplicateAction := .fail
  actionToken : String := ""
  filesize : ℕ := 0
  mtime : ℤ := 0
  hash : String := ""
  chunkRanges : List Range := []
  chunkHashes : List String := []
  countState : CountState := .none
  chunkStates : List ChunkState := []
  uploadRequest : Bool := false
  uploadKey : String := ""
  deriving DecidableEq, Repr

namespace UploadStateMachine

def filename (m : UploadStateMachine) : String := m.cloudFileName.getD m.pathFilename

end UploadStateMachine

/-! ### The bitmap -/

/-- The inner loop of `SetBitmap` over one `uint16_t` word, `bits` iterations left. -/
def pushBits (chunks word : ℕ) : (bits mask : ℕ) → List ChunkState → List ChunkState
  | 0, _, states => states
  | bits + 1, mask, states =>
    if states.length = chunks then states
    else
      pushBits chunks word bits (trunc 16 (mask <<< 1))
        (states ++ [if mask &&& word ≠ 0 then .uploaded else .needsUpload])

/-- `SetBitmap` for a machine with `chunks` chunk ranges. The padding loop counts with an
`unsigned int`, which never reaches a number of chunks from `2 ^ 32` on. -/
def setBitmap (chunks : ℕ) (bitmap : List ℕ) : Option (List ChunkState) :=
  let states := bitmap.foldl (fun states word => pushBits chunks word 16 1 states) []
  if chunks < 2 ^ 32 then some (states ++ List.replicate (chunks - states.length) .needsUpload)
  else none

/-- The bit a bitmap has for a chunk. -/
def bitAt (bitmap : List ℕ) (chunkId : ℕ) : Bool :=
  (bitmap.getD (chunkId / 16) 0).testBit (chunkId % 16)

/-! ### The next chunk -/

/-- The loop of `NextChunkToUpload` that collects the incomplete chunks. -/
def incompleteChunksFrom : (chunkId : ℕ) → List ChunkState → List ℕ
  | _, [] => []
  | chunkId, state :: states =>
    if state = .needsUpload then chunkId :: incompleteChunksFrom (trunc 32 (chunkId + 1)) states
    else incompleteChunksFrom (trunc 32 (chunkId + 1)) states

/-- `NextChunkToUpload`; `pick` gives the index that the distribution over the incomplete
chunks draws. -/
def nextChunkToUpload (pick : ℕ) (states : List ChunkState) : Option ℕ :=
  let incompleteChunks := incompleteChunksFrom 0 states
  incompleteChunks[pick % incompleteChunks.length]?

/-! ### What the bitmap says -/

/-- The state a bit stands for. -/
def chunkStateOf (bit : Bool) : ChunkState := if bit then .uploaded else .needsUpload

/-- The states of the first `k` chunks of a bitmap. -/
def bitStates (bitmap : List ℕ) (k : ℕ) : List ChunkState :=
  (List.range k).map fun i => chunkStateOf (bitAt bitmap i)

@[simp] theorem length_bitStates (bitmap : List ℕ) (k : ℕ) : (bitStates bitmap k).length = k := by
  simp [bitStates]

theorem bitStates_succ (bitmap : List ℕ) (k : ℕ) :
    bitStates bitmap (k + 1) = bitStates bitmap k ++ [chunkStateOf (bitAt bitmap k)] := by
  simp [bitStates, List.range_succ]

theorem getElem?_bitStates (bitmap : List ℕ) {k i : ℕ} (h : i < k) :
    (bitStates bitmap k)[i]? = some (chunkStateOf (bitAt bitmap i)) := by
  simp [bitStates, h]

/-- The bits of a word are appended up to the number of chunks. -/
theorem pushBits_bitStates {chunks word : ℕ} (bitmap : List ℕ) (bits : ℕ) :
    ∀ (i k mask : ℕ), i + bits = 16 → k ≤ chunks → (0 < bits → mask = 2 ^ i) →
      (∀ j < bits, bitAt bitmap (k + j) = word.testBit (i + j)) →
      pushBits chunks word bits mask (bitStates bitmap k) =
        bitStates bitmap (min chunks (k + bits)) := by
  induction bits with
  | zero =>
    intro i k mask _ hk _ _
    rw [pushBits, Nat.add_zero, Nat.min_eq_right hk]
  | succ bits ih =>
    intro i k mask hi hk hmask hbits
    rw [pushBits, length_bitStates]
    by_cases hfull : k = chunks
    · rw [if_pos hfull, hfull, Nat.min_eq_left (by omega)]
    · rw [if_neg hfull, hmask (by omega)]
      have hbit : (if 2 ^ i &&& word ≠ 0 then ChunkState.uploaded else .needsUpload) =
          chunkStateOf (bitAt bitmap k) := by
        rw [Nat.two_pow_and, chunkStateOf, show bitAt bitmap k = word.testBit i from hbits 0 (by omega)]
        cases word.testBit i <;> simp
      have hnext : 0 < bits → trunc 16 (2 ^ i <<< 1) = 2 ^ (i + 1) := by
        intro hpos
        rw [Nat.shiftLeft_eq, pow_one, ← pow_succ]
        exact trunc_of_lt (Nat.pow_lt_pow_right (by norm_num) (by omega))
      rw [hbit, ← bitStates_succ, ih (i + 1) (k + 1) _ (by omega) (by omega) hnext ?_]
      · congr 1; omega
      · intro j hj
        rw [show k + 1 + j = k + (j + 1) by omega, show i + 1 + j = i + (j + 1) by omega]
        exact hbits (j + 1) (by omega)

/-- One word of a bitmap, behind the words before it. -/
theorem pushBits_word (chunks : ℕ) (done : List ℕ) (word : ℕ) (rest : List ℕ) :
    pushBits chunks word 16 1 (bitStates (done ++ word :: rest) (min chunks (16 * done.length))) =
      bitStates (done ++ word :: rest) (min chunks (16 * (done.length + 1))) := by
  by_cases hfull : chunks ≤ 16 * done.length
  · rw [Nat.min_eq_left hfull, pushBits, length_bitStates, if_pos rfl, Nat.min_eq_left (by omega)]
  · rw [Nat.min_eq_right (by omega),
      pushBits_bitStates (done ++ word :: rest) 16 0 _ 1 rfl (by omega) (fun _ => rfl) ?_]
    · rw [Nat.mul_succ]
    · intro j hj
      rw [bitAt, show (16 * done.length + j) / 16 = done.length by omega,
        show (16 * done.length + j) % 16 = j by omega]
      simp

/-- The words of a bitmap, one after the other. -/
theorem foldl_pushBits (chunks : ℕ) (done rest : List ℕ) :
    rest.foldl (fun states word => pushBits chunks word 16 1 states)
        (bitStates (done ++ rest) (min chunks (16 * done.length))) =
      bitStates (done ++ rest) (min chunks (16 * (done ++ rest).length)) := by
  induction rest generalizing done with
  | nil => simp
  | cons word rest ih =>
    rw [List.foldl_cons, pushBits_word]
    simpa using ih (done ++ [word])

/-- An installed bitmap gives every chunk the state of its bit. -/
theorem setBitmap_eq_some_iff {chunks : ℕ} {bitmap : List ℕ} {states : List ChunkState} :
    setBitmap chunks bitmap = some states ↔
      chunks < 2 ^ 32 ∧ states = bitStates bitmap chunks := by
  have hfold := foldl_pushBits chunks [] bitmap
  simp only [List.length_nil, Nat.mul_zero, Nat.min_zero, List.nil_append] at hfold
  have hpad : bitStates bitmap (min chunks (16 * bitmap.length)) ++
      List.replicate (chunks - (bitStates bitmap (min chunks (16 * bitmap.length))).length)
        .needsUpload = bitStates bitmap chunks := by
    rw [length_bitStates]
    by_cases hfull : chunks ≤ 16 * bitmap.length
    · simp [Nat.min_eq_left hfull]
    · apply List.ext_getElem?
      intro i
      rw [Nat.min_eq_right (by omega), List.getElem?_append, length_bitStates]
      split_ifs with hi
      · rw [getElem?_bitStates bitmap hi, getElem?_bitStates bitmap (by omega)]
      · by_cases hic : i < chunks
        · have hbit : bitAt bitmap i = false := by
            rw [bitAt, List.getD_eq_default _ _ (by omega), Nat.zero_testBit]
          rw [getElem?_bitStates bitmap hic, hbit, List.getElem?_replicate, if_pos (by omega)]
          rfl
        · rw [List.getElem?_eq_none (by simp; omega), List.getElem?_eq_none (by simp; omega)]
  rw [setBitmap, show ([] : List ChunkState) = bitStates bitmap 0 from rfl, hfold]
  simp only [hpad]
  split_ifs with h
  · simp only [Option.some.injEq, true_and, eq_comm, h]
  · simp only [h, false_and]

/-! ### Which chunk is next -/

theorem mem_incompleteChunksFrom {states : List ChunkState} {first chunkId : ℕ}
    (h : first + states.length ≤ 2 ^ 32) :
    chunkId ∈ incompleteChunksFrom first states ↔
      first ≤ chunkId ∧ states[chunkId - first]? = some .needsUpload := by
  induction states generalizing first with
  | nil => simp [incompleteChunksFrom]
  | cons state states ih =>
    rw [List.length_cons] at h
    have htail : chunkId ∈ incompleteChunksFrom (trunc 32 (first + 1)) states ↔
        first + 1 ≤ chunkId ∧ states[chunkId - (first + 1)]? = some .needsUpload := by
      cases states with
      | nil => simp [incompleteChunksFrom]
      | cons s states =>
        rw [List.length_cons] at h
        rw [trunc_of_lt (by omega)]
        exact ih (by rw [List.length_cons]; omega)
    rcases Nat.lt_trichotomy chunkId first with hlt | rfl | hgt
    · have hne : chunkId ≠ first := by omega
      have hnle : ¬ first + 1 ≤ chunkId := by omega
      rw [incompleteChunksFrom]
      split_ifs <;> simp [htail, hne, hnle, hlt]
    · rw [incompleteChunksFrom]
      split_ifs with hs <;> simp [htail, hs]
    · have hne : chunkId ≠ first := by omega
      have hidx : chunkId - first = (chunkId - (first + 1)) + 1 := by omega
      rw [incompleteChunksFrom, hidx, List.getElem?_cons_succ]
      split_ifs <;> simp [htail, hne, hgt.le, Nat.succ_le_of_lt hgt]

/-- The chunk picked needs its upload. -/
theorem nextChunkToUpload_some {pick : ℕ} {states : List ChunkState} {chunkId : ℕ}
    (hlen : states.length ≤ 2 ^ 32) (h : nextChunkToUpload pick states = some chunkId) :
    states[chunkId]? = some .needsUpload := by
  have hmem : chunkId ∈ incompleteChunksFrom 0 states := List.mem_of_getElem? h
  simpa using (mem_incompleteChunksFrom (by omega)).mp hmem

/-- No chunk is picked when none needs its upload, and only then. -/
theorem nextChunkToUpload_none {pick : ℕ} {states : List ChunkState}
    (hlen : states.length ≤ 2 ^ 32) :
    nextChunkToUpload pick states = none ↔ ChunkState.needsUpload ∉ states := by
  have hmem : ChunkState.needsUpload ∈ states ↔ incompleteChunksFrom 0 states ≠ [] := by
    rw [List.mem_iff_getElem?]
    constructor
    · rintro ⟨i, hi⟩
      exact List.ne_nil_of_mem ((mem_incompleteChunksFrom (by omega)).mpr ⟨Nat.zero_le i, hi⟩)
    · intro hne
      obtain ⟨i, hi⟩ := List.exists_mem_of_ne_nil _ hne
      exact ⟨i, by simpa using (mem_incompleteChunksFrom (by omega)).mp hi⟩
  rw [hmem, not_not, nextChunkToUpload]
  generalize incompleteChunksFrom 0 states = chunks
  cases chunks with
  | nil => simp
  | cons id chunks =>
    have hlt : pick % (id :: chunks).length < (id :: chunks).length := Nat.mod_lt _ (by simp)
    rw [List.getElem?_eq_getElem hlt]
    simp

end MediafireSdk.Uploader
