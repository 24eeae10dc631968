import MediafireSdk.Uploader.Machine

/-! The asserts of `SetBitmap`, and `UpdateBitmap` (`detail/upload_state_machine.hpp`). Both
walk over the bits of the words of a bitmap. `SetBitmap` asserts once for each word that a
chunk is left for it, `UpdateBitmap` once for each bit, before it looks whether all bits are
used. -/

namespace MediafireSdk.Uploader

open Words

/-! ### SetBitmap -/

/-- The asserts of `SetBitmap`: before each word, and at the end of the function. -/
def setBitmapAsserts (chunks : ℕ) : (states : List ChunkState) → (bitmap : List ℕ) → Bool
  | states, [] =>
    (states ++ List.replicate (chunks - states.length) ChunkState.needsUpload).length == chunks
  | states, word :: bitmap =>
    decide (states.length < chunks) &&
      setBitmapAsserts chunks (pushBits chunks word 16 1 states) bitmap

theorem setBitmapAsserts_iff (chunks : ℕ) (done rest : List ℕ) :
    setBitmapAsserts chunks (bitStates (done ++ rest) (min chunks (16 * done.length))) rest ↔
      rest = [] ∨ 16 * (done ++ rest).length < chunks + 16 := by
  induction rest generalizing done with
  | nil => simp [setBitmapAsserts]
  | cons word rest ih =>
    have hword := pushBits_word chunks done word rest
    rw [setBitmapAsserts, hword]
    have hrest := ih (done ++ [word])
    simp only [List.append_assoc, List.singleton_append, List.length_append, List.length_cons,
      List.length_nil] at hrest
    simp only [length_bitStates, Bool.and_eq_true, decide_eq_true_eq, List.length_append,
      List.length_cons, reduceCtorEq, false_or]
    rw [Nat.zero_add] at hrest
    rw [hrest]
    cases rest with
    | nil => simp; omega
    | cons next rest => simp; omega

/-! ### UpdateBitmap -/

/-- The inner loop of `UpdateBitmap` over one word, `bits` iterations left; `none` is a failed
assert. -/
def updateBits (chunks word : ℕ) :
    (bits mask pos : ℕ) → List ChunkState → Option (ℕ × List ChunkState)
  | 0, _, pos, states => some (pos, states)
  | bits + 1, mask, pos, states =>
    if pos < states.length then
      if pos = chunks then some (pos, states)
      else
        updateBits chunks word bits (trunc 16 (mask <<< 1)) (trunc 32 (pos + 1))
          (if mask &&& word ≠ 0 ∧ states[pos]? = some .needsUpload then states.set pos .uploaded
            else states)
    else none

def updateBitmap (chunks : ℕ) (bitmap : List ℕ) (states : List ChunkState) :
    Option (List ChunkState) :=
  if states = [] then none
  else
    (bitmap.foldlM (fun (pos, states) word => updateBits chunks word 16 1 pos states)
      (0, states)).map Prod.snd

/-- The states with the first `k` bits of a bitmap taken over. -/
def updated (bitmap : List ℕ) (k : ℕ) (states : List ChunkState) : List ChunkState :=
  states.mapIdx fun i state =>
    if i < k ∧ bitAt bitmap i = true ∧ state = .needsUpload then .uploaded else state

@[simp] theorem length_updated (bitmap : List ℕ) (k : ℕ) (states : List ChunkState) :
    (updated bitmap k states).length = states.length := List.length_mapIdx

theorem getElem?_updated (bitmap : List ℕ) (k : ℕ) (states : List ChunkState) (i : ℕ) :
    (updated bitmap k states)[i]? = states[i]?.map fun state =>
      if i < k ∧ bitAt bitmap i = true ∧ state = .needsUpload then .uploaded else state :=
  List.getElem?_mapIdx

theorem updated_zero (bitmap : List ℕ) (states : List ChunkState) :
    updated bitmap 0 states = states := by
  refine List.ext_getElem? fun i => ?_
  rw [getElem?_updated]
  simp

theorem updated_succ (bitmap : List ℕ) (k : ℕ) (states : List ChunkState) :
    updated bitmap (k + 1) states =
      if bitAt bitmap k = true ∧ (updated bitmap k states)[k]? = some .needsUpload then
        (updated bitmap k states).set k .uploaded
      else updated bitmap k states := by
  refine List.ext_getElem? fun i => ?_
  have hk : (updated bitmap k states)[k]? = states[k]? := by
    rw [getElem?_updated]
    simp
  rw [hk]
  rcases eq_or_ne i k with rfl | hne
  · rw [getElem?_updated]
    cases hstate : states[i]? with
    | none =>
      rw [if_neg (by simp), getElem?_updated, hstate]
      rfl
    | some state =>
      have hlt : i < states.length := (List.getElem?_eq_some_iff.mp hstate).1
      split_ifs with hset
      · rw [List.getElem?_set_self (by simpa using hlt)]
        simp_all
      · rw [getElem?_updated, hstate]
        simp_all
  · have hlt : i < k + 1 ↔ i < k := by omega
    have hother : ((updated bitmap k states).set k .uploaded)[i]? = (updated bitmap k states)[i]? :=
      List.getElem?_set_ne hne.symm
    split_ifs
    · simp only [hother, getElem?_updated, hlt]
    · simp only [getElem?_updated, hlt]

section

variable {chunks : ℕ} {states : List ChunkState} (hlength : states.length = chunks)
  (hchunks : chunks < 2 ^ 32)

include hlength hchunks

/-- A word is taken over unless the states end inside it. -/
theorem updateBits_updated (word : ℕ) (bitmap : List ℕ) (bits : ℕ) :
    ∀ (i k mask : ℕ), i + bits = 16 → k ≤ chunks → (0 < bits → mask = 2 ^ i) →
      (∀ j < bits, bitAt bitmap (k + j) = word.testBit (i + j)) →
      updateBits chunks word bits mask k (updated bitmap k states) =
        if k + bits ≤ chunks then some (k + bits, updated bitmap (k + bits) states) else none := by
  induction bits with
  | zero =>
    intro i k mask _ hk _ _
    rw [updateBits, Nat.add_zero, if_pos hk]
  | succ bits ih =>
    intro i k mask hi hk hmask hbits
    rw [updateBits, length_updated, hlength]
    rcases eq_or_lt_of_le hk with rfl | hlt
    · rw [if_neg (lt_irrefl _), if_neg (by omega)]
    · have hbit : mask &&& word ≠ 0 ↔ bitAt bitmap k = true := by
        rw [hmask (by omega), Nat.two_pow_and, show bitAt bitmap k = word.testBit i from
          hbits 0 (by omega)]
        cases word.testBit i <;> simp
      have hnext : 0 < bits → trunc 16 (mask <<< 1) = 2 ^ (i + 1) := by
        intro hpos
        rw [hmask (by omega), Nat.shiftLeft_eq, pow_one, ← pow_succ]
        exact trunc_of_lt (Nat.pow_lt_pow_right (by norm_num) (by omega))
      have hpos : trunc 32 (k + 1) = k + 1 := trunc_of_lt (by omega)
      simp only [if_pos hlt, if_neg hlt.ne, hbit, ← updated_succ]
      rw [hpos, ih (i + 1) (k + 1) _ (by omega) (by omega) hnext ?_]
      · rw [show k + 1 + bits = k + (bits + 1) by omega]
      · intro j hj
        rw [show k + 1 + j = k + (j + 1) by omega, show i + 1 + j = i + (j + 1) by omega]
        exact hbits (j + 1) (by omega)

theorem foldlM_updateBits (done rest : List ℕ) (hdone : 16 * done.length ≤ chunks) :
    rest.foldlM (fun (pos, states) word => updateBits chunks word 16 1 pos states)
        (16 * done.length, updated (done ++ rest) (16 * done.length) states) =
      if 16 * (done ++ rest).length ≤ chunks then
        some (16 * (done ++ rest).length,
          updated (done ++ rest) (16 * (done ++ rest).length) states)
      else none := by
  induction rest generalizing done with
  | nil => simp [hdone]
  | cons word rest ih =>
    have hword := updateBits_updated hlength hchunks word (done ++ word :: rest) 16 0
      (16 * done.length) 1 rfl hdone (fun _ => rfl) fun j hj => by
        rw [bitAt, show (16 * done.length + j) / 16 = done.length by omega,
          show (16 * done.length + j) % 16 = j by omega]
        simp
    rw [List.foldlM_cons]
    dsimp only
    rw [hword]
    by_cases hfits : 16 * done.length + 16 ≤ chunks
    · have hnext := ih (done ++ [word]) (by simp; omega)
      rw [if_pos hfits]
      simpa [Nat.mul_succ] using hnext
    · rw [if_neg hfits, if_neg (by simp; omega)]
      rfl

/-- The asserts hold exactly when no word reaches beyond the states. -/
theorem updateBitmap_eq (hpos : 0 < chunks) (bitmap : List ℕ) :
    updateBitmap chunks bitmap states =
      if 16 * bitmap.length ≤ chunks then some (updated bitmap (16 * bitmap.length) states)
      else none := by
  have hne : states ≠ [] := List.ne_nil_of_length_pos (hlength ▸ hpos)
  have hfold := foldlM_updateBits hlength hchunks [] bitmap (Nat.zero_le _)
  simp only [List.length_nil, Nat.mul_zero, List.nil_append, updated_zero] at hfold
  rw [updateBitmap, if_neg hne, hfold]
  split_ifs <;> rfl

end

/-! ### A bitmap for a number of chunks -/

/-- Word `i / 16` exists and has bit `i % 16` set. -/
def BitSet (bitmap : List ℕ) (i : ℕ) : Prop :=
  ∃ word, bitmap[i / 16]? = some word ∧ word.testBit (i % 16) = true

theorem bitSet_iff (bitmap : List ℕ) (i : ℕ) : BitSet bitmap i ↔ bitAt bitmap i = true := by
  unfold BitSet bitAt
  cases hword : bitmap[i / 16]? <;> simp [List.getD, hword]

/-- What the two functions are expected to do with the words for a file of `chunks` chunks. -/
structure DecodesBitmap (chunks : ℕ) (bitmap : List ℕ) : Prop where
  set : ∃ states, setBitmap chunks bitmap = some states ∧ states.length = chunks ∧
    ∀ i < chunks, (BitSet bitmap i → states[i]? = some .uploaded) ∧
      (¬ BitSet bitmap i → states[i]? = some .needsUpload)
  setAsserts : setBitmapAsserts chunks [] bitmap = true
  update : ∀ states, states.length = chunks → ∃ states', updateBitmap chunks bitmap states =
    some states' ∧ states'.length = chunks ∧ ∀ i < chunks,
      (BitSet bitmap i ∧ states[i]? = some .needsUpload → states'[i]? = some .uploaded) ∧
      (¬ (BitSet bitmap i ∧ states[i]? = some .needsUpload) → states'[i]? = states[i]?)
  again : ∀ states, setBitmap chunks bitmap = some states →
    updateBitmap chunks bitmap states = some states

theorem updated_bitStates (bitmap : List ℕ) (k chunks : ℕ) :
    updated bitmap k (bitStates bitmap chunks) = bitStates bitmap chunks := by
  refine List.ext_getElem? fun i => ?_
  rw [getElem?_updated]
  rcases lt_or_ge i chunks with hlt | hle
  · rw [getElem?_bitStates bitmap hlt]
    cases bitAt bitmap i <;> simp [chunkStateOf]
  · rw [List.getElem?_eq_none (by simpa using hle)]
    rfl

theorem not_bitSet_of_le {bitmap : List ℕ} {i : ℕ} (h : 16 * bitmap.length ≤ i) :
    ¬ BitSet bitmap i := by
  rintro ⟨word, hword, -⟩
  have hlt := (List.getElem?_eq_some_iff.mp hword).1
  omega

theorem decodesBitmap_iff {chunks : ℕ} (hpos : 1 ≤ chunks) (bitmap : List ℕ) :
    DecodesBitmap chunks bitmap ↔ 16 * bitmap.length ≤ chunks ∧ chunks < 2 ^ 32 := by
  constructor
  · intro h
    obtain ⟨states, hset, hlength, -⟩ := h.set
    have hchunks := (setBitmap_eq_some_iff.mp hset).1
    have hupdate := h.again states hset
    rw [updateBitmap_eq hlength hchunks hpos] at hupdate
    split_ifs at hupdate with hwords
    exact ⟨hwords, hchunks⟩
  · rintro ⟨hwords, hchunks⟩
    have hset : setBitmap chunks bitmap = some (bitStates bitmap chunks) :=
      setBitmap_eq_some_iff.mpr ⟨hchunks, rfl⟩
    refine ⟨⟨_, hset, length_bitStates _ _, fun i hi => ?_⟩, ?_, fun states hlength => ?_, ?_⟩
    · rw [bitSet_iff, getElem?_bitStates bitmap hi]
      cases bitAt bitmap i <;> simp [chunkStateOf]
    · have hasserts := (setBitmapAsserts_iff chunks [] bitmap).mpr (.inr (by simp; omega))
      simpa [bitStates] using hasserts
    · refine ⟨_, (updateBitmap_eq hlength hchunks hpos bitmap).trans (if_pos hwords), by simpa,
        fun i hi => ?_⟩
      obtain ⟨state, hstate⟩ : ∃ state, states[i]? = some state :=
        ⟨_, List.getElem?_eq_getElem (by omega)⟩
      have hbit : i < 16 * bitmap.length ∧ bitAt bitmap i = true ↔ BitSet bitmap i := by
        rw [bitSet_iff, and_iff_right_iff_imp, ← bitSet_iff]
        exact fun h => not_le.mp fun hle => not_bitSet_of_le hle h
      rw [getElem?_updated, hstate]
      simp only [Option.map_some, Option.some.injEq]
      rw [← hbit, and_assoc]
      exact ⟨fun h => if_pos h, fun h => if_neg h⟩
    · intro states hstates
      obtain ⟨-, rfl⟩ := setBitmap_eq_some_iff.mp hstates
      rw [updateBitmap_eq (length_bitStates _ _) hchunks hpos, if_pos hwords, updated_bitStates]

theorem decodesBitmap_sixteen : 1 ≤ 16 ∧ (DecodesBitmap 16 [5] ↔ 16 * 1 ≤ 16 ∧ 16 < 2 ^ 32) :=
  ⟨by decide, decodesBitmap_iff (by decide) [5]⟩

/-- One word for two chunks, which is what a server sends. -/
theorem not_decodesBitmap_two : ¬ DecodesBitmap 2 [1] := by
  intro h
  obtain ⟨states', hupdate, -⟩ := h.update [.uploaded, .needsUpload] rfl
  have hassert : updateBitmap 2 [1] [.uploaded, .needsUpload] = none := by decide
  exact absurd (hassert.symm.trans hupdate) (by simp)

end MediafireSdk.Uploader
