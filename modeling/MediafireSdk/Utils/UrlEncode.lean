import Mathlib.Tactic
import MediafireSdk.Utils.Strings

/-! Percent coding (`url_encode.cpp`). Strings are lists of bytes. The decoder counts in an
`int` of 32 bits, whose overflow has no defined outcome; the memory that it then reserves is
not part of the model. -/

namespace MediafireSdk.Utils.UrlEncode

inductive PlusEncode where
  | no | yes
  deriving DecidableEq, Repr

def requiresPercentEncoding (ch : UInt8) : Bool :=
  !((65 ≤ ch && ch ≤ 90) || (97 ≤ ch && ch ≤ 122) || (48 ≤ ch && ch ≤ 57) ||
    ch == 45 || ch == 95 || ch == 46 || ch == 126)

/-! ### The encoder -/

/-- A digit of `%X`. -/
def hexDigit (value : ℕ) : UInt8 := if value < 10 then UInt8.ofNat (48 + value)
  else UInt8.ofNat (55 + value)

/-- `"%02X"` of a byte. -/
def hexPair (ch : UInt8) : List UInt8 := [hexDigit (ch.toNat / 16), hexDigit (ch.toNat % 16)]

def encodeChar (plusEncode : PlusEncode) (ch : UInt8) : List UInt8 :=
  if ¬ requiresPercentEncoding ch then [ch]
  else if plusEncode = .yes ∧ ch = 32 then [43]
  else 37 :: hexPair ch

def urlEncodeBase (unencodedStr : List UInt8) (plusEncode : PlusEncode) : List UInt8 :=
  unencodedStr.flatMap (encodeChar plusEncode)

/-! ### The decoder -/

/-- Undefined behaviour, and an empty `boost::optional`. -/
inductive Failure where
  | overflow | nothing
  deriving DecidableEq, Repr

/-- `++unencoded_size`. -/
def increment (unencodedSize : ℕ) : Except Failure ℕ :=
  if unencodedSize + 1 < 2 ^ 31 then .ok (unencodedSize + 1) else .error .overflow

/-- The loop that counts the decoded characters. -/
def countUnencoded (unencodedSize : ℕ) : List UInt8 → Except Failure ℕ
  | [] => .ok unencodedSize
  | ch :: str =>
    if ch = 37 then
      match str with
      | _ :: _ :: rest => do countUnencoded (← increment unencodedSize) rest
      | _ => .error .nothing
    else do countUnencoded (← increment unencodedSize) str

/-- `sscanf` with `"%hx"` on the two characters, which reads numbers as `strtoul` does and stores
16 bits of them. -/
def scanHex (first second : UInt8) : Except Failure UInt8 :=
  match strToUint64 ([first, second].takeWhile (· ≠ 0)) 16 with
  | .ok ch => .ok (UInt8.ofNat (ch % 2 ^ 16))
  | .error _ => .error .nothing

/-- The loop that decodes. The first loop has seen two characters behind each `%`. -/
def unencode : List UInt8 → Except Failure (List UInt8)
  | [] => .ok []
  | ch :: str =>
    if ch = 37 then
      match str with
      | first :: second :: rest => do return (← scanHex first second) :: (← unencode rest)
      | _ => .error .nothing
    else if ch = 43 then do return 32 :: (← unencode str)
    else if requiresPercentEncoding ch then .error .nothing
    else do return ch :: (← unencode str)

def urlUnencodeBase (encodedStr : List UInt8) : Except Failure (List UInt8) := do
  let _ ← countUnencoded 0 encodedStr
  unencode encodedStr

namespace Percent

def encode (unencodedStr : List UInt8) : List UInt8 := urlEncodeBase unencodedStr .no

def decode (encodedStr : List UInt8) : Except Failure (List UInt8) := urlUnencodeBase encodedStr

end Percent

namespace PercentPlus

def encode (unencodedStr : List UInt8) : List UInt8 := urlEncodeBase unencodedStr .yes

def decode (encodedStr : List UInt8) : Except Failure (List UInt8) := urlUnencodeBase encodedStr

end PercentPlus

/-! ### Encoded strings -/

/-- `A`-`Z`, `a`-`z`, `0`-`9`, `-`, `_`, `.` and `~`. -/
def Unreserved (c : UInt8) : Prop :=
  c ∈ ("ABCDEFGHIJKLMNOPQRSTUVWXYZabcdefghijklmnopqrstuvwxyz0123456789-_.~".toList).map
    fun c => UInt8.ofNat c.toNat

/-- `0`-`9` or `A`-`F`. -/
def UpperHex (c : UInt8) : Prop :=
  c ∈ ("0123456789ABCDEF".toList).map fun c => UInt8.ofNat c.toNat

/-- Unreserved characters, bytes behind a `%` and, where it stands for a blank, `+`. -/
inductive Encoded (plusEncode : PlusEncode) : List UInt8 → Prop
  | nil : Encoded plusEncode []
  | unreserved {c str} : Unreserved c → Encoded plusEncode str → Encoded plusEncode (c :: str)
  | percent {high low str} : UpperHex high → UpperHex low → Encoded plusEncode str →
      Encoded plusEncode (37 :: high :: low :: str)
  | plus {str} : plusEncode = .yes → Encoded plusEncode str → Encoded plusEncode (43 :: str)

/-- What is encoded has no `&`, `=` or `#`, and a `+` in it stands for a blank. -/
structure SafelyEncoded (s : List UInt8) : Prop where
  percent : Encoded .no (Percent.encode s)
  percentPlus : Encoded .yes (PercentPlus.encode s)
  separator : ∀ c ∈ [38, 61, 35], c ∉ Percent.encode s ∧ c ∉ PercentPlus.encode s
  plus : 43 ∉ Percent.encode s
  blanks : (PercentPlus.encode s).count 43 = s.count 32

def RoundTrips (s : List UInt8) : Prop :=
  Percent.decode (Percent.encode s) = .ok s ∧ PercentPlus.decode (PercentPlus.encode s) = .ok s

/-! ### One character -/

theorem forall_byte {p : UInt8 → Prop} (h : ∀ n < 256, p (UInt8.ofNat n)) (c : UInt8) : p c := by
  simpa using h c.toNat c.toNat_lt

instance (c : UInt8) : Decidable (Unreserved c) := inferInstanceAs (Decidable (_ ∈ _))

instance (c : UInt8) : Decidable (UpperHex c) := inferInstanceAs (Decidable (_ ∈ _))

theorem unreserved_of_plain (c : UInt8) :
    requiresPercentEncoding c = false → Unreserved c ∧ c ≠ 37 ∧ c ≠ 43 :=
  forall_byte (p := fun c => requiresPercentEncoding c = false → Unreserved c ∧ c ≠ 37 ∧ c ≠ 43)
    (by decide +kernel) c

theorem upperHex_hexDigit {value : ℕ} (h : value < 16) : UpperHex (hexDigit value) := by
  have hall : ∀ value < 16, UpperHex (hexDigit value) := by decide +kernel
  exact hall value h

theorem scanHex_hexPair (c : UInt8) :
    scanHex (hexDigit (c.toNat / 16)) (hexDigit (c.toNat % 16)) = .ok c :=
  forall_byte (p := fun c => scanHex (hexDigit (c.toNat / 16)) (hexDigit (c.toNat % 16)) = .ok c)
    (by decide +kernel) c

/-- The three ways a character is encoded. -/
theorem encodeChar_cases (plusEncode : PlusEncode) (ch : UInt8) :
    (requiresPercentEncoding ch = false ∧ encodeChar plusEncode ch = [ch]) ∨
      (plusEncode = .yes ∧ ch = 32 ∧ encodeChar plusEncode ch = [43]) ∨
      encodeChar plusEncode ch = 37 :: hexPair ch := by
  unfold encodeChar
  split_ifs with hcoded hblank
  · exact .inr (.inl ⟨hblank.1, hblank.2, rfl⟩)
  · exact .inr (.inr rfl)
  · exact .inl ⟨by simpa using hcoded, rfl⟩

theorem Encoded.encodeChar_append {plusEncode : PlusEncode} (ch : UInt8) {str : List UInt8}
    (h : Encoded plusEncode str) : Encoded plusEncode (encodeChar plusEncode ch ++ str) := by
  have hlt := ch.toNat_lt
  obtain ⟨hplain, hchar⟩ | ⟨hyes, -, hchar⟩ | hchar := encodeChar_cases plusEncode ch
  · rw [hchar]
    exact .unreserved (unreserved_of_plain ch hplain).1 h
  · rw [hchar]
    exact .plus hyes h
  · rw [hchar]
    exact .percent (upperHex_hexDigit (by omega)) (upperHex_hexDigit (by omega)) h

theorem countUnencoded_encodeChar_append (plusEncode : PlusEncode) (ch : UInt8) (size : ℕ)
    (str : List UInt8) : countUnencoded size (encodeChar plusEncode ch ++ str) =
      increment size >>= (countUnencoded · str) := by
  obtain ⟨hplain, hchar⟩ | ⟨-, -, hchar⟩ | hchar := encodeChar_cases plusEncode ch
  · rw [hchar, List.singleton_append, countUnencoded.eq_def]
    exact if_neg (unreserved_of_plain ch hplain).2.1
  · rw [hchar, List.singleton_append, countUnencoded.eq_def]
    exact if_neg (by decide)
  · rw [hchar]
    rfl

theorem unencode_encodeChar_append (plusEncode : PlusEncode) (ch : UInt8) {str rest : List UInt8}
    (h : unencode str = .ok rest) :
    unencode (encodeChar plusEncode ch ++ str) = .ok (ch :: rest) := by
  obtain ⟨hplain, hchar⟩ | ⟨-, rfl, hchar⟩ | hchar := encodeChar_cases plusEncode ch
  · obtain ⟨-, hpercent, hplus⟩ := unreserved_of_plain ch hplain
    rw [hchar, List.singleton_append, unencode.eq_def]
    simp only [if_neg hpercent, if_neg hplus, hplain, h]
    rfl
  · rw [hchar, List.singleton_append, unencode.eq_def]
    simp only [h]
    rfl
  · rw [hchar]
    show (do return (← scanHex _ _) :: (← unencode str)) = _
    rw [scanHex_hexPair, h]
    rfl

/-! ### Strings -/

theorem encoded_urlEncodeBase (plusEncode : PlusEncode) (s : List UInt8) :
    Encoded plusEncode (urlEncodeBase s plusEncode) := by
  induction s with
  | nil => exact .nil
  | cons ch s ih => exact ih.encodeChar_append ch

theorem Encoded.mem {plusEncode : PlusEncode} {str : List UInt8} (h : Encoded plusEncode str)
    {c : UInt8} (hc : c ∈ str) :
    Unreserved c ∨ UpperHex c ∨ c = 37 ∨ (plusEncode = .yes ∧ c = 43) := by
  induction h with
  | nil => cases hc
  | unreserved hunreserved _ ih =>
    rcases List.mem_cons.mp hc with rfl | hc
    · exact .inl hunreserved
    · exact ih hc
  | percent hhigh hlow _ ih =>
    simp only [List.mem_cons] at hc
    rcases hc with rfl | rfl | rfl | hc
    · exact .inr (.inr (.inl rfl))
    · exact .inr (.inl hhigh)
    · exact .inr (.inl hlow)
    · exact ih hc
  | plus hyes _ ih =>
    rcases List.mem_cons.mp hc with rfl | hc
    · exact .inr (.inr (.inr ⟨hyes, rfl⟩))
    · exact ih hc

theorem Encoded.not_separator {plusEncode : PlusEncode} {str : List UInt8}
    (h : Encoded plusEncode str) {c : UInt8} (hc : c ∈ [38, 61, 35]) : c ∉ str := by
  intro hmem
  have hother : ∀ c ∈ [38, 61, 35], ¬ (Unreserved c ∨ UpperHex c ∨ c = 37 ∨ c = 43) := by
    simp only [List.forall_mem_cons]
    decide +kernel
  rcases h.mem hmem with h | h | h | h
  · exact hother c hc (.inl h)
  · exact hother c hc (.inr (.inl h))
  · exact hother c hc (.inr (.inr (.inl h)))
  · exact hother c hc (.inr (.inr (.inr h.2)))

theorem count_plus_encodeChar (ch : UInt8) :
    (encodeChar .yes ch).count 43 = [ch].count 32 :=
  forall_byte (p := fun ch => (encodeChar .yes ch).count 43 = [ch].count 32)
    (by decide +kernel) ch

theorem safelyEncoded (s : List UInt8) : SafelyEncoded s where
  percent := encoded_urlEncodeBase .no s
  percentPlus := encoded_urlEncodeBase .yes s
  separator _ hc := ⟨(encoded_urlEncodeBase .no s).not_separator hc,
    (encoded_urlEncodeBase .yes s).not_separator hc⟩
  plus hmem := by
    have hother : ¬ (Unreserved 43 ∨ UpperHex 43 ∨ (43 : UInt8) = 37) := by decide +kernel
    rcases (encoded_urlEncodeBase .no s).mem hmem with h | h | h | h
    · exact hother (.inl h)
    · exact hother (.inr (.inl h))
    · exact hother (.inr (.inr h))
    · cases h.1
  blanks := by
    induction s with
    | nil => rfl
    | cons ch s ih =>
      have hrest : (s.flatMap (encodeChar .yes)).count 43 = s.count 32 := ih
      rw [PercentPlus.encode, urlEncodeBase, List.flatMap_cons, List.count_append,
        count_plus_encodeChar, hrest, ← List.count_append, List.singleton_append]

theorem unencode_urlEncodeBase (plusEncode : PlusEncode) (s : List UInt8) :
    unencode (urlEncodeBase s plusEncode) = .ok s := by
  induction s with
  | nil => rfl
  | cons ch s ih => exact unencode_encodeChar_append plusEncode ch ih

/-- Each character of the string is counted once, whatever its encoding. -/
theorem countUnencoded_urlEncodeBase (plusEncode : PlusEncode) (s : List UInt8) (size : ℕ)
    (hsize : size < 2 ^ 31) : countUnencoded size (urlEncodeBase s plusEncode) =
      if size + s.length < 2 ^ 31 then .ok (size + s.length) else .error .overflow := by
  induction s generalizing size with
  | nil => exact (if_pos hsize).symm
  | cons ch s ih =>
    have hstep : countUnencoded size (urlEncodeBase (ch :: s) plusEncode) =
        increment size >>= (countUnencoded · (urlEncodeBase s plusEncode)) :=
      countUnencoded_encodeChar_append plusEncode ch size _
    rw [hstep, increment, List.length_cons]
    split_ifs with hnext hall hall
    · exact (ih _ hnext).trans (by rw [if_pos (by omega), Nat.add_assoc, Nat.add_comm 1])
    · exact (ih _ hnext).trans (if_neg (by omega))
    · omega
    · rfl

theorem urlUnencodeBase_of_lt {s : List UInt8} (h : s.length < 2 ^ 31) (plusEncode : PlusEncode) :
    urlUnencodeBase (urlEncodeBase s plusEncode) = .ok s := by
  rw [urlUnencodeBase, countUnencoded_urlEncodeBase _ _ _ (by decide), if_pos (by omega)]
  exact unencode_urlEncodeBase plusEncode s

theorem urlUnencodeBase_of_le {s : List UInt8} (h : 2 ^ 31 ≤ s.length) (plusEncode : PlusEncode) :
    urlUnencodeBase (urlEncodeBase s plusEncode) = .error .overflow := by
  rw [urlUnencodeBase, countUnencoded_urlEncodeBase _ _ _ (by decide), if_neg (by omega)]
  rfl

theorem not_roundTrips_of_le {s : List UInt8} (h : 2 ^ 31 ≤ s.length) : ¬ RoundTrips s := by
  rintro ⟨hpercent, -⟩
  exact absurd (hpercent.symm.trans (urlUnencodeBase_of_le h .no)) (by simp)

/-- Both codings come back as long as the decoder can count what it decodes. -/
theorem roundTrips_iff (s : List UInt8) :
    RoundTrips s ∧ SafelyEncoded s ↔ s.length < 2 ^ 31 := by
  constructor
  · rintro ⟨hround, -⟩
    by_contra hle
    exact not_roundTrips_of_le (not_lt.mp hle) hround
  · intro hlt
    exact ⟨⟨urlUnencodeBase_of_lt hlt .no, urlUnencodeBase_of_lt hlt .yes⟩, safelyEncoded s⟩

/-- 2 GiB of the letter `a`. -/
theorem not_roundTrips_two_gb : ¬ (RoundTrips (List.replicate (2 ^ 31) 97) ∧
    SafelyEncoded (List.replicate (2 ^ 31) 97)) :=
  fun h => not_roundTrips_of_le (by rw [List.length_replicate]) h.1

example : Percent.encode [32, 37] = [37, 50, 48, 37, 50, 53] := by decide

end MediafireSdk.Utils.UrlEncode
