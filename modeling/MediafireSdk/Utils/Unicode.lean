import Mathlib.Tactic

/-! `bytes_to_wide` and `wide_to_bytes` (`string.cpp`): UTF-8 to UTF-16 and back, with
`std::wstring_convert`. A wide character is a number of 32 bits that holds one unit of
UTF-16. Well-formed text converts to the same characters. What becomes of other text the
library decides: it throws, or leaves out or passes on what it does not take for a
character, so the converter is a parameter. -/

namespace MediafireSdk.Utils

/-- `std::wstring`. -/
abbrev WString := List UInt32

/-- `std::range_error`. -/
inductive RangeError where
  | badConversion
  deriving DecidableEq, Repr

/-- A literal of the source as bytes; all of them are ASCII. -/
def bytes (text : String) : List UInt8 := text.toList.map fun c => UInt8.ofNat c.toNat

/-- A literal of the source as wide characters. -/
def wide (text : String) : WString := text.toList.map Char.val

/-! ### Encodings -/

def utf8 (chars : List Char) : List UInt8 := chars.flatMap String.utf8EncodeChar

def utf16Units (c : Char) : WString :=
  if c.val < 0x10000 then [c.val]
  else [0xD800 + (c.val - 0x10000) / 0x400, 0xDC00 + (c.val - 0x10000) % 0x400]

def utf16 (chars : List Char) : WString := chars.flatMap utf16Units

/-- The bytes are well-formed UTF-8. -/
def ValidUtf8 (str : List UInt8) : Prop := ∃ chars, str = utf8 chars

/-- The wide string is well-formed UTF-16. -/
def ValidUtf16 (str : WString) : Prop := ∃ chars, str = utf16 chars

/-! ### The conversions -/

/-- `std::wstring_convert<std::codecvt_utf8_utf16<wchar_t>>` of some standard library. -/
structure WstringConvert where
  fromBytes : List UInt8 → Except RangeError WString
  toBytes : WString → Except RangeError (List UInt8)
  fromBytes_utf8 : ∀ chars, fromBytes (utf8 chars) = .ok (utf16 chars)
  toBytes_utf16 : ∀ chars, toBytes (utf16 chars) = .ok (utf8 chars)

def bytesToWide (converter : WstringConvert) (str : List UInt8) : Except RangeError WString :=
  converter.fromBytes str

def wideToBytes (converter : WstringConvert) (str : WString) : Except RangeError (List UInt8) :=
  converter.toBytes str

@[simp] theorem bytesToWide_utf8 (converter : WstringConvert) (chars : List Char) :
    bytesToWide converter (utf8 chars) = .ok (utf16 chars) := converter.fromBytes_utf8 chars

@[simp] theorem wideToBytes_utf16 (converter : WstringConvert) (chars : List Char) :
    wideToBytes converter (utf16 chars) = .ok (utf8 chars) := converter.toBytes_utf16 chars

/-- The wide string converts to bytes. -/
def Converts (converter : WstringConvert) (str : WString) : Prop :=
  ∃ out, wideToBytes converter str = .ok out

theorem ValidUtf16.converts {str : WString} (h : ValidUtf16 str) (converter : WstringConvert) :
    Converts converter str := by
  obtain ⟨chars, rfl⟩ := h
  exact ⟨_, wideToBytes_utf16 converter chars⟩

theorem validUtf16_nil : ValidUtf16 [] := ⟨[], rfl⟩

/-! ### Decoding -/

def isHighSurrogate (unit : UInt32) : Bool := 0xD800 ≤ unit && unit ≤ 0xDBFF

def isLowSurrogate (unit : UInt32) : Bool := 0xDC00 ≤ unit && unit ≤ 0xDFFF

def charOf (value : UInt32) : Option Char :=
  if h : value.isValidChar then some ⟨value, h⟩ else none

/-- The characters of a wide string, unless a surrogate stands alone or a unit is none. -/
def utf16Chars : WString → Option (List Char)
  | [] => some []
  | [unit] => (charOf unit).map ([·])
  | unit :: next :: units =>
    if isHighSurrogate unit then
      if isLowSurrogate next then do
        let c ← charOf (0x10000 + (unit - 0xD800) * 0x400 + (next - 0xDC00))
        return c :: (← utf16Chars units)
      else none
    else do
      let c ← charOf unit
      return c :: (← utf16Chars (next :: units))

/-- The characters that bytes of UTF-8 stand for. -/
def utf8Chars (str : List UInt8) : Option (List Char) :=
  (ByteArray.mk str.toArray).utf8Decode?.map Array.toList

theorem charOf_val (c : Char) : charOf c.val = some c := by
  rw [charOf, dif_pos c.valid]

/-- A unit that is a character by itself is no surrogate. -/
theorem not_isHighSurrogate_val (c : Char) : isHighSurrogate c.val = false := by
  have hvalid : c.val.toNat.isValidChar := c.valid
  simp only [Nat.isValidChar] at hvalid
  have hnot : ¬ (0xD800 ≤ c.val.toNat ∧ c.val.toNat ≤ 0xDBFF) := by omega
  simpa [isHighSurrogate, UInt32.le_iff_toNat_le] using hnot

theorem utf16Chars_val_cons (c : Char) (units : WString) :
    utf16Chars (c.val :: units) = (utf16Chars units).map (c :: ·) := by
  cases units with
  | nil => simp [utf16Chars, charOf_val]
  | cons next units =>
    rw [utf16Chars, not_isHighSurrogate_val, charOf_val]
    cases utf16Chars (next :: units) <;> rfl

/-- Both units of a pair are surrogates, and the character is what they join to. -/
theorem utf16Chars_pair {c : Char} (hc : ¬ c.val < 0x10000) (units : WString) :
    utf16Chars (utf16Units c ++ units) = (utf16Chars units).map (c :: ·) := by
  have hvalid : c.val.toNat.isValidChar := c.valid
  have hback := charOf_val c
  rw [utf16Units, if_neg hc]
  generalize c.val = value at *
  have hlow : 0x10000 ≤ value.toNat := by simpa [UInt32.lt_iff_toNat_lt] using hc
  simp only [Nat.isValidChar] at hvalid
  have hoffset : (value - 0x10000).toNat = value.toNat - 0x10000 :=
    UInt32.toNat_sub_of_le _ _ (UInt32.le_iff_toNat_le.mpr hlow)
  have hhigh : isHighSurrogate (0xD800 + (value - 0x10000) / 0x400) = true := by
    simp [isHighSurrogate, UInt32.le_iff_toNat_le, hoffset]
    omega
  have hnext : isLowSurrogate (0xDC00 + (value - 0x10000) % 0x400) = true := by
    simp [isLowSurrogate, UInt32.le_iff_toNat_le, hoffset]
    omega
  have hcancel (x y : UInt32) : x + y - x = y := by grind
  have hjoin : 0x10000 + (0xD800 + (value - 0x10000) / 0x400 - 0xD800) * 0x400 +
      (0xDC00 + (value - 0x10000) % 0x400 - 0xDC00) = value := by
    rw [hcancel, hcancel]
    apply UInt32.toNat_inj.mp
    simp [hoffset]
    omega
  rw [List.cons_append, List.cons_append, List.nil_append, utf16Chars, if_pos hhigh,
    if_pos hnext, hjoin, hback]
  cases utf16Chars units <;> rfl

theorem utf16Chars_utf16 (chars : List Char) : utf16Chars (utf16 chars) = some chars := by
  induction chars with
  | nil => rfl
  | cons c chars ih =>
    unfold utf16 at ih ⊢
    rw [List.flatMap_cons]
    by_cases hc : c.val < 0x10000
    · rw [utf16Units, if_pos hc, List.singleton_append, utf16Chars_val_cons, ih]
      rfl
    · rw [utf16Chars_pair hc, ih]
      rfl

theorem utf8Chars_utf8 (chars : List Char) : utf8Chars (utf8 chars) = some chars := by
  have hencode : ByteArray.mk (utf8 chars).toArray = chars.utf8Encode := by
    apply ByteArray.ext
    simp [utf8, List.utf8Encode]
  rw [utf8Chars, hencode, List.utf8Decode?_utf8Encode, Option.map_some]

theorem utf8_injective : Function.Injective utf8 := fun xs ys h => by
  simpa [utf8Chars_utf8] using congrArg utf8Chars h

/-! ### A converter -/

/-- The converter that throws at all that is not well formed. -/
def WstringConvert.strict : WstringConvert where
  fromBytes str := ((utf8Chars str).map utf16).elim (.error .badConversion) .ok
  toBytes str := ((utf16Chars str).map utf8).elim (.error .badConversion) .ok
  fromBytes_utf8 chars := by rw [utf8Chars_utf8]; rfl
  toBytes_utf16 chars := by rw [utf16Chars_utf16]; rfl

end MediafireSdk.Utils
