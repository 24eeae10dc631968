import Mathlib.Algebra.Order.Floor.Semiring
import Mathlib.Algebra.Order.Floor.Div
import Mathlib.Tactic

/-! `Base64Encode` and `Base64Decode` (`base64.cpp`). Strings are lists of bytes, and the
`int32_t` that both accumulate a quantum in is a word of 32 bits. The decoder never clears
it, so the bits above the quantum are those of the quanta before. -/

namespace MediafireSdk.Utils.Base64

/-- `base64_chars`. -/
def base64Chars : List UInt8 :=
  "ABCDEFGHIJKLMNOPQRSTUVWXYZabcdefghijklmnopqrstuvwxyz0123456789+/".toList.map
    fun c => UInt8.ofNat c.toNat

/-- `pad_char`. -/
def padChar : UInt8 := 61

/-! ### The encoder -/

def byte (b : UInt8) : BitVec 32 := b.toBitVec.setWidth 32

/-- `base64_chars[index]`. -/
def charAt (index : BitVec 32) : UInt8 := base64Chars.getD index.toNat 0

def firstChar (temp : BitVec 32) : UInt8 := charAt ((temp &&& 0x00FC0000#32).sshiftRight 18)

def secondChar (temp : BitVec 32) : UInt8 := charAt ((temp &&& 0x0003F000#32).sshiftRight 12)

def thirdChar (temp : BitVec 32) : UInt8 := charAt ((temp &&& 0x00000FC0#32).sshiftRight 6)

def fourthChar (temp : BitVec 32) : UInt8 := charAt (temp &&& 0x0000003F#32)

def base64Encode : List UInt8 → List UInt8
  | a :: b :: c :: data =>
    let temp := (byte a <<< 16) + (byte b <<< 8) + byte c
    firstChar temp :: secondChar temp :: thirdChar temp :: fourthChar temp :: base64Encode data
  | [a, b] =>
    let temp := (byte a <<< 16) + (byte b <<< 8)
    [firstChar temp, secondChar temp, thirdChar temp, padChar]
  | [a] =>
    let temp := byte a <<< 16
    [firstChar temp, secondChar temp, padChar, padChar]
  | [] => []

theorem charAt_ne {c : UInt8} (hc : c ∉ base64Chars) (hzero : c ≠ 0) (index : BitVec 32) :
    charAt index ≠ c := by
  rw [charAt, List.getD_eq_getElem?_getD]
  cases hget : base64Chars[index.toNat]? with
  | none => exact hzero.symm
  | some other =>
    rintro rfl
    exact hc (List.mem_of_getElem? hget)

/-- What is written are the characters of the table and the padding. -/
theorem not_mem_base64Encode {c : UInt8} {bytes : List UInt8} (hc : c ∉ base64Chars)
    (hpad : c ≠ padChar) (hzero : c ≠ 0) : c ∉ base64Encode bytes := by
  have hchar (index : BitVec 32) : c ≠ charAt index := (charAt_ne hc hzero index).symm
  induction bytes using base64Encode.induct with
  | case1 a b d data ih =>
    simp [base64Encode, firstChar, secondChar, thirdChar, fourthChar, hchar, ih]
  | case2 a b => simp [base64Encode, firstChar, secondChar, thirdChar, hchar, hpad]
  | case3 a => simp [base64Encode, firstChar, secondChar, hchar, hpad]
  | case4 => simp [base64Encode]

/-! ### The decoder -/

/-- What a character is worth. The constants are those of the source. -/
def valueOf (c : UInt8) : Option (BitVec 32) :=
  if 0x41 ≤ c ∧ c ≤ 0x5A then some (byte c - 0x41)
  else if 0x61 ≤ c ∧ c ≤ 0x7A then some (byte c - 0x47)
  else if 0x30 ≤ c ∧ c ≤ 0x39 then some (byte c + 0x04)
  else if c = 0x2B then some 0x3E
  else if c = 0x2F then some 0x3F
  else none

/-- `(temp >> amount) & 0x000000FF`, pushed back as a byte. -/
def byteAt (temp : BitVec 32) (amount : ℕ) : UInt8 :=
  UInt8.ofBitVec ((temp.sshiftRight amount &&& 0x000000FF#32).setWidth 8)

/-- The exits at a pad character; `left` is `input.end() - cursor`. -/
def decodePad (temp : BitVec 32) (decodedBytes : List UInt8) (left : ℕ) : Option (List UInt8) :=
  match left with
  | 1 => some (decodedBytes ++ [byteAt temp 16, byteAt temp 8])
  | 2 => some (decodedBytes ++ [byteAt temp 10])
  | _ => none

/-- The loops over the quanta and over the characters of one. Input that ends inside a
quantum has been refused before. -/
def decodeLoop (temp : BitVec 32) (quantumPosition : ℕ) (decodedBytes : List UInt8) :
    List UInt8 → Option (List UInt8)
  | [] => some decodedBytes
  | c :: cursor =>
    let temp := temp <<< 6
    match valueOf c with
    | some value =>
      let temp := temp ||| value
      if quantumPosition = 3 then
        decodeLoop temp 0 (decodedBytes ++ [byteAt temp 16, byteAt temp 8, byteAt temp 0]) cursor
      else decodeLoop temp (quantumPosition + 1) decodedBytes cursor
    | none => if c = padChar then decodePad temp decodedBytes (cursor.length + 1) else none

def base64Decode (input : List UInt8) : Option (List UInt8) :=
  if input.length % 4 ≠ 0 then none else decodeLoop 0 0 [] input

/-! ### Sextets -/

@[simp]
theorem toNat_byte (b : UInt8) : (byte b).toNat = b.toNat := by
  have hb := b.toNat_lt
  simp only [byte, BitVec.toNat_setWidth, UInt8.toNat_toBitVec]
  omega

theorem valueOf_charAt {index : BitVec 32} (h : index.toNat < 64) :
    valueOf (charAt index) = some index := by
  have hall : ∀ n < 64, valueOf (charAt (BitVec.ofNat 32 n)) = some (BitVec.ofNat 32 n) := by
    decide +kernel
  simpa using hall index.toNat h

theorem toNat_quantum (a b c : UInt8) : ((byte a <<< 16) + (byte b <<< 8) + byte c).toNat =
    a.toNat * 65536 + b.toNat * 256 + c.toNat := by
  have ha := a.toNat_lt
  have hb := b.toNat_lt
  have hc := c.toNat_lt
  simp only [BitVec.toNat_add, BitVec.toNat_shiftLeft, toNat_byte, Nat.shiftLeft_eq]
  omega

/-- Six bits of a word behind the mask that selects them. -/
theorem toNat_sextet (temp : BitVec 32) (amount : ℕ) (h : amount ≤ 18) :
    ((temp &&& (63#32 <<< amount)).sshiftRight amount).toNat =
      temp.toNat / 2 ^ amount % 64 := by
  have hmsb : (temp &&& (63#32 <<< amount)).msb = false := by
    have hmask : ∀ k ≤ 18, (63#32 <<< k).msb = false := by decide +kernel
    rw [BitVec.msb_and, hmask amount h, Bool.and_false]
  have hshift : (63#32 <<< amount).toNat >>> amount = 2 ^ 6 - 1 := by
    have hmask : ∀ k ≤ 18, (63#32 <<< k).toNat >>> k = 2 ^ 6 - 1 := by decide +kernel
    exact hmask amount h
  rw [BitVec.sshiftRight_eq_of_msb_false hmsb, BitVec.toNat_ushiftRight, BitVec.toNat_and,
    Nat.shiftRight_and_distrib, hshift, Nat.and_two_pow_sub_one_eq_mod, Nat.shiftRight_eq_div_pow]

theorem exists_firstChar (temp : BitVec 32) :
    ∃ index, firstChar temp = charAt index ∧ index.toNat = temp.toNat / 262144 % 64 :=
  ⟨_, rfl, toNat_sextet temp 18 (by decide)⟩

theorem exists_secondChar (temp : BitVec 32) :
    ∃ index, secondChar temp = charAt index ∧ index.toNat = temp.toNat / 4096 % 64 :=
  ⟨_, rfl, toNat_sextet temp 12 (by decide)⟩

theorem exists_thirdChar (temp : BitVec 32) :
    ∃ index, thirdChar temp = charAt index ∧ index.toNat = temp.toNat / 64 % 64 :=
  ⟨_, rfl, toNat_sextet temp 6 (by decide)⟩

theorem exists_fourthChar (temp : BitVec 32) :
    ∃ index, fourthChar temp = charAt index ∧ index.toNat = temp.toNat % 64 := by
  refine ⟨_, rfl, ?_⟩
  rw [BitVec.toNat_and]
  exact Nat.and_two_pow_sub_one_eq_mod _ 6

/-- The sign that a right shift brings in stays above the byte. -/
theorem toNat_byteAt (temp : BitVec 32) {amount : ℕ} (h : amount ≤ 24) :
    (byteAt temp amount).toNat = temp.toNat / 2 ^ amount % 256 := by
  have hbits : (temp.sshiftRight amount &&& 0x000000FF#32).setWidth 8 =
      (temp >>> amount).setWidth 8 := by
    refine BitVec.eq_of_getLsbD_eq fun i hi => ?_
    have hlow : amount + i < 32 := by omega
    have hmask : ∀ k < 8, (0x000000FF#32).getLsbD k = true := by decide
    rw [BitVec.getLsbD_setWidth, BitVec.getLsbD_and, hmask i hi, BitVec.getLsbD_sshiftRight,
      BitVec.getLsbD_setWidth, BitVec.getLsbD_ushiftRight]
    simp [hlow, show ¬ 32 ≤ i by omega]
  rw [byteAt, hbits]
  simp [Nat.shiftRight_eq_div_pow]

theorem byteAt_eq {temp : BitVec 32} {amount : ℕ} {b : UInt8} (h : amount ≤ 24)
    (hb : temp.toNat / 2 ^ amount % 256 = b.toNat) : byteAt temp amount = b :=
  UInt8.toNat_inj.mp ((toNat_byteAt temp h).trans hb)

/-- What the decoder does to its accumulator with a character. -/
theorem toNat_accumulate (temp : BitVec 32) {value : BitVec 32} (h : value.toNat < 64) :
    (temp <<< 6 ||| value).toNat = (temp.toNat * 64 + value.toNat) % 2 ^ 32 := by
  have hdisjoint : temp.toNat * 64 % 2 ^ 32 = 2 ^ 6 * (temp.toNat % 2 ^ 26) := by omega
  rw [BitVec.toNat_or, BitVec.toNat_shiftLeft, Nat.shiftLeft_eq,
    show 2 ^ 6 = 64 from rfl, hdisjoint, ← Nat.two_pow_add_eq_or_of_lt (i := 6) h]
  omega

/-! ### The round trip -/

section

variable (temp : BitVec 32) (decodedBytes cursor : List UInt8)

theorem decodeLoop_charAt {index : BitVec 32} (h : index.toNat < 64) {quantumPosition : ℕ}
    (hposition : quantumPosition ≠ 3) :
    decodeLoop temp quantumPosition decodedBytes (charAt index :: cursor) =
      decodeLoop (temp <<< 6 ||| index) (quantumPosition + 1) decodedBytes cursor := by
  rw [decodeLoop, valueOf_charAt h]
  exact if_neg hposition

theorem decodeLoop_padChar (quantumPosition : ℕ) :
    decodeLoop temp quantumPosition decodedBytes (padChar :: cursor) =
      decodePad (temp <<< 6) decodedBytes (cursor.length + 1) := rfl

/-- Three characters of a quantum, whatever the accumulator held before them. -/
theorem decodeLoop_threeChars (quantum : BitVec 32) : ∃ temp' : BitVec 32,
    temp'.toNat = (temp.toNat * 2 ^ 18 + quantum.toNat / 64 % 2 ^ 18) % 2 ^ 32 ∧
      decodeLoop temp 0 decodedBytes
        (firstChar quantum :: secondChar quantum :: thirdChar quantum :: cursor) =
          decodeLoop temp' 3 decodedBytes cursor := by
  obtain ⟨index₁, hfirst, hindex₁⟩ := exists_firstChar quantum
  obtain ⟨index₂, hsecond, hindex₂⟩ := exists_secondChar quantum
  obtain ⟨index₃, hthird, hindex₃⟩ := exists_thirdChar quantum
  have hlt₁ : index₁.toNat < 64 := by omega
  have hlt₂ : index₂.toNat < 64 := by omega
  have hlt₃ : index₃.toNat < 64 := by omega
  refine ⟨((temp <<< 6 ||| index₁) <<< 6 ||| index₂) <<< 6 ||| index₃, ?_, ?_⟩
  · rw [toNat_accumulate _ hlt₃, toNat_accumulate _ hlt₂, toNat_accumulate _ hlt₁]
    omega
  · rw [hfirst, hsecond, hthird, decodeLoop_charAt _ _ _ hlt₁ (by decide),
      decodeLoop_charAt _ _ _ hlt₂ (by decide), decodeLoop_charAt _ _ _ hlt₃ (by decide)]

/-- A whole quantum gives its three bytes. -/
theorem decodeLoop_quantum {quantum : BitVec 32} {a b c : UInt8}
    (h : quantum.toNat = a.toNat * 65536 + b.toNat * 256 + c.toNat) :
    ∃ temp', decodeLoop temp 0 decodedBytes (firstChar quantum :: secondChar quantum ::
      thirdChar quantum :: fourthChar quantum :: cursor) =
        decodeLoop temp' 0 (decodedBytes ++ [a, b, c]) cursor := by
  have ha := a.toNat_lt
  have hb := b.toNat_lt
  have hc := c.toNat_lt
  obtain ⟨temp₃, htemp₃, hthree⟩ :=
    decodeLoop_threeChars temp decodedBytes (fourthChar quantum :: cursor) quantum
  obtain ⟨index, hfourth, hindex⟩ := exists_fourthChar quantum
  have hlt : index.toNat < 64 := by omega
  have hall := toNat_accumulate temp₃ hlt
  have hbits : (temp₃ <<< 6 ||| index).toNat % 2 ^ 24 = quantum.toNat := by omega
  refine ⟨temp₃ <<< 6 ||| index, ?_⟩
  rw [hthree, hfourth, decodeLoop, valueOf_charAt hlt]
  simp only [if_pos]
  rw [byteAt_eq (b := a) (by decide) (by omega), byteAt_eq (b := b) (by decide) (by omega),
    byteAt_eq (b := c) (by decide) (by omega)]

theorem decodeLoop_twoBytes {quantum : BitVec 32} {a b : UInt8}
    (h : quantum.toNat = a.toNat * 65536 + b.toNat * 256) :
    decodeLoop temp 0 decodedBytes [firstChar quantum, secondChar quantum, thirdChar quantum,
      padChar] = some (decodedBytes ++ [a, b]) := by
  have ha := a.toNat_lt
  have hb := b.toNat_lt
  obtain ⟨temp₃, htemp₃, hthree⟩ := decodeLoop_threeChars temp decodedBytes [padChar] quantum
  have hshift : (temp₃ <<< 6).toNat % 2 ^ 24 = quantum.toNat := by
    rw [BitVec.toNat_shiftLeft, Nat.shiftLeft_eq]
    omega
  rw [hthree, decodeLoop_padChar]
  show some (decodedBytes ++ [byteAt (temp₃ <<< 6) 16, byteAt (temp₃ <<< 6) 8]) = _
  rw [byteAt_eq (b := a) (by decide) (by omega), byteAt_eq (b := b) (by decide) (by omega)]

theorem decodeLoop_oneByte {quantum : BitVec 32} {a : UInt8}
    (h : quantum.toNat = a.toNat * 65536) :
    decodeLoop temp 0 decodedBytes [firstChar quantum, secondChar quantum, padChar, padChar] =
      some (decodedBytes ++ [a]) := by
  have ha := a.toNat_lt
  obtain ⟨index₁, hfirst, hindex₁⟩ := exists_firstChar quantum
  obtain ⟨index₂, hsecond, hindex₂⟩ := exists_secondChar quantum
  have hlt₁ : index₁.toNat < 64 := by omega
  have hlt₂ : index₂.toNat < 64 := by omega
  have htwo : ((temp <<< 6 ||| index₁) <<< 6 ||| index₂).toNat % 4096 = a.toNat * 16 := by
    rw [toNat_accumulate _ hlt₂, toNat_accumulate _ hlt₁]
    omega
  rw [hfirst, hsecond, decodeLoop_charAt _ _ _ hlt₁ (by decide),
    decodeLoop_charAt _ _ _ hlt₂ (by decide), decodeLoop_padChar]
  generalize (temp <<< 6 ||| index₁) <<< 6 ||| index₂ = temp₂ at htwo ⊢
  have hshift : (temp₂ <<< 6).toNat % 2 ^ 18 = a.toNat * 1024 := by
    rw [BitVec.toNat_shiftLeft, Nat.shiftLeft_eq]
    omega
  show some (decodedBytes ++ [byteAt (temp₂ <<< 6) 10]) = _
  rw [byteAt_eq (b := a) (by decide) (by omega)]

end

/-- The bits that earlier quanta left in the accumulator reach no byte of later ones. -/
theorem decodeLoop_base64Encode (b : List UInt8) (temp : BitVec 32) (decodedBytes : List UInt8) :
    decodeLoop temp 0 decodedBytes (base64Encode b) = some (decodedBytes ++ b) := by
  induction b using base64Encode.induct generalizing temp decodedBytes with
  | case1 a b c data ih =>
    obtain ⟨temp', hquantum⟩ := decodeLoop_quantum temp decodedBytes (base64Encode data)
      (toNat_quantum a b c)
    rw [base64Encode, hquantum, ih]
    simp
  | case2 a b =>
    exact decodeLoop_twoBytes temp decodedBytes (by simpa [byte] using toNat_quantum a b 0)
  | case3 a => exact decodeLoop_oneByte temp decodedBytes (by simpa [byte] using toNat_quantum a 0 0)
  | case4 => simp [base64Encode, decodeLoop]

theorem length_base64Encode (b : List UInt8) : (base64Encode b).length = 4 * (b.length ⌈/⌉ 3) := by
  induction b using base64Encode.induct with
  | case1 a b c data ih =>
    simp only [base64Encode, List.length_cons, ih, Nat.ceilDiv_eq_add_pred_div]
    omega
  | case2 a b => simp [base64Encode, Nat.ceilDiv_eq_add_pred_div]
  | case3 a => simp [base64Encode, Nat.ceilDiv_eq_add_pred_div]
  | case4 => simp [base64Encode]

/-- Every byte list is encoded four characters to three bytes and comes back. -/
theorem base64Decode_base64Encode (b : List UInt8) :
    base64Decode (base64Encode b) = some b ∧ (base64Encode b).length = 4 * (b.length ⌈/⌉ 3) := by
  have hlength := length_base64Encode b
  refine ⟨?_, hlength⟩
  rw [base64Decode, if_neg (by omega), decodeLoop_base64Encode, List.nil_append]

/-- `"a test str"`. -/
example : base64Encode [97, 32, 116, 101, 115, 116, 32, 115, 116, 114] =
    [89, 83, 66, 48, 90, 88, 78, 48, 73, 72, 78, 48, 99, 103, 61, 61] := by decide +kernel

end MediafireSdk.Utils.Base64
