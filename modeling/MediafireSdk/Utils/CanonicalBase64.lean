import MediafireSdk.Utils.Base64

/-! What `Base64Decode` accepts although `Base64Encode` never writes it. The decoder returns at the
first pad character, before it has read what stands behind it, and drops the bits of the last
character that no byte takes. -/

namespace MediafireSdk.Utils.Base64

/-- Whatever is decoded is what the encoder makes of the bytes. -/
def DecodesCanonically (s : List UInt8) : Prop :=
  ∀ b, base64Decode s = some b → base64Encode b = s

/-- The place of a character in the alphabet. -/
def sextet (c : UInt8) : ℕ := base64Chars.idxOf c

/-- Quanta of the alphabet, and a last one that the encoder would have padded otherwise. -/
inductive Mispadded : List UInt8 → Prop
  | stray {c₁ c₂ c : UInt8} (hfirst : c₁ ∈ base64Chars) (hsecond : c₂ ∈ base64Chars)
      (hc : c ≠ padChar) : Mispadded [c₁, c₂, padChar, c]
  | twoPads {c₁ c₂ : UInt8} (hfirst : c₁ ∈ base64Chars) (hsecond : c₂ ∈ base64Chars)
      (hbits : sextet c₂ % 16 ≠ 0) : Mispadded [c₁, c₂, padChar, padChar]
  | onePad {c₁ c₂ c₃ : UInt8} (hfirst : c₁ ∈ base64Chars) (hsecond : c₂ ∈ base64Chars)
      (hthird : c₃ ∈ base64Chars) (hbits : sextet c₃ % 4 ≠ 0) : Mispadded [c₁, c₂, c₃, padChar]
  | quantum {c₁ c₂ c₃ c₄ : UInt8} {s : List UInt8} (hfirst : c₁ ∈ base64Chars)
      (hsecond : c₂ ∈ base64Chars) (hthird : c₃ ∈ base64Chars) (hfourth : c₄ ∈ base64Chars)
      (hrest : Mispadded s) : Mispadded (c₁ :: c₂ :: c₃ :: c₄ :: s)

/-! ### The alphabet -/

def symbol (value : ℕ) : UInt8 := charAt (BitVec.ofNat 32 value)

theorem symbol_toNat (index : BitVec 32) : symbol index.toNat = charAt index := by
  rw [symbol, BitVec.ofNat_toNat, BitVec.setWidth_eq]

theorem getD_idxOf {chars : List UInt8} {c : UInt8} (h : c ∈ chars) :
    chars.getD (chars.idxOf c) 0 = c := by
  rw [List.getD_eq_getElem?_getD, List.getElem?_eq_getElem (List.idxOf_lt_length_of_mem h),
    Option.getD_some, List.getElem_idxOf]

theorem idxOf_getD {chars : List UInt8} (hnodup : chars.Nodup) {value : ℕ}
    (h : value < chars.length) : chars.idxOf (chars.getD value 0) = value := by
  rw [List.getD_eq_getElem?_getD, List.getElem?_eq_getElem h, Option.getD_some,
    hnodup.idxOf_getElem]

theorem getD_mem {chars : List UInt8} {value : ℕ} (h : value < chars.length) :
    chars.getD value 0 ∈ chars := by
  rw [List.getD_eq_getElem?_getD, List.getElem?_eq_getElem h, Option.getD_some]
  exact List.getElem_mem h

theorem length_base64Chars : base64Chars.length = 64 := by decide +kernel

theorem symbol_eq {value : ℕ} (h : value < 64) : symbol value = base64Chars.getD value 0 := by
  have hindex : (BitVec.ofNat 32 value).toNat = value := Nat.mod_eq_of_lt (by omega)
  rw [symbol, charAt, hindex]

theorem sextet_symbol {value : ℕ} (h : value < 64) : sextet (symbol value) = value := by
  have hnodup : base64Chars.Nodup := by decide +kernel
  rw [symbol_eq h]
  exact idxOf_getD hnodup (by rwa [length_base64Chars])

theorem mem_base64Chars_spec {c : UInt8} (h : c ∈ base64Chars) :
    valueOf c = some (BitVec.ofNat 32 (sextet c)) ∧ sextet c < 64 ∧ symbol (sextet c) = c := by
  have hlt : sextet c < 64 := length_base64Chars ▸ List.idxOf_lt_length_of_mem h
  have hsymbol : symbol (sextet c) = c := (symbol_eq hlt).trans (getD_idxOf h)
  have hindex : (BitVec.ofNat 32 (sextet c)).toNat = sextet c := Nat.mod_eq_of_lt (by omega)
  have hvalue := valueOf_charAt (hindex.trans_lt hlt)
  refine ⟨?_, hlt, hsymbol⟩
  rwa [← symbol, hsymbol] at hvalue

/-- What the decoder takes for a character of the alphabet is one. -/
theorem valueOf_eq_none {c : UInt8} (h : c ∉ base64Chars) : valueOf c = none := by
  have hall : ∀ n < 256, ((valueOf (UInt8.ofNat n)).all fun index =>
      decide (index.toNat < 64 ∧ charAt index = UInt8.ofNat n)) = true := by decide +kernel
  cases hvalue : valueOf c with
  | none => rfl
  | some index =>
    have hc : UInt8.ofNat c.toNat = c := UInt8.ofNat_toNat
    have hchar := hall c.toNat c.toNat_lt
    rw [hc, hvalue, Option.all_some, decide_eq_true_eq] at hchar
    have hmem : charAt index ∈ base64Chars := getD_mem (by rw [length_base64Chars]; exact hchar.1)
    exact absurd (hchar.2 ▸ hmem) h

theorem padChar_not_mem : padChar ∉ base64Chars := by decide +kernel

/-! ### The encoder by values -/

section

variable {quantum : BitVec 32} (value : ℕ)

theorem firstChar_eq (h : quantum.toNat / 262144 % 64 = value) :
    firstChar quantum = symbol value := by
  obtain ⟨index, hchar, hindex⟩ := exists_firstChar quantum
  rw [hchar, ← h, ← hindex, symbol_toNat]

theorem secondChar_eq (h : quantum.toNat / 4096 % 64 = value) :
    secondChar quantum = symbol value := by
  obtain ⟨index, hchar, hindex⟩ := exists_secondChar quantum
  rw [hchar, ← h, ← hindex, symbol_toNat]

theorem thirdChar_eq (h : quantum.toNat / 64 % 64 = value) : thirdChar quantum = symbol value := by
  obtain ⟨index, hchar, hindex⟩ := exists_thirdChar quantum
  rw [hchar, ← h, ← hindex, symbol_toNat]

theorem fourthChar_eq (h : quantum.toNat % 64 = value) : fourthChar quantum = symbol value := by
  obtain ⟨index, hchar, hindex⟩ := exists_fourthChar quantum
  rw [hchar, ← h, ← hindex, symbol_toNat]

end

section

variable {a b c : UInt8} {v₁ v₂ v₃ v₄ : ℕ}

/-- What a quantum of bytes becomes, from the values of the characters. -/
theorem base64Encode_quantum (hv₁ : v₁ < 64) (hv₂ : v₂ < 64) (hv₃ : v₃ < 64) (hv₄ : v₄ < 64)
    (ha : a.toNat = v₁ * 4 + v₂ / 16) (hb : b.toNat = v₂ % 16 * 16 + v₃ / 4)
    (hc : c.toNat = v₃ % 4 * 64 + v₄) (bytes : List UInt8) :
    base64Encode (a :: b :: c :: bytes) =
      symbol v₁ :: symbol v₂ :: symbol v₃ :: symbol v₄ :: base64Encode bytes := by
  have hquantum := toNat_quantum a b c
  simp only [base64Encode]
  rw [firstChar_eq v₁ (by omega), secondChar_eq v₂ (by omega),
    thirdChar_eq v₃ (by omega), fourthChar_eq v₄ (by omega)]

theorem base64Encode_twoBytes (hv₁ : v₁ < 64) (hv₂ : v₂ < 64) (hv₃ : v₃ < 64)
    (ha : a.toNat = v₁ * 4 + v₂ / 16) (hb : b.toNat = v₂ % 16 * 16 + v₃ / 4) :
    base64Encode [a, b] = [symbol v₁, symbol v₂, symbol (v₃ / 4 * 4), padChar] := by
  have hquantum : ((byte a <<< 16) + (byte b <<< 8)).toNat = a.toNat * 65536 + b.toNat * 256 := by
    simpa [byte] using toNat_quantum a b 0
  simp only [base64Encode]
  rw [firstChar_eq v₁ (by omega), secondChar_eq v₂ (by omega),
    thirdChar_eq (v₃ / 4 * 4) (by omega)]

theorem base64Encode_oneByte (hv₁ : v₁ < 64) (hv₂ : v₂ < 64)
    (ha : a.toNat = v₁ * 4 + v₂ / 16) :
    base64Encode [a] = [symbol v₁, symbol (v₂ / 16 * 16), padChar, padChar] := by
  have hquantum : (byte a <<< 16).toNat = a.toNat * 65536 := by
    simpa [byte] using toNat_quantum a 0 0
  simp only [base64Encode]
  rw [firstChar_eq v₁ (by omega), secondChar_eq (v₂ / 16 * 16) (by omega)]

end

/-! ### The decoder by values -/

theorem exists_index {c : UInt8} (h : c ∈ base64Chars) :
    ∃ index : BitVec 32, index.toNat = sextet c ∧ sextet c < 64 ∧ charAt index = c := by
  obtain ⟨-, hlt, hsymbol⟩ := mem_base64Chars_spec h
  exact ⟨BitVec.ofNat 32 (sextet c), Nat.mod_eq_of_lt (by omega), hlt, hsymbol⟩

section

variable (temp : BitVec 32) (decodedBytes cursor : List UInt8) {c₁ c₂ c₃ c₄ : UInt8}

theorem decodeLoop_other {c : UInt8} (h : c ∉ base64Chars) (quantumPosition : ℕ) :
    decodeLoop temp quantumPosition decodedBytes (c :: cursor) =
      if c = padChar then decodePad (temp <<< 6) decodedBytes (cursor.length + 1) else none := by
  rw [decodeLoop, valueOf_eq_none h]

theorem decodeLoop_two (hfirst : c₁ ∈ base64Chars) (hsecond : c₂ ∈ base64Chars) :
    ∃ temp' : BitVec 32, temp'.toNat % 4096 = sextet c₁ * 64 + sextet c₂ ∧
      decodeLoop temp 0 decodedBytes (c₁ :: c₂ :: cursor) =
        decodeLoop temp' 2 decodedBytes cursor := by
  obtain ⟨index₁, hindex₁, hlt₁, rfl⟩ := exists_index hfirst
  obtain ⟨index₂, hindex₂, hlt₂, rfl⟩ := exists_index hsecond
  refine ⟨(temp <<< 6 ||| index₁) <<< 6 ||| index₂, ?_, ?_⟩
  · rw [toNat_accumulate _ (by omega), toNat_accumulate _ (by omega)]
    omega
  · rw [decodeLoop_charAt _ _ _ (by omega) (by decide),
      decodeLoop_charAt _ _ _ (by omega) (by decide)]

theorem decodeLoop_three (hfirst : c₁ ∈ base64Chars) (hsecond : c₂ ∈ base64Chars)
    (hthird : c₃ ∈ base64Chars) :
    ∃ temp' : BitVec 32,
      temp'.toNat % 2 ^ 18 = (sextet c₁ * 64 + sextet c₂) * 64 + sextet c₃ ∧
        decodeLoop temp 0 decodedBytes (c₁ :: c₂ :: c₃ :: cursor) =
          decodeLoop temp' 3 decodedBytes cursor := by
  obtain ⟨temp₂, htwo, hloop⟩ := decodeLoop_two temp decodedBytes (c₃ :: cursor) hfirst hsecond
  obtain ⟨index₃, hindex₃, hlt₃, rfl⟩ := exists_index hthird
  refine ⟨temp₂ <<< 6 ||| index₃, ?_, ?_⟩
  · rw [toNat_accumulate _ (by omega)]
    omega
  · rw [hloop, decodeLoop_charAt _ _ _ (by omega) (by decide)]

/-- A quantum of the alphabet is what the encoder makes of the bytes that it decodes to. -/
theorem decodeLoop_four (hfirst : c₁ ∈ base64Chars) (hsecond : c₂ ∈ base64Chars)
    (hthird : c₃ ∈ base64Chars) (hfourth : c₄ ∈ base64Chars) :
    ∃ (temp' : BitVec 32) (a b c : UInt8),
      decodeLoop temp 0 decodedBytes (c₁ :: c₂ :: c₃ :: c₄ :: cursor) =
          decodeLoop temp' 0 (decodedBytes ++ [a, b, c]) cursor ∧
        ∀ bytes, base64Encode (a :: b :: c :: bytes) =
          c₁ :: c₂ :: c₃ :: c₄ :: base64Encode bytes := by
  obtain ⟨temp₃, hthree, hloop⟩ :=
    decodeLoop_three temp decodedBytes (c₄ :: cursor) hfirst hsecond hthird
  obtain ⟨-, hlt₁, hsymbol₁⟩ := mem_base64Chars_spec hfirst
  obtain ⟨-, hlt₂, hsymbol₂⟩ := mem_base64Chars_spec hsecond
  obtain ⟨-, hlt₃, hsymbol₃⟩ := mem_base64Chars_spec hthird
  obtain ⟨hvalue, hlt₄, hsymbol₄⟩ := mem_base64Chars_spec hfourth
  have hindex : (BitVec.ofNat 32 (sextet c₄)).toNat = sextet c₄ := Nat.mod_eq_of_lt (by omega)
  have hfour := toNat_accumulate temp₃ (hindex.trans_lt hlt₄)
  generalize hquantum : temp₃ <<< 6 ||| BitVec.ofNat 32 (sextet c₄) = temp₄ at hfour
  refine ⟨temp₄, byteAt temp₄ 16, byteAt temp₄ 8, byteAt temp₄ 0, ?_, fun bytes => ?_⟩
  · rw [hloop, decodeLoop, hvalue]
    simp only [if_true, hquantum]
  · rw [base64Encode_quantum hlt₁ hlt₂ hlt₃ hlt₄ ?_ ?_ ?_, hsymbol₁, hsymbol₂, hsymbol₃, hsymbol₄]
    · rw [toNat_byteAt _ (by decide)]
      omega
    · rw [toNat_byteAt _ (by decide)]
      omega
    · rw [toNat_byteAt _ (by decide)]
      omega

theorem decodeLoop_onePad (hfirst : c₁ ∈ base64Chars) (hsecond : c₂ ∈ base64Chars)
    (hthird : c₃ ∈ base64Chars) :
    ∃ a b, decodeLoop temp 0 decodedBytes [c₁, c₂, c₃, padChar] = some (decodedBytes ++ [a, b]) ∧
      base64Encode [a, b] = [c₁, c₂, symbol (sextet c₃ / 4 * 4), padChar] := by
  obtain ⟨temp₃, hthree, hloop⟩ :=
    decodeLoop_three temp decodedBytes [padChar] hfirst hsecond hthird
  obtain ⟨-, hlt₁, hsymbol₁⟩ := mem_base64Chars_spec hfirst
  obtain ⟨-, hlt₂, hsymbol₂⟩ := mem_base64Chars_spec hsecond
  obtain ⟨-, hlt₃, -⟩ := mem_base64Chars_spec hthird
  have hshift : (temp₃ <<< 6).toNat = temp₃.toNat * 64 % 2 ^ 32 := by
    rw [BitVec.toNat_shiftLeft, Nat.shiftLeft_eq]
  refine ⟨_, _, hloop.trans (decodeLoop_padChar _ _ _ _), ?_⟩
  rw [base64Encode_twoBytes hlt₁ hlt₂ hlt₃ ?_ ?_, hsymbol₁, hsymbol₂]
  · rw [toNat_byteAt _ (by decide)]
    omega
  · rw [toNat_byteAt _ (by decide)]
    omega

theorem decodeLoop_twoPads (hfirst : c₁ ∈ base64Chars) (hsecond : c₂ ∈ base64Chars) (c : UInt8) :
    ∃ a, decodeLoop temp 0 decodedBytes [c₁, c₂, padChar, c] = some (decodedBytes ++ [a]) ∧
      base64Encode [a] = [c₁, symbol (sextet c₂ / 16 * 16), padChar, padChar] := by
  obtain ⟨temp₂, htwo, hloop⟩ := decodeLoop_two temp decodedBytes [padChar, c] hfirst hsecond
  obtain ⟨-, hlt₁, hsymbol₁⟩ := mem_base64Chars_spec hfirst
  obtain ⟨-, hlt₂, -⟩ := mem_base64Chars_spec hsecond
  have hshift : (temp₂ <<< 6).toNat = temp₂.toNat * 64 % 2 ^ 32 := by
    rw [BitVec.toNat_shiftLeft, Nat.shiftLeft_eq]
  refine ⟨_, hloop.trans (decodeLoop_padChar _ _ _ _), ?_⟩
  rw [base64Encode_oneByte hlt₁ hlt₂ ?_, hsymbol₁]
  rw [toNat_byteAt _ (by decide)]
  omega

/-- A quantum that is not refused ends in a pad character only where the string does. -/
theorem decodeLoop_quantum_cases (hcursor : cursor.length % 4 = 0) {b : List UInt8}
    (h : decodeLoop temp 0 decodedBytes (c₁ :: c₂ :: c₃ :: c₄ :: cursor) = some b) :
    c₁ ∈ base64Chars ∧ c₂ ∈ base64Chars ∧
      ((c₃ ∈ base64Chars ∧ c₄ ∈ base64Chars) ∨ (c₃ ∈ base64Chars ∧ c₄ = padChar ∧ cursor = []) ∨
        (c₃ = padChar ∧ cursor = [])) := by
  have hpad {temp : BitVec 32} {bytes : List UInt8} {left : ℕ} (hleft : 2 < left) :
      decodePad temp bytes left = none := by
    unfold decodePad
    split <;> first | omega | rfl
  have hfirst : c₁ ∈ base64Chars := by
    by_contra hnot
    rw [decodeLoop_other _ _ _ hnot, hpad (by simp)] at h
    split_ifs at h
  have hsecond : c₂ ∈ base64Chars := by
    by_contra hnot
    obtain ⟨index, hindex, hlt, rfl⟩ := exists_index hfirst
    rw [decodeLoop_charAt _ _ _ (by omega) (by decide), decodeLoop_other _ _ _ hnot,
      hpad (by simp)] at h
    split_ifs at h
  refine ⟨hfirst, hsecond, ?_⟩
  obtain ⟨temp₂, -, htwo⟩ := decodeLoop_two temp decodedBytes (c₃ :: c₄ :: cursor) hfirst hsecond
  by_cases hthird : c₃ ∈ base64Chars
  · obtain ⟨temp₃, -, hthree⟩ :=
      decodeLoop_three temp decodedBytes (c₄ :: cursor) hfirst hsecond hthird
    by_cases hfourth : c₄ ∈ base64Chars
    · exact .inl ⟨hthird, hfourth⟩
    · rw [hthree, decodeLoop_other _ _ _ hfourth] at h
      split_ifs at h with hchar
      refine .inr (.inl ⟨hthird, hchar, ?_⟩)
      by_contra hne
      have := List.length_pos_iff.mpr hne
      rw [hpad (by omega)] at h
      cases h
  · rw [htwo, decodeLoop_other _ _ _ hthird] at h
    split_ifs at h with hchar
    refine .inr (.inr ⟨hchar, ?_⟩)
    by_contra hne
    have := List.length_pos_iff.mpr hne
    rw [hpad (by rw [List.length_cons]; omega)] at h
    cases h

end

/-! ### Canonical strings -/

theorem symbol_masked_eq_iff {c : UInt8} (hc : c ∈ base64Chars) {mask : ℕ} :
    symbol (sextet c / mask * mask) = c ↔ sextet c % mask = 0 := by
  obtain ⟨-, hlt, hsymbol⟩ := mem_base64Chars_spec hc
  have hmasked : sextet c / mask * mask ≤ sextet c := Nat.div_mul_le_self _ _
  have hsplit := Nat.div_add_mod' (sextet c) mask
  constructor
  · intro heq
    have hsextet := sextet_symbol (hmasked.trans_lt hlt)
    rw [heq] at hsextet
    omega
  · intro hzero
    rw [show sextet c / mask * mask = sextet c by omega, hsymbol]

/-- Bytes that a decoded string stands for, and the one string that the encoder makes of them. -/
theorem decodeLoop_canonical : ∀ (s : List UInt8) (temp : BitVec 32) (decodedBytes b : List UInt8),
    s.length % 4 = 0 → decodeLoop temp 0 decodedBytes s = some b →
      ∃ bytes, b = decodedBytes ++ bytes ∧ (base64Encode bytes = s ↔ ¬ Mispadded s)
  | [], temp, decodedBytes, b, _, h => by
    refine ⟨[], ?_, ?_⟩
    · simpa [decodeLoop] using h.symm
    · simp only [base64Encode, true_iff]
      rintro ⟨⟩
  | [_], _, _, _, hlength, _ => absurd hlength (by simp)
  | [_, _], _, _, _, hlength, _ => absurd hlength (by simp)
  | [_, _, _], _, _, _, hlength, _ => absurd hlength (by simp)
  | c₁ :: c₂ :: c₃ :: c₄ :: s, temp, decodedBytes, b, hlength, h => by
    have hrest : s.length % 4 = 0 := by
      simp only [List.length_cons] at hlength
      omega
    obtain ⟨hfirst, hsecond, hcases⟩ := decodeLoop_quantum_cases _ _ _ hrest h
    rcases hcases with ⟨hthird, hfourth⟩ | ⟨hthird, rfl, rfl⟩ | ⟨rfl, rfl⟩
    · obtain ⟨temp', a₁, a₂, a₃, hloop, hencode⟩ :=
        decodeLoop_four temp decodedBytes s hfirst hsecond hthird hfourth
      obtain ⟨bytes, rfl, hiff⟩ := decodeLoop_canonical s _ _ _ hrest (hloop.symm.trans h)
      refine ⟨a₁ :: a₂ :: a₃ :: bytes, by simp, ?_⟩
      rw [hencode]
      simp only [List.cons.injEq, true_and, hiff, not_iff_not]
      constructor
      · exact Mispadded.quantum hfirst hsecond hthird hfourth
      · intro hmispadded
        cases hmispadded with
        | stray => exact absurd hthird padChar_not_mem
        | twoPads => exact absurd hthird padChar_not_mem
        | onePad => exact absurd hfourth padChar_not_mem
        | quantum _ _ _ _ hmispadded => exact hmispadded
    · obtain ⟨a₁, a₂, hloop, hencode⟩ := decodeLoop_onePad temp decodedBytes hfirst hsecond hthird
      rw [hloop] at h
      cases h
      refine ⟨[a₁, a₂], rfl, ?_⟩
      rw [hencode]
      simp only [List.cons.injEq, true_and, and_true, symbol_masked_eq_iff hthird]
      constructor
      · intro hzero hmispadded
        cases hmispadded with
        | stray => exact absurd hthird padChar_not_mem
        | twoPads => exact absurd hthird padChar_not_mem
        | onePad _ _ _ hbits => exact hbits hzero
        | quantum _ _ _ hfourth => exact absurd hfourth padChar_not_mem
      · intro hnot
        by_contra hbits
        exact hnot (.onePad hfirst hsecond hthird hbits)
    · obtain ⟨a, hloop, hencode⟩ := decodeLoop_twoPads temp decodedBytes hfirst hsecond c₄
      rw [hloop] at h
      cases h
      refine ⟨[a], rfl, ?_⟩
      rw [hencode]
      simp only [List.cons.injEq, true_and, and_true, symbol_masked_eq_iff hsecond]
      constructor
      · rintro ⟨hzero, rfl⟩ hmispadded
        cases hmispadded with
        | stray _ _ hc => exact hc rfl
        | twoPads _ _ hbits => exact hbits hzero
        | onePad _ _ hthird => exact absurd hthird padChar_not_mem
        | quantum _ _ hthird => exact absurd hthird padChar_not_mem
      · intro hnot
        by_cases hchar : c₄ = padChar
        · refine ⟨?_, hchar.symm⟩
          by_contra hbits
          exact hnot (hchar ▸ .twoPads hfirst hsecond hbits)
        · exact absurd (.stray hfirst hsecond hchar) hnot

/-- What the encoder would have padded otherwise is decoded all the same. -/
theorem Mispadded.decodeLoop {s : List UInt8} (h : Mispadded s) (temp : BitVec 32)
    (decodedBytes : List UInt8) : ∃ b, decodeLoop temp 0 decodedBytes s = some b := by
  induction h generalizing temp decodedBytes with
  | stray hfirst hsecond =>
    obtain ⟨a, hloop, -⟩ := decodeLoop_twoPads temp decodedBytes hfirst hsecond _
    exact ⟨_, hloop⟩
  | twoPads hfirst hsecond =>
    obtain ⟨a, hloop, -⟩ := decodeLoop_twoPads temp decodedBytes hfirst hsecond padChar
    exact ⟨_, hloop⟩
  | onePad hfirst hsecond hthird =>
    obtain ⟨a, b, hloop, -⟩ := decodeLoop_onePad temp decodedBytes hfirst hsecond hthird
    exact ⟨_, hloop⟩
  | quantum hfirst hsecond hthird hfourth _ ih =>
    obtain ⟨temp', a, b, c, hloop, -⟩ :=
      decodeLoop_four temp decodedBytes _ hfirst hsecond hthird hfourth
    obtain ⟨bytes, hbytes⟩ := ih temp' (decodedBytes ++ [a, b, c])
    exact ⟨bytes, hloop.trans hbytes⟩

theorem Mispadded.length_mod {s : List UInt8} (h : Mispadded s) : s.length % 4 = 0 := by
  induction h with
  | stray => simp
  | twoPads => simp
  | onePad => simp
  | quantum _ _ _ _ _ ih =>
    simp only [List.length_cons]
    omega

/-- The decoder inverts the encoder and nothing else, but for what is padded otherwise. -/
theorem decodesCanonically_iff (s : List UInt8) : DecodesCanonically s ↔ ¬ Mispadded s := by
  constructor
  · intro hcanonical hmispadded
    obtain ⟨b, hb⟩ := hmispadded.decodeLoop 0 []
    obtain ⟨bytes, rfl, hiff⟩ := decodeLoop_canonical s 0 [] b hmispadded.length_mod hb
    refine hiff.mp (hcanonical _ ?_) hmispadded
    rw [base64Decode, if_neg (by simp [hmispadded.length_mod]), hb]
  · intro hnot b hb
    rw [base64Decode] at hb
    split_ifs at hb with hlength
    obtain ⟨bytes, rfl, hiff⟩ := decodeLoop_canonical s 0 [] b (by simpa using hlength) hb
    exact hiff.mpr hnot

/-- `"AA=A"` is decoded as `"AA=="` is. -/
theorem not_decodesCanonically_stray : ¬ DecodesCanonically [65, 65, 61, 65] := by
  intro h
  have hdecode : base64Decode [65, 65, 61, 65] = some [0] := by decide +kernel
  exact absurd (h [0] hdecode) (by decide +kernel)

end MediafireSdk.Utils.Base64
