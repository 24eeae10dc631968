import Mathlib.Tactic

/-! `str_to_uint64` (`string.cpp`), which is `std::stoul` with 64 bits: white space,
a sign and, for base 16, a prefix `0x` are skipped, and what follows the digits is
ignored. Strings are lists of bytes. -/

namespace MediafireSdk.Utils

/-- `std::isspace`: blank, tab, line feed, vertical tab, form feed, carriage return. -/
def isSpace (c : UInt8) : Bool := c = 32 || (9 ≤ c && c ≤ 13)

/-- The value of `0`-`9`, `a`-`z` or `A`-`Z` when it is a digit of the base. -/
def digitValue (base : ℕ) (c : UInt8) : Option ℕ :=
  let value :=
    if 48 ≤ c ∧ c ≤ 57 then some (c.toNat - 48)
    else if 97 ≤ c ∧ c ≤ 122 then some (c.toNat - 87)
    else if 65 ≤ c ∧ c ≤ 90 then some (c.toNat - 55)
    else none
  value.filter (· < base)

/-- The digits a string begins with. -/
def takeDigits (base : ℕ) : List UInt8 → List ℕ
  | [] => []
  | c :: cs =>
    match digitValue base c with
    | none => []
    | some value => value :: takeDigits base cs

/-- Without `0x` or `0X` before a digit. -/
def dropPrefix (base : ℕ) : List UInt8 → List UInt8
  | 48 :: x :: c :: cs =>
    if base = 16 ∧ (x = 120 ∨ x = 88) ∧ (digitValue base c).isSome then c :: cs
    else 48 :: x :: c :: cs
  | cs => cs

def ofDigits (base : ℕ) (digits : List ℕ) : ℕ :=
  digits.foldl (fun value digit => value * base + digit) 0

/-- The exceptions of `std::stoul`. -/
inductive NumberError where
  | invalidArgument | outOfRange
  deriving DecidableEq, Repr

/-- `what()` of them. -/
def NumberError.what : NumberError → String := fun _ => "stoul"

def strToUint64 (str : List UInt8) (base : ℕ) : Except NumberError ℕ :=
  let str := str.dropWhile isSpace
  let negative := str.head? = some 45
  let str := if negative ∨ str.head? = some 43 then str.tail else str
  let digits := takeDigits base (dropPrefix base str)
  if digits = [] then .error .invalidArgument
  else if 2 ^ 64 ≤ ofDigits base digits then .error .outOfRange
  else if negative then .ok ((2 ^ 64 - ofDigits base digits) % 2 ^ 64)
  else .ok (ofDigits base digits)

/-! ### Hexadecimal numbers -/

def isHexDigit (c : UInt8) : Bool := (digitValue 16 c).isSome

/-- The number that hexadecimal digits stand for. -/
def hexValue (digits : List UInt8) : ℕ := ofDigits 16 (takeDigits 16 digits)

@[simp] theorem strToUint64_nil (base : ℕ) : strToUint64 [] base = .error .invalidArgument := by
  simp [strToUint64, takeDigits, dropPrefix]

theorem takeDigits_append {base : ℕ} {digits rest : List UInt8}
    (h : ∀ c ∈ digits, (digitValue base c).isSome) :
    takeDigits base (digits ++ rest) = takeDigits base digits ++ takeDigits base rest := by
  induction digits with
  | nil => rfl
  | cons c cs ih =>
    obtain ⟨value, hvalue⟩ := Option.isSome_iff_exists.mp (h c List.mem_cons_self)
    simp only [List.cons_append, takeDigits, hvalue]
    rw [ih fun c' hc' => h c' (List.mem_cons_of_mem c hc')]

theorem le_of_isHexDigit {c : UInt8} (h : isHexDigit c = true) :
    48 ≤ c.toNat ∧ c.toNat ≤ 102 := by
  unfold isHexDigit digitValue at h
  dsimp only at h
  split_ifs at h <;> simp [UInt8.le_iff_toNat_le] at * <;> omega

/-- A hexadecimal digit is no blank, sign or letter of the prefix. -/
theorem isHexDigit_spec {c : UInt8} (h : isHexDigit c = true) :
    isSpace c = false ∧ c ≠ 45 ∧ c ≠ 43 ∧ c ≠ 120 ∧ c ≠ 88 := by
  obtain ⟨hlow, hhigh⟩ := le_of_isHexDigit h
  have hother {d : UInt8} (hd : isHexDigit d = false) : c ≠ d := by
    rintro rfl
    exact absurd (h.symm.trans hd) (by decide)
  refine ⟨?_, hother (by decide), hother (by decide), hother (by decide), hother (by decide)⟩
  simp [isSpace, UInt8.le_iff_toNat_le, ← UInt8.toNat_inj]
  omega

theorem le_foldl_digits {base : ℕ} (hbase : 0 < base) (digits : List ℕ) (value : ℕ) :
    value ≤ digits.foldl (fun value digit => value * base + digit) value := by
  induction digits generalizing value with
  | nil => exact le_rfl
  | cons digit digits ih =>
    calc value ≤ value * base := Nat.le_mul_of_pos_right value hbase
      _ ≤ value * base + digit := Nat.le_add_right _ _
      _ ≤ _ := ih _

/-- More digits are a larger number. -/
theorem hexValue_le_append {digits rest : List UInt8} (h : ∀ c ∈ digits, isHexDigit c = true) :
    hexValue digits ≤ hexValue (digits ++ rest) := by
  rw [hexValue, hexValue, takeDigits_append h, ofDigits, ofDigits, List.foldl_append]
  exact le_foldl_digits (by decide) _ _

/-- Digits without the prefix, and nothing but a carriage return behind them. -/
theorem dropPrefix_digits {digits rest : List UInt8}
    (hhex : ∀ c ∈ digits, isHexDigit c = true) (hrest : rest = [] ∨ rest = [13]) :
    dropPrefix 16 (digits ++ rest) = digits ++ rest := by
  have hx : ∀ c ∈ digits ++ rest, c ≠ 120 ∧ c ≠ 88 := by
    intro c hc
    rcases List.mem_append.mp hc with hc | hc
    · exact (isHexDigit_spec (hhex c hc)).2.2.2
    · rcases hrest with rfl | rfl
      · cases hc
      · rw [List.mem_singleton.mp hc]
        decide
  unfold dropPrefix
  split
  · rename_i x c cs heq
    have hmem := hx x (by rw [heq]; simp)
    rw [if_neg fun hcond => hcond.2.1.elim hmem.1 hmem.2, heq]
  · rfl

/-- A line of digits, with or without the carriage return at its end. -/
theorem strToUint64_digits {digits rest : List UInt8} (hne : digits ≠ [])
    (hhex : ∀ c ∈ digits, isHexDigit c = true) (hrest : rest = [] ∨ rest = [13])
    (hlt : hexValue digits < 2 ^ 64) : strToUint64 (digits ++ rest) 16 = .ok (hexValue digits) := by
  have hdigits : takeDigits 16 (digits ++ rest) = takeDigits 16 digits := by
    have htail : takeDigits 16 rest = [] := by rcases hrest with rfl | rfl <;> decide
    rw [takeDigits_append hhex, htail, List.append_nil]
  have hprefix := dropPrefix_digits hhex hrest
  obtain ⟨c, cs, rfl⟩ := List.exists_cons_of_ne_nil hne
  have hc := hhex c List.mem_cons_self
  obtain ⟨hspace, hminus, hplus, -, -⟩ := isHexDigit_spec hc
  have hdrop : (c :: cs ++ rest).dropWhile isSpace = c :: cs ++ rest :=
    List.dropWhile_cons_of_neg (by simp [hspace])
  have hpos : takeDigits 16 (c :: cs) ≠ [] := by
    obtain ⟨value, hvalue⟩ := Option.isSome_iff_exists.mp hc
    simp [takeDigits, hvalue]
  have hhead : (c :: cs ++ rest).head? = some c := rfl
  simp only [strToUint64, hdrop, hhead, Option.some.injEq, hminus, hplus, or_self, if_false,
    hprefix, hdigits, hpos]
  exact if_neg (not_le.mpr hlt)

/-! ### What is a number -/

/-- A string that is taken for a hexadecimal number: blanks, a sign, `0x` before a digit, and digits
as far as there are any. -/
structure Numeral (str : List UInt8) (value : ℕ) where
  blanks : List UInt8
  sign : List UInt8
  before : List UInt8
  digits : List UInt8
  rest : List UInt8
  parts : str = blanks ++ (sign ++ (before ++ (digits ++ rest)))
  isSpace_blanks : ∀ c ∈ blanks, isSpace c = true
  isSign : sign = [] ∨ sign = [43] ∨ sign = [45]
  isBefore : before = [] ∨ before = [48, 120] ∨ before = [48, 88]
  nonempty : digits ≠ []
  hex : ∀ c ∈ digits, isHexDigit c = true
  maximal : ∀ c ∈ rest.head?, isHexDigit c = false
  /-- The zero of a prefix is no digit. -/
  unprefixed : before = [] → digits = [48] →
    ∀ x c cs, rest = x :: c :: cs → x = 120 ∨ x = 88 → isHexDigit c = false
  fits : hexValue digits < 2 ^ 64
  isValue : value = if sign = [45] then (2 ^ 64 - hexValue digits) % 2 ^ 64 else hexValue digits

theorem takeDigits_maximal {digits rest : List UInt8} (hhex : ∀ c ∈ digits, isHexDigit c = true)
    (hrest : ∀ c ∈ rest.head?, isHexDigit c = false) :
    takeDigits 16 (digits ++ rest) = takeDigits 16 digits := by
  rw [takeDigits_append hhex]
  cases rest with
  | nil => exact List.append_nil _
  | cons c cs =>
    have hc : digitValue 16 c = none := by
      have := hrest c rfl
      rwa [isHexDigit, Option.isSome_eq_false_iff, Option.isNone_iff_eq_none] at this
    rw [takeDigits, hc, List.append_nil]

theorem takeDigits_ne_nil {digits : List UInt8} (hne : digits ≠ [])
    (hhex : ∀ c ∈ digits, isHexDigit c = true) : takeDigits 16 digits ≠ [] := by
  obtain ⟨c, cs, rfl⟩ := List.exists_cons_of_ne_nil hne
  obtain ⟨value, hvalue⟩ := Option.isSome_iff_exists.mp (hhex c List.mem_cons_self)
  simp [takeDigits, hvalue]

/-- A string without a prefix, or with one. -/
theorem dropPrefix_cases (str : List UInt8) :
    dropPrefix 16 str = str ∨
      ∃ x c cs, (x = 120 ∨ x = 88) ∧ isHexDigit c = true ∧ str = 48 :: x :: c :: cs := by
  unfold dropPrefix
  split
  · next x c cs =>
    split_ifs with h
    · exact .inr ⟨x, c, cs, h.2.1, h.2.2, rfl⟩
    · exact .inl rfl
  · exact .inl rfl

theorem dropPrefix_before {before digits rest : List UInt8} (hne : digits ≠ [])
    (hhex : ∀ c ∈ digits, isHexDigit c = true)
    (hbefore : before = [48, 120] ∨ before = [48, 88]) :
    dropPrefix 16 (before ++ (digits ++ rest)) = digits ++ rest := by
  obtain ⟨c, cs, rfl⟩ := List.exists_cons_of_ne_nil hne
  have hc : (digitValue 16 c).isSome = true := hhex c List.mem_cons_self
  rcases hbefore with rfl | rfl <;> simp [dropPrefix, hc]

/-- The sign of a string and what follows it. -/
def signOf (str : List UInt8) : List UInt8 :=
  if str.head? = some 45 then [45] else if str.head? = some 43 then [43] else []

theorem signOf_append (str : List UInt8) : signOf str ++
    (if str.head? = some 45 ∨ str.head? = some 43 then str.tail else str) = str := by
  unfold signOf
  cases str with
  | nil => rfl
  | cons c cs =>
    by_cases hminus : c = 45
    · simp [hminus]
    · by_cases hplus : c = 43
      · simp [hplus]
      · simp [hminus, hplus]

theorem signOf_cases (str : List UInt8) :
    signOf str = [] ∨ signOf str = [43] ∨ signOf str = [45] := by
  unfold signOf
  split_ifs <;> simp

theorem signOf_eq_minus {str : List UInt8} : signOf str = [45] ↔ str.head? = some 45 := by
  unfold signOf
  split_ifs with hminus hplus
  · simp [hminus]
  · simp [hplus]
  · simp [hminus]

namespace Numeral
variable {str : List UInt8} {value : ℕ}

theorem dropPrefix_eq (h : Numeral str value) :
    dropPrefix 16 (h.before ++ (h.digits ++ h.rest)) = h.digits ++ h.rest := by
  rcases h.isBefore with hnil | hbefore
  · rw [hnil, List.nil_append]
    rcases dropPrefix_cases (h.digits ++ h.rest) with heq | ⟨x, c, cs, hx, hc, heq⟩
    · exact heq
    · -- the first digit would be the zero of a prefix, and the last one
      obtain ⟨d, ds, hdigits⟩ := List.exists_cons_of_ne_nil h.nonempty
      rw [hdigits, List.cons_append] at heq
      obtain ⟨rfl, htail⟩ := List.cons.inj heq
      cases ds with
      | nil => exact absurd (h.unprefixed hnil hdigits x c cs htail hx) (by simp [hc])
      | cons d' ds =>
        have hd' := h.hex d' (by rw [hdigits]; simp)
        obtain ⟨rfl, -⟩ := List.cons.inj htail
        obtain ⟨-, -, -, h120, h88⟩ := isHexDigit_spec hd'
        exact absurd hx (not_or.mpr ⟨h120, h88⟩)
  · exact dropPrefix_before h.nonempty h.hex hbefore

/-- What follows the sign begins with a digit. -/
theorem exists_body (h : Numeral str value) : ∃ b bs, h.before ++ (h.digits ++ h.rest) = b :: bs ∧
    isSpace b = false ∧ b ≠ 45 ∧ b ≠ 43 := by
  obtain ⟨d, ds, hdigits⟩ := List.exists_cons_of_ne_nil h.nonempty
  have hd : isHexDigit d = true := h.hex d (by rw [hdigits]; exact List.mem_cons_self)
  obtain ⟨hspace, hminus, hplus, -, -⟩ := isHexDigit_spec hd
  rcases h.isBefore with hbefore | hbefore | hbefore
  · exact ⟨d, ds ++ h.rest, by rw [hbefore, hdigits]; rfl, hspace, hminus, hplus⟩
  · exact ⟨48, _, by rw [hbefore]; rfl, by decide, by decide, by decide⟩
  · exact ⟨48, _, by rw [hbefore]; rfl, by decide, by decide, by decide⟩

theorem strToUint64_eq (h : Numeral str value) : strToUint64 str 16 = .ok value := by
  obtain ⟨b, bs, hbody, hb, hminus, hplus⟩ := h.exists_body
  have hdrop : str.dropWhile isSpace = h.sign ++ (h.before ++ (h.digits ++ h.rest)) := by
    refine (congrArg _ h.parts).trans ?_
    rw [List.dropWhile_append_of_pos h.isSpace_blanks, hbody]
    rcases h.isSign with hsign | hsign | hsign
    · rw [hsign]
      exact List.dropWhile_cons_of_neg (by simp [hb])
    · rw [hsign]
      exact List.dropWhile_cons_of_neg (by decide)
    · rw [hsign]
      exact List.dropWhile_cons_of_neg (by decide)
  have hdigits := takeDigits_maximal h.hex h.maximal
  have hnumber : takeDigits 16 h.digits ≠ [] := takeDigits_ne_nil h.nonempty h.hex
  have hfits : ¬2 ^ 64 ≤ ofDigits 16 (takeDigits 16 h.digits) := not_le.mpr h.fits
  rw [h.isValue]
  unfold strToUint64
  simp only [hdrop]
  rcases h.isSign with hsign | hsign | hsign
  · have hhead : (h.before ++ (h.digits ++ h.rest)).head? = some b := by rw [hbody]; rfl
    simp only [hsign, List.nil_append, hhead, Option.some.injEq, hminus, hplus, or_self, if_false,
      h.dropPrefix_eq, hdigits, hnumber, hfits, reduceCtorEq, hexValue]
  · simp only [hsign, List.cons_append, List.nil_append, List.head?_cons, List.tail_cons, or_true,
      if_true, h.dropPrefix_eq, hdigits, hnumber, hfits, if_false, hexValue, Option.some.injEq,
      List.cons.injEq, and_true, (by decide : (43 : UInt8) ≠ 45)]
  · simp only [hsign, List.cons_append, List.nil_append, List.head?_cons, List.tail_cons, true_or,
      if_true, h.dropPrefix_eq, hdigits, hnumber, hfits, if_false, hexValue]

end Numeral

/-- `std::stoul` takes exactly these strings. -/
theorem strToUint64_eq_ok_iff {str : List UInt8} {value : ℕ} :
    strToUint64 str 16 = .ok value ↔ Nonempty (Numeral str value) := by
  refine ⟨fun h => ?_, fun ⟨h⟩ => h.strToUint64_eq⟩
  unfold strToUint64 at h
  dsimp only at h
  generalize htext : str.dropWhile isSpace = text at h
  have hsign := signOf_append text
  generalize (if text.head? = some 45 ∨ text.head? = some 43 then text.tail else text) = body
    at h hsign
  obtain ⟨before, hbefore, hbody⟩ : ∃ before,
      (before = [] ∨ before = [48, 120] ∨ before = [48, 88]) ∧
        body = before ++ dropPrefix 16 body := by
    rcases dropPrefix_cases body with heq | ⟨x, c, cs, hx, hc, rfl⟩
    · exact ⟨[], .inl rfl, heq.symm⟩
    · have hdrop : dropPrefix 16 (48 :: x :: c :: cs) = c :: cs := if_pos ⟨rfl, hx, hc⟩
      rw [hdrop]
      rcases hx with rfl | rfl
      · exact ⟨_, .inr (.inl rfl), rfl⟩
      · exact ⟨_, .inr (.inr rfl), rfl⟩
  generalize htail : dropPrefix 16 body = tail at h hbody
  have hsplit := List.takeWhile_append_dropWhile (p := isHexDigit) (l := tail)
  have hhex : ∀ c ∈ tail.takeWhile isHexDigit, isHexDigit c = true := fun c hc =>
    List.all_eq_true.mp List.all_takeWhile c hc
  have hmaximal : ∀ c ∈ (tail.dropWhile isHexDigit).head?, isHexDigit c = false := by
    intro c hc
    have := List.head?_dropWhile_not isHexDigit tail
    rw [Option.mem_def.mp hc] at this
    simpa using this
  have hdigits : takeDigits 16 tail = takeDigits 16 (tail.takeWhile isHexDigit) := by
    conv_lhs => rw [← hsplit]
    exact takeDigits_maximal hhex hmaximal
  rw [hdigits] at h
  have hparts : str = str.takeWhile isSpace ++ (signOf text ++
      (before ++ (tail.takeWhile isHexDigit ++ tail.dropWhile isHexDigit))) := by
    rw [hsplit, ← hbody, hsign, ← htext, List.takeWhile_append_dropWhile]
  have hunprefixed : before = [] → tail.takeWhile isHexDigit = [48] →
      ∀ x c cs, tail.dropWhile isHexDigit = x :: c :: cs → x = 120 ∨ x = 88 →
        isHexDigit c = false := by
    intro hnil hzero x c cs hrest hx
    by_contra hc
    rw [hnil, List.nil_append] at hbody
    rw [hzero, hrest] at hsplit
    have hdrop : dropPrefix 16 (48 :: x :: c :: cs) = c :: cs :=
      if_pos ⟨rfl, hx, Bool.eq_true_of_not_eq_false hc⟩
    rw [hbody, ← hsplit] at htail
    have := congrArg List.length (hdrop.symm.trans htail)
    simp at this
  have hspaces : ∀ c ∈ str.takeWhile isSpace, isSpace c = true := fun c hc =>
    List.all_eq_true.mp List.all_takeWhile c hc
  split_ifs at h with hnil hlarge hminus
  · cases h
    exact ⟨⟨_, _, _, _, _, hparts, hspaces, signOf_cases text, hbefore,
      fun hempty => hnil (by rw [hempty]; rfl), hhex, hmaximal, hunprefixed, not_le.mp hlarge,
      (if_pos (signOf_eq_minus.mpr hminus)).symm⟩⟩
  · cases h
    exact ⟨⟨_, _, _, _, _, hparts, hspaces, signOf_cases text, hbefore,
      fun hempty => hnil (by rw [hempty]; rfl), hhex, hmaximal, hunprefixed, not_le.mp hlarge,
      (if_neg (signOf_eq_minus.not.mpr hminus)).symm⟩⟩

/-! ### Texts with separators -/

theorem intercalate_cons {α : Type*} (separator : α) (part : List α) (parts : List (List α)) :
    [separator].intercalate (part :: parts) = part ++ parts.flatMap (separator :: ·) := by
  induction parts generalizing part with
  | nil => simp [List.intercalate]
  | cons next parts ih =>
    have hnext : [separator].intercalate (part :: next :: parts) =
        part ++ separator :: [separator].intercalate (next :: parts) := by simp [List.intercalate]
    rw [hnext, ih, List.flatMap_cons, List.cons_append]

end MediafireSdk.Utils
