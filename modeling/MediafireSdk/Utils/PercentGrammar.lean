import MediafireSdk.Utils.UrlEncode

/-! What `percent::Decode` reads (`url_encode.cpp`). A string is cut into items at its percent
signs; the decoder hands the two characters behind one to `sscanf`, which is content with less
than two digits. -/

namespace MediafireSdk.Utils.UrlEncode

/-- A character, `+`, or `%` and what stands behind it. -/
inductive Item where
  | char (c : UInt8)
  | plus
  | percent (first second : UInt8)
  deriving DecidableEq, Repr

namespace Item

def text : Item → List UInt8
  | char c => [c]
  | plus => [43]
  | percent first second => [37, first, second]

/-- What an item stands for. -/
def byte : Item → UInt8
  | char c => c
  | plus => 32
  | percent first second => UInt8.ofNat (hexValue [first, second])

/-- An item of the grammar. -/
def Exact : Item → Prop
  | char c => Unreserved c
  | plus => True
  | percent first second => isHexDigit first = true ∧ isHexDigit second = true

/-- A blank or a sign. -/
def isLead (c : UInt8) : Bool := isSpace c || c = 43 || c = 45

/-- An item that is read: one digit is enough, with a blank or a sign before it or anything else
behind it. -/
def Readable : Item → Prop
  | char c => Unreserved c
  | plus => True
  | percent first second =>
    isHexDigit first = true ∨ (isLead first = true ∧ isHexDigit second = true)

end Item

/-- The items of a string, and an incomplete one at its end. -/
def cut : List UInt8 → List Item × List UInt8
  | [] => ([], [])
  | ch :: str =>
    if ch = 37 then
      match str with
      | first :: second :: rest => (.percent first second :: (cut rest).1, (cut rest).2)
      | _ => ([], 37 :: str)
    else if ch = 43 then (.plus :: (cut str).1, (cut str).2)
    else (.char ch :: (cut str).1, (cut str).2)

/-- Decoding succeeds on the grammar alone, with one byte for each item. -/
structure DecodesGrammar (s : List UInt8) : Prop where
  result : ∀ bytes, Percent.decode s = .ok bytes ↔
    ∃ items : List Item, s = items.flatMap Item.text ∧ (∀ item ∈ items, item.Exact) ∧
      bytes = items.map Item.byte
  defined : Percent.decode s ≠ .error .overflow

/-! ### Two characters -/

theorem isHexDigit_ne_zero {c : UInt8} (h : isHexDigit c = true) : c ≠ 0 := by
  rintro rfl
  exact absurd h (by decide)

theorem digitValue_lt {base value : ℕ} {c : UInt8} (h : digitValue base c = some value) :
    value < base := by
  simpa using (Option.filter_eq_some_iff.mp h).2

theorem hexValue_lt : ∀ {digits : List UInt8}, digits.length ≤ 2 → hexValue digits < 256
  | [], _ => by decide
  | [c], _ => by
    cases hc : digitValue 16 c with
    | none => simp [hexValue, takeDigits, hc, ofDigits]
    | some value =>
      have := digitValue_lt hc
      simp only [hexValue, takeDigits, hc, ofDigits, List.foldl_cons, List.foldl_nil]
      omega
  | [c, d], _ => by
    cases hc : digitValue 16 c with
    | none => simp [hexValue, takeDigits, hc, ofDigits]
    | some value =>
      have := digitValue_lt hc
      cases hd : digitValue 16 d with
      | none =>
        simp only [hexValue, takeDigits, hc, hd, ofDigits, List.foldl_cons, List.foldl_nil]
        omega
      | some value' =>
        have := digitValue_lt hd
        simp only [hexValue, takeDigits, hc, hd, ofDigits, List.foldl_cons, List.foldl_nil]
        omega
  | _ :: _ :: _ :: _, h => absurd h (by simp)

/-- A numeral of two characters begins with a digit, or with a lead before one. -/
theorem readable_of_numeral {first second : UInt8} {value : ℕ}
    (n : Numeral ([first, second].takeWhile (· ≠ 0)) value) :
    (Item.percent first second).Readable := by
  obtain ⟨digit, digits, hdigits⟩ := List.exists_cons_of_ne_nil n.nonempty
  have hdigit : isHexDigit digit = true := n.hex digit (by simp [hdigits])
  have hstart : n.blanks ++ (n.sign ++ (n.before ++ (n.digits ++ n.rest))) <+: [first, second] :=
    n.parts ▸ List.takeWhile_prefix _
  have hlength := hstart.length_le
  rw [hdigits] at hstart hlength
  have hbefore : n.before = [] := by
    rcases n.isBefore with h | h | h
    · exact h
    · simp [h] at hlength
      omega
    · simp [h] at hlength
      omega
  cases hblanks : n.blanks with
  | nil =>
    rcases n.isSign with hsign | hsign | hsign
    · simp only [hblanks, hsign, hbefore, List.nil_append, List.cons_append,
        List.cons_prefix_cons] at hstart
      exact .inl (hstart.1 ▸ hdigit)
    · simp only [hblanks, hsign, hbefore, List.nil_append, List.cons_append,
        List.cons_prefix_cons] at hstart
      exact .inr ⟨hstart.1 ▸ (by decide : Item.isLead 43 = true), hstart.2.1 ▸ hdigit⟩
    · simp only [hblanks, hsign, hbefore, List.nil_append, List.cons_append,
        List.cons_prefix_cons] at hstart
      exact .inr ⟨hstart.1 ▸ (by decide : Item.isLead 45 = true), hstart.2.1 ▸ hdigit⟩
  | cons blank blanks =>
    have hspace := n.isSpace_blanks blank (by simp [hblanks])
    obtain ⟨hnil, hsign⟩ : blanks = [] ∧ n.sign = [] := by
      simp only [hblanks, hbefore, List.length_append, List.length_cons] at hlength
      exact ⟨List.eq_nil_of_length_eq_zero (by omega), List.eq_nil_of_length_eq_zero (by omega)⟩
    simp only [hblanks, hnil, hsign, hbefore, List.nil_append, List.cons_append,
      List.cons_prefix_cons] at hstart
    have hlead : Item.isLead blank = true := by simp [Item.isLead, hspace]
    exact .inr ⟨hstart.1 ▸ hlead, hstart.2.1 ▸ hdigit⟩

/-- Digits behind a lead, as far as there are any. -/
theorem exists_numeral_of_lead {lead text : List UInt8} (hlength : text.length ≤ 2)
    (hlead : lead = [] ∨ ∃ c, lead = [c] ∧ Item.isLead c = true)
    (hhead : ∃ c ∈ text.head?, isHexDigit c = true) :
    ∃ value, Nonempty (Numeral (lead ++ text) value) := by
  obtain ⟨c, hc, hdigit⟩ := hhead
  obtain ⟨rest, rfl⟩ : ∃ rest, text = c :: rest := by
    cases text with
    | nil => cases hc
    | cons d rest => exact ⟨rest, by simpa using hc⟩
  have hsplit := List.takeWhile_append_dropWhile (p := isHexDigit) (l := c :: rest)
  have hhex : ∀ d ∈ (c :: rest).takeWhile isHexDigit, isHexDigit d = true := fun d hd =>
    List.all_eq_true.mp List.all_takeWhile d hd
  have hne : (c :: rest).takeWhile isHexDigit ≠ [] := by simp [hdigit]
  have hshort : ((c :: rest).takeWhile isHexDigit).length ≤ 2 :=
    (List.takeWhile_prefix _).length_le.trans hlength
  have hmaximal : ∀ d ∈ ((c :: rest).dropWhile isHexDigit).head?, isHexDigit d = false := by
    intro d hd
    have := List.head?_dropWhile_not isHexDigit (c :: rest)
    rw [Option.mem_def.mp hd] at this
    simpa using this
  have hunprefixed {P : Prop} (hdigits : (c :: rest).takeWhile isHexDigit = [48]) (x d : UInt8)
      (ds : List UInt8) (hrest : (c :: rest).dropWhile isHexDigit = x :: d :: ds) : P := by
    rw [hdigits, hrest] at hsplit
    rw [← hsplit] at hlength
    simp at hlength
  have hfits : hexValue ((c :: rest).takeWhile isHexDigit) < 2 ^ 64 :=
    (hexValue_lt hshort).trans (by decide)
  rcases hlead with rfl | ⟨l, rfl, hl⟩
  · exact ⟨_, ⟨[], [], [], _, _, by rw [hsplit]; rfl, by simp, .inl rfl, .inl rfl, hne, hhex,
      hmaximal, fun _ h x d ds hrest _ => hunprefixed h x d ds hrest, hfits, rfl⟩⟩
  · simp only [Item.isLead, Bool.or_eq_true, decide_eq_true_eq] at hl
    rcases hl with (hl | rfl) | rfl
    · exact ⟨_, ⟨[l], [], [], _, _, by rw [hsplit]; rfl, by simpa using hl, .inl rfl, .inl rfl, hne,
        hhex, hmaximal, fun _ h x d ds hrest _ => hunprefixed h x d ds hrest, hfits, rfl⟩⟩
    · exact ⟨_, ⟨[], [43], [], _, _, by rw [hsplit]; rfl, by simp, .inr (.inl rfl), .inl rfl, hne,
        hhex, hmaximal, fun _ h x d ds hrest _ => hunprefixed h x d ds hrest, hfits, rfl⟩⟩
    · exact ⟨_, ⟨[], [45], [], _, _, by rw [hsplit]; rfl, by simp, .inr (.inr rfl), .inl rfl, hne,
        hhex, hmaximal, fun _ h x d ds hrest _ => hunprefixed h x d ds hrest, hfits, rfl⟩⟩

theorem exists_numeral {first second : UInt8} (h : (Item.percent first second).Readable) :
    ∃ value, Nonempty (Numeral ([first, second].takeWhile (· ≠ 0)) value) := by
  rcases h with hfirst | ⟨hlead, hsecond⟩
  · have hne := isHexDigit_ne_zero hfirst
    have hlength : ([first, second].takeWhile (· ≠ 0)).length ≤ 2 :=
      (List.takeWhile_prefix fun c : UInt8 => c ≠ 0).length_le
    exact exists_numeral_of_lead hlength (.inl rfl) ⟨first, by simp [hne], hfirst⟩
  · have hne := isHexDigit_ne_zero hsecond
    have hfirst : first ≠ 0 := by
      rintro rfl
      exact absurd hlead (by decide)
    have htext : [first, second].takeWhile (· ≠ 0) = [first] ++ [second] := by simp [hfirst, hne]
    rw [htext]
    exact exists_numeral_of_lead (by simp) (.inr ⟨first, rfl, hlead⟩) ⟨second, rfl, hsecond⟩

/-! ### One item -/

namespace Item

/-- What the decoder makes of an item. -/
def scan : Item → Except Failure UInt8
  | char c => if requiresPercentEncoding c then .error .nothing else .ok c
  | plus => .ok 32
  | percent first second => scanHex first second

theorem unreserved_iff (c : UInt8) : Unreserved c ↔ requiresPercentEncoding c = false :=
  forall_byte (p := fun c => Unreserved c ↔ requiresPercentEncoding c = false)
    (by decide +kernel) c

theorem readable_iff (item : Item) : item.Readable ↔ ∃ byte, item.scan = .ok byte := by
  cases item with
  | char c =>
    show Unreserved c ↔ _
    rw [unreserved_iff]
    cases h : requiresPercentEncoding c <;> simp [scan, h]
  | plus => simp [Readable, scan]
  | percent first second =>
    constructor
    · intro h
      obtain ⟨value, hvalue⟩ := exists_numeral h
      exact ⟨_, by rw [scan, scanHex, strToUint64_eq_ok_iff.mpr hvalue]⟩
    · rintro ⟨byte, hbyte⟩
      rw [scan, scanHex] at hbyte
      split at hbyte
      · next value hvalue =>
        obtain ⟨n⟩ := strToUint64_eq_ok_iff.mp hvalue
        exact readable_of_numeral n
      · cases hbyte

theorem Exact.scan {item : Item} (h : item.Exact) : item.scan = .ok item.byte := by
  cases item with
  | char c => simp [Item.scan, byte, (unreserved_iff c).mp h]
  | plus => rfl
  | percent first second =>
    obtain ⟨hfirst, hsecond⟩ := h
    have htext : [first, second].takeWhile (· ≠ 0) = [first, second] ++ [] := by
      simp [isHexDigit_ne_zero hfirst, isHexDigit_ne_zero hsecond]
    have hlt := @hexValue_lt [first, second] le_rfl
    have hnumber := @strToUint64_digits [first, second] [] (by simp)
      (by simp [hfirst, hsecond]) (.inl rfl) (by omega)
    rw [Item.scan, scanHex, htext, hnumber]
    simp only [byte, Except.ok.injEq]
    rw [Nat.mod_eq_of_lt (by omega)]

end Item

/-! ### Strings of items -/

theorem flatMap_cut (s : List UInt8) : (cut s).1.flatMap Item.text ++ (cut s).2 = s := by
  fun_induction cut s with
  | case1 => rfl
  | case2 first second rest ih => simp [Item.text, ih]
  | case3 str hnot => rfl
  | case4 str hne ih => simp [Item.text, ih]
  | case5 ch str hne hplus ih => simp [Item.text, ih]

/-- A sequence of items of the grammar is cut into them. -/
theorem cut_flatMap {items : List Item} (h : ∀ item ∈ items, item.Exact) :
    cut (items.flatMap Item.text) = (items, []) := by
  induction items with
  | nil => rfl
  | cons item items ih =>
    obtain ⟨hitem, hitems⟩ := List.forall_mem_cons.mp h
    have hrest := ih hitems
    rw [List.flatMap_cons]
    cases item with
    | char c =>
      obtain ⟨-, hpercent, hplus⟩ := unreserved_of_plain c ((Item.unreserved_iff c).mp hitem)
      rw [Item.text, List.singleton_append, cut.eq_def]
      simp only [if_neg hpercent, if_neg hplus, hrest]
    | plus =>
      rw [Item.text, List.singleton_append, cut.eq_def]
      simp [hrest]
    | percent first second =>
      show cut (37 :: first :: second :: items.flatMap Item.text) = _
      rw [cut.eq_def]
      simp [hrest]

/-- Where a count from `size` ends that goes over the items of a cut string. -/
def counted (size : ℕ) (items : List Item × List UInt8) : Except Failure ℕ :=
  if size + items.1.length < 2 ^ 31 then
    if items.2 = [] then .ok (size + items.1.length) else .error .nothing
  else .error .overflow

theorem increment_bind {count : ℕ → Except Failure ℕ} {items : List Item × List UInt8}
    (hcount : ∀ size < 2 ^ 31, count size = counted size items) (size : ℕ) (item : Item) :
    (increment size >>= count) = counted size (item :: items.1, items.2) := by
  have hlength : (item :: items.1).length = items.1.length + 1 := rfl
  rw [increment]
  split_ifs with hlt
  · refine (hcount _ hlt).trans ?_
    rw [counted, counted, hlength, Nat.add_right_comm, Nat.add_assoc]
  · exact (if_neg (by rw [hlength]; omega)).symm

/-- Items are counted until one is incomplete. -/
theorem countUnencoded_eq (s : List UInt8) :
    ∀ size < 2 ^ 31, countUnencoded size s = counted size (cut s) := by
  fun_induction cut s with
  | case1 =>
    intro size hsize
    exact (if_pos hsize).symm
  | case2 first second rest ih =>
    intro size _
    rw [countUnencoded.eq_def]
    exact increment_bind ih size _
  | case3 str hnot =>
    intro size hsize
    rw [countUnencoded.eq_def]
    simp only [if_true]
    exact (if_pos hsize).symm
  | case4 str hne ih =>
    intro size _
    rw [countUnencoded.eq_def]
    exact increment_bind ih size _
  | case5 ch str hne hplus ih =>
    intro size _
    rw [countUnencoded.eq_def]
    simp only [if_neg hne]
    exact increment_bind ih size _

/-- A string of items is decoded item by item. -/
def Decoded (items : List Item × List UInt8) (bytes : List UInt8) : Prop :=
  items.2 = [] ∧ List.Forall₂ (fun item byte => Item.scan item = .ok byte) items.1 bytes

theorem scan_bind_eq_ok_iff {rest : Except Failure (List UInt8)} {items : List Item × List UInt8}
    (hrest : ∀ bytes, rest = .ok bytes ↔ Decoded items bytes) (item : Item) (bytes : List UInt8) :
    (do return (← item.scan) :: (← rest)) = Except.ok bytes ↔
      Decoded (item :: items.1, items.2) bytes := by
  constructor
  · intro h
    cases hscan : item.scan with
    | error => simp [hscan, bind, Except.bind] at h
    | ok byte =>
      cases hbytes : rest with
      | error => simp [hscan, hbytes, bind, Except.bind] at h
      | ok bytes' =>
        rw [hscan, hbytes] at h
        cases h
        obtain ⟨hnil, hall⟩ := (hrest bytes').mp hbytes
        exact ⟨hnil, .cons hscan hall⟩
  · rintro ⟨hnil, hall⟩
    obtain ⟨byte, bytes', hscan, hbytes, rfl⟩ := List.forall₂_cons_left_iff.mp hall
    rw [hscan, (hrest bytes').mpr ⟨hnil, hbytes⟩]
    rfl

theorem unencode_eq_ok_iff (s : List UInt8) :
    ∀ bytes, unencode s = .ok bytes ↔ Decoded (cut s) bytes := by
  fun_induction cut s with
  | case1 =>
    intro bytes
    simp [unencode, Decoded, eq_comm]
  | case2 first second rest ih =>
    intro bytes
    rw [unencode.eq_def]
    exact scan_bind_eq_ok_iff ih (.percent first second) bytes
  | case3 str hnot =>
    intro bytes
    rw [unencode.eq_def]
    simp [Decoded]
  | case4 str hne ih =>
    intro bytes
    rw [unencode.eq_def]
    exact scan_bind_eq_ok_iff ih .plus bytes
  | case5 ch str hne hplus ih =>
    intro bytes
    rw [← scan_bind_eq_ok_iff ih (.char ch) bytes, unencode.eq_def]
    simp only [if_neg hne, if_neg hplus, Item.scan]
    cases requiresPercentEncoding ch <;> rfl

theorem decode_eq_ok_iff {s bytes : List UInt8} :
    Percent.decode s = .ok bytes ↔ (cut s).1.length < 2 ^ 31 ∧ Decoded (cut s) bytes := by
  rw [Percent.decode, urlUnencodeBase, countUnencoded_eq s 0 (by decide), counted, Nat.zero_add]
  split_ifs with hcount hnil
  · exact (unencode_eq_ok_iff s bytes).trans ⟨fun h => ⟨hcount, h⟩, And.right⟩
  · exact iff_of_false (by rintro ⟨⟩) fun h => hnil h.2.1
  · exact iff_of_false (by rintro ⟨⟩) fun h => hcount h.1

theorem unencode_ne_overflow (s : List UInt8) : unencode s ≠ .error .overflow := by
  have hcons {first : Except Failure UInt8} {rest : Except Failure (List UInt8)}
      (hfirst : first ≠ .error .overflow) (hrest : rest ≠ .error .overflow) :
      (do return (← first) :: (← rest)) ≠ Except.error Failure.overflow := by
    cases first with
    | error => simpa [bind, Except.bind] using hfirst
    | ok byte =>
      cases rest with
      | error => simpa [bind, Except.bind] using hrest
      | ok bytes => simp [bind, Except.bind, pure, Except.pure]
  have hscan (first second : UInt8) : scanHex first second ≠ .error .overflow := by
    rw [scanHex]
    split <;> simp
  fun_induction unencode s with
  | case1 => simp
  | case2 first second rest ih => exact hcons (hscan first second) ih
  | case3 => simp
  | case4 str hne ih => exact @hcons (.ok 32) _ (by simp) ih
  | case5 => simp
  | case6 ch str hne hplus hplain ih => exact @hcons (.ok ch) _ (by simp) ih

theorem decode_eq_overflow_iff {s : List UInt8} :
    Percent.decode s = .error .overflow ↔ 2 ^ 31 ≤ (cut s).1.length := by
  rw [Percent.decode, urlUnencodeBase, countUnencoded_eq s 0 (by decide), counted, Nat.zero_add]
  split_ifs with hcount hnil
  · exact iff_of_false (unencode_ne_overflow s) (by omega)
  · exact iff_of_false (by rintro ⟨⟩) (by omega)
  · exact iff_of_true rfl (by omega)

/-! ### The grammar -/

theorem Decoded.readable {items : List Item × List UInt8} {bytes : List UInt8}
    (h : Decoded items bytes) : ∀ item ∈ items.1, item.Readable := by
  intro item hitem
  obtain ⟨hlength, hall⟩ := List.forall₂_iff_get.mp h.2
  obtain ⟨index, hindex, rfl⟩ := List.mem_iff_getElem.mp hitem
  exact (Item.readable_iff _).mpr ⟨_, hall index hindex (hlength ▸ hindex)⟩

theorem exists_decoded {items : List Item} (h : ∀ item ∈ items, item.Readable) :
    ∃ bytes, Decoded (items, []) bytes := by
  induction items with
  | nil => exact ⟨[], rfl, .nil⟩
  | cons item items ih =>
    obtain ⟨hitem, hitems⟩ := List.forall_mem_cons.mp h
    obtain ⟨byte, hbyte⟩ := (Item.readable_iff item).mp hitem
    obtain ⟨bytes, -, hbytes⟩ := ih hitems
    exact ⟨byte :: bytes, rfl, .cons hbyte hbytes⟩

/-- Items of the grammar are decoded to their bytes. -/
theorem decoded_iff_of_exact {items : List Item} (h : ∀ item ∈ items, item.Exact)
    {bytes : List UInt8} : Decoded (items, []) bytes ↔ bytes = items.map Item.byte := by
  induction items generalizing bytes with
  | nil => simp [Decoded]
  | cons item items ih =>
    obtain ⟨hitem, hitems⟩ := List.forall_mem_cons.mp h
    have hrest := @ih hitems
    simp only [Decoded, true_and] at hrest
    simp only [Decoded, true_and, List.forall₂_cons_left_iff, List.map_cons, hitem.scan, hrest]
    simp [eq_comm]

/-- The decoder accepts the grammar and nothing else, as long as it can count the items and none of
the items that it reads is outside the grammar. -/
theorem decodesGrammar_iff (s : List UInt8) :
    DecodesGrammar s ↔ (cut s).1.length < 2 ^ 31 ∧
      ((cut s).2 = [] → (∀ item ∈ (cut s).1, item.Readable) → ∀ item ∈ (cut s).1, item.Exact) := by
  constructor
  · intro h
    have hcount : (cut s).1.length < 2 ^ 31 := by
      by_contra hle
      exact h.defined (decode_eq_overflow_iff.mpr (not_lt.mp hle))
    refine ⟨hcount, fun hnil hreadable => ?_⟩
    obtain ⟨bytes, -, hbytes⟩ := exists_decoded hreadable
    have hdecode := decode_eq_ok_iff.mpr ⟨hcount, hnil, hbytes⟩
    obtain ⟨items, rfl, hexact, -⟩ := (h.result bytes).mp hdecode
    rw [cut_flatMap hexact]
    exact hexact
  · rintro ⟨hcount, hexact⟩
    refine ⟨fun bytes => ?_, fun h => absurd (decode_eq_overflow_iff.mp h) (not_le.mpr hcount)⟩
    constructor
    · intro h
      obtain ⟨-, hnil, hbytes⟩ := decode_eq_ok_iff.mp h
      have hitems := hexact hnil (Decoded.readable ⟨hnil, hbytes⟩)
      refine ⟨(cut s).1, ?_, hitems, (decoded_iff_of_exact hitems).mp ⟨rfl, hbytes⟩⟩
      conv_lhs => rw [← flatMap_cut s, hnil, List.append_nil]
    · rintro ⟨items, rfl, hitems, rfl⟩
      have hcut := cut_flatMap hitems
      rw [hcut] at hcount
      refine decode_eq_ok_iff.mpr ⟨by rwa [hcut], ?_⟩
      rw [hcut]
      exact (decoded_iff_of_exact hitems).mpr rfl

/-- `"%1g"` is read as the byte 1. -/
theorem not_decodesGrammar_oneDigit : ¬ DecodesGrammar [37, 49, 103] := by
  intro h
  have hdecode : Percent.decode [37, 49, 103] = .ok [1] := by decide +kernel
  obtain ⟨items, htext, hexact, -⟩ := (h.result [1]).mp hdecode
  have hcut := cut_flatMap hexact
  rw [← htext] at hcut
  have hitem : Item.percent 49 103 ∈ items := by
    have heq : cut [37, 49, 103] = ([.percent 49 103], []) := by decide
    rw [heq] at hcut
    simp [← (Prod.mk.inj hcut).1]
  exact absurd (hexact _ hitem).2 (by decide)

end MediafireSdk.Utils.UrlEncode
