import Mathlib.Data.List.DropRight
import MediafireSdk.Http.ChunkedContent
import MediafireSdk.Http.ReadHeaders

/-! What a response says in its headers. A field is a line with a name and a value and the lines
that it is folded over. The parser looks a field that goes on up by its name, and its map keeps the
first of the fields with one name, so that the second one goes on in the first. -/

namespace MediafireSdk.Http

open Utils

/-! ### Trimming -/

section Trim
variable {c : UInt8} {bytes front back : List UInt8}

theorem trimRightBytes_append_cons (hc : isSpace c = false) :
    trimRightBytes (front ++ c :: back) = front ++ c :: trimRightBytes back := by
  have hfront : (c :: front.reverse).dropWhile isSpace = c :: front.reverse :=
    List.dropWhile_cons_of_neg (by simp [hc])
  have hreverse : (front ++ c :: back).reverse = back.reverse ++ c :: front.reverse := by simp
  rw [trimRightBytes, trimRightBytes, hreverse, List.dropWhile_append, hfront]
  split_ifs with hempty
  · simp [List.isEmpty_iff.mp hempty]
  · simp

theorem trimRightBytes_concat (hc : isSpace c = true) :
    trimRightBytes (bytes ++ [c]) = trimRightBytes bytes :=
  List.rdropWhile_concat_pos _ _ _ hc

theorem trimRightBytes_eq_nil : trimRightBytes bytes = [] ↔ ∀ c ∈ bytes, isSpace c = true :=
  List.rdropWhile_eq_nil_iff

/-- The spaces on one side may be dropped before those on the other. -/
theorem dropWhile_trimRightBytes (bytes : List UInt8) :
    (trimRightBytes bytes).dropWhile isSpace = trimBytes bytes := by
  rw [trimBytes]
  have hsplit := List.takeWhile_append_dropWhile (p := isSpace) (l := bytes)
  have hfront : ∀ c ∈ bytes.takeWhile isSpace, isSpace c = true :=
    fun _ => List.mem_takeWhile_imp
  cases hback : bytes.dropWhile isSpace with
  | nil =>
    rw [trimRightBytes_eq_nil.mpr (List.dropWhile_eq_nil_iff.mp hback)]
    rfl
  | cons c back =>
    have hc : isSpace c = false := by
      have hhead := List.head?_dropWhile_not isSpace bytes
      rw [hback] at hhead
      simpa using hhead
    rw [hback] at hsplit
    rw [← hsplit, trimRightBytes_append_cons hc, List.dropWhile_append_of_pos hfront,
      List.dropWhile_cons_of_neg (by simp [hc])]
    exact (@trimRightBytes_append_cons c [] back hc).symm

theorem trimBytes_trimRightBytes : trimBytes (trimRightBytes bytes) = trimBytes bytes := by
  have hidem : trimRightBytes (trimRightBytes bytes) = trimRightBytes bytes :=
    List.rdropWhile_idempotent _ _
  rw [← dropWhile_trimRightBytes, hidem, dropWhile_trimRightBytes]

theorem trimBytes_cons (hc : isSpace c = true) : trimBytes (c :: bytes) = trimBytes bytes := by
  rw [trimBytes, List.dropWhile_cons_of_pos hc, trimBytes]

theorem trimBytes_eq_nil : trimBytes bytes = [] ↔ ∀ c ∈ bytes, isSpace c = true := by
  rw [trimBytes, trimRightBytes_eq_nil]
  constructor
  · intro h c hc
    by_contra hspace
    have hne : bytes.dropWhile isSpace ≠ [] := fun hnil =>
      hspace (List.dropWhile_eq_nil_iff.mp hnil c hc)
    have hhead := List.head_dropWhile_not isSpace hne
    exact absurd (h _ (List.head_mem hne)) (by simp [hhead])
  · exact fun h c hc => h c ((List.dropWhile_suffix isSpace).subset hc)

theorem trimBytes_eq_self (h : ∀ c ∈ bytes, isSpace c = false) : trimBytes bytes = bytes := by
  rcases List.eq_nil_or_concat bytes with rfl | ⟨front, c, rfl⟩
  · rfl
  · rw [trimBytes, List.dropWhile_eq_self_iff.mpr]
    · rw [List.concat_eq_append]
      exact trimRightBytes_append_cons (h c (by simp))
    · intro hlength
      exact Bool.eq_false_iff.mp (h _ (List.getElem_mem hlength))

end Trim

/-! ### Fields -/

/-- A character of a token: no control, no space and no separator. -/
def isToken (c : UInt8) : Bool :=
  33 ≤ c && c ≤ 126 &&
    c ∉ ([40, 41, 60, 62, 64, 44, 59, 58, 92, 34, 47, 91, 93, 63, 61, 123, 125] : List UInt8)

/-- A field as it is sent: its name, the rest of its first line, and the lines that it is folded
over, each with the space or the tab at its start. -/
structure Field where
  name : List UInt8
  value : List UInt8
  folds : List (UInt8 × List UInt8) := []
  name_ne : name ≠ []
  name_token : ∀ c ∈ name, isToken c = true
  value_plain : 10 ∉ value ∧ 13 ∉ value
  folds_plain : ∀ fold ∈ folds, (fold.1 = 32 ∨ fold.1 = 9) ∧ 10 ∉ fold.2 ∧ 13 ∉ fold.2

namespace Field
variable (f : Field)

/-- `name: value`, up to the line feed. -/
def firstLine : List UInt8 := f.name ++ 58 :: 32 :: f.value ++ [13]

def foldLine (fold : UInt8 × List UInt8) : List UInt8 := fold.1 :: fold.2 ++ [13]

def lines : List (List UInt8) := f.firstLine :: f.folds.map foldLine

/-- The name in lower case. -/
def key : String := bytesToString (f.name.map toLower)

/-- The parts of the value, without the space around them. -/
def parts : List (List UInt8) := trimBytes f.value :: f.folds.map fun fold => trimBytes fold.2

/-- The value that the field has: the parts that there are, joined by single spaces. -/
def wholeValue : String := bytesToString ([32].intercalate (f.parts.filter (· ≠ [])))

/-- The fields as they are sent, each line with its end. -/
def render (fields : List Field) : List UInt8 :=
  (fields.flatMap lines).flatMap (· ++ [10])

end Field

/-- The map that the loop over the lines leaves. -/
def headerMap (bytes : List UInt8) : Option Headers :=
  ((headerLines bytes).1.foldlM headerLine {}).map ParsedLines.headers

/-- The handler passes that map on. -/
theorem headers_of_handleHeaderRead {url : String} {buffer lines : List UInt8} {n : ℕ}
    {status : StatusLine} {evt : HeadersReadEvent}
    (hstatus : readStatusLine 16 buffer = some (status, lines))
    (h : handleHeaderRead url buffer n none = .ok evt) : headerMap lines = some evt.headers := by
  simp only [handleHeaderRead, hstatus] at h
  split_ifs at h
  rw [headerMap]
  cases hlines : (headerLines lines).1.foldlM headerLine {} with
  | none =>
    rw [parseLines, hlines] at h
    cases h
  | some parsed =>
    simp only [parseLines, hlines] at h
    cases hlength : parseContentLength url parsed.headers with
    | error e =>
      rw [hlength] at h
      cases h
    | ok contentLength =>
      rw [hlength] at h
      cases h
      rfl

/-! ### The lines of a field -/

theorem isToken_spec {c : UInt8} (h : isToken c = true) :
    isSpace c = false ∧ c ≠ 58 ∧ c ≠ 10 ∧ c ≠ 13 ∧ c ≠ 32 ∧ c ≠ 9 := by
  have hall : ∀ n < 256, isToken (UInt8.ofNat n) = true →
      isSpace (UInt8.ofNat n) = false ∧ UInt8.ofNat n ≠ 58 ∧ UInt8.ofNat n ≠ 10 ∧
        UInt8.ofNat n ≠ 13 ∧ UInt8.ofNat n ≠ 32 ∧ UInt8.ofNat n ≠ 9 := by decide +kernel
  have hc := hall c.toNat c.toNat_lt
  rw [UInt8.ofNat_toNat] at hc
  exact hc h

theorem bytesToString_append (a b : List UInt8) :
    bytesToString (a ++ b) = bytesToString a ++ bytesToString b := by
  simp [bytesToString, String.ofList_append]

theorem bytesToString_injective : Function.Injective bytesToString := by
  intro a b h
  have hchar : Function.Injective fun c : UInt8 => Char.ofNat c.toNat := by
    intro c d hcd
    have hall : ∀ n < 256, (Char.ofNat n).toNat = n := by decide +kernel
    have hnat := congrArg Char.toNat hcd
    dsimp only at hnat
    rw [hall _ c.toNat_lt, hall _ d.toNat_lt] at hnat
    exact UInt8.toNat_inj.mp hnat
  exact hchar.list_map (String.ofList_injective h)

theorem bytesToString_eq_empty {bytes : List UInt8} : bytesToString bytes = "" ↔ bytes = [] :=
  bytesToString_injective.eq_iff' rfl

namespace Field
variable (f : Field)

theorem key_ne : f.key ≠ "" := by
  rw [key, ne_eq, bytesToString_eq_empty, List.map_eq_nil_iff]
  exact f.name_ne

/-- What a line that goes on adds. -/
def foldText (fold : UInt8 × List UInt8) : String :=
  if trimBytes fold.2 = [] then "" else " " ++ bytesToString (trimBytes fold.2)

theorem trimRightBytes_firstLine :
    trimRightBytes f.firstLine = f.name ++ 58 :: trimRightBytes (32 :: f.value) := by
  rw [firstLine, List.append_assoc, List.cons_append, trimRightBytes_append_cons (by decide),
    trimRightBytes_concat (by decide)]

/-- The first line of a field names it and gives a value unless the name has one. -/
theorem headerLine_firstLine (parsed : ParsedLines) :
    headerLine parsed f.firstLine =
      some ⟨emplace parsed.headers f.key (bytesToString (trimBytes f.value)), f.key⟩ := by
  obtain ⟨c, cs, hname⟩ := List.exists_cons_of_ne_nil f.name_ne
  have hc := isToken_spec (f.name_token c (hname ▸ List.mem_cons_self))
  have hcolon : ∀ c ∈ f.name, decide (c ≠ 58) = true :=
    fun c hc => decide_eq_true (isToken_spec (f.name_token c hc)).2.1
  have hstop : decide ((58 : UInt8) ≠ 58) = false := rfl
  have hname' : trimBytes f.name = f.name :=
    trimBytes_eq_self fun c hc => (isToken_spec (f.name_token c hc)).1
  have hvalue : trimBytes (trimRightBytes (32 :: f.value)) = trimBytes f.value := by
    rw [trimBytes_trimRightBytes, trimBytes_cons (by decide)]
  have hhead : (f.name ++ 58 :: trimRightBytes (32 :: f.value)).head? = some c := by
    rw [hname]
    rfl
  rw [headerLine, trimRightBytes_firstLine]
  simp only [hhead]
  rw [if_neg (by simp), if_neg (by simp [hc]), if_pos (by simp),
    List.takeWhile_append_of_pos hcolon, List.dropWhile_append_of_pos hcolon,
    List.takeWhile_cons_of_neg (by simp), List.dropWhile_cons_of_neg (by simp), List.append_nil,
    List.tail_cons, hname', hvalue]
  rfl

/-- The text behind the value of a name. -/
def extend (headers : Headers) (key text : String) : Headers :=
  headers.map fun (name, value) => if name = key then (name, value ++ text) else (name, value)

theorem extend_empty (headers : Headers) (key : String) : extend headers key "" = headers := by
  simp [extend]

/-- A line that goes on adds its text to the last name, which a blank one does not have. -/
theorem headerLine_foldLine {fold : UInt8 × List UInt8} (hfold : fold.1 = 32 ∨ fold.1 = 9)
    (parsed : ParsedLines) (hlast : parsed.lastHeaderName ≠ "") :
    headerLine parsed (foldLine fold) =
      some { parsed with
        headers := extend parsed.headers parsed.lastHeaderName (foldText fold) } := by
  have hspace : isSpace fold.1 = true := by rcases hfold with h | h <;> rw [h] <;> rfl
  have htrim : trimRightBytes (foldLine fold) = trimRightBytes (fold.1 :: fold.2) :=
    trimRightBytes_concat (by decide)
  have hblank : trimRightBytes (fold.1 :: fold.2) = [] ↔ trimBytes fold.2 = [] := by
    rw [trimRightBytes_eq_nil, trimBytes_eq_nil, List.forall_mem_cons]
    exact and_iff_right hspace
  rw [headerLine, htrim, foldText]
  by_cases hnil : trimBytes fold.2 = []
  · simp only [hblank.mpr hnil, hnil, if_true, extend_empty]
  · have hprefix : trimRightBytes (fold.1 :: fold.2) <+: fold.1 :: fold.2 :=
      List.rdropWhile_prefix _ _
    obtain ⟨c, cs, hcs⟩ := List.exists_cons_of_ne_nil (mt hblank.mp hnil)
    have hc : c = fold.1 := by
      rw [hcs] at hprefix
      exact (List.cons_prefix_cons.mp hprefix).1
    have hhead : (trimRightBytes (fold.1 :: fold.2)).head? = some fold.1 := by
      rw [hcs, hc]
      rfl
    simp only [hhead, mt hblank.mp hnil, hnil, if_false, Option.some.injEq, hfold, if_true, hlast]
    rw [trimBytes_trimRightBytes, trimBytes_cons hspace]
    simp only [extend, String.append_assoc]

/-- What the lines behind the first one add. -/
def foldedText (folds : List (UInt8 × List UInt8)) : String :=
  folds.foldr (fun fold text => foldText fold ++ text) ""

theorem extend_extend (headers : Headers) (key a b : String) :
    extend (extend headers key a) key b = extend headers key (a ++ b) := by
  rw [extend, extend, extend, List.map_map]
  refine List.map_congr_left fun (name, value) _ => ?_
  by_cases h : name = key <;> simp [h, String.append_assoc]

theorem foldlM_folds {folds : List (UInt8 × List UInt8)}
    (hfolds : ∀ fold ∈ folds, fold.1 = 32 ∨ fold.1 = 9) (headers : Headers) {key : String}
    (hkey : key ≠ "") : (folds.map foldLine).foldlM headerLine ⟨headers, key⟩ =
      some ⟨extend headers key (foldedText folds), key⟩ := by
  induction folds generalizing headers with
  | nil => simp [foldedText, extend_empty]
  | cons fold folds ih =>
    obtain ⟨hfold, hrest⟩ := List.forall_mem_cons.mp hfolds
    rw [List.map_cons, List.foldlM_cons, headerLine_foldLine hfold ⟨headers, key⟩ hkey,
      Option.bind_eq_bind, Option.bind_some, ih hrest, extend_extend]
    rfl

/-- The map behind the first line of a field. -/
def opened (headers : Headers) : Headers :=
  emplace headers f.key (bytesToString (trimBytes f.value))

/-- The loop over the lines of a field. -/
def after (parsed : ParsedLines) (f : Field) : ParsedLines :=
  ⟨extend (f.opened parsed.headers) f.key (foldedText f.folds), f.key⟩

theorem foldlM_done (parsed : ParsedLines) {done : List (UInt8 × List UInt8)}
    (hdone : done <+: f.folds) :
    (f.firstLine :: done.map foldLine).foldlM headerLine parsed =
      some ⟨extend (f.opened parsed.headers) f.key (foldedText done), f.key⟩ := by
  have hfolds : ∀ fold ∈ done, fold.1 = 32 ∨ fold.1 = 9 :=
    fun fold hfold => (f.folds_plain fold (hdone.subset hfold)).1
  rw [List.foldlM_cons, f.headerLine_firstLine, Option.bind_eq_bind, Option.bind_some,
    foldlM_folds hfolds _ f.key_ne]
  rfl

theorem foldlM_lines (parsed : ParsedLines) :
    f.lines.foldlM headerLine parsed = some (after parsed f) := f.foldlM_done parsed List.prefix_rfl

theorem foldlM_flatMap_lines (fields : List Field) (parsed : ParsedLines) :
    (fields.flatMap lines).foldlM headerLine parsed =
      some (fields.foldl after parsed) := by
  induction fields generalizing parsed with
  | nil => rfl
  | cons f fields ih =>
    rw [List.flatMap_cons, List.foldlM_append, foldlM_lines, Option.bind_eq_bind, Option.bind_some,
      ih, List.foldl_cons]

/-! ### The lines of a block -/

theorem lines_spec {line : List UInt8} (h : line ∈ f.lines) : 10 ∉ line ∧ line ≠ [13] := by
  rcases List.mem_cons.mp h with rfl | hfold
  · have hname : 10 ∉ f.name := fun hmem => (isToken_spec (f.name_token 10 hmem)).2.2.1 rfl
    refine ⟨by simp [firstLine, hname, f.value_plain.1], fun heq => ?_⟩
    have hlength := congrArg List.length heq
    simp [firstLine] at hlength
    omega
  · obtain ⟨fold, hmem, rfl⟩ := List.mem_map.mp hfold
    obtain ⟨hspace, hplain, -⟩ := f.folds_plain fold hmem
    refine ⟨?_, fun heq => by simp [foldLine] at heq⟩
    rcases hspace with hspace | hspace <;> simp [foldLine, hspace, hplain]

theorem headerLines_of_lines {lines : List (List UInt8)}
    (h : ∀ line ∈ lines, 10 ∉ line ∧ line ≠ [13]) (tail : List UInt8) :
    headerLines (lines.flatMap (· ++ [10]) ++ 13 :: 10 :: tail) = (lines, tail) := by
  induction lines with
  | nil =>
    have hfeed : (10 : UInt8) ∉ [13] := by decide
    have hline : getline (13 :: 10 :: tail) = ([13], tail) := getline_of_mem hfeed
    rw [headerLines, if_neg (by simp), List.flatMap_nil, List.nil_append, hline, if_pos rfl]
  | cons line lines ih =>
    obtain ⟨⟨hfeed, hnot⟩, hrest⟩ := List.forall_mem_cons.mp h
    have hsplit : (line :: lines).flatMap (· ++ [10]) ++ 13 :: 10 :: tail =
        line ++ 10 :: (lines.flatMap (· ++ [10]) ++ 13 :: 10 :: tail) := by simp
    rw [hsplit, headerLines, if_neg (by simp), getline_of_mem hfeed, if_neg hnot, ih hrest]

/-- The loop gets the lines of the fields, up to the empty line. -/
theorem headerMap_render (fields : List Field) (tail : List UInt8) :
    headerMap (render fields ++ 13 :: 10 :: tail) =
      some (fields.foldl after {}).headers := by
  have hlines : ∀ line ∈ fields.flatMap lines, 10 ∉ line ∧ line ≠ [13] := by
    intro line hline
    obtain ⟨f, -, hmem⟩ := List.mem_flatMap.mp hline
    exact f.lines_spec hmem
  rw [headerMap, render, headerLines_of_lines hlines, foldlM_flatMap_lines]
  rfl

/-! ### Names that are different -/

theorem lookup_extend (headers : Headers) (key text name : String) :
    (extend headers key text).lookup name =
      (headers.lookup name).map fun value => if name = key then value ++ text else value := by
  induction headers with
  | nil => rfl
  | cons entry headers ih =>
    obtain ⟨name', value⟩ := entry
    have hcons : extend ((name', value) :: headers) key text =
        (name', if name' = key then value ++ text else value) :: extend headers key text := by
      rw [extend, List.map_cons]
      by_cases h : name' = key <;> simp [h, extend]
    rw [hcons, List.lookup_cons, List.lookup_cons, ih]
    cases h : name == name' with
    | true => rw [beq_iff_eq.mp h, Option.map_some]
    | false => rfl

theorem isSome_lookup_opened (headers : Headers) : ((f.opened headers).lookup f.key).isSome := by
  rw [opened, emplace]
  split_ifs with h
  · exact h
  · rw [List.lookup_append, List.lookup_cons_self, Option.isSome_or]
    exact Bool.or_true _

theorem extend_of_not_mem {headers : Headers} {key : String} (text : String)
    (h : key ∉ headers.map Prod.fst) : extend headers key text = headers := by
  have hsame : ∀ entry ∈ headers,
      (if entry.1 = key then (entry.1, entry.2 ++ text) else (entry.1, entry.2)) = id entry :=
    fun entry hentry => if_neg (ne_of_mem_of_not_mem (List.mem_map_of_mem hentry) h)
  rw [extend, List.map_congr_left hsame, List.map_id]

/-- What the map holds for a field of its own. -/
def heldValue : String := bytesToString (trimBytes f.value) ++ foldedText f.folds

theorem after_of_not_mem {parsed : ParsedLines} (h : f.key ∉ parsed.headers.map Prod.fst) :
    after parsed f = ⟨parsed.headers ++ [(f.key, f.heldValue)], f.key⟩ := by
  have hnone : (parsed.headers.lookup f.key).isSome = false := by
    rw [Bool.eq_false_iff, ne_eq, List.lookup_isSome_iff]
    rintro ⟨entry, hmem, heq⟩
    exact h (List.mem_map.mpr ⟨entry, hmem, (beq_iff_eq.mp heq).symm⟩)
  have hopened : f.opened parsed.headers =
      parsed.headers ++ [(f.key, bytesToString (trimBytes f.value))] := by
    rw [opened, emplace, if_neg (by simp [hnone])]
  have hheld := extend_of_not_mem (foldedText f.folds) h
  rw [extend] at hheld
  rw [after, hopened, extend, List.map_append, hheld]
  simp [heldValue]

theorem foldl_after_of_nodup {fields : List Field} {parsed : ParsedLines}
    (h : (parsed.headers.map Prod.fst ++ fields.map key).Nodup) :
    (fields.foldl after parsed).headers =
      parsed.headers ++ fields.map fun f => (f.key, f.heldValue) := by
  induction fields generalizing parsed with
  | nil => simp
  | cons f fields ih =>
    have hmem : f.key ∉ parsed.headers.map Prod.fst := fun hmem =>
      (List.nodup_append.mp h).2.2 _ hmem _ List.mem_cons_self rfl
    rw [List.foldl_cons, after_of_not_mem f hmem, ih]
    · simp
    · simpa using h

theorem key_nodup {fields : List Field}
    (h : (fields.map fun f => f.name.map toLower).Nodup) : (fields.map key).Nodup := by
  have hmap : fields.map key = (fields.map fun f => f.name.map toLower).map bytesToString := by
    rw [List.map_map]
    rfl
  rw [hmap]
  exact h.map bytesToString_injective

/-! ### Values -/

theorem foldedText_eq (folds : List (UInt8 × List UInt8)) :
    foldedText folds = bytesToString
      (((folds.map fun fold => trimBytes fold.2).filter (· ≠ [])).flatMap (32 :: ·)) := by
  induction folds with
  | nil => rfl
  | cons fold folds ih =>
    have hcons : foldedText (fold :: folds) = foldText fold ++ foldedText folds := rfl
    rw [hcons, ih, foldText, List.map_cons]
    by_cases hnil : trimBytes fold.2 = []
    · simp [hnil]
    · rw [if_neg hnil, List.filter_cons_of_pos (by simp [hnil]), List.flatMap_cons,
        bytesToString_append]
      have hspace : bytesToString (32 :: trimBytes fold.2) =
          " " ++ bytesToString (trimBytes fold.2) :=
        bytesToString_append [32] (trimBytes fold.2)
      rw [hspace]

/-- A field without a value on its first line is not folded over anything. -/
def StartsFilled : Prop := trimBytes f.value = [] → ∀ fold ∈ f.folds, trimBytes fold.2 = []

theorem heldValue_eq_iff : f.heldValue = f.wholeValue ↔ f.StartsFilled := by
  rw [heldValue, wholeValue, foldedText_eq, ← bytesToString_append, parts,
    bytesToString_injective.eq_iff]
  by_cases hvalue : trimBytes f.value = []
  · rw [hvalue, List.filter_cons_of_neg (by simp), List.nil_append]
    generalize hrest : (f.folds.map fun fold => trimBytes fold.2).filter (· ≠ []) = rest
    have hblank : rest = [] ↔ f.StartsFilled := by
      rw [← hrest, StartsFilled, List.filter_eq_nil_iff, List.forall_mem_map]
      simp [hvalue]
    rw [← hblank]
    cases rest with
    | nil => simp [List.intercalate]
    | cons part parts =>
      rw [intercalate_cons]
      refine iff_of_false (fun heq => ?_) (List.cons_ne_nil part parts)
      have hlength := congrArg List.length heq
      simp at hlength
  · rw [List.filter_cons_of_pos (by simp [hvalue]), intercalate_cons]
    exact iff_of_true rfl fun hnil => absurd hnil hvalue

/-! ### The map and the fields -/

/-- With names that are different whatever their case, the map has exactly these names in lower
case, each with the value of its field. -/
def MapsAll (fields : List Field) : Prop :=
  (fields.map fun f => f.name.map toLower).Nodup → ∀ tail,
    headerMap (render fields ++ 13 :: 10 :: tail) = some (fields.map fun f => (f.key, f.wholeValue))

/-- A line that goes on changes no value but the one that its own field has given. -/
def FoldsApart (fields : List Field) : Prop :=
  ∀ earlier f later, fields = earlier ++ f :: later →
    ∀ done fold rest, f.folds = done ++ fold :: rest → ∀ before after,
      (earlier.flatMap lines ++ f.firstLine :: done.map foldLine).foldlM headerLine {} =
          some before →
        headerLine before (foldLine fold) = some after →
          ∀ name, after.headers.lookup name ≠ before.headers.lookup name →
            name = f.key ∧ name ∉ earlier.map key

/-- A field with the name of one before it goes on with blank lines only. -/
def RepeatsUnfolded (fields : List Field) : Prop :=
  ∀ earlier f later, fields = earlier ++ f :: later → f.key ∈ earlier.map key →
    ∀ fold ∈ f.folds, trimBytes fold.2 = []

theorem mapsAll_iff (fields : List Field) : MapsAll fields ↔
    ((fields.map fun f => f.name.map toLower).Nodup → ∀ f ∈ fields, f.StartsFilled) := by
  refine forall_congr' fun hnodup => ?_
  have hmap : ∀ tail, headerMap (render fields ++ 13 :: 10 :: tail) =
      some (fields.map fun f => (f.key, f.heldValue)) := by
    intro tail
    rw [headerMap_render, foldl_after_of_nodup (by simpa using key_nodup hnodup)]
    rfl
  simp only [hmap, forall_const, Option.some.injEq, List.map_inj_left, Prod.mk.injEq, true_and,
    heldValue_eq_iff]

/-- One line that goes on, in the middle of a field. -/
theorem lookup_fold_iff (parsed : ParsedLines) {done rest : List (UInt8 × List UInt8)}
    {fold : UInt8 × List UInt8} (hfolds : f.folds = done ++ fold :: rest) (name : String) :
    let before : ParsedLines :=
      ⟨extend (f.opened parsed.headers) f.key (foldedText done), f.key⟩
    ∃ after, headerLine before (foldLine fold) = some after ∧
      (after.headers.lookup name ≠ before.headers.lookup name ↔
        name = f.key ∧ trimBytes fold.2 ≠ []) := by
  intro before
  have hfold := (f.folds_plain fold (hfolds ▸ by simp)).1
  refine ⟨_, headerLine_foldLine hfold before f.key_ne, ?_⟩
  have htext : foldText fold = "" ↔ trimBytes fold.2 = [] := by
    rw [foldText]
    split_ifs with hnil
    · exact iff_of_true rfl hnil
    · refine iff_of_false (fun hempty => ?_) hnil
      have hlength := congrArg String.length hempty
      simp at hlength
  by_cases hname : name = f.key
  · subst hname
    obtain ⟨value, hvalue⟩ : ∃ value, before.headers.lookup f.key = some value := by
      refine Option.isSome_iff_exists.mp ?_
      rw [lookup_extend, Option.isSome_map]
      exact f.isSome_lookup_opened parsed.headers
    rw [lookup_extend, hvalue]
    simp [htext, before]
  · have hsame : (extend before.headers f.key (foldText fold)).lookup name =
        before.headers.lookup name := by
      rw [lookup_extend]
      simp [hname]
    exact iff_of_false (fun hne => hne hsame) fun h => hname h.1

theorem foldsApart_iff (fields : List Field) : FoldsApart fields ↔ RepeatsUnfolded fields := by
  have hbefore : ∀ (earlier : List Field) (f : Field) (done : List (UInt8 × List UInt8)),
      done <+: f.folds →
        (earlier.flatMap lines ++ f.firstLine :: done.map foldLine).foldlM headerLine {} =
          some ⟨extend (f.opened (earlier.foldl after {}).headers) f.key (foldedText done),
            f.key⟩ := by
    intro earlier f done hdone
    rw [List.foldlM_append, foldlM_flatMap_lines, Option.bind_eq_bind, Option.bind_some]
    exact f.foldlM_done _ hdone
  constructor
  · intro h earlier f later hfields hkey fold hfold
    by_contra hnil
    obtain ⟨done, rest, hfolds⟩ := List.append_of_mem hfold
    obtain ⟨after, hafter, hiff⟩ :=
      f.lookup_fold_iff (earlier.foldl after {}) hfolds f.key
    have hrun := hbefore earlier f done (hfolds ▸ List.prefix_append _ _)
    exact (h earlier f later hfields done fold rest hfolds _ after hrun hafter f.key
      (hiff.mpr ⟨rfl, hnil⟩)).2 hkey
  · intro h earlier f later hfields done fold rest hfolds before after hrun hafter name hchanged
    obtain ⟨after', hafter', hiff⟩ :=
      f.lookup_fold_iff (earlier.foldl Field.after {}) hfolds name
    rw [hbefore earlier f done (hfolds ▸ List.prefix_append _ _)] at hrun
    cases hrun
    rw [hafter'] at hafter
    cases hafter
    obtain ⟨hname, hnil⟩ := hiff.mp hchanged
    refine ⟨hname, fun hkey => hnil ?_⟩
    exact h earlier f later hfields (hname ▸ hkey) fold (hfolds ▸ by simp)

/-- The fields become the right entries, where those with different names that go on have a value
on their first line, and those that repeat a name do not go on. -/
theorem headerFields_iff (fields : List Field) : MapsAll fields ∧ FoldsApart fields ↔
    ((fields.map fun f => f.name.map toLower).Nodup → ∀ f ∈ fields, f.StartsFilled) ∧
      RepeatsUnfolded fields :=
  and_congr (mapsAll_iff fields) (foldsApart_iff fields)

end Field

/-- `A: 1`, and `a: 2` with `3` on a line of its own. -/
def repeatedFields : List Field :=
  [{ name := [65], value := [49], name_ne := by decide, name_token := by decide +kernel
     value_plain := by decide, folds_plain := by simp },
   { name := [97], value := [50], folds := [(32, [51])], name_ne := by decide
     name_token := by decide +kernel, value_plain := by decide, folds_plain := by decide }]

/-- The third line goes on in the value of the first. -/
example : headerMap (Field.render repeatedFields ++ [13, 10]) = some [("a", "1 3")] := by
  decide +kernel

theorem not_headerFields_repeated :
    ¬∀ fields : List Field, Field.MapsAll fields ∧ Field.FoldsApart fields := by
  intro h
  have hunfolded := (Field.foldsApart_iff repeatedFields).mp (h repeatedFields).2
  have hblank := hunfolded [_] _ [] rfl (by decide) (32, [51]) (by decide)
  exact absurd hblank (by decide)

end MediafireSdk.Http
