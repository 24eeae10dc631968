import MediafireSdk.Utils.ReadString

/-! `FileIO::ReadLine` (`fileio.cpp`) with any limit in place of `skDefaultReadSize`. The loop tests
its limit with the next character already taken from the stream. -/

namespace MediafireSdk.Utils.FileIO

/-- `fgetc`; `none` is `EOF`. -/
def fgetc (file : FileIO) : Option UInt8 × FileIO :=
  match file.readable[file.pos]? with
  | some c => (some c, { file with pos := file.pos + 1 })
  | none => (none, file)

/-- The variables of `ReadLine` behind its loop. -/
structure Line where
  file : FileIO
  inputChar : Option UInt8
  lineData : List UInt8
  /-- `bytes_consumed >= skDefaultReadSize`. -/
  limitReached : Bool
  deriving DecidableEq, Repr

/-- The loop, which may consume `left` more bytes. -/
def lineLoop (left : ℕ) (inputChar : Option UInt8) (file : FileIO) (lineData : List UInt8) : Line :=
  match inputChar with
  | none => ⟨file, none, lineData, left = 0⟩
  | some c =>
    if c = 10 then ⟨file, some c, lineData, left = 0⟩
    else
      match left with
      | 0 => ⟨file, some c, lineData, true⟩
      | left + 1 => lineLoop left file.fgetc.1 file.fgetc.2 (lineData ++ [c])

def Line.error (line : Line) : Option FileIoError :=
  match line.inputChar with
  | none =>
    if line.file.readable.length = line.file.content.length then some .endOfFile
    else some .streamError
  | some _ => if line.limitReached then some .lineTooLong else none

/-- The loop from where no character has been taken yet. -/
def lineFrom (left : ℕ) (file : FileIO) (lineData : List UInt8) : Line :=
  lineLoop left file.fgetc.1 file.fgetc.2 lineData

def readLine (limit : ℕ) (file : FileIO) : Line := lineFrom limit file []

/-! ### Successive calls -/

/-- What a call says about the file: its line, and a newline when it reports no error. -/
def Line.text (line : Line) : List UInt8 :=
  line.lineData ++ if line.error = none then [10] else []

/-- What a number of calls return. -/
def readLines (limit : ℕ) : ℕ → FileIO → List Line
  | 0, _ => []
  | calls + 1, file => readLine limit file :: readLines limit calls (readLine limit file).file

/-- The stream behind a number of calls. -/
def afterLines (limit : ℕ) : ℕ → FileIO → FileIO
  | 0, file => file
  | calls + 1, file => afterLines limit calls (readLine limit file).file

/-- The errors of a call say what lies ahead of it. -/
structure ReportsLine (limit : ℕ) (file : FileIO) : Prop where
  lineTooLong : (readLine limit file).error = some .lineTooLong ↔
    limit < file.remaining.length ∧ 10 ∉ file.remaining.take limit
  endOfFile : (readLine limit file).error = some .endOfFile ↔
    file.remaining.length ≤ limit ∧ 10 ∉ file.remaining

structure LosesNoByte (limit : ℕ) (content : List UInt8) : Prop where
  whole : ∃ calls, ∀ more ≥ calls,
    (readLines limit more { content }).flatMap Line.text = content
  reports : ∀ calls, ReportsLine limit (afterLines limit calls { content })

/-- Among any `limit` bytes that are not the last ones of the file there is a newline. -/
def LinesFit (limit : ℕ) (content : List UInt8) : Prop :=
  ∀ i, i + limit < content.length → 10 ∈ (content.drop i).take limit

/-! ### One call -/

/-- The stream behind some more bytes. -/
def advance (file : FileIO) (bytes : ℕ) : FileIO := { file with pos := file.pos + bytes }

theorem advance_advance (file : FileIO) (n m : ℕ) :
    (file.advance n).advance m = file.advance (n + m) := by
  simp [advance, Nat.add_assoc]

theorem fgetc_nil {file : FileIO} (h : file.remaining = []) : file.fgetc = (none, file) := by
  have hnone : file.readable[file.pos]? = none :=
    List.getElem?_eq_none (List.drop_eq_nil_iff.mp h)
  simp [fgetc, hnone]

theorem fgetc_cons {file : FileIO} {c : UInt8} {rest : List UInt8}
    (h : file.remaining = c :: rest) : file.fgetc = (some c, file.advance 1) := by
  have hsome : file.readable[file.pos]? = some c := by
    rw [← List.head?_drop]
    exact congrArg List.head? h
  simp [fgetc, hsome, advance]

theorem remaining_advance {file : FileIO} {bytes rest : List UInt8}
    (h : file.remaining = bytes ++ rest) : (file.advance bytes.length).remaining = rest := by
  show file.readable.drop (file.pos + bytes.length) = rest
  rw [← List.drop_drop]
  exact (congrArg (List.drop bytes.length) h).trans List.drop_left

section

variable {file : FileIO} {line rest : List UInt8} {left : ℕ} (lineData : List UInt8)

/-- The loop over bytes of a line. -/
theorem lineFrom_append (h : file.remaining = line ++ rest) (hline : 10 ∉ line)
    (hleft : line.length ≤ left) :
    lineFrom left file lineData =
      lineFrom (left - line.length) (file.advance line.length) (lineData ++ line) := by
  induction line generalizing file left lineData with
  | nil => simp [advance]
  | cons c line ih =>
    cases left with
    | zero => simp at hleft
    | succ left =>
      rw [List.mem_cons, not_or] at hline
      have hnext := @remaining_advance file [c] (line ++ rest) h
      have hrest := ih (lineData ++ [c]) hnext hline.2 (Nat.le_of_succ_le_succ hleft)
      rw [lineFrom, fgetc_cons h, lineLoop.eq_def]
      simp only [if_neg (Ne.symm hline.1)]
      rw [List.length_cons, Nat.add_sub_add_right, Nat.add_comm line.length, ← advance_advance,
        List.append_cons lineData c line]
      exact hrest

/-- The newline of a line that is not too long. -/
theorem lineFrom_newline (h : file.remaining = line ++ 10 :: rest) (hline : 10 ∉ line)
    (hleft : line.length < left) :
    lineFrom left file lineData =
      ⟨file.advance (line.length + 1), some 10, lineData ++ line, false⟩ := by
  have hnewline : (file.advance line.length).remaining = 10 :: rest := remaining_advance h
  rw [lineFrom_append lineData h hline hleft.le, lineFrom, fgetc_cons hnewline, advance_advance,
    lineLoop.eq_def]
  simp only [if_true, Line.mk.injEq, true_and, decide_eq_false_iff_not]
  omega

/-- The end of the data. -/
theorem lineFrom_end (h : file.remaining = line) (hline : 10 ∉ line) (hleft : line.length ≤ left) :
    (lineFrom left file lineData).inputChar = none ∧
      (lineFrom left file lineData).lineData = lineData ++ line ∧
      (lineFrom left file lineData).file = file.advance line.length := by
  have hnothing : (file.advance line.length).remaining = [] :=
    remaining_advance (by rw [h, List.append_nil])
  rw [lineFrom_append lineData (by rw [h, List.append_nil]) hline hleft, lineFrom,
    fgetc_nil hnothing, lineLoop.eq_def]
  exact ⟨rfl, rfl, rfl⟩

/-- At the limit another character has been taken. -/
theorem lineFrom_tooLong {c : UInt8} (h : file.remaining = line ++ c :: rest) (hline : 10 ∉ line) :
    lineFrom line.length file lineData =
      ⟨file.advance (line.length + 1), some c, lineData ++ line, true⟩ := by
  have hnext : (file.advance line.length).remaining = c :: rest := remaining_advance h
  rw [lineFrom_append lineData h hline le_rfl, lineFrom, fgetc_cons hnext, advance_advance,
    Nat.sub_self, lineLoop.eq_def]
  by_cases hc : c = 10 <;> simp [hc]

end

/-- What becomes of the bytes that are left when a call reads them. -/
theorem readLine_cases (limit : ℕ) (file : FileIO) (hfault : file.fault = none) :
    (∃ line rest, file.remaining = line ++ 10 :: rest ∧ 10 ∉ line ∧ line.length < limit ∧
        readLine limit file = ⟨file.advance (line.length + 1), some 10, line, false⟩) ∨
      (10 ∉ file.remaining ∧ file.remaining.length ≤ limit ∧
        (readLine limit file).lineData = file.remaining ∧
        (readLine limit file).error = some .endOfFile ∧
        (readLine limit file).file = file.advance file.remaining.length) ∨
      ∃ line c rest, file.remaining = line ++ c :: rest ∧ 10 ∉ line ∧ line.length = limit ∧
        readLine limit file = ⟨file.advance (limit + 1), some c, line, true⟩ := by
  by_cases hnewline : 10 ∈ file.remaining.take limit
  · left
    obtain ⟨line, rest, hsplit, hline⟩ := List.eq_append_cons_of_mem hnewline
    have hremaining : file.remaining = line ++ 10 :: (rest ++ file.remaining.drop limit) := by
      conv_lhs => rw [← List.take_append_drop limit file.remaining, hsplit]
      simp
    have hlength := congrArg List.length hsplit
    simp only [List.length_take, List.length_append, List.length_cons] at hlength
    exact ⟨line, _, hremaining, hline, by omega, lineFrom_newline [] hremaining hline (by omega)⟩
  · right
    by_cases hlong : limit < file.remaining.length
    · right
      have hlength : (file.remaining.take limit).length = limit := List.length_take_of_le hlong.le
      have hremaining : file.remaining = file.remaining.take limit ++
          file.remaining[limit] :: file.remaining.drop (limit + 1) := by
        rw [← List.drop_eq_getElem_cons hlong, List.take_append_drop]
      have hcall := lineFrom_tooLong [] hremaining hnewline
      rw [hlength] at hcall
      exact ⟨_, _, _, hremaining, hnewline, hlength, hcall⟩
    · left
      have hle := not_lt.mp hlong
      rw [List.take_of_length_le hle] at hnewline
      obtain ⟨hchar, hdata, hfile⟩ := lineFrom_end [] rfl hnewline hle
      refine ⟨hnewline, hle, hdata, ?_, hfile⟩
      have hreadable : (file.advance file.remaining.length).readable = file.content := by
        simp [readable, advance, hfault]
      rw [Line.error, readLine, hchar, hfile]
      exact if_pos (by rw [hreadable]; rfl)

theorem mem_take_append {line rest : List UInt8} {limit : ℕ} (h : line.length < limit) :
    10 ∈ (line ++ 10 :: rest).take limit := by
  obtain ⟨more, hmore⟩ := Nat.exists_eq_add_of_lt h
  rw [List.take_append, show limit - line.length = more + 1 by omega, List.take_succ_cons]
  simp

/-- A call reports what lies ahead. -/
theorem reportsLine (limit : ℕ) {file : FileIO} (hfault : file.fault = none) :
    ReportsLine limit file := by
  rcases readLine_cases limit file hfault with ⟨line, rest, hremaining, hline, hshort, hcall⟩ |
    ⟨hline, hshort, -, herror, -⟩ | ⟨line, c, rest, hremaining, hline, rfl, hcall⟩
  · have hmem := @mem_take_append line rest limit hshort
    rw [← hremaining] at hmem
    have herror : (readLine limit file).error = none := by simp [hcall, Line.error]
    refine ⟨?_, ?_⟩
    · exact iff_of_false (by rw [herror]; nofun) fun h => h.2 hmem
    · exact iff_of_false (by rw [herror]; nofun) fun h => h.2 (List.mem_of_mem_take hmem)
  · refine ⟨?_, ?_⟩
    · exact iff_of_false (by rw [herror]; nofun) fun h => by omega
    · exact iff_of_true herror ⟨hshort, hline⟩
  · have herror : (readLine line.length file).error = some .lineTooLong := by
      simp [hcall, Line.error]
    have hlong : line.length < file.remaining.length := by simp [hremaining]
    refine ⟨?_, ?_⟩
    · refine iff_of_true herror ⟨hlong, ?_⟩
      rwa [hremaining, List.take_left]
    · exact iff_of_false (by rw [herror]; nofun) fun h => by omega

theorem readLine_fault (limit : ℕ) {file : FileIO} (hfault : file.fault = none) :
    (readLine limit file).file.fault = none := by
  rcases readLine_cases limit file hfault with ⟨line, rest, -, -, -, hcall⟩ |
    ⟨-, -, -, -, hfile⟩ | ⟨line, c, rest, -, -, -, hcall⟩
  · rw [hcall]
    exact hfault
  · rw [hfile]
    exact hfault
  · rw [hcall]
    exact hfault

theorem afterLines_fault (limit calls : ℕ) {file : FileIO} (hfault : file.fault = none) :
    (afterLines limit calls file).fault = none := by
  induction calls generalizing file with
  | zero => exact hfault
  | succ calls ih => exact ih (readLine_fault limit hfault)

/-! ### Many calls -/

/-- What the calls say about the file, one after the other. -/
def readText (limit calls : ℕ) (file : FileIO) : List UInt8 :=
  (readLines limit calls file).flatMap Line.text

theorem readText_succ (limit calls : ℕ) (file : FileIO) :
    readText limit (calls + 1) file =
      (readLine limit file).text ++ readText limit calls (readLine limit file).file := rfl

/-- What a call says, and what is left behind it. -/
theorem readLine_text (limit : ℕ) (file : FileIO) (hfault : file.fault = none) :
    (∃ line, file.remaining = line ++ 10 :: (readLine limit file).file.remaining ∧ 10 ∉ line ∧
        line.length < limit ∧ (readLine limit file).text = line ++ [10]) ∨
      (10 ∉ file.remaining ∧ file.remaining.length ≤ limit ∧
        (readLine limit file).text = file.remaining ∧
        (readLine limit file).file.remaining = []) ∨
      ∃ line c, file.remaining = line ++ c :: (readLine limit file).file.remaining ∧ 10 ∉ line ∧
        line.length = limit ∧ (readLine limit file).text = line := by
  rcases readLine_cases limit file hfault with ⟨line, rest, hremaining, hline, hshort, hcall⟩ |
    ⟨hline, hshort, hdata, herror, hfile⟩ | ⟨line, c, rest, hremaining, hline, rfl, hcall⟩
  · have hnext := @remaining_advance file (line ++ [10]) rest (by simp [hremaining])
    rw [List.length_append] at hnext
    refine .inl ⟨line, ?_, hline, hshort, ?_⟩
    · rw [hcall, hremaining]
      exact congrArg (line ++ 10 :: ·) hnext.symm
    · simp [hcall, Line.text, Line.error]
  · refine .inr (.inl ⟨hline, hshort, ?_, ?_⟩)
    · simp [Line.text, hdata, herror]
    · rw [hfile]
      exact remaining_advance (List.append_nil _).symm
  · have hnext := @remaining_advance file (line ++ [c]) rest (by simp [hremaining])
    rw [List.length_append] at hnext
    refine .inr (.inr ⟨line, c, ?_, hline, rfl, ?_⟩)
    · rw [hcall, hremaining]
      exact congrArg (line ++ c :: ·) hnext.symm
    · simp [hcall, Line.text, Line.error]

/-- Calls never say more than is there. -/
theorem length_readText_le (limit calls : ℕ) {file : FileIO} (hfault : file.fault = none) :
    (readText limit calls file).length ≤ file.remaining.length := by
  induction calls generalizing file with
  | zero => exact Nat.zero_le _
  | succ calls ih =>
    have hrest := ih (readLine_fault limit hfault)
    rw [readText_succ, List.length_append]
    rcases readLine_text limit file hfault with ⟨line, hremaining, -, -, htext⟩ |
      ⟨-, -, htext, hnothing⟩ | ⟨line, c, hremaining, -, -, htext⟩
    · rw [htext, hremaining, List.length_append, List.length_append, List.length_cons,
        List.length_cons, List.length_nil]
      omega
    · rw [htext]
      rw [hnothing, List.length_nil] at hrest
      omega
    · rw [htext, hremaining, List.length_append, List.length_cons]
      omega

theorem linesFit_append_iff {line rest : List UInt8} {limit : ℕ} (h : line.length < limit) :
    LinesFit limit (line ++ 10 :: rest) ↔ LinesFit limit rest := by
  constructor
  · intro hfit i hi
    have := hfit (line.length + 1 + i) (by simp; omega)
    rwa [← List.drop_drop, List.append_cons, List.drop_left' (by simp)] at this
  · intro hfit i hi
    rcases Nat.lt_or_ge line.length i with hlt | hle
    · obtain ⟨j, rfl⟩ := Nat.exists_eq_add_of_lt hlt
      have := hfit j (by simp at hi; omega)
      rwa [show line.length + j + 1 = (line ++ [10]).length + j by simp; omega,
        List.append_cons line 10 rest, ← List.drop_drop, List.drop_left]
    · rw [List.drop_append_of_le_length hle]
      exact mem_take_append (by rw [List.length_drop]; omega)

theorem eventually_succ_iff {P : ℕ → Prop} :
    (∃ n, ∀ m ≥ n, P m) ↔ ∃ n, ∀ m ≥ n, P (m + 1) := by
  constructor
  · rintro ⟨n, h⟩
    exact ⟨n, fun m hm => h (m + 1) (by omega)⟩
  · rintro ⟨n, h⟩
    refine ⟨n + 1, fun m hm => ?_⟩
    obtain ⟨k, rfl⟩ := Nat.exists_eq_add_of_le' hm
    exact h (k + n) (by omega)

/-- Enough calls say everything exactly when no line is too long. -/
theorem readText_whole_iff (limit : ℕ) {file : FileIO} (hfault : file.fault = none) :
    (∃ calls, ∀ more ≥ calls, readText limit more file = file.remaining) ↔
      LinesFit limit file.remaining := by
  generalize hlength : file.remaining.length = length
  induction length using Nat.strong_induction_on generalizing file with
  | _ length ih =>
    have hnext := readLine_fault limit hfault
    rw [eventually_succ_iff]
    simp only [readText_succ]
    rcases readLine_text limit file hfault with ⟨line, hremaining, hline, hshort, htext⟩ |
      ⟨hline, hshort, htext, hnothing⟩ | ⟨line, c, hremaining, hline, rfl, htext⟩
    · have hless := congrArg List.length hremaining
      simp only [List.length_append, List.length_cons] at hless
      have hrest := ih _ (by omega) hnext rfl
      rw [hremaining, linesFit_append_iff hshort, ← hrest, htext]
      simp only [List.append_assoc, List.append_cancel_left_eq, List.singleton_append,
        List.cons.injEq, true_and]
    · refine iff_of_true ⟨0, fun more _ => ?_⟩ fun i hi => by omega
      have hle := length_readText_le limit more hnext
      rw [hnothing, List.length_nil, Nat.le_zero] at hle
      rw [htext, List.eq_nil_of_length_eq_zero hle, List.append_nil]
    · refine iff_of_false ?_ fun hfit => ?_
      · rintro ⟨calls, hcalls⟩
        have hwhole := congrArg List.length (hcalls calls le_rfl)
        have hle := length_readText_le line.length calls hnext
        have hless := congrArg List.length hremaining
        simp only [List.length_append, List.length_cons, htext] at hless hwhole
        omega
      · have hmem := hfit 0 (by rw [hremaining]; simp)
        rw [List.drop_zero, hremaining, List.take_left] at hmem
        exact hline hmem

/-- No byte is lost exactly when no line reaches the limit with more bytes behind it. -/
theorem losesNoByte_iff (limit : ℕ) (content : List UInt8) :
    LosesNoByte limit content ↔ LinesFit limit content := by
  have hwhole := @readText_whole_iff limit { content } rfl
  exact ⟨fun h => hwhole.mp h.whole, fun h => ⟨hwhole.mpr h, fun calls =>
    reportsLine limit (afterLines_fault limit calls rfl)⟩⟩

/-- `"ab"` in lines of one byte: the second byte is gone. -/
theorem not_losesNoByte_twoBytes : ¬ LosesNoByte 1 [97, 98] := by
  intro h
  have hfit : LinesFit 1 [97, 98] := (@readText_whole_iff 1 { content := [97, 98] } rfl).mp h.whole
  exact absurd (hfit 0 (by decide)) (by decide)

end MediafireSdk.Utils.FileIO
