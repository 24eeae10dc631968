import MediafireSdk.Http.ChunkedContent
import MediafireSdk.Http.ReadHeaders

/-! Where the headers end. The read stops behind the first `"\r\n\r\n"` and brings as much more
as the packets do; the parser knows nothing of that place and stops at a line that is a
carriage return only. The two agree on a block of headers whose status line and first such
line are inside the block, with nothing of it left. -/

namespace MediafireSdk.Http

open Streams Utils

/-! ### The first empty line -/

theorem headersEnd_cons_eq_some {c : UInt8} {bytes : List UInt8} {n : ℕ} :
    headersEnd (c :: bytes) = some n ↔
      (emptyLine <+: c :: bytes ∧ n = 4) ∨
        (¬ emptyLine <+: c :: bytes ∧ ∃ m, headersEnd bytes = some m ∧ n = m + 1) := by
  rw [headersEnd, ← List.isPrefixOf_iff_prefix]
  split_ifs with hstarts
  · simp [hstarts, eq_comm]
  · simp [hstarts, eq_comm]

/-- The empty line stands at the end. -/
theorem headersEnd_spec {bytes : List UInt8} {n : ℕ} (h : headersEnd bytes = some n) :
    4 ≤ n ∧ n ≤ bytes.length ∧ emptyLine <:+ bytes.take n := by
  induction bytes generalizing n with
  | nil => cases h
  | cons c cs ih =>
    rcases headersEnd_cons_eq_some.mp h with ⟨⟨tail, htail⟩, rfl⟩ | ⟨-, m, hm, rfl⟩
    · rw [← htail]
      exact ⟨le_rfl, by simp [emptyLine], by simp [emptyLine]⟩
    · obtain ⟨hlow, hhigh, hsuffix⟩ := ih hm
      refine ⟨by omega, Nat.succ_le_succ hhigh, ?_⟩
      rw [List.take_succ_cons]
      exact hsuffix.trans (List.suffix_cons c _)

/-- What comes behind does not move the first empty line. -/
theorem headersEnd_append {bytes : List UInt8} {n : ℕ} (h : headersEnd bytes = some n)
    (tail : List UInt8) : headersEnd (bytes ++ tail) = some n := by
  induction bytes generalizing n with
  | nil => cases h
  | cons c cs ih =>
    have hlong : 4 ≤ (c :: cs).length := (headersEnd_spec h).1.trans (headersEnd_spec h).2.1
    have hstarts : emptyLine <+: c :: cs ++ tail ↔ emptyLine <+: c :: cs :=
      ⟨fun hp => List.prefix_of_prefix_length_le hp (List.prefix_append _ _) hlong,
        fun hp => hp.trans (List.prefix_append _ _)⟩
    rw [List.cons_append, headersEnd_cons_eq_some, ← List.cons_append, hstarts]
    exact (headersEnd_cons_eq_some.mp h).imp_right fun ⟨hnot, m, hm, hn⟩ => ⟨hnot, m, ih hm, hn⟩

/-! ### The stream in front of a line feed

A part of the buffer that has a line feed is read as if nothing came behind it. -/

section LineFeed
variable {buffer : List UInt8}

theorem dropWhile_append_of_mem {p : UInt8 → Bool} (h : 10 ∈ buffer) (hp : p 10 = false)
    (tail : List UInt8) : (buffer ++ tail).dropWhile p = buffer.dropWhile p ++ tail := by
  have hne : buffer.dropWhile p ≠ [] := by
    rw [ne_eq, List.dropWhile_eq_nil_iff]
    exact fun hall => Bool.false_ne_true (hp.symm.trans (hall 10 h))
  rw [List.dropWhile_append, if_neg (by simpa using hne)]

theorem takeWhile_append_of_mem {p : UInt8 → Bool} (h : 10 ∈ buffer) (hp : p 10 = false)
    (tail : List UInt8) : (buffer ++ tail).takeWhile p = buffer.takeWhile p := by
  have hne : (buffer.takeWhile p).length ≠ buffer.length := by
    intro hlen
    have hall := List.takeWhile_eq_self_iff.mp ((List.takeWhile_prefix p).eq_of_length hlen)
    exact Bool.false_ne_true (hp.symm.trans (hall 10 h))
  rw [List.takeWhile_append, if_neg hne]

theorem mem_dropWhile {p : UInt8 → Bool} (h : [10] <:+ buffer) (hne : buffer.dropWhile p ≠ []) :
    10 ∈ buffer.dropWhile p := by
  have hlen : [10].length ≤ (buffer.dropWhile p).length := List.length_pos_iff.mpr hne
  exact (List.suffix_of_suffix_length_le h (List.dropWhile_suffix p) hlen).subset (by simp)

theorem readWord_append (h : [10] <:+ buffer) (hne : buffer.dropWhile isSpace ≠ [])
    (tail : List UInt8) :
    readWord (buffer ++ tail) = (readWord buffer).map fun (word, rest) => (word, rest ++ tail) := by
  have hmem := mem_dropWhile h hne
  have hspace : (buffer ++ tail).dropWhile isSpace = buffer.dropWhile isSpace ++ tail := by
    rw [List.dropWhile_append, if_neg (by simpa using hne)]
  simp only [readWord, hspace, hne, List.append_eq_nil_iff, false_and, if_false, Option.map_some]
  rw [takeWhile_append_of_mem hmem rfl, dropWhile_append_of_mem hmem rfl]

theorem dropSign_append (h : 10 ∈ buffer) (tail : List UInt8) :
    dropSign (buffer ++ tail) = dropSign buffer ++ tail ∧ 10 ∈ dropSign buffer := by
  obtain ⟨c, cs, rfl⟩ := List.exists_cons_of_ne_nil (List.ne_nil_of_mem h)
  simp only [dropSign, List.cons_append]
  split_ifs with hsign
  · refine ⟨rfl, (List.mem_cons.mp h).resolve_left ?_⟩
    rintro rfl
    simp at hsign
  · exact ⟨rfl, h⟩

theorem readUint_append (bits : ℕ) (h : [10] <:+ buffer) (hne : buffer.dropWhile isSpace ≠ [])
    (tail : List UInt8) : readUint bits (buffer ++ tail) =
      (readUint bits buffer).map fun (value, rest) => (value, rest ++ tail) := by
  obtain ⟨hsign, hmem⟩ := dropSign_append (mem_dropWhile h hne) tail
  have hspace : (buffer ++ tail).dropWhile isSpace = buffer.dropWhile isSpace ++ tail := by
    rw [List.dropWhile_append, if_neg (by simpa using hne)]
  have hhead : (buffer.dropWhile isSpace ++ tail).head? = (buffer.dropWhile isSpace).head? :=
    List.head?_append_of_ne_nil _ hne
  simp only [readUint, hspace, hsign, hhead]
  rw [takeWhile_append_of_mem hmem rfl, dropWhile_append_of_mem hmem rfl]
  split_ifs <;> rfl

theorem getline_append (h : 10 ∈ buffer) (tail : List UInt8) :
    getline (buffer ++ tail) = ((getline buffer).1, (getline buffer).2 ++ tail) := by
  have hne : buffer.dropWhile (· ≠ 10) ≠ [] := by
    rw [ne_eq, List.dropWhile_eq_nil_iff]
    exact fun hall => by simpa using hall 10 h
  rw [getline, getline, takeWhile_append_of_mem h rfl, dropWhile_append_of_mem h rfl,
    List.tail_append_of_ne_nil hne]

end LineFeed

/-! ### The end of the block -/

/-- What is behind a byte that is none of the empty line has the empty line. -/
theorem emptyLine_suffix_of_not_mem (front : List UInt8) {rest : List UInt8} {c : UInt8}
    (hc : c ∉ emptyLine) (h : emptyLine <:+ front ++ c :: rest) : emptyLine <:+ rest := by
  have hrest : c :: rest <:+ front ++ c :: rest := List.suffix_append _ _
  rcases Nat.lt_or_ge rest.length 4 with hshort | hlong
  · exact absurd ((List.suffix_of_suffix_length_le hrest h hshort).subset List.mem_cons_self) hc
  · exact List.suffix_of_suffix_length_le h ((List.suffix_cons c rest).trans hrest) hlong

/-- The words of the block stand before the empty line. -/
theorem emptyLine_suffix_dropWhile {p : UInt8 → Bool} {text : List UInt8}
    (h : emptyLine <:+ text) (hp : ∀ c, p c = true → c ∉ emptyLine) :
    emptyLine <:+ text.dropWhile p := by
  rcases List.eq_nil_or_concat (text.takeWhile p) with hnil | ⟨front, c, hconcat⟩
  · rw [← List.takeWhile_append_dropWhile (p := p) (l := text), hnil, List.nil_append] at h
    exact h
  · have hc : p c = true := by
      refine List.mem_takeWhile_imp (l := text) (p := p) ?_
      rw [hconcat]
      simp
    refine emptyLine_suffix_of_not_mem front (hp c hc) ?_
    rw [← List.takeWhile_append_dropWhile (p := p) (l := text), hconcat] at h
    simpa using h

theorem not_mem_emptyLine_of_not_space {c : UInt8} (h : isSpace c = false) : c ∉ emptyLine := by
  intro hmem
  have hall : emptyLine.all isSpace = true := by decide
  exact Bool.false_ne_true (h.symm.trans (List.all_eq_true.mp hall c hmem))

theorem emptyLine_suffix_dropSpace {buffer : List UInt8} (h : emptyLine <:+ buffer)
    (hne : buffer.dropWhile isSpace ≠ []) : emptyLine <:+ buffer.dropWhile isSpace := by
  obtain ⟨c, cs, hcs⟩ := List.exists_cons_of_ne_nil hne
  have hc : isSpace c = false := by
    have hhead := List.head?_dropWhile_not isSpace buffer
    rw [hcs] at hhead
    simpa using hhead
  have hsuffix := List.dropWhile_suffix (l := buffer) isSpace
  rw [hcs] at hsuffix ⊢
  rcases Nat.lt_or_ge cs.length 4 with hshort | hlong
  · exact absurd ((List.suffix_of_suffix_length_le hsuffix h hshort).subset List.mem_cons_self)
      (not_mem_emptyLine_of_not_space hc)
  · exact List.suffix_of_suffix_length_le h hsuffix (hlong.trans (Nat.le_succ _))

theorem readWord_spec {buffer word rest : List UInt8} (h : emptyLine <:+ buffer)
    (hread : readWord buffer = some (word, rest)) : emptyLine <:+ rest := by
  simp only [readWord] at hread
  split_ifs at hread with hnil
  cases hread
  refine emptyLine_suffix_dropWhile (emptyLine_suffix_dropSpace h hnil) fun c hc => ?_
  exact not_mem_emptyLine_of_not_space (by simpa using hc)

theorem emptyLine_suffix_dropSign {text : List UInt8} (h : emptyLine <:+ text) :
    emptyLine <:+ dropSign text := by
  cases text with
  | nil => exact h
  | cons c cs =>
    rw [dropSign]
    split_ifs with hsign
    · refine emptyLine_suffix_of_not_mem [] ?_ h
      rcases hsign with rfl | rfl <;> decide
    · exact h

theorem readUint_spec {bits value : ℕ} {buffer rest : List UInt8} (h : emptyLine <:+ buffer)
    (hread : readUint bits buffer = some (value, rest)) : emptyLine <:+ rest := by
  have hdigits (c : UInt8) (hc : isDigit c = true) : c ∉ emptyLine := by
    intro hmem
    have hall : emptyLine.all (fun c => !isDigit c) = true := by decide
    simpa [hc] using List.all_eq_true.mp hall c hmem
  simp only [readUint] at hread
  split_ifs at hread with hvalue
  all_goals
    cases hread
    refine emptyLine_suffix_dropWhile (emptyLine_suffix_dropSign ?_) hdigits
    refine emptyLine_suffix_dropSpace h fun hnil => hvalue (.inl ?_)
    rw [hnil]
    rfl

/-- The end of a line and an empty one behind it, seen from where the line before ends. -/
def blankLine : List UInt8 := [10, 13, 10]

theorem blankLine_suffix_of_line {line rest : List UInt8} (hline : 10 ∉ line)
    (h : blankLine <:+ line ++ 10 :: rest) : blankLine <:+ 10 :: rest := by
  induction line with
  | nil => exact h
  | cons c line ih =>
    rw [List.mem_cons, not_or] at hline
    rcases List.suffix_cons_iff.mp h with heq | hsuffix
    · exact absurd (List.cons.inj heq).1 hline.1
    · exact ih hline.2 hsuffix

/-- Only a line that is a carriage return ends with the line feed before the last one. -/
theorem blankLine_suffix_of_append {line rest : List UInt8} (hline : 10 ∉ line)
    (h : blankLine <:+ 10 :: (line ++ 10 :: rest)) (hnot : line ≠ [13]) :
    blankLine <:+ 10 :: rest := by
  rcases List.suffix_cons_iff.mp h with heq | hsuffix
  · have hwhole : [13] ++ 10 :: [] = line ++ 10 :: rest := (List.cons.inj heq).2
    refine absurd ?_ hnot
    match line, hwhole with
    | [], hwhole => exact absurd (List.cons.inj hwhole).1 (by decide)
    | [c], hwhole => rw [(List.cons.inj hwhole).1]
    | c :: d :: line, hwhole => simp at hwhole
  · exact blankLine_suffix_of_line hline hsuffix

theorem headerLines_append {buffer : List UInt8} (h : blankLine <:+ 10 :: buffer)
    (tail : List UInt8) :
    headerLines (buffer ++ tail) = ((headerLines buffer).1, (headerLines buffer).2 ++ tail) := by
  have hmem {buffer : List UInt8} (h : blankLine <:+ 10 :: buffer) : 10 ∈ buffer := by
    have hsuffix : [10] <:+ buffer := by
      have hbuffer : buffer <:+ 10 :: buffer := List.suffix_cons _ _
      refine List.suffix_of_suffix_length_le ?_ hbuffer ?_
      · exact (show [10] <:+ blankLine by decide).trans h
      · have := h.length_le
        simp [blankLine] at this
        simp
        omega
    exact hsuffix.subset (by simp)
  fun_induction headerLines buffer with
  | case1 => exact absurd h (by decide)
  | case2 buffer hne hline =>
    rw [headerLines, if_neg (by simp [hne]), getline_append (hmem h), if_pos hline]
  | case3 buffer hne hline more ih =>
    obtain ⟨line, rest, rfl, hnot⟩ := List.eq_append_cons_of_mem (hmem h)
    rw [headerLines, if_neg (by simp), getline_append (hmem h), if_neg hline]
    rw [getline_of_mem hnot] at hline ih ⊢
    rw [ih (blankLine_suffix_of_append hnot h hline)]
    simp only [more, getline_of_mem hnot]

/-- The bytes of a server up to the first empty line, with it. -/
structure HeaderBlock where
  bytes : List UInt8
  ends : headersEnd bytes = some bytes.length

namespace HeaderBlock
variable (block : HeaderBlock)

theorem emptyLine_suffix : emptyLine <:+ block.bytes := by
  have h := (headersEnd_spec block.ends).2.2
  rwa [List.take_length] at h

/-! ### The parser on a block and what follows it -/

variable {block}

theorem isSome_readWord {buffer : List UInt8} :
    (readWord buffer).isSome ↔ buffer.dropWhile isSpace ≠ [] := by
  rw [readWord]
  split_ifs with hnil <;> simp [hnil]

/-- The first word of the block ends inside it. -/
theorem readWord_block {version rest : List UInt8}
    (hword : readWord block.bytes = some (version, rest)) (tail : List UInt8) :
    readWord (block.bytes ++ tail) = some (version, rest ++ tail) := by
  have hfeed : [10] <:+ block.bytes :=
    (show [10] <:+ emptyLine by decide).trans block.emptyLine_suffix
  rw [readWord_append hfeed (isSome_readWord.mp (by simp [hword])), hword]
  rfl

theorem readStatusLine_of_word {buffer version rest : List UInt8}
    (hword : readWord buffer = some (version, rest)) :
    readStatusLine 16 buffer = (readUint 16 rest).bind fun number =>
      (readLine number.2).map fun line => (⟨version, number.1, line.1⟩, line.2) := by
  simp only [readStatusLine, hword, Option.bind_eq_bind, Option.bind_some]
  cases readUint 16 rest with
  | none => rfl
  | some number =>
    rw [Option.bind_some, Option.bind_some]
    cases readLine number.2 <;> rfl

/-- The status line is read as in the block alone when the block has two words. -/
theorem readStatusLine_append {version rest : List UInt8}
    (hword : readWord block.bytes = some (version, rest)) (hrest : (readWord rest).isSome)
    (tail : List UInt8) : readStatusLine 16 (block.bytes ++ tail) =
      (readStatusLine 16 block.bytes).map fun (status, lines) => (status, lines ++ tail) := by
  have hsuffix := readWord_spec block.emptyLine_suffix hword
  have hfeed : [10] <:+ rest := (show [10] <:+ emptyLine by decide).trans hsuffix
  rw [readStatusLine_of_word (readWord_block hword tail), readStatusLine_of_word hword,
    readUint_append 16 hfeed (isSome_readWord.mp hrest)]
  cases hnumber : readUint 16 rest with
  | none => rfl
  | some number =>
    have hmem : 10 ∈ number.2 := (readUint_spec hsuffix hnumber).subset (by decide)
    simp [readLine, List.ne_nil_of_mem hmem, getline_append hmem]

theorem readStatusLine_spec {status : StatusLine} {lines : List UInt8}
    (h : readStatusLine 16 block.bytes = some (status, lines)) :
    (∃ rest, readWord block.bytes = some (status.httpVersion, rest) ∧ (readWord rest).isSome) ∧
      blankLine <:+ 10 :: lines := by
  cases hword : readWord block.bytes with
  | none => simp [readStatusLine, hword] at h
  | some word =>
    obtain ⟨version, rest⟩ := word
    rw [readStatusLine_of_word hword] at h
    obtain ⟨⟨value, buffer⟩, hnumber, hmap⟩ := Option.bind_eq_some_iff.mp h
    obtain ⟨line, hline, hstatus⟩ := Option.map_eq_some_iff.mp hmap
    cases hstatus
    have hsuffix := readUint_spec (readWord_spec block.emptyLine_suffix hword) hnumber
    have hmem : 10 ∈ buffer := hsuffix.subset (by decide)
    refine ⟨⟨rest, rfl, ?_⟩, ?_⟩
    · rw [isSome_readWord]
      intro hnil
      simp [readUint, hnil, dropSign] at hnumber
    · obtain ⟨front, after, rfl, hnot⟩ := List.eq_append_cons_of_mem hmem
      simp only [readLine, List.ne_nil_of_mem hmem, if_false, getline_of_mem hnot,
        Option.some.injEq] at hline
      subst hline
      exact blankLine_suffix_of_line hnot ((show blankLine <:+ emptyLine by decide).trans hsuffix)

end HeaderBlock

/-! ### Inside and outside of the block -/

/-- The same outcome with another buffer left behind. -/
def leaving (outcome : Except ErrorEvent HeadersReadEvent) (buffer : List UInt8) :
    Except ErrorEvent HeadersReadEvent :=
  outcome.map fun evt => { evt with readBuffer := buffer }

namespace HeaderBlock
variable (url : String) (block : HeaderBlock)

/-- The block is no header, as far as it is read: no version of HTTP, no number for the status,
or lines before the first that is a carriage return only that do not parse. -/
def Rejected : Prop :=
  ∃ version rest, readWord block.bytes = some (version, rest) ∧
    (isHttpVersion version = false ∨
      ((readWord rest).isSome ∧ readUint 16 rest = none) ∨
      ∃ status lines, readStatusLine 16 block.bytes = some (status, lines) ∧
        (parseLines url (headerLines lines).1).isOk = false)

/-- The first line that is a carriage return only is the last one of the block. -/
def Closed : Prop :=
  ∃ status lines, readStatusLine 16 block.bytes = some (status, lines) ∧ (headerLines lines).2 = []

/-- What a stream gives that begins with the block depends on the block only, and the headers
leave behind what has come after it. -/
def Determines : Prop :=
  ∃ outcome : Except ErrorEvent HeadersReadEvent, ∀ net : PacketStream UInt8 IoError,
    block.bytes <+: net.bytes → ∃ read, net.readUntil hasHeadersEnd [] = some read ∧
      headersRead url read = leaving outcome (read.received.drop block.bytes.length)

variable {url block}

/-- The read brings the block and some of what follows it. -/
theorem exists_read {net : PacketStream UInt8 IoError} (h : block.bytes <+: net.bytes) :
    ∃ tail rest, net.readUntil hasHeadersEnd [] = some ⟨block.bytes ++ tail, none, rest⟩ := by
  obtain ⟨after, hafter⟩ := h
  have hnet : headersEnd net.bytes = some block.bytes.length :=
    hafter ▸ headersEnd_append block.ends after
  have hends : hasHeadersEnd ([] ++ net.bytes) = true := by simp [hasHeadersEnd, hnet]
  obtain ⟨received, rest, hread, hsplit, hfound, -⟩ := PacketStream.readUntil_of_found hends
  obtain ⟨n, hn⟩ := Option.isSome_iff_exists.mp hfound
  have heq : n = block.bytes.length := by
    have hmore := headersEnd_append hn rest.bytes
    rw [List.nil_append, hsplit, hnet] at hmore
    exact (Option.some.inj hmore).symm
  have hlen : block.bytes.length ≤ received.length := heq ▸ (headersEnd_spec hn).2.1
  have hstarts : block.bytes <+: received := by
    refine List.prefix_of_prefix_length_le ⟨after, hafter⟩ ?_ hlen
    exact ⟨rest.bytes, hsplit⟩
  obtain ⟨tail, rfl⟩ := hstarts
  exact ⟨tail, rest, hread⟩

theorem headersRead_append (tail : List UInt8) (rest : PacketStream UInt8 IoError) :
    headersRead url ⟨block.bytes ++ tail, none, rest⟩ =
      handleHeaderRead url (block.bytes ++ tail) block.bytes.length none := by
  simp [headersRead, headersEnd_append block.ends]

/-- The block decides when what is behind it only adds to the buffer that is left. -/
theorem determines_of_forall (outcome : Except ErrorEvent HeadersReadEvent)
    (h : ∀ tail, handleHeaderRead url (block.bytes ++ tail) block.bytes.length none =
      leaving outcome tail) : block.Determines url := by
  refine ⟨outcome, fun net hnet => ?_⟩
  obtain ⟨tail, rest, hread⟩ := exists_read hnet
  refine ⟨_, hread, ?_⟩
  rw [headersRead_append, h, List.drop_left]

/-- One packet brings the block with anything behind it. -/
theorem Determines.forall (h : block.Determines url) : ∃ outcome, ∀ tail,
    handleHeaderRead url (block.bytes ++ tail) block.bytes.length none =
      leaving outcome tail := by
  obtain ⟨outcome, houtcome⟩ := h
  refine ⟨outcome, fun tail => ?_⟩
  let net : PacketStream UInt8 IoError := { packets := [block.bytes ++ tail], close := none }
  obtain ⟨read, hread, heq⟩ := houtcome net (by simp [net, PacketStream.bytes])
  have hpacket : net.readUntil hasHeadersEnd [] =
      some ⟨block.bytes ++ tail, none, { packets := [], close := none }⟩ := by
    have hfound : hasHeadersEnd (block.bytes ++ tail) = true := by
      simp [hasHeadersEnd, headersEnd_append block.ends]
    have hnil : hasHeadersEnd [] = false := rfl
    simp [net, PacketStream.readUntil, takeUntil, hnil, hfound]
  rw [hpacket] at hread
  cases hread
  rwa [headersRead_append, List.drop_left] at heq

/-! ### When the two ends agree -/

theorem handleHeaderRead_of_none {buffer : List UInt8} {n : ℕ}
    (h : readStatusLine 16 buffer = none) :
    handleHeaderRead url buffer n none = .error (protocolError url) := by
  simp [handleHeaderRead, h]

theorem handleHeaderRead_append {status : StatusLine} {lines : List UInt8}
    (hstatus : readStatusLine 16 block.bytes = some (status, lines)) (tail : List UInt8) :
    handleHeaderRead url (block.bytes ++ tail) block.bytes.length none =
      if isHttpVersion status.httpVersion then
        (parseLines url (headerLines lines).1).map fun (headers, contentLength) =>
          { rawHeaders := bytesToString block.bytes
            httpVersion := bytesToString status.httpVersion
            statusCode := status.statusCode
            statusMessage := bytesToString status.statusMessage
            contentLength := contentLength
            headers := headers
            readBuffer := (headerLines lines).2 ++ tail }
      else .error (protocolError url) := by
  obtain ⟨⟨rest, hword, hrest⟩, hblank⟩ := readStatusLine_spec hstatus
  have happend := readStatusLine_append hword hrest tail
  rw [hstatus, Option.map_some] at happend
  simp only [handleHeaderRead, happend, headerLines_append hblank, List.take_left]
  cases isHttpVersion status.httpVersion with
  | false => rfl
  | true => cases parseLines url (headerLines lines).1 <;> rfl

theorem determines_of_closed (h : block.Closed) : block.Determines url := by
  obtain ⟨status, lines, hstatus, hclosed⟩ := h
  refine determines_of_forall (handleHeaderRead url (block.bytes ++ []) block.bytes.length none)
    fun tail => ?_
  rw [handleHeaderRead_append hstatus, handleHeaderRead_append hstatus, hclosed]
  cases isHttpVersion status.httpVersion with
  | false => rfl
  | true => cases parseLines url (headerLines lines).1 <;> rfl

theorem determines_of_rejected (h : block.Rejected url) : block.Determines url := by
  obtain ⟨version, rest, hword, hversion | ⟨hrest, hnumber⟩ | ⟨status, lines, hstatus, hlines⟩⟩ := h
  · refine determines_of_forall (.error (protocolError url)) fun tail => ?_
    have hword' := readWord_block hword tail
    cases hstatus : readStatusLine 16 (block.bytes ++ tail) with
    | none =>
      rw [handleHeaderRead_of_none hstatus]
      rfl
    | some parsed =>
      rw [readStatusLine_of_word hword'] at hstatus
      obtain ⟨number, -, hmap⟩ := Option.bind_eq_some_iff.mp hstatus
      obtain ⟨line, -, rfl⟩ := Option.map_eq_some_iff.mp hmap
      rw [← readStatusLine_of_word hword'] at hstatus
      simp [handleHeaderRead, hstatus, hversion, leaving, Except.map]
  · refine determines_of_forall (.error (protocolError url)) fun tail => ?_
    have hnone : readStatusLine 16 (block.bytes ++ tail) = none := by
      rw [readStatusLine_append hword hrest, readStatusLine_of_word hword, hnumber]
      rfl
    rw [handleHeaderRead_of_none hnone]
    rfl
  · cases hparse : parseLines url (headerLines lines).1 with
    | ok parsed => simp [hparse, Except.isOk, Except.toBool] at hlines
    | error e =>
      refine determines_of_forall
        (if isHttpVersion status.httpVersion then .error e else .error (protocolError url))
        fun tail => ?_
      rw [handleHeaderRead_append hstatus, hparse]
      cases isHttpVersion status.httpVersion <;> rfl

/-- A status line that only what is behind the block completes. -/
theorem not_determines_of_completed (tail : List UInt8) (status : StatusLine)
    (hnone : readStatusLine 16 block.bytes = none)
    (hsome : readStatusLine 16 (block.bytes ++ tail) = some (status, [13, 10]))
    (hversion : isHttpVersion status.httpVersion = true) : ¬ block.Determines url := by
  intro h
  obtain ⟨outcome, houtcome⟩ := h.forall
  have halone := houtcome []
  rw [List.append_nil, handleHeaderRead_of_none hnone] at halone
  have hmore := houtcome tail
  have hlines : headerLines [13, 10] = ([], []) := by
    rw [headerLines, if_neg (by decide), if_pos (by decide)]
    rfl
  simp only [handleHeaderRead, hsome, hversion, hlines, if_true] at hmore
  cases outcome with
  | error e => cases hmore
  | ok evt => cases halone

theorem readWord_spaces {buffer tail : List UInt8} (h : buffer.dropWhile isSpace = []) :
    readWord (buffer ++ tail) = readWord tail := by
  rw [readWord, readWord, List.dropWhile_append_of_pos (List.dropWhile_eq_nil_iff.mp h)]

theorem readUint_spaces {bits : ℕ} {buffer tail : List UInt8}
    (h : buffer.dropWhile isSpace = []) : readUint bits (buffer ++ tail) = readUint bits tail := by
  rw [readUint, readUint, List.dropWhile_append_of_pos (List.dropWhile_eq_nil_iff.mp h)]

/-- A block that decides is rejected or closed. -/
theorem rejected_or_closed (h : block.Determines url) : block.Rejected url ∨ block.Closed := by
  cases hword : readWord block.bytes with
  | none =>
    have hspaces : block.bytes.dropWhile isSpace = [] := by
      by_contra hne
      have := isSome_readWord.mpr hne
      simp [hword] at this
    -- HTTP/1.1 200
    refine absurd h (not_determines_of_completed
      [72, 84, 84, 80, 47, 49, 46, 49, 32, 50, 48, 48, 10, 13, 10]
      ⟨[72, 84, 84, 80, 47, 49, 46, 49], 200, []⟩ ?_ ?_ (by decide))
    · simp [readStatusLine, hword]
    · rw [readStatusLine, readWord_spaces hspaces]
      decide
  | some word =>
    obtain ⟨version, rest⟩ := word
    cases hversion : isHttpVersion version with
    | false => exact .inl ⟨version, rest, hword, .inl hversion⟩
    | true =>
      cases hnumber : readUint 16 rest with
      | none =>
        cases hrest : (readWord rest).isSome with
        | true => exact .inl ⟨version, rest, hword, .inr (.inl ⟨hrest, hnumber⟩)⟩
        | false =>
          have hspaces : rest.dropWhile isSpace = [] := by
            by_contra hne
            exact Bool.false_ne_true (hrest.symm.trans (isSome_readWord.mpr hne))
          -- 200
          refine absurd h (not_determines_of_completed [50, 48, 48, 10, 13, 10]
            ⟨version, 200, []⟩ ?_ ?_ hversion)
          · rw [readStatusLine_of_word hword, hnumber]
            rfl
          · rw [readStatusLine_of_word (readWord_block hword _), readUint_spaces hspaces]
            rfl
      | some number =>
        have hmem : 10 ∈ number.2 :=
          (readUint_spec (readWord_spec block.emptyLine_suffix hword) hnumber).subset (by decide)
        have hstatus : readStatusLine 16 block.bytes =
            some (⟨version, number.1, (getline number.2).1⟩, (getline number.2).2) := by
          simp [readStatusLine_of_word hword, hnumber, readLine, List.ne_nil_of_mem hmem]
        cases hparse : (parseLines url (headerLines (getline number.2).2).1).isOk with
        | false => exact .inl ⟨version, rest, hword, .inr (.inr ⟨_, _, hstatus, hparse⟩)⟩
        | true =>
          refine .inr ⟨_, _, hstatus, ?_⟩
          obtain ⟨outcome, houtcome⟩ := h.forall
          have halone := houtcome []
          rw [handleHeaderRead_append hstatus, if_pos hversion] at halone
          cases hlines : parseLines url (headerLines (getline number.2).2).1 with
          | error e => simp [hlines, Except.isOk, Except.toBool] at hparse
          | ok parsed =>
            rw [hlines] at halone
            cases outcome with
            | error e => cases halone
            | ok evt =>
              have hbuffer := congrArg HeadersReadEvent.readBuffer (Except.ok.inj halone)
              simpa using hbuffer

/-- A block decides exactly when it is rejected or closed. -/
theorem determines_iff (url : String) (block : HeaderBlock) :
    block.Determines url ↔ block.Rejected url ∨ block.Closed :=
  ⟨rejected_or_closed, fun h => h.elim determines_of_rejected determines_of_closed⟩

/-- `"HTTP/1.1\r\n\r\n"`, a version without a status. -/
def versionOnly : HeaderBlock where
  bytes := [72, 84, 84, 80, 47, 49, 46, 49, 13, 10, 13, 10]
  ends := by decide

/-- The status is taken from what is behind the block, when it is in the same packet. -/
theorem not_determines : ¬ ∀ (url : String) (block : HeaderBlock), block.Determines url := by
  intro h
  refine not_determines_of_completed [50, 48, 48, 10, 13, 10]
    ⟨[72, 84, 84, 80, 47, 49, 46, 49], 200, []⟩ ?_ ?_ ?_
    (h "http://www.mediafire.com/" versionOnly)
  · decide
  · decide
  · decide

end HeaderBlock

end MediafireSdk.Http
