import MediafireSdk.Http.ChunkedContent

/-! A peer that closes the connection inside a chunked stream. Both chunk handlers take
the end of file for the end of what they wait for. Inside the data of a chunk the reader
then delivers bytes that never came; inside a line it parses the digits that did, and
zero digits are the end of the content. Everywhere else the reader finds an empty line
next and raises an error. -/

namespace MediafireSdk.Http

open Streams Words Utils Steps

/-- Where the stream ends when everything up to the line with the size zero has come. -/
def lastLineEnd (chunks : List Chunk) : ℕ := (chunks.flatMap Chunk.encode).length + 3

/-- Every byte delivered is the byte of the data at its 64-bit offset. -/
def Genuine (data : List UInt8) (log : List Output) : Prop :=
  ∀ d ∈ deliveries log, ∀ k < d.2.length, ∃ pos < data.length,
    trunc 64 pos = trunc 64 (d.1 + k) ∧ d.2[k]? = some data[pos]?

/-- What the reader of the first `n` bytes should have done. -/
structure Detects (chunks : List Chunk) (n : ℕ) (log : List Output) : Prop where
  error : n < lastLineEnd chunks →
    (∃ code description, Output.errorEvent code description ∈ log) ∧
      Output.contentReadEvent ∉ log
  genuine : Genuine (chunks.flatMap Chunk.data) log

/-- The cut is not inside the data of a chunk and, for an end of file, not inside a line after its
first byte. -/
def DetectableCut (close : IoError) : List Chunk → ℕ → Prop
  | [], n => n = 0 ∨ 3 ≤ n ∨ close ≠ .eof
  | c :: cs, n =>
    if n < c.digits.length + 2 then n = 0 ∨ close ≠ .eof
    else if n < c.digits.length + 2 + c.data.length then False
    else if n < c.encode.length then True
    else DetectableCut close cs (n - c.encode.length)

/-! ### The end of the connection -/

section End
variable {fsm : Fsm} {r : Reading} {close : IoError} {pos : ℕ}

/-- The handler of a line that the connection ends in. -/
theorem AtLine.read_end (fsm : Fsm) {line : List UInt8} (h : AtLine line (some close) pos r)
    (hline : 10 ∉ line) :
    ∃ d, r.step fsm = some (r.proceed
        (handleContentChunkSizeRead fsm d (trunc 64 pos) 0 (some close))
        { packets := [], close := some close }) ∧
      Ahead line (some close) d { packets := [], close := some close } := by
  obtain ⟨⟨hactive, hplain, hbytes, hclose⟩, hop⟩ := h
  have hread : r.net.readUntil hasCrlf r.data.readBuffer =
      some ⟨r.net.bytes, some close, { packets := [], close := some close }⟩ := by
    rw [PacketStream.readUntil_of_not_found hasCrlf_append (by rw [hbytes]; exact not_hasCrlf hline),
      PacketStream.drained_of_close hclose]
  refine ⟨r.data.receive r.net.bytes, by simp only [Reading.step, hop, hread]; rfl, ?_⟩
  exact ⟨hactive, hplain, by rw [← hbytes]; exact List.append_nil _, rfl⟩

/-- Nothing of a line, or a close that no line may end with. -/
theorem AtLine.ends_error (fsm : Fsm) {line : List UInt8} (h : AtLine line (some close) pos r)
    (hline : 10 ∉ line) (herr : line = [] ∨ close ≠ .eof) :
    ∃ r' code description, Ends (Reading.step fsm) r r' ∧
      events r'.log = events r.log ++ [.errorEvent code description] := by
  obtain ⟨d, hstep, hactive, -, hbytes, -⟩ := h.read_end fsm hline
  have hbuffer : d.readBuffer = line := (List.append_nil _).symm.trans hbytes
  by_cases heof : close = .eof
  · have hnil : line = [] := herr.resolve_right (not_not.mpr heof)
    have hnumber : strToUint64 (getline d.readBuffer).1 16 = .error .invalidArgument := by
      rw [hbuffer, hnil]
      rfl
    simp only [handleContentChunkSizeRead, hactive, heof, hnumber, Bool.false_eq_true, if_false,
      or_true, if_true] at hstep
    obtain ⟨r', hends, hlog⟩ := ends_finish hstep
    exact ⟨r', _, _, hends, hlog⟩
  · simp only [handleContentChunkSizeRead, hactive, heof, Bool.false_eq_true, if_false,
      reduceCtorEq, Option.some.injEq, or_self] at hstep
    obtain ⟨r', hends, hlog⟩ := ends_finish hstep
    exact ⟨r', _, _, hends, hlog⟩

/-- A response with a byte that never came. -/
def Fabricated (outs : List Output) : Prop := ∃ d ∈ deliveries outs, none ∈ d.2

theorem none_mem_readArray {size : ℕ} {buffer : List UInt8} (h : buffer.length < size) :
    none ∈ readArray size buffer :=
  List.mem_append_right _ (List.mem_replicate.mpr ⟨by omega, rfl⟩)

/-- The data of a chunk that the connection ends in, or in the two bytes behind it. -/
theorem AtData.ends_error {stream : List UInt8} {size : ℕ}
    (h : AtData stream (some close) pos size r) (heof : fsm.isEof (some close) = true)
    (hshort : stream.length < size + 2) :
    ∃ r' code description, Ends (Reading.step fsm) r r' ∧
      events r'.log = events r.log ++
        [.responseContentReceived (trunc 64 pos) (readArray size stream),
          .errorEvent code description] := by
  obtain ⟨s, hs, hline, hlog⟩ := h.step fsm (.inr ⟨close, rfl, heof⟩)
  rw [List.drop_of_length_le hshort.le] at hline
  obtain ⟨r', code, description, hends, hlog'⟩ :=
    hline.ends_error fsm List.not_mem_nil (.inl rfl)
  refine ⟨r', code, description, (Reaches.of_step hs).ends hends, ?_⟩
  rw [hlog', hlog, List.append_assoc]
  rfl

/-- The digits that came, at the end of the file: the end of the content, or a chunk of which no
byte comes. -/
theorem AtLine.ends_eof (fsm : Fsm) {digits rest : List UInt8}
    (h : AtLine (digits ++ rest) (some .eof) pos r) (hne : digits ≠ [])
    (hhex : ∀ c ∈ digits, isHexDigit c = true) (hrest : rest = [] ∨ rest = [13])
    (hlt : hexValue digits < 2 ^ 64 - 2) :
    ∃ r' outs, Ends (Reading.step fsm) r r' ∧ events r'.log = events r.log ++ outs ∧
      (.contentReadEvent ∈ outs ∨ Fabricated outs) := by
  have hfeed : 10 ∉ digits ++ rest := by
    rw [List.mem_append, not_or]
    exact ⟨line_feed_not_mem hhex, by rcases hrest with rfl | rfl <;> decide⟩
  obtain ⟨d, hstep, hahead⟩ := h.read_end fsm hfeed
  have hbuffer : d.readBuffer = digits ++ rest := (List.append_nil _).symm.trans hahead.bytes
  have hgetline := getline_of_not_mem hfeed
  have hnumber : strToUint64 (getline d.readBuffer).1 16 = .ok (hexValue digits) := by
    rw [hbuffer, hgetline]
    exact strToUint64_digits hne hhex hrest (by omega)
  rw [handleContentChunkSizeRead_of_ok hahead.active (.inr rfl) hnumber, hbuffer, hgetline] at hstep
  split_ifs at hstep with hzero
  · have hplain : { d with readBuffer := [] }.usingGzip = false := hahead.plain
    rw [handleCompleteAllChunks_of_plain hplain] at hstep
    obtain ⟨r', hends, hlog⟩ := ends_finish hstep
    exact ⟨r', _, hends, hlog, .inl (List.mem_singleton.mpr rfl)⟩
  · have hempty : Ahead [] (some .eof) { d with readBuffer := [] }
        { packets := [], close := some .eof } := ⟨hahead.active, hahead.plain, rfl, rfl⟩
    obtain ⟨s, hs, hdata, hlog⟩ := reaches_atData hstep hempty hlt
    obtain ⟨r', code, description, hends, hlog'⟩ :=
      hdata.ends_error (show fsm.isEof (some .eof) = true from rfl) (Nat.succ_pos _)
    refine ⟨r', _, hs.ends hends, hlog'.trans (by rw [hlog]), .inr ⟨_, List.mem_cons_self, ?_⟩⟩
    exact none_mem_readArray (Nat.pos_of_ne_zero hzero)

end End

/-! ### Every cut -/

section Cuts
variable {fsm : Fsm} {r : Reading} {close : IoError} {pos n : ℕ}

/-- A cut before the end of a line leaves digits and at most the carriage return. -/
theorem take_line {line : List UInt8} (after : List UInt8) (h : n < line.length + 2) :
    ∃ rest, (line ++ 13 :: 10 :: after).take n = line.take n ++ rest ∧
      (rest = [] ∨ rest = [13]) := by
  rw [List.take_append]
  refine ⟨_, rfl, ?_⟩
  have hfew : n - line.length = 0 ∨ n - line.length = 1 := by omega
  rcases hfew with hk | hk <;> simp [hk]

theorem take_behind_line (line after : List UInt8) (m : ℕ) :
    (line ++ 13 :: 10 :: after).take (line.length + 2 + m) = line ++ 13 :: 10 :: after.take m := by
  have hsum : line.length + 2 + m = line.length + (m + 2) := by omega
  rw [hsum, List.take_length_add_append]
  rfl

/-- Whole chunks and the event that ends them. -/
def Faithful (chunks : List Chunk) (n pos : ℕ) (outs : List Output) : Prop :=
  ∃ k final, outs = responses (trunc 64) pos (chunks.take k) ++ [final] ∧
    ((final = .contentReadEvent ∧ lastLineEnd chunks ≤ n) ∨
      ∃ code description, final = .errorEvent code description)

def Flawed (chunks : List Chunk) (n : ℕ) (outs : List Output) : Prop :=
  Fabricated outs ∨ (.contentReadEvent ∈ outs ∧ n < lastLineEnd chunks)

/-- A cut in a line: what came is nothing, or is refused, or is taken for a number. -/
theorem AtLine.ends_cut_line (fsm : Fsm) {digits after : List UInt8}
    (h : AtLine ((digits ++ 13 :: 10 :: after).take n) (some close) pos r)
    (hhex : ∀ c ∈ digits, isHexDigit c = true) (hne : digits ≠ [])
    (hlt : hexValue digits < 2 ^ 64 - 2) (hn : n < digits.length + 2) :
    ∃ r' outs, Ends (Reading.step fsm) r r' ∧ events r'.log = events r.log ++ outs ∧
      (((n = 0 ∨ close ≠ .eof) ∧ ∃ code description, outs = [.errorEvent code description]) ∨
        (¬ (n = 0 ∨ close ≠ .eof) ∧ (.contentReadEvent ∈ outs ∨ Fabricated outs))) := by
  obtain ⟨rest, htake, hrest⟩ := take_line after hn
  have hhex' : ∀ c ∈ digits.take n, isHexDigit c = true := fun c hc =>
    hhex c (List.mem_of_mem_take hc)
  have hfeed : 10 ∉ digits.take n ++ rest := by
    rw [List.mem_append, not_or]
    exact ⟨line_feed_not_mem hhex', by rcases hrest with rfl | rfl <;> decide⟩
  by_cases hdetect : n = 0 ∨ close ≠ .eof
  · have hline : (digits ++ 13 :: 10 :: after).take n = [] ∨ close ≠ .eof :=
      hdetect.imp_left fun h0 => by rw [h0, List.take_zero]
    obtain ⟨r', code, description, hends, hlog⟩ :=
      h.ends_error fsm (by rw [htake]; exact hfeed) hline
    exact ⟨r', _, hends, hlog, .inl ⟨hdetect, code, description, rfl⟩⟩
  · obtain ⟨h0, heof⟩ := not_or.mp hdetect
    rw [htake, not_not.mp heof] at h
    have hle : hexValue (digits.take n) ≤ hexValue digits := by
      conv_rhs => rw [← List.take_append_drop n digits]
      exact hexValue_le_append hhex'
    have hne' : digits.take n ≠ [] := by
      rw [Ne, List.take_eq_nil_iff, not_or]
      exact ⟨h0, hne⟩
    obtain ⟨r', outs, hends, hlog, hflaw⟩ :=
      h.ends_eof fsm hne' hhex' hrest (hle.trans_lt hlt)
    exact ⟨r', outs, hends, hlog, .inr ⟨hdetect, hflaw⟩⟩

theorem AtLine.ends_cut (heof : fsm.isEof (some close) = true) (chunks : List Chunk)
    (h : AtLine ((encodeAll chunks).take n) (some close) pos r) :
    ∃ r' outs, Ends (Reading.step fsm) r r' ∧ events r'.log = events r.log ++ outs ∧
      ((DetectableCut close chunks n ∧ Faithful chunks n pos outs) ∨
        (¬ DetectableCut close chunks n ∧ Flawed chunks n outs)) := by
  induction chunks generalizing r pos n with
  | nil =>
    have hlast : lastLineEnd [] = 3 := rfl
    simp only [DetectableCut, Flawed, Faithful, hlast]
    by_cases hn : n < 3
    · have hstream : encodeAll [] = [48] ++ 13 :: 10 :: [13, 10] := rfl
      rw [hstream] at h
      obtain ⟨r', outs, hends, hlog, hresult⟩ :=
        h.ends_cut_line fsm (List.forall_mem_singleton.mpr rfl) (by decide) (by decide) hn
      refine ⟨r', outs, hends, hlog, ?_⟩
      rcases hresult with ⟨hdetect, code, description, houts⟩ | ⟨hdetect, hflaw⟩
      · refine .inl ⟨by tauto, 0, _, houts, .inr ⟨code, description, rfl⟩⟩
      · refine .inr ⟨fun h => hdetect (h.imp_right fun h => h.resolve_left (by omega)), ?_⟩
        exact hflaw.elim (fun hmem => .inr ⟨hmem, hn⟩) .inl
    · have htake : (encodeAll []).take n = 48 :: 13 :: 10 :: [13, 10].take (n - 3) := by
        obtain ⟨m, rfl⟩ := Nat.exists_eq_add_of_le (not_lt.mp hn)
        simp [encodeAll, lastChunk, Nat.add_comm 3 m]
      rw [htake] at h
      obtain ⟨r', hends, hlog⟩ := h.ends_last fsm
      refine ⟨r', _, hends, hlog, .inl ⟨by omega, 0, _, rfl, .inl ⟨rfl, by omega⟩⟩⟩
  | cons c cs ih =>
    have hstream : encodeAll (c :: cs) =
        c.digits ++ 13 :: 10 :: (c.data ++ 13 :: 10 :: encodeAll cs) := by
      simp [encodeAll, Chunk.encode]
    have hlast : lastLineEnd (c :: cs) = c.encode.length + lastLineEnd cs := by
      simp [lastLineEnd]
      omega
    have hlen := c.length_encode
    have hlt : hexValue c.digits < 2 ^ 64 - 2 := c.value ▸ c.size_lt
    rw [DetectableCut]
    split_ifs with hline hdata hend
    · rw [hstream] at h
      obtain ⟨r', outs, hends, hlog, hresult⟩ :=
        h.ends_cut_line fsm c.hex (digits_ne_of_pos c.value_pos) hlt hline
      refine ⟨r', outs, hends, hlog, ?_⟩
      rcases hresult with ⟨hdetect, code, description, houts⟩ | ⟨hdetect, hflaw⟩
      · exact .inl ⟨hdetect, 0, _, houts, .inr ⟨code, description, rfl⟩⟩
      · exact .inr ⟨hdetect, hflaw.elim (fun hmem => .inr ⟨hmem, by omega⟩) .inl⟩
    · obtain ⟨m, rfl⟩ := Nat.exists_eq_add_of_le (not_lt.mp hline)
      have htake : (encodeAll (c :: cs)).take (c.digits.length + 2 + m) =
          c.digits ++ 13 :: 10 :: c.data.take m := by
        rw [hstream, take_behind_line, List.take_append_of_le_length (by omega)]
      rw [htake] at h
      obtain ⟨s, hs, hatdata, hlog⟩ := h.reaches_data fsm c.hex c.value_pos hlt
      have hshort : (c.data.take m).length < hexValue c.digits := by
        rw [c.value, List.length_take]
        omega
      obtain ⟨r', code, description, hends, hlog'⟩ := hatdata.ends_error heof (by omega)
      refine ⟨r', _, hs.ends hends, hlog'.trans (by rw [hlog]), .inr ⟨id, .inl ?_⟩⟩
      exact ⟨_, List.mem_cons_self, none_mem_readArray hshort⟩
    · obtain ⟨m, rfl⟩ := Nat.exists_eq_add_of_le (not_lt.mp hdata)
      have htake : (encodeAll (c :: cs)).take (c.digits.length + 2 + c.data.length + m) =
          c.digits ++ 13 :: 10 :: (c.data ++ [13, 10].take m) := by
        have hcrlf : ([13, 10] ++ encodeAll cs).take m = [13, 10].take m :=
          List.take_append_of_le_length (by simp; omega)
        change (13 :: 10 :: encodeAll cs).take m = [13, 10].take m at hcrlf
        rw [hstream, Nat.add_assoc _ c.data.length, take_behind_line, List.take_length_add_append,
          hcrlf]
      rw [htake] at h
      obtain ⟨s, hs, hatdata, hlog⟩ := h.reaches_data fsm c.hex c.value_pos hlt
      rw [c.value] at hatdata
      obtain ⟨r', code, description, hends, hlog'⟩ := hatdata.ends_error heof
        (by simp; omega)
      refine ⟨r', _, hs.ends hends, hlog'.trans (by rw [hlog]), .inl ⟨trivial, 1, _, ?_,
        .inr ⟨code, description, rfl⟩⟩⟩
      rw [readArray_of_le (by simp), List.take_left]
      rfl
    · obtain ⟨m, rfl⟩ := Nat.exists_eq_add_of_le (not_lt.mp hend)
      have htake : (encodeAll (c :: cs)).take (c.encode.length + m) =
          c.encode ++ (encodeAll cs).take m := by
        have happend : encodeAll (c :: cs) = c.encode ++ encodeAll cs := by simp [encodeAll]
        rw [happend, List.take_length_add_append]
      rw [htake] at h
      obtain ⟨s, hs, hnext, hlog⟩ := h.reaches_next fsm
      obtain ⟨r', outs, hends, hlog', hresult⟩ := ih hnext
      refine ⟨r', .responseContentReceived (trunc 64 pos) (c.data.map some) :: outs,
        hs.ends hends, ?_, ?_⟩
      · rw [hlog', hlog, List.append_assoc]
        rfl
      · rw [Nat.add_sub_cancel_left]
        rcases hresult with ⟨hdetect, k, final, rfl, hfinal⟩ | ⟨hdetect, hflaw⟩
        · refine .inl ⟨hdetect, k + 1, final, rfl, hfinal.imp_left fun hcontent => ?_⟩
          exact ⟨hcontent.1, by omega⟩
        · refine .inr ⟨hdetect, hflaw.imp (fun hfab => ?_) fun hcontent => ?_⟩
          · obtain ⟨d, hd, hnone⟩ := hfab
            exact ⟨d, List.mem_cons_of_mem _ hd, hnone⟩
          · exact ⟨List.mem_cons_of_mem _ hcontent.1, by omega⟩

end Cuts

/-! ### What the callback sees of it -/

section Seen
variable {chunks : List Chunk} {n : ℕ} {log : List Output}

theorem mem_events {event : Output} (h : event.isRecord = false) :
    event ∈ events log ↔ event ∈ log := by
  simp [events, h]

theorem deliveries_events : deliveries (events log) = deliveries log := by
  unfold deliveries events
  rw [List.filterMap_filter]
  congr 1
  funext output
  cases output <;> rfl

theorem deliveries_responses (pos : ℕ) (cs : List Chunk) (final : Output)
    (hfinal : final.delivery = none) :
    deliveries (responses (trunc 64) pos cs ++ [final]) =
      deliveries (responses (trunc 64) pos cs) := by
  rw [deliveries_append, deliveries, List.append_right_eq_self]
  simp [deliveries, hfinal]

theorem genuine_responses (cs : List Chunk) (before after : List UInt8) :
    Genuine (before ++ (cs.flatMap Chunk.data ++ after)) (responses (trunc 64) before.length cs) := by
  induction cs generalizing before with
  | nil => exact fun d hd => absurd hd List.not_mem_nil
  | cons c cs ih =>
    intro d hd k hk
    rcases List.mem_cons.mp hd with rfl | hd
    · have hk' : k < c.data.length := by simpa using hk
      refine ⟨before.length + k, ?_, ?_, ?_⟩
      · simp
        omega
      · exact (Nat.mod_add_mod before.length (2 ^ 64) k).symm
      · rw [List.getElem?_append_right (by omega), Nat.add_sub_cancel_left, List.flatMap_cons,
          List.append_assoc, List.getElem?_append_left hk']
        simp [hk']
    · have hrest := ih (before ++ c.data)
      rw [List.length_append] at hrest
      have hdata : before ++ ((c :: cs).flatMap Chunk.data ++ after) =
          before ++ c.data ++ (cs.flatMap Chunk.data ++ after) := by simp
      rw [hdata]
      exact hrest d hd k hk

theorem contentReadEvent_not_mem_responses (offset : ℕ → ℕ) (pos : ℕ) (cs : List Chunk) :
    Output.contentReadEvent ∉ responses offset pos cs := by
  induction cs generalizing pos with
  | nil => exact List.not_mem_nil
  | cons c cs ih => simpa [responses] using ih _

theorem detects_of_faithful (h : Faithful chunks n 0 (events log)) : Detects chunks n log := by
  obtain ⟨k, final, hlog, hfinal⟩ := h
  constructor
  · intro hn
    obtain ⟨code, description, rfl⟩ := hfinal.resolve_left fun hcontent => by omega
    refine ⟨⟨code, description, (mem_events rfl).mp ?_⟩, fun hmem => ?_⟩
    · rw [hlog]
      exact List.mem_append_right _ (List.mem_singleton.mpr rfl)
    · rw [← mem_events rfl, hlog, List.mem_append] at hmem
      exact hmem.elim (contentReadEvent_not_mem_responses _ _ _) (by simp)
  · have hquiet : final.delivery = none := by
      rcases hfinal with ⟨rfl, -⟩ | ⟨code, description, rfl⟩ <;> rfl
    have hsame : deliveries log = deliveries (responses (trunc 64) 0 (chunks.take k)) := by
      rw [← deliveries_events, hlog, deliveries_responses _ _ _ hquiet]
    have hdata : (chunks.take k).flatMap Chunk.data ++ (chunks.drop k).flatMap Chunk.data =
        chunks.flatMap Chunk.data := by
      rw [← List.flatMap_append, List.take_append_drop]
    have hgenuine := genuine_responses (chunks.take k) [] ((chunks.drop k).flatMap Chunk.data)
    rw [Genuine, List.nil_append, hdata] at hgenuine
    rw [Genuine, hsame]
    exact hgenuine

theorem not_detects_of_flawed (h : Flawed chunks n (events log)) : ¬ Detects chunks n log := by
  intro hdetects
  rcases h with ⟨d, hd, hnone⟩ | ⟨hmem, hn⟩
  · rw [deliveries_events] at hd
    obtain ⟨k, hk, hget⟩ := List.mem_iff_getElem.mp hnone
    obtain ⟨pos, hpos, -, hbyte⟩ := hdetects.genuine d hd k hk
    rw [List.getElem?_eq_getElem hk, hget, List.getElem?_eq_getElem hpos] at hbyte
    cases hbyte
  · exact (hdetects.error hn).2 ((mem_events rfl).mp hmem)

end Seen

section Entry
variable {fsm : Fsm} {evt : HeadersParsedEvent} {net : PacketStream UInt8 IoError}
  {close : IoError}

theorem enter_ends_cut (hheaders : ChunkedOnly evt.headers) (heof : fsm.isEof (some close) = true)
    (hclose : net.close = some close) {chunks : List Chunk} {n : ℕ}
    (hbytes : evt.readBuffer ++ net.bytes = (encodeAll chunks).take n) :
    ∃ r, Ends (Reading.step fsm) (enter evt net) r ∧
      ((DetectableCut close chunks n ∧ Faithful chunks n 0 (events r.log)) ∨
        (¬ DetectableCut close chunks n ∧ Flawed chunks n (events r.log))) := by
  obtain ⟨hline, hnil⟩ := atLine_enter net hheaders
  rw [hbytes, hclose] at hline
  obtain ⟨r, outs, hends, hevents, hresult⟩ := hline.ends_cut heof
  rw [hnil, events_nil, List.nil_append] at hevents
  exact ⟨r, hends, by rw [hevents]; exact hresult⟩

/-- For every stream of chunks, every number of its bytes after which the peer closes the
connection in a way that counts as the end, and every cut of these into what the header read has
left over and packets. -/
theorem enter_ends_detects_iff (hheaders : ChunkedOnly evt.headers)
    (heof : fsm.isEof (some close) = true) (hclose : net.close = some close)
    (chunks : List Chunk) (n : ℕ)
    (hbytes : evt.readBuffer ++ net.bytes = (encodeAll chunks).take n) :
    ∃ r, Ends (Reading.step fsm) (enter evt net) r ∧
      (Detects chunks n r.log ↔ DetectableCut close chunks n) := by
  obtain ⟨r, hends, ⟨hcut, hfaithful⟩ | ⟨hcut, hflawed⟩⟩ :=
    enter_ends_cut hheaders heof hclose hbytes
  · exact ⟨r, hends, iff_of_true (detects_of_faithful hfaithful) hcut⟩
  · exact ⟨r, hends, iff_of_false (not_detects_of_flawed hflawed) hcut⟩

end Entry

/-! ### A chunk of five bytes -/

/-- The connection is closed after the line of the chunk and the first three of its bytes. -/
def cutPackets : PacketStream UInt8 IoError where
  packets := [[53, 13, 10], [104, 101, 108]]
  close := some .eof

theorem enter_ends_detects_iff_hello :
    ∃ r, Ends (Reading.step plainFsm) (enter (chunkedHeaders []) cutPackets) r ∧
      (Detects [helloChunk] 6 r.log ↔ DetectableCut .eof [helloChunk] 6) :=
  enter_ends_detects_iff (chunkedOnly_chunkedHeaders []) rfl rfl [helloChunk] 6 rfl

/-- Two of the five bytes delivered never came. -/
theorem enter_ends_not_detects :
    ∃ r, Ends (Reading.step plainFsm) (enter (chunkedHeaders []) cutPackets) r ∧
      ¬ Detects [helloChunk] 6 r.log := by
  have hbytes : (chunkedHeaders []).readBuffer ++ cutPackets.bytes =
      (encodeAll [helloChunk]).take 6 := rfl
  have hcut : ¬ DetectableCut .eof [helloChunk] 6 := by
    simp [DetectableCut, helloChunk]
  obtain ⟨r, hends, ⟨hdetect, -⟩ | ⟨-, hflawed⟩⟩ :=
    enter_ends_cut (chunkedOnly_chunkedHeaders []) (show plainFsm.isEof (some .eof) = true from rfl)
      rfl hbytes
  · exact absurd hdetect hcut
  · exact ⟨r, hends, not_detects_of_flawed hflawed⟩

end MediafireSdk.Http
