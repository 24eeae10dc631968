import MediafireSdk.Http.ReadContent
import Mathlib.Data.List.TakeWhile

/-! Chunked content (`HandleContentChunkSizeRead`, `HandleNextChunk`,
`HandleContentChunkRead`). What a reader does is a function of the bytes ahead of it,
those in the buffer followed by those in the packets: at the start of a chunk it takes
the line with the size, and then as many bytes as the size says and two more. The cut
into packets decides only how much of this each read brings. -/

namespace MediafireSdk.Http

open Streams Words Utils Steps

/-- A chunk as it is sent: a size in hexadecimal digits, and that many bytes. -/
structure Chunk where
  digits : List UInt8
  data : List UInt8
  hex : ∀ c ∈ digits, isHexDigit c = true
  value : hexValue digits = data.length
  nonempty : data ≠ []
  size_lt : data.length < 2 ^ 64 - 2

def Chunk.encode (c : Chunk) : List UInt8 := c.digits ++ 13 :: 10 :: (c.data ++ [13, 10])

/-- A line with the size zero, and an empty line. -/
def lastChunk : List UInt8 := [48, 13, 10, 13, 10]

def encodeAll (chunks : List Chunk) : List UInt8 := chunks.flatMap Chunk.encode ++ lastChunk

/-- One buffer for each chunk, at an offset that the length of those before it decides. -/
def responses (offset : ℕ → ℕ) : ℕ → List Chunk → List Output
  | _, [] => []
  | pos, c :: cs =>
    .responseContentReceived (offset pos) (c.data.map some) ::
      responses offset (pos + c.data.length) cs

def Output.isRecord : Output → Bool
  | .recordIncomingBytes _ => true
  | _ => false

/-- Without what goes to the bandwidth analyser. -/
def events (log : List Output) : List Output := log.filter fun output => !output.isRecord

@[simp] theorem events_nil : events [] = [] := rfl

@[simp] theorem events_append (xs ys : List Output) : events (xs ++ ys) = events xs ++ events ys :=
  List.filter_append _ _

@[simp] theorem events_recordIncomingBytes (fsm : Fsm) (n : ℕ) :
    events (fsm.recordIncomingBytes n) = [] := by
  unfold Fsm.recordIncomingBytes
  split <;> rfl

@[simp] theorem events_response (startPos : ℕ) (buffer : Buffer) :
    events [.responseContentReceived startPos buffer] =
      [.responseContentReceived startPos buffer] := rfl

@[simp] theorem events_contentRead : events [.contentReadEvent] = [.contentReadEvent] := rfl

@[simp] theorem events_error (code : HttpError) (description : String) :
    events [.errorEvent code description] = [.errorEvent code description] := rfl

/-- Headers with the chunked encoding and no other. -/
structure ChunkedOnly (headers : Headers) : Prop where
  transfer : parseTransferEncoding headers = { chunked := true }
  content : parseContentEncoding headers = {}

/-! ### Lines -/

theorem Chunk.value_pos (c : Chunk) : 0 < hexValue c.digits :=
  c.value ▸ List.length_pos_iff.mpr c.nonempty

theorem Chunk.length_encode (c : Chunk) :
    c.encode.length = c.digits.length + 2 + c.data.length + 2 := by
  simp [Chunk.encode]
  omega

theorem hasCrlf_iff (buffer : List UInt8) : hasCrlf buffer = true ↔ [13, 10] <:+: buffer := by
  induction buffer with
  | nil => simp [hasCrlf, crlfEnd]
  | cons c cs ih =>
    rw [List.infix_cons_iff, ← ih]
    by_cases hfirst : ∃ tail, c = 13 ∧ cs = 10 :: tail
    · obtain ⟨tail, rfl, rfl⟩ := hfirst
      simp [hasCrlf, crlfEnd]
    · have hstep : crlfEnd (c :: cs) = (crlfEnd cs).map (· + 1) := by
        rw [crlfEnd]
        exact fun tail hc hcs => hfirst ⟨tail, hc, hcs⟩
      have hprefix : ¬ [13, 10] <+: c :: cs := by
        rintro ⟨tail, htail⟩
        obtain ⟨hc, hcs⟩ := List.cons.inj htail
        exact hfirst ⟨tail, hc.symm, hcs.symm⟩
      simp [hasCrlf, hstep, hprefix]

theorem hasCrlf_append (xs ys : List UInt8) (h : hasCrlf xs = true) : hasCrlf (xs ++ ys) = true := by
  rw [hasCrlf_iff] at h ⊢
  exact h.trans (List.prefix_append xs ys).isInfix

theorem hasCrlf_line (line rest : List UInt8) : hasCrlf (line ++ 13 :: 10 :: rest) = true :=
  (hasCrlf_iff _).mpr ⟨line, rest, by simp⟩

theorem not_hasCrlf {line : List UInt8} (hline : 10 ∉ line) : hasCrlf line = false := by
  rw [← Bool.not_eq_true, hasCrlf_iff]
  exact fun h => hline (h.subset (by simp))

/-- A buffer that has the end of a line has the line. -/
theorem line_of_hasCrlf {line after buffer rest : List UInt8} (hline : 10 ∉ line)
    (h : buffer ++ rest = line ++ 13 :: 10 :: after) (hfound : hasCrlf buffer = true) :
    ∃ tail, buffer = line ++ 13 :: 10 :: tail ∧ tail ++ rest = after := by
  have hmem : 10 ∈ buffer := ((hasCrlf_iff buffer).mp hfound).subset (by simp)
  have hlong : line.length + 2 ≤ buffer.length := by
    by_contra hshort
    have hprefix : buffer <+: line ++ [13] := by
      apply List.prefix_of_prefix_length_le (List.prefix_append buffer rest)
      · rw [h]
        exact ⟨10 :: after, by simp⟩
      · simp
        omega
    have := hprefix.subset hmem
    simp [hline] at this
  have hprefix : line ++ [13, 10] <+: buffer := by
    have hwhole : line ++ [13, 10] <+: buffer ++ rest := by
      rw [h]
      exact ⟨after, by simp⟩
    exact List.prefix_of_prefix_length_le hwhole (List.prefix_append _ _) (by simpa using hlong)
  obtain ⟨tail, rfl⟩ := hprefix
  refine ⟨tail, by simp, ?_⟩
  simpa using h

theorem line_feed_not_mem {digits : List UInt8} (hhex : ∀ c ∈ digits, isHexDigit c = true) :
    10 ∉ digits :=
  fun hmem => absurd (hhex 10 hmem) (by decide)

theorem digits_ne_of_pos {digits : List UInt8} (h : 0 < hexValue digits) : digits ≠ [] := by
  rintro rfl
  exact absurd h (by decide)

theorem getline_of_mem {line after : List UInt8} (hline : 10 ∉ line) :
    getline (line ++ 10 :: after) = (line, after) := by
  have hne : ∀ c ∈ line, (decide (c ≠ 10)) = true := fun c hc =>
    decide_eq_true fun heq => hline (heq ▸ hc)
  rw [getline, List.takeWhile_append_of_pos hne, List.dropWhile_append_of_pos hne]
  simp

theorem getline_of_not_mem {line : List UInt8} (hline : 10 ∉ line) :
    getline line = (line, []) := by
  have hne : ∀ c ∈ line, (decide (c ≠ 10)) = true := fun c hc =>
    decide_eq_true fun heq => hline (heq ▸ hc)
  have htake := List.takeWhile_eq_self_iff.mpr hne
  have hdrop := List.dropWhile_eq_nil_iff.mpr hne
  rw [getline, htake, hdrop]
  rfl

/-! ### Steps of the reader -/

section Steps
variable {fsm : Fsm} {r : Reading} {stream after : List UInt8} {close : Option IoError}
  {pos size : ℕ}

/-- The bytes ahead of a reader that keeps nothing compressed. -/
structure Ahead (stream : List UInt8) (close : Option IoError) (d : ReadContentData)
    (net : PacketStream UInt8 IoError) : Prop where
  active : d.cancelled = false
  plain : d.usingGzip = false
  bytes : d.readBuffer ++ net.bytes = stream
  close : net.close = close

/-- At the start of a line, `pos` bytes delivered. -/
structure AtLine (stream : List UInt8) (close : Option IoError) (pos : ℕ) (r : Reading) :
    Prop where
  ahead : Ahead stream close r.data r.net
  op : r.op = some (.chunkSizeRead (trunc 64 pos))

/-- Behind the line of a chunk of `size` bytes. -/
structure AtData (stream : List UInt8) (close : Option IoError) (pos size : ℕ) (r : Reading) :
    Prop where
  ahead : Ahead stream close r.data r.net
  op : r.op = some (.chunkRead (size + 2 - r.data.readBuffer.length) (trunc 64 pos) size)

theorem AtLine.read_line (fsm : Fsm) {line : List UInt8}
    (h : AtLine (line ++ 13 :: 10 :: after) close pos r)
    (hline : 10 ∉ line) :
    ∃ d net n, r.step fsm =
        some (r.proceed (handleContentChunkSizeRead fsm d (trunc 64 pos) n none) net) ∧
      (getline d.readBuffer).1 = line ++ [13] ∧
      Ahead after close { d with readBuffer := (getline d.readBuffer).2 } net := by
  obtain ⟨⟨hactive, hplain, hbytes, hclose⟩, hop⟩ := h
  obtain ⟨received, rest, hread, hsplit, hfound, hrest⟩ :=
    PacketStream.readUntil_of_found (show hasCrlf (r.data.readBuffer ++ r.net.bytes) = true by
      rw [hbytes]; exact hasCrlf_line line after)
  have hjoin : (r.data.readBuffer ++ received) ++ rest.bytes = line ++ 13 :: 10 :: after := by
    rw [List.append_assoc, hsplit, hbytes]
  obtain ⟨tail, hbuffer, htail⟩ := line_of_hasCrlf hline hjoin hfound
  have hgetline : getline (r.data.readBuffer ++ received) = (line ++ [13], tail) := by
    have hfeed : 10 ∉ line ++ [13] := by simp [hline]
    rw [hbuffer, ← getline_of_mem hfeed]
    simp
  refine ⟨r.data.receive received, rest, _, by simp only [Reading.step, hop, hread]; rfl, ?_, ?_⟩
  · exact congrArg Prod.fst hgetline
  · refine ⟨hactive, hplain, ?_, hrest.trans hclose⟩
    rw [← htail]
    exact congrArg (· ++ rest.bytes) (congrArg Prod.snd hgetline)

/-- The handler of a line that is a number. -/
theorem handleContentChunkSizeRead_of_ok {d : ReadContentData} {consumed n : ℕ}
    {err : Option IoError} (hactive : d.cancelled = false) (herr : err = none ∨ err = some .eof)
    (hnumber : strToUint64 (getline d.readBuffer).1 16 = .ok size) :
    handleContentChunkSizeRead fsm d consumed n err =
      if size = 0 then
        handleCompleteAllChunks fsm { d with readBuffer := (getline d.readBuffer).2 }
          (fsm.recordIncomingBytes n)
      else
        handleNextChunk { d with readBuffer := (getline d.readBuffer).2 }
          (fsm.recordIncomingBytes n) consumed size := by
  rw [handleContentChunkSizeRead, if_neg (by rw [hactive]; decide), if_pos herr]
  simp only [hnumber]

theorem handleCompleteAllChunks_of_plain {d : ReadContentData} (hplain : d.usingGzip = false)
    (outputs : List Output) :
    handleCompleteAllChunks fsm d outputs = d.finish outputs .contentReadEvent := by
  rw [handleCompleteAllChunks, if_neg (by rw [hplain]; decide)]

/-- The delay between the line of a chunk and its data. -/
theorem reaches_atData {d : ReadContentData} {net : PacketStream UInt8 IoError} {n : ℕ}
    (hstep : r.step fsm = some (r.proceed
      (handleNextChunk d (fsm.recordIncomingBytes n) (trunc 64 pos) size) net))
    (h : Ahead stream close d net) (hsize : size < 2 ^ 64 - 2) :
    ∃ r', Reaches (Reading.step fsm) r r' ∧ AtData stream close pos size r' ∧
      events r'.log = events r.log := by
  have hneeded : trunc 64 (size + 2) = size + 2 := trunc_of_lt (by omega)
  have hleft : (if size + 2 < d.readBuffer.length then 0 else size + 2 - d.readBuffer.length) =
      size + 2 - d.readBuffer.length := by split <;> omega
  simp only [handleNextChunk, hneeded, hleft] at hstep
  refine ⟨_, .head hstep (.of_step rfl), ⟨?_, ?_⟩, ?_⟩
  all_goals simp only [Reading.proceed, handleContentChunkSizeReadDelay, h.active,
    Bool.false_eq_true, if_false, if_true]
  · exact ⟨rfl, h.plain, h.bytes, h.close⟩
  · simp

/-- A line whose size is not zero. -/
theorem AtLine.reaches_data (fsm : Fsm) {digits : List UInt8}
    (h : AtLine (digits ++ 13 :: 10 :: after) close pos r)
    (hhex : ∀ c ∈ digits, isHexDigit c = true) (hpos : 0 < hexValue digits)
    (hlt : hexValue digits < 2 ^ 64 - 2) :
    ∃ r', Reaches (Reading.step fsm) r r' ∧ AtData after close pos (hexValue digits) r' ∧
      events r'.log = events r.log := by
  obtain ⟨d, net, n, hstep, hline, hahead⟩ := h.read_line fsm (line_feed_not_mem hhex)
  have hnumber : strToUint64 (getline d.readBuffer).1 16 = .ok (hexValue digits) := by
    rw [hline]
    exact strToUint64_digits (digits_ne_of_pos hpos) hhex (.inr rfl) (by omega)
  have hactive : d.cancelled = false := hahead.active
  rw [handleContentChunkSizeRead_of_ok hactive (.inl rfl) hnumber, if_neg hpos.ne'] at hstep
  exact reaches_atData hstep hahead hlt

theorem ends_finish {d : ReadContentData} {net : PacketStream UInt8 IoError} {n : ℕ}
    {event : Output}
    (hstep : r.step fsm = some (r.proceed (d.finish (fsm.recordIncomingBytes n) event) net)) :
    ∃ r', Ends (Reading.step fsm) r r' ∧ events r'.log = events r.log ++ events [event] := by
  refine ⟨_, ⟨.of_step hstep, rfl⟩, ?_⟩
  simp [Reading.proceed, ReadContentData.finish]

/-- The line with the size zero. -/
theorem AtLine.ends_last (fsm : Fsm) (h : AtLine (48 :: 13 :: 10 :: after) close pos r) :
    ∃ r', Ends (Reading.step fsm) r r' ∧ events r'.log = events r.log ++ [.contentReadEvent] := by
  obtain ⟨d, net, n, hstep, hline, hahead⟩ :=
    AtLine.read_line fsm (show AtLine ([48] ++ 13 :: 10 :: after) close pos r from h) (by decide)
  have hnumber : strToUint64 (getline d.readBuffer).1 16 = .ok 0 := by
    rw [hline]
    rfl
  have hactive : d.cancelled = false := hahead.active
  rw [handleContentChunkSizeRead_of_ok hactive (.inl rfl) hnumber, if_pos rfl,
    handleCompleteAllChunks_of_plain hahead.plain] at hstep
  exact ends_finish hstep

/-- The data of a chunk, or what there is of it when the connection is closed. -/
theorem AtData.step (fsm : Fsm) (h : AtData stream close pos size r)
    (hread : size + 2 ≤ stream.length ∨ ∃ e, close = some e ∧ fsm.isEof (some e) = true) :
    ∃ r', r.step fsm = some r' ∧ AtLine (stream.drop (size + 2)) close (pos + size) r' ∧
      events r'.log = events r.log ++
        [.responseContentReceived (trunc 64 pos) (readArray size stream)] := by
  obtain ⟨⟨hactive, hplain, hbytes, hclose⟩, hop⟩ := h
  have htrunc : trunc 64 (trunc 64 pos + size) = trunc 64 (pos + size) :=
    Nat.mod_add_mod pos (2 ^ 64) size
  have hlen : r.data.readBuffer.length + r.net.bytes.length = stream.length := by
    rw [← hbytes, List.length_append]
  obtain ⟨received, err, rest, hreads, herr, hrest, harray, hdrop⟩ :
      ∃ received err rest, r.net.readExactly (size + 2 - r.data.readBuffer.length) =
          some ⟨received, err, rest⟩ ∧
        (err = none ∨ fsm.isEof err = true) ∧ rest.close = close ∧
        readArray size (r.data.readBuffer ++ received) = readArray size stream ∧
        (r.data.readBuffer ++ received).drop (size + 2) ++ rest.bytes =
          stream.drop (size + 2) := by
    by_cases hle : size + 2 ≤ stream.length
    · obtain ⟨rest, hreads, hrest, hsame⟩ :=
        r.net.readExactly_of_le (n := size + 2 - r.data.readBuffer.length) (by omega)
      refine ⟨_, none, rest, hreads, .inl rfl, hsame.trans hclose, ?_⟩
      generalize hreceived : r.net.bytes.take (size + 2 - r.data.readBuffer.length) = received
      have hjoin : (r.data.readBuffer ++ received) ++ rest.bytes = stream := by
        rw [hrest, ← hreceived, List.append_assoc, List.take_append_drop, hbytes]
      have hlong : size + 2 ≤ (r.data.readBuffer ++ received).length := by
        rw [List.length_append, ← hreceived, List.length_take]
        omega
      generalize r.data.readBuffer ++ received = buffer at hjoin hlong
      have htake : (buffer ++ rest.bytes).take size = buffer.take size :=
        List.take_append_of_le_length (by omega)
      have harray : readArray size (buffer ++ rest.bytes) = (buffer.take size).map some := by
        rw [readArray_of_le (by rw [List.length_append]; omega), htake]
      rw [← hjoin, List.drop_append_of_le_length hlong, harray, readArray_of_le (by omega)]
      exact ⟨rfl, rfl⟩
    · obtain ⟨e, rfl, heof⟩ := hread.resolve_left hle
      refine ⟨r.net.bytes, some e, { packets := [], close := some e }, ?_, .inr heof, rfl, ?_⟩
      · rw [PacketStream.readExactly_of_lt (by omega), PacketStream.drained_of_close hclose]
      · rw [hbytes]
        exact ⟨rfl, List.append_nil _⟩
  refine ⟨_, by simp only [Reading.step, hop, hreads, Option.map_some]; rfl, ?_⟩
  rw [handleContentChunkRead, if_neg (by simp [ReadContentData.receive, hactive]), if_pos herr]
  have hplain' : (r.data.receive received).usingGzip = false := hplain
  simp only [hplain', passBuffer, Bool.false_eq_true, if_false, List.drop_drop, htrunc]
  refine ⟨⟨⟨hactive, rfl, hdrop, hrest⟩, rfl⟩, ?_⟩
  rw [Reading.proceed, events_append, events_append, events_recordIncomingBytes, List.nil_append,
    events_response, ← harray]
  rfl

end Steps

/-! ### Whole runs -/

section Runs
variable {fsm : Fsm} {r : Reading} {close : Option IoError} {pos : ℕ}

theorem AtLine.reaches_next (fsm : Fsm) (c : Chunk) {rest : List UInt8}
    (h : AtLine (c.encode ++ rest) close pos r) :
    ∃ r', Reaches (Reading.step fsm) r r' ∧ AtLine rest close (pos + c.data.length) r' ∧
      events r'.log = events r.log ++
        [.responseContentReceived (trunc 64 pos) (c.data.map some)] := by
  have hstream : c.encode ++ rest = c.digits ++ 13 :: 10 :: (c.data ++ 13 :: 10 :: rest) := by
    simp [Chunk.encode]
  rw [hstream] at h
  have hlt : hexValue c.digits < 2 ^ 64 - 2 := c.value ▸ c.size_lt
  obtain ⟨s, hs, hdata, hlog⟩ := h.reaches_data fsm c.hex c.value_pos hlt
  rw [c.value] at hdata
  obtain ⟨t, ht, hline, hlog'⟩ := hdata.step fsm (.inl (by simp))
  refine ⟨t, hs.trans (.of_step ht), ?_, ?_⟩
  · have hdrop : (c.data ++ 13 :: 10 :: rest).drop (c.data.length + 2) = rest := by
      simp [List.drop_append]
    rwa [hdrop] at hline
  · rw [hlog', hlog, readArray_of_le (by simp), List.take_left]

theorem AtLine.ends_all (fsm : Fsm) (chunks : List Chunk) {rest : List UInt8}
    (h : AtLine (encodeAll chunks ++ rest) close pos r) :
    ∃ r', Ends (Reading.step fsm) r r' ∧
      events r'.log = events r.log ++ (responses (trunc 64) pos chunks ++ [.contentReadEvent]) := by
  induction chunks generalizing r pos with
  | nil => exact h.ends_last fsm
  | cons c cs ih =>
    have hstream : encodeAll (c :: cs) ++ rest = c.encode ++ (encodeAll cs ++ rest) := by
      simp [encodeAll]
    rw [hstream] at h
    obtain ⟨s, hs, hline, hlog⟩ := h.reaches_next fsm
    obtain ⟨t, ht, hlog'⟩ := ih hline
    refine ⟨t, hs.ends ht, ?_⟩
    rw [hlog', hlog, List.append_assoc]
    rfl

end Runs

/-! ### Entering the state -/

section Entry
variable {fsm : Fsm} {evt : HeadersParsedEvent} {net : PacketStream UInt8 IoError}

theorem atLine_enter (net : PacketStream UInt8 IoError) (h : ChunkedOnly evt.headers) :
    AtLine (evt.readBuffer ++ net.bytes) net.close 0 (enter evt net) ∧
      (enter evt net).log = [] := by
  have hentry : onEntry evt =
      { data := { contentLength := evt.contentLength, readBuffer := evt.readBuffer }
        next := some (.chunkSizeRead 0) } := by
    simp [onEntry, h.transfer, h.content]
  simp only [enter, hentry]
  exact ⟨⟨⟨rfl, rfl, rfl, rfl⟩, rfl⟩, trivial⟩

/-- Whatever follows the chunks, however the stream is cut into what the header read has left over
and packets, and however the peer closes. -/
theorem enter_ends_delivering (hheaders : ChunkedOnly evt.headers) (chunks : List Chunk)
    (rest : List UInt8) (hbytes : evt.readBuffer ++ net.bytes = encodeAll chunks ++ rest) :
    ∃ r, Ends (Reading.step fsm) (enter evt net) r ∧
      events r.log = responses (trunc 64) 0 chunks ++ [.contentReadEvent] := by
  obtain ⟨hline, hlog⟩ := atLine_enter net hheaders
  rw [hbytes] at hline
  obtain ⟨r, hends, hevents⟩ := hline.ends_all fsm
  refine ⟨r, hends, ?_⟩
  rw [hevents, hlog, events_nil, List.nil_append]

end Entry

/-! ### Offsets of 64 bits -/

/-- `"5\r\nhello\r\n"`. -/
def helloChunk : Chunk where
  digits := [53]
  data := [104, 101, 108, 108, 111]
  hex := List.forall_mem_singleton.mpr rfl
  value := by decide
  nonempty := by decide
  size_lt := by decide

/-- `"1\r\nx\r\n"`. -/
def oneByte : Chunk where
  digits := [49]
  data := [120]
  hex := List.forall_mem_singleton.mpr rfl
  value := by decide
  nonempty := by decide
  size_lt := by decide

def chunkedHeaders (readBuffer : List UInt8) : HeadersParsedEvent where
  contentLength := 0
  headers := [("transfer-encoding", "chunked")]
  readBuffer := readBuffer

theorem chunkedOnly_chunkedHeaders (readBuffer : List UInt8) :
    ChunkedOnly (chunkedHeaders readBuffer).headers := ⟨rfl, rfl⟩

/-- The first byte in the buffer, the rest in two packets, and the next response behind it. -/
theorem enter_ends_delivering_hello :
    ∃ r, Ends (Reading.step plainFsm) (enter (chunkedHeaders [53])
        { packets := [[13, 10, 104, 101], [108, 108, 111, 13, 10, 48, 13, 10, 13, 10, 72]]
          close := none }) r ∧
      events r.log = responses (trunc 64) 0 [helloChunk] ++ [.contentReadEvent] :=
  enter_ends_delivering (chunkedOnly_chunkedHeaders [53]) [helloChunk] [72] rfl

theorem responses_replicate (offset : ℕ → ℕ) (c : Chunk) {i n : ℕ} (h : i < n) (pos : ℕ) :
    (responses offset pos (List.replicate n c))[i]? =
      some (.responseContentReceived (offset (pos + i * c.data.length)) (c.data.map some)) := by
  induction i generalizing n pos with
  | zero =>
    obtain ⟨n, rfl⟩ := Nat.exists_eq_succ_of_ne_zero h.ne'
    simp [List.replicate_succ, responses]
  | succ i ih =>
    obtain ⟨n, rfl⟩ := Nat.exists_eq_succ_of_ne_zero (Nat.ne_zero_of_lt h)
    rw [List.replicate_succ, responses, List.getElem?_cons_succ, ih (by omega)]
    congr 3
    ring

/-- The offset of a byte after `2 ^ 64` others is zero. -/
theorem responses_ne {n : ℕ} (h : 2 ^ 64 < n) :
    responses (trunc 64) 0 (List.replicate n oneByte) ≠
      responses id 0 (List.replicate n oneByte) := by
  intro heq
  have hget := congrArg (·[2 ^ 64]?) heq
  simp only [responses_replicate _ _ h, Option.some.injEq, Output.responseContentReceived.injEq,
    and_true] at hget
  have hlen : oneByte.data.length = 1 := rfl
  rw [hlen] at hget
  exact absurd hget (by decide)

/-- `2 ^ 64 + 1` chunks of one byte. -/
def manyBytes : List Chunk := List.replicate (2 ^ 64 + 1) oneByte

theorem not_ends_with_exact_offsets :
    ¬ ∃ r, Ends (Reading.step plainFsm)
        (enter (chunkedHeaders []) { packets := [encodeAll manyBytes], close := none }) r ∧
      events r.log = responses id 0 manyBytes ++ [.contentReadEvent] := by
  rintro ⟨r, hends, hlog⟩
  obtain ⟨hline, hnil⟩ := atLine_enter { packets := [encodeAll manyBytes], close := none }
    (chunkedOnly_chunkedHeaders [])
  have hbytes : (chunkedHeaders []).readBuffer ++
      ({ packets := [encodeAll manyBytes], close := none } : PacketStream UInt8 IoError).bytes =
      encodeAll manyBytes ++ [] := by
    simp [PacketStream.bytes, chunkedHeaders]
  rw [hbytes] at hline
  obtain ⟨r', hends', hevents⟩ := hline.ends_all plainFsm
  rw [hends.unique hends', hevents, hnil] at hlog
  exact responses_ne (Nat.lt_succ_self _) (List.append_cancel_right hlog)

end MediafireSdk.Http
