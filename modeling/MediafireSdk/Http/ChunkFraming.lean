import MediafireSdk.Http.ChunkedContent
import MediafireSdk.Http.IncomingBytes

/-! The framing of chunks. A size line is whatever `std::stoul` takes for a number, up to the first
line feed or the end of the connection, and the two bytes behind the data of a chunk are skipped
unseen. Where the reader goes on all the same, the stream is framed as it has to be. -/

namespace MediafireSdk.Http

open Streams Words Utils Steps

/-- The bytes that a reader has not used yet, those in the buffer first. -/
def Reading.ahead (r : Reading) : List UInt8 := r.data.readBuffer ++ r.net.bytes

/-- A stream that begins with the line of a chunk of `size` bytes: hexadecimal digits, and perhaps
an extension behind a semicolon. -/
structure SizeLine (stream : List UInt8) (size : ℕ) where
  digits : List UInt8
  extension : List UInt8
  rest : List UInt8
  parts : stream = digits ++ (extension ++ 13 :: 10 :: rest)
  nonempty : digits ≠ []
  hex : ∀ c ∈ digits, isHexDigit c = true
  semicolon : extension = [] ∨ extension.head? = some 59
  line : 10 ∉ extension
  value : hexValue digits = size
  fits : size + 2 < 2 ^ 64

def Raised (r : Reading) : Prop := ∃ code description, Output.errorEvent code description ∈ r.log

/-- A step that goes on only behind a well-formed line or a chunk with its end. -/
structure FramedStep (r r' : Reading) : Prop where
  line : ∀ consumed, r.op = some (.chunkSizeRead consumed) → Raised r' ∨
    ∃ size, Nonempty (SizeLine r.ahead size) ∧ ∀ left consumed' n,
      r'.op = some (.chunkSizeReadDelay left consumed' n) →
        n = size ∧ left = size + 2 - r'.data.readBuffer.length
  data : ∀ left consumed size, r.op = some (.chunkRead left consumed size) → Raised r' ∨
    (r.ahead.drop size).take 2 = [13, 10]

/-- A line that is no size line but is taken for one: it begins like a number, and the connection
does not fail before its end. Or a chunk without its end, with as many bytes as are asked for or
the end of the connection. -/
def Mistaken (fsm : Fsm) (r : Reading) : Prop :=
  match r.op with
  | some (.chunkSizeRead _) =>
    (∀ size, IsEmpty (SizeLine r.ahead size)) ∧
      (hasCrlf r.ahead = true ∨ r.net.close = some .eof) ∧
      ∃ value, Nonempty (Numeral (getline r.ahead).1 value) ∧
        (value = 0 → r.data.usingGzip = true →
          ∃ bytes, fsm.gunzip r.data.gzippedBuffer = .ok bytes)
  | some (.chunkRead left _ size) =>
    (r.ahead.drop size).take 2 ≠ [13, 10] ∧
      (left ≤ r.net.bytes.length ∨ ∃ e, r.net.close = some e ∧ fsm.isEof (some e) = true)
  | _ => False

/-! ### Lines -/

theorem getline_initial {buffer : List UInt8} (h : 10 ∈ buffer) (rest : List UInt8) :
    (getline (buffer ++ rest)).1 = (getline buffer).1 := by
  obtain ⟨line, after, rfl, hline⟩ := List.eq_append_cons_of_mem h
  rw [List.append_assoc, List.cons_append, getline_of_mem hline, getline_of_mem hline]

namespace SizeLine
variable {stream : List UInt8} {size : ℕ}

theorem getline_eq (h : SizeLine stream size) :
    (getline stream).1 = h.digits ++ (h.extension ++ [13]) := by
  have hfeed : 10 ∉ h.digits ++ (h.extension ++ [13]) := by
    simp only [List.mem_append, not_or]
    exact ⟨line_feed_not_mem h.hex, h.line, by decide⟩
  have hparts : stream = (h.digits ++ (h.extension ++ [13])) ++ 10 :: h.rest := by
    refine h.parts.trans ?_
    simp
  exact (congrArg (fun s => (getline s).1) hparts).trans
    (congrArg Prod.fst (getline_of_mem hfeed))

theorem strToUint64_getline (h : SizeLine stream size) :
    strToUint64 (getline stream).1 16 = .ok size := by
  -- behind the digits there is a semicolon or a carriage return
  have hbehind : ∀ c ∈ (h.extension ++ [13]).head?, c = 59 ∨ c = 13 := by
    intro c hc
    rcases h.semicolon with hnil | hsemicolon
    · rw [hnil] at hc
      exact .inr (Option.some.inj hc).symm
    · obtain ⟨cs, hcs⟩ := List.head?_eq_some_iff.mp hsemicolon
      rw [hcs] at hc
      exact .inl (Option.some.inj hc).symm
  rw [h.getline_eq, strToUint64_eq_ok_iff]
  refine ⟨{ blanks := [], sign := [], before := [], digits := h.digits
            rest := h.extension ++ [13]
            parts := rfl, isSpace_blanks := nofun, isSign := .inl rfl, isBefore := .inl rfl
            nonempty := h.nonempty, hex := h.hex, maximal := ?_, unprefixed := ?_
            fits := ?_, isValue := h.value.symm }⟩
  · intro c hc
    rcases hbehind c hc with rfl | rfl <;> decide
  · intro _ _ x c cs hrest hx
    rw [hrest] at hbehind
    rcases hbehind x rfl with rfl | rfl <;> exact absurd hx (by decide)
  · have := h.fits
    rw [h.value]
    omega

end SizeLine

/-! ### Handlers -/

section Handlers
variable {fsm : Fsm} {d : ReadContentData}

/-- An outcome that raises an error. -/
def Outcome.Fails (o : Outcome) : Prop :=
  ∃ code description, Output.errorEvent code description ∈ o.outputs

theorem fails_finish (d : ReadContentData) (outputs : List Output) (code : HttpError)
    (description : String) : (d.finish outputs (.errorEvent code description)).Fails :=
  ⟨code, description, List.mem_append_right _ (List.mem_singleton_self _)⟩

theorem errorEvent_not_mem_recordIncomingBytes (fsm : Fsm) (n : ℕ) (code : HttpError)
    (description : String) : Output.errorEvent code description ∉ fsm.recordIncomingBytes n :=
  not_mem_recordIncomingBytes (by simp)

theorem errorEvent_not_mem_passBuffer (d : ReadContentData) (startPos size : ℕ)
    (code : HttpError) (description : String) :
    Output.errorEvent code description ∉ passBuffer d startPos size := by
  unfold passBuffer
  split <;> simp

theorem handleContentChunkRead_fails_iff (hactive : d.cancelled = false) (consumed size n : ℕ)
    (err : Option IoError) : (handleContentChunkRead fsm d consumed size n err).Fails ↔
      ¬(err = none ∨ fsm.isEof err = true) := by
  unfold handleContentChunkRead
  rw [if_neg (Bool.not_eq_true _ ▸ hactive)]
  dsimp only
  by_cases herr : err = none ∨ fsm.isEof err = true
  · rw [if_pos herr]
    refine iff_of_false ?_ (not_not.mpr herr)
    rintro ⟨code, description, hmem⟩
    exact (List.mem_append.mp hmem).elim (errorEvent_not_mem_recordIncomingBytes _ _ _ _)
      (errorEvent_not_mem_passBuffer _ _ _ _ _)
  · rw [if_neg herr]
    exact iff_of_true (fails_finish _ _ _ _) herr

theorem handleCompleteAllChunks_fails_iff (d : ReadContentData) (n : ℕ) :
    (handleCompleteAllChunks fsm d (fsm.recordIncomingBytes n)).Fails ↔
      ¬(d.usingGzip = true → ∃ bytes, fsm.gunzip d.gzippedBuffer = .ok bytes) := by
  unfold handleCompleteAllChunks
  split_ifs with hgzip
  · cases hgunzip : fsm.gunzip d.gzippedBuffer with
    | error err =>
      refine iff_of_true ?_ (by simp [hgzip])
      cases err <;> exact fails_finish _ _ _ _
    | ok bytes =>
      refine iff_of_false ?_ (by simp [hgzip])
      rintro ⟨code, description, hmem⟩
      simp [ReadContentData.finish, errorEvent_not_mem_recordIncomingBytes] at hmem
  · refine iff_of_false ?_ (by simp [hgzip])
    rintro ⟨code, description, hmem⟩
    simp [ReadContentData.finish, errorEvent_not_mem_recordIncomingBytes] at hmem

theorem handleContentChunkSizeRead_fails_iff (hactive : d.cancelled = false) (consumed n : ℕ)
    (err : Option IoError) : (handleContentChunkSizeRead fsm d consumed n err).Fails ↔
      ¬((err = none ∨ err = some .eof) ∧ ∃ value,
        strToUint64 (getline d.readBuffer).1 16 = .ok value ∧ (value = 0 → d.usingGzip = true →
          ∃ bytes, fsm.gunzip d.gzippedBuffer = .ok bytes)) := by
  unfold handleContentChunkSizeRead
  rw [if_neg (Bool.not_eq_true _ ▸ hactive)]
  dsimp only
  split_ifs with herr
  · cases hnumber : strToUint64 (getline d.readBuffer).1 16 with
    | error e => exact iff_of_true (fails_finish _ _ _ _) (by simp)
    | ok value =>
      dsimp only
      split_ifs with hzero
      · rw [handleCompleteAllChunks_fails_iff]
        simp [herr, hzero]
      · refine iff_of_false ?_ (by simp [herr, hzero])
        rintro ⟨code, description, hmem⟩
        exact errorEvent_not_mem_recordIncomingBytes _ _ _ _ hmem
  · exact iff_of_true (fails_finish _ _ _ _) (by simp [herr])

/-- A line that the handler goes on behind. -/
theorem handleContentChunkSizeRead_next (hactive : d.cancelled = false) {consumed n : ℕ}
    {err : Option IoError} {op : AsyncOp}
    (h : (handleContentChunkSizeRead fsm d consumed n err).next = some op) :
    ∃ value, strToUint64 (getline d.readBuffer).1 16 = .ok value ∧
      handleContentChunkSizeRead fsm d consumed n err =
        handleNextChunk { d with readBuffer := (getline d.readBuffer).2 }
          (fsm.recordIncomingBytes n) consumed value := by
  unfold handleContentChunkSizeRead at h ⊢
  rw [if_neg (Bool.not_eq_true _ ▸ hactive)] at h ⊢
  dsimp only at h ⊢
  split_ifs at h ⊢ with herr
  · cases hnumber : strToUint64 (getline d.readBuffer).1 16 with
    | error e =>
      rw [hnumber] at h
      cases h
    | ok value =>
      rw [hnumber] at h
      dsimp only at h ⊢
      split_ifs at h ⊢ with hzero
      · rw [(handleCompleteAllChunks_counts fsm _ _).2] at h
        cases h
      · exact ⟨value, rfl, rfl⟩
  · cases h

theorem handleContentRead_next {total previously n : ℕ} {err : Option IoError} {op : AsyncOp}
    (h : (handleContentRead fsm d total previously n err).next = some op) :
    op.ofChunks = false := by
  unfold handleContentRead at h
  dsimp only at h
  by_cases hactive : d.cancelled = true
  · rw [if_pos hactive] at h
    cases h
  · rw [if_neg hactive] at h
    generalize (if d.usingGzip = true then d else
      { d with readBuffer := d.readBuffer.drop (trunc 64 (previously + n)) }) = d' at h
    split_ifs at h
    · cases h
    · rw [(handleContentComplete_counts fsm _ _).2] at h
      cases h
    · cases h
      rfl
    · cases h

end Handlers

/-! ### Steps -/

section Steps
variable {fsm : Fsm} {r r' : Reading}

/-- Before a step of the chunk handlers. -/
def Calm (r : Reading) : Prop :=
  ∀ op, r.op = some op → op.ofChunks = true → r.data.cancelled = false ∧ ¬Raised r

theorem raised_proceed (r : Reading) (outcome : Outcome) (net : PacketStream UInt8 IoError) :
    Raised (r.proceed outcome net) ↔ Raised r ∨ outcome.Fails := by
  simp only [Raised, Outcome.Fails, Reading.proceed, List.mem_append, ← exists_or]

theorem calm_proceed {outcome : Outcome} {net : PacketStream UInt8 IoError} (h : ¬Raised r)
    (hnext : ∀ op, outcome.next = some op → outcome.data.cancelled = false ∧ ¬outcome.Fails) :
    Calm (r.proceed outcome net) := by
  intro op hop _
  obtain ⟨hactive, hfails⟩ := hnext op hop
  exact ⟨hactive, (raised_proceed _ _ _).not.mpr (not_or.mpr ⟨h, hfails⟩)⟩

theorem Calm.step (h : Calm r) (hstep : r.step fsm = some r') : Calm r' := by
  cases hop : r.op with
  | none =>
    rw [Reading.step, hop] at hstep
    cases hstep
  | some op =>
    cases op with
    | contentRead size total previously =>
      simp only [Reading.step, hop] at hstep
      obtain ⟨read, -, rfl⟩ := Option.map_eq_some_iff.mp hstep
      exact fun op hop hchunk => absurd (handleContentRead_next hop) (by rw [hchunk]; decide)
    | contentReadDelay size total =>
      simp only [Reading.step, hop, handleContentReadDelayCallback] at hstep
      split_ifs at hstep <;> cases hstep
      · rintro _ ⟨⟩
      · rintro op hop hchunk
        cases hop
        cases hchunk
      · rintro _ ⟨⟩
    | chunkRead left consumed size =>
      obtain ⟨hactive, hquiet⟩ := h _ hop rfl
      simp only [Reading.step, hop] at hstep
      obtain ⟨read, -, rfl⟩ := Option.map_eq_some_iff.mp hstep
      refine calm_proceed hquiet fun op hnext => ?_
      have hactive' : (r.data.receive read.received).cancelled = false := hactive
      rw [handleContentChunkRead_fails_iff hactive', not_not]
      unfold handleContentChunkRead at hnext ⊢
      rw [if_neg (Bool.not_eq_true _ ▸ hactive')] at hnext ⊢
      dsimp only at hnext ⊢
      by_cases herr : read.error = none ∨ fsm.isEof read.error = true
      · rw [if_pos herr]
        refine ⟨?_, herr⟩
        dsimp only
        split <;> exact hactive
      · rw [if_neg herr] at hnext
        cases hnext
    | chunkSizeReadDelay left consumed size =>
      obtain ⟨hactive, hquiet⟩ := h _ hop rfl
      simp only [Reading.step, hop, handleContentChunkSizeReadDelay] at hstep
      rw [if_neg (Bool.not_eq_true _ ▸ hactive)] at hstep
      split_ifs at hstep <;> cases hstep
      · exact calm_proceed hquiet fun _ _ => ⟨hactive, by simp [Outcome.Fails]⟩
      · exact calm_proceed hquiet (by rintro _ ⟨⟩)
    | chunkSizeRead consumed =>
      obtain ⟨hactive, hquiet⟩ := h _ hop rfl
      simp only [Reading.step, hop] at hstep
      obtain ⟨read, -, rfl⟩ := Option.map_eq_some_iff.mp hstep
      refine calm_proceed hquiet fun op hnext => ?_
      have hactive' : (r.data.receive read.received).cancelled = false := hactive
      obtain ⟨value, -, heq⟩ := handleContentChunkSizeRead_next hactive' hnext
      rw [heq]
      refine ⟨hactive, ?_⟩
      rintro ⟨code, description, hmem⟩
      exact errorEvent_not_mem_recordIncomingBytes _ _ _ _ hmem

/-- The bytes that a line is read from. -/
theorem getline_read {read : Read UInt8 IoError}
    (h : r.net.readUntil hasCrlf r.data.readBuffer = some read) :
    (getline (r.data.readBuffer ++ read.received)).1 = (getline r.ahead).1 := by
  obtain ⟨⟨hbytes, -⟩, hfound⟩ := PacketStream.readUntil_taken h
  unfold Reading.ahead
  cases herr : read.error with
  | none =>
    have hfeed : 10 ∈ r.data.readBuffer ++ read.received :=
      ((hasCrlf_iff _).mp (hfound herr)).subset (by simp)
    rw [← hbytes, ← List.append_assoc, getline_initial hfeed]
  | some e =>
    rw [(PacketStream.readUntil_error h herr).2.1]

/-- When the bytes of a read are used, in terms of what is there. -/
theorem lineRead_used_iff {read : Read UInt8 IoError}
    (h : r.net.readUntil hasCrlf r.data.readBuffer = some read) :
    (read.error = none ∨ read.error = some .eof) ↔
      (hasCrlf r.ahead = true ∨ r.net.close = some .eof) := by
  obtain ⟨⟨hbytes, -⟩, hfound⟩ := PacketStream.readUntil_taken h
  cases herr : read.error with
  | none =>
    refine iff_of_true (.inl rfl) (.inl ?_)
    rw [Reading.ahead, ← hbytes, ← List.append_assoc]
    exact hasCrlf_append _ _ (hfound herr)
  | some e =>
    obtain ⟨hclose, -, -, hmissing⟩ := PacketStream.readUntil_error h herr
    have hnot : ¬hasCrlf r.ahead = true := Bool.not_eq_true _ ▸ hmissing
    simp [hclose, hnot]

theorem chunkRead_used_iff {left : ℕ} {read : Read UInt8 IoError}
    (h : r.net.readExactly left = some read) :
    (read.error = none ∨ fsm.isEof read.error = true) ↔ (left ≤ r.net.bytes.length ∨
      ∃ e, r.net.close = some e ∧ fsm.isEof (some e) = true) := by
  obtain ⟨hnone, hclose⟩ := PacketStream.readExactly_error h
  cases herr : read.error with
  | none => exact iff_of_true (.inl rfl) (.inl (hnone.mp herr))
  | some e =>
    have hless : ¬left ≤ r.net.bytes.length := fun hle => by
      rw [hnone.mpr hle] at herr
      cases herr
    simp [hclose e herr, hless]

/-- The one step of a chunk: what `FramedStep` asks for is what `Mistaken` lacks. -/
theorem framedStep_iff (hcalm : Calm r) (hstep : r.step fsm = some r') :
    FramedStep r r' ↔ ¬Mistaken fsm r := by
  cases hop : r.op with
  | none =>
    rw [Reading.step, hop] at hstep
    cases hstep
  | some op =>
    cases op with
    | chunkRead left consumed size =>
      obtain ⟨hactive, hquiet⟩ := hcalm _ hop rfl
      simp only [Reading.step, hop] at hstep
      obtain ⟨read, hread, rfl⟩ := Option.map_eq_some_iff.mp hstep
      have hactive' : (r.data.receive read.received).cancelled = false := hactive
      have hraised := raised_proceed r (handleContentChunkRead fsm (r.data.receive read.received)
        consumed size read.received.length read.error) read.rest
      rw [handleContentChunkRead_fails_iff hactive', chunkRead_used_iff hread,
        or_iff_right hquiet] at hraised
      rw [Mistaken, hop]
      dsimp only
      rw [not_and_or, not_not, ← hraised, or_comm]
      refine ⟨fun h => h.data _ _ _ hop, fun h => ⟨fun _ hline => ?_, fun _ _ _ hdata => ?_⟩⟩
      · cases hop.symm.trans hline
      · cases hop.symm.trans hdata
        exact h
    | chunkSizeRead consumed =>
      obtain ⟨hactive, hquiet⟩ := hcalm _ hop rfl
      simp only [Reading.step, hop] at hstep
      obtain ⟨read, hread, rfl⟩ := Option.map_eq_some_iff.mp hstep
      have hactive' : (r.data.receive read.received).cancelled = false := hactive
      have hgetline : (getline (r.data.receive read.received).readBuffer).1 =
          (getline r.ahead).1 := getline_read hread
      generalize (if read.error.isSome then 0 else
        (crlfEnd (r.data.receive read.received).readBuffer).getD 0) = n
      have hraised := raised_proceed r (handleContentChunkSizeRead fsm
        (r.data.receive read.received) consumed n read.error) read.rest
      rw [handleContentChunkSizeRead_fails_iff hactive', lineRead_used_iff hread, hgetline,
        or_iff_right hquiet] at hraised
      simp only [strToUint64_eq_ok_iff] at hraised
      change _ ↔ ¬(_ ∧ ∃ value, _ ∧ (_ → r.data.usingGzip = true →
        ∃ bytes, fsm.gunzip r.data.gzippedBuffer = .ok bytes)) at hraised
      rw [Mistaken, hop]
      dsimp only
      rw [not_and_or, ← hraised]
      refine ⟨fun h => ?_, fun h => ⟨fun _ hline => ?_, fun _ _ _ hdata => ?_⟩⟩
      · rcases h.line _ hop with hnot | ⟨size, ⟨hsize⟩, -⟩
        · exact .inr hnot
        · exact .inl fun hnone => (hnone size).false hsize
      · cases hop.symm.trans hline
        refine h.elim (fun hnot => .inr ?_) .inl
        obtain ⟨size, hsize⟩ := not_forall.mp hnot
        obtain ⟨line⟩ := not_isEmpty_iff.mp hsize
        refine ⟨size, ⟨line⟩, fun left consumed' m hnext => ?_⟩
        obtain ⟨value, hvalue, heq⟩ := handleContentChunkSizeRead_next hactive' hnext
        rw [hgetline, line.strToUint64_getline] at hvalue
        cases hvalue
        have hneeded : trunc 64 (size + 2) = size + 2 := trunc_of_lt line.fits
        rw [Reading.proceed, heq, handleNextChunk, hneeded] at hnext
        rw [Reading.proceed, heq, handleNextChunk]
        dsimp only at hnext ⊢
        cases hnext
        refine ⟨rfl, ?_⟩
        split <;> omega
      · cases hop.symm.trans hdata
    | contentRead size total previously =>
      rw [Mistaken, hop]
      refine iff_of_true ⟨fun _ h => ?_, fun _ _ _ h => ?_⟩ not_false <;> cases hop.symm.trans h
    | contentReadDelay size total =>
      rw [Mistaken, hop]
      refine iff_of_true ⟨fun _ h => ?_, fun _ _ _ h => ?_⟩ not_false <;> cases hop.symm.trans h
    | chunkSizeReadDelay left consumed size =>
      rw [Mistaken, hop]
      refine iff_of_true ⟨fun _ h => ?_, fun _ _ _ h => ?_⟩ not_false <;> cases hop.symm.trans h

end Steps

/-! ### Runs -/

section Runs
variable {fsm : Fsm} {evt : HeadersParsedEvent} {net : PacketStream UInt8 IoError}

theorem calm_enter : Calm (enter evt net) := by
  intro op hop _
  have hentered := onEntry_entered evt
  have hnext : (onEntry evt).next = some op := hop
  have hquiet (hnil : (onEntry evt).outputs = []) : ¬Raised (enter evt net) := by
    rintro ⟨code, description, hmem⟩
    rw [enter, hnil] at hmem
    cases hmem
  cases hentered with
  | refused hnone _ => rw [hnone] at hnext; cases hnext
  | chunks _ hnil hactive => exact ⟨hactive, hquiet hnil⟩
  | content _ _ hnil hactive => exact ⟨hactive, hquiet hnil⟩

/-- For every response, every cut into packets and every way in which the connection ends: the
reader keeps to the framing in all its steps exactly when it meets no state in which it takes
something else for a line or for the end of a chunk. -/
theorem framed_enter_iff :
    (∀ r r', Reaches (Reading.step fsm) (enter evt net) r → r.step fsm = some r' →
      FramedStep r r') ↔
    ∀ r r', Reaches (Reading.step fsm) (enter evt net) r → r.step fsm = some r' →
      ¬Mistaken fsm r := by
  have hcalm {r : Reading} (hr : Reaches (Reading.step fsm) (enter evt net) r) : Calm r :=
    hr.invariant (fun _ _ h hstep => h.step hstep) calm_enter
  constructor
  · exact fun h r r' hr hstep => (framedStep_iff (hcalm hr) hstep).mp (h r r' hr hstep)
  · exact fun h r r' hr hstep => (framedStep_iff (hcalm hr) hstep).mpr (h r r' hr hstep)

end Runs

/-! ### A sign -/

/-- `"+1\r\nxyz0\r\n"`. -/
def signedPackets : PacketStream UInt8 IoError where
  packets := [[43, 49, 13, 10, 120, 121, 122, 48, 13, 10]]
  close := none

/-- The reader takes the line with the sign, and after the one byte of the chunk skips two that are
no end of a line. -/
theorem not_framed_signed : ¬∀ r r',
    Reaches (Reading.step plainFsm) (enter (chunkedHeaders []) signedPackets) r →
      r.step plainFsm = some r' → FramedStep r r' := by
  intro h
  have hstep : (enter (chunkedHeaders []) signedPackets).step plainFsm = some _ := rfl
  rcases (h _ _ .refl hstep).line 0 rfl with ⟨code, description, hmem⟩ | ⟨size, ⟨line⟩, -⟩
  · cases hmem
  · -- the line begins with the sign
    obtain ⟨c, cs, hdigits⟩ := List.exists_cons_of_ne_nil line.nonempty
    have hc := line.hex c (by rw [hdigits]; exact List.mem_cons_self)
    have hparts := line.parts
    rw [hdigits] at hparts
    have hhead : 43 = c := (List.cons.inj hparts).1
    rw [← hhead] at hc
    exact absurd hc (by decide)

end MediafireSdk.Http
