import MediafireSdk.Http.ReadHeaders
import MediafireSdk.Http.ContentLength

/-! What the bandwidth analyser is told of a response. The header read counts its whole buffer.
The first read of content that is not chunked counts the bytes left over in that buffer and not its
own, the later ones count none. A read of a chunk line counts up to the end of the line, whatever
of it was there before and whatever comes behind it. -/

namespace MediafireSdk.Http

open Streams Words Steps

def Output.incoming : Output → ℕ
  | .recordIncomingBytes bytes => bytes
  | _ => 0

/-- The sum of what the analyser is told. -/
def recorded (log : List Output) : ℕ := (log.map Output.incoming).sum

/-- Every byte that has come from `net` is counted once. -/
def Accounted (net : PacketStream UInt8 IoError) (r : Reading) : Prop :=
  recorded r.log + r.net.bytes.length = net.bytes.length

/-- The reader of the content, after the read of the headers (`HandleHeaderRead`) and their parsing
(`ParseHeaders`); `none` where these raise another event. -/
def readResponse (fsm : Fsm) (net : PacketStream UInt8 IoError) : Option Reading :=
  (net.readUntil hasHeadersEnd []).bind fun read =>
    match headersRead fsm.url read with
    | .error _ => none
    | .ok evt =>
      if evt.statusCode = 301 ∨ evt.statusCode = 302 then none
      else
        let r := enter { contentLength := evt.contentLength, headers := evt.headers,
                         readBuffer := evt.readBuffer } read.rest
        some { r with log := fsm.recordIncomingBytes read.received.length ++ r.log }

namespace Reading

/-- The bytes of the line to read that are in the buffer already. -/
def countedAgain (r : Reading) : ℕ :=
  match r.op with
  | some (.chunkSizeRead _) =>
    match r.net.readUntil hasCrlf r.data.readBuffer with
    | some ⟨received, none, _⟩ =>
      min r.data.readBuffer.length ((crlfEnd (r.data.readBuffer ++ received)).getD 0)
    | _ => 0
  | _ => 0

/-- The bytes that come with the line to read and are behind it, all of them where the connection
ends before the line does. -/
def uncounted (r : Reading) : ℕ :=
  match r.op with
  | some (.chunkSizeRead _) =>
    match r.net.readUntil hasCrlf r.data.readBuffer with
    | some ⟨received, none, _⟩ => (r.data.readBuffer ++ received).length -
        max r.data.readBuffer.length ((crlfEnd (r.data.readBuffer ++ received)).getD 0)
    | some ⟨received, some _, _⟩ => received.length
    | none => 0
  | _ => 0

end Reading

/-- The bytes that are counted twice are as many as those that are not counted: `start` begins to
read the content, and its run passes `states`. -/
def Balanced (start : Reading) (states : List Reading) : Prop :=
  match start.op with
  | some (.contentRead _ _ _) =>
    if start.data.usingContentLength then
      start.data.contentLength = 2 * start.data.readBuffer.length
    else start.net.bytes.length = start.data.readBuffer.length
  | _ => (states.map Reading.countedAgain).sum = (states.map Reading.uncounted).sum

/-! ### Sums -/

@[simp] theorem recorded_nil : recorded [] = 0 := rfl

@[simp] theorem recorded_append (xs ys : List Output) :
    recorded (xs ++ ys) = recorded xs + recorded ys := by
  simp [recorded]

theorem recorded_recordIncomingBytes {fsm : Fsm} (hbw : fsm.bwAnalyser = true) (n : ℕ) :
    recorded (fsm.recordIncomingBytes n) = n := by
  simp [recorded, Fsm.recordIncomingBytes, hbw, Output.incoming]

@[simp] theorem recorded_passBuffer (d : ReadContentData) (startPos size : ℕ) :
    recorded (passBuffer d startPos size) = 0 := by
  unfold passBuffer
  split <;> rfl

theorem contentReadEvent_not_mem_passBuffer (d : ReadContentData) (startPos size : ℕ) :
    Output.contentReadEvent ∉ passBuffer d startPos size := by
  unfold passBuffer
  split <;> simp

theorem crlfEnd_le {buffer : List UInt8} {pos : ℕ} (h : crlfEnd buffer = some pos) :
    pos ≤ buffer.length := by
  induction buffer generalizing pos with
  | nil => cases h
  | cons c cs ih =>
    rw [crlfEnd.eq_def] at h
    split at h
    · next heq =>
      cases h
      rw [heq]
      simp
    · next heq =>
      cases heq
      obtain ⟨end', hend, rfl⟩ := Option.map_eq_some_iff.mp h
      have := ih hend
      rw [List.length_cons]
      omega
    · cases h

/-! ### Content that is not chunked -/

section Handlers
variable {fsm : Fsm} {d : ReadContentData}

theorem handleContentComplete_counts (fsm : Fsm) (d : ReadContentData) (outputs : List Output) :
    recorded (handleContentComplete fsm d outputs).outputs = recorded outputs ∧
      (handleContentComplete fsm d outputs).next = none := by
  unfold handleContentComplete
  split
  · split
    all_goals
      simp only [ReadContentData.finish, recorded_append, and_true]
      rfl
  · simp only [ReadContentData.finish, recorded_append, and_true]
    rfl

/-- What a read of content leads to, when `total` bytes are read with it. -/
inductive AfterRead (fsm : Fsm) (d : ReadContentData) (total : ℕ) (err : Option IoError)
    (o : Outcome) : Prop
  | failed (hnext : o.next = none) (hquiet : Output.contentReadEvent ∉ o.outputs)
  | complete (hnext : o.next = none)
      (hsized : d.usingContentLength = true → d.contentLength = total)
      (hend : d.usingContentLength = false → fsm.isEof err = true)
  | more (size : ℕ) (hnext : o.next = some (.contentReadDelay size total))
      (hquiet : Output.contentReadEvent ∉ o.outputs) (hactive : o.data.cancelled = false)
      (hmode : o.data.usingContentLength = d.usingContentLength)
      (hlength : o.data.contentLength = d.contentLength)
      (hless : d.usingContentLength = true →
        total < d.contentLength ∧ size ≤ d.contentLength - total)

theorem handleContentRead_counts (hbw : fsm.bwAnalyser = true) (hactive : d.cancelled = false)
    (total previously n : ℕ) (err : Option IoError) :
    recorded (handleContentRead fsm d total previously n err).outputs = previously ∧
      AfterRead fsm d (trunc 64 (total + trunc 64 (previously + n))) err
        (handleContentRead fsm d total previously n err) := by
  have hrecorded := recorded_recordIncomingBytes hbw previously
  have hrecords : Output.contentReadEvent ∉ fsm.recordIncomingBytes previously :=
    not_mem_recordIncomingBytes (by simp)
  have hquiet : Output.contentReadEvent ∉
      fsm.recordIncomingBytes previously ++ passBuffer d total (trunc 64 (previously + n)) :=
    fun hmem => (List.mem_append.mp hmem).elim hrecords (contentReadEvent_not_mem_passBuffer _ _ _)
  unfold handleContentRead
  rw [if_neg (Bool.not_eq_true _ ▸ hactive)]
  dsimp only
  generalize hd' : (if d.usingGzip = true then d else
    { d with readBuffer := d.readBuffer.drop (trunc 64 (previously + n)) }) = d'
  have hsame : d'.cancelled = false ∧ d'.usingContentLength = d.usingContentLength ∧
      d'.contentLength = d.contentLength := by
    rw [← hd']
    split <;> exact ⟨hactive, rfl, rfl⟩
  obtain ⟨hactive', hmode, hlength⟩ := hsame
  generalize trunc 64 (total + trunc 64 (previously + n)) = read
  split_ifs with herr hexceeded hcomplete
  · refine ⟨?_, .failed rfl ?_⟩
    · simp only [ReadContentData.finish, recorded_append, hrecorded, recorded_passBuffer]
      rfl
    · simp only [ReadContentData.finish]
      exact fun hmem => (List.mem_append.mp hmem).elim hquiet (by simp [exceededError])
  · obtain ⟨hsum, hnext⟩ := handleContentComplete_counts fsm d'
      (fsm.recordIncomingBytes previously ++ passBuffer d total (trunc 64 (previously + n)))
    refine ⟨?_, .complete hnext ?_ ?_⟩
    · rw [hsum, recorded_append, hrecorded, recorded_passBuffer, Nat.add_zero]
    · rw [hmode, hlength] at hcomplete
      exact fun h => hcomplete.elim And.right fun h' => absurd (h'.1.symm.trans h) (by decide)
    · rw [hmode] at hcomplete
      exact fun h => hcomplete.elim (fun h' => absurd (h'.1.symm.trans h) (by decide)) And.right
  · refine ⟨?_, .more _ rfl hquiet hactive' hmode hlength fun h => ?_⟩
    · rw [recorded_append, hrecorded, recorded_passBuffer, Nat.add_zero]
    · rw [hmode, hlength] at hexceeded hcomplete
      have hne : d.contentLength ≠ read := fun heq => hcomplete (.inl ⟨h, heq⟩)
      have hge : ¬d.contentLength < read := fun hlt => hexceeded ⟨h, hlt⟩
      refine ⟨by omega, ?_⟩
      simp only [maxReadSize, hmode, h, hlength, if_true]
      exact min_le_left _ _
  · refine ⟨?_, .failed rfl ?_⟩
    · simp only [ReadContentData.finish, recorded_append, hrecorded]
      rfl
    · simp only [ReadContentData.finish]
      exact fun hmem => (List.mem_append.mp hmem).elim hrecords (by simp [Fsm.readError])

end Handlers

/-- A reader of content that `start` has begun: what it has counted, and what it has read. -/
structure Begun (start : Reading) (r : Reading) : Prop where
  active : r.data.cancelled = false
  mode : r.data.usingContentLength = start.data.usingContentLength
  length : r.data.contentLength = start.data.contentLength
  quiet : Output.contentReadEvent ∉ r.log
  counted : recorded r.log = recorded start.log + start.data.readBuffer.length

inductive ContentPhase (fsm : Fsm) (start : Reading) (r : Reading) : Prop
  | first (h : r = start)
  | delayed (size total : ℕ) (h : Begun start r) (hop : r.op = some (.contentReadDelay size total))
      (hread : start.data.usingContentLength = true →
        total + r.net.bytes.length = start.data.readBuffer.length + start.net.bytes.length ∧
          total < start.data.contentLength ∧ size ≤ start.data.contentLength - total)
  | reading (size total : ℕ) (h : Begun start r) (hop : r.op = some (.contentRead size total 0))
      (hread : start.data.usingContentLength = true →
        total + r.net.bytes.length = start.data.readBuffer.length + start.net.bytes.length ∧
          total < start.data.contentLength ∧ size ≤ start.data.contentLength - total)
  | finished (hop : r.op = none) (hend : Output.contentReadEvent ∈ r.log →
      recorded r.log = recorded start.log + start.data.readBuffer.length ∧
        if start.data.usingContentLength then start.data.contentLength + r.net.bytes.length =
          start.data.readBuffer.length + start.net.bytes.length
        else r.net.bytes = [])

/-- A reader that begins with content that is not chunked. -/
structure ContentStart (start : Reading) (size : ℕ) : Prop where
  active : start.data.cancelled = false
  quiet : Output.contentReadEvent ∉ start.log
  op : start.op = some (.contentRead size 0 start.data.readBuffer.length)
  length : start.data.contentLength < 2 ^ 64
  fits : start.data.usingContentLength = true → start.data.readBuffer.length + size < 2 ^ 64

section Content
variable {fsm : Fsm} {start r r' : Reading} {size : ℕ}

/-- The step of a read, the first one or a later one. -/
theorem ContentPhase.of_read (hbw : fsm.bwAnalyser = true) {total previously asked : ℕ}
    (hactive : r.data.cancelled = false)
    (hmode : r.data.usingContentLength = start.data.usingContentLength)
    (hlength : r.data.contentLength = start.data.contentLength)
    (hquiet : Output.contentReadEvent ∉ r.log)
    (hcounted : recorded r.log + previously =
      recorded start.log + start.data.readBuffer.length)
    (hop : r.op = some (.contentRead asked total previously))
    (hread : start.data.usingContentLength = true →
      total + previously + r.net.bytes.length =
          start.data.readBuffer.length + start.net.bytes.length ∧
        total + (previously + asked) < 2 ^ 64)
    (hstep : r.step fsm = some r') : ContentPhase fsm start r' := by
  simp only [Reading.step, hop] at hstep
  obtain ⟨read, hexactly, rfl⟩ := Option.map_eq_some_iff.mp hstep
  obtain ⟨⟨hbytes, hall⟩, hle⟩ := PacketStream.readExactly_taken hexactly
  have hsplit := congrArg List.length hbytes
  rw [List.length_append] at hsplit
  have hactive' : (r.data.receive read.received).cancelled = false := hactive
  obtain ⟨hsum, hafter⟩ := handleContentRead_counts hbw hactive' total previously
    read.received.length read.error
  generalize handleContentRead fsm (r.data.receive read.received) total previously
    read.received.length read.error = o at hsum hafter
  -- no sum wraps where the length counts
  have htotal (h : start.data.usingContentLength = true) :
      trunc 64 (total + trunc 64 (previously + read.received.length)) =
        total + (previously + read.received.length) := by
    obtain ⟨-, hfits⟩ := hread h
    rw [trunc_of_lt (by omega : previously + read.received.length < 2 ^ 64),
      trunc_of_lt (by omega)]
  have hlog : recorded (r.log ++ o.outputs) =
      recorded start.log + start.data.readBuffer.length := by
    rw [recorded_append, hsum, hcounted]
  cases hafter with
  | failed hnext houtputs =>
    refine .finished hnext fun hmem => ?_
    exact absurd hmem fun hmem => (List.mem_append.mp hmem).elim hquiet houtputs
  | complete hnext hsized hend =>
    refine .finished hnext fun _ => ⟨hlog, ?_⟩
    split_ifs with h
    · have hequal := hsized (hmode.trans h)
      obtain ⟨hread, -⟩ := hread h
      rw [htotal h] at hequal
      have : start.data.contentLength = total + (previously + read.received.length) :=
        hlength.symm.trans hequal
      show start.data.contentLength + read.rest.bytes.length = _
      omega
    · have hfalse : start.data.usingContentLength = false := Bool.eq_false_of_not_eq_true h
      have heof := hend (hmode.trans hfalse)
      refine hall ?_
      cases herr : read.error with
      | none => rw [herr] at heof; cases heof
      | some e => rfl
  | more size hnext houtputs hactive hmode' hlength' hless =>
    refine .delayed size _ ⟨hactive, hmode'.trans hmode, hlength'.trans hlength, ?_, hlog⟩ hnext
      fun h => ?_
    · exact fun hmem => (List.mem_append.mp hmem).elim hquiet houtputs
    · obtain ⟨hread, -⟩ := hread h
      obtain ⟨hlt, hsize⟩ := hless (hmode.trans h)
      have hcontent : (r.data.receive read.received).contentLength = start.data.contentLength :=
        hlength
      rw [htotal h, hcontent] at hlt hsize
      rw [htotal h]
      refine ⟨?_, hlt, hsize⟩
      show total + (previously + read.received.length) + read.rest.bytes.length = _
      omega

theorem ContentPhase.step (hbw : fsm.bwAnalyser = true) (hstart : ContentStart start size)
    (h : ContentPhase fsm start r) (hstep : r.step fsm = some r') : ContentPhase fsm start r' := by
  cases h with
  | first h =>
    subst h
    refine .of_read hbw hstart.active rfl rfl hstart.quiet rfl hstart.op (fun h => ⟨?_, ?_⟩) hstep
    · omega
    · rw [Nat.zero_add]
      exact hstart.fits h
  | reading size total h hop hread =>
    refine .of_read hbw h.active h.mode h.length h.quiet h.counted hop (fun hmode => ?_) hstep
    obtain ⟨hsum, hlt, hsize⟩ := hread hmode
    have := hstart.length
    exact ⟨hsum, by omega⟩
  | delayed size total h hop hread =>
    simp only [Reading.step, hop, handleContentReadDelayCallback, h.active, Bool.false_eq_true,
      if_false] at hstep
    split_ifs at hstep
    · cases hstep
      refine .reading size total ⟨rfl, h.mode, h.length, ?_, ?_⟩ rfl hread
      · simpa [Reading.proceed] using h.quiet
      · simpa [Reading.proceed] using h.counted
    · cases hstep
      refine .finished rfl fun hmem => absurd ?_ h.quiet
      simpa [Reading.proceed] using hmem
  | finished hop hend =>
    rw [Reading.step, hop] at hstep
    cases hstep

/-- Where such a run ends the content. -/
theorem ContentStart.ended (hbw : fsm.bwAnalyser = true) (hstart : ContentStart start size)
    (hrun : Reaches (Reading.step fsm) start r) (hend : Output.contentReadEvent ∈ r.log) :
    recorded r.log = recorded start.log + start.data.readBuffer.length ∧
      if start.data.usingContentLength then start.data.contentLength + r.net.bytes.length =
        start.data.readBuffer.length + start.net.bytes.length
      else r.net.bytes = [] := by
  have hphase : ContentPhase fsm start r :=
    hrun.invariant (fun _ _ h hstep => h.step hbw hstart hstep) (.first rfl)
  cases hphase with
  | first h => exact absurd (h ▸ hend) hstart.quiet
  | delayed size total h => exact absurd hend h.quiet
  | reading size total h => exact absurd hend h.quiet
  | finished hop h => exact h hend

end Content

/-! ### Chunked content -/

/-- The operations of the chunk handlers. -/
def AsyncOp.ofChunks : AsyncOp → Bool
  | .contentRead _ _ _ | .contentReadDelay _ _ => false
  | _ => true

/-- A state in which the chunk handlers run, or none any more. -/
structure InChunks (d : ReadContentData) (op : Option AsyncOp) : Prop where
  active : op ≠ none → d.cancelled = false
  op : ∀ kind, op = some kind → kind.ofChunks = true

section Chunks
variable {fsm : Fsm} {d : ReadContentData}

theorem inChunks_none : InChunks d none := ⟨fun h => absurd rfl h, nofun⟩

theorem inChunks_some {op : AsyncOp} (hactive : d.cancelled = false) (hop : op.ofChunks = true) :
    InChunks d (some op) := by
  refine ⟨fun _ => hactive, fun kind h => ?_⟩
  cases h
  exact hop

theorem handleContentChunkRead_counts (hbw : fsm.bwAnalyser = true) (hactive : d.cancelled = false)
    (consumed size n : ℕ) (err : Option IoError) :
    recorded (handleContentChunkRead fsm d consumed size n err).outputs = n ∧
      InChunks (handleContentChunkRead fsm d consumed size n err).data
        (handleContentChunkRead fsm d consumed size n err).next := by
  have hrecorded := recorded_recordIncomingBytes hbw n
  unfold handleContentChunkRead
  rw [if_neg (Bool.not_eq_true _ ▸ hactive)]
  dsimp only
  generalize hd' : (if d.usingGzip = true then
    { d with gzippedBuffer := d.gzippedBuffer ++ d.readBuffer.take size } else d) = d'
  have hactive' : d'.cancelled = false := by
    rw [← hd']
    split <;> exact hactive
  split_ifs
  · refine ⟨?_, inChunks_some hactive' rfl⟩
    rw [recorded_append, hrecorded, recorded_passBuffer, Nat.add_zero]
  · refine ⟨?_, inChunks_none⟩
    rw [ReadContentData.finish, recorded_append, hrecorded]
    rfl

theorem handleCompleteAllChunks_counts (fsm : Fsm) (d : ReadContentData) (outputs : List Output) :
    recorded (handleCompleteAllChunks fsm d outputs).outputs = recorded outputs ∧
      (handleCompleteAllChunks fsm d outputs).next = none := by
  unfold handleCompleteAllChunks
  split
  · split
    · next err _ =>
      cases err
      all_goals
        simp only [ReadContentData.finish, recorded_append, and_true]
        rfl
    · simp only [ReadContentData.finish, recorded_append, and_true]
      rfl
  · simp only [ReadContentData.finish, recorded_append, and_true]
    rfl

theorem handleContentChunkSizeRead_counts (hbw : fsm.bwAnalyser = true)
    (hactive : d.cancelled = false) (consumed n : ℕ) (err : Option IoError) :
    recorded (handleContentChunkSizeRead fsm d consumed n err).outputs = n ∧
      InChunks (handleContentChunkSizeRead fsm d consumed n err).data
        (handleContentChunkSizeRead fsm d consumed n err).next := by
  have hrecorded := recorded_recordIncomingBytes hbw n
  unfold handleContentChunkSizeRead
  rw [if_neg (Bool.not_eq_true _ ▸ hactive)]
  dsimp only
  split_ifs
  · split
    · refine ⟨?_, inChunks_none⟩
      rw [ReadContentData.finish, recorded_append, hrecorded]
      rfl
    · split_ifs
      · obtain ⟨hsum, hnext⟩ := handleCompleteAllChunks_counts fsm
          { d with readBuffer := (getline d.readBuffer).2 } (fsm.recordIncomingBytes n)
        rw [hsum, hnext]
        exact ⟨hrecorded, inChunks_none⟩
      · exact ⟨hrecorded, inChunks_some hactive rfl⟩
  · refine ⟨?_, inChunks_none⟩
    rw [ReadContentData.finish, recorded_append, hrecorded]
    rfl

theorem handleContentChunkSizeReadDelay_counts (hactive : d.cancelled = false)
    (left consumed size : ℕ) :
    recorded (handleContentChunkSizeReadDelay d left consumed size).outputs = 0 ∧
      InChunks (handleContentChunkSizeReadDelay d left consumed size).data
        (handleContentChunkSizeReadDelay d left consumed size).next := by
  unfold handleContentChunkSizeReadDelay
  rw [if_neg (Bool.not_eq_true _ ▸ hactive)]
  split_ifs
  · exact ⟨rfl, inChunks_some hactive rfl⟩
  · exact ⟨rfl, inChunks_none⟩

/-- What one step misses and what it counts again. -/
theorem InChunks.step {r r' : Reading} (hbw : fsm.bwAnalyser = true) (h : InChunks r.data r.op)
    (hstep : r.step fsm = some r') : InChunks r'.data r'.op ∧
      recorded r'.log + r'.net.bytes.length + r.uncounted =
        recorded r.log + r.net.bytes.length + r.countedAgain := by
  cases hop : r.op with
  | none =>
    rw [Reading.step, hop] at hstep
    cases hstep
  | some op =>
    have hactive : r.data.cancelled = false := h.active (by rw [hop]; exact Option.some_ne_none op)
    cases op with
    | contentRead size total previously => exact absurd (h.op _ hop) Bool.false_ne_true
    | contentReadDelay size total => exact absurd (h.op _ hop) Bool.false_ne_true
    | chunkRead left consumed size =>
      simp only [Reading.step, hop] at hstep
      obtain ⟨read, hexactly, rfl⟩ := Option.map_eq_some_iff.mp hstep
      obtain ⟨⟨hbytes, -⟩, -⟩ := PacketStream.readExactly_taken hexactly
      obtain ⟨hsum, hin⟩ := handleContentChunkRead_counts hbw
        (d := r.data.receive read.received) hactive consumed size read.received.length read.error
      refine ⟨hin, ?_⟩
      simp only [Reading.uncounted, Reading.countedAgain, hop, Reading.proceed, recorded_append,
        hsum, ← hbytes, List.length_append]
      omega
    | chunkSizeReadDelay left consumed size =>
      simp only [Reading.step, hop] at hstep
      cases hstep
      obtain ⟨hsum, hin⟩ := handleContentChunkSizeReadDelay_counts hactive left consumed size
      refine ⟨hin, ?_⟩
      simp only [Reading.uncounted, Reading.countedAgain, hop, Reading.proceed, recorded_append,
        hsum]
      omega
    | chunkSizeRead consumed =>
      simp only [Reading.step, hop] at hstep
      obtain ⟨read, huntil, rfl⟩ := Option.map_eq_some_iff.mp hstep
      obtain ⟨⟨hbytes, -⟩, hfound⟩ := PacketStream.readUntil_taken huntil
      obtain ⟨received, error, rest⟩ := read
      dsimp only at hbytes hfound ⊢
      obtain ⟨hsum, hin⟩ := handleContentChunkSizeRead_counts hbw
        (d := r.data.receive received) hactive consumed
        (if error.isSome then 0 else (crlfEnd (r.data.receive received).readBuffer).getD 0) error
      refine ⟨hin, ?_⟩
      simp only [Reading.uncounted, Reading.countedAgain, hop, huntil, Reading.proceed,
        recorded_append, hsum, ← hbytes, List.length_append]
      cases error with
      | some e =>
        simp only [Option.isSome_some, if_true]
        omega
      | none =>
        obtain ⟨pos, hpos⟩ := Option.isSome_iff_exists.mp (hfound rfl)
        have hle := crlfEnd_le hpos
        rw [List.length_append] at hle
        simp only [ReadContentData.receive, hpos, Option.getD_some, Option.isSome_none,
          Bool.false_eq_true, if_false]
        omega

end Chunks

/-! ### Whole responses -/

section Responses
variable {fsm : Fsm} {net : PacketStream UInt8 IoError} {start r : Reading}
  {states : List Reading}

theorem lexicalCastUint64_lt {text : String} {value : ℕ} (h : lexicalCastUint64 text = some value) :
    value < 2 ^ 64 := by
  unfold lexicalCastUint64 at h
  dsimp only at h
  generalize (if text.toList.head? = some '-' ∨ text.toList.head? = some '+' then text.toList.tail
    else text.toList) = digits at h
  split_ifs at h <;> cases h
  · exact Nat.mod_lt _ (by decide)
  · omega

theorem parseLines_lt {url : String} {lines : List (List UInt8)} {headers : Headers} {length : ℕ}
    (h : parseLines url lines = .ok (headers, length)) : length < 2 ^ 64 := by
  unfold parseLines at h
  split at h
  · cases h
  · next parsed _ =>
    unfold parseContentLength at h
    split at h
    · cases h
      decide
    · split at h
      · cases h
      · next length hlength =>
        cases h
        exact lexicalCastUint64_lt hlength

theorem handleHeaderRead_lt {url : String} {readBuffer : List UInt8} {n : ℕ}
    {err : Option IoError} {evt : HeadersReadEvent}
    (h : handleHeaderRead url readBuffer n err = .ok evt) : evt.contentLength < 2 ^ 64 := by
  unfold handleHeaderRead at h
  split at h
  · cases h
  · split at h
    · cases h
    · next status buffer _ =>
      split_ifs at h
      cases hlines : parseLines url (headerLines buffer).1 with
      | error err => rw [hlines] at h; cases h
      | ok parsed =>
        rw [hlines] at h
        cases h
        exact parseLines_lt hlines

/-- How `on_entry` begins. -/
inductive Entered (evt : HeadersParsedEvent) (o : Outcome) : Prop
  | refused (hnext : o.next = none) (hquiet : Output.contentReadEvent ∉ o.outputs)
  | chunks (hnext : o.next = some (.chunkSizeRead 0)) (hquiet : o.outputs = [])
      (hactive : o.data.cancelled = false)
  | content (size : ℕ) (hnext : o.next = some (.contentRead size 0 evt.readBuffer.length))
      (hquiet : o.outputs = []) (hactive : o.data.cancelled = false)
      (hbuffer : o.data.readBuffer = evt.readBuffer)
      (hlength : o.data.contentLength = evt.contentLength) (hsize : size ≤ kMaxUnknownReadLength)

theorem onEntry_entered (evt : HeadersParsedEvent) : Entered evt (onEntry evt) := by
  unfold onEntry
  dsimp only
  split_ifs
  · exact .refused rfl (by simp [ReadContentData.finish])
  · exact .refused rfl (by simp [ReadContentData.finish])
  · exact .refused rfl (by simp [ReadContentData.finish])
  · exact .chunks rfl rfl rfl
  · refine .content _ rfl rfl rfl rfl rfl ?_
    unfold maxReadSize
    split_ifs
    · exact min_le_right _ _
    · exact le_rfl

/-- The reader of a response: what the headers have counted is what they have read. -/
theorem readResponse_cases (hbw : fsm.bwAnalyser = true)
    (h : readResponse fsm net = some start) :
    ∃ evt outputs, recorded outputs + start.net.bytes.length = net.bytes.length ∧
      Output.contentReadEvent ∉ outputs ∧ evt.contentLength < 2 ^ 64 ∧
      start = { enter evt start.net with log := outputs ++ (onEntry evt).outputs } := by
  obtain ⟨read, huntil, hstart⟩ := Option.bind_eq_some_iff.mp h
  obtain ⟨⟨hbytes, -⟩, -⟩ := PacketStream.readUntil_taken huntil
  have hsplit := congrArg List.length hbytes
  rw [List.length_append] at hsplit
  split at hstart
  · cases hstart
  · next evt hread =>
    split_ifs at hstart
    cases hstart
    refine ⟨{ contentLength := evt.contentLength, headers := evt.headers,
              readBuffer := evt.readBuffer }, _, ?_, not_mem_recordIncomingBytes (by simp),
      handleHeaderRead_lt hread, rfl⟩
    rw [recorded_recordIncomingBytes hbw]
    exact hsplit

/-- For every response whose content is read to its end, every split of it between the headers'
buffer and what comes after, and every cut into packets. -/
theorem accounted_iff_balanced (hbw : fsm.bwAnalyser = true)
    (hstart : readResponse fsm net = some start)
    (hbuffer : start.data.readBuffer.length + kMaxUnknownReadLength < 2 ^ 64)
    (hrun : Passes (Reading.step fsm) start states r)
    (hend : Output.contentReadEvent ∈ r.log) :
    Accounted net r ↔ Balanced start states := by
  obtain ⟨evt, outputs, hcounted, hquiet, hlength, heq⟩ := readResponse_cases hbw hstart
  have hdata : start.data = (onEntry evt).data := by rw [heq]; rfl
  have hop : start.op = (onEntry evt).next := by rw [heq]; rfl
  have hlog : start.log = outputs ++ (onEntry evt).outputs := by rw [heq]
  cases onEntry_entered evt with
  | refused hnext hrefused =>
    -- the run ends where it begins
    have hr : r = start := by
      cases hrun with
      | refl => rfl
      | head hstep _ =>
        rw [Reading.step, hop, hnext] at hstep
        cases hstep
    rw [hr, hlog] at hend
    exact absurd hend fun hmem => (List.mem_append.mp hmem).elim hquiet hrefused
  | chunks hnext hnil hactive =>
    rw [hnil, List.append_nil] at hlog
    have hin : InChunks start.data start.op := by
      rw [hdata, hop, hnext]
      exact inChunks_some hactive rfl
    have hbalance := hrun.balance (I := fun r => InChunks r.data r.op)
      (fun _ _ h hstep => h.step hbw hstep) hin
    rw [Balanced, hop, hnext, Accounted]
    dsimp only at hbalance ⊢
    rw [hlog] at hbalance
    omega
  | content size hnext hnil hactive hread hcontent hsize =>
    rw [hnil, List.append_nil] at hlog
    have hbegin : ContentStart start size := by
      refine ⟨by rw [hdata, hactive], by rw [hlog]; exact hquiet, ?_, ?_, fun _ => by omega⟩
      · rw [hop, hnext, hdata, hread]
      · rw [hdata, hcontent]
        exact hlength
    obtain ⟨hsum, hall⟩ := hbegin.ended hbw hrun.reaches hend
    rw [hlog] at hsum
    rw [Balanced, hop, hnext, Accounted]
    dsimp only
    split_ifs at hall ⊢
    · omega
    · rw [hall, List.length_nil]
      omega

end Responses

/-! ### Two bytes up to the end of the connection -/

def analysedFsm : Fsm := { plainFsm with bwAnalyser := true }

/-- `"HTTP/1.1 200 OK\r\n\r\n"`. -/
def okHead : List UInt8 :=
  [72, 84, 84, 80, 47, 49, 46, 49, 32, 50, 48, 48, 32, 79, 75, 13, 10, 13, 10]

/-- The head of a response with the first of two bytes, or with none of them. -/
def twoBytes (first : Bool) : PacketStream UInt8 IoError where
  packets := if first then [okHead ++ [104], [105]] else [okHead, [104, 105]]
  close := some .eof

/-- The reader of the two bytes. -/
def twoBytesStart (first : Bool) : Reading where
  data := { readBuffer := if first then [104] else [] }
  op := some (.contentRead 8192 0 (if first then 1 else 0))
  net := { packets := if first then [[105]] else [[104, 105]], close := some .eof }
  log := [.recordIncomingBytes (if first then 20 else 19)]

theorem headerLines_blank (rest : List UInt8) : headerLines (13 :: 10 :: rest) = ([], rest) := by
  rw [headerLines, if_neg (by simp), if_pos (by simp [getline])]
  simp [getline]

theorem readResponse_twoBytes (first : Bool) :
    readResponse analysedFsm (twoBytes first) = some (twoBytesStart first) := by
  have hread : (twoBytes first).readUntil hasHeadersEnd [] =
      some ⟨if first then okHead ++ [104] else okHead, none, (twoBytesStart first).net⟩ := by
    cases first <;> rfl
  have hstatus : readStatusLine 16 (if first then okHead ++ [104] else okHead) =
      some (⟨okHead.take 8, 200, [32, 79, 75, 13]⟩, 13 :: 10 :: if first then [104] else []) := by
    cases first <;> rfl
  have hversion : isHttpVersion (okHead.take 8) = true := by decide
  simp only [readResponse, hread, Option.bind_some, headersRead, handleHeaderRead, hstatus,
    hversion, if_true, headerLines_blank]
  cases first <;> rfl

/-- The states of the run, the first one left out. -/
theorem passes_twoBytes (first : Bool) : ∃ r, Passes (Reading.step analysedFsm)
    (twoBytesStart first) [twoBytesStart first] r ∧ Output.contentReadEvent ∈ r.log ∧
      recorded r.log = (if first then 21 else 19) ∧ r.net.bytes = [] := by
  cases first
  · exact ⟨_, .head rfl (.refl _), by decide, rfl, rfl⟩
  · exact ⟨_, .head rfl (.refl _), by decide, rfl, rfl⟩

/-- One byte with the head and one behind it. -/
theorem accounted_iff_balanced_twoBytes : ∃ r, Passes (Reading.step analysedFsm)
    (twoBytesStart true) [twoBytesStart true] r ∧
      (Accounted (twoBytes true) r ↔ Balanced (twoBytesStart true) [twoBytesStart true]) := by
  obtain ⟨r, hrun, hend, -⟩ := passes_twoBytes true
  exact ⟨r, hrun, accounted_iff_balanced rfl (readResponse_twoBytes true) (by decide) hrun hend⟩

/-- Both bytes behind the head are counted by nobody. -/
theorem not_accounted_twoBytes : ∃ start states r,
    readResponse analysedFsm (twoBytes false) = some start ∧
      Passes (Reading.step analysedFsm) start states r ∧ Output.contentReadEvent ∈ r.log ∧
      ¬Accounted (twoBytes false) r := by
  obtain ⟨r, hrun, hend, hsum, hnet⟩ := passes_twoBytes false
  refine ⟨_, _, r, readResponse_twoBytes false, hrun, hend, ?_⟩
  rw [Accounted, hsum, hnet]
  decide

end MediafireSdk.Http
