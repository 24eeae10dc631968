import MediafireSdk.Http.Downloads
import MediafireSdk.Http.HeaderBlocks
import MediafireSdk.Http.IncomingBytes
import MediafireSdk.Http.TruncatedChunks

/-! What a peer sends and what the callback gets of it. The head of a response says how its
content is framed: by a length, by chunks, or by the end of the connection. A request that is
complete has passed on the content that the last peer has framed, or what it decompresses to, and
it is never complete on less than that. -/

namespace MediafireSdk.Http

open Streams Steps Runs Words

/-! ### Frames -/

/-- The content is decompressed before it is passed on. -/
def isCompressed (headers : Headers) : Bool :=
  (parseTransferEncoding headers).gzip || (parseContentEncoding headers).gzip

def isChunked (headers : Headers) : Bool := (parseTransferEncoding headers).chunked

def hasLength (headers : Headers) : Bool := (parseTransferEncoding headers).contentLength

/-- What a head says that the content is, of what comes behind it. -/
inductive Framed (headers : Headers) (contentLength : ℕ) : List UInt8 → List UInt8 → Prop
  | length (body rest : List UInt8) (hplain : isChunked headers = false)
      (hsized : hasLength headers = true) (hlength : body.length = contentLength) :
      Framed headers contentLength (body ++ rest) body
  | close (body : List UInt8) (hplain : isChunked headers = false)
      (hsized : hasLength headers = false) : Framed headers contentLength body body
  | chunked (chunks : List Chunk) (rest : List UInt8) (hchunked : ChunkedOnly headers) :
      Framed headers contentLength (encodeAll chunks ++ rest) (chunks.flatMap Chunk.data)

/-- What is passed on of a content. -/
def Decodes (fsm : Fsm) (headers : Headers) (body content : List UInt8) : Prop :=
  if isCompressed headers then fsm.gunzip body = .ok content else content = body

section Unchunked
variable {fsm : Fsm} {evt : HeadersParsedEvent} {payload done fresh received : List UInt8}
  {r r' : Reading}

/-! ### Content without chunks -/

/-- A reader that is done with a part of what it was sent and has read some more. -/
structure Holds (evt : HeadersParsedEvent) (payload done fresh : List UInt8) (r : Reading) :
    Prop where
  active : r.data.cancelled = false
  compressed : r.data.usingGzip = isCompressed evt.headers
  sized : r.data.usingContentLength = hasLength evt.headers
  length : r.data.contentLength = evt.contentLength
  split : done ++ fresh ++ r.net.bytes = payload
  buffer : r.data.readBuffer = (if isCompressed evt.headers then done else []) ++ fresh
  passed : delivered r.log = if isCompressed evt.headers then [] else done.map some
  quiet : .contentReadEvent ∉ r.log

/-- A read stays within a content that has a length, and what it may bring has a size. -/
structure Fits (evt : HeadersParsedEvent) (done fresh : List UInt8) (size : ℕ) : Prop where
  size_le : size ≤ kMaxUnknownReadLength
  short : fresh.length + kMaxUnknownReadLength < 2 ^ 64
  first : fresh = [] ∨ done = []
  within : hasLength evt.headers = true → done.length + size ≤ evt.contentLength

/-- How far a reader of content without chunks is. -/
inductive Unchunked (fsm : Fsm) (evt : HeadersParsedEvent) (payload : List UInt8) (r : Reading) :
    Prop
  | reading (done fresh : List UInt8) (size : ℕ) (h : Holds evt payload done fresh r)
      (hfits : Fits evt done fresh size)
      (hop : r.op = some (.contentRead size (trunc 64 done.length) fresh.length))
  | waiting (done : List UInt8) (size : ℕ) (h : Holds evt payload done [] r)
      (hfits : Fits evt done [] size)
      (hop : r.op = some (.contentReadDelay size (trunc 64 done.length)))
  | complete (body content : List UInt8) (hop : r.op = none)
      (hframed : Framed evt.headers evt.contentLength payload body)
      (hdecodes : Decodes fsm evt.headers body content)
      (hpassed : delivered r.log = content.map some)
  | failed (hop : r.op = none) (hquiet : .contentReadEvent ∉ r.log)

theorem recordIncomingBytes_delivered (fsm : Fsm) (n : ℕ) :
    delivered (fsm.recordIncomingBytes n) = [] := by
  rw [delivered, deliveries_recordIncomingBytes]
  rfl

theorem not_mem_failed {outputs : List Output} {event : Output}
    (h : .contentReadEvent ∉ outputs) (hevent : event ≠ .contentReadEvent) :
    .contentReadEvent ∉ outputs ++ [event] := by
  simp [h, hevent.symm]

/-- What the handler of a read does that has brought `fresh` and whatever was read before. -/
inductive ContentRead (fsm : Fsm) (evt : HeadersParsedEvent) (done fresh : List UInt8)
    (err : Option IoError) (o : Outcome) : Prop
  | failed (hnext : o.next = none) (hquiet : .contentReadEvent ∉ o.outputs)
  | complete (content : List UInt8) (hnext : o.next = none)
      (hends : hasLength evt.headers = true ∧ evt.contentLength = trunc 64 (done ++ fresh).length ∨
        hasLength evt.headers = false ∧ fsm.isEof err = true)
      (hdecodes : Decodes fsm evt.headers (done ++ fresh) content)
      (hpassed : delivered o.outputs =
        if isCompressed evt.headers then content.map some else fresh.map some)
  | more (size : ℕ) (hnext : o.next =
        some (.contentReadDelay size (trunc 64 (done ++ fresh).length)))
      (hactive : o.data.cancelled = false) (hcompressed : o.data.usingGzip = isCompressed evt.headers)
      (hsized : o.data.usingContentLength = hasLength evt.headers)
      (hlength : o.data.contentLength = evt.contentLength)
      (hbuffer : o.data.readBuffer = if isCompressed evt.headers then done ++ fresh else [])
      (hpassed : delivered o.outputs =
        if isCompressed evt.headers then [] else fresh.map some)
      (hquiet : .contentReadEvent ∉ o.outputs) (hsize : size ≤ kMaxUnknownReadLength)
      (hwithin : hasLength evt.headers = true →
        trunc 64 (done ++ fresh).length + size ≤ evt.contentLength)

theorem handleContentRead_cases {d : ReadContentData} {previously n : ℕ} {err : Option IoError}
    (hactive : d.cancelled = false) (hcompressed : d.usingGzip = isCompressed evt.headers)
    (hsized : d.usingContentLength = hasLength evt.headers)
    (hlength : d.contentLength = evt.contentLength)
    (hbuffer : d.readBuffer = (if isCompressed evt.headers then done else []) ++ fresh)
    (hfresh : previously + n = fresh.length) (hshort : fresh.length < 2 ^ 64) :
    ContentRead fsm evt done fresh err
      (handleContentRead fsm d (trunc 64 done.length) previously n err) := by
  have hprocess : trunc 64 (previously + n) = fresh.length := by rw [hfresh, trunc_of_lt hshort]
  have htotal : trunc 64 (trunc 64 done.length + fresh.length) =
      trunc 64 (done ++ fresh).length := by
    rw [List.length_append, trunc, trunc, trunc, Nat.mod_add_mod]
  have hrecords : Output.contentReadEvent ∉ fsm.recordIncomingBytes previously :=
    not_mem_recordIncomingBytes (by simp)
  unfold handleContentRead
  rw [if_neg (by simp [hactive])]
  dsimp only
  rw [hprocess, htotal]
  generalize hdata : (if d.usingGzip = true then d else _) = d'
  generalize houtputs : fsm.recordIncomingBytes previously ++
    passBuffer d (trunc 64 done.length) fresh.length = outputs
  have hbuffer' : d'.readBuffer = if isCompressed evt.headers then done ++ fresh else [] := by
    rw [← hdata, hcompressed]
    split_ifs with h
    · rw [hbuffer, if_pos h]
    · dsimp only
      rw [hbuffer, if_neg h, List.nil_append, List.drop_length]
  have hpassed : delivered outputs = if isCompressed evt.headers then [] else fresh.map some := by
    rw [← houtputs, delivered_append, recordIncomingBytes_delivered, List.nil_append, passBuffer,
      hcompressed]
    split_ifs with h
    · rfl
    · rw [hbuffer, if_neg h, List.nil_append, readArray_of_le le_rfl, List.take_length]
      exact List.append_nil _
  have hquiet : Output.contentReadEvent ∉ outputs := by
    rw [← houtputs, List.mem_append, passBuffer]
    rintro (hmem | hmem)
    · exact hrecords hmem
    · split_ifs at hmem <;> simp at hmem
  have hactive' : d'.cancelled = false := by rw [← hdata]; split_ifs <;> exact hactive
  have hgzip : d'.usingGzip = isCompressed evt.headers := by
    rw [← hdata]; split_ifs <;> exact hcompressed
  have hsized' : d'.usingContentLength = hasLength evt.headers := by
    rw [← hdata]; split_ifs <;> exact hsized
  have hlength' : d'.contentLength = evt.contentLength := by
    rw [← hdata]; split_ifs <;> exact hlength
  split_ifs with hread hover hend
  · exact .failed rfl (not_mem_failed hquiet (by rintro ⟨⟩))
  · rw [hsized', hlength'] at hend
    cases hgunzip : isCompressed evt.headers with
    | false =>
      rw [handleContentComplete, if_neg (by simp [hgzip, hgunzip])]
      refine .complete (done ++ fresh) rfl hend (by rw [Decodes, hgunzip]; rfl) ?_
      rw [hgunzip]
      exact (delivered_append _ _).trans ((List.append_nil _).trans (hpassed.trans (by simp [hgunzip])))
    | true =>
      rw [handleContentComplete, if_pos (hgzip.trans hgunzip), hbuffer', if_pos hgunzip]
      rw [if_pos hgunzip] at hpassed
      split
      · exact .failed rfl (not_mem_failed hquiet (by rintro ⟨⟩))
      · next content hcontent =>
        refine .complete content rfl hend (by rw [Decodes, if_pos hgunzip]; exact hcontent) ?_
        simp only [ReadContentData.finish, delivered_append, hpassed, if_pos hgunzip]
        simp [delivered, deliveries, Output.delivery]
  · refine .more _ rfl hactive' hgzip hsized' hlength' hbuffer' hpassed hquiet ?_ fun hsized => ?_
    · rw [maxReadSize]
      split_ifs
      · exact min_le_right _ _
      · exact le_rfl
    · rw [maxReadSize, if_pos (hsized'.trans hsized), hlength']
      have hlt : ¬evt.contentLength < trunc 64 (done ++ fresh).length :=
        fun hlt => hover ⟨hsized'.trans hsized, hlength'.symm ▸ hlt⟩
      omega
  · exact .failed rfl (not_mem_failed hrecords (by rintro ⟨⟩))

theorem Unchunked.step (hplain : isChunked evt.headers = false)
    (hlength : evt.contentLength < 2 ^ 64) (h : Unchunked fsm evt payload r)
    (hstep : r.step fsm = some r') : Unchunked fsm evt payload r' := by
  cases h with
  | reading done fresh size h hfits hop =>
    simp only [Reading.step, hop] at hstep
    obtain ⟨read, hread, rfl⟩ := Option.map_eq_some_iff.mp hstep
    obtain ⟨htaken, hle⟩ := PacketStream.readExactly_taken hread
    have hbuffer : (r.data.receive read.received).readBuffer =
        (if isCompressed evt.headers then done else []) ++ (fresh ++ read.received) := by
      simp only [ReadContentData.receive, h.buffer, List.append_assoc]
    have hsplit : done ++ (fresh ++ read.received) ++ read.rest.bytes = payload := by
      rw [← h.split, ← htaken.bytes]
      simp
    have hsize := hfits.size_le
    have hshort := hfits.short
    have hlog (o : Outcome) : delivered (r.proceed o read.rest).log =
        (if isCompressed evt.headers then [] else done.map some) ++ delivered o.outputs := by
      rw [Reading.proceed, delivered_append, h.passed]
    have hquiet {o : Outcome} (ho : .contentReadEvent ∉ o.outputs) :
        .contentReadEvent ∉ (r.proceed o read.rest).log := by
      rw [Reading.proceed, List.mem_append]
      exact fun hmem => hmem.elim h.quiet ho
    -- a content that has a length is shorter than the offsets
    have hexact (hsized : hasLength evt.headers = true) :
        trunc 64 (done ++ (fresh ++ read.received)).length =
          (done ++ (fresh ++ read.received)).length := by
      have hwithin := hfits.within hsized
      refine trunc_of_lt ?_
      rcases hfits.first with rfl | rfl <;> simp only [List.length_append, List.length_nil] at * <;>
        omega
    have hcases : ContentRead fsm evt done (fresh ++ read.received) read.error
        (handleContentRead fsm (r.data.receive read.received) (trunc 64 done.length) fresh.length
          read.received.length read.error) :=
      handleContentRead_cases h.active h.compressed h.sized h.length hbuffer
        (List.length_append ..).symm (by rw [List.length_append]; omega)
    generalize handleContentRead fsm (r.data.receive read.received) (trunc 64 done.length)
      fresh.length read.received.length read.error = o at hcases
    cases hcases with
    | failed hnext ho => exact .failed hnext (hquiet ho)
    | complete content hnext hends hdecodes hpassed =>
      refine .complete (done ++ (fresh ++ read.received)) content hnext ?_ hdecodes ?_
      · rw [← hsplit]
        rcases hends with ⟨hsized, hall⟩ | ⟨hunsized, heof⟩
        · exact .length _ _ hplain hsized ((hexact hsized).symm.trans hall.symm)
        · have hclosed : read.error.isSome = true := by
            cases herror : read.error with
            | none => rw [herror] at heof; cases heof
            | some err => rfl
          rw [htaken.all hclosed, List.append_nil]
          exact .close _ hplain hunsized
      · rw [hlog, hpassed]
        unfold Decodes at hdecodes
        split_ifs at hdecodes ⊢
        · rfl
        · rw [hdecodes, ← List.map_append]
    | more size' hnext hactive hcompressed hsized hlength' hbuffer' hpassed ho hsize' hwithin =>
      refine .waiting (done ++ (fresh ++ read.received)) size' ⟨hactive, hcompressed, hsized,
        hlength', ?_, ?_, ?_, hquiet ho⟩ ⟨hsize', ?_, .inl rfl, fun hsized => ?_⟩ hnext
      · rw [List.append_nil]
        exact hsplit
      · rw [List.append_nil]
        exact hbuffer'
      · rw [hlog, hpassed]
        split_ifs
        · rfl
        · rw [← List.map_append]
      · decide
      · rw [← hexact hsized]
        exact hwithin hsized
  | waiting done size h hfits hop =>
    simp only [Reading.step, hop, Option.some.injEq] at hstep
    subst hstep
    rw [handleContentReadDelayCallback, if_neg (by simp [h.active])]
    split_ifs
    · refine .reading done [] size ⟨h.active, h.compressed, h.sized, h.length, h.split, h.buffer,
        ?_, ?_⟩ hfits rfl
      · simpa [Reading.proceed] using h.passed
      · simpa [Reading.proceed] using h.quiet
    · exact .failed rfl (by simpa [Reading.proceed] using h.quiet)
  | complete body content hop =>
    simp [Reading.step, hop] at hstep
  | failed hop =>
    simp [Reading.step, hop] at hstep

theorem unchunked_enter {net : PacketStream UInt8 IoError} (hplain : isChunked evt.headers = false)
    (hshort : evt.readBuffer.length + kMaxUnknownReadLength < 2 ^ 64)
    (hpayload : evt.readBuffer ++ net.bytes = payload) :
    Unchunked fsm evt payload (enter evt net) := by
  unfold isChunked at hplain
  have hentry : (onEntry evt).next = none ∧ .contentReadEvent ∉ (onEntry evt).outputs ∨
      onEntry evt = { data := { usingGzip := isCompressed evt.headers
                                usingContentLength := hasLength evt.headers
                                contentLength := evt.contentLength
                                readBuffer := evt.readBuffer }
                      next := some (.contentRead (maxReadSize
                        { usingContentLength := hasLength evt.headers
                          contentLength := evt.contentLength } 0) 0 evt.readBuffer.length) } := by
    unfold onEntry
    simp only [hplain, Bool.false_eq_true, false_and, if_false]
    split_ifs
    · exact .inl ⟨rfl, not_mem_failed List.not_mem_nil nofun⟩
    · exact .inl ⟨rfl, not_mem_failed List.not_mem_nil nofun⟩
    · exact .inr rfl
  rcases hentry with ⟨hnext, hquiet⟩ | hentry
  · exact .failed hnext hquiet
  · refine .reading [] evt.readBuffer (maxReadSize
      { usingContentLength := hasLength evt.headers, contentLength := evt.contentLength } 0) ?_ ?_ ?_
    · constructor <;> simp [enter, hentry, hpayload, delivered]
    · refine ⟨?_, hshort, .inr rfl, fun hsized => ?_⟩
      · rw [maxReadSize]
        split_ifs
        · exact min_le_right _ _
        · exact le_rfl
      · simp [maxReadSize, hsized]
    · rw [enter, hentry]
      rfl

/-- A reader that has come to the end of a content without chunks. -/
theorem reads_unchunked {net : PacketStream UInt8 IoError} (hplain : isChunked evt.headers = false)
    (hlength : evt.contentLength < 2 ^ 64)
    (hshort : evt.readBuffer.length + kMaxUnknownReadLength < 2 ^ 64)
    (hpayload : evt.readBuffer ++ net.bytes = payload)
    (hreaches : Reaches (Reading.step fsm) (enter evt net) r)
    (hdone : .contentReadEvent ∈ r.log) :
    ∃ body content, Framed evt.headers evt.contentLength payload body ∧
      Decodes fsm evt.headers body content ∧ delivered r.log = content.map some := by
  have hphase : Unchunked fsm evt payload r :=
    hreaches.invariant (fun _ _ hs hstep => hs.step hplain hlength hstep)
      (unchunked_enter hplain hshort hpayload)
  cases hphase with
  | reading _ _ _ h => exact absurd hdone h.quiet
  | waiting _ _ h => exact absurd hdone h.quiet
  | complete body content _ hframed hdecodes hpassed =>
    exact ⟨body, content, hframed, hdecodes, hpassed⟩
  | failed _ hquiet => exact absurd hdone hquiet

end Unchunked

/-! ### Chunks -/

section Chunked
variable {fsm : Fsm} {evt : HeadersParsedEvent} {r r' : Reading}

theorem step_log (h : r.step fsm = some r') : r.log <+: r'.log := by
  cases hop : r.op with
  | none => simp [Reading.step, hop] at h
  | some a =>
    cases a <;> simp only [Reading.step, hop, Option.some.injEq] at h
    case contentReadDelay | chunkSizeReadDelay => exact h ▸ List.prefix_append _ _
    all_goals
      obtain ⟨read, -, rfl⟩ := Option.map_eq_some_iff.mp h
      exact List.prefix_append _ _

theorem responses_delivered (offset : ℕ → ℕ) (pos : ℕ) (chunks : List Chunk) :
    delivered (responses offset pos chunks) = (chunks.flatMap Chunk.data).map some := by
  induction chunks generalizing pos with
  | nil => rfl
  | cons c cs ih =>
    rw [List.flatMap_cons, List.map_append, ← ih (pos + c.data.length)]
    rfl

/-- A reader that has come to the end of chunks. -/
theorem reads_chunked {net : PacketStream UInt8 IoError} (hheaders : ChunkedOnly evt.headers)
    {chunks : List Chunk} {rest : List UInt8}
    (hpayload : evt.readBuffer ++ net.bytes = encodeAll chunks ++ rest)
    (hreaches : Reaches (Reading.step fsm) (enter evt net) r)
    (hdone : .contentReadEvent ∈ r.log) :
    delivered r.log = (chunks.flatMap Chunk.data).map some := by
  obtain ⟨hline, hlog⟩ := atLine_enter net hheaders
  rw [hpayload] at hline
  obtain ⟨last, hends, hevents⟩ := hline.ends_all fsm
  rw [hlog, events_nil, List.nil_append] at hevents
  -- the log only grows up to that of the last state, which has the event at its end
  have hgrows : r.log <+: last.log :=
    (hends.of_reaches hreaches).invariant (I := fun r' => r.log <+: r'.log)
      (fun _ _ hs hstep => hs.trans (step_log hstep)) List.prefix_rfl
  have hstarts : events r.log <+: responses (trunc 64) 0 chunks ++ [.contentReadEvent] :=
    hevents ▸ hgrows.filter _
  have hmem : Output.contentReadEvent ∈ events r.log := (mem_events rfl).mpr hdone
  have hall : events r.log = responses (trunc 64) 0 chunks ++ [.contentReadEvent] :=
    (List.prefix_concat_iff.mp hstarts).resolve_right fun hearly =>
      contentReadEvent_not_mem_responses _ _ _ (hearly.subset hmem)
  calc delivered r.log
      = delivered (events r.log) := by rw [delivered, delivered, deliveries_events]
    _ = delivered (responses (trunc 64) 0 chunks) := by
        rw [hall, delivered_append]
        exact List.append_nil _
    _ = (chunks.flatMap Chunk.data).map some := responses_delivered _ _ _

end Chunked

/-! ### Responses -/

/-- The content of a response has been passed on, and it had all come. -/
structure PassesOn (fsm : Fsm) (evt : HeadersReadEvent) (payload : List UInt8) (passed : Buffer) :
    Prop where
  framed : isChunked evt.headers = false →
    ∃ body, Framed evt.headers evt.contentLength payload body
  content : ∀ body, Framed evt.headers evt.contentLength payload body →
    ∃ content, Decodes fsm evt.headers body content ∧ passed = content.map some

/-- Without chunks there is one content. -/
theorem Framed.unique {headers : Headers} {contentLength : ℕ} {payload body body' : List UInt8}
    (hplain : isChunked headers = false) (h : Framed headers contentLength payload body)
    (h' : Framed headers contentLength payload body') : body = body' := by
  have hchunked (h : ChunkedOnly headers) : False := by simp [isChunked, h.transfer] at hplain
  cases h with
  | length body rest _ hsized hlength =>
    generalize hpayload : body ++ rest = payload at h'
    cases h' with
    | length body' rest' _ _ hlength' =>
      exact (List.append_inj hpayload (hlength.trans hlength'.symm)).1
    | close _ _ hunsized => simp [hsized] at hunsized
    | chunked _ _ h => exact (hchunked h).elim
  | close _ _ hunsized =>
    cases h' with
    | length _ _ _ hsized => simp [hsized] at hunsized
    | close => rfl
    | chunked _ _ h => exact (hchunked h).elim
  | chunked _ _ h => exact (hchunked h).elim

theorem passesOn_of_reaches {fsm : Fsm} {evt : HeadersReadEvent} {payload : List UInt8}
    {net : PacketStream UInt8 IoError} {r : Reading} (hlength : evt.contentLength < 2 ^ 64)
    (hshort : evt.readBuffer.length + kMaxUnknownReadLength < 2 ^ 64)
    (hpayload : evt.readBuffer ++ net.bytes = payload)
    (hreaches : Reaches (Reading.step fsm) (enter evt.parsed net) r)
    (hdone : .contentReadEvent ∈ r.log) : PassesOn fsm evt payload (delivered r.log) := by
  cases hplain : isChunked evt.headers with
  | false =>
    obtain ⟨body, content, hframed, hdecodes, hpassed⟩ :=
      reads_unchunked (show isChunked evt.parsed.headers = false from hplain) hlength hshort
        hpayload hreaches hdone
    refine ⟨fun _ => ⟨body, hframed⟩, fun body' hframed' => ⟨content, ?_, hpassed⟩⟩
    rwa [← hframed.unique hplain hframed']
  | true =>
    refine ⟨fun hfalse => (by rw [hplain] at hfalse; cases hfalse), fun body hframed => ?_⟩
    cases hframed with
    | length _ _ hfalse | close _ hfalse => rw [hplain] at hfalse; cases hfalse
    | chunked chunks rest hheaders =>
      refine ⟨_, ?_, reads_chunked (show ChunkedOnly evt.parsed.headers from hheaders) hpayload
        hreaches hdone⟩
      rw [Decodes, if_neg (by simp [isCompressed, hheaders.transfer, hheaders.content])]

/-- A head is that of its block, and what is behind the block has been read or is still sent. -/
theorem IsHead.block {peer : PacketStream UInt8 IoError} {url : String} {evt : HeadersReadEvent}
    {read : Read UInt8 IoError} {block : HeaderBlock} {payload : List UInt8}
    (h : IsHead peer url evt read) (hclosed : block.Closed)
    (hpeer : peer.bytes = block.bytes ++ payload) :
    ∃ head, handleHeaderRead url block.bytes block.bytes.length none = .ok head ∧
      evt = { head with readBuffer := evt.readBuffer } ∧
      evt.readBuffer ++ read.rest.bytes = payload := by
  obtain ⟨hcomes, hparsed⟩ := h
  obtain ⟨tail, rest, hread⟩ :=
    HeaderBlock.exists_read (show block.bytes <+: peer.bytes from ⟨payload, hpeer.symm⟩)
  cases hcomes.symm.trans hread
  have hdetermines : block.Determines url := HeaderBlock.determines_of_closed hclosed
  obtain ⟨outcome, houtcome⟩ := hdetermines.forall
  rw [HeaderBlock.headersRead_append, houtcome] at hparsed
  have halone := houtcome []
  rw [List.append_nil] at halone
  obtain ⟨⟨hbytes, -⟩, -⟩ := PacketStream.readUntil_taken hcomes
  cases outcome with
  | error err => cases hparsed
  | ok head =>
    cases hparsed
    refine ⟨_, halone, rfl, ?_⟩
    rw [hpeer, List.append_assoc] at hbytes
    exact List.append_cancel_left hbytes

namespace Link

variable {peers : ℕ → PacketStream UInt8 IoError} {l : Link}

/-- Where the request is complete, the content of the last response has been passed on. -/
def Completes (peers : ℕ → PacketStream UInt8 IoError) (l : Link) : Prop :=
  l.machine.state = .complete → ∀ (block : HeaderBlock) (payload : List UInt8), block.Closed →
    (peers l.heads).bytes = block.bytes ++ payload →
      ∃ head, handleHeaderRead l.machine.url block.bytes block.bytes.length none = .ok head ∧
        PassesOn l.machine.contentFsm head payload (passedOn l.machine.log)

theorem Fed.completes (h : Fed peers l) (hcrashed : l.machine.crashed = false)
    (hpeers : ∀ n, (peers n).bytes.length + kMaxUnknownReadLength < 2 ^ 64) :
    Completes peers l := by
  intro hstate block payload hclosed hpeer
  have hdelivers := h.delivers hcrashed
  unfold Delivers at hdelivers
  rw [hstate] at hdelivers
  obtain ⟨evt, read, r, ⟨hhead, hreaches⟩, hdone, hpassed⟩ := hdelivers
  obtain ⟨head, hblock, hevt, hpayload⟩ := hhead.block hclosed hpeer
  have hshort : evt.readBuffer.length + kMaxUnknownReadLength < 2 ^ 64 := by
    have hlength := congrArg List.length hpayload
    have hbound := hpeers l.heads
    rw [hpeer] at hbound
    rw [List.length_append] at hlength hbound
    omega
  have hon := passesOn_of_reaches (handleHeaderRead_lt hhead.parsed) hshort hpayload hreaches hdone
  rw [← hpassed, hevt] at hon
  exact ⟨head, hblock, hon.framed, hon.content⟩

/-- While no caller fails with the error of a timer and the responses have offsets, a request that
is complete has passed on the content that its last response has framed: all of it, once, in order
and nothing else. -/
theorem run_completes {cfg : Config} {time : ℕ} {acts : List Act}
    (h : ∀ a ∈ acts, ∀ call ∈ a.calls, call.isTimeout = false)
    (hpeers : ∀ n, (peers n).bytes.length + kMaxUnknownReadLength < 2 ^ 64) :
    Always (step peers) (fun l => l.machine.crashed = false → Completes peers l)
      { machine := Machine.create cfg time } acts := by
  refine Always.of_guarded (I := Fed peers)
    (G := fun _ a _ => ∀ call ∈ a.calls, call.isTimeout = false)
    (fun l hl hcrashed => hl.completes hcrashed hpeers)
    (fun _ _ _ hl hcalls hstep => hl.step hcalls hstep) (fed_create peers cfg time)
    (along_of_forall fun a ha _ _ => h a ha)

/-- The head of the greeting. -/
def greetingHead : HeaderBlock where
  bytes := "HTTP/1.1 200 OK\r\nContent-Length: 2\r\n\r\n".toUTF8.toList
  ends := by decide +kernel

theorem greetingHead_closed : greetingHead.Closed :=
  ⟨⟨"HTTP/1.1".toUTF8.toList, 200, " OK\r".toUTF8.toList⟩,
    "Content-Length: 2\r\n\r\n".toUTF8.toList, by decide +kernel, by decide +kernel⟩

theorem run_completes_timedOutBeforeSending :
    (greetingHead.Closed ∧ (greeting 1).bytes = greetingHead.bytes ++ "hi".toUTF8.toList) ∧
      ((run (step greeting) { machine := Machine.getPlain } Machine.timedOutBeforeSending).map
        fun l => decide (l.machine.state = .complete ∧ l.heads = 1) && !l.machine.crashed) =
          some true ∧
      Always (step greeting) (fun l => l.machine.crashed = false → Completes greeting l)
        { machine := Machine.getPlain } Machine.timedOutBeforeSending :=
  ⟨⟨greetingHead_closed, by decide +kernel⟩, by decide +kernel,
    run_completes (by decide +kernel) fun _ =>
      (by decide +kernel : (greeting 0).bytes.length + kMaxUnknownReadLength < 2 ^ 64)⟩

end Link

end MediafireSdk.Http
