import MediafireSdk.Http.ContentLength

/-! Content that is shorter than its length says. The handler takes the end of the connection for
a read like any other: it adds no byte to the count, and asks for the missing ones again. -/

namespace MediafireSdk.Http

open Streams Words Steps

/-- The reader raises an error after finitely many steps, and has no run without an end. -/
structure EndsWithError (fsm : Fsm) (start : Reading) : Prop where
  ends : ∃ r, Ends (Reading.step fsm) start r ∧
    ∃ code description, Output.errorEvent code description ∈ r.log
  finite : ¬Forever (Reading.step fsm) start

/-- Headers of content that is read by its length, compressed or not. -/
structure ReadByLength (headers : Headers) : Prop where
  length : (parseTransferEncoding headers).contentLength = true
  chunked : (parseTransferEncoding headers).chunked = false
  transfer : (parseTransferEncoding headers).unknown = false
  content : (parseContentEncoding headers).unknown = false

/-! ### One read -/

/-- The data of a state that counts up to `length` bytes. -/
structure Counting (length : ℕ) (d : ReadContentData) : Prop where
  active : d.cancelled = false
  sized : d.usingContentLength = true
  length : d.contentLength = length

section Handlers
variable (fsm : Fsm) {d : ReadContentData} {length : ℕ} (total previously n : ℕ)
  {err : Option IoError}

/-- A read that leaves bytes missing is followed by another one, also when it has found the end of
the connection. -/
theorem handleContentRead_short (h : Counting length d) (hlength : length < 2 ^ 64)
    (hlt : total + (previously + n) < length) (herr : err = none ∨ fsm.isEof err = true) :
    ∃ d' outputs, handleContentRead fsm d total previously n err =
        { data := d', outputs := outputs, next := some (.contentReadDelay
            (min (length - (total + (previously + n))) kMaxUnknownReadLength)
            (total + (previously + n))) } ∧
      Counting length d' ∧ d'.transmissionDelayTimerEnabled = true := by
  have hprocess : trunc 64 (previously + n) = previously + n := trunc_of_lt (by omega)
  have htotal : trunc 64 (total + (previously + n)) = total + (previously + n) :=
    trunc_of_lt (by omega)
  have hexceeds : ¬length < total + (previously + n) := by omega
  have hequal : length ≠ total + (previously + n) := by omega
  unfold handleContentRead
  simp only [h.active, Bool.false_eq_true, if_false, hprocess, htotal, herr, if_true]
  cases hgzip : d.usingGzip with
  | true =>
    simp only [if_true, h.sized, h.length, hexceeds, hequal, and_false, if_false,
      Bool.true_eq_false, false_and, or_false, maxReadSize]
    exact ⟨_, _, rfl, ⟨h.active, rfl, rfl⟩, rfl⟩
  | false =>
    simp only [Bool.false_eq_true, if_false, h.sized, h.length, hexceeds, hequal, and_false,
      Bool.true_eq_false, false_and, or_false, maxReadSize, if_true]
    exact ⟨_, _, rfl, ⟨rfl, rfl, rfl⟩, rfl⟩

/-- Any other error is raised. -/
theorem handleContentRead_failed (h : Counting length d) {e : IoError}
    (herr : fsm.isEof (some e) = false) : ∃ code description outputs,
    handleContentRead fsm d total previously n (some e) =
      d.finish outputs (.errorEvent code description) := by
  have hnot : ¬(some e = none ∨ fsm.isEof (some e) = true) := by simp [herr]
  simp only [handleContentRead, h.active, Bool.false_eq_true, if_false, hnot]
  exact ⟨_, _, _, rfl⟩

end Handlers

/-! ### Runs -/

section Runs
variable (fsm : Fsm) {length sent : ℕ} {e : IoError} {r : Reading}

/-- Of the content `sent` bytes are sent in all, and then the connection ends with `e`. -/
inductive Short (length sent : ℕ) (e : IoError) (r : Reading) : Prop
  | reading (total previously : ℕ) (hdata : Counting length r.data)
      (hclose : r.net.close = some e) (hsent : total + previously + r.net.bytes.length = sent)
      (hop : r.op = some
        (.contentRead (min (length - total) kMaxUnknownReadLength) total previously))
  | delayed (total : ℕ) (hdata : Counting length r.data) (hclose : r.net.close = some e)
      (hsent : total + r.net.bytes.length = sent)
      (henabled : r.data.transmissionDelayTimerEnabled = true)
      (hop : r.op = some (.contentReadDelay (min (length - total) kMaxUnknownReadLength) total))

/-- The delay is over. -/
theorem Short.step_delayed {total : ℕ} (hdata : Counting length r.data)
    (henabled : r.data.transmissionDelayTimerEnabled = true)
    (hop : r.op = some (.contentReadDelay (min (length - total) kMaxUnknownReadLength) total)) :
    ∃ r', r.step fsm = some r' ∧ r'.net = r.net ∧ Counting length r'.data ∧
      r'.op = some (.contentRead (min (length - total) kMaxUnknownReadLength) total 0) := by
  have hstep : r.step fsm = some (r.proceed (handleContentReadDelayCallback r.data
      (min (length - total) kMaxUnknownReadLength) total) r.net) := by
    simp only [Reading.step, hop]
  refine ⟨_, hstep, rfl, ?_, ?_⟩
  all_goals
    simp only [Reading.proceed, handleContentReadDelayCallback, hdata.active, henabled,
      Bool.false_eq_true, if_false, if_true]
  exact ⟨rfl, hdata.sized, hdata.length⟩

/-- A read that gets all it asks for. -/
theorem Short.step_more {total previously : ℕ} (hlength : length < 2 ^ 64) (hshort : sent < length)
    (hdata : Counting length r.data) (hclose : r.net.close = some e)
    (hsent : total + previously + r.net.bytes.length = sent)
    (hop : r.op = some (.contentRead (min (length - total) kMaxUnknownReadLength) total previously))
    (hle : min (length - total) kMaxUnknownReadLength ≤ r.net.bytes.length) :
    ∃ r', r.step fsm = some r' ∧ Short length sent e r' ∧
      r'.net.bytes.length < r.net.bytes.length := by
  generalize hsize : min (length - total) kMaxUnknownReadLength = size at hop hle
  have hpos : 0 < size := by
    have : 0 < kMaxUnknownReadLength := by decide
    omega
  obtain ⟨rest, hread, hrest, hrestClose⟩ := r.net.readExactly_of_le hle
  have htaken : (r.net.bytes.take size).length = size := by
    rw [List.length_take, min_eq_left hle]
  have hleft : rest.bytes.length = r.net.bytes.length - size := by rw [hrest, List.length_drop]
  have hreceived : Counting length (r.data.receive (r.net.bytes.take size)) :=
    ⟨hdata.active, hdata.sized, hdata.length⟩
  have hshort : total + (previously + size) < length := by omega
  obtain ⟨d', outputs, hhandled, hcounting, henabled⟩ := handleContentRead_short fsm
    total previously size hreceived hlength hshort (.inl rfl)
  refine ⟨r.proceed (handleContentRead fsm (r.data.receive (r.net.bytes.take size)) total previously
    size none) rest, ?_, ?_, ?_⟩
  · simp only [Reading.step, hop, hread, Option.map_some, htaken]
  · rw [hhandled]
    refine .delayed (total + (previously + size)) hcounting (hrestClose.trans hclose) ?_ henabled
      rfl
    show total + (previously + size) + rest.bytes.length = sent
    omega
  · show rest.bytes.length < r.net.bytes.length
    omega

/-- A read that finds the end of the connection. -/
theorem Short.step_end {total previously : ℕ} (hclose : r.net.close = some e)
    (hop : r.op = some (.contentRead (min (length - total) kMaxUnknownReadLength) total previously))
    (hlt : r.net.bytes.length < min (length - total) kMaxUnknownReadLength) :
    r.step fsm = some (r.proceed (handleContentRead fsm (r.data.receive r.net.bytes) total
      previously r.net.bytes.length (some e)) { packets := [], close := some e }) := by
  simp only [Reading.step, hop, PacketStream.readExactly_of_lt hlt,
    PacketStream.drained_of_close hclose, Option.map_some]

/-- When the end is taken for a read, there is always a next one. -/
theorem Short.step_eof (h : Short length sent e r) (hlength : length < 2 ^ 64)
    (hshort : sent < length) (heof : fsm.isEof (some e) = true) :
    ∃ r', r.step fsm = some r' ∧ Short length sent e r' := by
  cases h with
  | delayed total hdata hclose hsent henabled hop =>
    obtain ⟨r', hstep, hnet, hdata', hop'⟩ :=
      Short.step_delayed fsm hdata henabled hop
    exact ⟨r', hstep, .reading total 0 hdata' (hnet ▸ hclose) (hnet ▸ hsent) hop'⟩
  | reading total previously hdata hclose hsent hop =>
    rcases Nat.lt_or_ge r.net.bytes.length (min (length - total) kMaxUnknownReadLength)
      with hlt | hle
    · have hreceived : Counting length (r.data.receive r.net.bytes) :=
        ⟨hdata.active, hdata.sized, hdata.length⟩
      have hshort : total + (previously + r.net.bytes.length) < length := by omega
      obtain ⟨d', outputs, hhandled, hcounting, henabled⟩ := handleContentRead_short fsm total
        previously r.net.bytes.length hreceived hlength hshort (.inr heof)
      refine ⟨_, Short.step_end fsm hclose hop hlt, ?_⟩
      rw [hhandled]
      refine .delayed (total + (previously + r.net.bytes.length)) hcounting rfl ?_ henabled rfl
      show total + (previously + r.net.bytes.length) + 0 = sent
      omega
    · obtain ⟨r', hstep, hnext, -⟩ := Short.step_more fsm hlength hshort hdata hclose hsent
        hop hle
      exact ⟨r', hstep, hnext⟩

/-- Any other error ends the run. -/
theorem Short.ends (h : Short length sent e r) (hlength : length < 2 ^ 64) (hshort : sent < length)
    (herr : fsm.isEof (some e) = false) : ∃ r', Ends (Reading.step fsm) r r' ∧
      ∃ code description, Output.errorEvent code description ∈ r'.log := by
  have hreading (r : Reading) (total previously : ℕ) (hdata : Counting length r.data)
      (hclose : r.net.close = some e) (hsent : total + previously + r.net.bytes.length = sent)
      (hop : r.op = some
        (.contentRead (min (length - total) kMaxUnknownReadLength) total previously))
      (hmore : ∀ r', Short length sent e r' → r'.net.bytes.length < r.net.bytes.length →
        ∃ r'', Ends (Reading.step fsm) r' r'' ∧
          ∃ code description, Output.errorEvent code description ∈ r''.log) :
      ∃ r', Ends (Reading.step fsm) r r' ∧
        ∃ code description, Output.errorEvent code description ∈ r'.log := by
    rcases Nat.lt_or_ge r.net.bytes.length (min (length - total) kMaxUnknownReadLength)
      with hlt | hle
    · have hreceived : Counting length (r.data.receive r.net.bytes) :=
        ⟨hdata.active, hdata.sized, hdata.length⟩
      obtain ⟨code, description, outputs, hhandled⟩ := handleContentRead_failed fsm
        total previously r.net.bytes.length hreceived herr
      have hstep := Short.step_end fsm hclose hop hlt
      rw [hhandled] at hstep
      refine ⟨_, (Reaches.of_step hstep).ends ⟨.refl, rfl⟩, code, description, ?_⟩
      exact List.mem_append_right _ (List.mem_append_right _ (List.mem_singleton_self _))
    · obtain ⟨r', hstep, hnext, hless⟩ := Short.step_more fsm hlength hshort hdata hclose
        hsent hop hle
      obtain ⟨r'', hends, hraised⟩ := hmore r' hnext hless
      exact ⟨r'', (Reaches.of_step hstep).ends hends, hraised⟩
  induction hleft : r.net.bytes.length using Nat.strong_induction_on generalizing r with
  | _ left ih =>
    have hmore (r₁ : Reading) (hr₁ : r₁.net.bytes.length = left) :
        ∀ r', Short length sent e r' → r'.net.bytes.length < r₁.net.bytes.length →
          ∃ r'', Ends (Reading.step fsm) r' r'' ∧
            ∃ code description, Output.errorEvent code description ∈ r''.log :=
      fun r' hr' hless => ih _ (hr₁ ▸ hless) hr' rfl
    cases h with
    | reading total previously hdata hclose hsent hop =>
      exact hreading r total previously hdata hclose hsent hop (hmore r hleft)
    | delayed total hdata hclose hsent henabled hop =>
      obtain ⟨r₁, hstep, hnet, hdata₁, hop₁⟩ :=
        Short.step_delayed fsm hdata henabled hop
      obtain ⟨r', hends, hraised⟩ := hreading r₁ total 0 hdata₁ (hnet ▸ hclose) (hnet ▸ hsent) hop₁
        (hmore r₁ (hnet ▸ hleft))
      exact ⟨r', (Reaches.of_step hstep).ends hends, hraised⟩

end Runs

/-! ### Entering the state -/

section Entry
variable {fsm : Fsm} {evt : HeadersParsedEvent} {net : PacketStream UInt8 IoError} {e : IoError}

theorem short_enter (hheaders : ReadByLength evt.headers) (hclose : net.close = some e) :
    Short evt.contentLength (evt.readBuffer.length + net.bytes.length) e (enter evt net) := by
  have hentry : onEntry evt =
      { data := { usingGzip := (parseTransferEncoding evt.headers).gzip ||
                    (parseContentEncoding evt.headers).gzip
                  usingContentLength := true
                  contentLength := evt.contentLength
                  readBuffer := evt.readBuffer }
        next := some (.contentRead (min evt.contentLength kMaxUnknownReadLength) 0
          evt.readBuffer.length) } := by
    simp [onEntry, hheaders.length, hheaders.chunked, hheaders.transfer, hheaders.content,
      maxReadSize]
  refine .reading 0 evt.readBuffer.length ?_ hclose ?_ ?_
  · simp only [enter, hentry]
    exact ⟨rfl, rfl, rfl⟩
  · simp only [enter, Nat.zero_add]
  · simp only [enter, hentry, Nat.sub_zero]

/-- For every length, every shorter part of the content, in the buffer or in packets of any sizes,
and every way in which the connection ends: the reader raises an error exactly when it does not
take that for the end of the content. -/
theorem endsWithError_enter_iff (hheaders : ReadByLength evt.headers)
    (hlength : evt.contentLength < 2 ^ 64)
    (hshort : evt.readBuffer.length + net.bytes.length < evt.contentLength)
    (hclose : net.close = some e) :
    EndsWithError fsm (enter evt net) ↔ fsm.isEof (some e) = false := by
  have hentered := short_enter hheaders hclose
  constructor
  · intro h
    by_contra heof
    refine h.finite (forever_of_invariant (fun r hr => ?_) hentered)
    exact hr.step_eof fsm hlength hshort (Bool.eq_true_of_not_eq_false heof)
  · intro herr
    obtain ⟨r, hends, hraised⟩ := hentered.ends fsm hlength hshort herr
    exact ⟨⟨r, hends, hraised⟩, hends.not_forever⟩

end Entry

/-! ### Three of five bytes -/

/-- The rest of three bytes in one packet, and the end of the connection. -/
def threePackets (e : IoError) : PacketStream UInt8 IoError where
  packets := [hello.take 3]
  close := some e

theorem readByLength_hello (buffered : ℕ) : ReadByLength (helloHeaders buffered).headers :=
  ⟨rfl, rfl, rfl, rfl⟩

/-- A connection that is reset. -/
theorem endsWithError_reset : EndsWithError plainFsm
    (enter (helloHeaders 0) (threePackets (.other "Connection reset by peer"))) :=
  (endsWithError_enter_iff (readByLength_hello 0) (by decide) (by decide) rfl).mpr rfl

/-- A connection that is closed. -/
theorem not_endsWithError_eof :
    ¬EndsWithError plainFsm (enter (helloHeaders 0) (threePackets .eof)) := by
  have hclose : (threePackets .eof).close = some .eof := rfl
  have hentered := short_enter (readByLength_hello 0) hclose
  exact fun h => h.finite (forever_of_invariant
    (fun r hr => Short.step_eof plainFsm hr (by decide) (by decide) rfl) hentered)

end MediafireSdk.Http
