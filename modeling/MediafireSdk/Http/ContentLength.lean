import MediafireSdk.Http.ReadContent

/-! Content with a length (`HandleContentRead`). The first read asks for up to 8 KiB of
the content whatever the header read has left in the buffer; later reads ask for what
is missing. The reader is therefore exact if and only if the content goes beyond what
was left over by at least the first read. -/

namespace MediafireSdk.Http

open Streams Words Steps

/-- What the pending operation asks the socket for. -/
def Reading.asked (r : Reading) : ℕ :=
  match r.op with
  | some (.contentRead size _ _) => size
  | some (.chunkRead left _ _) => left
  | _ => 0

/-- No read beyond the content, offsets without gaps, and the whole content at its end. -/
structure ExactReading (fsm : Fsm) (body : List UInt8) (start : Reading) : Prop where
  asks : ∀ r, Reaches (Reading.step fsm) start r → r.asked ≤ r.net.bytes.length
  offsets : ∀ r, Reaches (Reading.step fsm) start r → Contiguous 0 (deliveries r.log)
  content : ∀ r, Reaches (Reading.step fsm) start r → Output.contentReadEvent ∈ r.log →
    delivered r.log = body.map some

/-- Headers with a content length and no encoding. -/
structure LengthOnly (headers : Headers) : Prop where
  transfer : parseTransferEncoding headers = { contentLength := true }
  content : parseContentEncoding headers = {}

/-! ### One read -/

/-- The data of a state that reads `length` bytes. -/
structure Sized (length : ℕ) (d : ReadContentData) : Prop where
  active : d.cancelled = false
  plain : d.usingGzip = false
  sized : d.usingContentLength = true
  length : d.contentLength = length

/-- The first `total` bytes are delivered. -/
structure DeliveredTo (body : List UInt8) (total : ℕ) (log : List Output) : Prop where
  le : total ≤ body.length
  contiguous : Contiguous 0 (deliveries log)
  bytes : delivered log = (body.take total).map some

/-- The first `total` bytes are delivered, the next `buffered` ones are in the buffer, and an open
connection brings the others. -/
structure Pending (body : List UInt8) (total buffered : ℕ) (r : Reading) : Prop where
  data : Sized body.length r.data
  delivered : DeliveredTo body total r.log
  quiet : Output.contentReadEvent ∉ r.log
  buffer : r.data.readBuffer.length = buffered
  rest : r.data.readBuffer ++ r.net.bytes = body.drop total

theorem DeliveredTo.append {body : List UInt8} {total : ℕ} {log : List Output}
    (h : DeliveredTo body total log) {bytes rest : List UInt8}
    (hbytes : bytes ++ rest = body.drop total) (fsm : Fsm) (n : ℕ) :
    DeliveredTo body (total + bytes.length)
      (log ++ (fsm.recordIncomingBytes n ++
        [.responseContentReceived total (bytes.map some)])) := by
  have hlen : bytes.length + rest.length = body.length - total := by
    rw [← List.length_append, hbytes, List.length_drop]
  have hdel : deliveries (log ++ (fsm.recordIncomingBytes n ++
      [.responseContentReceived total (bytes.map some)])) =
      deliveries log ++ [(total, bytes.map some)] := by
    simp only [deliveries_append, deliveries_recordIncomingBytes, List.nil_append]
    rfl
  have hbefore : ((deliveries log).flatMap Prod.snd).length = total := by
    have := congrArg List.length h.bytes
    rw [List.length_map, List.length_take, min_eq_left h.le] at this
    exact this
  refine ⟨?_, ?_, ?_⟩
  · have := h.le
    omega
  · rw [hdel, contiguous_append]
    exact ⟨h.contiguous, by rw [hbefore, Nat.zero_add]⟩
  · have htake : body.take (total + bytes.length) = body.take total ++ bytes := by
      rw [List.take_add, ← hbytes, List.take_left]
    rw [Http.delivered, hdel, List.flatMap_append, htake, List.map_append, ← h.bytes]
    simp [Http.delivered]

theorem DeliveredTo.finish {body : List UInt8} {total : ℕ} {log outputs : List Output}
    (h : DeliveredTo body total (log ++ outputs)) :
    DeliveredTo body total (log ++ (outputs ++ [.contentReadEvent])) := by
  have hdel : deliveries (log ++ (outputs ++ [.contentReadEvent])) =
      deliveries (log ++ outputs) := by
    rw [← List.append_assoc, deliveries_append, deliveries, deliveries]
    exact List.append_nil _
  exact ⟨h.le, by rw [hdel]; exact h.contiguous, by rw [Http.delivered, hdel]; exact h.bytes⟩

/-- The handler of a read that stays within the content. -/
theorem handleContentRead_of_le (fsm : Fsm) {d : ReadContentData} {length total previously n : ℕ}
    (h : Sized length d) (hlength : length < 2 ^ 64) (hle : total + (previously + n) ≤ length)
    (hbuffer : d.readBuffer.length = previously + n) :
    handleContentRead fsm d total previously n none =
      if length = total + (previously + n) then
        { d with readBuffer := [] }.finish (fsm.recordIncomingBytes previously ++
          [Output.responseContentReceived total (d.readBuffer.map some)]) .contentReadEvent
      else
        { data := { d with readBuffer := [], transmissionDelayTimerEnabled := true }
          outputs := fsm.recordIncomingBytes previously ++
            [.responseContentReceived total (d.readBuffer.map some)]
          next := some (.contentReadDelay
            (min (length - (total + (previously + n))) kMaxUnknownReadLength)
            (total + (previously + n))) } := by
  have hprocess : trunc 64 (previously + n) = previously + n := trunc_of_lt (by omega)
  have htotal : trunc 64 (total + (previously + n)) = total + (previously + n) :=
    trunc_of_lt (by omega)
  have harray : readArray (previously + n) d.readBuffer = d.readBuffer.map some := by
    rw [readArray_of_le hbuffer.ge, List.take_of_length_le hbuffer.le]
  have hdrop : d.readBuffer.drop (previously + n) = [] := List.drop_of_length_le hbuffer.le
  have hexceeds : ¬ length < total + (previously + n) := by omega
  simp only [handleContentRead, h.active, h.plain, h.sized, h.length, hprocess, htotal, harray,
    hdrop, hexceeds, passBuffer, handleContentComplete, maxReadSize, Bool.false_eq_true,
    Bool.true_eq_false, if_false, true_or, if_true, and_false, true_and, false_and, or_false]

/-! ### Whole runs -/

section Runs
variable {fsm : Fsm} {body : List UInt8} {r : Reading} {total buffered : ℕ}

/-- A read of the missing bytes, at most 8 KiB of them. -/
structure ReadPending (body : List UInt8) (total buffered : ℕ) (r : Reading) : Prop where
  pending : Pending body total buffered r
  op : r.op = some (.contentRead (min (body.length - total) kMaxUnknownReadLength) total buffered)
  fits : buffered + min (body.length - total) kMaxUnknownReadLength ≤ body.length - total

/-- The delay before such a read. -/
structure DelayPending (body : List UInt8) (total : ℕ) (r : Reading) : Prop where
  pending : Pending body total 0 r
  enabled : r.data.transmissionDelayTimerEnabled = true
  op : r.op = some (.contentReadDelay (min (body.length - total) kMaxUnknownReadLength) total)
  unread : total < body.length

structure Finished (body : List UInt8) (r : Reading) : Prop where
  delivered : DeliveredTo body body.length r.log
  op : r.op = none
  raised : Output.contentReadEvent ∈ r.log

inductive Phase (body : List UInt8) (r : Reading) : Prop
  | reading (total buffered : ℕ) (h : ReadPending body total buffered r)
  | delayed (total : ℕ) (h : DelayPending body total r)
  | finished (h : Finished body r)

theorem ReadPending.step (fsm : Fsm) (h : ReadPending body total buffered r)
    (hbody : body.length < 2 ^ 64) :
    ∃ r', r.step fsm = some r' ∧ (Finished body r' ∨ DelayPending body
      (total + (buffered + min (body.length - total) kMaxUnknownReadLength)) r') := by
  obtain ⟨h, hop, hfits⟩ := h
  generalize hsize : min (body.length - total) kMaxUnknownReadLength = size at hop hfits ⊢
  have hle := h.delivered.le
  have hlen : buffered + r.net.bytes.length = body.length - total := by
    rw [← h.buffer, ← List.length_append, h.rest, List.length_drop]
  obtain ⟨rest, hread, hrest, -⟩ := r.net.readExactly_of_le (n := size) (by omega)
  have htaken : (r.net.bytes.take size).length = size := by
    rw [List.length_take]
    omega
  have hbuffer : (r.data.readBuffer ++ r.net.bytes.take size).length = buffered + size := by
    rw [List.length_append, h.buffer, htaken]
  have hsplit : (r.data.readBuffer ++ r.net.bytes.take size) ++ rest.bytes = body.drop total := by
    rw [hrest, List.append_assoc, List.take_append_drop, h.rest]
  have hsized : Sized body.length (r.data.receive (r.net.bytes.take size)) :=
    ⟨h.data.active, h.data.plain, h.data.sized, h.data.length⟩
  have hdelivered := h.delivered.append hsplit fsm buffered
  have hstep : r.step fsm = some (r.proceed (handleContentRead fsm
      (r.data.receive (r.net.bytes.take size)) total buffered size none) rest) := by
    simp only [Reading.step, hop, hread, Option.map_some, htaken]
  rw [handleContentRead_of_le fsm hsized hbody (by omega) hbuffer] at hstep
  rw [hbuffer] at hdelivered
  refine ⟨_, hstep, ?_⟩
  split_ifs with hend
  · rw [← hend] at hdelivered
    refine .inl ⟨hdelivered.finish, rfl, ?_⟩
    exact List.mem_append_right _ (List.mem_append_right _ (List.mem_singleton.mpr rfl))
  · have hquiet : Output.contentReadEvent ∉ fsm.recordIncomingBytes buffered ++
        [.responseContentReceived total ((r.data.readBuffer ++ r.net.bytes.take size).map some)] :=
      fun hmem => (List.mem_append.mp hmem).elim
        (not_mem_recordIncomingBytes (by simp)) (by simp)
    refine .inr ⟨⟨?_, hdelivered, ?_, rfl, ?_⟩, rfl, rfl, by omega⟩
    · exact ⟨h.data.active, h.data.plain, h.data.sized, h.data.length⟩
    · exact fun hmem => (List.mem_append.mp hmem).elim h.quiet hquiet
    · rw [← List.drop_drop, ← hsplit, ← hbuffer, List.drop_left]
      rfl

theorem DelayPending.step (fsm : Fsm) (h : DelayPending body total r) :
    ∃ r', r.step fsm = some r' ∧ ReadPending body total 0 r' := by
  obtain ⟨h, henabled, hop, -⟩ := h
  refine ⟨_, by simp only [Reading.step, hop]; rfl, ?_⟩
  simp only [handleContentReadDelayCallback, h.data.active, henabled, Bool.false_eq_true, if_false,
    if_true]
  refine ⟨⟨?_, ?_, ?_, h.buffer, h.rest⟩, rfl, by omega⟩
  · exact ⟨rfl, h.data.plain, h.data.sized, h.data.length⟩
  · simpa [Reading.proceed] using h.delivered
  · simpa [Reading.proceed] using h.quiet

theorem Phase.step (hbody : body.length < 2 ^ 64) {r' : Reading} (h : Phase body r)
    (hstep : r.step fsm = some r') : Phase body r' := by
  cases h with
  | reading total buffered h =>
    obtain ⟨s, hs, hnext⟩ := h.step fsm hbody
    rw [hs] at hstep
    exact Option.some.inj hstep ▸ hnext.elim .finished (.delayed _)
  | delayed total h =>
    obtain ⟨s, hs, hnext⟩ := h.step fsm
    rw [hs] at hstep
    exact Option.some.inj hstep ▸ .reading total 0 hnext
  | finished h =>
    rw [Reading.step, h.op] at hstep
    cases hstep

/-- The read asks for no more than is missing, in whatever phase. -/
theorem Phase.exact (h : Phase body r) : r.asked ≤ r.net.bytes.length ∧
    Contiguous 0 (deliveries r.log) ∧
    (Output.contentReadEvent ∈ r.log → delivered r.log = body.map some) := by
  cases h with
  | reading total buffered h =>
    have hlen : buffered + r.net.bytes.length = body.length - total := by
      rw [← h.pending.buffer, ← List.length_append, h.pending.rest, List.length_drop]
    have hfits := h.fits
    refine ⟨?_, h.pending.delivered.contiguous, fun hmem => absurd hmem h.pending.quiet⟩
    rw [Reading.asked, h.op]
    dsimp only
    omega
  | delayed total h =>
    refine ⟨?_, h.pending.delivered.contiguous, fun hmem => absurd hmem h.pending.quiet⟩
    rw [Reading.asked, h.op]
    exact Nat.zero_le _
  | finished h =>
    refine ⟨?_, h.delivered.contiguous, fun _ => ?_⟩
    · rw [Reading.asked, h.op]
      exact Nat.zero_le _
    · rw [h.delivered.bytes, List.take_length]

theorem Finished.ends (h : Finished body r) : Ends (Reading.step fsm) r r :=
  ⟨.refl, by rw [Reading.step, h.op]⟩

theorem DelayPending.ends (fsm : Fsm) (hbody : body.length < 2 ^ 64) (h : DelayPending body total r) :
    ∃ r', Ends (Reading.step fsm) r r' ∧ Finished body r' := by
  -- every round delivers at least a byte
  induction hunread : body.length - total using Nat.strong_induction_on generalizing r total with
  | _ unread ih =>
    have hlt := h.unread
    obtain ⟨s, hs, hread⟩ := h.step fsm
    obtain ⟨t, ht, hnext⟩ := hread.step fsm hbody
    have hreach : Reaches (Reading.step fsm) r t := .head hs (.of_step ht)
    rcases hnext with hfinished | hdelayed
    · exact ⟨t, hreach.ends hfinished.ends, hfinished⟩
    · have hless : body.length - (total + (0 + min (body.length - total) kMaxUnknownReadLength)) <
          unread := by
        have : 0 < kMaxUnknownReadLength := by decide
        omega
      obtain ⟨r', hends, hfinished⟩ := ih _ hless hdelayed rfl
      exact ⟨r', hreach.ends hends, hfinished⟩

theorem ReadPending.ends (fsm : Fsm) (hbody : body.length < 2 ^ 64)
    (h : ReadPending body total buffered r) :
    ∃ r', Ends (Reading.step fsm) r r' ∧ Finished body r' := by
  obtain ⟨s, hs, hfinished | hdelayed⟩ := h.step fsm hbody
  · exact ⟨s, (Reaches.of_step hs).ends hfinished.ends, hfinished⟩
  · obtain ⟨r', hends, hfinished⟩ := hdelayed.ends fsm hbody
    exact ⟨r', (Reaches.of_step hs).ends hends, hfinished⟩

end Runs

/-! ### Entering the state -/

section Entry
variable {fsm : Fsm} {body : List UInt8} {evt : HeadersParsedEvent}
  {net : PacketStream UInt8 IoError}

theorem onEntry_lengthOnly (h : LengthOnly evt.headers) :
    onEntry evt =
      { data := { usingContentLength := true, contentLength := evt.contentLength
                  readBuffer := evt.readBuffer }
        next := some (.contentRead (min evt.contentLength kMaxUnknownReadLength) 0
          evt.readBuffer.length) } := by
  simp [onEntry, h.transfer, h.content, maxReadSize]

/-- For every content, every part of it in the buffer and every way of sending the rest. -/
theorem exactReading_enter_iff (hheaders : LengthOnly evt.headers)
    (hlength : evt.contentLength < 2 ^ 64) (hbody : body.length = evt.contentLength)
    (hbytes : evt.readBuffer ++ net.bytes = body) :
    (ExactReading fsm body (enter evt net) ↔
      evt.readBuffer.length + min evt.contentLength kMaxUnknownReadLength ≤ evt.contentLength) ∧
    (evt.readBuffer.length + min evt.contentLength kMaxUnknownReadLength ≤ evt.contentLength →
      ∃ r, Ends (Reading.step fsm) (enter evt net) r ∧ Output.contentReadEvent ∈ r.log) := by
  have hentry := onEntry_lengthOnly hheaders
  have hread (hle : evt.readBuffer.length + min evt.contentLength kMaxUnknownReadLength ≤
      evt.contentLength) : ReadPending body 0 evt.readBuffer.length (enter evt net) := by
    refine ⟨⟨?_, ?_, ?_, ?_, ?_⟩, ?_, ?_⟩
    all_goals simp only [enter, hentry, hbody, hbytes, Nat.sub_zero]
    · exact ⟨rfl, rfl, rfl, rfl⟩
    · exact ⟨Nat.zero_le _, trivial, by simp [delivered]⟩
    · exact List.not_mem_nil
    · rfl
    · exact hle
  refine ⟨⟨fun h => ?_, fun hle => ?_⟩, fun hle => ?_⟩
  · have hask := h.asks _ .refl
    have hlen := congrArg List.length hbytes
    rw [List.length_append] at hlen
    simp only [Reading.asked, enter, hentry] at hask
    omega
  · have hall : ∀ r, Reaches (Reading.step fsm) (enter evt net) r → Phase body r := fun r hr =>
      hr.invariant (fun _ _ hs hstep => hs.step (by omega) hstep) (.reading 0 _ (hread hle))
    exact ⟨fun r hr => (hall r hr).exact.1, fun r hr => (hall r hr).exact.2.1,
      fun r hr => (hall r hr).exact.2.2⟩
  · obtain ⟨r, hends, hfinished⟩ := (hread hle).ends fsm (by omega)
    exact ⟨r, hends, hfinished.raised⟩

end Entry

/-! ### Five bytes -/

/-- `"hello"`. -/
def hello : List UInt8 := [104, 101, 108, 108, 111]

/-- Five bytes announced, of which the header read has left `buffered` ones in the buffer. -/
def helloHeaders (buffered : ℕ) : HeadersParsedEvent where
  contentLength := 5
  headers := [("content-length", "5")]
  readBuffer := hello.take buffered

theorem lengthOnly_hello (buffered : ℕ) : LengthOnly (helloHeaders buffered).headers :=
  ⟨rfl, rfl⟩

/-- The content in two packets. -/
def helloPackets : PacketStream UInt8 IoError where
  packets := [hello.take 2, hello.drop 2]
  close := none

/-- Nothing left over. -/
theorem exactReading_hello : ExactReading plainFsm hello (enter (helloHeaders 0) helloPackets) :=
  have hbytes : (helloHeaders 0).readBuffer ++ helloPackets.bytes = hello := rfl
  (exactReading_enter_iff (lengthOnly_hello 0) (by decide) rfl hbytes).1.mpr (by decide)

/-- The whole content left over: the reader asks for five bytes more. -/
theorem not_exactReading_leftOver : ¬ ExactReading plainFsm hello
    (enter (helloHeaders 5) { packets := [], close := none }) := by
  intro h
  have hask := h.asks _ .refl
  revert hask
  decide

end MediafireSdk.Http
