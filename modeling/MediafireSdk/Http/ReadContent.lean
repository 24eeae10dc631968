import MediafireSdk.Lib.Steps
import MediafireSdk.Lib.Streams
import MediafireSdk.Lib.Words
import MediafireSdk.Utils.Strings

/-! Reading the content of a response (`state_read_content.hpp`). A handler takes the
state's data and the completion of the read before it, and gives the data after it,
what it tells the callback and the state machine, and the operation it starts. Every
read completes on the peer's packets and its way of closing the connection. Texts are
strings, the bytes of a header or a chunk line one character each; memory is unbounded
and no operation times out. -/

namespace MediafireSdk.Http

open Streams Words Utils

def kMaxUnknownReadLength : ℕ := 1024 * 8

/-! ### Encodings -/

/-- `TransferEncoding`, a set of flags. -/
structure TransferEncoding where
  unknown : Bool := false
  contentLength : Bool := false
  chunked : Bool := false
  gzip : Bool := false
  deriving DecidableEq, Repr

/-- `ContentEncoding`, a set of flags. -/
structure ContentEncoding where
  unknown : Bool := false
  gzip : Bool := false
  deriving DecidableEq, Repr

/-- The header names are in lower case. -/
abbrev Headers := List (String × String)

def isSpaceChar (c : Char) : Bool := c = ' ' || (9 ≤ c.toNat && c.toNat ≤ 13)

def trim (token : List Char) : List Char :=
  ((token.dropWhile isSpaceChar).reverse.dropWhile isSpaceChar).reverse

/-- The parts between commas, without the blanks around them. -/
def tokens (value : String) : List String :=
  (value.toList.splitOn ',').map fun token => String.ofList (trim token)

def parseTransferEncoding (headers : Headers) : TransferEncoding :=
  let ret : TransferEncoding :=
    if (headers.lookup "content-length").isSome then { contentLength := true } else {}
  match headers.lookup "transfer-encoding" with
  | none => ret
  | some value => (tokens value).foldl (fun ret token =>
      if token = "chunked" then { ret with chunked := true }
      else if token = "gzip" then { ret with gzip := true }
      else { ret with unknown := true }) ret

def parseContentEncoding (headers : Headers) : ContentEncoding :=
  match headers.lookup "content-encoding" with
  | none => {}
  | some value => (tokens value).foldl (fun ret token =>
      if token = "gzip" then { ret with gzip := true } else { ret with unknown := true }) {}

/-! ### The state machine around the state -/

/-- The error codes of a read. -/
inductive IoError where
  | eof
  | sslShortRead (message : String)
  | other (message : String)
  deriving DecidableEq, Repr

def IoError.message : IoError → String
  | .eof => "End of file"
  | .sslShortRead message => message
  | .other message => message

inductive HttpError where
  | readFailure | unsupportedEncoding | compressionFailure
  deriving DecidableEq, Repr

/-- `gzip_error::error()`. -/
inductive GzipErrorCode where
  | zlibError | badCrc | badLength | badHeader | badFooter
  | other (code : ℤ)
  deriving DecidableEq, Repr

def GzipErrorCode.text : GzipErrorCode → String
  | .zlibError => "zlib_error"
  | .badCrc => "bad_crc"
  | .badLength => "bad_length"
  | .badHeader => "bad_header"
  | .badFooter => "bad_footer"
  | .other code => toString code

/-- What the decompressor throws. -/
inductive GunzipError where
  | gzipError (what : String) (error : GzipErrorCode) (zlibErrorCode : ℤ)
  | exception (what : String)
  deriving DecidableEq, Repr

def GunzipError.what : GunzipError → String
  | .gzipError what _ _ => what
  | .exception what => what

/-- What the state reads of its state machine, and the decompressor. -/
structure Fsm where
  url : String
  isSsl : Bool
  bwAnalyser : Bool
  gunzip : List UInt8 → Except GunzipError (List UInt8)

/-- Bytes that a handler passes on; `none` was never written. -/
abbrev Buffer := List (Option UInt8)

inductive Output where
  | recordIncomingBytes (bytes : ℕ)
  | responseContentReceived (startPos : ℕ) (buffer : Buffer)
  | contentReadEvent
  | errorEvent (code : HttpError) (description : String)
  deriving DecidableEq, Repr

structure ReadContentData where
  cancelled : Bool := false
  contentLength : ℕ := 0
  readBuffer : List UInt8 := []
  gzippedBuffer : List UInt8 := []
  filterBufConsumed : ℕ := 0
  usingGzip : Bool := false
  usingContentLength : Bool := false
  /-- A member of the state machine. -/
  transmissionDelayTimerEnabled : Bool := false
  deriving DecidableEq, Repr

/-- A pending operation, with what its handler has bound. -/
inductive AsyncOp where
  | contentRead (size totalPreviouslyRead bytesPreviouslyTransferred : ℕ)
  | contentReadDelay (maxReadSize totalRead : ℕ)
  | chunkRead (leftToRead outputBytesConsumed chunkSize : ℕ)
  | chunkSizeReadDelay (leftToRead outputBytesConsumed chunkSize : ℕ)
  | chunkSizeRead (outputBytesConsumed : ℕ)
  deriving DecidableEq, Repr

structure Outcome where
  data : ReadContentData
  outputs : List Output := []
  next : Option AsyncOp := none
  deriving DecidableEq, Repr

namespace ReadContentData

/-- `on_exit`. -/
def onExit (d : ReadContentData) : ReadContentData := { d with cancelled := true }

/-- What a read has put into the buffer. -/
def receive (d : ReadContentData) (received : List UInt8) : ReadContentData :=
  { d with readBuffer := d.readBuffer ++ received }

/-- An event that leaves the state. -/
def finish (d : ReadContentData) (outputs : List Output) (event : Output) : Outcome :=
  { data := d.onExit, outputs := outputs ++ [event] }

end ReadContentData

namespace Fsm

variable (fsm : Fsm)

def recordIncomingBytes (bytes : ℕ) : List Output :=
  if fsm.bwAnalyser then [.recordIncomingBytes bytes] else []

/-- The errors that the two content handlers take for the end of the content. -/
def isEof (err : Option IoError) : Bool :=
  match err with
  | some .eof => true
  | some (.sslShortRead _) => fsm.isSsl
  | _ => false

/-- The error of a read that failed. -/
def readError (text : String) (err : Option IoError) : Output :=
  .errorEvent .readFailure
    (text ++ " Url: " ++ fsm.url ++ " Error: " ++ (err.map IoError.message).getD "Success")

end Fsm

/-- A plain connection without a bandwidth analyser; the decompressor is never called. -/
def plainFsm : Fsm where
  url := "http://www.mediafire.com/"
  isSsl := false
  bwAnalyser := false
  gunzip _ := .error (.exception "unused")

/-- `istream::read` into a new array of `size` bytes. -/
def readArray (size : ℕ) (buffer : List UInt8) : Buffer :=
  (buffer.take size).map some ++ List.replicate (size - buffer.length) none

/-- Non gzip buffer passing. -/
def passBuffer (d : ReadContentData) (startPos size : ℕ) : List Output :=
  if d.usingGzip then [] else [.responseContentReceived startPos (readArray size d.readBuffer)]

/-! ### Content with a length, or up to the end of the connection -/

section Content
variable (fsm : Fsm)

def exceededError (d : ReadContentData) (totalRead : ℕ) : Output :=
  .errorEvent .readFailure ("Failure while reading content." ++ " Url: " ++ fsm.url
    ++ " Error: Exceeded content length." ++ " Total read: " ++ toString totalRead
    ++ " Content length: " ++ toString d.contentLength)

/-- The end of the content; a compressed one is passed on only here. -/
def handleContentComplete (d : ReadContentData) (outputs : List Output) : Outcome :=
  if d.usingGzip then
    match fsm.gunzip d.readBuffer with
    | .error err => { d with readBuffer := [] }.finish outputs
        (.errorEvent .readFailure ("Compression failure." ++ " Error: " ++ err.what))
    | .ok bytes =>
      { d with
        readBuffer := []
        filterBufConsumed := d.filterBufConsumed + bytes.length }.finish
        (outputs ++ [Output.responseContentReceived d.filterBufConsumed (bytes.map some)])
        .contentReadEvent
  else d.finish outputs .contentReadEvent

def maxReadSize (d : ReadContentData) (totalRead : ℕ) : ℕ :=
  if d.usingContentLength then min (d.contentLength - totalRead) kMaxUnknownReadLength
  else kMaxUnknownReadLength

def handleContentRead (d : ReadContentData)
    (totalPreviouslyRead bytesPreviouslyTransferred bytesTransferred : ℕ)
    (err : Option IoError) : Outcome :=
  if d.cancelled then { data := d }
  else
    let bytesToProcess := trunc 64 (bytesPreviouslyTransferred + bytesTransferred)
    let records := fsm.recordIncomingBytes bytesPreviouslyTransferred
    if err = none ∨ fsm.isEof err then
      let totalRead := trunc 64 (totalPreviouslyRead + bytesToProcess)
      let outputs := records ++ passBuffer d totalPreviouslyRead bytesToProcess
      let d := if d.usingGzip then d else
        { d with readBuffer := d.readBuffer.drop bytesToProcess }
      if d.usingContentLength ∧ d.contentLength < totalRead then
        d.finish outputs (exceededError fsm d totalRead)
      else if (d.usingContentLength ∧ d.contentLength = totalRead) ∨
          (d.usingContentLength = false ∧ fsm.isEof err) then
        handleContentComplete fsm d outputs
      else
        { data := { d with transmissionDelayTimerEnabled := true }
          outputs := outputs
          next := some (.contentReadDelay (maxReadSize d totalRead) totalRead) }
    else d.finish records (fsm.readError "Failure while reading content." err)

end Content

def handleContentReadDelayCallback (d : ReadContentData) (maxReadSize totalRead : ℕ) : Outcome :=
  if d.cancelled then { data := d }
  else if d.transmissionDelayTimerEnabled then
    { data := { d with transmissionDelayTimerEnabled := false }
      next := some (.contentRead maxReadSize totalRead 0) }
  else { data := d }

/-! ### Chunked content -/

section Chunked
variable (fsm : Fsm)

def handleContentChunkRead (d : ReadContentData) (outputBytesConsumed chunkSize : ℕ)
    (bytesTransferred : ℕ) (err : Option IoError) : Outcome :=
  if d.cancelled then { data := d }
  else
    let records := fsm.recordIncomingBytes bytesTransferred
    if err = none ∨ fsm.isEof err then
      let rest := d.readBuffer.drop chunkSize
      let d := if d.usingGzip then
        { d with gzippedBuffer := d.gzippedBuffer ++ d.readBuffer.take chunkSize } else d
      { data := { d with readBuffer := rest.drop 2 }
        outputs := records ++ passBuffer d outputBytesConsumed chunkSize
        next := some (.chunkSizeRead (trunc 64 (outputBytesConsumed + chunkSize))) }
    else d.finish records (fsm.readError "Failure while reading chunked content." err)

def handleContentChunkSizeReadDelay (d : ReadContentData)
    (leftToRead outputBytesConsumed chunkSize : ℕ) : Outcome :=
  if d.cancelled then { data := d }
  else if d.transmissionDelayTimerEnabled then
    { data := d, next := some (.chunkRead leftToRead outputBytesConsumed chunkSize) }
  else { data := d }

def handleNextChunk (d : ReadContentData) (outputs : List Output)
    (outputBytesConsumed chunkSize : ℕ) : Outcome :=
  let leftToRead := trunc 64 (chunkSize + 2)
  let leftToRead := if leftToRead < d.readBuffer.length then 0
    else leftToRead - d.readBuffer.length
  { data := { d with transmissionDelayTimerEnabled := true }
    outputs := outputs
    next := some (.chunkSizeReadDelay leftToRead outputBytesConsumed chunkSize) }

/-- The two `catch` blocks around the decompression. -/
def compressionError : GunzipError → Output
  | .gzipError what error zlibErrorCode => .errorEvent .compressionFailure
      ("Compression failure." ++ " Error: " ++ what ++ " GZip error: " ++ error.text
        ++ " Zlib error: " ++ toString zlibErrorCode)
  | .exception what =>
      .errorEvent .compressionFailure ("Compression failure." ++ " Error: " ++ what)

def handleCompleteAllChunks (d : ReadContentData) (outputs : List Output) : Outcome :=
  if d.usingGzip then
    match fsm.gunzip d.gzippedBuffer with
    | .error err => { d with gzippedBuffer := [] }.finish outputs (compressionError err)
    | .ok bytes =>
      { d with
        gzippedBuffer := []
        filterBufConsumed := d.filterBufConsumed + bytes.length }.finish
        (outputs ++ [Output.responseContentReceived d.filterBufConsumed (bytes.map some)])
        .contentReadEvent
  else d.finish outputs .contentReadEvent

/-- `std::getline`: the bytes before the first line feed, and what follows it. -/
def getline (buffer : List UInt8) : List UInt8 × List UInt8 :=
  (buffer.takeWhile (· ≠ 10), (buffer.dropWhile (· ≠ 10)).tail)

def bytesToString (bytes : List UInt8) : String :=
  String.ofList (bytes.map fun b => Char.ofNat b.toNat)

def chunkParseError (err : NumberError) (chunkSizeAsHex : List UInt8) : Output :=
  .errorEvent .readFailure ("Failure while parsing chunk: " ++ err.what ++ " Chunk: "
    ++ bytesToString chunkSizeAsHex)

def handleContentChunkSizeRead (d : ReadContentData) (outputBytesConsumed : ℕ)
    (bytesTransferred : ℕ) (err : Option IoError) : Outcome :=
  if d.cancelled then { data := d }
  else
    let records := fsm.recordIncomingBytes bytesTransferred
    if err = none ∨ err = some .eof then
      let chunkSizeAsHex := (getline d.readBuffer).1
      let d := { d with readBuffer := (getline d.readBuffer).2 }
      match strToUint64 chunkSizeAsHex 16 with
      | .error err => d.finish records (chunkParseError err chunkSizeAsHex)
      | .ok chunkSize =>
        if chunkSize = 0 then handleCompleteAllChunks fsm d records
        else handleNextChunk d records outputBytesConsumed chunkSize
    else d.finish records (fsm.readError "Failure while reading content." err)

end Chunked

/-! ### Runs -/

/-- The end of the first `"\r\n"`. -/
def crlfEnd : List UInt8 → Option ℕ
  | 13 :: 10 :: _ => some 2
  | _ :: bytes => (crlfEnd bytes).map (· + 1)
  | [] => none

def hasCrlf (buffer : List UInt8) : Bool := (crlfEnd buffer).isSome

/-- A reader and its peer. -/
structure Reading where
  data : ReadContentData
  op : Option AsyncOp
  net : PacketStream UInt8 IoError
  log : List Output

namespace Reading

def proceed (r : Reading) (outcome : Outcome) (net : PacketStream UInt8 IoError) : Reading :=
  { data := outcome.data, op := outcome.next, net := net, log := r.log ++ outcome.outputs }

/-- The pending operation completes and its handler runs. -/
def step (fsm : Fsm) (r : Reading) : Option Reading :=
  match r.op with
  | none => none
  | some (.contentRead size total previously) =>
    (r.net.readExactly size).map fun read =>
      r.proceed (handleContentRead fsm (r.data.receive read.received) total previously
        read.received.length read.error) read.rest
  | some (.contentReadDelay size total) =>
    some (r.proceed (handleContentReadDelayCallback r.data size total) r.net)
  | some (.chunkRead left consumed size) =>
    (r.net.readExactly left).map fun read =>
      r.proceed (handleContentChunkRead fsm (r.data.receive read.received) consumed size
        read.received.length read.error) read.rest
  | some (.chunkSizeReadDelay left consumed size) =>
    some (r.proceed (handleContentChunkSizeReadDelay r.data left consumed size) r.net)
  | some (.chunkSizeRead consumed) =>
    (r.net.readUntil hasCrlf r.data.readBuffer).map fun read =>
      let d := r.data.receive read.received
      let transferred := if read.error.isSome then 0 else (crlfEnd d.readBuffer).getD 0
      r.proceed (handleContentChunkSizeRead fsm d consumed transferred read.error) read.rest

end Reading

/-- `HeadersParsedEvent`. -/
structure HeadersParsedEvent where
  contentLength : ℕ
  headers : Headers
  readBuffer : List UInt8
  deriving DecidableEq, Repr

section Entry
variable (evt : HeadersParsedEvent)

/-- The value of a header after a label, nothing without the header. -/
def HeadersParsedEvent.labelled (label name : String) : String :=
  match evt.headers.lookup name with
  | none => ""
  | some value => label ++ value

def onEntry : Outcome :=
  let transferEncoding := parseTransferEncoding evt.headers
  let contentEncoding := parseContentEncoding evt.headers
  let d : ReadContentData :=
    { usingGzip := transferEncoding.gzip || contentEncoding.gzip
      usingContentLength := transferEncoding.contentLength }
  if transferEncoding.unknown then
    d.finish [] (.errorEvent .unsupportedEncoding ("Unsupported transfer-encoding."
      ++ evt.labelled " Transfer-Encoding: " "transfer-encoding"))
  else if contentEncoding.unknown then
    d.finish [] (.errorEvent .unsupportedEncoding ("Unsupported content-encoding."
      ++ evt.labelled " Content-Encoding: " "content-encoding"))
  else if transferEncoding.chunked ∧ d.usingContentLength then
    d.finish [] (.errorEvent .unsupportedEncoding
      ("Unable to handle chunked encoding and content length."
        ++ " Violates RFC 2616, Section 4.4"
        ++ evt.labelled " Content-Encoding: " "content-encoding"
        ++ evt.labelled " Content-Length: " "content-length"))
  else
    let d := { d with contentLength := evt.contentLength, readBuffer := evt.readBuffer }
    if transferEncoding.chunked then { data := d, next := some (.chunkSizeRead 0) }
    else
      { data := d, next := some (.contentRead (maxReadSize d 0) 0 evt.readBuffer.length) }

/-- The reader after `on_entry`. -/
def enter (net : PacketStream UInt8 IoError) : Reading :=
  { data := (onEntry evt).data, op := (onEntry evt).next, net := net
    log := (onEntry evt).outputs }

end Entry

/-! ### What the callback gets -/

def Output.delivery : Output → Option (ℕ × Buffer)
  | .responseContentReceived startPos buffer => some (startPos, buffer)
  | _ => none

def deliveries (log : List Output) : List (ℕ × Buffer) := log.filterMap Output.delivery

/-- All the bytes delivered, in order. -/
def delivered (log : List Output) : Buffer := (deliveries log).flatMap Prod.snd

/-- Every buffer starts where those before it end. -/
def Contiguous : ℕ → List (ℕ × Buffer) → Prop
  | _, [] => True
  | pos, (startPos, buffer) :: rest => startPos = pos ∧ Contiguous (pos + buffer.length) rest

theorem contiguous_append (pos startPos : ℕ) (xs : List (ℕ × Buffer)) (buffer : Buffer) :
    Contiguous pos (xs ++ [(startPos, buffer)]) ↔
      Contiguous pos xs ∧ startPos = pos + (xs.flatMap Prod.snd).length := by
  induction xs generalizing pos with
  | nil => simp [Contiguous]
  | cons x xs ih =>
    simp only [List.cons_append, Contiguous, ih, List.flatMap_cons, List.length_append, and_assoc,
      Nat.add_assoc]

@[simp] theorem deliveries_append (xs ys : List Output) :
    deliveries (xs ++ ys) = deliveries xs ++ deliveries ys := List.filterMap_append

@[simp] theorem deliveries_nil : deliveries [] = [] := rfl

@[simp] theorem deliveries_recordIncomingBytes (fsm : Fsm) (n : ℕ) :
    deliveries (fsm.recordIncomingBytes n) = [] := by
  unfold Fsm.recordIncomingBytes
  split <;> rfl

theorem not_mem_recordIncomingBytes {fsm : Fsm} {n : ℕ} {event : Output}
    (h : ∀ m, event ≠ .recordIncomingBytes m) : event ∉ fsm.recordIncomingBytes n := by
  unfold Fsm.recordIncomingBytes
  split
  · simpa using h n
  · exact List.not_mem_nil

theorem length_readArray (size : ℕ) (buffer : List UInt8) :
    (readArray size buffer).length = size := by
  simp [readArray]
  omega

/-- Nothing is missing in an array that the buffer fills. -/
theorem readArray_of_le {size : ℕ} {buffer : List UInt8} (h : size ≤ buffer.length) :
    readArray size buffer = (buffer.take size).map some := by
  rw [readArray, Nat.sub_eq_zero_of_le h, List.replicate_zero, List.append_nil]

end MediafireSdk.Http
