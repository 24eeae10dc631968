import MediafireSdk.Http.ReadContent

/-! Reading the headers of a response (`state_read_headers.hpp`). The handler gets what
`async_read_until` has put into the buffer and the end of the first empty line in it, and
parses the buffer as a stream. Texts are strings, one character for each byte. What the
bandwidth analyser is told is left out. -/

namespace MediafireSdk.Http

open Streams Utils

/-! ### Events -/

/-- `http_error`. -/
inductive HttpErrorCode where
  | invalidUrl | invalidRedirectUrl | redirectPermissionDenied | unableToResolve
  | unableToConnect | unableToConnectToProxy | proxyProtocolFailure | sslHandshakeFailure
  | writeFailure | readFailure | compressionFailure | unparsableHeaders | unsupportedEncoding
  | postInterfaceReadFailure | cancelled | ioTimeout
  deriving DecidableEq, Repr

/-- `std::error_code`, of the category `http_category()` or another one. -/
inductive ErrorCode where
  | http (code : HttpErrorCode)
  | other (category : String) (value : ℤ)
  deriving DecidableEq, Repr

structure ErrorEvent where
  code : ErrorCode
  description : String
  deriving DecidableEq, Repr

structure HeadersReadEvent where
  rawHeaders : String
  httpVersion : String
  statusCode : ℕ
  statusMessage : String
  contentLength : ℕ
  headers : Headers
  readBuffer : List UInt8
  deriving DecidableEq, Repr

/-! ### Reading from a stream

Each function gives what it reads and what is left; `none` when the stream fails. At the end of
the buffer every one of them fails. -/

def isDigit (c : UInt8) : Bool := 48 ≤ c && c ≤ 57

/-- `>>` to a string. -/
def readWord (buffer : List UInt8) : Option (List UInt8 × List UInt8) :=
  let text := buffer.dropWhile isSpace
  if text = [] then none
  else some (text.takeWhile (!isSpace ·), text.dropWhile (!isSpace ·))

def digitsValue (digits : List UInt8) : ℕ :=
  digits.foldl (fun value c => value * 10 + (c.toNat - 48)) 0

/-- Without the sign in front. -/
def dropSign : List UInt8 → List UInt8
  | [] => []
  | c :: cs => if c = 45 ∨ c = 43 then cs else c :: cs

/-- `>>` to an unsigned integer; a minus sign negates the number modulo its range. -/
def readUint (bits : ℕ) (buffer : List UInt8) : Option (ℕ × List UInt8) :=
  let text := buffer.dropWhile isSpace
  let digits := (dropSign text).takeWhile isDigit
  let value := digitsValue digits
  if digits = [] ∨ 2 ^ bits ≤ value then none
  else some (if text.head? = some 45 then (2 ^ bits - value) % 2 ^ bits else value,
    (dropSign text).dropWhile isDigit)

/-- `std::getline`. -/
def readLine (buffer : List UInt8) : Option (List UInt8 × List UInt8) :=
  if buffer = [] then none else some (getline buffer)

structure StatusLine where
  httpVersion : List UInt8
  statusCode : ℕ
  statusMessage : List UInt8
  deriving DecidableEq, Repr

/-- The first line of a response, with a status of so many bits. -/
def readStatusLine (bits : ℕ) (buffer : List UInt8) : Option (StatusLine × List UInt8) := do
  let (httpVersion, buffer) ← readWord buffer
  let (statusCode, buffer) ← readUint bits buffer
  let (statusMessage, buffer) ← readLine buffer
  return ({ httpVersion, statusCode, statusMessage }, buffer)

theorem length_getline_lt {buffer : List UInt8} (h : buffer ≠ []) :
    (getline buffer).2.length < buffer.length := by
  have hle := (List.dropWhile_suffix (l := buffer) fun b : UInt8 => decide (b ≠ 10)).length_le
  have hpos := List.length_pos_iff.mpr h
  rw [getline, List.length_tail]
  omega

/-- The lines before the first that is a carriage return only, and what is behind that. -/
def headerLines (buffer : List UInt8) : List (List UInt8) × List UInt8 :=
  if buffer = [] then ([], [])
  else if (getline buffer).1 = [13] then ([], (getline buffer).2)
  else
    let more := headerLines (getline buffer).2
    ((getline buffer).1 :: more.1, more.2)
  termination_by buffer.length
  decreasing_by exact length_getline_lt ‹_›

/-! ### Parsing the lines -/

def trimRightBytes (line : List UInt8) : List UInt8 := (line.reverse.dropWhile isSpace).reverse

def trimBytes (line : List UInt8) : List UInt8 := trimRightBytes (line.dropWhile isSpace)

def toLower (c : UInt8) : UInt8 := if 65 ≤ c ∧ c ≤ 90 then c + 32 else c

/-- The headers so far, and the name that a continuation line belongs to. -/
structure ParsedLines where
  headers : Headers := []
  lastHeaderName : String := ""
  deriving DecidableEq, Repr

/-- `std::map::emplace`, which keeps a value that is there. -/
def emplace (headers : Headers) (name value : String) : Headers :=
  if (headers.lookup name).isSome then headers else headers ++ [(name, value)]

/-- One line of the loop; `none` for a continuation of nothing. -/
def headerLine (parsed : ParsedLines) (line : List UInt8) : Option ParsedLines :=
  let line := trimRightBytes line
  if line = [] then some parsed
  else if line.head? = some 32 ∨ line.head? = some 9 then
    if parsed.lastHeaderName = "" then none
    else some { parsed with
      headers := parsed.headers.map fun (name, value) =>
        if name = parsed.lastHeaderName then
          (name, value ++ " " ++ bytesToString (trimBytes line))
        else (name, value) }
  else if 58 ∈ line then
    let name := bytesToString ((trimBytes (line.takeWhile (· ≠ 58))).map toLower)
    let value := bytesToString (trimBytes (line.dropWhile (· ≠ 58)).tail)
    some { headers := emplace parsed.headers name value, lastHeaderName := name }
  else some parsed

/-- `boost::lexical_cast<uint64_t>`. -/
def lexicalCastUint64 (text : String) : Option ℕ :=
  let chars := text.toList
  let negative := chars.head? = some '-'
  let digits := if negative ∨ chars.head? = some '+' then chars.tail else chars
  let value := digits.foldl (fun value c => value * 10 + (c.toNat - 48)) 0
  if digits = [] ∨ digits.all Char.isDigit = false ∨ 2 ^ 64 ≤ value then none
  else some (if negative then (2 ^ 64 - value) % 2 ^ 64 else value)

/-! ### The handler -/

section Handler
variable (url : String)

def protocolError : ErrorEvent where
  code := .http .unparsableHeaders
  description := "Protocol error while parsing headers(" ++ url ++ ")."

def badlyFormattedError : ErrorEvent where
  code := .http .unparsableHeaders
  description := "Failure while reading headers url(" ++ url ++ "). Badly formatted headers."

def contentLengthError (value : String) : ErrorEvent where
  code := .http .unparsableHeaders
  description := "Failure while parsing headers url(" ++ url ++ "). Invalid Content-Length: "
    ++ value

def headersReadError (err : IoError) : ErrorEvent where
  code := .http .readFailure
  description := "Failure while reading headers url(" ++ url ++ "). Error: " ++ err.message

/-- The number of the header `content-length`, zero without it. -/
def parseContentLength (headers : Headers) : Except ErrorEvent ℕ :=
  match headers.lookup "content-length" with
  | none => .ok 0
  | some value =>
    match lexicalCastUint64 value with
    | none => .error (contentLengthError url value)
    | some contentLength => .ok contentLength

/-- What the lines say; the length is checked when all of them are read. -/
def parseLines (lines : List (List UInt8)) : Except ErrorEvent (Headers × ℕ) :=
  match lines.foldlM headerLine {} with
  | none => .error (badlyFormattedError url)
  | some parsed => do return (parsed.headers, ← parseContentLength url parsed.headers)

/-- `"HTTP/"`, with which the version has to begin. -/
def isHttpVersion (version : List UInt8) : Bool := version.take 5 = [72, 84, 84, 80, 47]

/-- The event of a handler that is neither cancelled nor late. -/
def handleHeaderRead (readBuffer : List UInt8) (bytesTransferred : ℕ) (err : Option IoError) :
    Except ErrorEvent HeadersReadEvent :=
  match err with
  | some err => .error (headersReadError url err)
  | none =>
    match readStatusLine 16 readBuffer with
    | none => .error (protocolError url)
    | some (status, buffer) =>
      if isHttpVersion status.httpVersion then do
        let (headers, contentLength) ← parseLines url (headerLines buffer).1
        return {
          rawHeaders := bytesToString (readBuffer.take bytesTransferred)
          httpVersion := bytesToString status.httpVersion
          statusCode := status.statusCode
          statusMessage := bytesToString status.statusMessage
          contentLength := contentLength
          headers := headers
          readBuffer := (headerLines buffer).2 }
      else .error (protocolError url)

/-- `"\r\n\r\n"`. -/
def emptyLine : List UInt8 := [13, 10, 13, 10]

/-- The end of the first empty line. -/
def headersEnd : List UInt8 → Option ℕ
  | [] => none
  | c :: bytes =>
    if emptyLine.isPrefixOf (c :: bytes) then some 4 else (headersEnd bytes).map (· + 1)

def hasHeadersEnd (buffer : List UInt8) : Bool := (headersEnd buffer).isSome

/-- The event of a read that has completed. -/
def headersRead (read : Read UInt8 IoError) : Except ErrorEvent HeadersReadEvent :=
  handleHeaderRead url read.received
    (if read.error.isSome then 0 else (headersEnd read.received).getD 0) read.error

end Handler

end MediafireSdk.Http
