import MediafireSdk.Http.Machine

/-! The transition table of a request and the `on_entry` of its states. What a state raises while
it is entered waits in the queue. An `on_exit` does no more than cancel the data of its state. -/

namespace MediafireSdk.Http

open Words

/-! ### The transition table -/

namespace Machine
variable (s : Machine)

/-- The row for an event, its guards evaluated. -/
def row (e : Event) : Option Target :=
  match s.state, e with
  | .unstarted, .start => some .initializing
  | .initializing, .initialized => some .resolve
  | .resolve, .resolved endpoint => some (.connect endpoint)
  | .connect, .connected =>
    some (if s.proxyConnectRequired then .proxyConnect
      else if s.isSsl then .sslHandshake else .sendHeader)
  | .proxyConnect, .connected => some (if s.isSsl then .sslHandshake else .sendHeader)
  | .sslHandshake, .handshake => some .sendHeader
  | .sendHeader, .headersWritten => some (if s.cfg.post.isSome then .sendPost else .readHeaders)
  | .sendPost, .postSent => some .readHeaders
  | .readHeaders, .headersRead evt => some (.parseHeaders evt)
  | .parseHeaders, .headersParsed evt => some (.readContent evt)
  | .parseHeaders, .redirect evt redirectUrl => some (.redirect evt redirectUrl)
  | .redirect, .redirected => some .initializing
  | .readContent, .contentRead => some .complete
  | .error, .restart => some .initializing
  | .error, .error evt => some (.finalError evt)
  | .unstarted, .error _ | .finalError, .error _ | .complete, .error _ => none
  | _, .error evt => some (.error evt)
  | _, _ => none

end Machine

/-! ### Events -/

def HttpError.code : HttpError → ErrorCode
  | .readFailure => .http .readFailure
  | .unsupportedEncoding => .http .unsupportedEncoding
  | .compressionFailure => .http .compressionFailure

/-- The event of an output of the content reader. -/
def Output.event : Output → Option Event
  | .contentReadEvent => some .contentRead
  | .errorEvent code description => some (.error ⟨code.code, description⟩)
  | _ => none

def badUrlError (url : String) : ErrorEvent :=
  ⟨.http .invalidUrl, "Bad url(url:" ++ url ++ " reason: Invalid scheme separator)"⟩

def unsupportedSchemeError (url : String) : ErrorEvent :=
  ⟨.http .invalidUrl, "Unsupported scheme. Url: " ++ url⟩

/-- The error of a redirect that leads nowhere. -/
def badRedirectError (statusCode : ℕ) (url problem : String) : ErrorEvent :=
  ⟨.http .invalidRedirectUrl,
    "Bad " ++ toString statusCode ++ " redirect." ++ " Source URL: " ++ url ++ problem⟩

/-- The error of a redirect that is not followed. -/
def redirectError (code : HttpErrorCode) (target problem url : String) : ErrorEvent :=
  ⟨.http code, "Redirect to " ++ target ++ problem ++ " Source URL: " ++ url⟩

def postReadError (what : String) : ErrorEvent :=
  ⟨.http .postInterfaceReadFailure,
    "Failure to retrieve POST data from interface." ++ " Error: " ++ what⟩

def postSizeError (expected received : ℕ) : ErrorEvent :=
  ⟨.http .postInterfaceReadFailure, "POST data unexpected size." ++ " Expected: "
    ++ toString expected ++ " Received: " ++ toString received⟩

def Event.isError : Event → Bool
  | .error _ => true
  | _ => false

/-- The bytes of a chunk; an exception leaves none. -/
def PipeChunk.bytes : PipeChunk → List UInt8
  | .data bytes => bytes
  | .throws _ => []

/-- `PostDataSize` against what the pipe has given so far. -/
def SendPostData.finish (d : SendPostData) : Event :=
  if d.bytesReadFromInterface = d.postInterfaceSize then .postSent
  else .error (postSizeError d.postInterfaceSize d.bytesReadFromInterface)

/-- What `PostViaInterface` raises for a chunk. -/
def SendPostData.pipeEvents (d : SendPostData) : PipeChunk → List Event
  | .data bytes => if bytes = [] then [d.finish] else []
  | .throws what => [.error (postReadError what), d.finish]

def SendPostData.read (d : SendPostData) (bytes : List UInt8) : SendPostData :=
  { d with bytesReadFromInterface := trunc 64 (d.bytesReadFromInterface + bytes.length) }

namespace Machine
variable (s : Machine)

/-! ### Before the connection -/

/-- `DoInit`. -/
def doInit : Machine :=
  let s := s.disconnect
  match s.parsedUrl.or (Url.parse s.url) with
  | none => s.raiseAll [.error (badUrlError s.url)]
  | some url =>
    let s := { s with parsedUrl := some url }
    if url.scheme = "http" then
      { s with isSsl := false, socket := some {} }.raiseAll [.initialized]
    else if url.scheme = "https" then
      { s with isSsl := true, socket := some {} }.raiseAll [.initialized]
    else s.raiseAll [.error (unsupportedSchemeError s.url)]

/-- Where a URL leads to: to the proxy if there is one. -/
def endpoint (url : Url) : Endpoint :=
  match s.currentProxy with
  | some proxy => { host := proxy.host, port := toString proxy.port, proxy := some proxy }
  | none =>
    { host := url.host, port := if url.port = "" then url.scheme else url.port, proxy := none }

/-- New data, and the first operation for it. -/
def beginAsync (reason : String) (timeoutSeconds : ℕ) (kind : OpKind) : Machine :=
  s.begin.async s.fresh reason timeoutSeconds kind

/-- A request on its way through the socket. -/
def write (request : Request) : Machine :=
  match s.socket with
  | none => s
  | some socket => s.record (.wrote socket.proxy socket.tunnelled request)

def enterResolve (url : Url) : Machine :=
  (s.record (.resolving url)).beginAsync "resolving" kResolvingTimeout (.resolve (s.endpoint url))

/-- The socket connects to the server or to a proxy. -/
@[simps] def setProxy (proxy : Option Proxy) : Machine :=
  { s with socket := s.socket.map fun socket => { socket with proxy := proxy } }

def enterConnect (url : Url) (endpoint : Endpoint) : Machine :=
  ((s.setProxy endpoint.proxy).record (.connecting url)).beginAsync "connect" kConnectTimeout
    .connect

def enterProxyConnect (url : Url) : Machine :=
  (s.write (connectRequest url s.currentProxy)).beginAsync "proxy write request"
    kProxyWriteTimeout .proxyWrite

def enterSslHandshake : Machine :=
  s.beginAsync "ssl handshake" kSslHandshakeTimeout .handshake

/-! ### The request -/

def enterSendHeader (url : Url) : Machine :=
  (s.write (serverRequest s.cfg.requestMethod url s.isSsl s.currentProxy s.cfg.headers)).beginAsync
    "write request header" s.cfg.timeoutSeconds .headerWrite

/-- With a pipe its first chunk is asked for at once, and what the pipe itself calls on the
request comes first. -/
def enterSendPost (answer : Answer) : Machine :=
  match s.cfg.post with
  | none => s.crash
  | some (.data postData) =>
    { (s.record (.wrotePost postData)).beginAsync "write request post" s.cfg.timeoutSeconds
      .postWrite with sendPostData := {} }
  | some (.pipe postDataSize) =>
    let d : SendPostData := { postInterfaceSize := postDataSize }
    let bytes := answer.chunk.bytes
    let s' := { s.begin with sendPostData := d.read bytes }.raiseAll
      (answer.calls.map Call.event ++ d.pipeEvents answer.chunk)
    if bytes = [] then s' else s'.delay s.fresh (.post bytes)

/-! ### The response -/

def enterReadHeaders : Machine :=
  s.beginAsync "read response header" s.cfg.timeoutSeconds .headerRead

/-- What a callback that gets the headers calls, and the event behind it. -/
def headersReceived (entry : Entry) (answer : Answer) (e : Event) : Machine :=
  (s.record entry).raiseAll (s.callbackCalls answer ++ [e])

def enterParseHeaders (evt : HeadersReadEvent) (answer : Answer) : Machine :=
  if evt.statusCode = 301 ∨ evt.statusCode = 302 then
    match evt.headers.lookup "location" with
    | none => s.raiseAll
        [.error (badRedirectError evt.statusCode s.url " Missing \"Location\" header")]
    | some location =>
      match Url.parse location with
      | none => s.raiseAll [.error (badRedirectError evt.statusCode s.url
          (" Invalid redirect url: " ++ location))]
      | some url =>
        s.headersReceived (.redirectHeaderReceived evt url) answer (.redirect evt location)
  else s.headersReceived (.responseHeaderReceived evt) answer
    (.headersParsed
      { contentLength := evt.contentLength, headers := evt.headers, readBuffer := evt.readBuffer })

def enterRedirect (redirectUrl : String) : Machine :=
  match Url.parse redirectUrl with
  | none => s.raiseAll
      [.error (redirectError .invalidRedirectUrl redirectUrl " invalid url." s.url)]
  | some url =>
    if s.cfg.redirectPolicy = .deny then
      s.raiseAll [.error (redirectError .redirectPermissionDenied redirectUrl
        " denied by current policy." s.url)]
    else if s.cfg.redirectPolicy = .denyDowngrade ∧ s.isSsl ∧ url.scheme = "http" then
      s.raiseAll [.error (redirectError .redirectPermissionDenied ("non-SSL " ++ redirectUrl)
        " denied by current policy." s.url)]
    else
      { s with parsedUrl := some url, url := redirectUrl }.disconnect.raiseAll [.redirected]

/-- The reason that a read of the content is guarded with on entry. -/
def firstReason : AsyncOp → String
  | .chunkSizeRead _ => "read response content 1"
  | _ => "read response content 2"

def enterReadContent (evt : HeadersParsedEvent) : Machine :=
  let outcome := onEntry evt
  let s' := { s.begin with readContentData := { outcome.data with cancelled := false } }.raiseAll
    (outcome.outputs.filterMap Output.event)
  match outcome.next with
  | none => s'
  | some op => s'.async s.fresh (firstReason op) s.cfg.timeoutSeconds (.content op)

/-! ### The end -/

/-- The time up to which a request that has timed out is made again. -/
def limit : ℕ := s.requestCreationTime + s.cfg.timeoutSeconds * second

def enterError (evt : ErrorEvent) : Machine :=
  s.disconnect.raiseAll
    [if evt.code = .http .ioTimeout ∧ s.now < s.limit then .restart else .error evt]

def cancelDelays : Machine :=
  if s.transmissionDelayTimerEnabled then
    { s with
      transmissionDelayTimerEnabled := false
      delays := s.delays.map ({ · with cancelled := true }) }
  else s

def enterFinalError (evt : ErrorEvent) (answer : Answer) : Machine :=
  (s.disconnect.cancelDelays.record (.requestResponseErrorEvent evt)).raiseAll
    (s.callbackCalls answer)

def enterComplete (answer : Answer) : Machine :=
  (s.disconnect.record .requestResponseCompleteEvent).raiseAll (s.callbackCalls answer)

/-! ### Transitions -/

/-- The `on_entry` of a state that needs the URL. -/
def withUrl (f : Url → Machine) : Machine :=
  match s.parsedUrl with
  | none => s.crash
  | some url => f url

def enter (t : Target) (answer : Answer) : Machine :=
  match t with
  | .initializing => s.doInit
  | .resolve => s.withUrl s.enterResolve
  | .connect endpoint => s.withUrl fun url => s.enterConnect url endpoint
  | .proxyConnect => s.withUrl s.enterProxyConnect
  | .sslHandshake => s.withUrl fun _ => s.enterSslHandshake
  | .sendHeader => s.withUrl s.enterSendHeader
  | .sendPost => s.enterSendPost answer
  | .readHeaders => s.enterReadHeaders
  | .parseHeaders evt => s.enterParseHeaders evt answer
  | .redirect _ redirectUrl => s.enterRedirect redirectUrl
  | .readContent evt => s.enterReadContent evt
  | .error evt => s.enterError evt
  | .finalError evt => s.enterFinalError evt answer
  | .complete => s.enterComplete answer

/-- The `on_exit` of the source, the target as the state. -/
@[simps] def leave (target : StateName) : Machine :=
  { s with state := target, live := none, log := s.log ++ [.entered s.state target] }

/-- `process_event` outside of a transition. The terminate states take no events. -/
def process (e : Event) (answer : Answer) : Machine :=
  if s.state.isTerminate then s
  else
    match s.row e with
    | none => s.record (.noTransition s.state e)
    | some t => (s.leave t.state).enter t answer

end Machine

end MediafireSdk.Http
