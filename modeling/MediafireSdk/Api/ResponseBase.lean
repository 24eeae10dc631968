import MediafireSdk.Utils.Unicode

/-! The response of an API call (`response_base.cpp`, `ptree_helpers.cpp`), as the content
of an HTTP response initialises it. Strings are bytes, the strings of a property tree are
wide. What the JSON parser and writer do is a parameter, and so is the converter of strings;
a conversion that fails throws. -/

namespace MediafireSdk.Api

open Utils

/-- `std::string`. -/
abbrev Bytes := List UInt8

/-! ### Property trees -/

/-- `boost::property_tree::wptree`, with its children in the order of the document. -/
inductive PTree where
  | node (data : WString) (children : List (WString × PTree))

namespace PTree

def data : PTree → WString
  | node data _ => data

def children : PTree → List (WString × PTree)
  | node _ children => children

/-- A path is the list of its keys; of children with the same key it takes the first. -/
def getChildOptional : PTree → List String → Option PTree
  | pt, [] => some pt
  | pt, key :: path => do
    let child ← pt.children.lookup (wide key)
    child.getChildOptional path

def getOptional (pt : PTree) (path : List String) : Option WString :=
  (pt.getChildOptional path).map data

end PTree

def isSpaceWide (c : UInt32) : Bool := c = 32 || (9 ≤ c && c ≤ 13)

def isDigitWide (c : UInt32) : Bool := 48 ≤ c && c ≤ 57

/-- The translator of the property tree to `int32_t`: nothing but white space stands around
the number, and it has to fit. -/
def int32OfWide (text : WString) : Option ℤ :=
  let text := text.dropWhile isSpaceWide
  let negative := text.head? = some 45
  let text := if negative ∨ text.head? = some 43 then text.tail else text
  let digits := text.takeWhile isDigitWide
  let rest := (text.dropWhile isDigitWide).dropWhile isSpaceWide
  let number : ℕ := digits.foldl (fun number c => number * 10 + (c.toNat - 48)) 0
  let value : ℤ := if negative then -number else number
  if digits = [] ∨ rest ≠ [] then none
  else if -2 ^ 31 ≤ value ∧ value < 2 ^ 31 then some value
  else none

/-- `GetIfExists` for `int32_t`. -/
def getInt32IfExists (pt : PTree) (path : List String) : Option ℤ :=
  (pt.getOptional path).bind int32OfWide

/-- `GetIfExists` for `std::string`, which takes no empty string. -/
def getStringIfExists (converter : WstringConvert) (pt : PTree) (path : List String) :
    Except RangeError (Option Bytes) :=
  match pt.getOptional path with
  | none | some [] => pure none
  | some result => some <$> wideToBytes converter result

def toUpper (c : UInt8) : UInt8 := if 97 ≤ c ∧ c ≤ 122 then c - 32 else c

def iequals (left right : Bytes) : Bool := left.map toUpper = right.map toUpper

def propertyHasValueCaseInsensitive (converter : WstringConvert) (pt : PTree) (path : List String)
    (value : Bytes) : Except RangeError Bool :=
  match pt.getOptional path with
  | none => pure false
  | some result => do return iequals (← wideToBytes converter result) value

/-- `boost::property_tree::json_parser_error`. -/
structure JsonParserError where
  what : Bytes

/-- `read_json` and `write_json`. -/
structure Json where
  readJson : WString → Except JsonParserError PTree
  writeJson : PTree → Except JsonParserError WString

/-! ### Error codes -/

inductive ErrorCategory where
  | system | api | httpStatus | result
  deriving DecidableEq, Repr

/-- `std::error_code`. -/
structure StdErrorCode where
  value : ℤ := 0
  category : ErrorCategory := .system
  deriving DecidableEq, Repr

namespace StdErrorCode

/-- Its conversion to `bool`. -/
def isError (code : StdErrorCode) : Bool := code.value ≠ 0

def unknownApiError : StdErrorCode := ⟨1, .api⟩

def contentInvalidFormat : StdErrorCode := ⟨3, .api⟩

def message : StdErrorCode → String
  | ⟨1, .api⟩ => "unknown api error"
  | ⟨2, .api⟩ => "content invalid data"
  | ⟨3, .api⟩ => "content invalid format"
  | ⟨4, .api⟩ => "session token unavailable timeout"
  | ⟨5, .api⟩ => "connection unavailable timeout"
  | ⟨400, .httpStatus⟩ => "bad request"
  | ⟨403, .httpStatus⟩ => "forbidden"
  | ⟨404, .httpStatus⟩ => "not found"
  | ⟨500, .httpStatus⟩ => "internal server error"
  | ⟨900, .httpStatus⟩ => "api internal server error"
  | ⟨105, .result⟩ => "session token invalid"
  | ⟨107, .result⟩ => "credentials invalid"
  | ⟨127, .result⟩ => "signature invalid"
  | ⟨208, .result⟩ => "async operation in progress"
  | ⟨value, .result⟩ => "API result code: " ++ toString value
  | ⟨value, _⟩ => "Unknown error: " ++ toString value

end StdErrorCode

/-! ### The response -/

/-- `mf::http::Headers`. -/
structure HttpHeaders where
  rawHeaders : Bytes := []
  statusCode : UInt16
  statusMessage : Bytes := []
  headers : List (Bytes × Bytes) := []

structure ResponseBase where
  errorCode : StdErrorCode := {}
  errorString : Option Bytes := none
  apiErrorString : Option Bytes := none
  plaintext : Bytes := []
  pt : PTree := .node [] []
  url : Bytes := []
  debug : Bytes := []

namespace ResponseBase

section

variable (converter : WstringConvert)

/-- The `try` block of `InitializeWithContent`, with `parsing_success`. The tree stays as it was
when it was read but cannot be written. -/
def parseContent (json : Json) (self : ResponseBase) (content : WString) :
    Except RangeError (Bool × ResponseBase) :=
  match json.readJson content with
  | .error err => pure (false,
      { self with errorCode := .contentInvalidFormat, errorString := some err.what })
  | .ok pt =>
    match json.writeJson pt with
    | .error err => pure (true,
        { self with pt := pt, errorCode := .contentInvalidFormat, errorString := some err.what })
    | .ok text => do
      let debug := self.debug ++ bytes "Formatted JSON: " ++ (← wideToBytes converter text)
      return (true, { self with
        pt := pt
        debug := if debug.getLast? = some 10 then debug else debug ++ bytes "\n" })

/-- The texts of an error, from the action and the message of the server. -/
def describeError (self : ResponseBase) (noMessage : String) :
    Except RangeError ResponseBase := do
  let apiAction := (← getStringIfExists converter self.pt ["response", "action"]).getD []
  let describe (text : Bytes) : Option Bytes :=
    some (if apiAction = [] then text else apiAction ++ bytes ": " ++ text)
  match ← getStringIfExists converter self.pt ["response", "message"] with
  | some apiMessage =>
    return { self with errorString := describe apiMessage, apiErrorString := some apiMessage }
  | none => return { self with errorString := describe (bytes noMessage) }

/-- The branch for a status other than 200. -/
def badStatus (self : ResponseBase) (statusCode : UInt16) (parsingSuccess : Bool) :
    Except RangeError ResponseBase := do
  let self := { self with errorCode := ⟨statusCode.toNat, .httpStatus⟩ }
  if parsingSuccess then
    let self ← describeError converter self
      "API returned bad HTTP status and no error message."
    match getInt32IfExists self.pt ["response", "error"] with
    | some apiCode => return { self with errorCode := ⟨apiCode, .result⟩ }
    | none => return self
  else
    return { self with errorString := some (bytes self.errorCode.message) }

/-- The branch for status 200 and content that was parsed. -/
def checkResult (self : ResponseBase) : Except RangeError ResponseBase := do
  if ← propertyHasValueCaseInsensitive converter self.pt ["response", "result"]
      (bytes "success") then
    return self
  else
    let errorCode := match getInt32IfExists self.pt ["response", "error"] with
      | some apiCode => ⟨apiCode, .result⟩
      | none => .unknownApiError
    describeError converter { self with errorCode }
      "API returned bad result and no error message."

/-- The lines about errors at the end of `debug`. -/
def recordError (self : ResponseBase) : ResponseBase :=
  let debug := if self.errorCode.isError then
      self.debug ++ bytes "Error: " ++ bytes self.errorCode.message ++ bytes "\n"
    else self.debug
  match self.errorString with
  | some text => { self with debug := debug ++ bytes "Error text: " ++ text ++ bytes "\n" }
  | none => { self with debug }

/-- The error code and the texts, from the status and the tree. -/
def checkErrors (self : ResponseBase) (statusCode : UInt16) (parsingSuccess : Bool) :
    Except RangeError ResponseBase :=
  if statusCode ≠ 200 then badStatus converter self statusCode parsingSuccess
  else if parsingSuccess then checkResult converter self
  else pure self

def initializeWithContent (json : Json) (self : ResponseBase) (requestUrl debugPassthru : Bytes)
    (headers : HttpHeaders) (content : Bytes) : Except RangeError ResponseBase := do
  let self := { self with
    url := requestUrl
    plaintext := content
    debug := self.debug ++ bytes "Url: " ++ requestUrl ++ bytes "\n" ++ debugPassthru ++
      bytes "Plaintext: " ++ content ++ bytes "\n" }
  let contentWstr ← bytesToWide converter content
  let (parsingSuccess, self) ← parseContent converter json self contentWstr
  let self ← checkErrors converter self headers.statusCode parsingSuccess
  return self.recordError

/-- `ApiBase::HandleContent`: what the callback gets. `parseResponse` is the class's own. -/
def handleContent (json : Json) (parseResponse : ResponseBase → ResponseBase)
    (url debugText : Bytes) (headers : HttpHeaders) (content : Bytes) :
    Except RangeError ResponseBase := do
  let response ← initializeWithContent converter json {} url debugText headers content
  if response.errorCode.isError then
    return response
  else
    let response := parseResponse response
    return if response.errorCode.isError then response.recordError else response

end

/-! ### What each part does with the error code -/

theorem exists_bind_ok {α β : Type} {x : Except RangeError α} {f : α → Except RangeError β}
    {P : β → Prop} :
    (∃ b, (x >>= f) = .ok b ∧ P b) ↔ ∃ a, x = .ok a ∧ ∃ b, f a = .ok b ∧ P b := by
  cases x <;> simp [bind, Except.bind]

@[simp] theorem recordError_errorCode (self : ResponseBase) :
    self.recordError.errorCode = self.errorCode := by
  unfold recordError
  cases self.errorString <;> rfl

/-- The string at a path, when there is one, converts to bytes. -/
def ConvertsAt (converter : WstringConvert) (pt : PTree) (path : List String) : Prop :=
  ∀ text ∈ pt.getOptional path, Converts converter text

/-- The texts of the server convert. -/
def DescribesError (converter : WstringConvert) (pt : PTree) : Prop :=
  ConvertsAt converter pt ["response", "action"] ∧ ConvertsAt converter pt ["response", "message"]

/-- `response.result` is a text that says `success`, in letters of either case. -/
def SaysSuccess (pt : PTree) : Prop :=
  ∃ chars, pt.getOptional ["response", "result"] = some (utf16 chars) ∧
    iequals (utf8 chars) (bytes "success")

/-- `response.result` converts to `success`, in letters of either case. -/
def TakenForSuccess (converter : WstringConvert) (pt : PTree) : Prop :=
  ∃ result ∈ pt.getOptional ["response", "result"], ∃ text,
    wideToBytes converter result = .ok text ∧ iequals text (bytes "success")

/-- The number at `response.error`. -/
def errorNumber (pt : PTree) : Option ℤ := getInt32IfExists pt ["response", "error"]

section
variable {converter : WstringConvert} {json : Json} {self : ResponseBase} {pt : PTree}

theorem SaysSuccess.takenForSuccess (h : SaysSuccess pt) : TakenForSuccess converter pt := by
  obtain ⟨chars, hresult, hsays⟩ := h
  exact ⟨utf16 chars, hresult, utf8 chars, wideToBytes_utf16 converter chars, hsays⟩

/-- A result that is well formed is taken for what it says. -/
theorem takenForSuccess_iff (h : ∀ result ∈ pt.getOptional ["response", "result"],
    ValidUtf16 result) : TakenForSuccess converter pt ↔ SaysSuccess pt := by
  refine ⟨?_, SaysSuccess.takenForSuccess⟩
  rintro ⟨result, hresult, text, htext, hsays⟩
  obtain ⟨chars, rfl⟩ := h result hresult
  rw [wideToBytes_utf16, Except.ok.injEq] at htext
  exact ⟨chars, hresult, htext ▸ hsays⟩

theorem exists_getStringIfExists_iff {path : List String} :
    (∃ text, getStringIfExists converter pt path = .ok text) ↔ ConvertsAt converter pt path := by
  unfold ConvertsAt getStringIfExists
  cases pt.getOptional path with
  | none => simp [pure, Except.pure]
  | some result =>
    cases result with
    | nil => simp [pure, Except.pure, validUtf16_nil.converts converter]
    | cons c cs =>
      simp only [Option.mem_some_iff, forall_eq', Converts]
      cases wideToBytes converter (c :: cs) <;> simp

theorem describeError_spec {out : ResponseBase} {noMessage : String}
    (h : describeError converter self noMessage = .ok out) :
    out.errorCode = self.errorCode ∧ out.pt = self.pt := by
  unfold describeError at h
  cases haction : getStringIfExists converter self.pt ["response", "action"] with
  | error e => simp [haction, bind, Except.bind] at h
  | ok action =>
    cases hmessage : getStringIfExists converter self.pt ["response", "message"] with
    | error e => simp [haction, hmessage, bind, Except.bind] at h
    | ok message =>
      cases message <;>
        (simp only [haction, hmessage, bind, Except.bind, pure, Except.pure, Except.ok.injEq] at h
         subst h
         exact ⟨rfl, rfl⟩)

theorem exists_describeError_iff (self : ResponseBase) (noMessage : String) :
    (∃ out, describeError converter self noMessage = .ok out) ↔
      DescribesError converter self.pt := by
  rw [DescribesError, ← exists_getStringIfExists_iff, ← exists_getStringIfExists_iff]
  unfold describeError
  cases getStringIfExists converter self.pt ["response", "action"] with
  | error e => simp [bind, Except.bind]
  | ok action =>
    cases getStringIfExists converter self.pt ["response", "message"] with
    | error e => simp [bind, Except.bind]
    | ok message => cases message <;> simp [bind, Except.bind, pure, Except.pure]

theorem describeError_isError_iff {noMessage : String} :
    (∃ out, describeError converter self noMessage = .ok out ∧ out.errorCode.isError) ↔
      DescribesError converter self.pt ∧ self.errorCode.isError := by
  rw [← exists_describeError_iff, ← exists_and_right]
  refine exists_congr fun out => and_congr_right fun hout => ?_
  rw [(describeError_spec hout).1]

/-- With a status other than 200 the number of the server takes the place of the status. -/
theorem badStatus_iff {statusCode : UInt16} :
    (∃ out, badStatus converter self statusCode true = .ok out ∧ out.errorCode.isError) ↔
      DescribesError converter self.pt ∧ errorNumber self.pt ≠ some 0 ∧
        (errorNumber self.pt = none → statusCode ≠ 0) := by
  have hzero : statusCode ≠ 0 ↔ statusCode.toNat ≠ 0 := by rw [ne_eq, ← UInt16.toNat_inj]; rfl
  have hdescribe : _ ↔ DescribesError converter _ := exists_describeError_iff
    { self with errorCode := ⟨statusCode.toNat, .httpStatus⟩ }
    "API returned bad HTTP status and no error message."
  rw [← hdescribe, badStatus, if_pos rfl, exists_bind_ok, hzero]
  constructor
  · rintro ⟨described, hdescribed, out, hout, hcode⟩
    obtain ⟨hself, hpt⟩ := describeError_spec hdescribed
    refine ⟨⟨described, hdescribed⟩, ?_⟩
    rw [hpt] at hout
    cases hnumber : errorNumber self.pt <;> rw [errorNumber] at hnumber <;>
      simp only [hnumber, pure, Except.pure, Except.ok.injEq] at hout <;> subst hout
    · rw [hself] at hcode
      simpa [StdErrorCode.isError] using hcode
    · simpa [StdErrorCode.isError] using hcode
  · rintro ⟨⟨described, hdescribed⟩, hnumber, hstatus⟩
    obtain ⟨hself, hpt⟩ := describeError_spec hdescribed
    refine ⟨described, hdescribed, ?_⟩
    rw [hpt]
    cases hcase : errorNumber self.pt <;> rw [hcase] at hnumber hstatus <;>
      rw [errorNumber] at hcase <;> rw [hcase]
    · refine ⟨_, rfl, ?_⟩
      rw [hself]
      simpa [StdErrorCode.isError] using hstatus
    · refine ⟨_, rfl, ?_⟩
      simpa [StdErrorCode.isError] using hnumber

theorem exists_propertyHasValue_iff (pt : PTree) (path : List String) (value : Bytes) :
    (∃ b, propertyHasValueCaseInsensitive converter pt path value = .ok b) ↔
      ConvertsAt converter pt path := by
  unfold ConvertsAt propertyHasValueCaseInsensitive
  cases pt.getOptional path with
  | none => simp [pure, Except.pure]
  | some result =>
    simp only [Option.mem_some_iff, forall_eq', Converts]
    cases wideToBytes converter result <;> simp [bind, Except.bind, pure, Except.pure]

theorem propertyHasValue_spec {b : Bool} (h : propertyHasValueCaseInsensitive converter pt
    ["response", "result"] (bytes "success") = .ok b) : TakenForSuccess converter pt ↔ b = true := by
  unfold propertyHasValueCaseInsensitive at h
  unfold TakenForSuccess
  cases hresult : pt.getOptional ["response", "result"] with
  | none =>
    rw [hresult] at h
    cases h
    simp
  | some result =>
    rw [hresult] at h
    cases htext : wideToBytes converter result with
    | error e => simp [htext, bind, Except.bind] at h
    | ok text =>
      simp only [htext, bind, Except.bind, pure, Except.pure, Except.ok.injEq] at h
      simp [htext, h]

/-- With status 200 only a result that is not taken for `success` gives an error. What was set
before stays where it is taken for that. -/
theorem checkResult_iff {P : Prop} (hP : P → TakenForSuccess converter self.pt) :
    (∃ out, checkResult converter self = .ok out ∧ (¬ P → out.errorCode.isError)) ↔
      ConvertsAt converter self.pt ["response", "result"] ∧
        (TakenForSuccess converter self.pt → P ∨ self.errorCode.isError) ∧
        (¬ TakenForSuccess converter self.pt →
          DescribesError converter self.pt ∧ errorNumber self.pt ≠ some 0) := by
  rw [checkResult, exists_bind_ok, ← exists_propertyHasValue_iff _ _ (bytes "success"),
    ← exists_and_right]
  refine exists_congr fun success => and_congr_right fun hsuccess => ?_
  rw [propertyHasValue_spec hsuccess] at hP ⊢
  cases success with
  | true => simp [pure, Except.pure, or_iff_not_imp_left]
  | false =>
    have hnot : ¬ P := fun h => Bool.false_ne_true (hP h)
    simp only [Bool.false_eq_true, not_false_eq_true, true_implies, false_implies, if_false, hnot,
      true_and]
    rw [describeError_isError_iff]
    refine and_congr_right fun _ => ?_
    unfold errorNumber
    cases getInt32IfExists self.pt ["response", "error"] <;>
      simp [StdErrorCode.isError, StdErrorCode.unknownApiError]

/-! ### Failures -/

/-- The content is text that is JSON with this tree. -/
def Parsed (json : Json) (content : Bytes) (pt : PTree) : Prop :=
  ∃ chars, content = utf8 chars ∧ json.readJson (utf16 chars) = .ok pt

/-- What the content converts to is JSON with this tree. -/
def Reads (converter : WstringConvert) (json : Json) (content : Bytes) (pt : PTree) : Prop :=
  ∃ text, bytesToWide converter content = .ok text ∧ json.readJson text = .ok pt

/-- The call did not succeed. -/
def Failed (json : Json) (headers : HttpHeaders) (content : Bytes) : Prop :=
  headers.statusCode ≠ 200 ∨ ¬ ∃ pt, Parsed json content pt ∧ SaysSuccess pt

/-- Nothing is thrown, and the response of a call that failed has an error code. -/
def ReportsFailure (converter : WstringConvert) (json : Json) (self : ResponseBase)
    (requestUrl debugPassthru : Bytes) (headers : HttpHeaders) (content : Bytes) : Prop :=
  ∃ response,
    initializeWithContent converter json self requestUrl debugPassthru headers content =
      .ok response ∧ (Failed json headers content → response.errorCode.isError)

/-- What the server has to send for that: texts that convert, nothing that is taken for `success`
without being it, and no zero where the error code comes from. -/
structure Reportable (converter : WstringConvert) (json : Json) (initial : ResponseBase)
    (headers : HttpHeaders) (content : Bytes) : Prop where
  converts : ∃ text, bytesToWide converter content = .ok text
  unread : (¬ ∃ pt, Reads converter json content pt) → headers.statusCode ≠ 0
  formatted : ∀ pt, Reads converter json content pt →
    ∀ text, json.writeJson pt = .ok text → Converts converter text
  badStatus : ∀ pt, Reads converter json content pt → headers.statusCode ≠ 200 →
    DescribesError converter pt ∧ errorNumber pt ≠ some 0 ∧
      (errorNumber pt = none → headers.statusCode ≠ 0)
  result : ∀ pt, Reads converter json content pt → headers.statusCode = 200 →
    ConvertsAt converter pt ["response", "result"]
  success : ∀ pt, Reads converter json content pt → headers.statusCode = 200 →
    TakenForSuccess converter pt → ValidUtf8 content ∧ SaysSuccess pt ∨ initial.errorCode.isError ∨
      ∃ err, json.writeJson pt = .error err
  badResult : ∀ pt, Reads converter json content pt → headers.statusCode = 200 →
    ¬ TakenForSuccess converter pt → DescribesError converter pt ∧ errorNumber pt ≠ some 0

section
variable {content requestUrl debugPassthru : Bytes} {headers : HttpHeaders} {text : WString}

theorem Parsed.reads (h : Parsed json content pt) : Reads converter json content pt := by
  obtain ⟨chars, rfl, hread⟩ := h
  exact ⟨utf16 chars, bytesToWide_utf8 converter chars, hread⟩

theorem Reads.parsed (h : Reads converter json content pt) (hvalid : ValidUtf8 content) :
    Parsed json content pt := by
  obtain ⟨chars, rfl⟩ := hvalid
  obtain ⟨text, htext, hread⟩ := h
  rw [bytesToWide_utf8, Except.ok.injEq] at htext
  exact ⟨chars, rfl, htext ▸ hread⟩

theorem Parsed.valid (h : Parsed json content pt) : ValidUtf8 content := by
  obtain ⟨chars, rfl, -⟩ := h
  exact ⟨chars, rfl⟩

theorem reads_iff (h : bytesToWide converter content = .ok text) :
    Reads converter json content pt ↔ json.readJson text = .ok pt := by
  simp [Reads, h]

theorem parseContent_spec (hread : json.readJson text = .ok pt) {parsed : Bool × ResponseBase}
    (h : parseContent converter json self text = .ok parsed) :
    parsed.1 = true ∧ parsed.2.pt = pt ∧ (parsed.2.errorCode.isError ↔
      self.errorCode.isError ∨ ∃ err, json.writeJson pt = .error err) := by
  simp only [parseContent, hread] at h
  cases hwrite : json.writeJson pt with
  | error err =>
    simp only [hwrite, pure, Except.pure, Except.ok.injEq] at h
    subst h
    exact ⟨rfl, rfl, by simp [StdErrorCode.isError, StdErrorCode.contentInvalidFormat]⟩
  | ok formatted =>
    cases hout : wideToBytes converter formatted with
    | error e => simp [hwrite, hout, bind, Except.bind] at h
    | ok out =>
      simp only [hwrite, hout, bind, Except.bind, pure, Except.pure, Except.ok.injEq] at h
      subst h
      exact ⟨rfl, rfl, by simp⟩

theorem exists_parseContent_iff (hread : json.readJson text = .ok pt) :
    (∃ parsed, parseContent converter json self text = .ok parsed) ↔
      ∀ formatted, json.writeJson pt = .ok formatted → Converts converter formatted := by
  simp only [parseContent, hread]
  cases json.writeJson pt with
  | error err => simp [pure, Except.pure]
  | ok formatted =>
    simp only [Except.ok.injEq, forall_eq', Converts]
    cases wideToBytes converter formatted <;> simp [bind, Except.bind, pure, Except.pure]

/-- The tree was read: what is left is to write it, and the status or the result. -/
theorem reportsFailure_of_read (htext : bytesToWide converter content = .ok text)
    (hread : json.readJson text = .ok pt) :
    ReportsFailure converter json self requestUrl debugPassthru headers content ↔
      (∀ formatted, json.writeJson pt = .ok formatted → Converts converter formatted) ∧
        if headers.statusCode ≠ 200 then
          DescribesError converter pt ∧ errorNumber pt ≠ some 0 ∧
            (errorNumber pt = none → headers.statusCode ≠ 0)
        else ConvertsAt converter pt ["response", "result"] ∧
          (TakenForSuccess converter pt → ValidUtf8 content ∧ SaysSuccess pt ∨
            self.errorCode.isError ∨ ∃ err, json.writeJson pt = .error err) ∧
          (¬ TakenForSuccess converter pt →
            DescribesError converter pt ∧ errorNumber pt ≠ some 0) := by
  have hreads : Reads converter json content pt := (reads_iff htext).mpr hread
  have hsame {pt' : PTree} (h : Parsed json content pt') : pt' = pt := by
    have hread' := (reads_iff htext).mp (Parsed.reads h)
    rw [hread, Except.ok.injEq] at hread'
    exact hread'.symm
  have hfailed : Failed json headers content ↔
      headers.statusCode ≠ 200 ∨ ¬ (ValidUtf8 content ∧ SaysSuccess pt) := by
    refine or_congr_right (not_congr ⟨?_, fun h => ⟨pt, hreads.parsed h.1, h.2⟩⟩)
    rintro ⟨pt', hparsed, hsays⟩
    exact ⟨hparsed.valid, hsame hparsed ▸ hsays⟩
  unfold ReportsFailure initializeWithContent
  simp only [htext, exists_bind_ok, Except.ok.injEq, exists_eq_left', hfailed, pure, Except.pure,
    recordError_errorCode]
  rw [← exists_parseContent_iff hread, ← exists_and_right]
  refine exists_congr fun parsed => and_congr_right fun hparsed => ?_
  obtain ⟨hsuccess, hpt, hcode⟩ := parseContent_spec hread hparsed
  subst hpt
  rw [checkErrors, hsuccess]
  by_cases hstatus : headers.statusCode = 200
  · rw [if_neg (not_not.mpr hstatus), if_pos rfl, if_neg (not_not.mpr hstatus), ← hcode,
      ← checkResult_iff fun h => h.2.takenForSuccess]
    simp [hstatus]
  · rw [if_pos hstatus, if_pos hstatus, ← badStatus_iff]
    simp [hstatus]

/-- Content that is no JSON has the error code of the status, or that of the format. -/
theorem reportsFailure_of_unread {err : JsonParserError}
    (htext : bytesToWide converter content = .ok text) (hread : json.readJson text = .error err) :
    ReportsFailure converter json self requestUrl debugPassthru headers content ↔
      headers.statusCode ≠ 0 := by
  have hfailed : Failed json headers content := by
    refine .inr fun ⟨pt, hparsed, _⟩ => ?_
    have hread' := (reads_iff htext).mp (Parsed.reads hparsed)
    rw [hread] at hread'
    cases hread'
  unfold ReportsFailure initializeWithContent
  simp only [htext, parseContent, hread, exists_bind_ok, Except.ok.injEq, exists_eq_left', hfailed,
    true_implies, pure, Except.pure, recordError_errorCode, checkErrors]
  by_cases hstatus : headers.statusCode = 200
  · simp [hstatus, StdErrorCode.isError, StdErrorCode.contentInvalidFormat]
  · have hzero : headers.statusCode.toNat = 0 ↔ headers.statusCode = 0 := by
      rw [← UInt16.toNat_inj]
      rfl
    simp [hstatus, badStatus, StdErrorCode.isError, pure, Except.pure, hzero]

/-- For text that is well formed the converter does not matter. -/
theorem Reportable.of_valid (hvalid : ValidUtf8 content)
    (hunread : (¬ ∃ pt, Parsed json content pt) → headers.statusCode ≠ 0)
    (hformatted : ∀ pt, Parsed json content pt → ∀ text, json.writeJson pt = .ok text →
      ValidUtf16 text)
    (htexts : ∀ pt, Parsed json content pt → ∀ key ∈ ["action", "message", "result"],
      ∀ text ∈ pt.getOptional ["response", key], ValidUtf16 text)
    (hnumber : ∀ pt, Parsed json content pt → (headers.statusCode ≠ 200 ∨ ¬ SaysSuccess pt) →
      errorNumber pt ≠ some 0)
    (hstatus : ∀ pt, Parsed json content pt → errorNumber pt = none → headers.statusCode ≠ 0) :
    Reportable converter json self headers content := by
  have hconverts {pt : PTree} (hparsed : Parsed json content pt) {key : String}
      (hkey : key ∈ ["action", "message", "result"]) :
      ConvertsAt converter pt ["response", key] :=
    fun text htext => (htexts pt hparsed key hkey text htext).converts converter
  have hdescribes {pt : PTree} (hparsed : Parsed json content pt) : DescribesError converter pt :=
    ⟨hconverts hparsed (by simp), hconverts hparsed (by simp)⟩
  have htaken {pt : PTree} (hparsed : Parsed json content pt) :
      TakenForSuccess converter pt ↔ SaysSuccess pt :=
    takenForSuccess_iff (htexts pt hparsed "result" (by simp))
  refine ⟨?_, fun hnone => hunread fun ⟨pt, hparsed⟩ => hnone ⟨pt, hparsed.reads⟩,
    ?_, ?_, ?_, ?_, ?_⟩
  · obtain ⟨chars, rfl⟩ := hvalid
    exact ⟨_, bytesToWide_utf8 converter chars⟩
  · intro pt hreads text hwrite
    exact (hformatted pt (hreads.parsed hvalid) text hwrite).converts converter
  · intro pt hreads hbad
    have hparsed := hreads.parsed hvalid
    exact ⟨hdescribes hparsed, hnumber pt hparsed (.inl hbad), hstatus pt hparsed⟩
  · intro pt hreads _
    exact hconverts (hreads.parsed hvalid) (by simp)
  · intro pt hreads _ hsuccess
    exact .inl ⟨hvalid, (htaken (hreads.parsed hvalid)).mp hsuccess⟩
  · intro pt hreads _ hnot
    have hparsed := hreads.parsed hvalid
    exact ⟨hdescribes hparsed, hnumber pt hparsed (.inr (mt (htaken hparsed).mpr hnot))⟩

end

end

/-- A failed response is reported as such exactly when it is `Reportable`. -/
theorem reportsFailure_iff (converter : WstringConvert) (json : Json) (self : ResponseBase)
    (requestUrl debugPassthru : Bytes) (headers : HttpHeaders) (content : Bytes) :
    ReportsFailure converter json self requestUrl debugPassthru headers content ↔
      Reportable converter json self headers content := by
  cases htext : bytesToWide converter content with
  | error e =>
    refine iff_of_false ?_ fun h => ?_
    · rintro ⟨response, hresponse, -⟩
      simp [initializeWithContent, htext, bind, Except.bind] at hresponse
    · obtain ⟨text, hconverted⟩ := h.converts
      rw [htext] at hconverted
      cases hconverted
  | ok text =>
    cases hread : json.readJson text with
    | error err =>
      rw [reportsFailure_of_unread htext hread]
      have hnone (pt : PTree) : ¬ Reads converter json content pt := by
        simp [reads_iff htext, hread]
      refine ⟨fun hstatus => ?_, fun h => h.unread fun ⟨pt, hpt⟩ => hnone pt hpt⟩
      exact ⟨⟨text, htext⟩, fun _ => hstatus, fun pt hpt => absurd hpt (hnone pt),
        fun pt hpt => absurd hpt (hnone pt), fun pt hpt => absurd hpt (hnone pt),
        fun pt hpt => absurd hpt (hnone pt), fun pt hpt => absurd hpt (hnone pt)⟩
    | ok pt =>
      rw [reportsFailure_of_read htext hread]
      have hreads : Reads converter json content pt := (reads_iff htext).mpr hread
      have honly {pt' : PTree} (h : Reads converter json content pt') : pt' = pt := by
        rw [reads_iff htext, hread] at h
        exact (Except.ok.inj h).symm
      constructor
      · rintro ⟨hformatted, hcode⟩
        refine ⟨⟨text, htext⟩, fun h => absurd ⟨pt, hreads⟩ h, ?_, ?_, ?_, ?_, ?_⟩
        · rintro pt' hpt'
          exact honly hpt' ▸ hformatted
        · rintro pt' hpt' hstatus
          rw [if_pos hstatus] at hcode
          exact honly hpt' ▸ hcode
        · rintro pt' hpt' hstatus
          rw [if_neg (not_not.mpr hstatus)] at hcode
          exact honly hpt' ▸ hcode.1
        · rintro pt' hpt' hstatus
          rw [if_neg (not_not.mpr hstatus)] at hcode
          exact honly hpt' ▸ hcode.2.1
        · rintro pt' hpt' hstatus
          rw [if_neg (not_not.mpr hstatus)] at hcode
          exact honly hpt' ▸ hcode.2.2
      · intro h
        refine ⟨h.formatted pt hreads, ?_⟩
        split_ifs with hstatus
        · exact h.badStatus pt hreads hstatus
        · have hok := not_not.mp hstatus
          exact ⟨h.result pt hreads hok, h.success pt hreads hok, h.badResult pt hreads hok⟩

/-- A response with that `response.error`, of one digit. -/
def errorResponse (digit : Char) : List Char :=
  "\x7b\"response\":\x7b\"error\":".toList ++ [digit] ++ "\x7d\x7d".toList

/-- The parser and the writer, as far as they see that response. -/
def errorResponseJson (digit : Char) : Json where
  readJson text :=
    if text = utf16 (errorResponse digit) then
      .ok (.node [] [(wide "response", .node [] [(wide "error", .node [digit.val] [])])])
    else .error ⟨bytes "<unspecified file>(1): expected value"⟩
  writeJson _ := .ok (utf16 ("\x7b\n    \"response\":\n    \x7b\n        \"error\": \"".toList ++
    [digit] ++ "\"\n    \x7d\n\x7d\n".toList))

/-- With status 403 and `response.error` 9 the error code is that of the server. -/
theorem reportsFailure_iff_nine :
    ReportsFailure .strict (errorResponseJson '9') {} [] [] { statusCode := 403 }
      (utf8 (errorResponse '9')) := by
  have hparsed {pt : PTree} (h : Parsed (errorResponseJson '9') (utf8 (errorResponse '9')) pt) :
      pt = .node [] [(wide "response", .node [] [(wide "error", .node ['9'.val] [])])] := by
    obtain ⟨chars, hchars, hread⟩ := h
    rw [← utf8_injective hchars] at hread
    simpa [errorResponseJson, eq_comm] using hread
  refine (reportsFailure_iff .strict (errorResponseJson '9') {} [] [] { statusCode := 403 } _).mpr
    (.of_valid ⟨_, rfl⟩ (fun _ => by decide) ?_ ?_ ?_ fun _ _ _ => by decide)
  · intro pt _ text hwrite
    exact ⟨_, (Except.ok.inj hwrite).symm⟩
  · intro pt h key hkey text htext
    rw [hparsed h] at htext
    fin_cases hkey <;> cases htext
  · intro pt h _
    rw [hparsed h]
    decide

/-- With status 500 and `response.error` 0 the error code says that nothing went wrong. -/
theorem not_reportsFailure : ¬ ∀ (converter : WstringConvert) (json : Json) (self : ResponseBase)
    (requestUrl debugPassthru : Bytes) (headers : HttpHeaders) (content : Bytes),
    ReportsFailure converter json self requestUrl debugPassthru headers content := by
  intro h
  have hread : (errorResponseJson '0').readJson (utf16 (errorResponse '0')) = .ok
      (.node [] [(wide "response", .node [] [(wide "error", .node ['0'.val] [])])]) := by
    simp [errorResponseJson]
  have hreports := (reportsFailure_of_read (bytesToWide_utf8 .strict _) hread).mp
    (h .strict (errorResponseJson '0') {} [] [] { statusCode := 500 } _)
  rw [if_pos (by decide)] at hreports
  exact hreports.2.2.1 (by decide)

/-- The class's own parser sees no response that is reported as a failure. -/
theorem handleContent_of_reportsFailure {converter : WstringConvert} {json : Json}
    {url debugText content : Bytes} {parseResponse : ResponseBase → ResponseBase}
    {headers : HttpHeaders} (h : ReportsFailure converter json {} url debugText headers content)
    (hfailed : Failed json headers content) :
    ∃ response, handleContent converter json parseResponse url debugText headers content =
      .ok response ∧ response.errorCode.isError := by
  obtain ⟨response, hresponse, hcode⟩ := h
  refine ⟨response, ?_, hcode hfailed⟩
  simp [handleContent, hresponse, hcode hfailed, bind, Except.bind, pure, Except.pure]

end ResponseBase

end MediafireSdk.Api
