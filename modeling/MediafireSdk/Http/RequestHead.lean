import MediafireSdk.Http.Posting
import MediafireSdk.Http.Urls

/-! What the head of a request says. Its lines are put together from what is configured as it
stands, so that a line feed behind a carriage return in any of it is the end of a line. A header is
set by its name in any case: the list has one header for a name, unless the default headers had
more. -/

namespace MediafireSdk.Http

/-! ### Headers that are set -/

/-- `SetHeader`, `SetPostData` and `SetPostDataPipe`. -/
inductive ConfigCall where
  | header (name value : String)
  | postData (post : Post)

/-- `ConfigEventHandler`. -/
def Config.configure (cfg : Config) : ConfigCall → Config
  | .header name value => { cfg with headers := setHeader name value cfg.headers }
  | .postData post => cfg.setPost post

/-- The header that a call sets. -/
def ConfigCall.setting : ConfigCall → String × String
  | .header name value => (name, value)
  | .postData post => ("Content-Length", toString post.contentLength)

def ConfigCall.isPost : ConfigCall → Bool
  | .header _ _ => false
  | .postData _ => true

/-- The names in the order in which they come first, each one once. -/
def distinctNames : List String → List String
  | [] => []
  | name :: names => name :: (distinctNames names).filter fun other => !iequals other name

/-- The value that was set last for a name. -/
def lastValue (settings : List (String × String)) (name : String) : String :=
  ((settings.filter fun setting => iequals setting.1 name).getLast?.map Prod.snd).getD ""

/-- One header for each name, with the value that was set last. -/
def latest (settings : List (String × String)) : List (String × String) :=
  (distinctNames (settings.map Prod.fst)).map fun name => (name, lastValue settings name)

/-- The names are different whatever their case. -/
def DistinctNames (headers : List (String × String)) : Prop :=
  (headers.map fun header => lower header.1).Nodup

theorem iequals_iff {a b : String} : iequals a b = true ↔ lower a = lower b := by simp [iequals]

theorem iequals_comm (a b : String) : iequals a b = iequals b a := by
  simp [iequals, eq_comm]

section SetHeader
variable {name value : String} {headers : List (String × String)}

theorem setHeader_of_not_mem (h : ∀ header ∈ headers, iequals header.1 name = false) :
    setHeader name value headers = headers ++ [(name, value)] := by
  induction headers with
  | nil => rfl
  | cons header headers ih =>
    obtain ⟨hheader, hrest⟩ := List.forall_mem_cons.mp h
    rw [setHeader, hheader, ih hrest]
    rfl

/-- A name that is there stays as it is; another one comes behind. -/
theorem lower_setHeader : (setHeader name value headers).map (fun header => lower header.1) =
    if lower name ∈ headers.map (fun header => lower header.1) then
      headers.map fun header => lower header.1
    else headers.map (fun header => lower header.1) ++ [lower name] := by
  induction headers with
  | nil => simp [setHeader]
  | cons header headers ih =>
    rw [setHeader]
    by_cases hname : iequals header.1 name = true
    · simp [hname, iequals_iff.mp hname]
    · have hne : lower name ≠ lower header.1 := fun heq => hname (iequals_iff.mpr heq.symm)
      rw [if_neg hname, List.map_cons, ih, List.map_cons]
      simp only [List.mem_cons, hne, false_or]
      split_ifs <;> simp

theorem distinctNames_setHeader :
    DistinctNames (setHeader name value headers) ↔ DistinctNames headers := by
  rw [DistinctNames, lower_setHeader, DistinctNames]
  split_ifs with h
  · rfl
  · rw [List.nodup_append]
    refine and_iff_left ⟨List.nodup_singleton _, fun other hother last hlast => ?_⟩
    rw [List.mem_singleton.mp hlast]
    exact ne_of_mem_of_not_mem hother h

/-- Over SSL a header is left out by its name. -/
theorem sentHeaders_cons (isSsl : Bool) (header : String × String) :
    sentHeaders isSsl (header :: headers) =
      if isSsl && lower header.1 = "accept-encoding" then sentHeaders isSsl headers
      else header :: sentHeaders isSsl headers := by
  rw [sentHeaders, List.filter_cons]
  cases isSsl && decide (lower header.1 = "accept-encoding") <;> rfl

theorem sentHeaders_setHeader (isSsl : Bool) :
    sentHeaders isSsl (setHeader name value headers) =
      if isSsl && lower name = "accept-encoding" then sentHeaders isSsl headers
      else setHeader name value (sentHeaders isSsl headers) := by
  induction headers with
  | nil => rw [setHeader, sentHeaders_cons]; rfl
  | cons header headers ih =>
    rw [setHeader, sentHeaders_cons]
    by_cases hname : iequals header.1 name = true
    · rw [if_pos hname, sentHeaders_cons, iequals_iff.mp hname]
      split_ifs with hleft
      · rfl
      · rw [setHeader, if_pos hname]
    · rw [if_neg hname, sentHeaders_cons, ih]
      split_ifs with hheader hleft hleft
      · rfl
      · rfl
      · rfl
      · rw [setHeader, if_neg hname]

end SetHeader

/-! ### The last value of each name -/

section Latest
variable {name value : String} {names : List String} {settings headers : List (String × String)}

theorem distinctNames_append : distinctNames (names ++ [name]) =
    if ∃ other ∈ names, iequals other name = true then distinctNames names
    else distinctNames names ++ [name] := by
  induction names with
  | nil => rfl
  | cons first names ih =>
    rw [List.cons_append, distinctNames, ih, distinctNames]
    simp only [List.mem_cons, exists_eq_or_imp]
    cases hfirst : iequals first name with
    | true =>
      simp only [true_or, if_true]
      split_ifs
      · rfl
      · simp [iequals_comm name first, hfirst]
    | false =>
      simp only [Bool.false_eq_true, false_or]
      split_ifs
      · rfl
      · simp [iequals_comm name first, hfirst]

theorem lastValue_append (other : String) : lastValue (settings ++ [(name, value)]) other =
    if iequals name other then value else lastValue settings other := by
  rw [lastValue, List.filter_append]
  cases h : iequals name other <;> simp [h, lastValue]

/-- Names that are different, each with a value. -/
theorem setHeader_map (f : String → String) (hnames : (names.map lower).Nodup) :
    setHeader name value (names.map fun other => (other, f other)) =
      if ∃ other ∈ names, iequals other name = true then
        names.map fun other => (other, if iequals name other then value else f other)
      else (names.map fun other => (other, f other)) ++ [(name, value)] := by
  induction names with
  | nil => rfl
  | cons first names ih =>
    obtain ⟨hfirst, hrest⟩ := List.nodup_cons.mp hnames
    rw [List.map_cons, setHeader, ih hrest]
    by_cases hname : iequals first name = true
    · have hothers : ∀ other ∈ names, iequals name other = false := by
        intro other hother
        refine Bool.eq_false_iff.mpr fun heq => hfirst (List.mem_map.mpr ⟨other, hother, ?_⟩)
        rw [iequals_iff.mp hname, iequals_iff.mp heq]
      have hsame : names.map (fun other => (other, if iequals name other then value else f other)) =
          names.map fun other => (other, f other) :=
        List.map_congr_left fun other hother => by rw [hothers other hother]; rfl
      rw [if_pos hname, if_pos ⟨first, List.mem_cons_self, hname⟩, List.map_cons, hsame,
        iequals_comm name first, if_pos hname]
    · rw [if_neg hname]
      simp only [List.mem_cons, exists_eq_or_imp, hname, Bool.false_eq_true, false_or]
      split_ifs
      · rw [List.map_cons, iequals_comm name first, if_neg hname]
      · rfl

theorem distinctNames_nodup (names : List String) : ((distinctNames names).map lower).Nodup := by
  induction names with
  | nil => exact List.nodup_nil
  | cons name names ih =>
    rw [distinctNames, List.map_cons, List.nodup_cons]
    refine ⟨fun hmem => ?_, ih.sublist (List.filter_sublist.map lower)⟩
    obtain ⟨other, hother, heq⟩ := List.mem_map.mp hmem
    have hne := (List.mem_filter.mp hother).2
    simp [iequals, heq] at hne

theorem exists_distinctNames : (∃ other ∈ distinctNames names, iequals other name = true) ↔
    ∃ other ∈ names, iequals other name = true := by
  induction names with
  | nil => rfl
  | cons first names ih =>
    simp only [distinctNames, List.mem_cons, exists_eq_or_imp, List.mem_filter]
    by_cases hname : iequals first name = true
    · simp [hname]
    · simp only [hname, Bool.false_eq_true, false_or, ← ih]
      refine exists_congr fun other => ⟨fun h => ⟨h.1.1, h.2⟩, fun h => ⟨⟨h.1, ?_⟩, h.2⟩⟩
      have hne : lower other ≠ lower first := fun heq =>
        hname (iequals_iff.mpr (heq.symm.trans (iequals_iff.mp h.2)))
      simp [iequals, hne]

/-- Setting a header is setting the last value of its name. -/
theorem latest_append : latest (settings ++ [(name, value)]) =
    setHeader name value (latest settings) := by
  rw [latest, latest, setHeader_map _ (distinctNames_nodup _), List.map_append, List.map_singleton,
    distinctNames_append]
  simp only [exists_distinctNames]
  split_ifs with hname
  · exact List.map_congr_left fun other _ => by rw [lastValue_append]
  · rw [List.map_append, List.map_singleton, lastValue_append, if_pos (by simp [iequals])]
    congr 1
    refine List.map_congr_left fun other hother => ?_
    have hother' : iequals name other = false := by
      refine Bool.eq_false_iff.mpr fun heq => hname (exists_distinctNames.mp ⟨other, hother, ?_⟩)
      rw [iequals_comm, heq]
    rw [lastValue_append, hother']
    rfl

theorem latest_of_distinct (h : DistinctNames headers) : latest headers = headers := by
  induction headers using List.reverseRecOn with
  | nil => rfl
  | append_singleton headers header ih =>
    rw [DistinctNames, List.map_append, List.nodup_append] at h
    obtain ⟨hheaders, -, hne⟩ := h
    rw [latest_append, ih hheaders, setHeader_of_not_mem]
    intro other hother
    refine Bool.eq_false_iff.mpr fun heq => ?_
    exact hne _ (List.mem_map_of_mem hother) _ (by simp) (iequals_iff.mp heq)

theorem sentHeaders_latest (isSsl : Bool) :
    sentHeaders isSsl (latest settings) = latest (sentHeaders isSsl settings) := by
  induction settings using List.reverseRecOn with
  | nil => rfl
  | append_singleton settings setting ih =>
    have happend : sentHeaders isSsl (settings ++ [setting]) =
        sentHeaders isSsl settings ++ sentHeaders isSsl [setting] := List.filter_append _ _
    rw [latest_append, sentHeaders_setHeader, happend, sentHeaders_cons, ih]
    split_ifs
    · exact congrArg latest (List.append_nil _).symm
    · exact latest_append.symm

/-- Headers that are set one by one are sent as the last value of each name, exactly when the
names of the first ones are different. -/
theorem sentHeaders_foldl (isSsl : Bool) (h : DistinctNames (sentHeaders isSsl headers)) :
    sentHeaders isSsl (settings.foldl (fun headers setting =>
      setHeader setting.1 setting.2 headers) headers) =
      sentHeaders isSsl (latest (headers ++ settings)) := by
  induction settings using List.reverseRecOn with
  | nil =>
    rw [List.append_nil, sentHeaders_latest, latest_of_distinct h]
    rfl
  | append_singleton settings setting ih =>
    rw [List.foldl_append, ← List.append_assoc, latest_append, List.foldl_cons, List.foldl_nil,
      sentHeaders_setHeader, sentHeaders_setHeader, ih]

theorem distinctNames_foldl (isSsl : Bool) :
    DistinctNames (sentHeaders isSsl (settings.foldl (fun headers setting =>
      setHeader setting.1 setting.2 headers) headers)) ↔
      DistinctNames (sentHeaders isSsl headers) := by
  induction settings using List.reverseRecOn with
  | nil => rfl
  | append_singleton settings setting ih =>
    rw [List.foldl_append, List.foldl_cons, List.foldl_nil, sentHeaders_setHeader, ← ih]
    split_ifs
    · rfl
    · exact distinctNames_setHeader

end Latest

/-! ### The lines of a text -/

def crlf : List Char := ['\r', '\n']

/-- No line ends inside the text. -/
def OneLine (text : List Char) : Prop := ¬crlf <:+: text

theorem oneLine_nil : OneLine [] := by simp [OneLine, crlf]

theorem oneLine_cons {c : Char} {text : List Char} :
    OneLine (c :: text) ↔ ¬crlf <+: c :: text ∧ OneLine text := by
  rw [OneLine, List.infix_cons_iff, not_or, OneLine]

theorem search_length {text before after : List Char}
    (h : search crlf text = some (before, after)) : after.length < text.length := by
  rw [search_eq_some h]
  simp [crlf]
  omega

/-- The lines up to the first empty one, each without its end, and what is behind them. -/
def splitHead (text : List Char) : List (List Char) × List Char :=
  match _h : search crlf text with
  | none => ([text], [])
  | some (line, rest) =>
    if line = [] then ([], rest)
    else
      let more := splitHead rest
      (line :: more.1, more.2)
  termination_by text.length
  decreasing_by exact search_length ‹_›

theorem splitHead_of_search {text line rest : List Char}
    (h : search crlf text = some (line, rest)) :
    splitHead text =
      if line = [] then ([], rest) else (line :: (splitHead rest).1, (splitHead rest).2) := by
  rw [splitHead]
  split
  case h_1 hnone =>
    rw [h] at hnone
    cases hnone
  case h_2 line' rest' hsome =>
    rw [h] at hsome
    cases hsome
    rfl

/-- The end of a line is found behind text that has none, also when a carriage return is last. -/
theorem search_crlf {line : List Char} (h : OneLine line) (rest : List Char) :
    search crlf (line ++ crlf ++ rest) = some (line, rest) := by
  induction line with
  | nil => rfl
  | cons c line ih =>
    rw [oneLine_cons] at h
    have hprefix : ¬crlf <+: c :: (line ++ crlf ++ rest) := by
      intro hp
      obtain ⟨rfl, hline⟩ := List.cons_prefix_cons.mp hp
      cases line with
      | nil => simp [crlf] at hline
      | cons d line =>
        obtain ⟨rfl, -⟩ := List.cons_prefix_cons.mp hline
        exact h.1 ⟨line, rfl⟩
    rw [List.cons_append, List.cons_append, search,
      if_neg (List.isPrefixOf_iff_prefix.not.mpr hprefix), ih h.2]
    rfl

theorem oneLine_of_search {text line rest : List Char}
    (h : search crlf text = some (line, rest)) : OneLine line := by
  induction text generalizing line with
  | nil => cases h
  | cons c text ih =>
    rw [search] at h
    split_ifs at h with hprefix
    · cases h
      simp [OneLine, crlf]
    · obtain ⟨⟨line', rest'⟩, hsearch, heq⟩ := Option.map_eq_some_iff.mp h
      cases heq
      rw [oneLine_cons]
      refine ⟨fun hp => hprefix (List.isPrefixOf_iff_prefix.mpr ?_), ih hsearch⟩
      rw [search_eq_some hsearch, List.append_assoc, ← List.cons_append]
      exact hp.trans (List.prefix_append _ _)

/-- What is written for lines. -/
def joinLines (lines : List (List Char)) : List Char := lines.flatMap (· ++ crlf) ++ crlf

theorem splitHead_joinLines {lines : List (List Char)}
    (h : ∀ line ∈ lines, line ≠ [] ∧ OneLine line) : splitHead (joinLines lines) = (lines, []) := by
  induction lines with
  | nil => exact splitHead_of_search (search_crlf oneLine_nil [])
  | cons line lines ih =>
    obtain ⟨⟨hne, hline⟩, hrest⟩ := List.forall_mem_cons.mp h
    have hjoin : joinLines (line :: lines) = line ++ crlf ++ joinLines lines := by
      simp [joinLines]
    rw [hjoin, splitHead_of_search (search_crlf hline _), if_neg hne, ih hrest]

/-- No line ends inside of one that is read back. -/
theorem oneLine_of_mem_splitHead {text : List Char} :
    ∀ line ∈ (splitHead text).1, OneLine line := by
  fun_induction splitHead text with
  | case1 text hnone =>
    intro line hline
    rw [List.mem_singleton.mp hline, OneLine, ← isSome_search (by simp [crlf]), hnone]
    simp
  | case2 => simp
  | case3 text line rest hsearch hne more ih =>
    exact List.forall_mem_cons.mpr ⟨oneLine_of_search hsearch, ih⟩

/-! ### Texts that are put together -/

/-- A character of no line end between two texts keeps them apart. -/
theorem oneLine_append_cons {a b : List Char} {c : Char} (hc : c ∉ crlf) :
    OneLine (a ++ c :: b) ↔ OneLine a ∧ OneLine b := by
  have hstart : ∀ a : List Char, crlf <+: a ++ c :: b ↔ crlf <+: a := by
    intro a
    refine ⟨fun h => ?_, fun h => h.trans (List.prefix_append _ _)⟩
    rcases Nat.lt_or_ge a.length crlf.length with hshort | hlong
    · have hwhole : a ++ [c] <+: a ++ c :: b := ⟨b, by simp⟩
      have hlast : a ++ [c] <+: crlf :=
        List.prefix_of_prefix_length_le hwhole h (by simpa using hshort)
      exact absurd (hlast.subset (by simp)) hc
    · exact List.prefix_of_prefix_length_le h (List.prefix_append _ _) hlong
  have hnil : ∀ {x : List Char}, crlf <+: c :: x → False := fun h =>
    hc (by rw [← (List.cons_prefix_cons.mp h).1]; simp [crlf])
  induction a with
  | nil =>
    rw [List.nil_append, oneLine_cons]
    exact ⟨fun h => ⟨oneLine_nil, h.2⟩, fun h => ⟨fun hp => hnil hp, h.2⟩⟩
  | cons x a ih =>
    have hhead := hstart (x :: a)
    rw [List.cons_append] at hhead
    rw [List.cons_append, oneLine_cons, hhead, oneLine_cons, and_assoc]
    exact and_congr_right fun _ => ih

/-- The text of a header. -/
def headerText (header : String × String) : String := header.1 ++ ": " ++ header.2

theorem oneLine_headerText (header : String × String) :
    OneLine (headerText header).toList ↔ OneLine header.1.toList ∧ OneLine header.2.toList := by
  have htext : (headerText header).toList =
      header.1.toList ++ ':' :: ([] ++ ' ' :: header.2.toList) := by simp [headerText]
  rw [htext, oneLine_append_cons (by decide), oneLine_append_cons (by decide)]
  exact and_congr_right fun _ => and_iff_right oneLine_nil

theorem oneLine_of_not_mem {text : List Char} (h : '\r' ∉ text) : OneLine text := fun hsub =>
  h (hsub.subset (by simp [crlf]))

theorem oneLine_base64Encode (text : String) : OneLine (base64Encode text).toList := by
  refine oneLine_of_not_mem fun hmem => ?_
  rw [base64Encode, String.toList_ofList, List.mem_map] at hmem
  obtain ⟨b, hb, hreturn⟩ := hmem
  have hall : ∀ n < 256, Char.ofNat n = '\r' → n = 13 := by decide +kernel
  have hbyte : b = 13 := UInt8.toNat_inj.mp (hall b.toNat b.toNat_lt hreturn)
  exact Utils.Base64.not_mem_base64Encode (by decide +kernel) (by decide) (by decide) (hbyte ▸ hb)

/-! ### The head of a request -/

theorem Request.toList_text (request : Request) : request.text.toList = joinLines
    (request.line.toList :: (request.firstHeader ::
      (request.proxyAuthorization.map ("Proxy-Authorization", ·)).toList ++ request.headers).map
        fun header => (headerText header).toList) := by
  have hfold : ∀ (headers : List (String × String)) (text : String),
      (headers.foldl (fun text header => text ++ header.1 ++ ": " ++ header.2 ++ "\r\n")
        text).toList =
        text.toList ++
          (headers.map fun header => (headerText header).toList).flatMap (· ++ crlf) := by
    intro headers
    induction headers with
    | nil => simp
    | cons header headers ih =>
      intro text
      rw [List.foldl_cons, ih]
      simp [headerText, crlf]
  rw [Request.text, String.toList_append, hfold]
  simp [joinLines, crlf]

section Head
variable (cfg : Config) (calls : List ConfigCall) (url : Url) (isSsl : Bool) (proxy : Option Proxy)

/-- The request that is made once everything is set. -/
def configuredRequest : Request :=
  let cfg := calls.foldl Config.configure cfg
  serverRequest cfg.requestMethod url isSsl proxy cfg.headers

/-- A POST once there is something to post. -/
def configuredMethod : String := if calls.any ConfigCall.isPost then "POST" else cfg.requestMethod

/-- A proxy gets the whole URL. -/
def requestTarget : String := if proxy.isSome then url.fullUrl else url.fullPath

/-- The default headers and those that are set, each name with its last value. -/
def configuredHeaders : List (String × String) :=
  sentHeaders isSsl (latest (cfg.headers ++ calls.map ConfigCall.setting))

/-- What the head is to say, line by line. -/
def expectedLines : List String :=
  (configuredMethod cfg calls ++ " " ++ requestTarget url proxy ++ " HTTP/1.1") ::
    ("Host: " ++ url.host) ::
    ((if isSsl then none else proxy.bind Proxy.authorization).map
      ("Proxy-Authorization: " ++ ·)).toList ++
    (configuredHeaders cfg calls isSsl).map headerText

/-- There is one header line for a name in any case, and the bytes that are written are the lines
that are expected up to the first empty one, with nothing behind it. -/
def SaysConfigured : Prop :=
  DistinctNames (configuredRequest cfg calls url isSsl proxy).headers ∧
    splitHead (configuredRequest cfg calls url isSsl proxy).text.toList =
      ((expectedLines cfg calls url isSsl proxy).map String.toList, [])

/-- The default headers that are sent have different names, and no line ends inside of the method,
the target, the host, and the names and last values of the headers that are sent. -/
structure Plain : Prop where
  distinct : DistinctNames (sentHeaders isSsl cfg.headers)
  method : OneLine (configuredMethod cfg calls).toList
  target : OneLine (requestTarget url proxy).toList
  host : OneLine url.host.toList
  headers : ∀ header ∈ configuredHeaders cfg calls isSsl,
    OneLine header.1.toList ∧ OneLine header.2.toList

variable {cfg calls url isSsl proxy}

theorem headers_configure : (calls.foldl Config.configure cfg).headers =
    (calls.map ConfigCall.setting).foldl (fun headers setting =>
      setHeader setting.1 setting.2 headers) cfg.headers := by
  induction calls generalizing cfg with
  | nil => rfl
  | cons call calls ih =>
    rw [List.foldl_cons, ih, List.map_cons, List.foldl_cons]
    cases call <;> rfl

theorem requestMethod_configure :
    (calls.foldl Config.configure cfg).requestMethod = configuredMethod cfg calls := by
  induction calls using List.reverseRecOn with
  | nil => rfl
  | append_singleton calls call ih =>
    rw [List.foldl_append, configuredMethod, List.any_append]
    cases call with
    | header name value => simpa [Config.configure, ConfigCall.isPost, configuredMethod] using ih
    | postData post => simp [Config.configure, Config.setPost, ConfigCall.isPost]

/-- The machine writes that request in the state `SendHeader`. -/
theorem enterSendHeader_configured {s : Machine}
    (hcfg : s.cfg = calls.foldl Config.configure cfg) : (s.enterSendHeader url).log =
      s.log ++ s.written (configuredRequest cfg calls url s.isSsl s.currentProxy) := by
  rw [Machine.enterSendHeader_log, hcfg, configuredRequest]

theorem distinctNames_configured :
    DistinctNames (configuredRequest cfg calls url isSsl proxy).headers ↔
      DistinctNames (sentHeaders isSsl cfg.headers) := by
  rw [configuredRequest, serverRequest, headers_configure]
  exact distinctNames_foldl isSsl

theorem configuredRequest_eq (h : DistinctNames (sentHeaders isSsl cfg.headers)) :
    configuredRequest cfg calls url isSsl proxy =
      { line := configuredMethod cfg calls ++ " " ++ requestTarget url proxy ++ " HTTP/1.1"
        firstHeader := ("Host", url.host)
        proxyAuthorization := if isSsl then none else proxy.bind Proxy.authorization
        headers := configuredHeaders cfg calls isSsl } := by
  rw [configuredRequest, serverRequest, headers_configure, sentHeaders_foldl isSsl h,
    requestMethod_configure]
  rfl

/-- With different names the lines that are written are the expected ones. -/
theorem text_configured (h : DistinctNames (sentHeaders isSsl cfg.headers)) :
    (configuredRequest cfg calls url isSsl proxy).text.toList =
      joinLines ((expectedLines cfg calls url isSsl proxy).map String.toList) := by
  rw [configuredRequest_eq h, Request.toList_text, expectedLines]
  generalize (if isSsl then none else proxy.bind Proxy.authorization) = authorization
  cases authorization <;> simp [headerText, Function.comp_def]

theorem oneLine_requestLine (method target : String) :
    OneLine (method ++ " " ++ target ++ " HTTP/1.1").toList ↔
      OneLine method.toList ∧ OneLine target.toList := by
  have htext : (method ++ " " ++ target ++ " HTTP/1.1").toList =
      method.toList ++ ' ' :: (target.toList ++ ' ' :: "HTTP/1.1".toList) := by simp
  have hversion : OneLine "HTTP/1.1".toList := oneLine_of_not_mem (by decide)
  rw [htext, oneLine_append_cons (by decide), oneLine_append_cons (by decide)]
  exact and_congr_right fun _ => and_iff_left hversion

theorem oneLine_authorization : ∀ line ∈
    ((if isSsl then none else proxy.bind Proxy.authorization).map
      ("Proxy-Authorization: " ++ ·)).toList, OneLine line.toList := by
  intro line hline
  obtain ⟨value, hvalue, rfl⟩ := Option.mem_map.mp (Option.mem_toList.mp hline)
  split_ifs at hvalue
  · cases hvalue
  · obtain ⟨proxy, -, hproxy⟩ := Option.mem_bind_iff.mp hvalue
    rw [Proxy.authorization] at hproxy
    split_ifs at hproxy
    · cases hproxy
    · cases hproxy
      have htext : ("Proxy-Authorization: " ++ ("Basic " ++
          base64Encode (proxy.username ++ ":" ++ proxy.password))).toList =
          "Proxy-Authorization: Basic".toList ++ ' ' ::
            (base64Encode (proxy.username ++ ":" ++ proxy.password)).toList := by simp
      rw [htext, oneLine_append_cons (by decide)]
      exact ⟨oneLine_of_not_mem (by decide), oneLine_base64Encode _⟩

/-- Where the expected lines end inside. -/
theorem oneLine_expectedLines :
    (∀ line ∈ expectedLines cfg calls url isSsl proxy, OneLine line.toList) ↔
      OneLine (configuredMethod cfg calls).toList ∧ OneLine (requestTarget url proxy).toList ∧
        OneLine url.host.toList ∧ ∀ header ∈ configuredHeaders cfg calls isSsl,
          OneLine header.1.toList ∧ OneLine header.2.toList := by
  have hhost : OneLine ("Host: " ++ url.host).toList ↔ OneLine url.host.toList := by
    rw [show ("Host: " ++ url.host).toList = "Host:".toList ++ ' ' :: url.host.toList by simp,
      oneLine_append_cons (by decide)]
    exact and_iff_right (oneLine_of_not_mem (by decide))
  rw [expectedLines, List.cons_append, List.cons_append, List.forall_mem_cons,
    List.forall_mem_cons, List.forall_mem_append, oneLine_requestLine, hhost, and_assoc,
    and_iff_right oneLine_authorization, List.forall_mem_map]
  simp only [oneLine_headerText]

theorem expectedLines_ne : ∀ line ∈ expectedLines cfg calls url isSsl proxy, line.toList ≠ [] := by
  intro line hline
  rcases List.mem_append.mp hline with hline | hline
  · rcases List.mem_cons.mp hline with rfl | hline
    · simp
    · rcases List.mem_cons.mp hline with rfl | hline
      · simp
      · obtain ⟨value, -, rfl⟩ := Option.mem_map.mp (Option.mem_toList.mp hline)
        simp
  · obtain ⟨header, -, rfl⟩ := List.mem_map.mp hline
    simp [headerText]

/-- No line ends inside of one that is read back as expected. -/
theorem SaysConfigured.oneLine (h : SaysConfigured cfg calls url isSsl proxy) :
    ∀ line ∈ expectedLines cfg calls url isSsl proxy, OneLine line.toList := by
  intro line hline
  have hmem : line.toList ∈
      (splitHead (configuredRequest cfg calls url isSsl proxy).text.toList).1 := by
    rw [h.2]
    exact List.mem_map_of_mem hline
  exact oneLine_of_mem_splitHead _ hmem

variable (cfg calls url isSsl proxy)

/-- The head says what is configured exactly where nothing of it has the end of a line inside. -/
theorem saysConfigured_iff :
    SaysConfigured cfg calls url isSsl proxy ↔ Plain cfg calls url isSsl proxy := by
  constructor
  · intro h
    obtain ⟨hmethod, htarget, hhost, hheaders⟩ := oneLine_expectedLines.mp h.oneLine
    exact ⟨distinctNames_configured.mp h.1, hmethod, htarget, hhost, hheaders⟩
  · intro h
    refine ⟨distinctNames_configured.mpr h.distinct, ?_⟩
    rw [text_configured h.distinct]
    refine splitHead_joinLines (List.forall_mem_map.mpr fun line hline => ?_)
    exact ⟨expectedLines_ne line hline,
      oneLine_expectedLines.mpr ⟨h.method, h.target, h.host, h.headers⟩ line hline⟩

end Head

/-! ### The name of a file -/

/-- `DefaultHeaders`. -/
def defaultHeaders : List (String × String) :=
  [("Accept", "*/*"), ("Accept-Encoding", "gzip"), ("User-Agent", "HttpRequester"),
    ("Connection", "close")]

/-- `DoSimpleUpload::SetHeaders`, and the pipe that is set behind it. -/
def simpleUploadCalls (filename : String) (filesize : ℕ) : List ConfigCall :=
  [.header "Content-Type" "application/octet-stream", .header "x-filename" filename,
    .header "x-filesize" (toString filesize), .postData (.pipe filesize)]

def uploadConfig : Config where
  originalUrl := "http://h/"
  headers := defaultHeaders
  gunzip := fun _ => .error (.exception "")

def uploadUrl : Url where
  fullUrl := "http://h/"
  scheme := "http"
  host := "h"
  port := ""
  fullPath := "/"

/-- The name `a\r\nX: b` of a file is two lines of the head. -/
theorem not_saysConfigured_filename : ¬∀ cfg calls url isSsl proxy,
    SaysConfigured cfg calls url isSsl proxy := by
  intro h
  have hline := (h uploadConfig (simpleUploadCalls "a\r\nX: b" 1) uploadUrl false none).oneLine
    "x-filename: a\r\nX: b" (by decide +kernel)
  exact hline (by decide)

end MediafireSdk.Http
