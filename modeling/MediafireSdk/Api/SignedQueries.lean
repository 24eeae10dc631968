import MediafireSdk.Api.KeySchedule
import MediafireSdk.Utils.UrlEncode

/-! Queries with a session token and a signature (`session_token_api_base_static.cpp`). The server
decodes the query of a GET before it checks the signature, and takes the body of a POST as it is.
Strings are lists of bytes; the digest of MD5 comes from a library. -/

namespace MediafireSdk.Api

open Utils Utils.UrlEncode Words

/-! ### Signed requests -/

/-- A text as the bytes that it is made of. -/
def ascii (text : String) : List UInt8 := text.toList.map fun c => UInt8.ofNat c.toNat

inductive RequestMethod where
  | get | post
  deriving DecidableEq, Repr

/-- A digit of `%x`. -/
def lowerHexDigit (value : ℕ) : UInt8 :=
  if value < 10 then UInt8.ofNat (48 + value) else UInt8.ofNat (87 + value)

/-- `HashMd5`. -/
def hashMd5 (md5 : List UInt8 → Fin 16 → UInt8) (str : List UInt8) : List UInt8 :=
  (List.ofFn (md5 str)).flatMap fun b =>
    [lowerHexDigit (b.toNat / 16), lowerHexDigit (b.toNat % 16)]

/-- The map of the query, in the order of its keys. -/
abbrev QueryParts := List (List UInt8 × List UInt8)

structure SessionTokenApiBaseStatic where
  sessionToken : List UInt8
  time : List UInt8
  secretKey : ℤ

namespace SessionTokenApiBaseStatic
variable (md5 : List UInt8 → Fin 16 → UInt8) (api : SessionTokenApiBaseStatic)

/-- `GetSignature`. -/
def getSignature (pathAndQuery : List UInt8) : List UInt8 :=
  hashMd5 md5 (ascii (toString (api.secretKey.tmod 256)) ++ api.time ++ pathAndQuery)

/-- `MakePathAndQuery`. -/
def makePathAndQuery (method : RequestMethod) (urlPath : List UInt8) (queryParts : QueryParts) :
    List UInt8 :=
  match method with
  | .post =>
    let (query, _) := queryParts.foldl (fun (query, separator) (key, value) =>
      (query ++ separator :: key ++ 61 :: Percent.encode value, 38)) ([], 63)
    urlPath ++ query
  | .get =>
    let query := ascii "?session_token=" ++ api.sessionToken
    let (query, unencodedQuery) := queryParts.foldl (fun (query, unencodedQuery) (key, value) =>
      (query ++ 38 :: key ++ 61 :: Percent.encode value,
        unencodedQuery ++ 38 :: key ++ 61 :: value)) (query, query)
    urlPath ++ query ++ ascii "&signature=" ++ api.getSignature md5 (urlPath ++ unencodedQuery)

/-- `MakePost`. -/
def makePost (urlPath : List UInt8) (queryParts : QueryParts) : List UInt8 :=
  let query := queryParts.foldl (fun query (key, value) =>
    query ++ 38 :: key ++ 61 :: Percent.encode value)
    (ascii "session_token=" ++ api.sessionToken)
  query ++ ascii "&signature=" ++ api.getSignature md5 (urlPath ++ 63 :: query)

end SessionTokenApiBaseStatic

/-! ### Queries -/

/-- `key=value`. -/
def field (part : List UInt8 × List UInt8) : List UInt8 := part.1 ++ 61 :: part.2

/-- The fields with `&` between them. -/
def joinParts (parts : QueryParts) : List UInt8 := [38].intercalate (parts.map field)

/-- Split at each `&` and the first `=`, and the values decoded. -/
def parseParts (query : List UInt8) : Except Failure QueryParts :=
  (query.splitOn 38).mapM fun part => do
    return (part.takeWhile (· ≠ 61), ← PercentPlus.decode (part.dropWhile (· ≠ 61)).tail)

def encodeValue (part : List UInt8 × List UInt8) : List UInt8 × List UInt8 :=
  (part.1, Percent.encode part.2)

theorem mapM_eq_ok_self {α ε : Type*} {f : α → Except ε α} {l : List α} :
    l.mapM f = .ok l ↔ ∀ x ∈ l, f x = .ok x := by
  induction l with
  | nil => simp [pure, Except.pure]
  | cons x l ih =>
    rw [List.mapM_cons, List.forall_mem_cons, ← ih]
    cases hx : f x with
    | error e => simp [bind, Except.bind]
    | ok y =>
      cases hl : l.mapM f with
      | error e => simp [bind, Except.bind]
      | ok ys => simp [bind, Except.bind, pure, Except.pure]

/-- A field is cut where its key ends. -/
theorem field_cut {key value : List UInt8} (hkey : 61 ∉ key) :
    (field (key, value)).takeWhile (· ≠ 61) = key ∧
      ((field (key, value)).dropWhile (· ≠ 61)).tail = value := by
  have hall : ∀ c ∈ key, decide (c ≠ 61) = true :=
    fun c hc => decide_eq_true (ne_of_mem_of_not_mem hc hkey)
  rw [field, List.takeWhile_append_of_pos hall, List.dropWhile_append_of_pos hall]
  simp

/-- Parts whose keys have no separators, with their values encoded, are split as they are. -/
theorem parseParts_joinParts {parts : QueryParts} (hne : parts ≠ [])
    (hkeys : ∀ part ∈ parts, 38 ∉ part.1 ∧ 61 ∉ part.1) :
    parseParts (joinParts (parts.map encodeValue)) = .ok parts ↔
      ∀ part ∈ parts, part.2.length < 2 ^ 31 := by
  have hsplit : (joinParts (parts.map encodeValue)).splitOn 38 =
      parts.map fun part => field (encodeValue part) := by
    rw [joinParts, List.map_map]
    refine List.splitOn_intercalate 38 ?_ (by simpa using hne)
    intro text htext
    obtain ⟨part, hpart, rfl⟩ := List.mem_map.mp htext
    have hvalue : 38 ∉ Percent.encode part.2 :=
      (encoded_urlEncodeBase .no part.2).not_separator (by decide)
    simp [field, encodeValue, (hkeys part hpart).1, hvalue]
  rw [parseParts, hsplit, List.mapM_map, mapM_eq_ok_self]
  refine forall₂_congr fun part hpart => ?_
  obtain ⟨hkey, hvalue⟩ := @field_cut _ (Percent.encode part.2) (hkeys part hpart).2
  rw [Function.comp_apply, encodeValue, hkey, hvalue]
  rcases Nat.lt_or_ge part.2.length (2 ^ 31) with hlt | hle
  · have hdecode : PercentPlus.decode (Percent.encode part.2) = .ok part.2 :=
      urlUnencodeBase_of_lt hlt .no
    rw [hdecode]
    exact iff_of_true rfl hlt
  · have hdecode : PercentPlus.decode (Percent.encode part.2) = .error .overflow :=
      urlUnencodeBase_of_le hle .no
    rw [hdecode]
    exact iff_of_false nofun (Nat.not_lt.mpr hle)

/-- A first part and others behind it. -/
theorem joinParts_cons (part : List UInt8 × List UInt8) (parts : QueryParts) :
    joinParts (part :: parts) = field part ++ parts.flatMap fun part => 38 :: field part := by
  rw [joinParts, List.map_cons, intercalate_cons, List.flatMap_map]

theorem joinParts_append (part last : List UInt8 × List UInt8) (parts : QueryParts) :
    joinParts (part :: parts ++ [last]) = joinParts (part :: parts) ++ 38 :: field last := by
  rw [List.cons_append, joinParts_cons, joinParts_cons, List.flatMap_append, List.append_assoc]
  simp

theorem foldl_field (f : List UInt8 → List UInt8) (parts : QueryParts) (query : List UInt8) :
    parts.foldl (fun query (key, value) => query ++ 38 :: key ++ 61 :: f value) query =
      query ++ parts.flatMap fun part => 38 :: field (part.1, f part.2) := by
  induction parts generalizing query with
  | nil => simp
  | cons part parts ih =>
    rw [List.foldl_cons, ih, List.flatMap_cons]
    simp [field]

/-! ### Unreserved texts -/

theorem requiresPercentEncoding_of_unreserved {c : UInt8} (h : Unreserved c) :
    requiresPercentEncoding c = false :=
  forall_byte (p := fun c => Unreserved c → requiresPercentEncoding c = false)
    (by decide +kernel) c h

theorem encode_unreserved {text : List UInt8} (h : ∀ c ∈ text, Unreserved c) :
    Percent.encode text = text := by
  induction text with
  | nil => rfl
  | cons c text ih =>
    obtain ⟨hc, hrest⟩ := List.forall_mem_cons.mp h
    have hchar : encodeChar .no c = [c] := by
      rw [encodeChar, if_pos (by simp [requiresPercentEncoding_of_unreserved hc])]
    have hcons : Percent.encode (c :: text) = encodeChar .no c ++ Percent.encode text :=
      List.flatMap_cons
    rw [hcons, hchar, ih hrest]
    rfl

theorem unreserved_separators : ¬Unreserved 38 ∧ ¬Unreserved 61 := by decide +kernel

theorem hashMd5_spec (md5 : List UInt8 → Fin 16 → UInt8) (str : List UInt8) :
    (hashMd5 md5 str).length = 32 ∧ ∀ c ∈ hashMd5 md5 str, Unreserved c := by
  constructor
  · simp [hashMd5]
  · intro c hc
    obtain ⟨b, -, hc⟩ := List.mem_flatMap.mp hc
    have hdigit : ∀ value < 16, Unreserved (lowerHexDigit value) := by decide +kernel
    have hlt := b.toNat_lt
    rcases List.mem_cons.mp hc with rfl | hc
    · exact hdigit _ (by omega)
    · rw [List.mem_singleton.mp hc]
      exact hdigit _ (by omega)

/-! ### What the server gets -/

section Server
variable (md5 : List UInt8 → Fin 16 → UInt8) (api : SessionTokenApiBaseStatic)
  (urlPath : List UInt8) (queryParts : QueryParts)

/-- The token as the first part. -/
def tokenPart : List UInt8 × List UInt8 := (ascii "session_token", api.sessionToken)

def signaturePart (signature : List UInt8) : List UInt8 × List UInt8 :=
  (ascii "signature", signature)

/-- MD5 of the key, the time, the path and a query. -/
def signatureOf (query : List UInt8) : List UInt8 :=
  hashMd5 md5 (ascii (toString (api.secretKey % 256)) ++ api.time ++ urlPath ++ 63 :: query)

/-- Splitting and decoding gives the token, the parts in their order and the signature. -/
def Recovers (query signature : List UInt8) : Prop :=
  parseParts query = .ok (tokenPart api :: queryParts ++ [signaturePart signature])

/-- The query of a GET is recovered, and signed in its decoded form. -/
def SignsGet : Prop :=
  ∃ query signature, api.makePathAndQuery md5 .get urlPath queryParts = urlPath ++ 63 :: query ∧
    Recovers api queryParts query signature ∧
    signature = signatureOf md5 api urlPath (joinParts (tokenPart api :: queryParts))

/-- The body of a POST is recovered, and signed as it is but for the signature. -/
def SignsPost : Prop :=
  ∃ query signature, api.makePost md5 urlPath queryParts =
      query ++ 38 :: field (signaturePart signature) ∧
    Recovers api queryParts (api.makePost md5 urlPath queryParts) signature ∧
    signature = signatureOf md5 api urlPath query

/-- Keys and token of unreserved characters, and a key that the server gives out. -/
structure Signable : Prop where
  keys : ∀ part ∈ queryParts, ∀ c ∈ part.1, Unreserved c
  token : ∀ c ∈ api.sessionToken, Unreserved c
  secretKey : KeyInRange api.secretKey

variable {md5 api urlPath queryParts}

theorem getSignature_eq (h : Signable api queryParts) (query : List UInt8) :
    api.getSignature md5 (urlPath ++ 63 :: query) = signatureOf md5 api urlPath query := by
  have hmod : api.secretKey.tmod 256 = api.secretKey % 256 :=
    Int.tmod_eq_emod_of_nonneg (by have := h.secretKey.1; omega)
  rw [SessionTokenApiBaseStatic.getSignature, hmod, signatureOf, ← List.append_assoc]

theorem field_signaturePart (signature : List UInt8) :
    ascii "&signature=" ++ signature = 38 :: field (signaturePart signature) := rfl

theorem foldl_fields (query unencodedQuery : List UInt8) :
    queryParts.foldl (fun (query, unencodedQuery) (key, value) =>
      (query ++ 38 :: key ++ 61 :: Percent.encode value,
        unencodedQuery ++ 38 :: key ++ 61 :: value)) (query, unencodedQuery) =
      (query ++ queryParts.flatMap (fun part => 38 :: field (encodeValue part)),
        unencodedQuery ++ queryParts.flatMap fun part => 38 :: field part) := by
  induction queryParts generalizing query unencodedQuery with
  | nil => simp
  | cons part parts ih =>
    rw [List.foldl_cons, ih, List.flatMap_cons, List.flatMap_cons]
    simp [field, encodeValue]

theorem joinParts_encoded (part : List UInt8 × List UInt8) :
    joinParts (part :: queryParts.map encodeValue) =
      field part ++ queryParts.flatMap fun part => 38 :: field (encodeValue part) := by
  rw [joinParts_cons, List.flatMap_map]

theorem makePathAndQuery_get (h : Signable api queryParts) :
    api.makePathAndQuery md5 .get urlPath queryParts = urlPath ++ 63 ::
      (joinParts (tokenPart api :: queryParts.map encodeValue) ++ 38 :: field (signaturePart
        (signatureOf md5 api urlPath (joinParts (tokenPart api :: queryParts))))) := by
  have hstart : ascii "?session_token=" ++ api.sessionToken = 63 :: field (tokenPart api) := rfl
  rw [SessionTokenApiBaseStatic.makePathAndQuery]
  simp only [foldl_fields, hstart]
  rw [List.append_assoc, field_signaturePart, List.cons_append, ← joinParts_encoded,
    List.cons_append, ← joinParts_cons, getSignature_eq h, List.append_assoc, List.cons_append]

theorem makePost_eq (h : Signable api queryParts) :
    api.makePost md5 urlPath queryParts =
      joinParts (tokenPart api :: queryParts.map encodeValue) ++ 38 :: field (signaturePart
        (signatureOf md5 api urlPath
          (joinParts (tokenPart api :: queryParts.map encodeValue)))) := by
  have hstart : ascii "session_token=" ++ api.sessionToken = field (tokenPart api) := rfl
  have hquery : field (tokenPart api) ++ queryParts.flatMap (fun part =>
      38 :: field (part.1, Percent.encode part.2)) =
      joinParts (tokenPart api :: queryParts.map encodeValue) := (joinParts_encoded _).symm
  rw [SessionTokenApiBaseStatic.makePost]
  simp only [foldl_field, hstart, hquery]
  rw [List.append_assoc, field_signaturePart, getSignature_eq h]

/-- The values that are sent are the encoded ones, also where nothing is encoded. -/
theorem recovers_iff (h : Signable api queryParts) {signature : List UInt8}
    (hlength : signature.length = 32) (hsignature : ∀ c ∈ signature, Unreserved c) :
    Recovers api queryParts (joinParts (tokenPart api :: queryParts.map encodeValue) ++
        38 :: field (signaturePart signature)) signature ↔
      api.sessionToken.length < 2 ^ 31 ∧ ∀ part ∈ queryParts, part.2.length < 2 ^ 31 := by
  have htoken : encodeValue (tokenPart api) = tokenPart api := by
    rw [encodeValue, tokenPart, encode_unreserved h.token]
  have hlast : encodeValue (signaturePart signature) = signaturePart signature := by
    rw [encodeValue, signaturePart, encode_unreserved hsignature]
  have hjoin : joinParts (tokenPart api :: queryParts.map encodeValue) ++
      38 :: field (signaturePart signature) = joinParts
        ((tokenPart api :: queryParts ++ [signaturePart signature]).map encodeValue) := by
    rw [← joinParts_append, List.map_append, List.map_cons, htoken, List.map_singleton, hlast]
  have hkeys : ∀ part ∈ tokenPart api :: queryParts ++ [signaturePart signature],
      38 ∉ part.1 ∧ 61 ∉ part.1 := by
    have hunreserved : ∀ text : List UInt8, (∀ c ∈ text, Unreserved c) → 38 ∉ text ∧ 61 ∉ text :=
      fun text htext => ⟨fun hmem => unreserved_separators.1 (htext _ hmem),
        fun hmem => unreserved_separators.2 (htext _ hmem)⟩
    intro part hpart
    rcases List.mem_append.mp hpart with hpart | hpart
    · rcases List.mem_cons.mp hpart with rfl | hpart
      · exact hunreserved (ascii "session_token") (by decide +kernel)
      · exact hunreserved _ (h.keys part hpart)
    · rw [List.mem_singleton.mp hpart]
      exact hunreserved (ascii "signature") (by decide +kernel)
  rw [Recovers, hjoin, parseParts_joinParts (by simp) hkeys, List.forall_mem_append,
    List.forall_mem_cons, List.forall_mem_singleton]
  refine and_iff_left ?_
  rw [signaturePart, hlength]
  decide

/-- Queries are signed over what the server rebuilds, and recovered as long as the decoder can
count what it decodes. -/
theorem signs_iff (h : Signable api queryParts) :
    SignsGet md5 api urlPath queryParts ∧ SignsPost md5 api urlPath queryParts ↔
      api.sessionToken.length < 2 ^ 31 ∧ ∀ part ∈ queryParts, part.2.length < 2 ^ 31 := by
  have hrecovers : ∀ query, Recovers api queryParts
      (joinParts (tokenPart api :: queryParts.map encodeValue) ++
        38 :: field (signaturePart (signatureOf md5 api urlPath query)))
      (signatureOf md5 api urlPath query) ↔
        api.sessionToken.length < 2 ^ 31 ∧ ∀ part ∈ queryParts, part.2.length < 2 ^ 31 :=
    fun query => recovers_iff h (hashMd5_spec md5 _).1 (hashMd5_spec md5 _).2
  constructor
  · rintro ⟨⟨query, signature, hquery, hrec, rfl⟩, -⟩
    rw [makePathAndQuery_get h, List.append_cancel_left_eq, List.cons_inj_right] at hquery
    rw [← hquery] at hrec
    exact (hrecovers _).mp hrec
  · intro hbound
    refine ⟨⟨_, _, makePathAndQuery_get h, (hrecovers _).mpr hbound, rfl⟩,
      ⟨_, _, makePost_eq h, ?_, rfl⟩⟩
    rw [makePost_eq h]
    exact (hrecovers _).mpr hbound

end Server

/-! ### A short value and a long one -/

def shortApi : SessionTokenApiBaseStatic where
  sessionToken := ascii "t0ken"
  time := ascii "1400000000.1234"
  secretKey := 1

def pathName : List UInt8 × List UInt8 := (ascii "path", ascii "/a b")

/-- MD5 of what is signed for `pathName`, decoded and encoded. -/
def shortDigest (text : List UInt8) (i : Fin 16) : UInt8 :=
  if text = ascii "11400000000.1234/api/f.php?session_token=t0ken&path=/a b" then
    #v[153, 191, 172, 57, 204, 172, 99, 108, 3, 216, 38, 233, 107, 174, 109, 202].get i
  else if text = ascii "11400000000.1234/api/f.php?session_token=t0ken&path=%2Fa%20b" then
    #v[68, 122, 245, 247, 196, 29, 91, 61, 9, 204, 157, 218, 29, 201, 173, 66].get i
  else 0

example : shortApi.makePost shortDigest (ascii "/api/f.php") [pathName] =
    ascii ("session_token=t0ken&path=%2Fa%20b&signature=" ++
      "447af5f7c41d5b3d09cc9dda1dc9ad42") := by
  decide +kernel

theorem signable_shortApi (value : List UInt8) : Signable shortApi [(ascii "path", value)] where
  keys := by
    simp only [List.forall_mem_singleton]
    decide +kernel
  token := by decide +kernel
  secretKey := by
    constructor <;> decide

theorem signs_iff_pathName :
    SignsGet shortDigest shortApi (ascii "/api/f.php") [pathName] ∧
        SignsPost shortDigest shortApi (ascii "/api/f.php") [pathName] ↔
      shortApi.sessionToken.length < 2 ^ 31 ∧ ∀ part ∈ [pathName], part.2.length < 2 ^ 31 :=
  signs_iff (signable_shortApi _)

/-- A value of 2 GiB is not recovered. -/
theorem not_signs_two_gb : ¬SignsGet shortDigest shortApi (ascii "/api/f.php")
    [(ascii "path", List.replicate (2 ^ 31) 97)] := by
  rintro ⟨query, signature, hquery, hrec, rfl⟩
  have h := signable_shortApi (List.replicate (2 ^ 31) 97)
  rw [makePathAndQuery_get h, List.append_cancel_left_eq, List.cons_inj_right] at hquery
  rw [← hquery] at hrec
  have hlt := ((recovers_iff h (hashMd5_spec _ _).1 (hashMd5_spec _ _).2).mp hrec).2 _
    (List.mem_singleton_self _)
  rw [List.length_replicate] at hlt
  exact absurd hlt (lt_irrefl _)

end MediafireSdk.Api
