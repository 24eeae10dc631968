import MediafireSdk.Http.Requests

/-! URLs with all their parts (`url.cpp`): the constructor and `FromRedirect`. The constructor looks
for each delimiter by itself. The host reaches to the first slash, so that a query right behind it
belongs to the host; a question mark is looked for before the fragment, also in the fragment; and
user information without a colon is left out. -/

namespace MediafireSdk.Http

/-- `Url` with everything that it returns, one character for each byte. -/
structure FullUrl where
  fullUrl : List Char
  scheme : List Char
  user : List Char := []
  password : List Char := []
  host : List Char
  port : List Char
  path : List Char := ['/']
  fullPath : List Char := ['/']
  query : List Char := []
  fragment : List Char := []
  deriving DecidableEq, Repr

/-! ### The constructor -/

/-- The user and the password in front of a host; without a colon there are none. -/
def parseLogin (login : List Char) : List Char × List Char := (search [':'] login).getD ([], [])

/-- `Url::ParsePath`. -/
def FullUrl.parsePath (url : FullUrl) (pathStart : List Char) : FullUrl :=
  match search ['?'] pathStart with
  | some (path, query) =>
    let (query, fragment) := (search ['#'] query).getD (query, [])
    { url with path := path, fullPath := pathStart, query := query, fragment := fragment }
  | none =>
    let (path, fragment) := (search ['#'] pathStart).getD (pathStart, [])
    { url with path := path, fullPath := pathStart, fragment := fragment }

/-- What stands between the scheme and the first slash. -/
def FullUrl.parseChunk (fullUrl scheme chunk : List Char) : FullUrl :=
  let (login, rest) := match search ['@'] chunk with
    | some (login, rest) => (parseLogin login, rest)
    | none => (([], []), chunk)
  let (host, port) := (search [':'] rest).getD (rest, [])
  { fullUrl := fullUrl, scheme := scheme, user := login.1, password := login.2, host := host
    port := port }

/-- The constructor; `none` is `InvalidUrl`. -/
def FullUrl.parse (url : List Char) : Option FullUrl :=
  match search "://".toList url with
  | none => none
  | some (scheme, rest) =>
    let parsed := parseChunk url scheme (rest.takeWhile (· ≠ '/'))
    let pathStart := rest.dropWhile (· ≠ '/')
    some (if pathStart = [] then parsed else parsed.parsePath pathStart)

/-- The user information in a URL that is put together again. -/
def FullUrl.login (url : FullUrl) : List Char :=
  if url.user = [] ∧ url.password = [] then [] else url.user ++ ':' :: url.password ++ ['@']

/-- `Url::FromRedirect`. -/
def FullUrl.fromRedirect (url : FullUrl) (redirect : List Char) : Option FullUrl :=
  if (search "://".toList redirect).isSome then parse redirect
  else if "//".toList.isPrefixOf redirect then parse (url.scheme ++ ':' :: redirect)
  else parse (url.scheme ++ "://".toList ++ url.login ++ url.host
    ++ (if url.port = [] then [] else ':' :: url.port) ++ redirect)

/-- The parts that requests use. -/
def FullUrl.toUrl (url : FullUrl) : Url where
  fullUrl := String.ofList url.fullUrl
  scheme := String.ofList url.scheme
  host := String.ofList url.host
  port := String.ofList url.port
  fullPath := String.ofList url.fullPath

/-! ### Separators -/

section Search
variable {x : Char} {separator text before after : List Char}

theorem search_eq_some (h : search separator text = some (before, after)) :
    text = before ++ separator ++ after := by
  induction text generalizing before with
  | nil => cases h
  | cons c text ih =>
    rw [search] at h
    split_ifs at h with hprefix
    · cases h
      obtain ⟨rest, hrest⟩ := List.isPrefixOf_iff_prefix.mp hprefix
      rw [← hrest, List.drop_left]
      rfl
    · obtain ⟨⟨before', after'⟩, hsearch, heq⟩ := Option.map_eq_some_iff.mp h
      cases heq
      exact congrArg (c :: ·) (ih hsearch)

/-- A separator is found exactly where there is one. -/
theorem isSome_search (hne : separator ≠ []) :
    (search separator text).isSome = true ↔ separator <:+: text := by
  induction text with
  | nil => simp [search, hne]
  | cons c text ih =>
    rw [search, List.infix_cons_iff]
    split_ifs with hprefix
    · exact iff_of_true rfl (.inl (List.isPrefixOf_iff_prefix.mp hprefix))
    · rw [Option.isSome_map, ih]
      exact (or_iff_right (List.isPrefixOf_iff_prefix.not.mp hprefix)).symm

/-- A separator behind text that lacks its first character. -/
theorem search_append (separator after : List Char) (h : x ∉ before) :
    search (x :: separator) (before ++ x :: separator ++ after) = some (before, after) := by
  induction before with
  | nil =>
    rw [List.nil_append, List.cons_append, search, if_pos]
    · have hdrop : (x :: separator ++ after).drop (x :: separator).length = after := List.drop_left
      exact congrArg (fun rest => some ([], rest)) hdrop
    · exact List.isPrefixOf_iff_prefix.mpr (List.prefix_append (x :: separator) after)
  | cons c before ih =>
    obtain ⟨hc, hbefore⟩ := not_or.mp (List.mem_cons.not.mp h)
    rw [List.cons_append, List.cons_append, search, if_neg, ih hbefore]
    · rfl
    · rw [List.isPrefixOf_iff_prefix, List.cons_prefix_cons]
      exact fun h => hc h.1

theorem search_char_append (after : List Char) (h : x ∉ before) :
    search [x] (before ++ x :: after) = some (before, after) := by
  have := search_append [] after h
  rwa [List.append_assoc] at this

theorem search_of_not_mem (h : x ∉ text) : search [x] text = none := by
  rw [← Option.not_isSome_iff_eq_none, isSome_search (List.cons_ne_nil x [])]
  exact fun hsub => h (hsub.subset (List.mem_singleton_self x))

theorem search_of_mem (h : x ∈ text) : ∃ before after,
    search [x] text = some (before, after) ∧ text = before ++ x :: after ∧ x ∉ before := by
  obtain ⟨before, after, rfl, hbefore⟩ := List.eq_append_cons_of_mem h
  exact ⟨before, after, search_char_append after hbefore, rfl, hbefore⟩

end Search

/-! ### The parts of requests -/

theorem parsePath_fullPath (url : FullUrl) (pathStart : List Char) :
    (url.parsePath pathStart).toUrl =
      { url.toUrl with fullPath := String.ofList pathStart } := by
  unfold FullUrl.parsePath
  split <;> rfl

/-- The URL of a request is this one with fewer parts. -/
theorem parse_toUrl (url : String) :
    (FullUrl.parse url.toList).map FullUrl.toUrl = Url.parse url := by
  unfold FullUrl.parse Url.parse
  cases hscheme : search "://".toList url.toList with
  | none => rfl
  | some parts =>
    obtain ⟨scheme, rest⟩ := parts
    simp only [Option.map_some, Option.bind_eq_bind, Option.bind_some]
    generalize rest.takeWhile (· ≠ '/') = chunk
    generalize rest.dropWhile (· ≠ '/') = pathStart
    cases hlogin : search ['@'] chunk
    all_goals
      split_ifs
      · simp [FullUrl.toUrl, FullUrl.parseChunk, hlogin]
      · rw [parsePath_fullPath]
        simp [FullUrl.toUrl, FullUrl.parseChunk, hlogin]

end MediafireSdk.Http
