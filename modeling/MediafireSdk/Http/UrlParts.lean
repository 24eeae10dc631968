import MediafireSdk.Http.Urls

/-! URLs that are put together from their parts, and what the constructor returns of these. -/

namespace MediafireSdk.Http

/-- A user and a password, neither with a character that ends it. -/
structure UserInfo where
  user : List Char
  password : Option (List Char)
  user_free : ∀ c ∈ user, c ∉ [':', '@', '/', '?', '#']
  password_free : ∀ p ∈ password, ∀ c ∈ p, c ∉ ['@', '/', '?', '#']

/-- The components of a URL. None has a character that ends it; a host has a colon only between
brackets. -/
structure Components where
  scheme : List Char
  userInfo : Option UserInfo
  host : List Char
  port : Option (List Char)
  path : Option (List Char)
  query : Option (List Char)
  fragment : Option (List Char)
  scheme_free : ∀ c ∈ scheme, c ∉ [':', '/', '?', '#']
  host_free : ∀ c ∈ host, c ∉ ['@', '/', '?', '#']
  host_colon : ':' ∈ host → ∃ inner, host = '[' :: inner ++ [']'] ∧ ']' ∉ inner
  port_free : ∀ p ∈ port, ∀ c ∈ p, c ∉ ['@', '/', '?', '#']
  path_slash : ∀ p ∈ path, p.head? = some '/'
  path_free : ∀ p ∈ path, ∀ c ∈ p, c ∉ ['?', '#']
  query_free : ∀ q ∈ query, '#' ∉ q

def UserInfo.text (info : UserInfo) : List Char :=
  info.user ++ info.password.elim [] (':' :: ·)

namespace Components

/-- `host[:port]`. -/
def hostPort (c : Components) : List Char := c.host ++ c.port.elim [] (':' :: ·)

/-- `[user[:password]@]host[:port]`. -/
def authority (c : Components) : List Char :=
  c.userInfo.elim [] (fun info => info.text ++ ['@']) ++ c.hostPort

/-- `[?query][#fragment]`. -/
def tail (c : Components) : List Char :=
  c.query.elim [] ('?' :: ·) ++ c.fragment.elim [] ('#' :: ·)

def compose (c : Components) : List Char :=
  c.scheme ++ "://".toList ++ (c.authority ++ (c.path.getD [] ++ c.tail))

/-- Every accessor gives its component, the empty text for one that is not there. -/
structure Returns (c : Components) (url : FullUrl) : Prop where
  scheme : url.scheme = c.scheme
  user : url.user = c.userInfo.elim [] UserInfo.user
  password : url.password = (c.userInfo.bind UserInfo.password).getD []
  host : url.host = c.host
  port : url.port = c.port.getD []
  path : url.path = c.path.getD ['/']
  query : url.query = c.query.getD []
  fragment : url.fragment = c.fragment.getD []

def RoundTrips (c : Components) : Prop :=
  ∃ url, FullUrl.parse c.compose = some url ∧ c.Returns url

/-- The components that are found again: no query or fragment right behind the authority, no user
without a password, no colon in the host, and no question mark in a fragment without a query in
front of it. -/
structure Recoverable (c : Components) : Prop where
  path : c.path = none → c.query = none ∧ c.fragment = none
  user : ∀ info ∈ c.userInfo, info.password = none → info.user = []
  host : ':' ∉ c.host
  fragment : c.query = none → ∀ f ∈ c.fragment, '?' ∉ f

end Components

/-! ### The path and what follows it -/

namespace FullUrl
variable (url : FullUrl) (pathStart : List Char)

theorem parsePath_front : (url.parsePath pathStart).scheme = url.scheme ∧
    (url.parsePath pathStart).user = url.user ∧
    (url.parsePath pathStart).password = url.password ∧
    (url.parsePath pathStart).host = url.host ∧ (url.parsePath pathStart).port = url.port := by
  unfold parsePath
  split <;> exact ⟨rfl, rfl, rfl, rfl, rfl⟩

/-- A text that has no such character, or one that is cut at the first of them. -/
theorem cut_cases (x : Char) (text : List Char) :
    (x ∉ text ∧ search [x] text = none) ∨
      ∃ before after, text = before ++ x :: after ∧ x ∉ before ∧
        search [x] text = some (before, after) := by
  by_cases h : x ∈ text
  · obtain ⟨before, after, hsearch, htext, hbefore⟩ := search_of_mem h
    exact .inr ⟨before, after, htext, hbefore, hsearch⟩
  · exact .inl ⟨h, search_of_not_mem h⟩

/-- A cut at another character loses no slash. -/
theorem cut_count {x : Char} (hx : x ≠ '/') (text : List Char) : text.count '/' =
    ((search [x] text).getD (text, [])).1.count '/' +
      ((search [x] text).getD (text, [])).2.count '/' := by
  rcases cut_cases x text with ⟨-, hnone⟩ | ⟨before, after, rfl, -, hsome⟩
  · rw [hnone]
    rfl
  · rw [hsome, List.count_append, List.count_cons_of_ne hx]
    rfl

theorem parsePath_count (h : url.query = []) :
    pathStart.count '/' = (url.parsePath pathStart).path.count '/' +
      (url.parsePath pathStart).query.count '/' +
        (url.parsePath pathStart).fragment.count '/' := by
  unfold parsePath
  rcases cut_cases '?' pathStart with ⟨-, hnone⟩ | ⟨path, query, rfl, -, hsome⟩
  · have hcut := cut_count (by decide : '#' ≠ '/') pathStart
    simp only [hnone, h, List.count_nil]
    omega
  · have hcut := cut_count (by decide : '#' ≠ '/') query
    simp only [hsome, List.count_append, List.count_cons_of_ne (by decide : '?' ≠ '/')]
    omega

end FullUrl

namespace Components
variable (c : Components)

/-- The path, the query and the fragment are found when no question mark is behind the number
sign only. -/
theorem parsePath_iff (url : FullUrl) (hquery : url.query = []) {path : List Char}
    (hpath : c.path = some path) :
    ((url.parsePath (path ++ c.tail)).path = path ∧
      (url.parsePath (path ++ c.tail)).query = c.query.getD [] ∧
        (url.parsePath (path ++ c.tail)).fragment = c.fragment.getD []) ↔
      (c.query = none → ∀ f ∈ c.fragment, '?' ∉ f) := by
  have hfree := c.path_free path hpath
  have hmark : '?' ∉ path := fun hmem => hfree _ hmem (by decide)
  have hsign : '#' ∉ path := fun hmem => hfree _ hmem (by decide)
  unfold tail
  cases hq : c.query with
  | some query =>
    have hquerySign : '#' ∉ query := c.query_free query hq
    have hcut := search_char_append (query ++ c.fragment.elim [] ('#' :: ·)) hmark
    simp only [Option.elim_some, List.cons_append]
    unfold FullUrl.parsePath
    simp only [hcut, reduceCtorEq, false_implies, iff_true, Option.getD_some]
    cases hf : c.fragment with
    | none =>
      simp [search_of_not_mem hquerySign]
    | some fragment =>
      simp [search_char_append fragment hquerySign]
  | none =>
    simp only [Option.elim_none, List.nil_append, true_implies, Option.getD_none]
    cases hf : c.fragment with
    | none =>
      unfold FullUrl.parsePath
      simp only [Option.elim_none, List.append_nil, search_of_not_mem hmark,
        search_of_not_mem hsign]
      exact iff_of_true ⟨rfl, hquery, rfl⟩ nofun
    | some fragment =>
      have hsearch : search ['#'] (path ++ '#' :: fragment) = some (path, fragment) :=
        search_char_append fragment hsign
      simp only [Option.elim_some, Option.mem_def, Option.some.injEq, forall_eq', Option.getD_some]
      by_cases hf : '?' ∈ fragment
      · -- the question mark in the fragment ends the path
        refine iff_of_false ?_ (not_not.mpr hf)
        rintro ⟨hfound, -, -⟩
        have hmem : '?' ∈ path ++ '#' :: fragment := by simp [hf]
        obtain ⟨before, after, hcut, htext, -⟩ := search_of_mem hmem
        unfold FullUrl.parsePath at hfound
        simp only [hcut] at hfound
        rw [hfound, List.append_cancel_left_eq] at htext
        exact absurd (List.cons.inj htext).1 (by decide)
      · have hnone : search ['?'] (path ++ '#' :: fragment) = none :=
          search_of_not_mem (by simp [hmark, hf])
        unfold FullUrl.parsePath
        simp only [hnone, hsearch]
        exact iff_of_true ⟨rfl, hquery, rfl⟩ hf

/-! ### The authority -/

theorem parseLogin_text_iff (info : UserInfo) :
    parseLogin info.text = (info.user, info.password.getD []) ↔
      (info.password = none → info.user = []) := by
  have hcolon : ':' ∉ info.user := fun hmem => info.user_free _ hmem (by decide)
  unfold parseLogin UserInfo.text
  cases hpassword : info.password with
  | none =>
    simp only [Option.elim_none, List.append_nil, search_of_not_mem hcolon, Option.getD_none,
      true_implies, Prod.mk.injEq, and_true]
    exact eq_comm
  | some password =>
    simp [search_char_append password hcolon]

/-- The host and the port, with some more text behind them. -/
theorem cut_hostPort_iff {x : List Char} (hx : ':' ∉ x) :
    (search [':'] (c.hostPort ++ x)).getD (c.hostPort ++ x, []) = (c.host, c.port.getD []) ↔
      ':' ∉ c.host ∧ x = [] := by
  by_cases hcolon : ':' ∈ c.host
  · refine iff_of_false (fun h => ?_) (fun h => h.1 hcolon)
    -- what is found as the host has no colon
    have hmem : ':' ∈ c.hostPort ++ x := by simp [hostPort, hcolon]
    obtain ⟨before, after, hcut, -, hbefore⟩ := search_of_mem hmem
    rw [hcut] at h
    exact hbefore ((Prod.mk.inj h).1 ▸ hcolon)
  · rw [and_iff_right hcolon]
    unfold hostPort
    cases hport : c.port with
    | none =>
      have hnone : search [':'] (c.host ++ x) = none := search_of_not_mem (by simp [hcolon, hx])
      simp [hnone]
    | some port =>
      have hsome : search [':'] (c.host ++ ':' :: (port ++ x)) = some (c.host, port ++ x) :=
        search_char_append _ hcolon
      simp [hsome]

theorem hostPort_free : ∀ x ∈ c.hostPort, x ∉ ['@', '/', '?', '#'] := by
  intro x hx
  unfold hostPort at hx
  rcases List.mem_append.mp hx with hx | hx
  · exact c.host_free x hx
  · cases hport : c.port with
    | none =>
      rw [hport] at hx
      cases hx
    | some port =>
      rw [hport] at hx
      rcases List.mem_cons.mp hx with rfl | hx
      · decide
      · exact c.port_free port hport x hx

theorem text_free (info : UserInfo) : ∀ x ∈ info.text, x ∉ ['@', '/', '?', '#'] := by
  intro x hx
  unfold UserInfo.text at hx
  rcases List.mem_append.mp hx with hx | hx
  · exact fun hmem => info.user_free x hx (List.mem_cons_of_mem _ hmem)
  · cases hpassword : info.password with
    | none =>
      rw [hpassword] at hx
      cases hx
    | some password =>
      rw [hpassword] at hx
      rcases List.mem_cons.mp hx with rfl | hx
      · decide
      · exact info.password_free password hpassword x hx

theorem slash_not_mem_authority : '/' ∉ c.authority := by
  have hhost : '/' ∉ c.hostPort := fun hmem => c.hostPort_free _ hmem (by decide)
  unfold authority
  cases c.userInfo with
  | none => exact hhost
  | some info =>
    have hinfo : '/' ∉ info.text := fun hmem => text_free info _ hmem (by decide)
    simp [hhost, hinfo]

/-- The components of the authority are found again when nothing else is taken for a part of it. -/
theorem parseChunk_iff (fullUrl scheme : List Char) {x : List Char} (hcolon : ':' ∉ x)
    (hat : '@' ∉ x) :
    ((FullUrl.parseChunk fullUrl scheme (c.authority ++ x)).user =
          c.userInfo.elim [] UserInfo.user ∧
        (FullUrl.parseChunk fullUrl scheme (c.authority ++ x)).password =
          (c.userInfo.bind UserInfo.password).getD [] ∧
        (FullUrl.parseChunk fullUrl scheme (c.authority ++ x)).host = c.host ∧
        (FullUrl.parseChunk fullUrl scheme (c.authority ++ x)).port = c.port.getD []) ↔
      (∀ info ∈ c.userInfo, info.password = none → info.user = []) ∧ ':' ∉ c.host ∧ x = [] := by
  have hhost := c.cut_hostPort_iff hcolon
  have hno : '@' ∉ c.hostPort ++ x := by
    rw [List.mem_append, not_or]
    exact ⟨fun hmem => c.hostPort_free _ hmem (by decide), hat⟩
  rw [← hhost, Prod.ext_iff]
  unfold authority FullUrl.parseChunk
  cases hinfo : c.userInfo with
  | none =>
    simp [search_of_not_mem hno]
  | some info =>
    have hlogin := parseLogin_text_iff info
    rw [Prod.ext_iff] at hlogin
    have htext : info.text ++ ['@'] ++ c.hostPort ++ x = info.text ++ '@' :: (c.hostPort ++ x) := by
      simp
    have hsome : search ['@'] (info.text ++ '@' :: (c.hostPort ++ x)) =
        some (info.text, c.hostPort ++ x) :=
      search_char_append _ fun hmem => text_free info _ hmem (by decide)
    simp only [Option.elim_some, htext, hsome, Option.bind_some, Option.mem_def, Option.some.injEq,
      forall_eq', ← hlogin]
    exact and_assoc.symm

/-! ### Whole URLs -/

theorem parse_split {scheme chunk pathStart : List Char} (hscheme : ':' ∉ scheme)
    (hchunk : '/' ∉ chunk) (hstart : ∀ x ∈ pathStart.head?, x = '/') :
    FullUrl.parse (scheme ++ "://".toList ++ (chunk ++ pathStart)) = some (
      if pathStart = [] then
        FullUrl.parseChunk (scheme ++ "://".toList ++ (chunk ++ pathStart)) scheme chunk
      else (FullUrl.parseChunk (scheme ++ "://".toList ++ (chunk ++ pathStart)) scheme
        chunk).parsePath pathStart) := by
  have hsearch : search "://".toList (scheme ++ "://".toList ++ (chunk ++ pathStart)) =
      some (scheme, chunk ++ pathStart) := search_append ['/', '/'] _ hscheme
  have hall : ∀ x ∈ chunk, (decide (x ≠ '/')) = true := fun x hx =>
    decide_eq_true fun heq => hchunk (heq ▸ hx)
  have hstop : pathStart.takeWhile (· ≠ '/') = [] ∧ pathStart.dropWhile (· ≠ '/') = pathStart := by
    cases pathStart with
    | nil => exact ⟨rfl, rfl⟩
    | cons x xs => simp [hstart x rfl]
  rw [FullUrl.parse, hsearch]
  dsimp only
  rw [List.takeWhile_append_of_pos hall, List.dropWhile_append_of_pos hall, hstop.1, hstop.2,
    List.append_nil]

theorem parse_compose {chunk pathStart : List Char}
    (htext : c.authority ++ (c.path.getD [] ++ c.tail) = chunk ++ pathStart)
    (hchunk : '/' ∉ chunk) (hstart : ∀ x ∈ pathStart.head?, x = '/') :
    FullUrl.parse c.compose = some (
      if pathStart = [] then FullUrl.parseChunk c.compose c.scheme chunk
      else (FullUrl.parseChunk c.compose c.scheme chunk).parsePath pathStart) := by
  have hcolon : ':' ∉ c.scheme := fun hmem => c.scheme_free _ hmem (by decide)
  rw [compose, htext]
  exact parse_split hcolon hchunk hstart

theorem roundTrips_iff_returns {url : FullUrl} (h : FullUrl.parse c.compose = some url) :
    c.RoundTrips ↔ c.Returns url := by
  refine ⟨fun ⟨url', hparse, hreturns⟩ => ?_, fun hreturns => ⟨url, h, hreturns⟩⟩
  cases h.symm.trans hparse
  exact hreturns

theorem roundTrips_iff_of_path {path : List Char} (hpath : c.path = some path) :
    c.RoundTrips ↔ c.Recoverable := by
  obtain ⟨rest, rfl⟩ := List.head?_eq_some_iff.mp (c.path_slash path hpath)
  have hstart : ∀ x ∈ ('/' :: rest ++ c.tail).head?, x = '/' := by simp
  have hparse := c.parse_compose (by rw [hpath]; rfl) c.slash_not_mem_authority hstart
  rw [if_neg (by simp)] at hparse
  rw [c.roundTrips_iff_returns hparse]
  have hfront := c.parseChunk_iff c.compose c.scheme (List.not_mem_nil (a := ':'))
    (List.not_mem_nil (a := '@'))
  rw [List.append_nil] at hfront
  have hback := c.parsePath_iff (FullUrl.parseChunk c.compose c.scheme c.authority) rfl hpath
  obtain ⟨hscheme, huser, hpassword, hhost, hport⟩ := FullUrl.parsePath_front
    (FullUrl.parseChunk c.compose c.scheme c.authority) ('/' :: rest ++ c.tail)
  have hgetD : c.path.getD ['/'] = '/' :: rest := by
    rw [hpath]
    rfl
  constructor
  · intro h
    obtain ⟨hlogin, hcolon, -⟩ := hfront.mp ⟨huser.symm.trans h.user,
      hpassword.symm.trans h.password, hhost.symm.trans h.host, hport.symm.trans h.port⟩
    refine ⟨fun hnone => ?_, hlogin, hcolon, ?_⟩
    · rw [hpath] at hnone
      cases hnone
    · exact hback.mp ⟨h.path.trans hgetD, h.query, h.fragment⟩
  · intro h
    obtain ⟨huser', hpassword', hhost', hport'⟩ := hfront.mpr ⟨h.user, h.host, rfl⟩
    obtain ⟨hpath', hquery', hfragment'⟩ := hback.mpr h.fragment
    exact ⟨hscheme, huser.trans huser', hpassword.trans hpassword', hhost.trans hhost',
      hport.trans hport', hpath'.trans hgetD.symm, hquery', hfragment'⟩

theorem tail_eq_nil_iff : c.tail = [] ↔ c.query = none ∧ c.fragment = none := by
  unfold tail
  cases c.query <;> cases c.fragment <;> simp

/-- A query or a fragment right behind the authority, with a slash in it: all the slashes are found
in the path, the query and the fragment, and the path has one more than there is. -/
theorem not_roundTrips_of_slash (hpath : c.path = none) (hslash : '/' ∈ c.tail) :
    ¬c.RoundTrips := by
  obtain ⟨before, after, htail, hbefore⟩ := List.eq_append_cons_of_mem hslash
  have hchunk : '/' ∉ c.authority ++ before := by simp [c.slash_not_mem_authority, hbefore]
  have htext : c.authority ++ (c.path.getD [] ++ c.tail) =
      (c.authority ++ before) ++ '/' :: after := by
    simp [hpath, htail]
  have hparse := c.parse_compose htext hchunk (by simp)
  rw [if_neg (List.cons_ne_nil _ _)] at hparse
  rw [c.roundTrips_iff_returns hparse]
  intro h
  have hcount := FullUrl.parsePath_count (FullUrl.parseChunk c.compose c.scheme
    (c.authority ++ before)) ('/' :: after) rfl
  have hsame : c.tail.count '/' = ('/' :: after).count '/' := by
    rw [htail, List.count_append, List.count_eq_zero.mpr hbefore, Nat.zero_add]
  have hparts : c.tail.count '/' =
      (c.query.getD []).count '/' + (c.fragment.getD []).count '/' := by
    unfold tail
    cases c.query <;> cases c.fragment <;> simp
  rw [h.path, h.query, h.fragment, hpath, ← hsame, hparts] at hcount
  have hone : ((none : Option (List Char)).getD ['/']).count '/' = 1 := rfl
  omega

theorem roundTrips_iff_of_no_path (hpath : c.path = none) (hslash : '/' ∉ c.tail) :
    c.RoundTrips ↔ c.Recoverable := by
  have hchunk : '/' ∉ c.authority ++ c.tail := by simp [c.slash_not_mem_authority, hslash]
  have htext : c.authority ++ (c.path.getD [] ++ c.tail) = (c.authority ++ c.tail) ++ [] := by
    simp [hpath]
  have hparse := c.parse_compose htext hchunk (by simp)
  rw [if_pos rfl] at hparse
  rw [c.roundTrips_iff_returns hparse]
  constructor
  · intro h
    -- what is taken for a part of the authority are the delimiters alone
    have hempty : c.query.getD [] = [] ∧ c.fragment.getD [] = [] := ⟨h.query.symm, h.fragment.symm⟩
    have hfree : ∀ x ∈ c.tail, x = '?' ∨ x = '#' := by
      unfold tail
      cases hq : c.query <;> cases hf : c.fragment <;> simp_all
    have hfront := (c.parseChunk_iff c.compose c.scheme
      (fun hmem => absurd (hfree _ hmem) (by decide))
      (fun hmem => absurd (hfree _ hmem) (by decide))).mp ⟨h.user, h.password, h.host, h.port⟩
    obtain ⟨huser, hhost, hnil⟩ := hfront
    have hnone := c.tail_eq_nil_iff.mp hnil
    exact ⟨fun _ => hnone, huser, hhost, fun _ f hf => by rw [hnone.2] at hf; cases hf⟩
  · intro h
    have hnone := h.path hpath
    have hnil := c.tail_eq_nil_iff.mpr hnone
    rw [hnil]
    obtain ⟨huser, hpassword, hhost, hport⟩ := (c.parseChunk_iff c.compose c.scheme
      List.not_mem_nil List.not_mem_nil).mpr ⟨h.user, h.host, rfl⟩
    refine ⟨rfl, huser, hpassword, hhost, hport, ?_, ?_, ?_⟩
    · rw [hpath]
      rfl
    · rw [hnone.1]
      rfl
    · rw [hnone.2]
      rfl

/-- For every scheme, user, password, host, port, path, query and fragment. -/
theorem roundTrips_iff_recoverable : c.RoundTrips ↔ c.Recoverable := by
  cases hpath : c.path with
  | some path => exact c.roundTrips_iff_of_path hpath
  | none =>
    by_cases hslash : '/' ∈ c.tail
    · refine iff_of_false (c.not_roundTrips_of_slash hpath hslash) fun h => ?_
      rw [c.tail_eq_nil_iff.mpr (h.path hpath)] at hslash
      cases hslash
    · exact c.roundTrips_iff_of_no_path hpath hslash

end Components

/-! ### A query behind the host -/

/-- `http://h?q`. -/
def queryBehindHost : Components where
  scheme := ['h', 't', 't', 'p']
  userInfo := none
  host := ['h']
  port := none
  path := none
  query := some ['q']
  fragment := none
  scheme_free := by simp
  host_free := by simp
  host_colon := by simp
  port_free := nofun
  path_slash := nofun
  path_free := nofun
  query_free := by simp

/-- The host that is returned is `h?q`. -/
theorem not_roundTrips_queryBehindHost : ¬queryBehindHost.RoundTrips := by
  rintro ⟨url, hparse, hreturns⟩
  have heval : FullUrl.parse queryBehindHost.compose =
      some { fullUrl := "http://h?q".toList, scheme := ['h', 't', 't', 'p']
             host := ['h', '?', 'q'], port := [] } := by decide
  cases heval.symm.trans hparse
  exact absurd hreturns.host (by decide)

end MediafireSdk.Http
