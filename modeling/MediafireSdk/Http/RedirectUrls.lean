import MediafireSdk.Http.UrlParts

/-! `Url::FromRedirect`. A redirect that has `://` anywhere is taken for a whole URL. -/

namespace MediafireSdk.Http

/-! ### Put together again -/

namespace FullUrl

/-- An authority as the constructor cuts it. -/
structure Cut (url : FullUrl) : Prop where
  user_colon : ':' ∉ url.user
  user_at : '@' ∉ url.user
  password_at : '@' ∉ url.password
  host_colon : ':' ∉ url.host
  slash : '/' ∉ url.user ∧ '/' ∉ url.password ∧ '/' ∉ url.host ∧ '/' ∉ url.port

/-- The parts before and behind a character, without the characters that the text lacks. -/
theorem getD_search_not_mem {x y : Char} {text : List Char} (h : y ∉ text) :
    y ∉ ((search [x] text).getD (text, [])).1 ∧ y ∉ ((search [x] text).getD (text, [])).2 := by
  rcases cut_cases x text with ⟨-, hnone⟩ | ⟨before, after, rfl, -, hsome⟩
  · rw [hnone]
    exact ⟨h, List.not_mem_nil⟩
  · rw [hsome]
    simp only [List.mem_append, List.mem_cons, not_or] at h
    exact ⟨h.1, h.2.2⟩

theorem getD_search_first (x : Char) (text : List Char) :
    x ∉ ((search [x] text).getD (text, [])).1 := by
  rcases cut_cases x text with ⟨hnot, hnone⟩ | ⟨before, after, rfl, hbefore, hsome⟩
  · rw [hnone]
    exact hnot
  · rw [hsome]
    exact hbefore

theorem parseLogin_not_mem {y : Char} {login : List Char} (h : y ∉ login) :
    y ∉ (parseLogin login).1 ∧ y ∉ (parseLogin login).2 := by
  unfold parseLogin
  rcases cut_cases ':' login with ⟨-, hnone⟩ | ⟨before, after, rfl, -, hsome⟩
  · rw [hnone]
    exact ⟨List.not_mem_nil, List.not_mem_nil⟩
  · rw [hsome]
    simp only [List.mem_append, List.mem_cons, not_or] at h
    exact ⟨h.1, h.2.2⟩

theorem parseLogin_colon (login : List Char) : ':' ∉ (parseLogin login).1 := by
  unfold parseLogin
  rcases cut_cases ':' login with ⟨-, hnone⟩ | ⟨before, after, rfl, hbefore, hsome⟩
  · rw [hnone]
    exact List.not_mem_nil
  · rw [hsome]
    exact hbefore

theorem parseChunk_cut (fullUrl scheme : List Char) {chunk : List Char} (hslash : '/' ∉ chunk) :
    (parseChunk fullUrl scheme chunk).Cut := by
  unfold parseChunk
  rcases cut_cases '@' chunk with ⟨-, hnone⟩ | ⟨login, rest, rfl, hlogin, hsome⟩
  · rw [hnone]
    obtain ⟨hhost, hport⟩ := getD_search_not_mem (x := ':') hslash
    exact ⟨List.not_mem_nil, List.not_mem_nil, List.not_mem_nil, getD_search_first ':' chunk,
      List.not_mem_nil, List.not_mem_nil, hhost, hport⟩
  · rw [hsome]
    simp only [List.mem_append, List.mem_cons, not_or] at hslash
    obtain ⟨hhost, hport⟩ := getD_search_not_mem (x := ':') hslash.2.2
    obtain ⟨huserAt, hpasswordAt⟩ := parseLogin_not_mem hlogin
    obtain ⟨huser, hpassword⟩ := parseLogin_not_mem hslash.1
    exact ⟨parseLogin_colon login, huserAt, hpasswordAt, getD_search_first ':' rest,
      huser, hpassword, hhost, hport⟩

/-- The text that `fromRedirect` puts between the scheme and the redirect. -/
def front (url : FullUrl) : List Char :=
  url.login ++ url.host ++ (if url.port = [] then [] else ':' :: url.port)

variable {url : FullUrl}

theorem slash_not_mem_front (h : url.Cut) : '/' ∉ url.front := by
  obtain ⟨huser, hpassword, hhost, hport⟩ := h.slash
  unfold front login
  split_ifs <;> simp [huser, hpassword, hhost, hport]

/-- What is put together again is cut in the same way. -/
theorem parseChunk_front (h : url.Cut) (hhost : '@' ∉ url.host) (hport : '@' ∉ url.port)
    (fullUrl scheme : List Char) :
    (parseChunk fullUrl scheme url.front).user = url.user ∧
      (parseChunk fullUrl scheme url.front).password = url.password ∧
      (parseChunk fullUrl scheme url.front).host = url.host ∧
      (parseChunk fullUrl scheme url.front).port = url.port := by
  have hcut : (search [':'] (url.host ++ if url.port = [] then [] else ':' :: url.port)).getD
      (url.host ++ (if url.port = [] then [] else ':' :: url.port), []) = (url.host, url.port) := by
    split_ifs with hempty
    · rw [List.append_nil, search_of_not_mem h.host_colon, hempty]
      rfl
    · rw [search_char_append _ h.host_colon]
      rfl
  have hno : '@' ∉ url.host ++ if url.port = [] then [] else ':' :: url.port := by
    split_ifs <;> simp [hhost, hport]
  unfold front login
  rw [List.append_assoc]
  generalize url.host ++ (if url.port = [] then [] else ':' :: url.port) = rest at hcut hno ⊢
  rw [Prod.ext_iff] at hcut
  unfold parseChunk
  split_ifs with hlogin
  · simp only [List.nil_append, search_of_not_mem hno]
    exact ⟨hlogin.1.symm, hlogin.2.symm, hcut⟩
  · have htext : url.user ++ ':' :: url.password ++ ['@'] ++ rest =
        (url.user ++ ':' :: url.password) ++ '@' :: rest := by simp
    have hat : '@' ∉ url.user ++ ':' :: url.password := by simp [h.user_at, h.password_at]
    have hpair : parseLogin (url.user ++ ':' :: url.password) = (url.user, url.password) := by
      rw [parseLogin, search_char_append _ h.user_colon]
      rfl
    simp only [htext, search_char_append rest hat, hpair]
    exact ⟨trivial, trivial, hcut⟩

end FullUrl

/-! ### The parts of a reference -/

/-- The path of a reference without a host: up to a question mark or a number sign. -/
def refPath (r : List Char) : List Char := r.takeWhile fun x => x ≠ '?' && x ≠ '#'

/-- Its query: behind a question mark that no number sign precedes, up to the number sign. -/
def refQuery (r : List Char) : List Char :=
  match r.dropWhile fun x => x ≠ '?' && x ≠ '#' with
  | '?' :: rest => rest.takeWhile (· ≠ '#')
  | _ => []

/-- Its fragment: behind the first number sign. -/
def refFragment (r : List Char) : List Char := (r.dropWhile (· ≠ '#')).tail

/-- No question mark is in the fragment only. -/
def QueryFirst (r : List Char) : Prop := '?' ∈ r → '?' ∈ r.takeWhile (· ≠ '#')

theorem takeWhile_append_stop {p : Char → Bool} {u w : List Char} (hu : ∀ x ∈ u, p x = true)
    (hw : ∀ x ∈ w.head?, p x = false) :
    (u ++ w).takeWhile p = u ∧ (u ++ w).dropWhile p = w := by
  rw [List.takeWhile_append_of_pos hu, List.dropWhile_append_of_pos hu]
  cases w with
  | nil => exact ⟨List.append_nil u, rfl⟩
  | cons x xs =>
    have hx := hw x rfl
    rw [List.takeWhile_cons_of_neg (by simp [hx]), List.dropWhile_cons_of_neg (by simp [hx])]
    exact ⟨List.append_nil u, rfl⟩

section Parts
variable {u w : List Char}

theorem takeWhile_ne_append {x : Char} (hu : x ∉ u) (hw : ∀ y ∈ w.head?, y = x) :
    (u ++ w).takeWhile (· ≠ x) = u ∧ (u ++ w).dropWhile (· ≠ x) = w := by
  refine takeWhile_append_stop (fun y hy => ?_) (fun y hy => ?_)
  · have hne : y ≠ x := fun heq => hu (heq ▸ hy)
    simp [hne]
  · simp [hw y hy]

/-- The fragment, when `u` has no number sign and `w` begins with it or is empty. -/
theorem refFragment_append (hu : '#' ∉ u) (hw : ∀ x ∈ w.head?, x = '#') :
    refFragment (u ++ w) = w.tail ∧ (u ++ w).takeWhile (· ≠ '#') = u := by
  obtain ⟨htake, hdrop⟩ := takeWhile_ne_append hu hw
  exact ⟨by rw [refFragment, hdrop], htake⟩

/-- Without a query the path is all that is in front of the fragment. -/
theorem refPath_of_no_query (hu : '#' ∉ u) (hmark : '?' ∉ u) (hw : ∀ x ∈ w.head?, x = '#') :
    refPath (u ++ w) = u ∧ refQuery (u ++ w) = [] := by
  have hall : ∀ x ∈ u, (decide (x ≠ '?') && decide (x ≠ '#')) = true := fun x hx => by
    have h1 : x ≠ '?' := fun heq => hmark (heq ▸ hx)
    have h2 : x ≠ '#' := fun heq => hu (heq ▸ hx)
    simp [h1, h2]
  have hstop : ∀ x ∈ w.head?, (decide (x ≠ '?') && decide (x ≠ '#')) = false := fun x hx => by
    simp [hw x hx]
  obtain ⟨htake, hdrop⟩ := takeWhile_append_stop hall hstop
  refine ⟨htake, ?_⟩
  rw [refQuery, hdrop]
  cases w with
  | nil => rfl
  | cons x xs =>
    obtain rfl : x = '#' := hw x rfl
    rfl

theorem refPath_of_query {path query : List Char} (hpath : '#' ∉ path) (hmark : '?' ∉ path)
    (hquery : '#' ∉ query) (hw : ∀ x ∈ w.head?, x = '#') :
    refPath (path ++ '?' :: (query ++ w)) = path ∧
      refQuery (path ++ '?' :: (query ++ w)) = query := by
  have hall : ∀ x ∈ path, (decide (x ≠ '?') && decide (x ≠ '#')) = true := fun x hx => by
    have h1 : x ≠ '?' := fun heq => hmark (heq ▸ hx)
    have h2 : x ≠ '#' := fun heq => hpath (heq ▸ hx)
    simp [h1, h2]
  obtain ⟨htake, hdrop⟩ := takeWhile_append_stop (w := '?' :: (query ++ w)) hall (by simp)
  refine ⟨htake, ?_⟩
  rw [refQuery, hdrop]
  exact (refFragment_append hquery hw).2

end Parts

/-- The path ends at the first question mark. -/
theorem parsePath_path (url : FullUrl) {pathStart : List Char} (h : '?' ∈ pathStart) :
    (url.parsePath pathStart).path = pathStart.takeWhile (· ≠ '?') := by
  obtain ⟨path, query, hsome, rfl, hpath⟩ := search_of_mem h
  unfold FullUrl.parsePath
  simp only [hsome]
  exact (takeWhile_ne_append hpath (by simp)).1.symm

/-- It ends at a number sign only where there is none. -/
theorem parsePath_path_of_not_mem (url : FullUrl) {pathStart : List Char} (h : '?' ∉ pathStart) :
    (url.parsePath pathStart).path = pathStart.takeWhile (· ≠ '#') := by
  unfold FullUrl.parsePath
  simp only [search_of_not_mem h]
  rcases FullUrl.cut_cases '#' pathStart with ⟨hnot, hnone⟩ | ⟨path, rest, rfl, hpath, hsome⟩
  · have htake := (takeWhile_ne_append (w := []) hnot nofun).1
    rw [List.append_nil] at htake
    rw [hnone, htake]
    rfl
  · rw [hsome, (takeWhile_ne_append hpath (by simp)).1]
    rfl

/-- The path, the query and the fragment that the constructor finds. -/
theorem parsePath_ref_iff (url : FullUrl) (hquery : url.query = []) (r : List Char) :
    ((url.parsePath r).path = refPath r ∧ (url.parsePath r).query = refQuery r ∧
      (url.parsePath r).fragment = refFragment r) ↔ QueryFirst r := by
  obtain ⟨u, w, rfl, hu, hw⟩ : ∃ u w, r = u ++ w ∧ '#' ∉ u ∧ ∀ x ∈ w.head?, x = '#' := by
    rcases FullUrl.cut_cases '#' r with ⟨hnot, -⟩ | ⟨u, v, rfl, hu, -⟩
    · exact ⟨r, [], (List.append_nil r).symm, hnot, nofun⟩
    · exact ⟨u, '#' :: v, rfl, hu, by simp⟩
  obtain ⟨hfragment, htake⟩ := refFragment_append hu hw
  rw [QueryFirst, htake, hfragment]
  rcases FullUrl.cut_cases '?' u with ⟨hmark, -⟩ | ⟨path, query, rfl, hmark, -⟩
  · obtain ⟨hpath, hnil⟩ := refPath_of_no_query hu hmark hw
    rw [hpath, hnil]
    cases w with
    | nil =>
      refine iff_of_true ?_ (by simp)
      rw [List.append_nil]
      unfold FullUrl.parsePath
      simp only [search_of_not_mem hmark, search_of_not_mem hu]
      exact ⟨rfl, hquery, rfl⟩
    | cons x v =>
      obtain rfl : x = '#' := hw x rfl
      by_cases hv : '?' ∈ v
      · refine iff_of_false ?_ (fun h => hmark (h (by simp [hv])))
        rintro ⟨hfound, -, -⟩
        have hall : ∀ y ∈ u, (decide (y ≠ '?')) = true := fun y hy => by
          have hne : y ≠ '?' := fun heq => hmark (heq ▸ hy)
          simp [hne]
        rw [parsePath_path url (by simp [hv]), List.takeWhile_append_of_pos hall] at hfound
        simp at hfound
      · have hnone : search ['?'] (u ++ '#' :: v) = none := search_of_not_mem (by simp [hmark, hv])
        refine iff_of_true ?_ (by simp [hmark, hv])
        unfold FullUrl.parsePath
        simp only [hnone, search_char_append v hu]
        exact ⟨rfl, hquery, rfl⟩
  · simp only [List.mem_append, List.mem_cons, not_or] at hu
    obtain ⟨hsign, -, hquerySign⟩ := hu
    refine iff_of_true ?_ (by simp)
    obtain ⟨hpath, hq⟩ := refPath_of_query hsign hmark hquerySign hw
    rw [List.append_assoc, List.cons_append, hpath, hq]
    unfold FullUrl.parsePath
    simp only [search_char_append (query ++ w) hmark]
    cases w with
    | nil => simp [search_of_not_mem hquerySign]
    | cons x v =>
      obtain rfl : x = '#' := hw x rfl
      simp [search_char_append v hquerySign]

/-! ### A reference with a host -/

namespace Components
variable (c : Components)

/-- `//authority[path][?query][#fragment]`. -/
def reference : List Char := "//".toList ++ (c.authority ++ (c.path.getD [] ++ c.tail))

/-- What is taken for a part of the authority. -/
def behind : List Char := if c.path.isSome then [] else c.tail.takeWhile (· ≠ '/')

/-- What is taken for the path and what follows it. -/
def pathStart : List Char :=
  match c.path with
  | some path => path ++ c.tail
  | none => c.tail.dropWhile (· ≠ '/')

/-- The host is found in front of text that does not belong to the authority: a port keeps it apart,
or the text has an at sign with the same host behind it. -/
def HostAgain (text : List Char) : Prop :=
  (c.port.isSome = true ∧ (c.userInfo.isSome = true ∨ '@' ∉ text)) ∨
    (c.userInfo = none ∧ ∃ x y, text = x ++ '@' :: (c.host ++ y) ∧ '@' ∉ x ∧ ∀ z ∈ y.head?, z = ':')

/-- A path of a single slash is found. -/
def PathAgain (text : List Char) : Prop := ∀ rest, text = '/' :: rest →
  rest = [] ∨ rest.head? = some '?' ∨ rest.head? = some '#' ∧ '?' ∉ rest

/-- The host and the path of a reference are found: the host has no colon; with a path, no question
mark is in the fragment only; without a path there is no query and no fragment, or these happen to
give the same host and a path of one slash. -/
def Located : Prop := ':' ∉ c.host ∧
  if c.path.isSome then c.query = none → ∀ f ∈ c.fragment, '?' ∉ f
  else c.tail = [] ∨ c.HostAgain c.behind ∧ PathAgain c.pathStart

theorem cut_first_iff {host text : List Char} (hhost : ':' ∉ host) :
    ((search [':'] text).getD (text, [])).1 = host ↔
      ∃ y, text = host ++ y ∧ ∀ z ∈ y.head?, z = ':' := by
  rcases FullUrl.cut_cases ':' text with ⟨hnot, hnone⟩ | ⟨before, after, rfl, hbefore, hsome⟩
  · rw [hnone]
    constructor
    · rintro rfl
      exact ⟨[], (List.append_nil _).symm, nofun⟩
    · rintro ⟨y, rfl, hy⟩
      cases y with
      | nil => simp
      | cons z y => exact absurd (by simp [hy z rfl] : ':' ∈ host ++ z :: y) hnot
  · rw [hsome]
    constructor
    · rintro rfl
      exact ⟨':' :: after, rfl, by simp⟩
    · rintro ⟨y, htext, hy⟩
      cases y with
      | nil =>
        rw [List.append_nil] at htext
        exact absurd (by simp [← htext] : ':' ∈ host) hhost
      | cons z y =>
        obtain rfl : z = ':' := hy z rfl
        have hsearch := search_char_append y hhost
        rw [← htext, search_char_append after hbefore] at hsearch
        exact (Prod.mk.inj (Option.some.inj hsearch)).1

/-- The host behind the user information, or at the start. -/
theorem cut_hostPort_first_iff {x : List Char} (hcolon : ':' ∉ c.host)
    (hx : ∀ z ∈ x.head?, z = '?' ∨ z = '#') :
    ((search [':'] (c.hostPort ++ x)).getD (c.hostPort ++ x, [])).1 = c.host ↔
      x = [] ∨ c.port.isSome = true := by
  rw [cut_first_iff hcolon]
  unfold hostPort
  cases c.port with
  | some port =>
    refine iff_of_true ⟨':' :: port ++ x, by simp, by simp⟩ (.inr rfl)
  | none =>
    simp only [Option.elim_none, List.append_nil, List.append_cancel_left_eq, Option.isSome_none,
      Bool.false_eq_true, or_false]
    constructor
    · rintro ⟨y, rfl, hy⟩
      cases x with
      | nil => rfl
      | cons z x => rcases hx z rfl with rfl | rfl <;> exact absurd (hy _ rfl) (by decide)
    · rintro rfl
      exact ⟨[], rfl, nofun⟩

theorem host_iff (fullUrl scheme : List Char) {x : List Char}
    (hx : ∀ z ∈ x.head?, z = '?' ∨ z = '#') :
    (FullUrl.parseChunk fullUrl scheme (c.authority ++ x)).host = c.host ↔
      ':' ∉ c.host ∧ (x = [] ∨ c.HostAgain x) := by
  by_cases hcolon : ':' ∈ c.host
  · refine iff_of_false (fun h => ?_) (fun h => h.1 hcolon)
    have hfirst : ':' ∉ (FullUrl.parseChunk fullUrl scheme (c.authority ++ x)).host :=
      FullUrl.getD_search_first ':' _
    exact hfirst (h ▸ hcolon)
  rw [and_iff_right hcolon]
  have hfirst := c.cut_hostPort_first_iff hcolon hx
  have hno : '@' ∉ c.hostPort := fun hmem => c.hostPort_free _ hmem (by decide)
  unfold authority FullUrl.parseChunk HostAgain
  cases hinfo : c.userInfo with
  | some info =>
    have htext : info.text ++ ['@'] ++ c.hostPort ++ x = info.text ++ '@' :: (c.hostPort ++ x) := by
      simp
    have hsome : search ['@'] (info.text ++ '@' :: (c.hostPort ++ x)) =
        some (info.text, c.hostPort ++ x) :=
      search_char_append _ fun hmem => text_free info _ hmem (by decide)
    simp only [Option.elim_some, htext, hsome]
    simpa using hfirst
  | none =>
    simp only [Option.elim_none, List.nil_append]
    rcases FullUrl.cut_cases '@' x with ⟨hat, -⟩ | ⟨before, after, rfl, hbefore, -⟩
    · have hnone : search ['@'] (c.hostPort ++ x) = none := search_of_not_mem (by simp [hno, hat])
      simp only [hnone]
      rw [hfirst]
      refine or_congr_right ⟨fun h => .inl ⟨h, .inr hat⟩, fun h => h.elim And.left ?_⟩
      rintro ⟨-, y, z, rfl, -, -⟩
      exact absurd (by simp) hat
    · have hsome : search ['@'] (c.hostPort ++ (before ++ '@' :: after)) =
          some (c.hostPort ++ before, after) := by
        rw [← List.append_assoc]
        exact search_char_append after (by simp [hno, hbefore])
      simp only [hsome]
      rw [cut_first_iff hcolon]
      constructor
      · rintro ⟨y, rfl, hy⟩
        exact .inr (.inr ⟨trivial, before, y, rfl, hbefore, hy⟩)
      · rintro (hnil | ⟨-, hbad⟩ | ⟨-, x, y, htext, hx', hy⟩)
        · exact absurd hnil (by simp)
        · exact absurd hbad (by simp)
        · have hsearch := search_char_append (c.host ++ y) hx'
          rw [← htext, search_char_append after hbefore] at hsearch
          obtain ⟨-, rfl⟩ := Prod.mk.inj (Option.some.inj hsearch)
          exact ⟨y, rfl, hy⟩

theorem pathStart_head : ∀ x ∈ c.pathStart.head?, x = '/' := by
  intro x hx
  unfold pathStart at hx
  cases hpath : c.path with
  | some path =>
    obtain ⟨rest, rfl⟩ := List.head?_eq_some_iff.mp (c.path_slash path hpath)
    rw [hpath] at hx
    exact (Option.some.inj hx).symm
  | none =>
    rw [hpath] at hx
    have hhead := List.head?_dropWhile_not (fun x => decide (x ≠ '/')) c.tail
    rw [Option.mem_def.mp hx] at hhead
    simpa using hhead

theorem slash_not_mem_chunk : '/' ∉ c.authority ++ c.behind := by
  rw [List.mem_append, not_or]
  refine ⟨c.slash_not_mem_authority, ?_⟩
  unfold behind
  split_ifs
  · exact List.not_mem_nil
  · intro hmem
    have := List.all_eq_true.mp List.all_takeWhile _ hmem
    simp at this

theorem authority_split : c.authority ++ (c.path.getD [] ++ c.tail) =
    (c.authority ++ c.behind) ++ c.pathStart := by
  unfold behind pathStart
  cases c.path with
  | some path => simp
  | none => simp [List.takeWhile_append_dropWhile]

theorem tail_head : ∀ z ∈ c.tail.head?, z = '?' ∨ z = '#' := by
  intro z hz
  unfold tail at hz
  revert hz
  cases c.query <;> cases c.fragment <;> simp <;> rintro rfl <;> simp

theorem behind_head : ∀ z ∈ c.behind.head?, z = '?' ∨ z = '#' := by
  intro z hz
  unfold behind at hz
  split_ifs at hz
  · cases hz
  · refine c.tail_head z ?_
    cases htail : c.tail with
    | nil =>
      rw [htail] at hz
      cases hz
    | cons x xs =>
      rw [htail] at hz
      by_cases hx : x = '/'
      · simp [hx] at hz
      · simpa [hx] using hz

/-- The host never takes all of the query or the fragment for the path. -/
theorem behind_eq_nil_iff (hpath : c.path.isSome = false) : c.behind = [] ↔ c.tail = [] := by
  rw [behind, if_neg (by rw [hpath]; decide)]
  cases htail : c.tail with
  | nil => exact iff_of_true rfl rfl
  | cons x xs =>
    have hx := c.tail_head x (by rw [htail]; rfl)
    refine iff_of_false ?_ (List.cons_ne_nil x xs)
    rcases hx with rfl | rfl <;> simp

/-- The path that is found. -/
theorem path_iff (url : FullUrl) (hdefault : url.path = ['/']) :
    (if c.pathStart = [] then url else url.parsePath c.pathStart).path = c.path.getD ['/'] ↔
      if c.path.isSome then c.query = none → ∀ f ∈ c.fragment, '?' ∉ f
      else PathAgain c.pathStart := by
  cases hpath : c.path with
  | some path =>
    have hfree := c.path_free path hpath
    have hmark : '?' ∉ path := fun hmem => hfree _ hmem (by decide)
    have hsign : '#' ∉ path := fun hmem => hfree _ hmem (by decide)
    have hstart : c.pathStart = path ++ c.tail := by rw [pathStart, hpath]
    have hne : path ++ c.tail ≠ [] := by
      obtain ⟨rest, rfl⟩ := List.head?_eq_some_iff.mp (c.path_slash path hpath)
      simp
    rw [hstart, if_neg hne]
    simp only [Option.getD_some, Option.isSome_some, if_true]
    cases hq : c.query with
    | some query =>
      have htail : c.tail = '?' :: (query ++ c.fragment.elim [] ('#' :: ·)) := by simp [tail, hq]
      rw [htail, parsePath_path url (by simp), (takeWhile_ne_append hmark (by simp)).1]
      simp
    | none =>
      simp only [true_implies]
      cases hf : c.fragment with
      | none =>
        have htail : c.tail = [] := by simp [tail, hq, hf]
        have htake := (takeWhile_ne_append (w := []) hsign nofun).1
        rw [htail, parsePath_path_of_not_mem url (by simpa using hmark), htake]
        simp
      | some fragment =>
        have htail : c.tail = '#' :: fragment := by simp [tail, hq, hf]
        simp only [Option.mem_def, Option.some.injEq, forall_eq']
        by_cases hin : '?' ∈ fragment
        · have hall : ∀ y ∈ path, (decide (y ≠ '?')) = true := fun y hy => by
            have hne : y ≠ '?' := fun heq => hmark (heq ▸ hy)
            simp [hne]
          rw [htail, parsePath_path url (by simp [hin]), List.takeWhile_append_of_pos hall]
          simp [hin]
        · rw [htail, parsePath_path_of_not_mem url (by simp [hmark, hin]),
            (takeWhile_ne_append hsign (by simp)).1]
          simp [hin]
  | none =>
    simp only [Option.getD_none, Option.isSome_none, Bool.false_eq_true, if_false]
    have hhead := c.pathStart_head
    cases hstart : c.pathStart with
    | nil => exact iff_of_true (by rw [if_pos rfl, hdefault]) nofun
    | cons x rest =>
      rw [hstart] at hhead
      obtain rfl : x = '/' := hhead x rfl
      have hagain : PathAgain ('/' :: rest) ↔
          (rest = [] ∨ rest.head? = some '?' ∨ rest.head? = some '#' ∧ '?' ∉ rest) :=
        ⟨fun h => h rest rfl, fun h rest' heq => (List.cons.inj heq).2 ▸ h⟩
      rw [if_neg (List.cons_ne_nil _ _), hagain]
      -- the path has one character when the next one ends it
      by_cases hmark : '?' ∈ rest
      · rw [parsePath_path url (List.mem_cons_of_mem _ hmark)]
        cases rest with
        | nil => cases hmark
        | cons y rest => by_cases hy : y = '?' <;> simp [hy, hmark]
      · rw [parsePath_path_of_not_mem url (by simp [hmark])]
        cases rest with
        | nil => simp
        | cons y rest =>
          have hy' : y ≠ '?' := fun heq => hmark (heq ▸ List.mem_cons_self)
          by_cases hy : y = '#'
          · simp_all
          · simp [hy, hy']

/-! ### Bases without delimiters -/

/-- `gen-delims`. -/
def genDelims : List Char := [':', '/', '?', '#', '[', ']', '@']

/-- No component has a delimiter; the slashes of a path are between its segments. -/
structure DelimiterFree (c : Components) : Prop where
  user : ∀ info ∈ c.userInfo, ∀ x ∈ info.user, x ∉ genDelims
  password : ∀ info ∈ c.userInfo, ∀ p ∈ info.password, ∀ x ∈ p, x ∉ genDelims
  host : ∀ x ∈ c.host, x ∉ genDelims
  port : ∀ p ∈ c.port, ∀ x ∈ p, x ∉ genDelims
  path : ∀ p ∈ c.path, ∀ x ∈ p, x = '/' ∨ x ∉ genDelims
  query : ∀ q ∈ c.query, ∀ x ∈ q, x ∉ genDelims
  fragment : ∀ f ∈ c.fragment, ∀ x ∈ f, x ∉ genDelims

theorem parse_compose_split : FullUrl.parse c.compose = some (
    if c.pathStart = [] then FullUrl.parseChunk c.compose c.scheme (c.authority ++ c.behind)
    else (FullUrl.parseChunk c.compose c.scheme (c.authority ++ c.behind)).parsePath c.pathStart) :=
  c.parse_compose c.authority_split c.slash_not_mem_chunk c.pathStart_head

theorem at_not_mem_behind {c : Components} (h : c.DelimiterFree) : '@' ∉ c.behind := by
  have htail : '@' ∉ c.tail := by
    unfold tail
    rw [List.mem_append, not_or]
    constructor
    · cases hq : c.query with
      | none => exact List.not_mem_nil
      | some query =>
        have hfree : '@' ∉ query := fun hmem => h.query query hq _ hmem (by decide)
        simp [hfree]
    · cases hf : c.fragment with
      | none => exact List.not_mem_nil
      | some fragment =>
        have hfree : '@' ∉ fragment := fun hmem => h.fragment fragment hf _ hmem (by decide)
        simp [hfree]
  unfold behind
  split_ifs
  · exact List.not_mem_nil
  · exact fun hmem => htail (List.takeWhile_subset _ hmem)

/-- Behind the user information there is no other at sign. -/
theorem at_not_mem_host (fullUrl scheme : List Char) {x : List Char} (hat : '@' ∉ x) :
    '@' ∉ (FullUrl.parseChunk fullUrl scheme (c.authority ++ x)).host ∧
      '@' ∉ (FullUrl.parseChunk fullUrl scheme (c.authority ++ x)).port := by
  have hno : '@' ∉ c.hostPort ++ x := by
    rw [List.mem_append, not_or]
    exact ⟨fun hmem => c.hostPort_free _ hmem (by decide), hat⟩
  unfold authority FullUrl.parseChunk
  cases c.userInfo with
  | none =>
    simp only [Option.elim_none, List.nil_append, search_of_not_mem hno]
    exact FullUrl.getD_search_not_mem hno
  | some info =>
    have htext : info.text ++ ['@'] ++ c.hostPort ++ x = info.text ++ '@' :: (c.hostPort ++ x) := by
      simp
    have hsome : search ['@'] (info.text ++ '@' :: (c.hostPort ++ x)) =
        some (info.text, c.hostPort ++ x) :=
      search_char_append _ fun hmem => text_free info _ hmem (by decide)
    simp only [Option.elim_some, htext, hsome]
    exact FullUrl.getD_search_not_mem hno

end Components

/-- A URL from components without delimiters. -/
structure PlainUrl where
  components : Components
  free : components.DelimiterFree
  url : FullUrl
  parsed : FullUrl.parse components.compose = some url

namespace PlainUrl
variable (base : PlainUrl)

/-- The URL in front of its path. -/
theorem url_cut : base.url.Cut ∧ '@' ∉ base.url.host ∧ '@' ∉ base.url.port ∧
    base.url.scheme = base.components.scheme := by
  have hparsed := base.parsed
  rw [base.components.parse_compose_split] at hparsed
  have hcut := FullUrl.parseChunk_cut base.components.compose base.components.scheme
    base.components.slash_not_mem_chunk
  obtain ⟨hhost, hport⟩ := base.components.at_not_mem_host base.components.compose
    base.components.scheme (Components.at_not_mem_behind base.free)
  split_ifs at hparsed
  · rw [← Option.some.inj hparsed]
    exact ⟨hcut, hhost, hport, rfl⟩
  · obtain ⟨hscheme, huser, hpassword, hhost', hport'⟩ := FullUrl.parsePath_front
      (FullUrl.parseChunk base.components.compose base.components.scheme
        (base.components.authority ++ base.components.behind)) base.components.pathStart
    rw [← Option.some.inj hparsed]
    refine ⟨⟨?_, ?_, ?_, ?_, ?_⟩, ?_, ?_, hscheme⟩
    · rw [huser]
      exact hcut.user_colon
    · rw [huser]
      exact hcut.user_at
    · rw [hpassword]
      exact hcut.password_at
    · rw [hhost']
      exact hcut.host_colon
    · rw [huser, hpassword, hhost', hport']
      exact hcut.slash
    · rw [hhost']
      exact hhost
    · rw [hport']
      exact hport

end PlainUrl

/-! ### Resolution -/

/-- What resolving a redirect keeps. -/
structure KeepsAuthority (base : FullUrl) (r : List Char) : Prop where
  network : ∀ c : Components, r = c.reference → ∃ url, base.fromRedirect r = some url ∧
    url.scheme = base.scheme ∧ url.host = c.host ∧ url.path = c.path.getD ['/']
  absolute : r.head? = some '/' → ¬"//".toList <+: r → ∃ url, base.fromRedirect r = some url ∧
    url.scheme = base.scheme ∧ url.user = base.user ∧ url.password = base.password ∧
    url.host = base.host ∧ url.port = base.port ∧
    url.path = refPath r ∧ url.query = refQuery r ∧ url.fragment = refFragment r
  whole : ∀ scheme rest, (∀ x ∈ scheme, x ∉ [':', '/', '?', '#']) →
    r = scheme ++ "://".toList ++ rest → base.fromRedirect r = FullUrl.parse r

/-- The redirects that are resolved as they have to be: no `://` in one that begins with a slash,
and its parts are found. -/
structure Resolvable (r : List Char) : Prop where
  network : ∀ c : Components, r = c.reference → ¬"://".toList <:+: r ∧ c.Located
  absolute : r.head? = some '/' → ¬"//".toList <+: r → ¬"://".toList <:+: r ∧ QueryFirst r

section Resolution
variable (base : PlainUrl) {r : List Char}

/-- With `://` in it, the redirect has another scheme. -/
theorem scheme_ne_of_infix (hslash : r.head? = some '/') (hsep : "://".toList <:+: r)
    {url : FullUrl} (h : base.url.fromRedirect r = some url) : url.scheme ≠ base.url.scheme := by
  have hfound : (search "://".toList r).isSome = true := (isSome_search (by simp)).mpr hsep
  rw [FullUrl.fromRedirect, if_pos hfound] at h
  obtain ⟨⟨scheme, rest⟩, hsearch⟩ := Option.isSome_iff_exists.mp hfound
  have htext := search_eq_some hsearch
  have hscheme : url.scheme = scheme := by
    rw [FullUrl.parse, hsearch] at h
    cases h
    split_ifs
    · rfl
    · exact (FullUrl.parsePath_front _ _).1
  -- it begins with the slash
  have hmem : '/' ∈ scheme := by
    cases scheme with
    | nil =>
      rw [htext] at hslash
      exact absurd hslash (by simp)
    | cons x xs =>
      rw [htext] at hslash
      obtain rfl : x = '/' := Option.some.inj hslash
      exact List.mem_cons_self
  intro heq
  rw [hscheme, base.url_cut.2.2.2] at heq
  exact base.components.scheme_free _ (heq ▸ hmem) (by decide)

/-- Text with a host behind two slashes gets the scheme of the base. -/
theorem fromRedirect_reference (c : Components) (hsep : ¬"://".toList <:+: c.reference) :
    (∃ url, base.url.fromRedirect c.reference = some url ∧ url.scheme = base.url.scheme ∧
      url.host = c.host ∧ url.path = c.path.getD ['/']) ↔ c.Located := by
  have hnone : ¬(search "://".toList c.reference).isSome = true :=
    (isSome_search (by simp)).not.mpr hsep
  have hcolon : ':' ∉ base.url.scheme := by
    rw [base.url_cut.2.2.2]
    exact fun hmem => base.components.scheme_free _ hmem (by decide)
  have htext : base.url.scheme ++ ':' :: c.reference =
      base.url.scheme ++ "://".toList ++ ((c.authority ++ c.behind) ++ c.pathStart) := by
    rw [← c.authority_split]
    simp [Components.reference]
  have hprefix : "//".toList.isPrefixOf c.reference = true :=
    List.isPrefixOf_iff_prefix.mpr (List.prefix_append _ _)
  rw [FullUrl.fromRedirect, if_neg hnone, if_pos hprefix, htext,
    Components.parse_split hcolon c.slash_not_mem_chunk c.pathStart_head]
  have hhost := c.host_iff (base.url.scheme ++ "://".toList ++
    ((c.authority ++ c.behind) ++ c.pathStart)) base.url.scheme c.behind_head
  have hpath := c.path_iff (FullUrl.parseChunk (base.url.scheme ++ "://".toList ++
    ((c.authority ++ c.behind) ++ c.pathStart)) base.url.scheme (c.authority ++ c.behind)) rfl
  generalize base.url.scheme ++ "://".toList ++ ((c.authority ++ c.behind) ++ c.pathStart) = text
    at hhost hpath
  have hfront : (if c.pathStart = [] then
        FullUrl.parseChunk text base.url.scheme (c.authority ++ c.behind)
      else (FullUrl.parseChunk text base.url.scheme (c.authority ++ c.behind)).parsePath
        c.pathStart).scheme = base.url.scheme ∧
      (if c.pathStart = [] then
        FullUrl.parseChunk text base.url.scheme (c.authority ++ c.behind)
      else (FullUrl.parseChunk text base.url.scheme (c.authority ++ c.behind)).parsePath
        c.pathStart).host =
          (FullUrl.parseChunk text base.url.scheme (c.authority ++ c.behind)).host := by
    split_ifs
    · exact ⟨rfl, rfl⟩
    · obtain ⟨hscheme, -, -, hhost, -⟩ := FullUrl.parsePath_front
        (FullUrl.parseChunk text base.url.scheme (c.authority ++ c.behind)) c.pathStart
      exact ⟨hscheme, hhost⟩
  simp only [Option.some.injEq, exists_eq_left', hfront, hhost, hpath, true_and]
  rw [Components.Located, and_assoc]
  refine and_congr_right fun _ => ?_
  cases hsome : c.path.isSome with
  | true =>
    have hnil : c.behind = [] := by rw [Components.behind, if_pos hsome]
    simp [hnil]
  | false =>
    simp only [Bool.false_eq_true, if_false]
    have hempty := c.behind_eq_nil_iff hsome
    rw [hempty]
    constructor
    · rintro ⟨hnil | hagain, hpath⟩
      · exact .inl hnil
      · exact .inr ⟨hagain, hpath⟩
    · rintro (hnil | ⟨hagain, hpath⟩)
      · refine ⟨.inl hnil, fun rest hrest => ?_⟩
        have hstart : c.pathStart = [] := by
          unfold Components.pathStart
          rw [Option.isSome_eq_false_iff, Option.isNone_iff_eq_none] at hsome
          rw [hsome, hnil]
          rfl
        rw [hstart] at hrest
        cases hrest
      · exact ⟨.inr hagain, hpath⟩

/-- Text with a single slash in front goes behind the authority of the base. -/
theorem fromRedirect_absolute (hslash : r.head? = some '/') (hsingle : ¬"//".toList <+: r)
    (hsep : ¬"://".toList <:+: r) : (∃ url, base.url.fromRedirect r = some url ∧
      url.scheme = base.url.scheme ∧ url.user = base.url.user ∧
      url.password = base.url.password ∧ url.host = base.url.host ∧ url.port = base.url.port ∧
      url.path = refPath r ∧ url.query = refQuery r ∧ url.fragment = refFragment r) ↔
    QueryFirst r := by
  obtain ⟨hcut, hhost, hport, hscheme⟩ := base.url_cut
  have hnone : ¬(search "://".toList r).isSome = true := (isSome_search (by simp)).not.mpr hsep
  have hcolon : ':' ∉ base.url.scheme := by
    rw [hscheme]
    exact fun hmem => base.components.scheme_free _ hmem (by decide)
  have htext : base.url.scheme ++ "://".toList ++ base.url.login ++ base.url.host ++
      (if base.url.port = [] then [] else ':' :: base.url.port) ++ r =
        base.url.scheme ++ "://".toList ++ (base.url.front ++ r) := by
    simp [FullUrl.front]
  have hstart : ∀ x ∈ r.head?, x = '/' := fun x hx => by
    rw [hslash] at hx
    exact (Option.some.inj hx).symm
  have hne : r ≠ [] := by
    rintro rfl
    cases hslash
  have hprefix : ¬"//".toList.isPrefixOf r = true := by rwa [List.isPrefixOf_iff_prefix]
  rw [FullUrl.fromRedirect, if_neg hnone, if_neg hprefix, htext,
    Components.parse_split hcolon (FullUrl.slash_not_mem_front hcut) hstart, if_neg hne]
  generalize base.url.scheme ++ "://".toList ++ (base.url.front ++ r) = text
  obtain ⟨huser, hpassword, hhost', hport'⟩ :=
    FullUrl.parseChunk_front hcut hhost hport text base.url.scheme
  have hparts := parsePath_ref_iff (FullUrl.parseChunk text base.url.scheme base.url.front) rfl r
  obtain ⟨hs, hu, hp, hh, ho⟩ := FullUrl.parsePath_front
    (FullUrl.parseChunk text base.url.scheme base.url.front) r
  simp only [Option.some.injEq, exists_eq_left', hu, hp, hh, ho, huser, hpassword, hhost', hport',
    true_and, hparts, and_iff_right_iff_imp]
  exact fun _ => hs

/-- For every base without delimiters in its components and every redirect. -/
theorem keepsAuthority_iff : KeepsAuthority base.url r ↔ Resolvable r := by
  constructor
  · intro h
    constructor
    · rintro c rfl
      obtain ⟨url, hurl, hscheme, hparts⟩ := h.network c rfl
      have hsep : ¬"://".toList <:+: c.reference := fun hsep =>
        scheme_ne_of_infix base rfl hsep hurl hscheme
      exact ⟨hsep, (fromRedirect_reference base c hsep).mp ⟨url, hurl, hscheme, hparts⟩⟩
    · intro hslash hsingle
      obtain ⟨url, hurl, hscheme, hparts⟩ := h.absolute hslash hsingle
      have hsep : ¬"://".toList <:+: r := fun hsep =>
        scheme_ne_of_infix base hslash hsep hurl hscheme
      exact ⟨hsep, (fromRedirect_absolute base hslash hsingle hsep).mp ⟨url, hurl, hscheme, hparts⟩⟩
  · intro h
    constructor
    · rintro c rfl
      obtain ⟨hsep, hlocated⟩ := h.network c rfl
      exact (fromRedirect_reference base c hsep).mpr hlocated
    · intro hslash hsingle
      obtain ⟨hsep, hquery⟩ := h.absolute hslash hsingle
      exact (fromRedirect_absolute base hslash hsingle hsep).mpr hquery
    · rintro scheme rest - rfl
      have hfound : (search "://".toList (scheme ++ "://".toList ++ rest)).isSome = true :=
        (isSome_search (by simp)).mpr ⟨scheme, rest, rfl⟩
      rw [FullUrl.fromRedirect, if_pos hfound]

end Resolution

/-! ### A URL in the query -/

/-- `http://h/`. -/
def plainBase : PlainUrl where
  components :=
    { scheme := ['h', 't', 't', 'p'], userInfo := none, host := ['h'], port := none
      path := some ['/'], query := none, fragment := none
      scheme_free := queryBehindHost.scheme_free, host_free := queryBehindHost.host_free
      host_colon := queryBehindHost.host_colon, port_free := queryBehindHost.port_free
      path_slash := by simp, path_free := by simp, query_free := nofun }
  free :=
    { user := nofun, password := nofun, host := by simp [Components.genDelims], port := nofun,
      path := by simp
      query := nofun, fragment := nofun }
  url :=
    { fullUrl := "http://h/".toList, scheme := ['h', 't', 't', 'p'], host := ['h'], port := [] }
  parsed := by decide

/-- The scheme of the URL that `/p?u=http://x` gives is `/p?u=http`. -/
theorem not_keepsAuthority_query :
    ¬KeepsAuthority plainBase.url "/p?u=http://x".toList := by
  intro h
  obtain ⟨url, hurl, hscheme, -⟩ := h.absolute (by decide) (by decide)
  have heval : (plainBase.url.fromRedirect "/p?u=http://x".toList).map FullUrl.scheme =
      some "/p?u=http".toList := by decide
  rw [hurl, Option.map_some, hscheme] at heval
  exact absurd heval (by decide)

end MediafireSdk.Http
