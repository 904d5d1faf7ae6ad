import AgentGather.Library.UrlParams
import AgentGather.Protocol.Urls
import AgentGather.Storage.JoinedRooms

/-!
# The base URL of a joined room

Three ways lead to a row of `joined-rooms.json`: the command line, an invite that is imported
on the dashboard, and the bridge of a room page.  Each makes a base URL of the URL it is
given, and the dashboard looks rows up by the bridge's.
-/

namespace AgentGather.Platform

open AgentGather.Library AgentGather.Library.Url AgentGather.Protocol AgentGather.Storage

variable {H : HostParser}

/-- Origin and path, without the slashes at the end. -/
def bareUrl (origin path : List Char) : List Char :=
  let bare := (origin ++ path).rdropWhile (· == '/')
  if bare = [] then origin else bare

def sanitizeBaseUrl (H : HostParser) (value : List Char) : Option (List Char) := do
  let url ← parse H none value
  if url.isHttp then some (bareUrl url.origin url.pathname) else none

/-- `/^tgl_[A-Za-z0-9_-]{12,}$/` -/
def isInviteToken (value : List Char) : Bool :=
  value.take 4 == "tgl_".toList && 12 ≤ (value.drop 4).length &&
    (value.drop 4).all fun c => Text.isWord c || c == '-'

/-- The token in the query, or else in the fragment. -/
def inviteToken (url : Url) : Option (List Char) :=
  let token (params : List (List Char × List Char)) :=
    (getParam "token".toList params).filter (isInviteToken ·)
  (token url.searchParams).or
    (if url.hash.head? = some '#' then token (paramsOf url.hash.tail) else none)

structure TokenizedInvite where
  baseUrl : List Char
  token : List Char
deriving DecidableEq, Repr

/-- An invite card is at `/card` of the room. -/
def parseTokenizedInviteUrl (H : HostParser) (value : List Char) : Option TokenizedInvite := do
  let url ← parse H none value
  if url.isHttp then
    let token ← inviteToken url
    let path := if url.pathname = "/card".toList then [] else url.pathname
    return ⟨bareUrl url.origin path, token⟩
  else none

/-- The ways in which a joined room is recorded. -/
inductive JoinPath where
  | roomJoin
  | inviteImport
  | bridgeRefresh
deriving DecidableEq, Repr

/-- The base URL of the row; none where the URL is rejected. -/
def recordedBaseUrl (H : HostParser) (value : List Char) : JoinPath → Option (List Char)
  | .roomJoin => normalizeBaseUrl H value
  | .inviteImport => (parseTokenizedInviteUrl H value).map (·.baseUrl)
  | .bridgeRefresh => sanitizeBaseUrl H value

/-! ## The canonical base URL -/

/-- Origin and path of the URL and nothing else, without a slash at the end. -/
def canonicalBaseUrl (url : Url) : List Char :=
  url.origin ++ url.pathname.rdropWhile (· == '/')

/-- However a room is joined by the URL, its row has one key, the canonical one, which has
no query, no fragment and no slash at its end; and the dashboard finds the row by it. -/
structure OneKey (H : HostParser) (value : List Char) (url : Url) : Prop where
  oneRow : ∀ path base, recordedBaseUrl H value path = some base → ∀ roomId,
    JoinedRoomTarget.mk roomId (String.ofList base) =
      ⟨roomId, String.ofList (canonicalBaseUrl url)⟩
  bare : ∀ path base, recordedBaseUrl H value path = some base →
    '?' ∉ base ∧ '#' ∉ base ∧ base.getLast? ≠ some '/'
  found : ∀ path base, recordedBaseUrl H value path = some base →
    sanitizeBaseUrl H base = some base

/-- The URL is its origin and a path with at most one slash at its end. -/
structure Plain (url : Url) : Prop where
  username : url.username = []
  password : url.password = []
  query : url.query = none
  fragment : url.fragment = none
  oneSlash : ¬ "//".toList <:+ url.pathname

/-! ## Slashes at the end -/

theorem bareUrl_eq (o : WebOrigin H) (path : List Char) :
    bareUrl o.written path = o.written ++ path.rdropWhile (· == '/') := by
  have hdrop := rdropWhile_append o.written_ne_nil
    (p := (· == '/')) (by simpa using o.getLast_written) path
  rw [bareUrl, hdrop]
  exact if_neg fun h => o.written_ne_nil (List.append_eq_nil_iff.mp h).1

theorem slash_suffix_iff (s : List Char) : ['/'] <:+ s ↔ s.getLast? = some '/' := by
  rw [List.getLast?_eq_some_iff]
  constructor
  · rintro ⟨t, rfl⟩
    exact ⟨t, rfl⟩
  · rintro ⟨t, rfl⟩
    exact ⟨t, rfl⟩

/-- Dropping one slash drops them all exactly where there are not two. -/
theorem dropSlash_eq_rdropWhile_iff (s : List Char) :
    dropSlash s = s.rdropWhile (· == '/') ↔ ¬ "//".toList <:+ s := by
  rcases List.eq_nil_or_concat' s with rfl | ⟨s, c, rfl⟩
  · decide
  · by_cases hc : c = '/'
    · subst hc
      have hsuffix : "//".toList <:+ s ++ ['/'] ↔ s.getLast? = some '/' := by
        rw [← slash_suffix_iff]
        exact @List.suffix_append_self_iff _ ['/'] s ['/']
      have hdrop : dropSlash (s ++ ['/']) = s := by simp [dropSlash]
      rw [hsuffix, hdrop, List.rdropWhile_concat_pos _ _ _ rfl, eq_comm,
        List.rdropWhile_eq_self_iff]
      constructor
      · intro h hlast
        obtain ⟨t, rfl⟩ := List.getLast?_eq_some_iff.mp hlast
        exact h (by simp) (by simp)
      · intro h hne hlast
        apply h
        rw [List.getLast?_eq_some_getLast hne]
        exact congrArg some (by simpa using hlast)
    · have hdrop : dropSlash (s ++ [c]) = s ++ [c] := by simp [dropSlash, hc]
      rw [hdrop, List.rdropWhile_concat_neg _ _ _ (by simpa using hc)]
      have hnot : ¬ "//".toList <:+ s ++ [c] := by
        rintro ⟨t, ht⟩
        have hlast := congrArg List.getLast? ht
        simp at hlast
        exact hc hlast.symm
      simp only [hnot, not_false_eq_true]

/-! ## The three ways -/

theorem sanitizeBaseUrl_eq (hlaw : H.Lawful) {value : List Char} {url : Url}
    (hparse : parse H none value = some url) (hhttp : url.isHttp = true) :
    sanitizeBaseUrl H value = some (canonicalBaseUrl url) := by
  obtain ⟨o, hwritten, -⟩ := (isWebUrl_of_parse hparse hhttp).exists_origin hlaw
  have hunfold : sanitizeBaseUrl H value = some (bareUrl url.origin url.pathname) := by
    simp [sanitizeBaseUrl, hparse, hhttp]
  rw [hunfold, ← hwritten, bareUrl_eq, hwritten]
  rfl

/-- A canonical base URL has no query, no fragment and no slash at its end. -/
theorem canonicalBaseUrl_bare (hlaw : H.Lawful) {url : Url} (h : IsWebUrl H url) :
    '?' ∉ canonicalBaseUrl url ∧ '#' ∉ canonicalBaseUrl url ∧
      (canonicalBaseUrl url).getLast? ≠ some '/' := by
  obtain ⟨o, hwritten, -⟩ := h.exists_origin hlaw
  obtain ⟨path, hpath, hnormal, -⟩ := h.path
  obtain ⟨-, hquery, hfragment, -⟩ := o.written_eq
  have hmem {c : Char} (hc : c ∈ url.pathname.rdropWhile (· == '/')) :
      querySet c = false ∧ c ≠ '?' := by
    rw [pathname_segments hpath] at hc
    exact mem_joinSegments hnormal ((List.rdropWhile_prefix _ _).subset hc)
  rw [canonicalBaseUrl, ← hwritten]
  refine ⟨fun hc => ?_, fun hc => ?_, fun hlast => ?_⟩
  · rcases List.mem_append.mp hc with hc | hc
    · exact hquery hc
    · exact (hmem hc).2 rfl
  · rcases List.mem_append.mp hc with hc | hc
    · exact hfragment hc
    · exact (not_isControlOrSpace_of_querySet (hmem hc).1).2 rfl
  · by_cases hnil : url.pathname.rdropWhile (· == '/') = []
    · rw [hnil, List.append_nil, List.getLast?_eq_some_getLast o.written_ne_nil] at hlast
      exact o.getLast_written (Option.some.inj hlast)
    · have hnot := List.rdropWhile_last_not (· == '/') url.pathname hnil
      rw [List.getLast?_append_of_ne_nil _ hnil, List.getLast?_eq_some_getLast hnil] at hlast
      exact hnot (by simpa using hlast)

/-- A canonical base URL is its own. -/
theorem sanitizeBaseUrl_canonical (hlaw : H.Lawful) {url : Url} (h : IsWebUrl H url) :
    sanitizeBaseUrl H (canonicalBaseUrl url) = some (canonicalBaseUrl url) := by
  obtain ⟨o, hwritten, hscheme, horigin⟩ := h.exists_origin hlaw
  obtain ⟨path, hpath, hnormal, -⟩ := h.path
  have hstrip : url.pathname.rdropWhile (· == '/') =
      joinSegments (path.rdropWhile (· == [])) := by
    rw [pathname_segments hpath]
    exact rdropWhile_joinSegments fun x hx c hc heq => by
      have hslash := (hnormal x hx).not_slash true c hc
      rw [heq] at hslash
      cases hslash
  have hkept : ∀ x ∈ path.rdropWhile (· == []), Normal x := fun x hx =>
    hnormal x ((List.rdropWhile_prefix _ _).subset hx)
  generalize path.rdropWhile (· == []) = kept at hstrip hkept
  have hread : (joinSegments (if kept = [] then [[]] else kept)).rdropWhile (· == '/') =
      joinSegments kept := by
    by_cases hnil : kept = []
    · subst hnil
      rfl
    · rw [if_neg hnil, ← hstrip]
      exact List.rdropWhile_idempotent _ _
  have hhttp (segments : List (List Char)) : (o.url segments).isHttp = true :=
    (isHttp_iff _).mpr o.isHttp
  rw [canonicalBaseUrl, hstrip, ← hwritten, sanitizeBaseUrl, parse_origin_joinSegments o hkept]
  change (if (o.url _).isHttp = true then some _ else none) = _
  rw [if_pos (hhttp _), horigin, ← hwritten, bareUrl_eq, pathname_segments rfl, hread]

/-- The canonical base URL of a URL with nothing else. -/
theorem normalizeBaseUrl_of_plain {value : List Char} {url : Url}
    (hparse : parse H none value = some url) (hhttp : url.isHttp = true) (h : Plain url) :
    normalizeBaseUrl H value = some (canonicalBaseUrl url) := by
  obtain ⟨a, -, -, -, hhost, -⟩ := (isWebUrl_of_parse hparse hhttp).authority
  obtain ⟨path, hpath, -, hne⟩ := (isWebUrl_of_parse hparse hhttp).path
  have hhref : url.href = url.origin ++ url.pathname := by
    simp [href, authority, credentials, origin, hhost, h.username, h.password, h.query,
      h.fragment, marked]
  have hpathname : url.pathname ≠ [] := by
    rw [pathname_segments hpath]
    obtain ⟨x, rest, rfl⟩ := List.exists_cons_of_ne_nil hne
    exact List.cons_ne_nil _ _
  rw [normalizeBaseUrl, hparse, Option.map_some, hhref, dropSlash_append hpathname,
    (dropSlash_eq_rdropWhile_iff _).mpr h.oneSlash]
  rfl

/-- An invite has its token in the query or in the fragment. -/
theorem parseTokenizedInviteUrl_of_plain {value : List Char} {url : Url}
    (hparse : parse H none value = some url) (hhttp : url.isHttp = true) (h : Plain url) :
    parseTokenizedInviteUrl H value = none := by
  have htoken : inviteToken url = none := by
    simp only [inviteToken, searchParams, Url.hash, h.query, h.fragment]
    rfl
  simp [parseTokenizedInviteUrl, hparse, hhttp, htoken]

/-! ## What the command line keeps -/

theorem dropSlash_cons_ne_nil {c : Char} (hc : c ≠ '/') (s : List Char) :
    dropSlash (c :: s) ≠ [] := by
  by_cases hs : s = []
  · subst hs
    simp [dropSlash, hc]
  · rw [show c :: s = [c] ++ s from rfl, dropSlash_append hs]
    exact List.cons_ne_nil _ _

/-- Behind a path, a query or a fragment stays. -/
theorem dropSlash_append_marked {path : List Char} {query fragment : Option (List Char)}
    (h : dropSlash (path ++ (marked '?' query ++ marked '#' fragment)) =
      path.rdropWhile (· == '/')) : query = none ∧ fragment = none := by
  have hlength : ∀ m, m ≠ [] → dropSlash m ≠ [] → dropSlash (path ++ m) ≠
      path.rdropWhile (· == '/') := by
    intro m hm hdrop heq
    have hle := (List.rdropWhile_prefix (· == '/') path).length_le
    rw [← heq, dropSlash_append hm, List.length_append] at hle
    have hpos := List.length_pos_iff.mpr hdrop
    omega
  cases query with
  | some text =>
      exact absurd h (hlength _ (List.cons_ne_nil _ _) (dropSlash_cons_ne_nil (by decide) _))
  | none =>
      cases fragment with
      | some text =>
          exact absurd h (hlength _ (List.cons_ne_nil _ _) (dropSlash_cons_ne_nil (by decide) _))
      | none => exact ⟨rfl, rfl⟩

/-- Credentials stand before an `@`, and before any slash. -/
theorem credentials_eq_nil {u : Url} {text path rest : List Char}
    (huser : ∀ c ∈ u.username, userinfoSet c = false)
    (hpassword : ∀ c ∈ u.password, userinfoSet c = false)
    (htext : '@' ∉ text) (hslash : '/' ∉ text) (hpath : AtSlash path)
    (h : u.credentials ++ rest = text ++ path) : u.username = [] ∧ u.password = [] := by
  by_contra hsome
  have hnotslash {c : Char} (hc : userinfoSet c = false) : c ≠ '/' := by
    rintro rfl
    cases hc
  have hcredentials : '@' ∈ u.credentials ∧ ∀ c ∈ u.credentials, (c != '/') = true := by
    rw [credentials, if_neg hsome]
    refine ⟨List.mem_append_right _ List.mem_cons_self, fun c hc => ?_⟩
    have hne : c ≠ '/' := by
      rcases List.mem_append.mp hc with hc | hc
      · rcases List.mem_append.mp hc with hc | hc
        · exact hnotslash (huser c hc)
        · split at hc
          · cases hc
          · rcases List.mem_cons.mp hc with rfl | hc
            · decide
            · exact hnotslash (hpassword c hc)
      · rw [List.mem_singleton.mp hc]
        decide
    simpa using hne
  have hfront : (text ++ path).takeWhile (· != '/') = text := by
    have hkeep : ∀ c ∈ text, (c != '/') = true := by
      intro c hc
      simpa using fun heq : c = '/' => hslash (heq ▸ hc)
    rw [List.takeWhile_append_of_pos hkeep]
    cases path with
    | nil => exact List.append_nil text
    | cons c path =>
        obtain rfl : c = '/' := by simpa [AtSlash] using hpath
        exact List.append_nil text
  apply htext
  rw [← hfront, ← h, List.takeWhile_append_of_pos hcredentials.2]
  exact List.mem_append_left _ hcredentials.1

/-- The command line keeps the canonical base URL only of a URL with nothing else. -/
theorem plain_of_normalizeBaseUrl (hlaw : H.Lawful) {value : List Char} {url : Url}
    (hparse : parse H none value = some url) (hhttp : url.isHttp = true)
    (h : normalizeBaseUrl H value = some (canonicalBaseUrl url)) : Plain url := by
  obtain ⟨a, ha, hname, hpassword, hhost, hport⟩ :=
    (isWebUrl_of_parse hparse hhttp).authority
  obtain ⟨path, hpath, hnormal, hne⟩ := (isWebUrl_of_parse hparse hhttp).path
  obtain ⟨s, hs⟩ := ha.host
  have htext : ∀ c ∈ a.host ++ portSuffix a.port, c ≠ '@' ∧ c ≠ '/' := by
    intro c hc
    have hchar := isHostChar_hostAndPort hlaw ha c hc
    constructor
    · rintro rfl
      exact absurd hchar (by decide)
    · rintro rfl
      exact absurd hchar (by decide)
  have hnil : a.host ++ portSuffix a.port ≠ [] := fun h =>
    hlaw.ne_nil hs (List.append_eq_nil_iff.mp h).1
  have hpathname : ∃ rest, url.pathname = '/' :: rest := by
    rw [pathname_segments hpath]
    obtain ⟨x, rest, rfl⟩ := List.exists_cons_of_ne_nil hne
    exact ⟨_, rfl⟩
  have hstripped : AtSlash (url.pathname.rdropWhile (· == '/')) := by
    obtain ⟨rest, hrest⟩ := hpathname
    cases hs : url.pathname.rdropWhile (· == '/') with
    | nil => rfl
    | cons c t =>
        have hstart := List.rdropWhile_prefix (· == '/') url.pathname
        rw [hs, hrest, List.cons_prefix_cons] at hstart
        rw [hstart.1]
        rfl
  have hhref : url.href = (url.scheme ++ "://".toList) ++ (url.credentials ++
      ((a.host ++ portSuffix a.port) ++
        (url.pathname ++ (marked '?' url.query ++ marked '#' url.fragment)))) := by
    simp [href, authority, hhost, hport]
  have hcanonical : canonicalBaseUrl url = (url.scheme ++ "://".toList) ++
      ((a.host ++ portSuffix a.port) ++ url.pathname.rdropWhile (· == '/')) := by
    simp [canonicalBaseUrl, origin, hhost, hport]
  have hbehind (t : List Char) : (a.host ++ portSuffix a.port) ++ t ≠ [] := fun h =>
    hnil (List.append_eq_nil_iff.mp h).1
  rw [normalizeBaseUrl, hparse, Option.map_some, Option.some.injEq, hhref, hcanonical,
    dropSlash_append fun h => hbehind _ (List.append_eq_nil_iff.mp h).2,
    List.append_cancel_left_eq, dropSlash_append (hbehind _)] at h
  obtain ⟨hnoName, hnoPassword⟩ := credentials_eq_nil (hname ▸ ha.username)
    (hpassword ▸ ha.password) (fun hc => (htext _ hc).1 rfl) (fun hc => (htext _ hc).2 rfl)
    hstripped h
  have hnone : url.credentials = [] := if_pos ⟨hnoName, hnoPassword⟩
  rw [hnone, List.nil_append, dropSlash_append, List.append_cancel_left_eq] at h
  · obtain ⟨hquery, hfragment⟩ := dropSlash_append_marked h
    rw [hquery, hfragment, marked, marked, List.append_nil, List.append_nil] at h
    exact ⟨hnoName, hnoPassword, hquery, hfragment, (dropSlash_eq_rdropWhile_iff _).mp h⟩
  · obtain ⟨rest, hrest⟩ := hpathname
    rw [hrest]
    exact List.cons_ne_nil _ _

/-- A URL has one key on every way a room is joined exactly when it is its origin and a path
with at most one slash at its end. -/
theorem oneKey_iff (hlaw : H.Lawful) {value : List Char} {url : Url}
    (hparse : parse H none value = some url) (hhttp : url.isHttp = true) :
    OneKey H value url ↔ Plain url := by
  have hweb := isWebUrl_of_parse hparse hhttp
  constructor
  · intro h
    obtain ⟨base, hbase⟩ : ∃ base, normalizeBaseUrl H value = some base := by
      rw [normalizeBaseUrl, hparse]
      exact ⟨_, rfl⟩
    have hrow := h.oneRow .roomJoin base hbase ""
    have hsame : base = canonicalBaseUrl url :=
      String.ofList_injective (JoinedRoomTarget.mk.inj hrow).2
    exact plain_of_normalizeBaseUrl hlaw hparse hhttp (hsame ▸ hbase)
  · intro h
    have hrecorded (path : JoinPath) (base : List Char)
        (hbase : recordedBaseUrl H value path = some base) : base = canonicalBaseUrl url := by
      cases path with
      | roomJoin =>
          rw [recordedBaseUrl, normalizeBaseUrl_of_plain hparse hhttp h] at hbase
          exact (Option.some.inj hbase).symm
      | inviteImport =>
          rw [recordedBaseUrl, parseTokenizedInviteUrl_of_plain hparse hhttp h] at hbase
          cases hbase
      | bridgeRefresh =>
          rw [recordedBaseUrl, sanitizeBaseUrl_eq hlaw hparse hhttp] at hbase
          exact (Option.some.inj hbase).symm
    constructor
    · intro path base hbase roomId
      rw [hrecorded path base hbase]
    · intro path base hbase
      rw [hrecorded path base hbase]
      exact canonicalBaseUrl_bare hlaw hweb
    · intro path base hbase
      rw [hrecorded path base hbase]
      exact sanitizeBaseUrl_canonical hlaw hweb

/-- A base URL with a slash at its end, by the general theorem. -/
theorem oneKey_iff_room : ∃ url, parse .plain none "https://rooms.example/lobby/".toList =
      some url ∧ OneKey .plain "https://rooms.example/lobby/".toList url := by
  refine ⟨⟨"https".toList, [], [], some "rooms.example".toList, none,
    .segments ["lobby".toList, []], none, none⟩, by decide, ?_⟩
  exact (oneKey_iff plain_lawful (by decide) (by decide)).mpr
    ⟨rfl, rfl, rfl, rfl, by decide⟩

/-- The command line keeps the token of an invite in the base URL of the row. -/
theorem roomJoin_keeps_token :
    ¬ ∀ url, parse .plain none "https://rooms.example/#token=tgl_abcdefghijkl".toList =
      some url → OneKey .plain "https://rooms.example/#token=tgl_abcdefghijkl".toList url := by
  intro h
  obtain ⟨url, hparse⟩ : ∃ url, parse .plain none
      "https://rooms.example/#token=tgl_abcdefghijkl".toList = some url :=
    Option.isSome_iff_exists.mp (by decide)
  have hbare := (h url hparse).bare .roomJoin
    "https://rooms.example/#token=tgl_abcdefghijkl".toList (by decide)
  exact hbare.2.1 (by decide)

end AgentGather.Platform
