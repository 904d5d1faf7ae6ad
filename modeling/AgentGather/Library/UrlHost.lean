import AgentGather.Library.UrlOrigin

/-!
# Web URLs that are read again

What every parsed web URL is made of, and that the origin of one, as it is serialized, is the
origin of a web server that is read as itself.
-/

namespace AgentGather.Library

/-- A character of a serialized host. -/
def Url.isHostChar (c : Char) : Bool := Url.isAuthorityChar c && c != '@'

/-- What the standard says of the serialized host of a special scheme: it is not empty, has no
forbidden character, a colon only between brackets, and is read as itself. -/
structure HostParser.Lawful (H : HostParser) : Prop where
  ne_nil : ∀ {s host}, H.special s = some host → host ≠ []
  chars : ∀ {s host}, H.special s = some host → ∀ c ∈ host, Url.isHostChar c = true
  colon : ∀ {s host}, H.special s = some host → ∀ rest,
    Url.splitPort false (host ++ ':' :: rest) = (host, some rest) ∧
      Url.splitPort false host = (host, none)
  reread : ∀ {s host}, H.special s = some host → H.special host = some host

namespace Url

variable {H : HostParser}

/-! ## Plain hosts -/

theorem splitPort_of_not_special {host : List Char}
    (h : ∀ c ∈ host, c ≠ ':' ∧ c ≠ '[' ∧ c ≠ ']') :
    (∀ rest, splitPort false (host ++ ':' :: rest) = (host, some rest)) ∧
      splitPort false host = (host, none) := by
  induction host with
  | nil => exact ⟨fun rest => rfl, rfl⟩
  | cons c host ih =>
      obtain ⟨hcolon, hopen, hclose⟩ := h c List.mem_cons_self
      obtain ⟨hport, hnone⟩ := ih fun d hd => h d (List.mem_cons_of_mem _ hd)
      constructor
      · intro rest
        simp [splitPort, hcolon, hopen, hclose, hport rest]
      · simp [splitPort, hcolon, hopen, hclose, hnone]

theorem plain_lawful : HostParser.plain.Lawful := by
  have hspec {s host : List Char} (h : HostParser.plain.special s = some host) :
      s = host ∧ host ≠ [] ∧ ∀ c ∈ host, HostParser.isPlainChar c = true := by
    simp only [HostParser.plain] at h
    by_cases hplain : (!s.isEmpty && s.all HostParser.isPlainChar) = true
    · rw [if_pos hplain] at h
      obtain rfl := Option.some.inj h
      simpa using hplain
    · rw [if_neg hplain] at h
      cases h
  have hchar {c : Char} (h : HostParser.isPlainChar c = true) (d : Char)
      (hd : HostParser.isPlainChar d = false) : c ≠ d := by
    rintro rfl
    rw [h] at hd
    cases hd
  constructor
  · intro s host h
    exact (hspec h).2.1
  · intro s host h c hc
    have hplain := (hspec h).2.2 c hc
    have hcontrol : isControl c = false := by
      simp only [HostParser.isPlainChar, Text.isLower, Text.isDigit, Bool.or_eq_true,
        Bool.and_eq_true, decide_eq_true_eq, beq_iff_eq] at hplain
      rcases hplain with ((⟨hlower, -⟩ | ⟨hdigit, -⟩) | rfl) | rfl
      · have hge : 97 ≤ c.toNat := hlower
        rw [isControl, decide_eq_false_iff_not]
        omega
      · have hge : 48 ≤ c.toNat := hdigit
        rw [isControl, decide_eq_false_iff_not]
        omega
      · decide
      · decide
    have hne := hchar hplain
    simp [isHostChar, isAuthorityChar, isControlOrSpace, isSlash, hcontrol, hne ' ' (by decide),
      hne '/' (by decide), hne '\\' (by decide), hne '?' (by decide), hne '#' (by decide),
      hne '@' (by decide)]
  · intro s host h rest
    have hsplit := splitPort_of_not_special fun c hc =>
      ⟨hchar ((hspec h).2.2 c hc) ':' (by decide), hchar ((hspec h).2.2 c hc) '[' (by decide),
        hchar ((hspec h).2.2 c hc) ']' (by decide)⟩
    exact ⟨hsplit.1 rest, hsplit.2⟩
  · intro s host h
    obtain ⟨rfl, -, -⟩ := hspec h
    exact h

/-! ## Authorities -/

/-- What an authority of a web scheme is made of. -/
structure IsWebAuthority (H : HostParser) (scheme : List Char) (a : Authority) : Prop where
  host : ∃ s, H.special s = some a.host
  username : ∀ c ∈ a.username, userinfoSet c = false
  password : ∀ c ∈ a.password, userinfoSet c = false
  port : ∀ port, a.port = some port → port ≤ 65535 ∧ defaultPort scheme ≠ some port

theorem readPort_spec {scheme s : List Char} {port : Nat}
    (h : readPort scheme s = some (some port)) :
    port ≤ 65535 ∧ defaultPort scheme ≠ some port := by
  unfold readPort at h
  simp only at h
  split_ifs at h with hempty hdigits hlarge hdefault
  · exact nomatch Option.some.inj h
  · exact nomatch Option.some.inj h
  · obtain rfl := Option.some.inj (Option.some.inj h)
    exact ⟨Nat.le_of_not_lt hlarge, hdefault⟩

theorem readAuthority_spec {scheme s : List Char} {a : Authority} (hweb : IsWeb scheme)
    (h : readAuthority H scheme s = some a) : IsWebAuthority H scheme a := by
  unfold readAuthority at h
  simp only at h
  split_ifs at h
  · obtain ⟨port, hport, h⟩ := Option.bind_eq_some_iff.mp h
    obtain ⟨host, hhost, h⟩ := Option.bind_eq_some_iff.mp h
    obtain rfl := Option.some.inj h
    refine ⟨⟨(splitPort false (splitCredentials s).2).1, ?_⟩, ?_, ?_, fun p hp => ?_⟩
    · rw [readHost, hweb.special] at hhost
      simp only [if_true] at hhost
      split at hhost
      · cases hhost
      · exact hhost
    · exact fun c hc => not_set_of_mem_percentEncode escapes_userinfoSet hc
    · exact fun c hc => not_set_of_mem_percentEncode escapes_userinfoSet hc
    · exact readPort_spec (hport.trans (congrArg some hp))

/-- A port as it is serialized. -/
theorem readPort_toDigits {scheme : List Char} {port : Nat} (h : port ≤ 65535)
    (hdefault : defaultPort scheme ≠ some port) :
    readPort scheme (Nat.toDigits 10 port) = some (some port) := by
  have hdigits : (Nat.toDigits 10 port).all Text.isDigit = true := by
    rw [List.all_eq_true]
    intro c hc
    have hdigit := Nat.isDigit_of_mem_toDigits (by decide) (by decide) hc
    simpa [Char.isDigit, Text.isDigit, UInt32.le_iff_toNat_le] using hdigit
  have hempty : (Nat.toDigits 10 port).isEmpty = false := by
    rw [List.isEmpty_eq_false_iff]
    exact Nat.toDigits_ne_nil
  rw [readPort, hempty, hdigits, Nat.ofDigitChars_ten_toDigits]
  simp only [Bool.false_eq_true, if_false, if_true, if_neg (Nat.not_lt.mpr h), if_neg hdefault]

theorem splitCredentials_of_not_mem {s : List Char} (h : '@' ∉ s) :
    splitCredentials s = (none, s) := by
  have hkeep : ∀ c ∈ s, (c != '@') = true := by
    intro c hc
    simpa using fun heq : c = '@' => h (heq ▸ hc)
  rw [splitCredentials, List.rdropWhile_eq_nil_iff.mpr hkeep,
    List.rtakeWhile_eq_self_iff.mpr hkeep]
  rfl

/-- A host and a port as they are serialized. -/
theorem readAuthority_reread (hlaw : H.Lawful) {scheme : List Char} (hweb : IsWeb scheme)
    {a : Authority} (ha : IsWebAuthority H scheme a) :
    readAuthority H scheme (a.host ++ portSuffix a.port) =
      some ⟨[], [], a.host, a.port⟩ := by
  obtain ⟨s, hs⟩ := ha.host
  have hat : '@' ∉ a.host := fun h => by
    have hchar := hlaw.chars hs _ h
    simp [isHostChar] at hchar
  have hhost : readHost H scheme a.host = some a.host := by
    rw [readHost, hweb.special, hlaw.reread hs]
    simp [hlaw.ne_nil hs]
  cases hport : a.port with
  | none =>
      rw [portSuffix, List.append_nil, readAuthority, splitCredentials_of_not_mem hat]
      simp [(hlaw.colon hs []).2, splitAtFirst, readPort, hhost, percentEncode]
  | some port =>
      obtain ⟨hle, hdefault⟩ := ha.port port hport
      have hat' : '@' ∉ a.host ++ ':' :: Nat.toDigits 10 port := by
        intro h
        rcases List.mem_append.mp h with h | h
        · exact hat h
        · rcases List.mem_cons.mp h with h | h
          · exact absurd h (by decide)
          · have hdigit := Nat.isDigit_of_mem_toDigits (by decide) (by decide) h
            exact absurd hdigit (by decide)
      rw [portSuffix, readAuthority, splitCredentials_of_not_mem hat']
      simp [(hlaw.colon hs _).1, hlaw.ne_nil hs, splitAtFirst, readPort_toDigits hle hdefault,
        hhost, percentEncode]

/-! ## Web URLs -/

/-- What a web URL that was parsed is made of. -/
structure IsWebUrl (H : HostParser) (u : Url) : Prop where
  http : u.scheme = "http".toList ∨ u.scheme = "https".toList
  authority : ∃ a, IsWebAuthority H u.scheme a ∧ u.username = a.username ∧
    u.password = a.password ∧ u.host = some a.host ∧ u.port = a.port
  path : ∃ path, u.path = .segments path ∧ (∀ x ∈ path, Normal x) ∧ path ≠ []

theorem isWeb_of_http {scheme : List Char}
    (h : scheme = "http".toList ∨ scheme = "https".toList) : IsWeb scheme := by
  rcases h with h | h
  · rw [h]
    exact isWeb_http
  · rw [h]
    exact isWeb_https

theorem readHostAndPath_spec {scheme s : List Char} {u : Url}
    (hhttp : scheme = "http".toList ∨ scheme = "https".toList)
    (h : readHostAndPath H scheme s = some u) : IsWebUrl H u := by
  have hweb := isWeb_of_http hhttp
  obtain ⟨a, ha, h⟩ := Option.bind_eq_some_iff.mp h
  obtain rfl := Option.some.inj h
  exact ⟨hhttp, ⟨a, readAuthority_spec hweb ha, rfl, rfl, rfl, rfl⟩,
    ⟨_, rfl, normal_readPath hweb _⟩⟩

theorem IsWebUrl.withQuery {u : Url} (h : IsWebUrl H u) (query : Option (List Char)) :
    IsWebUrl H (u.withQuery query) := by
  obtain ⟨path, hpath, hnormal⟩ := h.path
  cases query with
  | none => exact h
  | some q => exact ⟨h.http, h.authority, path, path_withQuery hpath (some q), hnormal⟩

theorem IsWebUrl.withFragment {u : Url} (h : IsWebUrl H u)
    (query fragment : Option (List Char)) : IsWebUrl H (u.withFragment query fragment) := by
  obtain ⟨path, hpath, hnormal⟩ := h.path
  cases fragment with
  | none => exact h
  | some f => exact ⟨h.http, h.authority, path, path_withFragment hpath query (some f), hnormal⟩

theorem readFile_scheme {s : List Char} {u : Url} (h : readFile H none s = some u) :
    u.scheme = "file".toList := by
  rw [readFile] at h
  split at h
  · rw [readFileSlash] at h
    split at h
    · rw [readFileHost] at h
      simp only at h
      split_ifs at h with hdrive hempty
      · obtain rfl := Option.some.inj h
        rfl
      · obtain rfl := Option.some.inj h
        rfl
      · obtain ⟨host, -, h⟩ := Option.bind_eq_some_iff.mp h
        obtain rfl := Option.some.inj h
        rfl
    · obtain rfl := Option.some.inj h
      rfl
  · obtain rfl := Option.some.inj h
    rfl

theorem scheme_withQuery_withFragment (u : Url) (query fragment : Option (List Char)) :
    ((u.withQuery query).withFragment query fragment).scheme = u.scheme := by
  cases query with
  | none =>
      cases fragment with
      | none => rfl
      | some f => rfl
  | some q =>
      cases fragment with
      | none => rfl
      | some f => rfl

theorem isHttp_iff (u : Url) :
    u.isHttp = true ↔ u.scheme = "http".toList ∨ u.scheme = "https".toList := by
  simp [isHttp]

theorem readHostAndPath_scheme {scheme s : List Char} {u : Url}
    (h : readHostAndPath H scheme s = some u) : u.scheme = scheme := by
  obtain ⟨a, -, h⟩ := Option.bind_eq_some_iff.mp h
  obtain rfl := Option.some.inj h
  rfl

theorem readAbsolute_scheme {scheme s : List Char} {u : Url}
    (h : readAbsolute H none scheme s = some u) : u.scheme = scheme := by
  unfold readAbsolute at h
  simp only [Option.filter_none] at h
  split_ifs at h with hfile hspecial
  · rw [readFile_scheme h]
    exact (beq_iff_eq.mp hfile).symm
  · exact readHostAndPath_scheme h
  · split at h
    · exact readHostAndPath_scheme h
    · obtain rfl := Option.some.inj h
      rfl
    · obtain rfl := Option.some.inj h
      rfl

/-- Every absolute text with a web scheme is read as a web URL. -/
theorem isWebUrl_of_parse {input : List Char} {u : Url} (h : parse H none input = some u)
    (hhttp : u.isHttp = true) : IsWebUrl H u := by
  obtain ⟨v, hfront, rfl⟩ := Option.map_eq_some_iff.mp h
  have hv : v.scheme = "http".toList ∨ v.scheme = "https".toList := by
    rw [isHttp_iff, scheme_withQuery_withFragment] at hhttp
    exact hhttp
  suffices hweb : IsWebUrl H v from (hweb.withQuery _).withFragment _ _
  cases hs : splitScheme (cut (clean input)).front with
  | none =>
      simp only [readFront, hs] at hfront
      cases hfront
  | some split =>
      obtain ⟨scheme, s⟩ := split
      simp only [readFront, hs] at hfront
      have hscheme : v.scheme = scheme := readAbsolute_scheme hfront
      rw [hscheme] at hv
      have hread : readSpecial H scheme s = some v :=
        (readAbsolute_web (isWeb_of_http hv) s).symm.trans hfront
      exact readHostAndPath_spec hv hread

/-! ## The origin of a web URL -/

theorem isHostChar_portSuffix (port : Option Nat) :
    ∀ c ∈ portSuffix port, isHostChar c = true := by
  intro c hc
  cases port with
  | none => cases hc
  | some port =>
      rcases List.mem_cons.mp hc with rfl | hc
      · decide
      · have hdigit := Nat.isDigit_of_mem_toDigits (by decide) (by decide) hc
        have hrange : 48 ≤ c.toNat ∧ c.toNat ≤ 57 := by
          simpa [Char.isDigit, UInt32.le_iff_toNat_le] using hdigit
        have hne (d : Char) (hd : ¬(48 ≤ d.toNat ∧ d.toNat ≤ 57)) : c ≠ d :=
          fun h => hd (h ▸ hrange)
        have hplain : isControlOrSpace c = false := by
          simp [isControlOrSpace, isControl, hne ' ' (by decide)]
          omega
        have hslash : isSlash true c = false := by
          simp [isSlash, hne '/' (by decide), hne '\\' (by decide)]
        have hauthority : isAuthorityChar c = true :=
          isAuthorityChar_iff.mpr ⟨hplain, hslash, hne '?' (by decide), hne '#' (by decide)⟩
        simp [isHostChar, hauthority, hne '@' (by decide)]

/-- A host and a port have no character that ends an authority or its credentials. -/
theorem isHostChar_hostAndPort (hlaw : H.Lawful) {scheme : List Char} {a : Authority}
    (ha : IsWebAuthority H scheme a) :
    ∀ c ∈ a.host ++ portSuffix a.port, isHostChar c = true := by
  obtain ⟨s, hs⟩ := ha.host
  intro c hc
  rcases List.mem_append.mp hc with hc | hc
  · exact hlaw.chars hs c hc
  · exact isHostChar_portSuffix a.port c hc

/-- The origin of a web URL is the origin of a web server. -/
theorem IsWebUrl.exists_origin (hlaw : H.Lawful) {u : Url} (h : IsWebUrl H u) :
    ∃ o : WebOrigin H, o.written = u.origin ∧ o.scheme = u.scheme ∧
      ∀ path, (o.url path).origin = u.origin := by
  obtain ⟨a, ha, -, -, hhost, hport⟩ := h.authority
  refine ⟨⟨u.scheme, a.host ++ portSuffix a.port, _, h.http, fun c hc => ?_,
    readAuthority_reread hlaw (isWeb_of_http h.http) ha⟩, ?_, rfl, fun path => ?_⟩
  · have hchar := isHostChar_hostAndPort hlaw ha c hc
    rw [isHostChar, Bool.and_eq_true] at hchar
    exact hchar.1
  · simp [WebOrigin.written, origin, hhost, hport]
  · simp [WebOrigin.url, origin, hhost, hport]

/-- At a web page, a text that begins neither a scheme nor a path with a slash is a web URL. -/
theorem parse_relative_of_plain {base : Url} (hbase : IsWebUrl H base) {c : Char}
    {s : List Char} (hplain : ∀ d ∈ c :: s, isControlOrSpace d = false) (hquery : '?' ∉ c :: s)
    (hfragment : '#' ∉ c :: s) (halpha : isAlpha c = false) (hslash : isSlash true c = false) :
    ∃ u, parse H (some base) (c :: s) = some u ∧ u.scheme = base.scheme := by
  obtain ⟨path, hpath, -⟩ := hbase.path
  have hweb := isWeb_of_http hbase.http
  have hcut : cut (c :: s) = ⟨c :: s, none, none⟩ := by
    have happend := cut_append hquery hfragment []
    rwa [List.append_nil, show cut [] = ⟨[], none, none⟩ from rfl, List.append_nil] at happend
  have hscheme : splitScheme (c :: s) = none := by
    rw [splitScheme, List.head?_cons, Option.any_some, halpha]
  rw [parse, clean_of_plain hplain, hcut]
  simp only [readFront, hscheme, hpath, readAtBase, hweb.notFile, readRelative, hweb.special,
    List.isEmpty_cons, List.head?_cons, Option.any_some, hslash]
  exact ⟨_, rfl, scheme_withQuery_withFragment _ _ _⟩

end Url

end AgentGather.Library
