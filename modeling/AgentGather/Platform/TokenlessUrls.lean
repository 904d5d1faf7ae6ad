import AgentGather.Platform.BaseUrls
import Mathlib.Data.List.Infix

/-!
# Route URLs without a token

The registry rejects a route URL that carries a token: it looks at the raw text, at the
parameters of the query and at the fragment as it is spelled.  The dashboard reads a token out
of the decoded parameters of the fragment.  The two agree on all but one spelling of a token.
-/

namespace AgentGather.Platform

open AgentGather.Library AgentGather.Library.Url

variable {H : HostParser} {value : List Char} {url : Url}

/-! ## What the registry accepts -/

/-- `text.includes(part)` -/
def includes (text part : List Char) : Bool := decide (part <:+: text)

/-- The URL, or the text of a `ControlPlaneValidationError`. -/
def assertTokenlessUrl (H : HostParser) (value : List Char) : Except String Url :=
  match parse H none value with
  | none => .error "route_url must be a valid URL"
  | some url =>
      if !url.isHttp then .error "route_url must use http or https"
      else if url.username ≠ [] ∨ url.password ≠ [] then
        .error "route_url must not embed credentials"
      else if (getParam "token".toList url.searchParams).isSome ∨
          includes url.hash "token=".toList then
        .error "route_url must not embed a token"
      else if includes value "tgl_".toList then .error "route_url must not embed a token"
      else .ok url

/-- What an accepted URL is known to lack. -/
structure Tokenless (H : HostParser) (value : List Char) (url : Url) : Prop where
  parsed : parse H none value = some url
  query : getParam "token".toList url.searchParams = none
  fragment : ¬ "token=".toList <:+: url.hash
  raw : ¬ "tgl_".toList <:+: value

theorem tokenless_of_accepted (h : assertTokenlessUrl H value = .ok url) :
    Tokenless H value url := by
  unfold assertTokenlessUrl at h
  split at h
  · cases h
  · rename_i parsed hparsed
    split_ifs at h with hhttp hcredentials htoken hraw
    rw [← Except.ok.inj h]
    rw [not_or] at htoken
    exact {
      parsed := hparsed
      query := by simpa using htoken.1
      fragment := by simpa [includes] using htoken.2
      raw := by simpa [includes] using hraw }

/-! ## What the dashboard reads -/

/-- The parameters of a text that may begin with a question mark. -/
def fragmentPieces (fragment : List Char) : List (List Char) :=
  formPieces (if fragment.head? = some '?' then fragment.tail else fragment)

/-- The parameter that `get("token")` finds, as it is spelled. -/
def tokenPiece (fragment : List Char) : Option (List Char) :=
  (fragmentPieces fragment).find? fun piece => formDecode (rawName piece) == "token".toList

/-- The first parameter of the fragment that is named `token` has an escape in its name, and
its value is a token. -/
def EscapedToken (url : Url) : Prop :=
  ∃ piece, tokenPiece (url.fragment.getD []) = some piece ∧ '%' ∈ rawName piece ∧
    isInviteToken (formDecode (rawValue piece)) = true

theorem getParam_fragment (fragment : List Char) :
    getParam "token".toList (paramsOf fragment) =
      (tokenPiece fragment).map fun piece => formDecode (rawValue piece) :=
  getParam_parseForm _ _

/-- Without a token in the query, the token is the one of the fragment. -/
theorem inviteToken_of_query (hquery : getParam "token".toList url.searchParams = none) :
    inviteToken url = ((tokenPiece (url.fragment.getD [])).map fun piece =>
      formDecode (rawValue piece)).filter (isInviteToken ·) := by
  have hempty : tokenPiece [] = none := rfl
  unfold inviteToken
  simp only [hquery, Option.filter_none, Option.none_or]
  cases hfragment : url.fragment with
  | none => simp [Url.hash, shown, hfragment, hempty]
  | some fragment =>
    cases fragment with
    | nil => simp [Url.hash, shown, hfragment, hempty]
    | cons c rest =>
      have hhash : url.hash = '#' :: c :: rest := by rw [Url.hash, hfragment]; rfl
      rw [hhash, List.head?_cons, if_pos rfl, List.tail_cons, getParam_fragment]
      rfl

/-! ## Where they agree -/

/-- A piece of the fragment stands in what `hash` shows. -/
theorem infix_hash_of_mem {fragment piece : List Char} (hfragment : url.fragment = some fragment)
    (h : piece ∈ fragmentPieces fragment) : piece <:+: url.hash := by
  have hpiece := Text.infix_of_mem_splitOnP (List.mem_of_mem_filter h)
  have htail : (if fragment.head? = some '?' then fragment.tail else fragment) <:+: fragment := by
    split_ifs
    · exact (List.tail_suffix fragment).isInfix
    · exact List.infix_rfl
  have hinfix : piece <:+: fragment := hpiece.trans htail
  rw [Url.hash, hfragment]
  cases fragment with
  | nil => exact hinfix
  | cons c rest => exact hinfix.trans (List.suffix_cons '#' _).isInfix

/-- A parameter whose name is spelled out has a value only behind `token=`. -/
theorem rawValue_of_rawName {piece : List Char} (hname : rawName piece = "token".toList)
    (h : ¬ "token=".toList <:+: piece) : rawValue piece = [] := by
  have hsplit : piece = rawName piece ++ piece.dropWhile (· != '=') :=
    (List.takeWhile_append_dropWhile (p := (· != '='))).symm
  rw [rawValue, splitAtFirst]
  cases hrest : piece.dropWhile (· != '=') with
  | nil => rfl
  | cons c rest =>
    have hsep : c = '=' := by
      have hhead := List.head_dropWhile_not (· != '=') (l := piece) (by rw [hrest]; simp)
      simpa [hrest] using hhead
    refine (h ⟨[], rest, ?_⟩).elim
    rw [hsplit, hrest, hname, hsep]
    rfl

theorem isInviteToken_nil : isInviteToken [] = false := by decide

/-- A token is found in the fragment of an accepted URL only where the name has an escape. -/
theorem escaped_of_tokenPiece (haccepted : Tokenless H value url) {piece : List Char}
    (hpiece : tokenPiece (url.fragment.getD []) = some piece)
    (htoken : isInviteToken (formDecode (rawValue piece)) = true) : '%' ∈ rawName piece := by
  by_contra hplain
  have hdecoded : formDecode (rawName piece) = "token".toList := by
    simpa using List.find?_some hpiece
  have hname : rawName piece = "token".toList :=
    eq_of_formDecode (List.all_iff_forall_prop.mp (by decide)) hplain hdecoded
  have hmem := List.mem_of_find?_eq_some hpiece
  have hinfix : piece <:+: url.hash := by
    cases hfragment : url.fragment with
    | none =>
      rw [hfragment] at hmem
      cases hmem
    | some fragment =>
      rw [hfragment] at hmem
      exact infix_hash_of_mem hfragment hmem
  have hnone : rawValue piece = [] :=
    rawValue_of_rawName hname fun h => haccepted.fragment (h.trans hinfix)
  rw [hnone] at htoken
  have hempty : isInviteToken (formDecode []) = false := isInviteToken_nil
  rw [hempty] at htoken
  cases htoken

/-- The dashboard finds no token in a URL that the registry accepts, unless a parameter of the
fragment spells the name of the token with an escape. -/
theorem assertTokenlessUrl_inviteToken (H : HostParser) (value : List Char) (url : Url)
    (h : assertTokenlessUrl H value = .ok url) :
    parse H none value = some url ∧ (inviteToken url = none ↔ ¬ EscapedToken url) := by
  have haccepted := tokenless_of_accepted h
  refine ⟨haccepted.parsed, ?_⟩
  rw [inviteToken_of_query haccepted.query]
  cases hpiece : tokenPiece (url.fragment.getD []) with
  | none => simp [EscapedToken, hpiece]
  | some piece =>
    rw [Option.map_some]
    cases htoken : isInviteToken (formDecode (rawValue piece)) with
    | false => simp [EscapedToken, hpiece, htoken]
    | true =>
      have hescaped := escaped_of_tokenPiece haccepted hpiece htoken
      simp [EscapedToken, hpiece, htoken, hescaped]

/-- A URL with another fragment, by the general theorem. -/
theorem assertTokenlessUrl_inviteToken_plain : ∃ url,
    assertTokenlessUrl .plain "https://h/r#view=all".toList = .ok url ∧
      parse .plain none "https://h/r#view=all".toList = some url ∧
      (inviteToken url = none ↔ ¬ EscapedToken url) := by
  have hok : (assertTokenlessUrl .plain "https://h/r#view=all".toList).toOption.isSome = true := by
    decide +kernel
  cases h : assertTokenlessUrl .plain "https://h/r#view=all".toList with
  | error e =>
    rw [h] at hok
    cases hok
  | ok url => exact ⟨url, rfl, assertTokenlessUrl_inviteToken .plain _ url h⟩

/-- A token in the fragment that both checks on its spelling pass over. -/
theorem assertTokenlessUrl_escaped :
    ∃ url, assertTokenlessUrl .plain "https://h/#%74oken=%74gl_abcdefghijkl".toList = .ok url ∧
      inviteToken url = some "tgl_abcdefghijkl".toList := by
  have htoken : ((assertTokenlessUrl .plain
      "https://h/#%74oken=%74gl_abcdefghijkl".toList).toOption.bind inviteToken) =
      some "tgl_abcdefghijkl".toList := by decide +kernel
  cases h : assertTokenlessUrl .plain "https://h/#%74oken=%74gl_abcdefghijkl".toList with
  | error e =>
    rw [h] at htoken
    cases htoken
  | ok url =>
    rw [h] at htoken
    exact ⟨url, rfl, htoken⟩

end AgentGather.Platform
