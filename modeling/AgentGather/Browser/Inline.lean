import AgentGather.Library.Dom
import AgentGather.Library.RegexScan
import AgentGather.Library.UrlHost
import Mathlib.Data.List.Infix

/-!
# Inline Markdown

What the browser makes of the text of a line or a paragraph: strong text, code, links, mentions
and bare addresses, found by one pattern.  Strong text is rendered the same way.
-/

namespace AgentGather.Browser

open AgentGather.Library AgentGather.Library.Dom AgentGather.Library.Regex

/-- What the renderer reads of the page: the host parser of the browser, the address of the
page, and whether there is a clipboard. -/
structure Page where
  hosts : HostParser
  href : List Char
  clipboard : Bool

/-- The aliases to highlight, if any are given. -/
abbrev Mentions := Option (List (List Char))

/-! ## The tokens -/

/-- A literal text, letters in either case. -/
def litEitherCase : List Char → Regex Char
  | [] => .empty
  | c :: cs => .seq (.char fun d => d.toLower == c) (litEitherCase cs)

/-- One or more, as few as possible. -/
def lazyPlus (body : Regex Char) : Regex Char := .seq body (.star false body)

/-- `\*\*[^*\n][\s\S]*?\*\*`. -/
def strongToken : Regex Char :=
  .seq (.lit "**".toList)
    (.seq (.char fun c => !(['*', '\n'].contains c))
      (.seq (.star false (.char fun _ => true)) (.lit "**".toList)))

def isCodeChar (c : Char) : Bool := !(['\x60', '\n'].contains c)

/-- Between backticks, anything but backticks and line ends. -/
def codeToken : Regex Char :=
  .seq (.lit ['\x60']) (.seq (.plus (.char isCodeChar)) (.lit ['\x60']))

def isLabelChar (c : Char) : Bool := !([']', '\n'].contains c)

def isTargetChar (c : Char) : Bool := !([')', ' ', '\n'].contains c)

/-- `\[[^\]\n]+\]\([^) \n]+?\)`. -/
def linkToken : Regex Char :=
  .seq (.lit ['[']) (.seq (.plus (.char isLabelChar))
    (.seq (.lit "](".toList) (.seq (lazyPlus (.char isTargetChar)) (.lit [')']))))

/-- `[^\s<]+`. -/
def addressRest : Regex Char := .plus (.char fun c => !(Text.isSpace c || c == '<'))

/-- `https?:\/\/[^\s<]+`. -/
def webToken : Regex Char :=
  .seq (litEitherCase "http".toList) (.seq (.opt (litEitherCase ['s']))
    (.seq (litEitherCase "://".toList) addressRest))

/-- `mailto:[^\s<]+`. -/
def mailToken : Regex Char := .seq (litEitherCase "mailto:".toList) addressRest

def isAliasChar (c : Char) : Bool :=
  Text.isLower c || Text.isUpper c || Text.isDigit c || c == '-'

/-- `@[a-z0-9-]+`, letters in either case. -/
def mentionToken : Regex Char := .seq (.lit ['@']) (.plus (.char isAliasChar))

def tokenPattern : Regex Char :=
  .group 1 (.alt strongToken (.alt codeToken (.alt linkToken
    (.alt webToken (.alt mailToken mentionToken)))))

/-- `^\[([^\]\n]+)\]\(([^) \n]+)\)$`. -/
def linkPattern : Regex Char :=
  .seq .start (.seq (.lit ['[']) (.seq (.group 1 (.plus (.char isLabelChar)))
    (.seq (.lit "](".toList) (.seq (.group 2 (.plus (.char isTargetChar)))
      (.seq (.lit [')']) .stop)))))

/-! ## Rendering -/

/-- `value.slice(n, -n)`. -/
def inner (n : Nat) (value : List Char) : List Char := (value.take (value.length - n)).drop n

def startsAndEndsWith (delimiter value : List Char) : Bool :=
  delimiter.isPrefixOf value && delimiter.isSuffixOf value

def isStrong (value : List Char) : Bool := startsAndEndsWith "**".toList value

def isCode (value : List Char) : Bool := startsAndEndsWith ['\x60'] value

def isLink (value : List Char) : Bool :=
  value.head? == some '[' && decide ("](".toList <:+: value) && value.getLast? == some ')'

def isSafeHref (page : Page) (value : List Char) : Bool :=
  match Url.resolve page.hosts value page.href with
  | some url => ["http", "https", "mailto"].any fun scheme => url.scheme == scheme.toList
  | none => false

/-- A link to `href`. -/
def anchor (href label : List Char) : Node :=
  .element "a" [("href", .text href), ("rel", .text "noreferrer".toList),
    ("target", .text "_blank".toList)] (textNodes label)

def appendText (text : List Char) : List Node := textNodes text

def appendMarkdownLink (page : Page) (value : List Char) : List Node :=
  match linkPattern.exec value with
  | none => appendText value
  | some m =>
      let label := (m.group? 1).getD []
      let href := (m.group? 2).getD []
      if isSafeHref page href then [anchor href label] else appendText label

def isMention (mentions : Mentions) (value : List Char) : Bool :=
  value.head? == some '@' && mentions.any fun aliases => aliases.contains value.tail

/-- A token that is no strong text. -/
def leafNodes (page : Page) (mentions : Mentions) (value : List Char) : List Node :=
  if isCode value then [.element "code" [] (textNodes (inner 1 value))]
  else if isLink value then appendMarkdownLink page value
  else if isMention mentions value then
    [.element "span" [("class", .text "mention".toList)] (textNodes value)]
  else if isSafeHref page value then [anchor value value]
  else appendText value

/-! ## What a token is -/

/-- The address schemes that a bare token may begin with. -/
def addressStarts : List (List Char) :=
  ["http://".toList, "https://".toList, "mailto:".toList]

/-- The token begins with `http://`, `https://` or `mailto:`, letters in either case. -/
def isAddress (value : List Char) : Bool :=
  addressStarts.any fun start => start.isPrefixOf (value.map Char.toLower)

/-- The shapes of the stretches that the pattern matches. -/
inductive Token : List Char → Prop
  | strong {content : List Char} : content ≠ [] → Token ("**".toList ++ (content ++ "**".toList))
  | code {content : List Char} : content ≠ [] → (∀ c ∈ content, isCodeChar c = true) →
      Token ('\x60' :: (content ++ ['\x60']))
  | link {label target : List Char} : label ≠ [] → (∀ c ∈ label, isLabelChar c = true) →
      target ≠ [] → (∀ c ∈ target, isTargetChar c = true) →
      Token ('[' :: (label ++ ("](".toList ++ (target ++ [')']))))
  | address {value : List Char} : isAddress value = true → Token value
  | mention {name : List Char} : name ≠ [] → (∀ c ∈ name, isAliasChar c = true) →
      Token ('@' :: name)

theorem denotes_lit_iff {lit before text after : List Char} :
    (Regex.lit lit).Denotes before text after ↔ text = lit := by
  induction lit generalizing before text with
  | nil => exact Iff.rfl
  | cons c cs ih =>
      constructor
      · rintro ⟨_, v, rfl, ⟨d, hd, rfl⟩, hv⟩
        rw [ih.mp hv, eq_of_beq hd]
        rfl
      · rintro rfl
        exact ⟨[c], cs, rfl, ⟨c, beq_self_eq_true c, rfl⟩, ih.mpr rfl⟩

theorem map_toLower_of_denotes {lit before text after : List Char}
    (h : (litEitherCase lit).Denotes before text after) : text.map Char.toLower = lit := by
  induction lit generalizing before text with
  | nil =>
      rw [show text = [] from h]
      rfl
  | cons c cs ih =>
      obtain ⟨_, v, rfl, ⟨d, hd, rfl⟩, hv⟩ := h
      rw [List.map_append, ih hv, List.map_singleton, eq_of_beq hd]
      rfl

theorem denotes_lazyPlus {p : Char → Bool} {before text after : List Char}
    (h : (lazyPlus (.char p)).Denotes before text after) :
    text ≠ [] ∧ ∀ c ∈ text, p c = true := by
  obtain ⟨_, v, rfl, ⟨c, hc, rfl⟩, hv⟩ := h
  refine ⟨List.cons_ne_nil c v, fun d hd => ?_⟩
  rcases List.mem_cons.mp hd with rfl | hd
  · exact hc
  · exact denotes_star_char_iff.mp hv d hd

theorem isAddress_of_start {start : List Char} (hstart : start ∈ addressStarts)
    {value : List Char} (rest : List Char) (h : value.map Char.toLower = start ++ rest) :
    isAddress value = true := by
  rw [isAddress, List.any_eq_true]
  exact ⟨start, hstart, List.isPrefixOf_iff_prefix.mpr ⟨rest, h.symm⟩⟩

/-- Every match of the pattern is a token. -/
theorem token_of_denotes {before text after : List Char}
    (h : tokenPattern.Denotes before text after) : Token text := by
  rcases h with h | h | h | h | h | h
  · obtain ⟨_, _, rfl, hopen, _, _, rfl, ⟨c, -, rfl⟩, content, _, rfl, -, hclose⟩ := h
    rw [denotes_lit_iff.mp hopen, denotes_lit_iff.mp hclose]
    have hne : c :: content ≠ [] := List.cons_ne_nil c content
    exact .strong hne
  · obtain ⟨_, _, rfl, hopen, content, _, rfl, hcontent, hclose⟩ := h
    obtain ⟨hne, hall⟩ := denotes_plus_char_iff.mp hcontent
    rw [denotes_lit_iff.mp hopen, denotes_lit_iff.mp hclose]
    exact .code hne hall
  · obtain ⟨_, _, rfl, hopen, label, _, rfl, hlabel, _, _, rfl, hmiddle, target, _, rfl,
      htarget, hclose⟩ := h
    obtain ⟨hlabel, hlabelAll⟩ := denotes_plus_char_iff.mp hlabel
    obtain ⟨htarget, htargetAll⟩ := denotes_lazyPlus htarget
    rw [denotes_lit_iff.mp hopen, denotes_lit_iff.mp hmiddle, denotes_lit_iff.mp hclose]
    exact .link hlabel hlabelAll htarget htargetAll
  · obtain ⟨_, _, rfl, hhttp, _, _, rfl, hs, _, rest, rfl, hslashes, -⟩ := h
    apply Token.address
    have hfront := map_toLower_of_denotes hhttp
    have hbehind := map_toLower_of_denotes hslashes
    rcases hs with hs | rfl
    · have hmiddle := map_toLower_of_denotes hs
      have hstart : "https://".toList ∈ addressStarts := by decide
      apply isAddress_of_start hstart (rest.map Char.toLower)
      rw [List.map_append, List.map_append, List.map_append, hfront, hmiddle, hbehind]
      rfl
    · have hstart : "http://".toList ∈ addressStarts := by decide
      apply isAddress_of_start hstart (rest.map Char.toLower)
      rw [List.map_append, List.map_append, List.map_append, hfront, hbehind]
      rfl
  · obtain ⟨_, rest, rfl, hmail, -⟩ := h
    have hfront := map_toLower_of_denotes hmail
    have hstart : "mailto:".toList ∈ addressStarts := by decide
    refine .address (isAddress_of_start hstart (rest.map Char.toLower) ?_)
    rw [List.map_append, hfront]
  · obtain ⟨_, name, rfl, hat, hname⟩ := h
    obtain ⟨hne, hall⟩ := denotes_plus_char_iff.mp hname
    rw [denotes_lit_iff.mp hat]
    exact .mention hne hall

theorem not_token_nil : ¬ Token [] := by
  intro h
  cases h with
  | address h => cases h

theorem consumes_tokenPattern : tokenPattern.Consumes :=
  fun _ _ h => not_token_nil (token_of_denotes h)

theorem token_of_mem_pieces {text value : List Char}
    (h : .found value ∈ tokenPattern.pieces text) : Token value := by
  obtain ⟨-, -, _, _, hdenotes⟩ := found_of_mem_pieces consumes_tokenPattern h
  exact token_of_denotes hdenotes

/-- What stands between the delimiters of a token is shorter than the text. -/
theorem length_inner_lt {n : Nat} {text value : List Char} (hn : 0 < n)
    (h : .found value ∈ tokenPattern.pieces text) : (inner n value).length < text.length := by
  obtain ⟨hne, hle, -⟩ := found_of_mem_pieces consumes_tokenPattern h
  have hpos := List.length_pos_iff.mpr hne
  rw [inner, List.length_drop, List.length_take]
  omega

/-- The nodes of a text: its tokens and what stands between them. -/
def inlineNodes (page : Page) (mentions : Mentions) (text : List Char) : List Node :=
  (tokenPattern.pieces text).attach.flatMap fun
    | ⟨.between between, _⟩ => appendText between
    | ⟨.found value, _⟩ =>
        if isStrong value then
          [.element "strong" [] (inlineNodes page mentions (inner 2 value))]
        else leafNodes page mentions value
termination_by text.length
decreasing_by exact length_inner_lt Nat.two_pos ‹_›

/-- The nodes of one piece of a text. -/
def pieceNodes (page : Page) (mentions : Mentions) : Piece Char → List Node
  | .between between => appendText between
  | .found value =>
      if isStrong value then [.element "strong" [] (inlineNodes page mentions (inner 2 value))]
      else leafNodes page mentions value

theorem inlineNodes_eq (page : Page) (mentions : Mentions) (text : List Char) :
    inlineNodes page mentions text =
      (tokenPattern.pieces text).flatMap (pieceNodes page mentions) := by
  rw [inlineNodes]
  conv_rhs => rw [← List.attach_map_subtype_val (tokenPattern.pieces text), List.flatMap_map]
  apply List.flatMap_congr
  rintro ⟨piece, hpiece⟩ -
  cases piece with
  | between between => rfl
  | found value => rfl

end AgentGather.Browser
