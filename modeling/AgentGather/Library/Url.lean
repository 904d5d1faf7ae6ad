import AgentGather.Library.Text
import AgentGather.Library.Utf8

/-!
# URLs

The URL parser and the serializer of the WHATWG URL Standard.  The input is first cut at its
fragment and its query, and what is left is read by one function for each group of states of
the standard's machine.  What a host is, with domains and addresses, is a parameter.
-/

namespace AgentGather.Library

/-- A path is one text, or segments that are serialized with a slash before each. -/
inductive UrlPath where
  | text (path : List Char)
  | segments (path : List (List Char))
deriving DecidableEq, Repr

/-- A URL record; the host is as it is serialized, and a port that is the default one of the
scheme is absent. -/
structure Url where
  scheme : List Char
  username : List Char
  password : List Char
  host : Option (List Char)
  port : Option Nat
  path : UrlPath
  query : Option (List Char)
  fragment : Option (List Char)
deriving DecidableEq, Repr

/-- The host parser: what it makes of the host of a special scheme, and of another one. -/
structure HostParser where
  special : List Char → Option (List Char)
  other : List Char → Option (List Char)

/-- A character of a plain host. -/
def HostParser.isPlainChar (c : Char) : Bool :=
  Text.isLower c || Text.isDigit c || c == '.' || c == '-'

/-- Hosts of lower-case letters, digits, dots and hyphens stand for themselves; nothing else
is a host. -/
def HostParser.plain : HostParser :=
  let parse (host : List Char) : Option (List Char) :=
    if !host.isEmpty && host.all isPlainChar then some host else none
  ⟨parse, parse⟩

namespace Url

/-! ## Percent-encoding -/

def isControl (c : Char) : Bool := c.toNat ≤ 0x1f

def isControlOrSpace (c : Char) : Bool := isControl c || c == ' '

def controlSet (c : Char) : Bool := isControl c || 0x7e < c.toNat

def fragmentSet (c : Char) : Bool :=
  controlSet c || [' ', '"', '<', '>', '\x60'].contains c

def querySet (c : Char) : Bool := controlSet c || [' ', '"', '#', '<', '>'].contains c

def specialQuerySet (c : Char) : Bool := querySet c || c == '\''

def pathSet (c : Char) : Bool :=
  querySet c || ['?', '^', '\x60', '\x7b', '\x7d'].contains c

def userinfoSet (c : Char) : Bool :=
  pathSet c || ['/', ':', ';', '=', '@', '[', '\\', ']', '|'].contains c

def percentDigits : List Char := "0123456789ABCDEF".toList

def percentDigit (n : Nat) : Char := percentDigits.getD (n % 16) '0'

def percentByte (b : Nat) : List Char := ['%', percentDigit (b / 16), percentDigit (b % 16)]

def percentChar (set : Char → Bool) (c : Char) : List Char :=
  if set c then (Utf8.encodeChar c).flatMap percentByte else [c]

def percentEncode (set : Char → Bool) (s : List Char) : List Char := s.flatMap (percentChar set)

/-! ## Schemes -/

/-- The default ports of the special schemes. -/
def specialSchemes : List (List Char × Option Nat) :=
  [("ftp".toList, some 21), ("file".toList, none), ("http".toList, some 80),
    ("https".toList, some 443), ("ws".toList, some 80), ("wss".toList, some 443)]

def isSpecial (scheme : List Char) : Bool := (specialSchemes.lookup scheme).isSome

def defaultPort (scheme : List Char) : Option Nat := (specialSchemes.lookup scheme).join

def isAlpha (c : Char) : Bool := Text.isLower c || Text.isUpper c

def isSchemeChar (c : Char) : Bool :=
  isAlpha c || Text.isDigit c || c == '+' || c == '-' || c == '.'

/-- The scheme in lower case, and what stands behind its colon. -/
def splitScheme (s : List Char) : Option (List Char × List Char) :=
  match s.head?.any isAlpha, s.dropWhile isSchemeChar with
  | true, ':' :: rest => some ((s.takeWhile isSchemeChar).map Char.toLower, rest)
  | _, _ => none

/-! ## Segments -/

/-- What ends a segment; special schemes read a backslash as a slash. -/
def isSlash (special : Bool) (c : Char) : Bool := c == '/' || (special && c == '\\')

def isSingleDot (segment : List Char) : Bool :=
  ["." , "%2e"].contains (String.ofList (segment.map Char.toLower))

def isDoubleDot (segment : List Char) : Bool :=
  ["..", ".%2e", "%2e.", "%2e%2e"].contains (String.ofList (segment.map Char.toLower))

/-- `C:` or `C|`. -/
def isDriveLetter : List Char → Bool
  | [c, d] => isAlpha c && (d == ':' || d == '|')
  | _ => false

def isNormalDriveLetter : List Char → Bool
  | [c, d] => isAlpha c && d == ':'
  | _ => false

/-- The text begins with a segment, or the beginning of one, that is a drive letter. -/
def startsWithDriveLetter (s : List Char) : Bool :=
  isDriveLetter (s.take 2) && (s.drop 2).head?.all (isSlash true)

/-- Drop the last segment; a drive letter stays. -/
def shorten (file : Bool) (path : List (List Char)) : List (List Char) :=
  if file && path.length == 1 && path.any isNormalDriveLetter then path else path.dropLast

/-- The segment that is added to the path; the drive letter of a file is made normal. -/
def normalSegment (file : Bool) (path : List (List Char)) (segment : List Char) : List Char :=
  if file && path.isEmpty && isDriveLetter segment then segment.take 1 ++ [':'] else segment

/-- One segment of the input, with a slash behind it or the last one. -/
def addSegment (file : Bool) (path : List (List Char)) (input : List Char) (last : Bool) :
    List (List Char) :=
  let segment := percentEncode pathSet input
  if isDoubleDot segment then shorten file path ++ if last then [[]] else []
  else if isSingleDot segment then path ++ if last then [[]] else []
  else path ++ [normalSegment file path segment]

def addSegments (file : Bool) (path : List (List Char)) :
    List (List Char) → List (List Char)
  | [] => path
  | [input] => addSegment file path input true
  | input :: inputs => addSegments file (addSegment file path input false) inputs

def isFile (scheme : List Char) : Bool := scheme == "file".toList

/-- The path state. -/
def readSegments (scheme : List Char) (path : List (List Char)) (s : List Char) :
    List (List Char) :=
  addSegments (isFile scheme) path (s.splitOnP (isSlash (isSpecial scheme)))

/-- The path start state: the first slash begins the path. -/
def readPath (scheme : List Char) (path : List (List Char)) (s : List Char) :
    List (List Char) :=
  match s with
  | [] => if isSpecial scheme then readSegments scheme path [] else path
  | c :: t => readSegments scheme path (if isSlash (isSpecial scheme) c then t else c :: t)

/-! ## Authorities -/

/-- What stands before the first separator, and behind it if there is one. -/
def splitAtFirst (sep : Char) (s : List Char) : List Char × Option (List Char) :=
  (s.takeWhile (· != sep), (s.dropWhile (· != sep)).tail?)

/-- The host, and the port behind the first colon outside of brackets. -/
def splitPort (bracketed : Bool) : List Char → List Char × Option (List Char)
  | [] => ([], none)
  | c :: cs =>
      if c = ':' ∧ bracketed = false then ([], some cs)
      else
        let rest := splitPort (if c = '[' then true else if c = ']' then false else bracketed) cs
        (c :: rest.1, rest.2)

/-- The credentials before the last `@`, and what stands behind it. -/
def splitCredentials (s : List Char) : Option (List Char) × List Char :=
  let behind := s.rtakeWhile (· != '@')
  match (s.rdropWhile (· != '@')).getLast? with
  | none => (none, behind)
  | some _ => (some (s.rdropWhile (· != '@')).dropLast, behind)

/-- The port state: only digits, and the default port is none. -/
def readPort (scheme : List Char) (s : List Char) : Option (Option Nat) :=
  if s.isEmpty then some none
  else if s.all Text.isDigit then
    let port := Nat.ofDigitChars 10 s 0
    if 65535 < port then none
    else some (if defaultPort scheme = some port then none else some port)
  else none

structure Authority where
  username : List Char
  password : List Char
  host : List Char
  port : Option Nat
deriving DecidableEq, Repr

def readHost (H : HostParser) (scheme : List Char) (host : List Char) : Option (List Char) :=
  if isSpecial scheme then
    if host.isEmpty then none else H.special host
  else if host.isEmpty then some [] else H.other host

/-- The authority, host and port states. -/
def readAuthority (H : HostParser) (scheme : List Char) (s : List Char) : Option Authority :=
  let parts := splitCredentials s
  let host := splitPort false parts.2
  if host.1.isEmpty && (parts.1.isSome || host.2.isSome) then none
  else do
    let port ← readPort scheme (host.2.getD [])
    let serialized ← readHost H scheme host.1
    let userinfo := splitAtFirst ':' (parts.1.getD [])
    return ⟨percentEncode userinfoSet userinfo.1,
      percentEncode userinfoSet (userinfo.2.getD []), serialized, port⟩

/-- An authority up to the next slash, and a path. -/
def readHostAndPath (H : HostParser) (scheme : List Char) (s : List Char) : Option Url := do
  let slash := isSlash (isSpecial scheme)
  let authority ← readAuthority H scheme (s.takeWhile fun c => !slash c)
  return ⟨scheme, authority.username, authority.password, some authority.host, authority.port,
    .segments (readPath scheme [] (s.dropWhile fun c => !slash c)), none, none⟩

/-- The special authority slashes states: however many slashes there are. -/
def readSpecial (H : HostParser) (scheme : List Char) (s : List Char) : Option Url :=
  readHostAndPath H scheme (s.dropWhile (isSlash true))

/-! ## Files -/

/-- A file of this host. -/
def fileUrl (host : List Char) (path : List (List Char)) : Url :=
  ⟨"file".toList, [], [], some host, none, .segments path, none, none⟩

def pathSegments (u : Url) : List (List Char) :=
  match u.path with
  | .text _ => []
  | .segments path => path

/-- The file host state: a drive letter is no host. -/
def readFileHost (H : HostParser) (s : List Char) : Option Url :=
  let host := s.takeWhile fun c => !isSlash true c
  let rest := s.dropWhile fun c => !isSlash true c
  if isDriveLetter host then some (fileUrl [] (readSegments "file".toList [] s))
  else if host.isEmpty then some (fileUrl [] (readPath "file".toList [] rest))
  else do
    let host ← H.special host
    let host := if host = "localhost".toList then [] else host
    return fileUrl host (readPath "file".toList [] rest)

/-- The file slash state, behind the slash. -/
def readFileSlash (H : HostParser) (base : Option Url) (s : List Char) : Option Url :=
  if s.head?.any (isSlash true) then readFileHost H s.tail
  else
    match base with
    | none => some (fileUrl [] (readSegments "file".toList [] s))
    | some b =>
        let drive := (pathSegments b).take 1
        let path :=
          if !startsWithDriveLetter s && drive.any isNormalDriveLetter then drive else []
        some (fileUrl (b.host.getD []) (readSegments "file".toList path s))

/-- The file state; the base is a file, if there is one. -/
def readFile (H : HostParser) (base : Option Url) (s : List Char) : Option Url :=
  if s.head?.any (isSlash true) then readFileSlash H base s.tail
  else
    match base with
    | none => some (fileUrl [] (readSegments "file".toList [] s))
    | some b =>
        let host := b.host.getD []
        if s.isEmpty then some { fileUrl host (pathSegments b) with query := b.query }
        else if startsWithDriveLetter s then
          some (fileUrl host (readSegments "file".toList [] s))
        else some (fileUrl host (readSegments "file".toList (shorten true (pathSegments b)) s))

/-! ## The parser -/

/-- The relative state, at a base that is no file. -/
def readRelative (H : HostParser) (base : Url) (s : List Char) : Option Url :=
  let scheme := base.scheme
  let slash := isSlash (isSpecial scheme)
  if s.isEmpty then some { base with fragment := none }
  else if !s.head?.any slash then
    let path := shorten (isFile scheme) (pathSegments base)
    some { base with
      path := .segments (readSegments scheme path s), query := none, fragment := none }
  else if s.tail.head?.any slash then
    if isSpecial scheme then readSpecial H scheme s else readHostAndPath H scheme (s.drop 2)
  else
    some { base with
      path := .segments (readSegments scheme [] s.tail), query := none, fragment := none }

/-- Behind a scheme. -/
def readAbsolute (H : HostParser) (base : Option Url) (scheme s : List Char) : Option Url :=
  if isFile scheme then readFile H (base.filter fun b => isFile b.scheme) s
  else if isSpecial scheme then
    match base.filter fun b => b.scheme == scheme with
    | none => readSpecial H scheme s
    | some b =>
        if s.head? = some '/' && s.tail.head? = some '/' then readSpecial H scheme s
        else readRelative H b s
  else
    match s with
    | '/' :: '/' :: t => readHostAndPath H scheme t
    | '/' :: t =>
        some ⟨scheme, [], [], none, none, .segments (readSegments scheme [] t), none, none⟩
    | s => some ⟨scheme, [], [], none, none, .text (percentEncode controlSet s), none, none⟩

/-- Without a scheme. -/
def readAtBase (H : HostParser) (base : Url) (s : List Char) : Option Url :=
  if isFile base.scheme then readFile H (some base) s else readRelative H base s

/-- Everything before the query and the fragment. -/
def readFront (H : HostParser) (base : Option Url) (front : List Char) (bare : Bool) :
    Option Url :=
  match splitScheme front, base with
  | some (scheme, s), _ => readAbsolute H base scheme s
  | none, none => none
  | none, some b =>
      match b.path with
      | .segments _ => readAtBase H b front
      -- Only a fragment can be relative to a path that is one text.
      | .text _ => if front.isEmpty && bare then some { b with fragment := none } else none

/-- Spaces and controls around the input go, tabs and line breaks everywhere. -/
def clean (input : List Char) : List Char :=
  ((input.dropWhile isControlOrSpace).rdropWhile isControlOrSpace).filter fun c =>
    c != '\t' && c != '\n' && c != '\r'

/-- A space at the end of a path that is one text, with a query or a fragment behind it. -/
def encodeLastSpace (path : UrlPath) : UrlPath :=
  match path with
  | .segments path => .segments path
  | .text path =>
      .text (if path.getLast? = some ' ' then path.dropLast ++ "%20".toList else path)

def withQuery (u : Url) (query : Option (List Char)) : Url :=
  match query with
  | none => u
  | some q =>
      { u with
        query := some (percentEncode (if isSpecial u.scheme then specialQuerySet else querySet) q)
        path := encodeLastSpace u.path }

def withFragment (u : Url) (query fragment : Option (List Char)) : Url :=
  match fragment with
  | none => u
  | some f =>
      { u with
        fragment := some (percentEncode fragmentSet f)
        path := if query.isNone then encodeLastSpace u.path else u.path }

/-- The input before its query, its query and its fragment. -/
structure Parts where
  front : List Char
  query : Option (List Char)
  fragment : Option (List Char)
deriving DecidableEq, Repr

def cut (s : List Char) : Parts :=
  let beforeFragment := splitAtFirst '#' s
  let beforeQuery := splitAtFirst '?' beforeFragment.1
  ⟨beforeQuery.1, beforeQuery.2, beforeFragment.2⟩

/-- `new URL(input)`, or at a base; none where it throws. -/
def parse (H : HostParser) (base : Option Url) (input : List Char) : Option Url :=
  let parts := cut (clean input)
  (readFront H base parts.front parts.query.isNone).map fun u =>
    (u.withQuery parts.query).withFragment parts.query parts.fragment

/-- `new URL(input, base)` where the base is a text. -/
def resolve (H : HostParser) (input base : List Char) : Option Url :=
  (parse H none base).bind fun b => parse H (some b) input

/-! ## What a program reads -/

/-- `pathname` -/
def pathname (u : Url) : List Char :=
  match u.path with
  | .text path => path
  | .segments path => path.flatMap ('/' :: ·)

/-- A part that is absent or empty is not shown. -/
def shown (mark : Char) : Option (List Char) → List Char
  | none => []
  | some [] => []
  | some part => mark :: part

/-- `search` -/
def search (u : Url) : List Char := shown '?' u.query

/-- `hash` -/
def hash (u : Url) : List Char := shown '#' u.fragment

def portSuffix : Option Nat → List Char
  | none => []
  | some port => ':' :: Nat.toDigits 10 port

def credentials (u : Url) : List Char :=
  if u.username = [] ∧ u.password = [] then []
  else u.username ++ (if u.password = [] then [] else ':' :: u.password) ++ ['@']

/-- `origin`, of a URL with a special scheme other than `file:`. -/
def origin (u : Url) : List Char :=
  u.scheme ++ "://".toList ++ u.host.getD [] ++ portSuffix u.port

/-- What stands between the scheme and the path. -/
def authority (u : Url) : List Char :=
  match u.host with
  | some host => "//".toList ++ u.credentials ++ host ++ portSuffix u.port
  | none =>
      match u.path with
      | .segments ([] :: _ :: _) => "/.".toList
      | _ => []

def marked (mark : Char) : Option (List Char) → List Char
  | none => []
  | some part => mark :: part

/-- `href` -/
def href (u : Url) : List Char :=
  u.scheme ++ ":".toList ++ u.authority ++ u.pathname ++ marked '?' u.query ++
    marked '#' u.fragment

/-- `http:` or `https:`. -/
def isHttp (u : Url) : Bool := u.scheme == "http".toList || u.scheme == "https".toList

end Url

end AgentGather.Library
