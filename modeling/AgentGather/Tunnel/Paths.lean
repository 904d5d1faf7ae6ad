import AgentGather.Server.Router
import AgentGather.Tunnel.Limits

/-!
# Paths through the tunnel

What the broker makes of a participant's request target: the path it forwards, the class it
counts the request in, and what it meters.  The room server reads the forwarded path once
more, against its own base, after `fetch` has read it behind the target's origin.
-/

namespace AgentGather.Tunnel

open AgentGather.Library AgentGather.Library.Url AgentGather.Server

variable {H : HostParser}

/-! ## Classes -/

/-- `pathname.split("/").filter(Boolean)` -/
def nonEmptySegments (pathname : List Char) : List (List Char) :=
  (pathname.splitOnP (· == '/')).filter (· ≠ [])

def pathClasses : List String :=
  ["room.css", "room.js", "markdown.js", "forum.html", "forum.css", "forum.js", "theme.css",
    "kit.css", "agentgather-logo.png", "favicon.png", "manifest.webmanifest", "brief",
    "attendance", "status", "messages", "wait", "card", "profile", "join", "leave", "close"]

def assetNames : List String :=
  ["room.css", "room.js", "markdown.js", "forum.html", "forum.css", "forum.js", "theme.css",
    "kit.css", "agentgather-logo.png", "favicon.png", "manifest.webmanifest"]

/-- A coarse class of the path; unknown paths are `other`. -/
def classifyPath (pathname : List Char) : String :=
  match (nonEmptySegments (pathname.takeWhile (· != '?'))).head? with
  | none => "shell"
  | some first =>
      let first := String.ofList first
      if assetNames.contains first then "asset"
      else if pathClasses.contains first then first
      else "other"

theorem classifyPath_eq_wait_iff (pathname : List Char) : classifyPath pathname = "wait" ↔
    (nonEmptySegments (pathname.takeWhile (· != '?'))).head? = some "wait".toList := by
  unfold classifyPath
  split
  · simp [*]
  · rename_i first hfirst
    simp only [hfirst, Option.some.injEq]
    constructor
    · intro h
      split_ifs at h with hasset hknown
      · exact absurd h (by decide)
      · rw [← h]
        exact String.toList_ofList.symm
      · exact absurd h (by decide)
    · intro h
      rw [h]
      decide

/-! ## The broker -/

def hostPrefix : List Char := "_host".toList

/-- What the broker forwards of a participant's request target. -/
structure Forwarded where
  slug : List Char
  path : List Char
  search : List Char
deriving DecidableEq, Repr

def brokerBase : List Char := "http://broker.local".toList

/-- The target of a participant, whose slug has to name an active route.  A host's target, a
status probe and a target that cannot be read are not forwarded. -/
def forwarded (H : HostParser) (active : List Char → Bool) (target : List Char) :
    Option Forwarded := do
  let url ← resolve H target brokerBase
  let slug ← (nonEmptySegments url.pathname).head?
  if slug = hostPrefix ∨ active slug = false ∨ url.pathname = '/' :: slug then none
  else
    let rest := url.pathname.drop (slug.length + 1)
    return ⟨slug, if rest = [] then ['/'] else rest, url.search⟩

/-- What the guards are asked. -/
def Forwarded.guardInput (f : Forwarded) (clientIp : String) (authenticated : Bool) :
    RequestGuardInput :=
  ⟨String.ofList f.slug, clientIp, classifyPath f.path == "wait", authenticated⟩

inductive MeteredDimension where
  | routeMinutes
  | activePublicRooms
  | participantJoins
  | relayRequests
  | bandwidthBytes
deriving DecidableEq, Repr

/-- What the meter records for a request that was relayed. -/
def onPublicForward (forwardPath : List Char) (bytesIn bytesOut : Nat) :
    List (MeteredDimension × Nat) :=
  [(.relayRequests, 1), (.bandwidthBytes, bytesIn + bytesOut)] ++
    if forwardPath = "/join".toList ∨ "/join?".toList <+: forwardPath then
      [(.participantJoins, 1)]
    else []

/-- What is recorded in a dimension. -/
def recordedIn (dimension : MeteredDimension) (records : List (MeteredDimension × Nat)) : Nat :=
  ((records.filter fun r => r.1 = dimension).map (·.2)).sum

/-! ## The host -/

/-- A path begins with a slash. -/
def rooted (path : List Char) : List Char :=
  if path.head? = some '/' then path else '/' :: path

/-- The request target that `fetch` sends to the room server. -/
def fetchedTarget (target : WebOrigin H) (path : List Char) : Option (List Char) :=
  (parse H none (target.written ++ rooted path)).map fun url => url.pathname ++ url.search

/-- The endpoint of the room server at which a forwarded request arrives. -/
def Forwarded.endpoint (f : Forwarded) (target room : WebOrigin H) (method : String) :
    Option Endpoint :=
  (fetchedTarget target (f.path ++ f.search)).bind fun t => (listen room method t).join

/-- The broker's view of a request is the room server's: what arrives at a wait counts as a
wait, and what arrives at a join is metered as one. -/
structure AgreesWithRouter (target room : WebOrigin H) (method : String) (f : Forwarded) :
    Prop where
  wait : f.endpoint target room method = some .getWait →
    ∀ clientIp authenticated, (f.guardInput clientIp authenticated).isWait = true
  join : f.endpoint target room method = some .postJoin →
    ∀ bytesIn bytesOut,
      recordedIn .participantJoins (onPublicForward f.path bytesIn bytesOut) = 1

/-! ## The path in its normal form -/

/-- The segments of the forwarded path: dots are resolved, and a backslash is a slash. -/
def Forwarded.normalPath (f : Forwarded) : List (List Char) :=
  readPath "http".toList [] (cut (cleanEnd (rooted (f.path ++ f.search)))).front

/-- The path names this endpoint, directly or behind what the room server reads as an
authority. -/
def Forwarded.Names (f : Forwarded) (room : WebOrigin H) (name : String) : Prop :=
  f.normalPath = [name.toList] ∨ BehindAuthority H room.scheme name.toList f.normalPath

theorem normalPath_normal (f : Forwarded) :
    (∀ x ∈ f.normalPath, Normal x) ∧ f.normalPath ≠ [] :=
  normal_readPath isWeb_http _

theorem atSlash_rooted (path : List Char) : AtSlash (rooted path) := by
  cases path with
  | nil => rfl
  | cons c path =>
      by_cases h : c = '/'
      · subst h
        rfl
      · simp [rooted, AtSlash, h]

/-- `fetch` sends the path in its normal form. -/
theorem fetchedTarget_eq (target : WebOrigin H) (f : Forwarded) :
    ∃ query, EncodedQuery query ∧ fetchedTarget target (f.path ++ f.search) =
      some (joinSegments f.normalPath ++ marked '?' query) := by
  have hpath : readPath target.scheme [] (cut (cleanEnd (rooted (f.path ++ f.search)))).front =
      f.normalPath := readPath_congr target.isWeb isWeb_http _
  refine ⟨_, encodedQuery_percentEncode (cut (cleanEnd (rooted (f.path ++ f.search)))).query, ?_⟩
  rw [fetchedTarget, parse_origin target (atSlash_rooted _), Option.map_some, hpath,
    pathname_segments (path_withFragment (path_withQuery rfl _) _ _), search,
    query_withFragment, query_withQuery rfl target.isWeb.special, shown_eq_marked]

/-- The room server reads it once more. -/
theorem endpoint_eq_iff (target room : WebOrigin H) (f : Forwarded) (method : String)
    {endpoint : Endpoint} {verb name : String} (hname : Normal name.toList)
    (hnamed : name.toList ≠ [])
    (hroute : ∀ method pathname, dispatch method pathname = some endpoint ↔
      method = verb ∧ pathname = String.ofList ('/' :: name.toList)) :
    f.endpoint target room method = some endpoint ↔ method = verb ∧ f.Names room name := by
  obtain ⟨query, hquery, hfetched⟩ := fetchedTarget_eq target f
  have hread := pathname_parse_iff (H := H)
    (show IsWeb (room.url [[]]).scheme from room.isWeb)
    (show (room.url [[]]).path = .segments [[]] from rfl)
    (normalPath_normal f).1 (normalPath_normal f).2 hquery hname hnamed
  rw [Forwarded.endpoint, hfetched, Option.bind_some, Server.listen, resolve, parse_written,
    Option.bind_some]
  change _ ↔ _ ∧ (_ ∨ BehindAuthority H (room.url [[]]).scheme name.toList f.normalPath)
  rw [← hread]
  cases parse H (some (room.url [[]])) (joinSegments f.normalPath ++ marked '?' query) with
  | none => simp
  | some url =>
      simp only [Option.map_some, Option.join_some, hroute, Option.some.injEq,
        String.ofList_inj]

theorem isWait_iff (f : Forwarded) (clientIp : String) (authenticated : Bool) :
    (f.guardInput clientIp authenticated).isWait = true ↔ classifyPath f.path = "wait" := by
  simp [Forwarded.guardInput]

theorem recordedIn_participantJoins (path : List Char) (bytesIn bytesOut : Nat) :
    recordedIn .participantJoins (onPublicForward path bytesIn bytesOut) = 1 ↔
      path = "/join".toList ∨ "/join?".toList <+: path := by
  rw [onPublicForward]
  by_cases h : path = "/join".toList ∨ "/join?".toList <+: path
  · rw [if_pos h]
    exact ⟨fun _ => h, fun _ => by simp [recordedIn]⟩
  · rw [if_neg h]
    exact ⟨fun hone => absurd hone (by simp [recordedIn]), fun hpath => absurd hpath h⟩

/-- A path that names a wait begins with it, and one that names a join is written `/join`. -/
structure SpelledOut (room : WebOrigin H) (method : String) (f : Forwarded) : Prop where
  wait : method = "GET" → f.Names room "wait" →
    (nonEmptySegments (f.path.takeWhile (· != '?'))).head? = some "wait".toList
  join : method = "POST" → f.Names room "join" →
    f.path = "/join".toList ∨ "/join?".toList <+: f.path

theorem agreesWithRouter_iff_spelledOut (target room : WebOrigin H) (method : String)
    (f : Forwarded) : AgreesWithRouter target room method f ↔ SpelledOut room method f := by
  have hwait : f.endpoint target room method = some .getWait ↔
      method = "GET" ∧ f.Names room "wait" := endpoint_eq_iff target room f method
    ⟨List.all_iff_forall_prop.mp (by decide), by decide, by decide⟩ (by decide)
    fun method pathname => dispatch_eq_getWait_iff
  have hjoin : f.endpoint target room method = some .postJoin ↔
      method = "POST" ∧ f.Names room "join" := endpoint_eq_iff target room f method
    ⟨List.all_iff_forall_prop.mp (by decide), by decide, by decide⟩ (by decide)
    fun method pathname => dispatch_eq_postJoin_iff
  constructor
  · intro h
    constructor
    · intro hget hnames
      rw [← classifyPath_eq_wait_iff, ← isWait_iff f "" false]
      exact h.wait (hwait.mpr ⟨hget, hnames⟩) "" false
    · intro hpost hnames
      rw [← recordedIn_participantJoins f.path 0 0]
      exact h.join (hjoin.mpr ⟨hpost, hnames⟩) 0 0
  · intro h
    constructor
    · intro hendpoint clientIp authenticated
      obtain ⟨hmethod, hnames⟩ := hwait.mp hendpoint
      rw [isWait_iff, classifyPath_eq_wait_iff]
      exact h.wait hmethod hnames
    · intro hendpoint bytesIn bytesOut
      obtain ⟨hmethod, hnames⟩ := hjoin.mp hendpoint
      rw [recordedIn_participantJoins]
      exact h.join hmethod hnames

/-- For every request target under an active slug, the broker classifies the request as the
room server dispatches it, exactly when the forwarded path is spelled out. -/
theorem agreesWithRouter_iff (target room : WebOrigin H) (active : List Char → Bool)
    (method : String) (requestTarget : List Char) :
    (∀ f, forwarded H active requestTarget = some f →
        AgreesWithRouter target room method f) ↔
      ∀ f, forwarded H active requestTarget = some f → SpelledOut room method f := by
  constructor
  · intro h f hf
    exact (agreesWithRouter_iff_spelledOut target room method f).mp (h f hf)
  · intro h f hf
    exact (agreesWithRouter_iff_spelledOut target room method f).mpr (h f hf)

/-- The room server of a host on its own device. -/
def localRoom : WebOrigin .plain where
  scheme := "http".toList
  text := "127.0.0.1:8787".toList
  authority := ⟨[], [], "127.0.0.1".toList, some 8787⟩
  isHttp := .inl rfl
  chars := List.all_iff_forall_prop.mp (by decide)
  read := by decide

/-- Behind two slashes the first segment is an authority for the room server: the wait is
not counted, and the join is not metered. -/
theorem paths_disagree :
    ¬ (∀ f, forwarded .plain (· = "abc".toList) "/abc//x/wait".toList = some f →
      AgreesWithRouter localRoom localRoom "GET" f) ∧
    ¬ (∀ f, forwarded .plain (· = "abc".toList) "/abc//x/join".toList = some f →
      AgreesWithRouter localRoom localRoom "POST" f) := by
  constructor
  · intro h
    have hwait := (h ⟨"abc".toList, "//x/wait".toList, []⟩ (by decide)).wait (by decide) "" false
    exact absurd hwait (by decide)
  · intro h
    have hjoin := (h ⟨"abc".toList, "//x/join".toList, []⟩ (by decide)).join (by decide) 0 0
    exact absurd hjoin (by decide)

end AgentGather.Tunnel
