import AgentGather.Library.UrlOrigin

/-!
# The routes of the room server

Which endpoint a request is dispatched to, behind the guards on its host and its origin.
-/

namespace AgentGather.Server

open AgentGather.Library

inductive Endpoint where
  | browserShell
  | browserAsset (name : String)
  | browserBinaryAsset (name : String)
  | protocolAsset (name : String)
  | getForumPosts
  | getForumPost
  | postForumPost
  | postForumComment
  | getBrief
  | postBrief
  | postAttendance
  | postLoopGuard
  | getProfile
  | postProfile
  | getCard
  | postJoin
  | getMessages
  | postMessage
  | getWait
  | postLeave
  | postClose
  | postSession
  | getStatus
  | getBoardroom
deriving DecidableEq, Repr

/-- The routes in the order in which they are tried. -/
def routes : List ((String × String) × Endpoint) :=
  [(("GET", "/"), .browserShell),
    (("GET", "/room.css"), .browserAsset "room.css"),
    (("GET", "/theme.css"), .browserAsset "theme.css"),
    (("GET", "/kit.css"), .browserAsset "kit.css"),
    (("GET", "/room.js"), .browserAsset "room.js"),
    (("GET", "/channel-rail.css"), .browserAsset "channel-rail.css"),
    (("GET", "/channel-rail.js"), .browserAsset "channel-rail.js"),
    (("GET", "/markdown.js"), .browserAsset "markdown.js"),
    (("GET", "/restored-provenance.js"), .browserAsset "restored-provenance.js"),
    (("GET", "/forum.html"), .browserAsset "forum.html"),
    (("GET", "/forum.css"), .browserAsset "forum.css"),
    (("GET", "/forum.js"), .browserAsset "forum.js"),
    (("GET", "/forum/posts"), .getForumPosts),
    (("GET", "/forum/post"), .getForumPost),
    (("POST", "/forum/posts"), .postForumPost),
    (("POST", "/forum/comment"), .postForumComment),
    (("GET", "/mentions.js"), .protocolAsset "mentions.js"),
    (("GET", "/validation.js"), .protocolAsset "validation.js"),
    (("GET", "/wake-tier.js"), .protocolAsset "wake-tier.js"),
    (("GET", "/manifest.webmanifest"), .browserAsset "manifest.webmanifest"),
    (("GET", "/agentgather-logo.png"), .browserBinaryAsset "agentgather-logo.png"),
    (("GET", "/favicon.png"), .browserBinaryAsset "agentgather-logo.png"),
    (("GET", "/brief"), .getBrief),
    (("POST", "/brief"), .postBrief),
    (("POST", "/attendance"), .postAttendance),
    (("POST", "/loop-guard"), .postLoopGuard),
    (("GET", "/profile"), .getProfile),
    (("POST", "/profile"), .postProfile),
    (("GET", "/card"), .getCard),
    (("POST", "/join"), .postJoin),
    (("GET", "/messages"), .getMessages),
    (("POST", "/messages"), .postMessage),
    (("GET", "/wait"), .getWait),
    (("POST", "/leave"), .postLeave),
    (("POST", "/close"), .postClose),
    (("POST", "/session"), .postSession),
    (("GET", "/status"), .getStatus),
    (("GET", "/boardroom"), .getBoardroom)]

/-- `handleRequest` behind its guards; none is answered by an error. -/
def dispatch (method pathname : String) : Option Endpoint := routes.lookup (method, pathname)

theorem mem_routes {method pathname : String} {endpoint : Endpoint}
    (h : dispatch method pathname = some endpoint) : ((method, pathname), endpoint) ∈ routes := by
  obtain ⟨before, behind, hroutes, -⟩ := List.lookup_eq_some_iff.mp h
  rw [hroutes]
  exact List.mem_append_right _ List.mem_cons_self

theorem dispatch_eq_getWait_iff {method pathname : String} :
    dispatch method pathname = some .getWait ↔ method = "GET" ∧ pathname = "/wait" := by
  constructor
  · intro h
    have hmem := mem_routes h
    simpa [routes] using hmem
  · rintro ⟨rfl, rfl⟩
    decide

theorem dispatch_eq_postJoin_iff {method pathname : String} :
    dispatch method pathname = some .postJoin ↔ method = "POST" ∧ pathname = "/join" := by
  constructor
  · intro h
    have hmem := mem_routes h
    simpa [routes] using hmem
  · rintro ⟨rfl, rfl⟩
    decide

/-- The request listener: the target against the base URL of the server, and the dispatch;
none where the target cannot be read. -/
def listen {H : HostParser} (base : Url.WebOrigin H) (method : String) (target : List Char) :
    Option (Option Endpoint) :=
  (Url.resolve H target base.written).map fun url =>
    dispatch method (String.ofList url.pathname)

end AgentGather.Server
