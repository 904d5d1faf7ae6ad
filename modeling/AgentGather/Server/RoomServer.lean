import AgentGather.Library.Policies
import AgentGather.Library.UrlParams
import AgentGather.Platform.Status
import AgentGather.Platform.TokenlessUrls
import AgentGather.Server.Calls
import AgentGather.Server.Exposure
import AgentGather.Server.Router
import AgentGather.Storage.Brief
import AgentGather.Storage.Channels

/-!
# The room server

All endpoints behind the one function that handles requests, over all the files of a room: the
room, its boardroom and its forum have one writer lock.
-/

namespace AgentGather.Server

open AgentGather.Library AgentGather.Library.Url AgentGather.Protocol AgentGather.Storage
  AgentGather.Storage.Boards

/-! ## The files of a served room -/

structure ServedWorld where
  room : World ServerMemory
  boardroom : Stored Boardroom
  forum : OrderedMap PostKey PostFiles

inductive ServedStep where
  | room (step : RoomStep)
  | board (step : BoardStep)
  | asset (name : String)
deriving DecidableEq, Repr

abbrev ServedProg := Prog ServedWorld ServedStep Failure

def roomPart : Prog.Part ServedWorld (World ServerMemory) where
  read w := w.room
  write w room := { w with room }
  read_write _ _ := rfl

/-- The boardroom and the forum, with `room.json` and the lock, which are the room's. -/
def boardPart : Prog.Part ServedWorld BoardWorld where
  read w := ⟨⟨w.room.files.state, w.boardroom, w.forum⟩, w.room.lock⟩
  write w b :=
    { room := { w.room with
        files := { w.room.files with state := b.files.room }, lock := b.lock }
      boardroom := b.files.boardroom
      forum := b.files.forum }
  read_write _ _ := rfl

def onRoom {α : Type} (p : RoomProg ServerMemory α) : ServedProg α := p.lift roomPart .room

def onBoard {α : Type} (p : BoardProg α) : ServedProg α := p.lift boardPart .board

/-! ## Requests and responses -/

/-- `localeLE` is `localeCompare` not being positive, `message` the text of an error that is no
`HttpError`, and `randomPostId` the id that comes out for the post of a caller.  `bodyFirst` is
which file of the brief a caller reads first, and `schedule` the order in which its other reads
come that are made at once. -/
structure RoomHttpServerOptions extends ServerOptions where
  baseUrl : List Char
  allowInsecureRemote : Bool
  localeLE : String → String → Bool
  message : Failure → String
  randomPostId : Nat → String
  bodyFirst : Nat → Bool
  schedule : Nat → Nat → List Bool

/-- The headers that are looked at, and the outcome of reading the body. -/
structure RequestContext where
  method : String
  url : Url
  host : Option (List Char)
  origin : Option (List Char)
  referer : Option (List Char)
  authorization : Option (List Char)
  body : Except Failure Json

structure StatusResponse where
  room : String
  me : String
  isHost : Bool
  roomStatus : RoomStatus
  briefVersion : Nat
  attendancePolicy : Option AttendancePolicy
  staleAfterMs : Nat
  briefUpdatedAt : Nat
  briefUpdatedBy : String
  boardroom : Boardroom
  activeSession : Option ActiveSession
  loopGuard : LoopGuardProjection
  participants : List PublicParticipant

/-- The data of a response; a card is written of the participant, its token, the brief and the
policy. -/
inductive ServedReply where
  | asset (name : String)
  | room (reply : Reply)
  | brief (brief : RoomBrief)
  | attendance (attendancePolicy : Option AttendancePolicy)
  | profile (participant : PublicParticipant)
  | card (participant : Participant) (token : String) (brief : RoomBrief)
      (attendancePolicy : Option AttendancePolicy)
  | status (response : StatusResponse)
  | boardroom (boardroom : Boardroom)
  | forumPosts (channel : String) (posts : List (ForumPost × Nat))
  | forumThread (thread : ForumPostThread)
  | forumPost (post : ForumPost)
  | forumComment (comment : ForumComment)

namespace RequestContext

variable (context : RequestContext)

def pathname : String := String.ofList context.url.pathname

def query : List (String × String) :=
  (searchParams context.url).map fun p => (String.ofList p.1, String.ofList p.2)

/-- `/^Bearer (.+)$/` -/
def bearerToken : Option String := do
  let header ← context.authorization
  let token ← header.dropPrefix? "Bearer ".toList
  if token.isEmpty || token.any Text.isLineTerminator then none
  else some (String.ofList token)

/-- A card alone may be asked for with a token in the query. -/
def token (endpoint : Endpoint) : Option String :=
  context.bearerToken.or
    (if endpoint = .getCard then context.query.lookup "token" else none)

/-- What the handler of the endpoint reads. -/
def request (endpoint : Endpoint) : Request :=
  ⟨context.token endpoint, context.body, context.query⟩

end RequestContext

/-! ## The guards -/

def isWriteMethod (method : String) : Bool :=
  method == "POST" || method == "PUT" || method == "PATCH" || method == "DELETE"

/-- `origin`, of any URL; that of a blob is the one of the web page that has made it. -/
def originOf (H : HostParser) (url : Url) : List Char :=
  if url.scheme = "blob".toList then
    match parse H none url.pathname with
    | some page => if page.isHttp then page.origin else "null".toList
    | none => "null".toList
  else if isSpecial url.scheme && url.scheme ≠ "file".toList then url.origin
  else "null".toList

def badReferer : Failure := .http 403 "bad_referer" "referer is not allowed"

def enforceSameOrigin (H : HostParser) (baseUrl : List Char) (context : RequestContext) :
    Except Failure Unit :=
  match parse H none baseUrl with
  | none => .error (.error "Invalid URL")
  | some base => do
      if context.origin.any (· ≠ originOf H base) then
        throw (.http 403 "bad_origin" "origin is not allowed")
      match context.referer with
      | none => return ()
      | some referer =>
          match parse H none referer with
          | none => throw badReferer
          | some url => if originOf H url ≠ originOf H base then throw badReferer

/-- Where `handleRequest` sends the request, unless it refuses it. -/
def route (H : HostParser) (o : RoomHttpServerOptions) (context : RequestContext) :
    Except Failure Endpoint := do
  enforceExposure o.allowInsecureRemote context.host
  if isWriteMethod context.method then enforceSameOrigin H o.baseUrl context
  match dispatch context.method context.pathname with
  | some endpoint => return endpoint
  | none =>
      if context.pathname = "/watch" then
        throw (.http 404 "not_found" "this server long-polls on GET /wait, not /watch")
      throw (.http 404 "not_found" "endpoint not found")

/-! ## The brief, attendance and the card -/

/-- A member of the body, which is read before its type is looked at. -/
def member (body : Json) (name : String) : Except Failure (Option Json) :=
  match body with
  | .null => .error (.error ("Cannot read properties of null (reading '" ++ name ++ "')"))
  | body => .ok (body.field? name)

section Handlers

variable (t : Nat) (o : RoomHttpServerOptions) (req : Request)

def notify : RoomProg ServerMemory Unit := synchronously fun _ => notifyWaiters

def getBrief : RoomProg ServerMemory ServedReply := do
  let _ ← requireParticipant o.toServerOptions req false
  let brief ← readBrief (o.bodyFirst t)
  return .brief brief

def postBrief : RoomProg ServerMemory ServedReply := do
  let auth ← requireParticipant o.toServerOptions req false
  synchronously fun now => enforceWriteRateLimit o.roomId auth.aliasName "brief" now
  .ofExcept (requireHost auth)
  let body ← readJsonBody req
  match ← .ofExcept (member body "body") with
  | some (.str text) =>
      if maxBriefLength < Text.utf16Length text.toList then
        throw (.http 413 "brief_too_large"
          ("brief body must be <= " ++ toString maxBriefLength ++ " characters"))
      let brief ← updateBrief t ⟨o.roomId, text, auth.aliasName, none⟩
      let _ ← appendSystem t o.toServerOptions
        ("Room brief updated to v" ++ toString brief.briefVersion)
      notify
      return .brief brief
  | _ => throw (.http 400 "invalid_body" "brief body is required")

def parsePolicy (policy : String) : Except Failure AttendancePolicy :=
  match parseAttendancePolicy policy with
  | .ok policy => .ok policy
  | .error (.error message) => .error (.http 400 "invalid_policy" message)
  | .error _ => .error (.http 400 "invalid_policy" "invalid attendance policy")

def postAttendance : RoomProg ServerMemory ServedReply := do
  let auth ← requireParticipant o.toServerOptions req false
  synchronously fun now => enforceWriteRateLimit o.roomId auth.aliasName "attendance" now
  .ofExcept (requireHost auth)
  let body ← readJsonBody req
  match ← .ofExcept (member body "policy") with
  | some (.str text) =>
      let policy ← .ofExcept (parsePolicy text)
      let state ← updateAttendancePolicy t ⟨o.roomId, policy, auth.aliasName, none⟩
      let _ ← appendSystem t o.toServerOptions ("Attendance policy set to " ++ policy.name)
      notify
      return .attendance state.attendancePolicy
  | _ => throw (.http 400 "invalid_policy" "attendance policy is required")

/-- The record as it is shown, at the time. -/
def shown (participant : Participant) (attendancePolicy : Option AttendancePolicy) (now : Nat) :
    PublicParticipant :=
  publicParticipant ⟨participant, some participant.lastSeenAt⟩ attendancePolicy now

def getProfile : RoomProg ServerMemory ServedReply := do
  let auth ← requireParticipant o.toServerOptions req false
  let now ← dateNow none
  return .profile (shown auth none now)

/-- What is stored is shown. -/
def showProfile : RoomProg ServerMemory ServedReply := do
  match ← postProfile t o.toServerOptions req with
  | .profile updated =>
      let now ← dateNow none
      return .profile (shown updated none now)
  | reply => return .room reply

def getCard : RoomProg ServerMemory ServedReply := do
  let auth ← requireParticipant o.toServerOptions req false
  let (brief, state) ← Prog.both (o.schedule t 0) (readBrief (o.bodyFirst t)) readRoomState
  return .card auth (req.token.getD "") brief state.attendancePolicy

/-! ## Status -/

def getStatus : ServedProg ServedReply := do
  let auth ← onRoom (requireParticipant o.toServerOptions req false)
  let (state, participants, boardroom) ← Prog.both (o.schedule t 0) (onRoom readRoomState)
    (Prog.both (o.schedule t 1) (onRoom readParticipants) (onBoard readBoardroomUnlocked))
  let (now, loopGuard) ← onRoom (synchronously fun now => do
    let projection ← loopGuardProjection o.toServerOptions state now
    return (now, projection))
  return .status {
    room := state.id
    me := auth.aliasName
    isHost := auth.isHost
    roomStatus := state.status
    briefVersion := state.briefVersion
    attendancePolicy := state.attendancePolicy
    staleAfterMs := attendanceStaleAfterMs
    briefUpdatedAt := state.briefUpdatedAt
    briefUpdatedBy := state.briefUpdatedBy
    boardroom
    activeSession := state.activeSession
    loopGuard
    participants := participants.map fun p => shown p state.attendancePolicy now }

def getBoardroom : ServedProg ServedReply := do
  let _ ← onRoom (requireParticipant o.toServerOptions req false)
  let boardroom ← onBoard readBoardroomUnlocked
  return .boardroom boardroom

/-! ## The forum -/

def requireParam (name : String) : Except Failure String :=
  match req.param name with
  | some value =>
      if value.isEmpty then .error (.http 400 "missing_param" (name ++ " is required"))
      else .ok value
  | none => .error (.http 400 "missing_param" (name ++ " is required"))

/-- `/not found/i`, or no such file. -/
def isForumNotFound (failure : Failure) : Bool :=
  failure = .notFound ||
    Platform.includes ((o.message failure).toList.map Char.toLower) "not found".toList

def forumFailure : Failure → Failure
  | .http status code message => .http status code message
  | failure =>
      if isForumNotFound o failure then .http 404 "forum_not_found" "forum post not found"
      else .http 400 "forum_error" (o.message failure)

def forumGuard {α : Type} (body : BoardProg α) : ServedProg α :=
  (onBoard body).catchErr fun failure => .err (forumFailure o failure)

/-- Each post with the number of its comments. -/
def withCounts (channel : String) : List ForumPost → ServedProg (List (ForumPost × Nat))
  | [] => return []
  | post :: posts => do
      let (thread, rest) ← Prog.both (o.schedule t posts.length)
        (onBoard (readForumPost o.toLowerCase channel post.id)) (withCounts channel posts)
      return (post, thread.comments.length) :: rest

def getForumPosts : ServedProg ServedReply := do
  let _ ← onRoom (requireParticipant o.toServerOptions req false)
  let channel ← .ofExcept (requireParam req "channel")
  let posts ← forumGuard o (listForumPosts o.toLowerCase o.localeLE channel)
  let counted ← withCounts t o channel posts
  return .forumPosts channel counted

def getForumPost : ServedProg ServedReply := do
  let _ ← onRoom (requireParticipant o.toServerOptions req false)
  let channel ← .ofExcept (requireParam req "channel")
  let post ← .ofExcept (requireParam req "post")
  let thread ← forumGuard o (readForumPost o.toLowerCase channel post)
  return .forumThread thread

/-- Who may write in the forum: a participant within its rate, while the room is open. -/
def requireWriter (endpoint : String) : RoomProg ServerMemory (Participant × Json) := do
  let auth ← requireParticipant o.toServerOptions req false
  synchronously fun now => enforceWriteRateLimit o.roomId auth.aliasName endpoint now
  requireRoomOpen t o.toServerOptions
  let body ← readJsonBody req
  return (auth, body)

/-- The tags that are texts; none where it is no list. -/
def forumTags : Option Json → Option (List String)
  | some (.arr items) => some (items.filterMap fun
      | .str tag => some tag
      | _ => none)
  | _ => none

def forumStatus : Option Json → Except Failure (Option String)
  | some (.str status) => (parseForumStatus status).map fun _ => some status
  | _ => .ok none

def forumPostInput (author : String) (body : Json) :
    Except Failure (String × CreateForumPostInput) := do
  let channel ← member body "channel"
  match channel, body.field? "title", body.field? "body" with
  | some (.str channel), some (.str title), some (.str text) =>
      let status ← forumStatus (body.field? "status")
      return (channel, ⟨author, title, text, none, status, forumTags (body.field? "tags")⟩)
  | _, _, _ => throw (.http 400 "invalid_forum_post" "channel, title, and body are required")

def postForumPost : ServedProg ServedReply := do
  let (auth, body) ← onRoom (requireWriter t o req "forum/posts")
  let (channel, input) ← .ofExcept (forumPostInput auth.aliasName body)
  let now ← onRoom (dateNow none)
  let post ← forumGuard o
    (createForumPost o.toLowerCase t channel input (o.randomPostId t) now)
  return .forumPost post

def forumCommentInput (body : Json) : Except Failure (String × String × String) := do
  let channel ← member body "channel"
  match channel, body.field? "post", body.field? "body" with
  | some (.str channel), some (.str post), some (.str text) =>
      if isBlank text then throw (.http 400 "invalid_forum_comment" "comment body is required")
      return (channel, post, text)
  | _, _, _ => throw (.http 400 "invalid_forum_comment" "channel, post, and body are required")

def postForumComment : ServedProg ServedReply := do
  let (auth, body) ← onRoom (requireWriter t o req "forum/comment")
  let (channel, post, text) ← .ofExcept (forumCommentInput body)
  let now ← onRoom (dateNow none)
  let comment ← forumGuard o
    (addForumComment o.toLowerCase t channel post auth.aliasName text now)
  return .forumComment comment

/-! ## All endpoints -/

/-- A file of the package. -/
def serveAsset (name : String) : ServedProg ServedReply := do
  .update (fun _ => .asset name) id
  return .asset name

/-- A handler that is known by its reply. -/
def replying (handler : Handler) : ServedProg ServedReply :=
  onRoom (handler.bind fun reply => .ret (.room reply))

def Endpoint.handler : Endpoint → ServedProg ServedReply
  | .browserShell => serveAsset "room.html"
  | .browserAsset name => serveAsset name
  | .browserBinaryAsset name => serveAsset name
  | .protocolAsset name => serveAsset name
  | .getForumPosts => Server.getForumPosts t o req
  | .getForumPost => Server.getForumPost o req
  | .postForumPost => Server.postForumPost t o req
  | .postForumComment => Server.postForumComment t o req
  | .getBrief => onRoom (Server.getBrief t o req)
  | .postBrief => onRoom (Server.postBrief t o req)
  | .postAttendance => onRoom (Server.postAttendance t o req)
  | .postLoopGuard => replying (Server.postLoopGuard t o.toServerOptions req)
  | .getProfile => onRoom (Server.getProfile o req)
  | .postProfile => onRoom (showProfile t o req)
  | .getCard => onRoom (Server.getCard t o req)
  | .postJoin => replying (Server.postJoin t o.toServerOptions req)
  | .getMessages => replying (Server.getMessages t o.toServerOptions req)
  | .postMessage => replying (Server.postMessage t o.toServerOptions req)
  | .getWait => replying (Server.getWait t o.toServerOptions req)
  | .postLeave => replying (Server.postLeave t o.toServerOptions req)
  | .postClose => replying (Server.postClose t o.toServerOptions req)
  | .postSession => replying (Server.postSession t o.toServerOptions req)
  | .getStatus => Server.getStatus t o req
  | .getBoardroom => Server.getBoardroom o req

end Handlers

def handleRequest (H : HostParser) (t : Nat) (o : RoomHttpServerOptions)
    (context : RequestContext) : ServedProg ServedReply := do
  let endpoint ← .ofExcept (route H o context)
  endpoint.handler t o (context.request endpoint)

/-! ## Runs -/

/-- A request, the timer of a cycle, the host's writes to the roster and to its channels, and
time. -/
inductive ServedCall where
  | request (context : RequestContext)
  | autoContinue (cycle : Nat)
  | roomInvite (options : RoomInviteOptions)
  | hostWrite (participant : Participant)
  | channel (call : ChannelCall)
  | timePasses (ms : Nat)

def quietly {α : Type} (p : ServedProg α) : ServedProg (Option ServedReply) :=
  p.bind fun _ => .ret none

def ServedCall.prog (H : HostParser) (o : RoomHttpServerOptions) (t : Nat) :
    ServedCall → ServedProg (Option ServedReply)
  | .request context => (handleRequest H t o context).bind fun reply => .ret (some reply)
  | .autoContinue cycle => quietly (onRoom (completeAutoContinue t o.toServerOptions cycle))
  | .roomInvite options => quietly (onRoom (Server.roomInvite t o.toServerOptions options))
  | .hostWrite participant => quietly (onRoom (upsertParticipant t participant))
  | .channel call => quietly (onBoard (call.prog t))
  | .timePasses ms => quietly (onRoom ((ServerCall.timePasses ms).prog o.toServerOptions t))

def ServedStep.mayFail : ServedStep → Failure → Bool
  | .room step, e => step.mayFail e
  | .board step, e => step.mayFail e
  | .asset _, e => e == .os

/-- Any step on a file may fail, any process may crash. -/
def servedSystem (process : Nat → Nat) : System ServedWorld ServedStep Failure where
  process := process
  faults := ServedStep.mayFail
  crash p := some fun w =>
    { w with room.lock :=
        if w.room.lock.any (fun t => process t == p) then none else w.room.lock }

def served (H : HostParser) (o : RoomHttpServerOptions) (w : ServedWorld)
    (calls : List ServedCall) :
    Config ServedWorld ServedStep Failure (Option ServedReply) where
  snap := ⟨w, []⟩
  threads := calls.mapIdx fun t call => some (call.prog H o t)

theorem thread_served {H : HostParser} {o : RoomHttpServerOptions} {w : ServedWorld}
    {calls : List ServedCall} {t : Nat} {p : ServedProg (Option ServedReply)}
    (h : System.thread (served H o w calls) t = some p) :
    ∃ call, calls[t]? = some call ∧ p = call.prog H o t := by
  simp only [System.thread, served, List.getElem?_mapIdx] at h
  cases hcall : calls[t]? with
  | none => simp [hcall] at h
  | some call => exact ⟨call, rfl, by simpa [hcall] using h.symm⟩

end AgentGather.Server
