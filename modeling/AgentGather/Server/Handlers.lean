import AgentGather.Server.Memory
import AgentGather.Protocol.Attention
import AgentGather.Library.Number

/-!
# The room server's endpoints

The handlers behind the router that read or write the roster, the log or the room's
status, each as the program of its steps.  Request `t` is the caller of the writer lock;
between any two of its steps other requests run.
-/

namespace AgentGather.Server

open AgentGather.Library AgentGather.Protocol AgentGather.Storage

/-- What a room server was started with.  `hashToken` is the hash of the tokens and
`toLowerCase` the case folding of names. -/
structure ServerOptions where
  roomId : String
  maxMessages : Nat
  rateLimitPerMinute : Nat
  loopGuardLimit : Nat
  waitHoldMs : Nat
  hashToken : String → String
  toLowerCase : String → String

/-- What a handler reads of a request: the token, the outcome of reading its body, and
its query parameters. -/
structure Request where
  token : Option String
  body : Except Failure Json
  query : List (String × String)

def Request.param (req : Request) (name : String) : Option String := req.query.lookup name

/-- The base URL a continuation command is built on. -/
inductive WaitBase where
  | serverBase
  | advertisedBase
deriving DecidableEq, Repr

structure WaitResponse where
  roomStatus : RoomStatus
  participant : String
  removed : Bool
  heartbeat : Bool
  messages : List Message
  mentioned : Bool
  nextSinceId : Nat
  keepWaiting : Bool
  nextCmd : Option WaitBase
deriving DecidableEq, Repr

/-- What the host sees of the loop guard; of a pending cycle, its alias and the seconds
that remain. -/
structure LoopGuardProjection where
  limit : Nat
  autoContinueEnabled : Bool
  autoContinueDelayS : Nat
  autoContinueCount : Nat
  pending : Option (String × Nat)
deriving DecidableEq, Repr

inductive Reply where
  | stored (message : Message) (idempotent : Bool)
  | page (messages : List Message) (nextSinceId : Option Nat) (hasMoreBefore : Option Bool)
  | waited (response : WaitResponse)
  | profile (participant : Participant)
  | joined (participant : String) (warning : Bool)
  | left
  | closed (status : RoomStatus)
  | loopGuard (projection : LoopGuardProjection)
  | session (session : ActiveSession)
deriving DecidableEq, Repr

abbrev Handler := RoomProg ServerMemory Reply

def attendanceStaleAfterMs : Nat := 90000

/-! ## Authentication -/

/-- `Buffer.from(text, "hex")`: pairs of digits up to the first that are not. -/
def decodeHex : List Char → List Nat
  | a :: b :: s =>
      match Json.hexValue a, Json.hexValue b with
      | some x, some y => (x * 16 + y) :: decodeHex s
      | _, _ => []
  | _ => []

def verifyToken (hashToken : String → String) (token tokenHash : String) : Bool :=
  decodeHex (hashToken token).toList == decodeHex tokenHash.toList

/-- The record a token belongs to. -/
def findByToken (hashToken : String → String) (token : String)
    (participants : List Participant) : Option Participant :=
  participants.find? fun candidate => candidate.tokenHash.any (verifyToken hashToken token)

/-- The record is read outside the writer lock. -/
def requireParticipant (o : ServerOptions) (req : Request) (allowRemoved : Bool) :
    RoomProg ServerMemory Participant := do
  match req.token with
  | none => throw (.http 401 "unauthorized" "bearer token is required")
  | some token =>
      let participants ← readParticipants
      match findByToken o.hashToken token participants with
      | none => throw (.http 403 "forbidden" "participant token is not allowed")
      | some participant =>
          if participant.removedAt.isSome && !allowRemoved then
            throw (.http 403 "forbidden" "participant token is not allowed")
          return participant

def requireHost (participant : Participant) : Except Failure Unit :=
  if participant.isHost then .ok ()
  else .error (.http 403 "host_required" "host access is required")

/-- Store the authenticated record again, with its attention and the time. -/
def touchParticipant (t : Nat) (participant : Participant)
    (attention : ParticipantAttention) : RoomProg ServerMemory Unit := do
  let now ← dateNow none
  upsertParticipant t { participant with attention, lastSeenAt := now }

def readJsonBody (req : Request) : RoomProg ServerMemory Json :=
  .query (fun _ => .memory) fun _ => req.body

/-! ## The room's status -/

def appendSystem (t : Nat) (o : ServerOptions) (text : String) :
    RoomProg ServerMemory Message :=
  appendServerMessage t ⟨o.roomId, "system", text, none⟩

def RoomState.expiredAt (state : RoomState) (now : Nat) : Bool :=
  state.expiresAt.any fun expiresAt => expiresAt ≤ now

def closeExpiredRoomIfNeeded (t : Nat) (o : ServerOptions) :
    RoomProg ServerMemory RoomState := do
  let state ← readRoomState
  let now ← dateNow none
  if state.status = .opened ∧ RoomState.expiredAt state now = true then
    synchronously fun _ => cancelPendingAutoContinue
    let closed ← closeRoom t none
    let _ ← appendSystem t o "room closed by ttl"
    synchronously fun _ => notifyWaiters
    return closed
  return state

def requireRoomOpen (t : Nat) (o : ServerOptions) : RoomProg ServerMemory Unit := do
  let state ← closeExpiredRoomIfNeeded t o
  if state.status ≠ .opened then throw (.http 403 "room_closed" "room is closed")

/-! ## Messages -/

def parseCursorParam (raw name : String) : Except Failure Nat :=
  match Number.toInteger raw.toList with
  | some n =>
      if 0 ≤ n ∧ n ≤ maxSafeInteger then .ok n.toNat
      else .error (.http 400 ("invalid_" ++ name) (name ++ " must be a non-negative integer"))
  | none => .error (.http 400 ("invalid_" ++ name) (name ++ " must be a non-negative integer"))

def parseSinceId : Option String → Except Failure Nat
  | none => .ok 0
  | some raw => parseCursorParam raw "since_id"

def parseMessageLimit : Option String → Except Failure (Option Nat)
  | none => .ok none
  | some raw =>
      match Number.toInteger raw.toList with
      | some n =>
          if 1 ≤ n ∧ n ≤ maxSafeInteger then .ok (some n.toNat)
          else .error (.http 400 "invalid_limit" "limit must be a positive integer")
      | none => .error (.http 400 "invalid_limit" "limit must be a positive integer")

def defaultChannelId : String := "general"

/-- A page of the log, backward from `before_id` or forward from `since_id`. -/
def messagePage (all : List Message) (sinceId : Nat) (beforeId limit : Option Nat) : Reply :=
  match beforeId with
  | some beforeId =>
      let older := all.filter fun message => message.id < beforeId
      let page := match limit with
        | none => older
        | some limit => older.drop (older.length - limit)
      .page page none (some (match page.head? with
        | none => false
        | some oldest => all.any fun message => message.id < oldest.id))
  | none =>
      let forward := all.filter fun message => sinceId < message.id
      let messages := match limit with
        | none => forward
        | some limit => forward.take limit
      .page messages (some ((messages.getLast?.map (·.id)).getD sinceId)) none

def getMessages (t : Nat) (o : ServerOptions) (req : Request) : Handler := do
  let auth ← requireParticipant o req false
  if (req.param "channel").any (· ≠ defaultChannelId) then
    throw (.http 400 "unsupported_channel" ("channel-scoped chat is not available; only #" ++
      defaultChannelId ++ " carries chat in this version"))
  touchParticipant t auth auth.attention
  let rawSince := req.param "since_id"
  let rawBefore := req.param "before_id"
  if rawSince.isSome && rawBefore.isSome then
    throw (.http 400 "conflicting_cursor" "since_id and before_id cannot be combined")
  let limit ← .ofExcept (parseMessageLimit (req.param "limit"))
  let all ← readMessages
  match rawBefore with
  | some raw =>
      let beforeId ← .ofExcept (parseCursorParam raw "before_id")
      return messagePage all 0 (some beforeId) limit
  | none =>
      let sinceId ← .ofExcept (parseSinceId rawSince)
      return messagePage all sinceId none limit

/-- The guard's second half, after reading the room's preference. -/
def pauseLoop (participant : Participant) : RoomProg ServerMemory Unit := do
  let state ← readRoomState
  if state.autoContinueEnabled ≠ some true then
    throw (.http 429 "loop_guard" "loop guard stopped repeated agent messages")
  synchronously fun now => do
    schedulePendingAutoContinue participant.aliasName
      (state.autoContinueDelayS.getD autoContinueDelayDefaultS) now
    throw (.http 429 "loop_guard" "loop guard paused: an automatic continue is pending")

/-- The rate limit and the loop guard's counting run in one step. -/
def enforceGuards (o : ServerOptions) (participant : Participant) :
    RoomProg ServerMemory Unit := do
  let outcome ← synchronously fun now => do
    enforceRateLimit (o.roomId ++ ":" ++ participant.aliasName) o.rateLimitPerMinute now
    countPost participant o.loopGuardLimit
  match outcome with
  | .passed => return ()
  | .limitExceeded => pauseLoop participant

def postMessage (t : Nat) (o : ServerOptions) (req : Request) : Handler := do
  let auth ← requireParticipant o req false
  let body ← readJsonBody req
  touchParticipant t auth auth.attention
  requireRoomOpen t o
  enforceGuards o auth
  let result ← appendMessageResult t
    ⟨o.roomId, auth.aliasName, body, none, some o.maxMessages⟩
  if result.idempotent then return .stored result.message true
  synchronously fun _ => notifyWaiters
  return .stored result.message false

/-! ## The automatic continuation -/

/-- The timer of the cycle, once it is due. -/
def dueTimer (cycle : Nat) (w : World ServerMemory) : Option PendingAutoContinue :=
  w.memory.timers.find? fun timer => timer.cycle == cycle && timer.expiresAt ≤ w.clock

/-- The timer of the cycle goes off, and its callback looks for an entry: the alias the
callback was made for, unless nothing is pending. -/
def fireTimer (cycle : Nat) : RoomProg ServerMemory (Option String) :=
  .action
    (fun w => match dueTimer cycle w with
      | some timer => .fired w.clock timer
      | none => .memory)
    (fun w => (dueTimer cycle w).isSome)
    (fun w => { w with
      memory := { w.memory with
        timers := w.memory.timers.filter fun timer => timer.cycle ≠ cycle } })
    fun w => .ok (if w.memory.pendingAutoContinue.isSome
      then (dueTimer cycle w).map (·.aliasName) else none)

/-- The second look, behind the reading of the state: whether to approve.  The entry that
is dropped then keeps its timer. -/
def recheckAutoContinue (state : RoomState) (now : Nat) : MemoryM Bool := do
  let m ← get
  if m.pendingAutoContinue.isNone then return false
  if state.status ≠ .opened ∨ RoomState.expiredAt state now = true then
    cancelPendingAutoContinue
    return false
  set { m with pendingAutoContinue := none }
  clearRoomLoopCounts
  modify fun m => { m with autoContinueCount := m.autoContinueCount + 1 }
  return true

def approvalSuffix : String :=
  " auto-continue approved after the loop guard pause. The guard is re-armed; " ++
    "continue if your task is unfinished."

def approvalText (aliasName : String) : String := "@" ++ aliasName ++ approvalSuffix

/-- An approval that cannot be stored is dropped. -/
def appendApproval (t : Nat) (o : ServerOptions) (aliasName : String) :
    RoomProg ServerMemory Unit :=
  tryCatch (do
    let _ ← appendSystem t o (approvalText aliasName)
    synchronously fun _ => notifyWaiters) fun _ => return ()

/-- The callback of the timer of a cycle. -/
def completeAutoContinue (t : Nat) (o : ServerOptions) (cycle : Nat) :
    RoomProg ServerMemory Unit := do
  match ← fireTimer cycle with
  | none => return ()
  | some aliasName =>
      match ← tryCatch (some <$> readRoomState) fun _ => return none with
      | none => synchronously fun _ => cancelPendingAutoContinue
      | some state =>
          if ← synchronously fun now => recheckAutoContinue state now then
            appendApproval t o aliasName

def loopGuardProjection (o : ServerOptions) (state : RoomState) (now : Nat) :
    MemoryM LoopGuardProjection := do
  let m ← get
  return {
    limit := o.loopGuardLimit
    autoContinueEnabled := state.autoContinueEnabled == some true
    autoContinueDelayS := state.autoContinueDelayS.getD autoContinueDelayDefaultS
    autoContinueCount := m.autoContinueCount
    pending := m.pendingAutoContinue.map fun pending =>
      (pending.aliasName, (pending.expiresAt - now + 999) / 1000) }

def parseAutoContinueDelay : Option Json → Except Failure (Option Int)
  | none => .ok none
  | some (.num delay) =>
      if isValidAutoContinueDelay delay then .ok (some delay) else invalid
  | some _ => invalid
where
  invalid : Except Failure (Option Int) :=
    .error (.http 400 "invalid_auto_continue_delay" ("delay_s must be an integer between " ++
      toString autoContinueDelayMinS ++ " and " ++ toString autoContinueDelayMaxS))

/-- Turning the preference off cancels what is pending, after it is stored and before the
answer. -/
def setLoopGuard (t : Nat) (o : ServerOptions) (updatedBy : String) (enabled : Bool)
    (delaySeconds : Option Int) : Handler := do
  let state ← updateLoopGuardPreference t ⟨o.roomId, enabled, delaySeconds, updatedBy, none⟩
  if !enabled then
    let projection ← settling fun now => do
      cancelPendingAutoContinue
      loopGuardProjection o state now
    return .loopGuard projection
  let projection ← synchronously fun now => loopGuardProjection o state now
  return .loopGuard projection

def postLoopGuard (t : Nat) (o : ServerOptions) (req : Request) : Handler := do
  let auth ← requireParticipant o req false
  synchronously fun now => enforceWriteRateLimit o.roomId auth.aliasName "loop-guard" now
  .ofExcept (requireHost auth)
  let body ← readJsonBody req
  match body.field? "enabled" with
  | some (.bool enabled) =>
      let delaySeconds ← .ofExcept (parseAutoContinueDelay (body.field? "delay_s"))
      setLoopGuard t o auth.aliasName enabled delaySeconds
  | _ => throw (.http 400 "invalid_auto_continue" "enabled must be a boolean")

/-! ## Waiting -/

def buildWaitResponse (roomStatus : RoomStatus) (participant : String)
    (messages : List Message) (sinceId : Nat) (base : WaitBase)
    (heartbeat keepWaiting : Bool) : WaitResponse where
  roomStatus := roomStatus
  participant := participant
  removed := false
  heartbeat := heartbeat
  messages := messages
  mentioned := messages.any fun message => message.mentions.contains participant
  nextSinceId := (messages.getLast?.map (·.id)).getD sinceId
  keepWaiting := keepWaiting
  nextCmd := if roomStatus = .opened then some base else none

def waitSnapshot (t : Nat) (o : ServerOptions) (participant : String) (sinceId : Nat) :
    RoomProg ServerMemory (Option WaitResponse) := do
  let state ← closeExpiredRoomIfNeeded t o
  if state.status = .closed then
    return some (buildWaitResponse .closed participant [] sinceId .advertisedBase false false)
  let all ← readMessages
  let messages := all.filter fun message => sinceId < message.id
  if messages.isEmpty then return none
  return some (buildWaitResponse .opened participant messages sinceId .serverBase false false)

/-- `waitHub.wait` with its timer: registered in one step, over at the next notification
or when the hold time has passed. -/
def holdWait (o : ServerOptions) : RoomProg ServerMemory Unit := do
  let (notified, since) ← .query (fun _ => .memory) fun w =>
    .ok (w.memory.notifications, w.clock)
  .action (fun _ => .memory)
    (fun w => notified < w.memory.notifications || since + o.waitHoldMs ≤ w.clock) id
    fun _ => .ok ()

/-- `getWait` behind the touching of the record. -/
def waitReply (t : Nat) (o : ServerOptions) (req : Request) (auth : Participant) :
    Handler := do
  let sinceId ← .ofExcept (parseSinceId (req.param "since_id"))
  if (req.param "participant").any (· ≠ auth.aliasName) then
    throw (.http 403 "participant_mismatch" "participant query does not match token")
  if auth.removedAt.isSome then
    let state ← closeExpiredRoomIfNeeded t o
    return .waited ⟨state.status, auth.aliasName, true, false, [], false, sinceId, false, none⟩
  match ← waitSnapshot t o auth.aliasName sinceId with
  | some immediate => return .waited immediate
  | none =>
      holdWait o
      match ← waitSnapshot t o auth.aliasName sinceId with
      | some afterWait => return .waited afterWait
      | none =>
          return .waited
            (buildWaitResponse .opened auth.aliasName [] sinceId .advertisedBase true true)

def getWait (t : Nat) (o : ServerOptions) (req : Request) : Handler := do
  let auth ← requireParticipant o req true
  if auth.removedAt.isNone then touchParticipant t auth .attending
  waitReply t o req auth

/-! ## The roster -/

/-- `/[\u0000-\u001f\u007f]/`. -/
def isControl (c : Char) : Bool := c.toNat ≤ 0x1f || c.toNat == 0x7f

/-- Runs of white space become one space. -/
def collapseSpaces (s : List Char) : List Char :=
  (Regex.plus (.char Text.isSpace)).replaceAll (fun _ => [' ']) s

def parseDisplayName (value : String) : Except Failure String :=
  let trimmed := collapseSpaces (Text.trim value.toList)
  if trimmed.isEmpty || 60 < Text.utf16Length trimmed || trimmed.any isControl then
    .error (.http 400 "invalid_display_name"
      "display name must be 1-60 characters without control characters")
  else .ok (String.ofList trimmed)

/-- What a participant declares of its attention; absent parts stay as they are. -/
structure AttentionDeclaration where
  supportedModes : Option (List AttentionMode)
  pollCadenceS : Option Number
  safetyWakeS : Option Number

def parsePositiveSeconds (value : Json) (label : String) : Except Failure Number :=
  let invalid : Except Failure Number :=
    .error (.http 400 "invalid_cadence" (label ++ " must be a positive number of seconds"))
  match value with
  | .num n => if 0 < n then .ok (.whole n) else invalid
  | .real token => if token.head? = some '-' then invalid else .ok (.fraction token)
  | _ => invalid

def parseModeNames (items : List Json) : Option (List String) :=
  items.mapM fun
    | .str s => some s
    | _ => none

def parseSupportedModes : Option Json → Except Failure (Option (List AttentionMode))
  | none => .ok none
  | some (.arr items) =>
      match parseModeNames items with
      | none => .error (.http 400 "invalid_supported_modes"
          "supported_modes must be an array of mode strings")
      | some names =>
          match normalizeSupportedModes names with
          | .ok modes => .ok (some modes)
          | .error (.error message) => .error (.http 400 "invalid_supported_modes" message)
          | .error _ => .error (.http 400 "invalid_supported_modes" "invalid supported_modes")
  | some _ => .error (.http 400 "invalid_supported_modes"
      "supported_modes must be an array of mode strings")

def parseCadence (label : String) : Option Json → Except Failure (Option Number)
  | none => .ok none
  | some value => some <$> parsePositiveSeconds value label

def parseAttentionDeclaration (body : Json) : Except Failure AttentionDeclaration := do
  let supportedModes ← parseSupportedModes (body.field? "supported_modes")
  let pollCadenceS ← parseCadence "poll_cadence_s" (body.field? "poll_cadence_s")
  let safetyWakeS ← parseCadence "safety_wake_s" (body.field? "safety_wake_s")
  return { supportedModes, pollCadenceS, safetyWakeS }

/-- The record with what was declared. -/
def AttentionDeclaration.apply (declared : AttentionDeclaration) (participant : Participant) :
    Participant :=
  { participant with
    supportedModes := declared.supportedModes.or participant.supportedModes
    pollCadenceS := declared.pollCadenceS.or participant.pollCadenceS
    safetyWakeS := declared.safetyWakeS.or participant.safetyWakeS }

/-- Another alias goes by the name, without the claimant's token. -/
def findNameOwnerConflict (lower : String → String) (participants : List Participant)
    (displayName : String) (claimant : Participant) : Option String :=
  let owner := participants.find? fun p =>
    p.aliasName ≠ claimant.aliasName &&
      lower (p.displayName.getD p.aliasName) == lower displayName
  match owner with
  | none => none
  | some owner =>
      if owner.tokenHash.isSome && owner.tokenHash == claimant.tokenHash then none
      else some owner.aliasName

/-- The record a profile request stores: the authenticated one, changed. -/
def profileRecord (participant : Participant) (declared : AttentionDeclaration)
    (displayName : String) (now : Nat) : Participant :=
  negotiateParticipantAttention
    { declared.apply participant with displayName := some displayName, lastSeenAt := now }

def postProfile (t : Nat) (o : ServerOptions) (req : Request) : Handler := do
  let auth ← requireParticipant o req false
  synchronously fun now => enforceWriteRateLimit o.roomId auth.aliasName "profile" now
  let body ← readJsonBody req
  match body.field? "display_name" with
  | some (.str raw) =>
      let displayName ← .ofExcept (parseDisplayName raw)
      let participants ← readParticipants
      if (findNameOwnerConflict o.toLowerCase participants displayName auth).isSome then
        throw (.http 409 "display_name_taken" "display name is already in use")
      let declared ← .ofExcept (parseAttentionDeclaration body)
      let now ← dateNow none
      let updated := profileRecord auth declared displayName now
      upsertParticipant t updated
      return .profile updated
  | _ => throw (.http 400 "invalid_display_name" "display_name is required")

def parseSessionId : Option Json → Except Failure (Option String)
  | none => .ok none
  | some (.str value) =>
      if (Text.trim value.toList).isEmpty then
        .error (.http 400 "invalid_session_id" "session_id must be a non-empty string")
      else if 200 < Text.utf16Length value.toList then
        .error (.http 400 "invalid_session_id" "session_id must be at most 200 characters")
      else .ok (some value)
  | some _ => .error (.http 400 "invalid_session_id" "session_id must be a non-empty string")

/-- The record a join stores: the authenticated one, changed. -/
def joinRecord (participant : Participant) (declared : AttentionDeclaration)
    (incomingSessionId : Option String) (now : Nat) : Participant :=
  negotiateParticipantAttention
    { declared.apply { participant with removedAt := none } with
      attention := .attending
      joinedAt := participant.joinedAt.or (some now)
      lastSeenAt := now
      sessionId := incomingSessionId.or participant.sessionId }

def postJoin (t : Nat) (o : ServerOptions) (req : Request) : Handler := do
  let auth ← requireParticipant o req false
  synchronously fun now => enforceWriteRateLimit o.roomId auth.aliasName "join" now
  let now ← dateNow none
  let body ← readJsonBody req
  let declared ← .ofExcept (parseAttentionDeclaration body)
  let incomingSessionId ← .ofExcept (parseSessionId (body.field? "session_id"))
  let participant := joinRecord auth declared incomingSessionId now
  let duplicateActiveSession ←
    joinParticipant t participant attendanceStaleAfterMs incomingSessionId
  let _ ← appendSystem t o (auth.aliasName ++ " joined")
  synchronously fun _ => notifyWaiters
  return .joined auth.aliasName duplicateActiveSession

def postLeave (t : Nat) (o : ServerOptions) (req : Request) : Handler := do
  let auth ← requireParticipant o req false
  synchronously fun now => enforceWriteRateLimit o.roomId auth.aliasName "leave" now
  let now ← dateNow none
  upsertParticipant t { auth with attention := .away, lastSeenAt := now }
  let _ ← appendSystem t o (auth.aliasName ++ " left")
  synchronously fun _ => notifyWaiters
  return .left

/-! ## Active sessions -/

def parseDurationM : Option Json → Except Failure Nat
  | some (.num value) =>
      if 0 < value then .ok value.toNat else invalid
  | _ => invalid
where
  invalid : Except Failure Nat :=
    .error (.http 400 "invalid_duration" "expected_duration_m must be a positive integer")

def parseRequestedMode : Option Json → Except Failure (Option AttendancePolicy)
  | none => .ok none
  | some (.str value) =>
      match parseAttendancePolicy value with
      | .ok policy => .ok (some policy)
      | .error (.error message) => .error (.http 400 "invalid_requested_mode" message)
      | .error _ =>
          .error (.http 400 "invalid_requested_mode" "invalid requested_mode")
  | some _ =>
      .error (.http 400 "invalid_requested_mode" "requested_mode must be a string")

def sessionChannel (body : Json) : String :=
  match body.field? "channel" with
  | some (.str channel) => channel
  | _ => defaultChannelId

def startSession (t : Nat) (o : ServerOptions) (auth : Participant) (body : Json) :
    Handler := do
  let channel := sessionChannel body
  if channel ≠ defaultChannelId then
    throw (.http 400 "unsupported_channel" ("active sessions are only available for #" ++
      defaultChannelId ++ " in this version"))
  let expectedDurationM ← .ofExcept (parseDurationM (body.field? "expected_duration_m"))
  let requestedMode ← .ofExcept (parseRequestedMode (body.field? "requested_mode"))
  let session ← tryCatch
    (startActiveSession t
      ⟨o.roomId, channel, auth.aliasName, expectedDurationM, requestedMode, none⟩)
    fun
      | .activeSessionExists =>
          throw (.http 409 "session_active" "an active chat session is already running")
      | error => throw error
  let _ ← appendSystem t o ("Active chat session started in #" ++ channel ++ " by " ++
    auth.aliasName ++ " (~" ++ toString expectedDurationM ++ "m)")
  synchronously fun _ => notifyWaiters
  return .session session

def endSession (t : Nat) (o : ServerOptions) : Handler := do
  match ← endActiveSession t o.roomId none with
  | none => throw (.http 409 "no_active_session" "no active chat session to end")
  | some ended =>
      let _ ← appendSystem t o ("Active chat session ended in #" ++ ended.channelId)
      synchronously fun _ => notifyWaiters
      return .session ended

/-- The room is found open before the body is read. -/
def postSession (t : Nat) (o : ServerOptions) (req : Request) : Handler := do
  let auth ← requireParticipant o req false
  synchronously fun now => enforceWriteRateLimit o.roomId auth.aliasName "session" now
  .ofExcept (requireHost auth)
  requireRoomOpen t o
  let body ← readJsonBody req
  match body.field? "action" with
  | some (.str "start") => startSession t o auth body
  | some (.str "end") => endSession t o
  | _ => throw (.http 400 "invalid_action" "action must be start or end")

/-! ## Closing -/

/-- The pending continuation is cancelled before the close suspends. -/
def postClose (t : Nat) (o : ServerOptions) (req : Request) : Handler := do
  let auth ← requireParticipant o req false
  synchronously fun now => enforceWriteRateLimit o.roomId auth.aliasName "close" now
  .ofExcept (requireHost auth)
  synchronously fun _ => cancelPendingAutoContinue
  let state ← closeRoom t none
  let _ ← appendSystem t o "room closed"
  synchronously fun _ => notifyWaiters
  return .closed state.status

end AgentGather.Server
