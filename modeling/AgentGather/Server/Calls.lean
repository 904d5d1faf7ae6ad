import AgentGather.Server.Handlers

/-!
# Rooms being served

The calls a run of one room is made of: requests to the room server, the timers it sets,
the host's own roster writes, which take the same writer lock from another process, and
time.
-/

namespace AgentGather.Server

open AgentGather.Library AgentGather.Protocol AgentGather.Storage

inductive RequestKind where
  | getMessages
  | postMessage
  | getWait
  | postProfile
  | postJoin
  | postLeave
  | postClose
  | postLoopGuard
  | postSession
deriving DecidableEq, Repr

/-- The program behind an endpoint. -/
def RequestKind.handler (t : Nat) (o : ServerOptions) (req : Request) :
    RequestKind → Handler
  | .getMessages => Server.getMessages t o req
  | .postMessage => Server.postMessage t o req
  | .getWait => Server.getWait t o req
  | .postProfile => Server.postProfile t o req
  | .postJoin => Server.postJoin t o req
  | .postLeave => Server.postLeave t o req
  | .postClose => Server.postClose t o req
  | .postLoopGuard => Server.postLoopGuard t o req
  | .postSession => Server.postSession t o req

/-- The record of a newly invited participant. -/
def participantRecord (hashToken : String → String) (aliasName : String)
    (kind : ParticipantKind) (isHost : Bool) (token : String) (now : Nat) : Participant where
  aliasName := aliasName
  displayName := none
  kind := kind
  location := .onHost
  install := if isHost then .host else .lite
  attention := if isHost then .attending else .manual
  isHost := isHost
  tokenHash := some (hashToken token)
  removedAt := none
  joinedAt := some now
  lastSeenAt := now
  supportedModes := none
  requestedMode := none
  effectiveMode := none
  pollCadenceS := none
  safetyWakeS := none
  forumReviewChannel := none
  sessionId := none

structure RoomInviteOptions where
  aliasName : String
  kind : ParticipantKind
  token : String
  mode : Option AttentionMode
  forumChannel : Option String

/-- `room invite`: a new record under the alias, whatever was there. -/
def roomInvite (t : Nat) (o : ServerOptions) (options : RoomInviteOptions) :
    RoomProg ServerMemory Unit := do
  let now ← dateNow none
  let invited :=
    participantRecord o.hashToken options.aliasName options.kind false options.token now
  match options.forumChannel with
  | some channel => .ofExcept (assertSafeSlug channel "forum channel")
  | none => .ret ()
  upsertParticipant t
    { invited with requestedMode := options.mode, forumReviewChannel := options.forumChannel }

/-- `autoContinue` is the callback of the timer of a cycle, and `hostWrite` any other
record the host stores, such as one marked as removed. -/
inductive ServerCall where
  | request (kind : RequestKind) (req : Request)
  | autoContinue (cycle : Nat)
  | roomInvite (options : RoomInviteOptions)
  | hostWrite (participant : Participant)
  | timePasses (ms : Nat)

/-- The call as caller `t` makes it, with the reply of a request. -/
def ServerCall.prog (o : ServerOptions) (t : Nat) :
    ServerCall → RoomProg ServerMemory (Option Reply)
  | .request kind req => (kind.handler t o req).bind fun reply => .ret (some reply)
  | .autoContinue cycle => (completeAutoContinue t o cycle).bind fun _ => .ret none
  | .roomInvite options => (Server.roomInvite t o options).bind fun _ => .ret none
  | .hostWrite participant => (upsertParticipant t participant).bind fun _ => .ret none
  | .timePasses ms =>
      (Prog.update (fun _ => .memory) fun w => { w with clock := w.clock + ms }).bind
        fun _ => .ret none

/-- A room with these files, and the calls about to be made, each by its own caller. -/
def serving (o : ServerOptions) (files : RoomFiles) (clock : Nat) (memory : ServerMemory)
    (calls : List ServerCall) :
    Config (World ServerMemory) RoomStep Failure (Option Reply) where
  snap := ⟨⟨files, none, clock, memory⟩, []⟩
  threads := calls.mapIdx fun t call => some (call.prog o t)

theorem thread_serving {o : ServerOptions} {files : RoomFiles} {clock : Nat}
    {memory : ServerMemory} {calls : List ServerCall} {t : Nat}
    {p : RoomProg ServerMemory (Option Reply)}
    (h : System.thread (serving o files clock memory calls) t = some p) :
    ∃ call, calls[t]? = some call ∧ p = call.prog o t := by
  simp only [System.thread, serving, List.getElem?_mapIdx] at h
  cases hcall : calls[t]? with
  | none => simp [hcall] at h
  | some call => exact ⟨call, rfl, by simpa [hcall] using h.symm⟩

/-! ## A small room -/

/-- A host and an agent, with the tokens `aa` and `bb`. -/
def twoParticipants : List Participant :=
  [participantRecord id "host" .human true "aa" 0,
    participantRecord id "agent" .agent false "bb" 0]

def openRoom : RoomFiles where
  state := .whole
    (CreateRoomOptions.state ⟨"r", "host", some 0, none, none, none⟩ 0)
  participants := .whole twoParticipants
  brief := .whole ""
  messages := .whole []

def smallServer : ServerOptions := ⟨"r", 10, 10, 10, 1000, id, id⟩

/-- The same room with automatic continuation, after 30 seconds. -/
def guardedRoom : RoomFiles where
  state := .whole
    { CreateRoomOptions.state ⟨"r", "host", some 0, none, none, none⟩ 0 with
      autoContinueEnabled := some true, autoContinueDelayS := some 30 }
  participants := .whole twoParticipants
  brief := .whole ""
  messages := .whole []

/-- Here the guard stops an agent at its first message. -/
def guardingServer : ServerOptions := ⟨"r", 10, 10, 0, 1000, id, id⟩

end AgentGather.Server
