import AgentGather.Library.Json

/-!
# Protocol types

The records a room is made of, as they are stored and sent.  Timestamps are
milliseconds; an absent optional field is `none`.
-/

namespace AgentGather.Protocol

open AgentGather.Library

inductive ParticipantKind where
  | agent
  | human
  | system
deriving DecidableEq, Repr

inductive ParticipantLocation where
  | onHost
  | remote
deriving DecidableEq, Repr

inductive ParticipantInstall where
  | lite
  | core
  | host
deriving DecidableEq, Repr

inductive ParticipantAttention where
  | manual
  | attending
  | standby
  | away
  | managed
deriving DecidableEq, Repr

/-- Wake-on-event attention modes, from most to least capable. -/
inductive AttentionMode where
  | foregroundAttended
  | wakeOnEvent
  | heartbeat
  | manual
deriving DecidableEq, Repr

inductive RoomStatus where
  | opened
  | closed
deriving DecidableEq, Repr

inductive AttendancePolicy where
  | manualOk
  | agentsForeground
  | allForeground
  | hostDirected
deriving DecidableEq, Repr

inductive MessageType where
  | message
  | question
  | reply
  | status
  | requestReview
  | requestDebug
  | handoff
  | system
deriving DecidableEq, Repr

/-- A JSON number: an integer, or the text of another one. -/
inductive Number where
  | whole (value : Int)
  | fraction (token : List Char)
deriving DecidableEq, Repr

structure RoomBrief where
  body : String
  briefVersion : Nat
  briefUpdatedAt : Nat
  briefUpdatedBy : String
deriving DecidableEq, Repr

/-- A bounded live-chat event on a chat channel. -/
structure ActiveSession where
  channelId : String
  startedAt : Nat
  expectedDurationM : Nat
  requestedMode : Option AttendancePolicy
  startedBy : String
  endedAt : Option Nat
deriving DecidableEq, Repr

/-- `room.json`.  A room saved before a field existed lacks it. -/
structure RoomState where
  id : String
  status : RoomStatus
  attendancePolicy : Option AttendancePolicy
  createdAt : Nat
  updatedAt : Nat
  expiresAt : Option Nat
  nextMessageId : Nat
  briefVersion : Nat
  briefUpdatedAt : Nat
  briefUpdatedBy : String
  activeSession : Option ActiveSession
  autoContinueEnabled : Option Bool
  autoContinueDelayS : Option Nat
deriving DecidableEq, Repr

/-- One entry of `participants.json`.  An empty `joinedAt` is `none`. -/
structure Participant where
  aliasName : String
  displayName : Option String
  kind : ParticipantKind
  location : ParticipantLocation
  install : ParticipantInstall
  attention : ParticipantAttention
  isHost : Bool
  tokenHash : Option String
  removedAt : Option Nat
  joinedAt : Option Nat
  lastSeenAt : Nat
  supportedModes : Option (List AttentionMode)
  requestedMode : Option AttentionMode
  effectiveMode : Option AttentionMode
  pollCadenceS : Option Number
  safetyWakeS : Option Number
  forumReviewChannel : Option String
  sessionId : Option String
deriving DecidableEq, Repr

/-- The loop guard's pending continuation: the alias whose rejected post opened the
cycle, and when its timer fires; `cycle` identifies the timer. -/
structure PendingAutoContinue where
  aliasName : String
  cycle : Nat
  expiresAt : Nat
deriving DecidableEq, Repr

structure ClientMessageInput where
  text : String
  type : Option MessageType
  replyTo : Option Nat
  clientMsgId : Option String
deriving DecidableEq, Repr

/-- One line of `messages.jsonl`. -/
structure Message where
  id : Nat
  room : String
  ts : Nat
  sender : String
  type : MessageType
  text : String
  replyTo : Option Nat
  clientMsgId : Option String
  mentions : List String
deriving DecidableEq, Repr

/-- What a function of the program throws. -/
inductive Failure where
  /-- A plain `Error` with its message. -/
  | error (message : String)
  /-- A file operation failed with `ENOENT`. -/
  | notFound
  /-- A file operation failed with `EEXIST`. -/
  | fileExists
  /-- Any other failure of the operating system. -/
  | os
  /-- `JSON.parse` met a text that is not JSON. -/
  | malformedJson
  | roomLogFull
  | activeSessionExists
  /-- An `HttpError`. -/
  | http (status : Nat) (code message : String)
deriving DecidableEq, Repr

end AgentGather.Protocol
