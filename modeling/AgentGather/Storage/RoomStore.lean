import AgentGather.Storage.Files
import AgentGather.Protocol.Messages

/-!
# The room store

The operations on one room's files, each a program of storage steps.  The operations
that change files run under the writer lock, as caller `t`; `createRoom` does not.
-/

namespace AgentGather.Storage

open AgentGather.Library AgentGather.Protocol

variable {μ : Type}

def maxBriefLength : Nat := 16000

def autoContinueDelayMinS : Nat := 30

def autoContinueDelayMaxS : Nat := 300

def autoContinueDelayDefaultS : Nat := 30

def isValidAutoContinueDelay (value : Int) : Bool :=
  autoContinueDelayMinS ≤ value && value ≤ autoContinueDelayMaxS

def assertBriefSize (body : String) : Except Failure Unit :=
  if maxBriefLength < Text.utf16Length body.toList then
    .error (.error ("brief body must be <= " ++ toString maxBriefLength ++ " characters"))
  else .ok ()

/-! ## Reading -/

def withRoomDefaults (state : RoomState) : RoomState :=
  { state with attendancePolicy := some (state.attendancePolicy.getD .manualOk) }

def readRoomState : RoomProg μ RoomState :=
  .query (fun w => .readState w.files.state) fun w =>
    w.files.state.read.map withRoomDefaults

def readParticipants : RoomProg μ (List Participant) :=
  .query (fun w => .readParticipants w.files.participants) fun w => w.files.participants.read

def readMessages : RoomProg μ (List Message) := readJsonLines

/-! ## Creating a room -/

structure CreateRoomOptions where
  roomId : String
  hostAlias : String
  now : Option Nat
  expiresAt : Option Nat
  briefBody : Option String
  attendancePolicy : Option AttendancePolicy

/-- The state of a new room. -/
def CreateRoomOptions.state (options : CreateRoomOptions) (now : Nat) : RoomState where
  id := options.roomId
  status := .opened
  attendancePolicy := some (options.attendancePolicy.getD .manualOk)
  createdAt := now
  updatedAt := now
  expiresAt := options.expiresAt
  nextMessageId := 1
  briefVersion := 1
  briefUpdatedAt := now
  briefUpdatedBy := options.hostAlias
  activeSession := none
  autoContinueEnabled := none
  autoContinueDelayS := none

/-- A text file is readable, and empty, as soon as it is opened; a JSON file is not. -/
def createRoom (options : CreateRoomOptions) : RoomProg μ RoomState := do
  .ofExcept (assertSafeSlug options.roomId "room id")
  .ofExcept (assertSafeSlug options.hostAlias "host alias")
  let now ← dateNow options.now
  ensureRoomDirectories
  let briefBody := options.briefBody.getD ""
  .ofExcept (assertBriefSize briefBody)
  let state := options.state now
  createSecureFile .state (fun f => f.state != .absent)
    (fun f => { f with state := .torn }) fun f => { f with state := .whole state }
  createSecureFile .participants (fun f => f.participants != .absent)
    (fun f => { f with participants := .torn }) fun f => { f with participants := .whole [] }
  createSecureFile .brief (fun f => f.brief != .absent)
    (fun f => { f with brief := .whole "" }) fun f => { f with brief := .whole briefBody }
  createSecureFile .messages (fun f => f.messages != .absent)
    (fun f => { f with messages := .whole [] }) id
  return state

/-! ## Changing the state -/

structure UpdateAttendancePolicyOptions where
  roomId : String
  policy : AttendancePolicy
  updatedBy : String
  now : Option Nat

def updateAttendancePolicy (t : Nat) (options : UpdateAttendancePolicyOptions) :
    RoomProg μ RoomState := do
  .ofExcept (assertSafeSlug options.roomId "room id")
  .ofExcept (assertSafeSlug options.updatedBy "updated by")
  let now ← dateNow options.now
  withWriterLock t do
    let state ← readRoomState
    let updatedState :=
      { state with attendancePolicy := some options.policy, updatedAt := now }
    writeState .updated updatedState
    return updatedState

structure UpdateLoopGuardPreferenceOptions where
  roomId : String
  enabled : Bool
  delaySeconds : Option Int
  updatedBy : String
  now : Option Nat

def updateLoopGuardPreference (t : Nat) (options : UpdateLoopGuardPreferenceOptions) :
    RoomProg μ RoomState := do
  .ofExcept (assertSafeSlug options.roomId "room id")
  .ofExcept (assertSafeSlug options.updatedBy "updated by")
  if options.delaySeconds.any fun delay => !isValidAutoContinueDelay delay then
    throw (.error ("auto continue delay must be an integer between " ++
      toString autoContinueDelayMinS ++ " and " ++ toString autoContinueDelayMaxS ++
      " seconds"))
  let now ← dateNow options.now
  withWriterLock t do
    let state ← readRoomState
    let delay := (options.delaySeconds.map Int.toNat).or state.autoContinueDelayS
    let updatedState :=
      { state with
        autoContinueEnabled := some options.enabled
        autoContinueDelayS := some (delay.getD autoContinueDelayDefaultS)
        updatedAt := now }
    writeState .preferred updatedState
    return updatedState

structure UpdateBriefOptions where
  roomId : String
  body : String
  updatedBy : String
  now : Option Nat

def updateBrief (t : Nat) (options : UpdateBriefOptions) : RoomProg μ RoomBrief := do
  .ofExcept (assertSafeSlug options.roomId "room id")
  .ofExcept (assertSafeSlug options.updatedBy "updated by")
  .ofExcept (assertBriefSize options.body)
  let now ← dateNow options.now
  withWriterLock t do
    let state ← readRoomState
    let updatedState :=
      { state with
        updatedAt := now
        briefVersion := state.briefVersion + 1
        briefUpdatedAt := now
        briefUpdatedBy := options.updatedBy }
    writeBriefFile options.body
    writeState .updated updatedState
    return ⟨options.body, updatedState.briefVersion, updatedState.briefUpdatedAt,
      updatedState.briefUpdatedBy⟩

/-- Closing the room clears any active session. -/
def closeRoom (t : Nat) (now : Option Nat) : RoomProg μ RoomState := do
  let now ← dateNow now
  withWriterLock t do
    let state ← readRoomState
    let closed := { state with activeSession := none, status := .closed, updatedAt := now }
    writeState .closed closed
    return closed

structure StartActiveSessionOptions where
  roomId : String
  channelId : String
  startedBy : String
  expectedDurationM : Nat
  requestedMode : Option AttendancePolicy
  now : Option Nat

/-- A session that has not ended. -/
def RoomState.runningSession (state : RoomState) : Option ActiveSession :=
  state.activeSession.filter fun session => session.endedAt.isNone

def startActiveSession (t : Nat) (options : StartActiveSessionOptions) :
    RoomProg μ ActiveSession := do
  .ofExcept (assertSafeSlug options.roomId "room id")
  .ofExcept (assertSafeSlug options.startedBy "started by")
  let now ← dateNow options.now
  withWriterLock t do
    let state ← readRoomState
    if (RoomState.runningSession state).isSome then throw .activeSessionExists
    let session : ActiveSession :=
      { channelId := options.channelId
        startedAt := now
        expectedDurationM := options.expectedDurationM
        requestedMode := options.requestedMode
        startedBy := options.startedBy
        endedAt := none }
    writeState .started { state with updatedAt := now, activeSession := some session }
    return session

def endActiveSession (t : Nat) (roomId : String) (now : Option Nat) :
    RoomProg μ (Option ActiveSession) := do
  .ofExcept (assertSafeSlug roomId "room id")
  let now ← dateNow now
  withWriterLock t do
    let state ← readRoomState
    match RoomState.runningSession state with
    | none => return none
    | some session =>
        writeState .ended { state with activeSession := none, updatedAt := now }
        return some { session with endedAt := some now }

/-! ## Appending messages -/

structure AppendMessageOptions where
  roomId : String
  sender : String
  input : Json
  now : Option Nat
  maxMessages : Option Nat

structure AppendMessageResult where
  message : Message
  idempotent : Bool
deriving DecidableEq, Repr

def createMessage (input : ClientMessageInput) (id : Nat) (room sender : String)
    (roster : List String) (now : Nat) : Message :=
  buildMessage input
    { id, room, sender, now, mentions := parseMentions input.text roster, type := none }

/-- What an append does with the files it read: the stored message of a repeated
`client_msg_id`, or a new message, unless the log is full. -/
def decideAppend (state : RoomState) (participants : List Participant)
    (messages : List Message) (sender : String) (input : ClientMessageInput)
    (maxMessages : Option Nat) (now : Nat) : Except Failure AppendMessageResult :=
  let existing := input.clientMsgId.bind fun clientMsgId =>
    messages.find? fun message =>
      message.sender == sender && message.clientMsgId == some clientMsgId
  match existing with
  | some message => .ok ⟨message, true⟩
  | none =>
      if maxMessages.any fun limit => limit ≤ messages.length then .error .roomLogFull
      else .ok ⟨createMessage input state.nextMessageId state.id sender
        (participants.map (·.aliasName)) now, false⟩

/-- An append repeats a stored message of the sender, or builds a new one. -/
theorem decideAppend_cases {state : RoomState} {participants : List Participant}
    {messages : List Message} {sender : String} {input : ClientMessageInput}
    {maxMessages : Option Nat} {now : Nat} {result : AppendMessageResult}
    (h : decideAppend state participants messages sender input maxMessages now =
      .ok result) :
    (result.idempotent = true ∧ result.message ∈ messages ∧
      result.message.sender = sender ∧ input.clientMsgId.isSome ∧
      result.message.clientMsgId = input.clientMsgId) ∨
    (result.idempotent = false ∧ result.message = createMessage input state.nextMessageId
      state.id sender (participants.map (·.aliasName)) now) := by
  unfold decideAppend at h
  dsimp only at h
  split at h
  · rename_i message hfound
    obtain rfl := Except.ok.inj h
    obtain ⟨clientMsgId, hid, hfind⟩ := Option.bind_eq_some_iff.mp hfound
    have hmatch := List.find?_some hfind
    simp only [Bool.and_eq_true, beq_iff_eq] at hmatch
    exact .inl ⟨rfl, List.mem_of_find?_eq_some hfind, hmatch.1, by simp [hid],
      hmatch.2.trans hid.symm⟩
  · split_ifs at h
    obtain rfl := Except.ok.inj h
    exact .inr ⟨rfl, rfl⟩

/-- A client's message is not the system's. -/
theorem clientMessageInput_type {record : Json} {input : ClientMessageInput}
    (h : clientMessageInputFromRecord record = .ok input) : input.type ≠ some .system := by
  have htype : parseClientMessageType (record.field? "type") ≠ some .system := by
    unfold parseClientMessageType
    split <;> simp
  unfold clientMessageInputFromRecord at h
  dsimp only at h
  split at h
  · cases h
  obtain ⟨text, -, h⟩ := exists_ok_of_bind h
  obtain ⟨replyTo, -, h⟩ := exists_ok_of_bind h
  obtain ⟨clientMsgId, -, h⟩ := exists_ok_of_bind h
  obtain rfl := Except.ok.inj h
  exact htype

theorem decideAppend_type {state : RoomState} {participants : List Participant}
    {messages : List Message} {sender : String} {record : Json} {input : ClientMessageInput}
    {maxMessages : Option Nat} {now : Nat} {result : AppendMessageResult}
    (hinput : clientMessageInputFromRecord record = .ok input)
    (h : decideAppend state participants messages sender input maxMessages now = .ok result)
    (hnew : result.idempotent = false) : result.message.type ≠ .system := by
  have htype := clientMessageInput_type hinput
  rcases decideAppend_cases h with ⟨hrepeat, -⟩ | ⟨-, hmessage⟩
  · rw [hnew] at hrepeat
    cases hrepeat
  · rw [hmessage]
    intro hsystem
    apply htype
    cases hcase : input.type with
    | none => simp [createMessage, buildMessage, hcase] at hsystem
    | some type => simpa [createMessage, buildMessage, hcase] using hsystem

def appendMessageResult (t : Nat) (options : AppendMessageOptions) :
    RoomProg μ AppendMessageResult := do
  .ofExcept (assertSafeSlug options.roomId "room id")
  .ofExcept (assertSafeSlug options.sender "from")
  let input ← .ofExcept (clientMessageInputFromRecord options.input)
  let now ← dateNow options.now
  withWriterLock t do
    let state ← readRoomState
    let participants ← readParticipants
    let messages ← readJsonLines
    let result ← .ofExcept (decideAppend state participants messages options.sender input
      options.maxMessages now)
    if result.idempotent then return result
    appendJsonLine result.message
    writeState .appended
      { state with updatedAt := now, nextMessageId := result.message.id + 1 }
    return result

structure AppendServerMessageOptions where
  roomId : String
  sender : String
  text : String
  now : Option Nat

/-- The message a server append builds from the files it read. -/
def serverMessage (state : RoomState) (participants : List Participant)
    (sender text : String) (now : Nat) : Message :=
  buildMessage ⟨text, none, none, none⟩
    { id := state.nextMessageId, room := state.id, sender, now
      mentions := parseMentions text (participants.map (·.aliasName))
      type := some .system }

def appendServerMessage (t : Nat) (options : AppendServerMessageOptions) :
    RoomProg μ Message := do
  .ofExcept (assertSafeSlug options.roomId "room id")
  .ofExcept (assertSafeSlug options.sender "from")
  let now ← dateNow options.now
  withWriterLock t do
    let state ← readRoomState
    let participants ← readParticipants
    let message := serverMessage state participants options.sender options.text now
    appendJsonLine message
    writeState .appended { state with updatedAt := now, nextMessageId := message.id + 1 }
    return message

/-! ## Recovering the next id -/

def recoverNextMessageId (messages : List Message) : Nat :=
  messages.foldl (fun highest message => max highest message.id) 0 + 1

def recoverRoomState (t : Nat) : RoomProg μ RoomState :=
  withWriterLock t do
    let state ← readRoomState
    let messages ← readJsonLines
    let recoveredNextId := recoverNextMessageId messages
    if recoveredNextId ≤ state.nextMessageId then return state
    let recoveredState := { state with nextMessageId := recoveredNextId }
    writeState .recovered recoveredState
    return recoveredState

/-! ## The roster -/

/-- Replace the record of the same alias, or add one. -/
def upsertRecord (participants : List Participant) (participant : Participant) :
    List Participant :=
  match participants.findIdx? fun current => current.aliasName == participant.aliasName with
  | none => participants ++ [participant]
  | some index => participants.set index participant

def upsertParticipant (t : Nat) (participant : Participant) : RoomProg μ Unit := do
  .ofExcept (assertSafeSlug participant.aliasName "participant alias")
  withWriterLock t do
    let participants ← readParticipants
    writeParticipantsFile (upsertRecord participants participant)

def writeParticipants (t : Nat) (participants : List Participant) : RoomProg μ Unit := do
  .ofExcept (participants.forM fun p => assertSafeSlug p.aliasName "participant alias")
  withWriterLock t do
    writeParticipantsFile participants

/-- The record is live: it has not left, is in the foreground, was seen within the stale
window, and is not the joining session itself. -/
def isActivelyAttendedByOtherSession (existing : Participant) (now staleAfterMs : Nat)
    (incomingSessionId : Option String) : Bool :=
  existing.removedAt.isNone &&
    (existing.attention == .attending || existing.attention == .managed) &&
    now - existing.lastSeenAt ≤ staleAfterMs &&
    !(incomingSessionId.isSome && existing.sessionId == incomingSessionId)

/-- Whether the alias was attended by another session, decided with the write. -/
def joinParticipant (t : Nat) (participant : Participant) (staleAfterMs : Nat)
    (incomingSessionId : Option String) : RoomProg μ Bool := do
  .ofExcept (assertSafeSlug participant.aliasName "participant alias")
  let now ← dateNow none
  withWriterLock t do
    let participants ← readParticipants
    let existing := participants.find? fun current =>
      current.aliasName == participant.aliasName
    let duplicateActiveSession := existing.any fun existing =>
      isActivelyAttendedByOtherSession existing now staleAfterMs incomingSessionId
    writeParticipantsFile (upsertRecord participants participant)
    return duplicateActiveSession

end AgentGather.Storage
