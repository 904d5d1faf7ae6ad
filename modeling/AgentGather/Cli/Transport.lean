import AgentGather.Server.Sending
import AgentGather.Server.Calls

/-!
# Sending from the command line

`send` and `reply` post to the room server, and append to the local home themselves when
no room server answered.  The two ways agree exactly when that direct append is made in a
state the server would accept and the server has not stored the message already.
-/

namespace AgentGather.Cli

open AgentGather.Library AgentGather.Protocol AgentGather.Storage AgentGather.Server

structure CurrentRoom where
  roomId : String
  aliasName : String
  token : String

/-- How the attempt to reach the server ends: its answer arrives, or is lost after the
server has processed the request; something on the way refuses the request, or answers
with a 404; nothing is reached.  A lost answer and an unreachable server reject with a
`TypeError`. -/
inductive HttpAttempt where
  | answered
  | lost
  | refused (message : String)
  | notFound
  | unreachable

inductive SendMessageResult where
  | remote (reply : Reply)
  | direct (result : AppendMessageResult)

/-- `null` stands for a 404 and for a `TypeError`. -/
def requestJson (endpoint : Handler) :
    HttpAttempt → RoomProg ServerMemory (Option Reply)
  | .answered => endpoint.bind fun reply => .ret (some reply)
  | .lost => (endpoint.bind fun _ => .ret none).catchErr fun _ => .ret none
  | .refused message => .err (.error message)
  | .notFound => .ret none
  | .unreachable => .ret none

/-- The request as the server reads it. -/
def CurrentRoom.request (current : CurrentRoom) (input : Json) : Request :=
  ⟨some current.token, .ok input, []⟩

/-- The direct append, without a limit on the log. -/
def CurrentRoom.options (current : CurrentRoom) (input : Json) : AppendMessageOptions :=
  ⟨current.roomId, current.aliasName, input, none, none⟩

/-- The server takes the writer lock as caller `s`, the command as caller `t`. -/
def sendMessage (s t : Nat) (o : ServerOptions) (current : CurrentRoom)
    (attempt : HttpAttempt) (input : Json) : RoomProg ServerMemory SendMessageResult := do
  match ← requestJson (postMessage s o (current.request input)) attempt with
  | some reply => return .remote reply
  | none =>
      let result ← appendMessageResult t (current.options input)
      return .direct result

/-- What `send` and `reply` send. -/
inductive Command where
  | send (target text : String) (clientMsgId : Option String)
  | reply (messageId : Nat) (text : String) (clientMsgId : Option String)

def Command.input : Command → Json
  | .send target text clientMsgId =>
      .obj (("text", .str ("@" ++ target ++ " " ++ text)) ::
        clientMsgId.toList.map fun id => ("client_msg_id", .str id))
  | .reply messageId text clientMsgId =>
      .obj (("type", .str "reply") :: ("text", .str text) :: ("reply_to", .num messageId) ::
        clientMsgId.toList.map fun id => ("client_msg_id", .str id))

/-! ## What the command should do -/

section Sending

variable (s t : Nat) (o : ServerOptions) (current : CurrentRoom) (attempt : HttpAttempt)
  (input : Json) (w : World ServerMemory)

/-- The world the direct append starts in, if the command comes to it. -/
def fallbackStart : Option (World ServerMemory) :=
  match attempt with
  | .answered => none
  | .refused _ => none
  | .lost => some ((postMessage s o (current.request input)).runAlone w).2
  | .notFound => some w
  | .unreachable => some w

/-- The world behind the command. -/
def sentWorld : World ServerMemory := ((sendMessage s t o current attempt input).runAlone w).2

/-- The command stores at most one message, and directly only what the server would have
accepted. -/
structure AgreesWithServer : Prop where
  atMostOne : sentCount (sentWorld s t o current attempt input w).files ≤
    sentCount w.files + 1
  accepted : ∀ start, fallbackStart s o current attempt input w = some start →
    sentCount start.files < sentCount (sentWorld s t o current attempt input w).files →
    Accepts o start.files start.clock current.aliasName

/-- The files are readable, and the input is a message that no stored message of the
alias repeats. -/
structure Appendable (f : RoomFiles) : Prop where
  room : assertSafeSlug current.roomId "room id" = .ok ()
  sender : assertSafeSlug current.aliasName "from" = .ok ()
  state : ∃ state, f.state = .whole state
  roster : ∃ participants, f.participants = .whole participants
  fresh : ∃ parsed messages, clientMessageInputFromRecord input = .ok parsed ∧
    f.messages = .whole messages ∧ ∀ id, parsed.clientMsgId = some id →
      ∀ m ∈ messages, m.sender = current.aliasName → m.clientMsgId ≠ some id

/-- Where the command comes to append directly, the room accepts messages and the server
has stored none. -/
def FallsBackSafely : Prop :=
  ∀ start, fallbackStart s o current attempt input w = some start →
    Appendable current input start.files →
    Accepts o start.files start.clock current.aliasName ∧
      sentCount start.files = sentCount w.files

end Sending

/-! ## The direct append -/

variable {s t : Nat} {o : ServerOptions} {current : CurrentRoom} {attempt : HttpAttempt}
  {input : Json} {w start : World ServerMemory}

theorem appendDecision_of_appendable {f : RoomFiles} {clock : Nat}
    (h : Appendable current input f) : ∃ state result,
    appendDecision (current.options input) clock f = .ok (state, result) ∧
      result.idempotent = false := by
  obtain ⟨hroom, hsender, ⟨raw, hraw⟩, ⟨participants, hroster⟩, parsed, messages, hinput, hlog,
    hfresh⟩ := h
  have hnone : (parsed.clientMsgId.bind fun id => messages.find? fun m =>
      m.sender == current.aliasName && m.clientMsgId == some id) = none := by
    cases hid : parsed.clientMsgId with
    | none => rfl
    | some id =>
        rw [Option.bind_some, List.find?_eq_none]
        intro m hm
        simpa using hfresh id hid m hm
  refine ⟨withRoomDefaults raw, ⟨createMessage parsed (withRoomDefaults raw).nextMessageId
    (withRoomDefaults raw).id current.aliasName (participants.map (·.aliasName)) clock, false⟩,
    ?_, rfl⟩
  simp only [appendDecision, CurrentRoom.options, hroom, hsender, hinput, hraw, hroster, hlog,
    Stored.read, bind, Except.bind, decideAppend, hnone, Option.any_none]
  rfl

theorem appendable_of_appendDecision {f : RoomFiles} {clock : Nat} {state : RoomState}
    {result : AppendMessageResult}
    (h : appendDecision (current.options input) clock f = .ok (state, result))
    (hnew : result.idempotent = false) : Appendable current input f := by
  obtain ⟨parsed, raw, participants, messages, hroom, hsender, hinput, hraw, -, hroster, hlog,
    hresult⟩ := appendDecision_ok h
  refine ⟨hroom, hsender, ⟨raw, Stored.eq_whole_of_read hraw⟩,
    ⟨participants, Stored.eq_whole_of_read hroster⟩, parsed, messages, hinput,
    Stored.eq_whole_of_read hlog, ?_⟩
  intro id hid m hm hsent hm'
  have hfound : (messages.find? fun m =>
      m.sender == (current.options input).sender && m.clientMsgId == some id).isSome := by
    rw [List.find?_isSome]
    exact ⟨m, hm, by simp [hm', hsent, CurrentRoom.options]⟩
  obtain ⟨found, hfound⟩ := Option.isSome_iff_exists.mp hfound
  simp only [decideAppend, hid, Option.bind_some, hfound] at hresult
  obtain rfl := Except.ok.inj hresult
  cases hnew

/-- The direct append stores a message exactly when it is appendable. -/
theorem append_sent (t : Nat) (current : CurrentRoom) (input : Json)
    (start : World ServerMemory) :
    (Appendable current input start.files ∧
      sentCount ((appendMessageResult t (current.options input)).runAlone start).2.files =
        sentCount start.files + 1) ∨
    (¬ Appendable current input start.files ∧
      sentCount ((appendMessageResult t (current.options input)).runAlone start).2.files =
        sentCount start.files) := by
  have houtcome := (appendMessageResult_alone t (current.options input) start).1
  rcases appendMessageResult_sent t (current.options input) start with
    ⟨result, hok, hnew, hsent⟩ | ⟨hrepeat, hsent⟩
  · rw [hok] at houtcome
    cases hdecision : appendDecision (current.options input) start.clock start.files with
    | error e => rw [hdecision] at houtcome; cases houtcome
    | ok decided =>
        rw [hdecision] at houtcome
        obtain rfl : result = decided.2 := Except.ok.inj houtcome
        exact .inl ⟨appendable_of_appendDecision hdecision hnew, hsent⟩
  · refine .inr ⟨fun happendable => ?_, hsent⟩
    obtain ⟨state, result, hdecision, hnew⟩ :=
      @appendDecision_of_appendable current input start.files start.clock happendable
    rw [hdecision] at houtcome
    rw [hrepeat result houtcome] at hnew
    cases hnew

/-! ## The command -/

/-- Without an answer the command ends with the direct append. -/
theorem sentWorld_fallback (h : fallbackStart s o current attempt input w = some start) :
    sentWorld s t o current attempt input w =
      ((appendMessageResult t (current.options input)).runAlone start).2 := by
  have hdirect : ((requestJson (postMessage s o (current.request input)) attempt).runAlone w) =
      (.ok none, start) := by
    cases attempt with
    | answered => cases h
    | refused message => cases h
    | notFound => exact congrArg (Prod.mk _) (Option.some.inj h)
    | unreachable => exact congrArg (Prod.mk _) (Option.some.inj h)
    | lost =>
        obtain rfl := Option.some.inj h
        rw [requestJson, Prog.runAlone_catchErr, Prog.runAlone_bind]
        rcases (postMessage s o (current.request input)).runAlone w with ⟨r, w'⟩
        cases r <;> rfl
  rw [sentWorld, sendMessage, Prog.bind_eq_bind, Prog.runAlone_bind, hdirect]
  simp only [Prog.bind_eq_bind]
  rw [Prog.runAlone_bind]
  rcases (appendMessageResult t (current.options input)).runAlone start with ⟨r, w'⟩
  cases r <;> rfl

/-- The server stores one message, or none. -/
theorem postMessage_sent (s : Nat) (o : ServerOptions) (req : Request)
    (w : World ServerMemory) :
    sentCount ((postMessage s o req).runAlone w).2.files = sentCount w.files ∨
      sentCount ((postMessage s o req).runAlone w).2.files = sentCount w.files + 1 := by
  rcases @postMessage_sendsOne s o req w with ⟨message, -, hsent⟩ | ⟨-, hsent⟩
  · exact .inr hsent
  · exact .inl hsent

/-- With an answer it stores what the server stores. -/
theorem sentWorld_answered (h : fallbackStart s o current attempt input w = none) :
    sentCount (sentWorld s t o current attempt input w).files ≤ sentCount w.files + 1 := by
  cases attempt with
  | lost => cases h
  | notFound => cases h
  | unreachable => cases h
  | refused message => exact Nat.le_succ _
  | answered =>
      have hserver : sentWorld s t o current .answered input w =
          ((postMessage s o (current.request input)).runAlone w).2 := by
        rw [sentWorld, sendMessage, requestJson, Prog.bind_eq_bind, Prog.runAlone_bind,
          Prog.runAlone_bind]
        rcases (postMessage s o (current.request input)).runAlone w with ⟨r, w'⟩
        cases r <;> rfl
      rw [hserver]
      have hsent := postMessage_sent s o (current.request input) w
      omega

/-- Without an answer the server may have stored the message all the same. -/
theorem fallbackStart_sent (h : fallbackStart s o current attempt input w = some start) :
    sentCount start.files = sentCount w.files ∨
      sentCount start.files = sentCount w.files + 1 := by
  cases attempt with
  | answered => cases h
  | refused message => cases h
  | notFound =>
      obtain rfl := Option.some.inj h
      exact .inl rfl
  | unreachable =>
      obtain rfl := Option.some.inj h
      exact .inl rfl
  | lost =>
      obtain rfl := Option.some.inj h
      exact postMessage_sent s o (current.request input) w

/-- A command stores at most one message, and directly only what the server would have
accepted, if and only if it comes to append directly only where the room accepts messages
and the server has stored none. -/
theorem agreesWithServer_iff (s t : Nat) (o : ServerOptions) (current : CurrentRoom)
    (attempt : HttpAttempt) (input : Json) (w : World ServerMemory) :
    AgreesWithServer s t o current attempt input w ↔
      FallsBackSafely s o current attempt input w := by
  constructor
  · intro hagrees start hstart happendable
    have hworld := sentWorld_fallback (t := t) hstart
    have hone := hagrees.atMostOne
    have haccepted := hagrees.accepted start hstart
    have hbefore := fallbackStart_sent hstart
    rw [hworld] at hone haccepted
    rcases append_sent t current input start with ⟨-, hsent⟩ | ⟨hnot, -⟩
    · exact ⟨haccepted (by omega), by omega⟩
    · exact absurd happendable hnot
  · intro hsafe
    cases hstart : fallbackStart s o current attempt input w with
    | none =>
        exact ⟨sentWorld_answered hstart, fun start h => by rw [hstart] at h; cases h⟩
    | some start =>
        have hbefore := fallbackStart_sent hstart
        rcases append_sent t current input start with ⟨happendable, hsent⟩ | ⟨-, hsent⟩
        · obtain ⟨haccepts, hnone⟩ := hsafe start hstart happendable
          constructor
          · rw [sentWorld_fallback hstart]
            omega
          · intro found hfound _
            obtain rfl := Option.some.inj (hstart.symm.trans hfound)
            exact haccepts
        · constructor
          · rw [sentWorld_fallback hstart]
            omega
          · intro found hfound hgrows
            obtain rfl := Option.some.inj (hstart.symm.trans hfound)
            rw [sentWorld_fallback hstart] at hgrows
            omega

/-- The room is closed. -/
def closedState : RoomState :=
  { CreateRoomOptions.state ⟨"r", "host", some 0, none, none, none⟩ 0 with status := .closed }

/-- The home of a closed room whose server is not running. -/
def closedRoom : World ServerMemory :=
  ⟨{ openRoom with state := .whole closedState }, none, 0, .initial⟩

/-- A command appends to a room that takes no messages. -/
theorem sendMessage_appends_to_closed_room :
    ¬ ∀ (current : CurrentRoom) (attempt : HttpAttempt) (command : Command)
        (w : World ServerMemory),
      AgreesWithServer 0 1 smallServer current attempt command.input w := by
  intro h
  have hagrees := h ⟨"r", "agent", "bb"⟩ .unreachable (.send "host" "late" none) closedRoom
  obtain ⟨state, hstate, hopen, -⟩ := (hagrees.accepted closedRoom rfl (by decide)).opened
  have hclosed : closedState = state := Stored.whole.inj hstate
  rw [← hclosed] at hopen
  cases hopen

end AgentGather.Cli
