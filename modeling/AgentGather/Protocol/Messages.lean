import AgentGather.Protocol.Mentions
import AgentGather.Library.Time

/-!
# Messages

Reading a client's message from the JSON it sent, building the stored message, and the
JSON it is stored as.
-/

namespace AgentGather.Protocol

open AgentGather.Library

def maxMessageTextLength : Nat := 24000

def maxClientMessageIdLength : Nat := 128

/-- `Number.MAX_SAFE_INTEGER`. -/
def maxSafeInteger : Nat := 2 ^ 53 - 1

/-- `/^[A-Za-z0-9._:-]+$/`. -/
def clientMessageIdPattern : Regex Char :=
  .seq .start (.seq (.plus (.char fun c => Text.isLower c || Text.isUpper c ||
    Text.isDigit c || c == '.' || c == '_' || c == ':' || c == '-')) .stop)

/-- An unknown type is ignored, and `system` is not a client's to use. -/
def parseClientMessageType : Option Json → Option MessageType
  | some (.str "message") => some .message
  | some (.str "question") => some .question
  | some (.str "reply") => some .reply
  | some (.str "status") => some .status
  | some (.str "request_review") => some .requestReview
  | some (.str "request_debug") => some .requestDebug
  | some (.str "handoff") => some .handoff
  | _ => none

def parsePositiveMessageId (value : Json) (label : String) : Except Failure Nat :=
  match value with
  | .num n =>
      if 0 < n ∧ n ≤ maxSafeInteger then .ok n.toNat
      else .error (.error (label ++ " must be a positive safe integer"))
  | _ => .error (.error (label ++ " must be a positive safe integer"))

def parseClientMessageId (value : Json) : Except Failure String :=
  let invalid : Except Failure String := .error (.error ("client_msg_id must be 1-" ++
    toString maxClientMessageIdLength ++
    " chars using letters, numbers, dot, underscore, colon, or dash"))
  match value with
  | .str s =>
      if 0 < Text.utf16Length s.toList ∧
          Text.utf16Length s.toList ≤ maxClientMessageIdLength ∧
          clientMessageIdPattern.test s.toList = true then .ok s
      else invalid
  | _ => invalid

/-- Whether a JSON value is an object to `typeof`: arrays are, `null` is excluded. -/
def isObject : Json → Bool
  | .obj _ => true
  | .arr _ => true
  | _ => false

def parseMessageText : Option Json → Except Failure String
  | some (.str text) =>
      if (Text.trim text.toList).isEmpty then .error (.error "message text is required")
      else if maxMessageTextLength < Text.utf16Length text.toList then
        .error (.error ("message text must be <= " ++ toString maxMessageTextLength ++
          " characters"))
      else .ok text
  | _ => .error (.error "message text is required")

/-- A field that may be absent. -/
def parseOptional {α : Type} (parse : Json → Except Failure α) :
    Option Json → Except Failure (Option α)
  | none => .ok none
  | some value => some <$> parse value

def clientMessageInputFromRecord (record : Json) : Except Failure ClientMessageInput := do
  if !isObject record then throw (.error "message input must be an object")
  let text ← parseMessageText (record.field? "text")
  let type := parseClientMessageType (record.field? "type")
  let replyTo ← parseOptional (parsePositiveMessageId · "reply_to") (record.field? "reply_to")
  let clientMsgId ← parseOptional parseClientMessageId (record.field? "client_msg_id")
  return { text, type, replyTo, clientMsgId }

structure BuildMessageOptions where
  id : Nat
  room : String
  sender : String
  now : Nat
  mentions : List String
  type : Option MessageType

def buildMessage (input : ClientMessageInput) (options : BuildMessageOptions) : Message where
  id := options.id
  room := options.room
  ts := options.now
  sender := options.sender
  type := (options.type.or input.type).getD .message
  text := input.text
  replyTo := input.replyTo
  clientMsgId := input.clientMsgId
  mentions := options.mentions

def MessageType.name : MessageType → String
  | .message => "message"
  | .question => "question"
  | .reply => "reply"
  | .status => "status"
  | .requestReview => "request_review"
  | .requestDebug => "request_debug"
  | .handoff => "handoff"
  | .system => "system"

/-- The message as a JSON object, its keys in the order they were assigned. -/
def Message.toJson (message : Message) : Json :=
  .obj (("id", .num message.id) :: ("room", .str message.room) ::
    ("ts", .str (Time.isoString message.ts)) :: ("from", .str message.sender) ::
    ("type", .str message.type.name) :: ("text", .str message.text) ::
    ("mentions", .arr (message.mentions.map .str)) ::
    (message.replyTo.toList.map (fun (id : Nat) => ("reply_to", Json.num id)) ++
      message.clientMsgId.toList.map fun clientMsgId => ("client_msg_id", Json.str clientMsgId)))

end AgentGather.Protocol
