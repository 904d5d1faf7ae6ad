import AgentGather.Library.JsonLines
import AgentGather.Storage.Alone

/-!
# The log as bytes

`messages.jsonl` is appended to in place, and a crash or a full disk may cut the write of
a line short at any byte.  The acknowledged messages stay readable, and the room stays
usable, exactly when nothing or all of the line was written.
-/

namespace AgentGather.Storage

open AgentGather.Library AgentGather.Protocol

/-- A room whose log is kept as bytes. -/
structure LogRoom where
  state : RoomState
  participants : List Participant
  log : List Nat

inductive AppendCall where
  | message (options : AppendMessageOptions)
  | server (options : AppendServerMessageOptions)

/-- What an append goes on with: a stored line it repeats, or a new message. -/
inductive AppendDecision where
  | repeats (stored : Json)
  | adds (message : Message) (now : Nat)

/-- `readJsonLines` on the bytes. -/
def readLines (log : List Nat) : Except Failure (List Json) :=
  match JsonLines.read log with
  | some lines => .ok lines
  | none => .error .malformedJson

def isText (value : Option Json) (text : String) : Bool :=
  match value with
  | some (.str s) => s == text
  | _ => false

/-- The line of a stored message of the sender under the client's id. -/
def findStored (lines : List Json) (sender clientMsgId : String) : Option Json :=
  lines.find? fun stored =>
    isText (stored.field? "from") sender && isText (stored.field? "client_msg_id") clientMsgId

/-- The part of an append before its line is written. -/
def LogRoom.decide (room : LogRoom) (clock : Nat) : AppendCall → Except Failure AppendDecision
  | .message options => do
      assertSafeSlug options.roomId "room id"
      assertSafeSlug options.sender "from"
      let input ← clientMessageInputFromRecord options.input
      let now := options.now.getD clock
      let state := withRoomDefaults room.state
      let lines ← readLines room.log
      match input.clientMsgId.bind (findStored lines options.sender) with
      | some stored => return .repeats stored
      | none =>
          if options.maxMessages.any fun limit => limit ≤ lines.length then
            throw .roomLogFull
          return .adds (createMessage input state.nextMessageId state.id options.sender
            (room.participants.map (·.aliasName)) now) now
  | .server options => do
      assertSafeSlug options.roomId "room id"
      assertSafeSlug options.sender "from"
      let now := options.now.getD clock
      let state := withRoomDefaults room.state
      return .adds (serverMessage state room.participants options.sender options.text now) now

/-- The bytes of a message's line. -/
def lineBytes (message : Message) : List Nat := JsonLines.bytes [message.toJson]

/-- An append; `cut` says after how many bytes the write of the line stopped. -/
def LogRoom.append (room : LogRoom) (clock : Nat) (cut : Option Nat) (call : AppendCall) :
    Except Failure Json × LogRoom :=
  match room.decide clock call with
  | .error e => (.error e, room)
  | .ok (.repeats stored) => (.ok stored, room)
  | .ok (.adds message now) =>
      match cut with
      | some k => (.error .os, { room with log := room.log ++ (lineBytes message).take k })
      | none => (.ok message.toJson, { room with
          log := room.log ++ lineBytes message
          state := { withRoomDefaults room.state with
            updatedAt := now
            nextMessageId := message.id + 1 } })

/-- Appends at given times: what was acknowledged, and the room they leave. -/
def LogRoom.appendAll (room : LogRoom) : List (Nat × AppendCall) → List Json × LogRoom
  | [] => ([], room)
  | (clock, call) :: calls =>
      let (outcome, next) := room.append clock none call
      let (acked, last) := next.appendAll calls
      (outcome.toOption.toList ++ acked, last)

/-! ## Reading back -/

theorem record_toJson (message : Message) : JsonLines.Record message.toJson where
  valid := by
    have hitems (xs : List String) : Json.ValidItems (xs.map .str) := by
      induction xs with
      | nil => trivial
      | cons x xs ih => exact ⟨trivial, ih⟩
    rcases message with ⟨id, room, ts, sender, type, text, replyTo, clientMsgId, mentions⟩
    cases replyTo <;> cases clientMsgId <;>
      simp [Message.toJson, Json.Valid, Json.ValidFields, hitems]
  object := ⟨_, _, _, 'i', ['d'], rfl, rfl, rfl⟩

theorem records_toJson (messages : List Message) :
    ∀ v ∈ messages.map Message.toJson, JsonLines.Record v := by
  intro v hv
  obtain ⟨m, -, rfl⟩ := List.mem_map.mp hv
  exact record_toJson m

/-- The bytes of a log of whole lines. -/
def logBytes (messages : List Message) : List Nat :=
  JsonLines.bytes (messages.map Message.toJson)

theorem logBytes_append (u v : List Message) : logBytes (u ++ v) = logBytes u ++ logBytes v := by
  rw [logBytes, List.map_append, JsonLines.bytes_append]
  rfl

/-- A log of whole lines is read. -/
theorem readLines_logBytes (messages : List Message) :
    readLines (logBytes messages) = .ok (messages.map Message.toJson) := by
  rw [readLines, logBytes, JsonLines.read_bytes (records_toJson messages)]

/-- A log with a line behind a torn one is not. -/
theorem readLines_torn (messages next : List Message) (message : Message) (hne : next ≠ [])
    {k : Nat} (hpos : 0 < k) (hlt : k < (lineBytes message).length) :
    readLines (logBytes messages ++ ((lineBytes message).take k ++ logBytes next)) =
      .error .malformedJson := by
  rw [readLines, logBytes, lineBytes, logBytes,
    JsonLines.read_torn (records_toJson messages) (record_toJson message)
      (records_toJson next) (by simpa using hne) hpos hlt]

/-! ## The bytes and the storage layer's log -/

/-- The room's bytes are those of the files' log. -/
structure LogRoom.Represents (room : LogRoom) (f : RoomFiles) (messages : List Message) :
    Prop where
  state : f.state = .whole room.state
  participants : f.participants = .whole room.participants
  lines : f.messages = .whole messages
  log : room.log = logBytes messages

theorem isText_from (message : Message) (text : String) :
    isText (message.toJson.field? "from") text = (message.sender == text) := by
  rcases message with ⟨id, room, ts, sender, type, body, replyTo, clientMsgId, mentions⟩
  cases replyTo <;> cases clientMsgId <;> rfl

theorem isText_clientMsgId (message : Message) (text : String) :
    isText (message.toJson.field? "client_msg_id") text =
      (message.clientMsgId == some text) := by
  rcases message with ⟨id, room, ts, sender, type, body, replyTo, clientMsgId, mentions⟩
  cases replyTo <;> cases clientMsgId <;> rfl

/-- Stored messages are found among the lines as they are found in the log. -/
theorem findStored_toJson (messages : List Message) (sender clientMsgId : String) :
    findStored (messages.map Message.toJson) sender clientMsgId =
      (messages.find? fun message =>
        message.sender == sender && message.clientMsgId == some clientMsgId).map
        Message.toJson := by
  rw [findStored, List.find?_map]
  simp only [Function.comp_def, isText_from, isText_clientMsgId]

/-- What the bytes lead to is what the log leads to. -/
theorem decide_represents {room : LogRoom} {f : RoomFiles} {messages : List Message}
    (h : room.Represents f messages) (clock : Nat) (options : AppendMessageOptions) :
    room.decide clock (.message options) =
      (appendDecision options clock f).map fun decided =>
        if decided.2.idempotent then .repeats decided.2.message.toJson
        else .adds decided.2.message (options.now.getD clock) := by
  simp only [LogRoom.decide, appendDecision, h.state, h.participants, h.lines, h.log,
    readLines_logBytes, Stored.read]
  cases assertSafeSlug options.roomId "room id" with
  | error e => rfl
  | ok _ =>
    cases assertSafeSlug options.sender "from" with
    | error e => rfl
    | ok _ =>
      cases clientMessageInputFromRecord options.input with
      | error e => rfl
      | ok input =>
        have hfound : input.clientMsgId.bind
            (findStored (messages.map Message.toJson) options.sender) =
            (input.clientMsgId.bind fun clientMsgId => messages.find? fun message =>
              message.sender == options.sender &&
                message.clientMsgId == some clientMsgId).map Message.toJson := by
          cases input.clientMsgId with
          | none => rfl
          | some clientMsgId => exact findStored_toJson messages options.sender clientMsgId
        simp only [bind, Except.bind, decideAppend, hfound, List.length_map]
        cases input.clientMsgId.bind fun clientMsgId => messages.find? fun message =>
            message.sender == options.sender && message.clientMsgId == some clientMsgId with
        | some stored => rfl
        | none =>
            simp only [Option.map_none]
            split
            · rfl
            · rfl

/-- The append on bytes is the append of the storage layer: the same outcome, and bytes
that still are those of the log. -/
theorem append_represents {μ : Type} {room : LogRoom} {w : World μ}
    {messages : List Message} (h : room.Represents w.files messages) (t : Nat)
    (options : AppendMessageOptions) :
    (room.append w.clock none (.message options)).1 =
        (((appendMessageResult t options).runAlone w).1.map fun result =>
          result.message.toJson) ∧
      ∃ after, (room.append w.clock none (.message options)).2.Represents
        ((appendMessageResult t options).runAlone w).2.files after := by
  obtain ⟨houtcome, hfiles⟩ := appendMessageResult_alone t options w
  rw [houtcome, hfiles]
  have hdecide := decide_represents h w.clock options
  unfold LogRoom.append
  cases hdecision : appendDecision options w.clock w.files with
  | error e =>
      rw [hdecision] at hdecide
      rw [hdecide]
      exact ⟨rfl, messages, h⟩
  | ok decided =>
      rw [hdecision] at hdecide
      rw [hdecide]
      rcases decided with ⟨state, result⟩
      cases hrepeat : result.idempotent with
      | true =>
          simp only [Except.map, hrepeat, if_true, RoomFiles.appended]
          exact ⟨trivial, messages, h⟩
      | false =>
          obtain ⟨-, raw, -, -, -, -, -, hraw, rfl, -⟩ := appendDecision_ok hdecision
          rw [h.state] at hraw
          obtain rfl : room.state = raw := Except.ok.inj hraw
          simp only [Except.map, hrepeat, if_neg Bool.false_ne_true, RoomFiles.appended]
          refine ⟨trivial, messages ++ [result.message], rfl, h.participants, ?_, ?_⟩
          · rw [RoomFiles.log, h.lines]
          · rw [h.log, logBytes_append]
            rfl

/-! ## Appends behind any log -/

section Decisions

variable {room : LogRoom} {clock : Nat} {options : AppendMessageOptions}

/-- A client's append reads the log first; what it repeats is in the log. -/
theorem decide_message {decision : AppendDecision}
    (h : room.decide clock (.message options) = .ok decision) :
    ∃ lines, readLines room.log = .ok lines ∧
      ∀ stored, decision = .repeats stored → stored ∈ lines := by
  obtain ⟨-, -, h⟩ := exists_ok_of_bind h
  obtain ⟨-, -, h⟩ := exists_ok_of_bind h
  obtain ⟨input, -, h⟩ := exists_ok_of_bind h
  obtain ⟨lines, hlines, h⟩ := exists_ok_of_bind h
  refine ⟨lines, hlines, ?_⟩
  rintro stored rfl
  split at h
  · rename_i found hfound
    obtain rfl : found = stored := by
      injection h with h
      injection h
    obtain ⟨clientMsgId, -, hfind⟩ := Option.bind_eq_some_iff.mp hfound
    exact List.mem_of_find?_eq_some hfind
  · dsimp only at h
    split at h
    · cases h
    · cases h

theorem decide_server_ne_repeats {options : AppendServerMessageOptions} {stored : Json} :
    room.decide clock (.server options) ≠ .ok (.repeats stored) := by
  intro h
  obtain ⟨-, -, h⟩ := exists_ok_of_bind h
  obtain ⟨-, -, h⟩ := exists_ok_of_bind h
  cases h

end Decisions

/-- An append that runs through adds the line it acknowledges, or leaves the room and
acknowledges at most a line that it read. -/
theorem append_whole (room : LogRoom) (clock : Nat) (call : AppendCall) :
    (∃ message now, room.decide clock call = .ok (.adds message now) ∧
      (room.append clock none call).1 = .ok message.toJson ∧
      (room.append clock none call).2.log = room.log ++ logBytes [message]) ∨
    ((room.append clock none call).2 = room ∧
      ∀ stored, (room.append clock none call).1 = .ok stored →
        ∃ lines, readLines room.log = .ok lines ∧ stored ∈ lines) := by
  unfold LogRoom.append
  cases hdecide : room.decide clock call with
  | error e => exact .inr ⟨rfl, fun stored h => nomatch h⟩
  | ok decision =>
      cases decision with
      | adds message now => exact .inl ⟨message, now, rfl, rfl, rfl⟩
      | repeats found =>
          refine .inr ⟨rfl, ?_⟩
          rintro stored ⟨⟩
          cases call with
          | message options =>
              obtain ⟨lines, hlines, hmem⟩ := decide_message hdecide
              exact ⟨lines, hlines, hmem found rfl⟩
          | server options => exact absurd hdecide decide_server_ne_repeats

/-- Appends that run through add whole lines. -/
theorem appendAll_log (room : LogRoom) (calls : List (Nat × AppendCall)) :
    ∃ added, (room.appendAll calls).2.log = room.log ++ logBytes added := by
  induction calls generalizing room with
  | nil => exact ⟨[], (List.append_nil _).symm⟩
  | cons c calls ih =>
      obtain ⟨added, hadded⟩ := ih (room.append c.1 none c.2).2
      rcases append_whole room c.1 c.2 with ⟨message, now, -, -, hlog⟩ | ⟨hroom, -⟩
      · refine ⟨message :: added, hadded.trans ?_⟩
        rw [hlog, List.append_assoc, ← logBytes_append]
        rfl
      · exact ⟨added, hadded.trans (by rw [hroom])⟩

/-- On a log of whole lines, every acknowledged message is one of them. -/
theorem appendAll_acked {messages : List Message} (room : LogRoom)
    (hlog : room.log = logBytes messages) (calls : List (Nat × AppendCall)) :
    ∃ added, (room.appendAll calls).2.log = logBytes (messages ++ added) ∧
      ∀ line ∈ (room.appendAll calls).1, line ∈ (messages ++ added).map Message.toJson := by
  induction calls generalizing room messages with
  | nil => exact ⟨[], by rw [List.append_nil]; exact hlog, fun line h => nomatch h⟩
  | cons c calls ih =>
      have hacked : (room.appendAll (c :: calls)).1 =
          (room.append c.1 none c.2).1.toOption.toList ++
            ((room.append c.1 none c.2).2.appendAll calls).1 := rfl
      rcases append_whole room c.1 c.2 with ⟨message, now, -, hok, hnext⟩ | ⟨hroom, hstored⟩
      · rw [hlog, ← logBytes_append] at hnext
        obtain ⟨added, hadded, hlines⟩ := ih _ hnext
        refine ⟨message :: added, ?_, ?_⟩
        · rw [show messages ++ message :: added = messages ++ [message] ++ added by simp]
          exact hadded
        · intro line hline
          rw [hacked, hok] at hline
          rcases List.mem_append.mp hline with hline | hline
          · obtain rfl : line = message.toJson := by simpa [Except.toOption] using hline
            simp
          · have hmem := hlines line hline
            simpa using hmem
      · obtain ⟨added, hadded, hlines⟩ := ih (room.append c.1 none c.2).2 (hroom ▸ hlog)
        refine ⟨added, hadded, ?_⟩
        intro line hline
        rw [hacked] at hline
        rcases List.mem_append.mp hline with hline | hline
        · cases hok : (room.append c.1 none c.2).1 with
          | error e => simp [hok, Except.toOption] at hline
          | ok stored =>
              obtain rfl : line = stored := by simpa [hok, Except.toOption] using hline
              obtain ⟨lines, hread, hmem⟩ := hstored _ hok
              rw [hlog, readLines_logBytes] at hread
              obtain rfl := Except.ok.inj hread
              rw [List.map_append]
              exact List.mem_append_left _ hmem
        · exact hlines line hline

/-! ## Durability -/

/-- The log is read, and every one of these lines is in it. -/
def LogRoom.Reads (room : LogRoom) (lines : List Json) : Prop :=
  ∃ found, readLines room.log = .ok found ∧ ∀ line ∈ lines, line ∈ found

/-- Some client's append adds a message that is then read with these lines. -/
def LogRoom.CanAppend (room : LogRoom) (lines : List Json) : Prop :=
  ∃ clock options message now,
    room.decide clock (.message options) = .ok (.adds message now) ∧
    (room.append clock none (.message options)).2.Reads (message.toJson :: lines)

/-- The acknowledged lines are read, and can be after another append. -/
def LogRoom.Durable (room : LogRoom) (acked : List Json) : Prop :=
  room.Reads acked ∧ room.CanAppend acked

theorem append_adds {room : LogRoom} {clock now : Nat} {call : AppendCall}
    {message : Message} (h : room.decide clock call = .ok (.adds message now))
    (cut : Option Nat) :
    (room.append clock cut call).2.log = room.log ++ match cut with
      | none => logBytes [message]
      | some k => (lineBytes message).take k := by
  rw [LogRoom.append, h]
  cases cut with
  | none => rfl
  | some k => rfl

/-- A short text can be appended to any room whose log is read. -/
theorem decide_hello {room : LogRoom} {lines : List Json}
    (hlines : readLines room.log = .ok lines) : ∃ clock options message now,
    room.decide clock (.message options) = .ok (.adds message now) := by
  have hslug : assertSafeSlug "r" "room id" = .ok () := by decide
  have hsender : assertSafeSlug "host" "from" = .ok () := by decide
  have hinput : clientMessageInputFromRecord (.obj [("text", .str "hello")]) =
      .ok ⟨"hello", none, none, none⟩ := by decide
  refine ⟨0, ⟨"r", "host", .obj [("text", .str "hello")], none, none⟩,
    createMessage ⟨"hello", none, none, none⟩ (withRoomDefaults room.state).nextMessageId
      (withRoomDefaults room.state).id "host" (room.participants.map (·.aliasName)) 0, 0, ?_⟩
  simp only [LogRoom.decide, hslug, hsender, hinput, hlines]
  rfl

/-- A log of whole lines is durable. -/
theorem durable_whole {room : LogRoom} {messages : List Message} {acked : List Json}
    (hlog : room.log = logBytes messages)
    (hacked : ∀ line ∈ acked, line ∈ messages.map Message.toJson) : room.Durable acked := by
  have hread : readLines room.log = .ok (messages.map Message.toJson) := by
    rw [hlog, readLines_logBytes]
  refine ⟨⟨_, hread, hacked⟩, ?_⟩
  obtain ⟨clock, options, message, now, hdecide⟩ := decide_hello hread
  refine ⟨clock, options, message, now, hdecide, (messages ++ [message]).map Message.toJson,
    ?_, ?_⟩
  · rw [append_adds hdecide none, hlog, ← logBytes_append, readLines_logBytes]
  · intro line hline
    rw [List.map_append]
    rcases List.mem_cons.mp hline with rfl | hline
    · simp
    · exact List.mem_append_left _ (hacked line hline)

/-- Behind a line that was cut short inside nothing can be appended for good. -/
theorem not_canAppend_torn {room : LogRoom} {messages next : List Message}
    {message : Message} {k : Nat} (hpos : 0 < k) (hlt : k < (lineBytes message).length)
    (hlog : room.log = logBytes messages ++ ((lineBytes message).take k ++ logBytes next))
    (acked : List Json) : ¬ room.CanAppend acked := by
  rintro ⟨clock, options, added, now, hdecide, lines, hread, -⟩
  rw [append_adds hdecide none, hlog, List.append_assoc, List.append_assoc,
    ← logBytes_append, readLines_torn messages (next ++ [added]) message (by simp) hpos hlt]
    at hread
  cases hread

/-- After any appends to a room, one that stops at any byte, and any more appends: what
was acknowledged before stays readable and the room stays usable if and only if the one
wrote nothing, or nothing of its line, or all of it. -/
theorem durable_iff (state : RoomState) (participants : List Participant)
    (messages : List Message) (before after : List (Nat × AppendCall)) (clock k : Nat)
    (call : AppendCall) :
    let done := (LogRoom.mk state participants (logBytes messages)).appendAll before
    ((done.2.append clock (some k) call).2.appendAll after).2.Durable done.1 ↔
      ∀ message now, done.2.decide clock call = .ok (.adds message now) →
        k = 0 ∨ (lineBytes message).length ≤ k := by
  intro done
  obtain ⟨added, hlog, hacked⟩ := appendAll_acked
    (LogRoom.mk state participants (logBytes messages)) rfl before
  have hwhole {room : LogRoom} (next : List Message)
      (hroom : room.log = logBytes (messages ++ added ++ next)) :
      (room.appendAll after).2.Durable done.1 := by
    obtain ⟨more, hmore⟩ := appendAll_log room after
    rw [hroom, ← logBytes_append] at hmore
    refine durable_whole hmore fun line hline => ?_
    rw [List.append_assoc, List.map_append]
    exact List.mem_append_left _ (hacked line hline)
  have hkept (hnot : ∀ message now, done.2.decide clock call ≠ .ok (.adds message now)) :
      (done.2.append clock (some k) call).2 = done.2 := by
    unfold LogRoom.append
    split
    · rfl
    · rfl
    · rename_i message now hdecide
      exact absurd hdecide (hnot message now)
  by_cases hadds : ∃ message now, done.2.decide clock call = .ok (.adds message now)
  · obtain ⟨message, now, hdecide⟩ := hadds
    have htorn := append_adds hdecide (some k)
    rw [hlog] at htorn
    constructor
    · rintro ⟨-, hcan⟩ message' now' hdecide'
      obtain ⟨rfl, rfl⟩ : message = message' ∧ now = now' := by
        simpa using hdecide.symm.trans hdecide'
      by_contra hbad
      obtain ⟨more, hmore⟩ := appendAll_log (done.2.append clock (some k) call).2 after
      rw [htorn, List.append_assoc] at hmore
      exact not_canAppend_torn (by omega) (by omega) hmore done.1 hcan
    · intro hgood
      rcases hgood message now hdecide with rfl | hall
      · refine hwhole [] ?_
        rw [htorn, List.append_nil]
        exact List.append_nil _
      · refine hwhole [message] ?_
        simp only [htorn, List.take_of_length_le hall, logBytes_append]
        rfl
  · have hnot (message : Message) (now : Nat) :
        done.2.decide clock call ≠ .ok (.adds message now) := fun h => hadds ⟨_, _, h⟩
    rw [hkept hnot]
    refine ⟨fun _ message now h => absurd h (hnot message now), fun _ => ?_⟩
    refine hwhole [] ?_
    rw [List.append_nil]
    exact hlog

theorem one_lt_length_lineBytes (message : Message) : 1 < (lineBytes message).length := by
  have hline : ∃ t, lineBytes message = 0x7b :: 0x22 :: t := ⟨_, rfl⟩
  obtain ⟨t, ht⟩ := hline
  rw [ht]
  simp

/-- The system's announcement that somebody joined. -/
def joinedCall : AppendCall := .server ⟨"r", "system", "agent joined", some 1⟩

theorem decide_joinedCall (room : LogRoom) (clock : Nat) :
    room.decide clock joinedCall = .ok (.adds (serverMessage (withRoomDefaults room.state)
      room.participants "system" "agent joined" 1) 1) := by
  have hslug : assertSafeSlug "r" "room id" = .ok () := by decide
  have hsender : assertSafeSlug "system" "from" = .ok () := by decide
  simp only [joinedCall, LogRoom.decide, hslug, hsender]
  rfl

/-- Acknowledged messages do not stay readable behind every cut: after the first byte of
a second announcement, the room of the first one cannot be used again. -/
theorem not_durable_of_torn_line :
    ¬ ∀ (state : RoomState) (participants : List Participant) (messages : List Message)
        (before after : List (Nat × AppendCall)) (clock k : Nat) (call : AppendCall),
      let done := (LogRoom.mk state participants (logBytes messages)).appendAll before
      ((done.2.append clock (some k) call).2.appendAll after).2.Durable done.1 := by
  intro h
  let state : RoomState := CreateRoomOptions.state ⟨"r", "host", some 0, none, none, none⟩ 0
  let room : LogRoom := ⟨state, [], logBytes []⟩
  obtain ⟨added, hlog, -⟩ := appendAll_acked room rfl [(0, joinedCall)]
  obtain ⟨-, hcan⟩ := h state [] [] [(0, joinedCall)] [] 0 1 joinedCall
  have htorn := append_adds (decide_joinedCall (room.appendAll [(0, joinedCall)]).2 0) (some 1)
  rw [hlog] at htorn
  exact @not_canAppend_torn _ _ [] _ 1 Nat.one_pos (one_lt_length_lineBytes _)
    (htorn.trans (congrArg _ (List.append_nil _).symm)) _ hcan

end AgentGather.Storage
