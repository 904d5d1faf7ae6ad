import AgentGather.Browser.Restored
import AgentGather.Library.Cursor
import AgentGather.Library.Machine
import AgentGather.Server.Handlers

/-!
# The room page

What the page keeps of the room's messages, and how entries, polls and own sends change it.  A
request is one event, its serving by the host another, and its answer at the page a third: between
them anything else may happen.  A page that is loaded again starts anew, but for its storage.
-/

namespace AgentGather.Browser

open AgentGather.Library AgentGather.Protocol AgentGather.Server

/-! ## The page -/

/-- A request for messages, and what the host has answered. -/
structure Fetch where
  sinceId : Nat
  beforeId : Option Nat
  limit : Option Nat
  answer : Option Reply
deriving DecidableEq, Repr

/-- What `pollMessages` waits for. -/
inductive Poll where
  | idle
  | messages (coldEntry : Bool) (fetch : Fetch)
  | restoredHead (head : Nat) (fetch : Fetch)
  | seededAuthors (fetch : Fetch)
deriving DecidableEq, Repr

/-- A message that is to be sent, under one id until the text changes. -/
structure PendingSend where
  text : String
  replyTo : Option Nat
  clientMsgId : String
deriving DecidableEq, Repr

/-- A message on its way, and what the host has stored. -/
structure Sending where
  pending : PendingSend
  answer : Option Message
deriving DecidableEq, Repr

structure RoomClient where
  roomName : Option String
  /-- `roomStatus` -/
  closed : Bool
  closedHistoryLoaded : Bool
  cursor : Nat
  seen : List Nat
  /-- The rows that were restored from the backup. -/
  restored : List RestoredMessage
  /-- The other rows, in the order they were rendered in. -/
  live : List Message
  backupCursor : Nat
  seedUnverified : Bool
  entryPageLoaded : Bool
  poll : Poll
  composerReady : Bool
  pendingSend : Option PendingSend
  send : Option Sending

/-- The host's log, the page and the storage of its origin. -/
structure RoomPage where
  log : List Message
  /-- The alias of whoever the page is opened by. -/
  self : String
  localStorage : OrderedMap String (List Char)
  client : RoomClient

/-! ## The cursor -/

def RoomClient.resetCursor (client : RoomClient) : RoomClient := { client with cursor := 0 }

def RoomClient.seedCursorTo (client : RoomClient) (id : Nat) : RoomClient :=
  { client with cursor := id }

def RoomClient.advanceCursorTo (client : RoomClient) (id : Nat) : RoomClient :=
  if client.cursor < id then { client with cursor := id } else client

/-! ## The backup -/

def backupPrefix : String := "agentgather.backup."

def backupMaxMessages : Nat := 250

def backupMaxBytes : Nat := 200000

def backupKey (roomName : Option String) : String :=
  backupPrefix ++ match roomName with
    | none => "room"
    | some name => if name = "" then "room" else name

/-- What the backup keeps of a message. -/
def backupRecord (message : Message) : Json :=
  .obj [("id", .num message.id), ("from", .str message.sender),
    ("ts", .str (Time.isoString message.ts)), ("type", .str message.type.name),
    ("text", .str (redactForBackup (some (.str message.text))))]

/-- The records that are stored. -/
def storedRecords (stored : Option (List Char)) : List Json :=
  match stored.bind Json.parse with
  | none => []
  | some parsed =>
      match parsed.field? "messages" with
      | some (.arr records) => records
      | _ => []

/-- The oldest records are dropped, until the others fit, or only one is left. -/
def dropOversized : List Json → List Json
  | [] => []
  | [record] => [record]
  | record :: next :: records =>
      if backupMaxBytes <
          Text.utf16Length
            (Json.print (.obj [("messages", .arr (record :: next :: records))])) then
        dropOversized (next :: records)
      else record :: next :: records

def boundRecords (records : List Json) : List Json :=
  dropOversized (records.drop (records.length - backupMaxMessages))

/-- The backup as it is stored. -/
def backupText (records : List Json) (updatedAt : Nat) : List Char :=
  Json.print (.obj [("messages", .arr records), ("updated_at", .str (Time.isoString updatedAt))])

/-- `written`: the storage took the backup. -/
def RoomPage.recordBackupBatch (page : RoomPage) (messages : List Message) (now : Nat)
    (written : Bool) : RoomPage :=
  if messages = [] then page
  else
    let key := backupKey page.client.roomName
    let records := boundRecords
      (storedRecords (page.localStorage.get? key) ++ messages.map backupRecord)
    { page with
      client := { page.client with
        backupCursor := messages.foldl (fun cursor message => max cursor message.id)
          page.client.backupCursor }
      localStorage :=
        if written then page.localStorage.set key (backupText records now)
        else page.localStorage }

/-- The backup is shown, and the cursor set behind it.  `renders`: every row could be made. -/
def RoomClient.seedEntryFromBackup (client : RoomClient) (stored : Option (List Char))
    (renders : Bool) : RoomClient :=
  let restored := readBackupForSeed stored
  match restored.getLast? with
  | none => client
  | some highest =>
      if renders then
        { client.seedCursorTo highest.id.toNat with
          seen := client.seen ++ restored.map (·.id.toNat)
          restored
          backupCursor := highest.id.toNat
          seedUnverified := true }
      else { client.resetCursor with seen := [], backupCursor := 0 }

/-! ## Polling -/

def earlierPageSize : Nat := 50

/-- `Number.MAX_SAFE_INTEGER` -/
def newestPageBeforeId : Nat := 2 ^ 53 - 1

/-- The messages of a page. -/
def replyMessages : Option Reply → List Message
  | some (.page messages _ _) => messages
  | _ => []

def replyNextSinceId : Option Reply → Option Nat
  | some (.page _ nextSinceId _) => nextSinceId
  | _ => none

/-- What of the messages is not on the screen yet, each once. -/
def unseen (seen : List Nat) : List Message → List Message
  | [] => []
  | message :: messages =>
      if message.id ∈ seen then unseen seen messages
      else message :: unseen (message.id :: seen) messages

/-- `pollMessages` up to its request; a cold entry asks for the newest page. -/
def RoomClient.pollMessages (client : RoomClient) : RoomClient :=
  if client.closed && client.closedHistoryLoaded then client
  else if client.poll ≠ .idle then client
  else
    let coldEntry := !client.entryPageLoaded && client.cursor == 0 && client.seen.isEmpty
    { client with
      poll := .messages coldEntry
        (if coldEntry then ⟨0, some newestPageBeforeId, some earlierPageSize, none⟩
        else ⟨client.cursor, none, none, none⟩) }

/-- A closed room is loaded once.  The first poll that ends arms the composer. -/
def RoomClient.endPoll (client : RoomClient) : RoomClient :=
  { client with
    poll := .idle
    composerReady := true
    closedHistoryLoaded := client.closedHistoryLoaded || client.closed }

/-- The host is asked who wrote the restored rows. -/
def RoomClient.confirmSeededAuthors (client : RoomClient) : RoomClient :=
  match client.restored.head?, client.restored.getLast? with
  | some lowest, some highest =>
      { client with
        poll := .seededAuthors
          ⟨lowest.id.toNat - 1, none, some (highest.id.toNat - lowest.id.toNat + 1), none⟩ }
  | _, _ => client.endPoll

/-- The host is asked for the newest restored message. -/
def RoomClient.verifyRestoredHead (client : RoomClient) : RoomClient :=
  if client.backupCursor = 0 then client.confirmSeededAuthors
  else { client with
    poll := .restoredHead client.backupCursor ⟨client.backupCursor - 1, none, none, none⟩ }

/-- All of the restored history is dropped, and the stored copy with it. -/
def RoomPage.discardRestoredHistory (page : RoomPage) : RoomPage where
  log := page.log
  self := page.self
  localStorage := page.localStorage.delete (backupKey page.client.roomName)
  client := { page.client.resetCursor with
    seen := [], restored := [], live := [], backupCursor := 0 }

def RoomClient.showMessages (client : RoomClient) (fresh : List Message) : RoomClient :=
  { client with
    entryPageLoaded := true
    seen := client.seen ++ fresh.map (·.id)
    live := client.live ++ fresh }

/-- The id that the cursor moves up to: a backward page carries no cursor. -/
def answerCursor (coldEntry : Bool) (reply : Option Reply) : Option Nat :=
  if coldEntry then (replyMessages reply).getLast?.map (·.id) else replyNextSinceId reply

def RoomClient.followAnswer (client : RoomClient) (cursor : Option Nat) : RoomClient :=
  match cursor with
  | none => client
  | some id => client.advanceCursorTo id

/-- Behind its first answer a page with restored rows has them confirmed. -/
def RoomClient.finishAnswer (client : RoomClient) (empty : Bool) : RoomClient :=
  if client.seedUnverified then
    let verified := { client with seedUnverified := false }
    if empty then verified.verifyRestoredHead else verified.confirmSeededAuthors
  else client.endPoll

/-- The messages of an answer are shown and kept, and the cursor moves behind them. -/
def RoomPage.messagesAnswered (page : RoomPage) (coldEntry : Bool) (reply : Option Reply)
    (now : Nat) (written : Bool) : RoomPage :=
  let fresh := unseen page.client.seen (replyMessages reply)
  let shown := { page with client := page.client.showMessages fresh }
  let kept := shown.recordBackupBatch fresh now written
  let moved := kept.client.followAnswer (answerCursor coldEntry reply)
  { kept with client := moved.finishAnswer (replyMessages reply).isEmpty }

/-- The room has the newest restored message, or the history is fetched from the start. -/
def RoomPage.headAnswered (page : RoomPage) (head : Nat) (reply : Option Reply) : RoomPage :=
  if (replyMessages reply).any fun message : Message => message.id == head then
    { page with client := page.client.confirmSeededAuthors }
  else
    let discarded := page.discardRestoredHistory
    { discarded with client := { discarded.client with poll := .idle }.pollMessages }

def RoomPage.pollAnswered (page : RoomPage) (now : Nat) (written : Bool) : RoomPage :=
  match page.client.poll with
  | .idle => page
  | .messages coldEntry fetch =>
      if fetch.answer = none then page
      else page.messagesAnswered coldEntry fetch.answer now written
  | .restoredHead head fetch =>
      if fetch.answer = none then page else page.headAnswered head fetch.answer
  | .seededAuthors fetch =>
      if fetch.answer = none then page else { page with client := page.client.endPoll }

/-- The request failed; `closes`: because the route is closed. -/
def RoomClient.pollFailed (client : RoomClient) (closes : Bool) : RoomClient :=
  match client.poll with
  | .idle => client
  | .messages _ _ => { client with closed := client.closed || closes }.endPoll
  | .restoredHead _ _ => client.confirmSeededAuthors
  | .seededAuthors _ => client.endPoll

/-! ## Sending -/

def RoomClient.ensurePendingSend (client : RoomClient) (text : String) (replyTo : Option Nat)
    (clientMsgId : String) : PendingSend :=
  match client.pendingSend with
  | some pending =>
      if pending.text = text ∧ pending.replyTo = replyTo then pending
      else ⟨text, replyTo, clientMsgId⟩
  | none => ⟨text, replyTo, clientMsgId⟩

def RoomClient.clearPendingSendIfTextChanged (client : RoomClient) (text : String)
    (replyTo : Option Nat) : RoomClient :=
  { client with pendingSend := client.pendingSend.filter fun pending =>
      pending.text == text && pending.replyTo == replyTo }

/-- `submitMessage` up to its request; `clientMsgId` is a new random id. -/
def RoomClient.submitMessage (client : RoomClient) (value : String) (replyTo : Option Nat)
    (clientMsgId : String) : RoomClient :=
  let text := String.ofList (Text.trim value.toList)
  if !client.composerReady || client.send.isSome || text = "" then client
  else
    let pending := client.ensurePendingSend text replyTo clientMsgId
    { client with pendingSend := some pending, send := some ⟨pending, none⟩ }

/-- The stored message is shown, unless a poll was faster, and the cursor moves up to it. -/
def RoomClient.sendAnswered (client : RoomClient) : RoomClient :=
  match client.send with
  | some ⟨_, some message⟩ =>
      let sent := { client with send := none, pendingSend := none }
      if message.id ∈ sent.seen then sent
      else { sent with
        seen := sent.seen ++ [message.id], live := sent.live ++ [message] }.advanceCursorTo
          message.id
  | _ => client

/-! ## Entering -/

/-- A page that has just been loaded. -/
def RoomClient.initial : RoomClient where
  roomName := none
  closed := false
  closedHistoryLoaded := false
  cursor := 0
  seen := []
  restored := []
  live := []
  backupCursor := 0
  seedUnverified := false
  entryPageLoaded := false
  poll := .idle
  composerReady := false
  pendingSend := none
  send := none

/-- The page is loaded and the room entered: the name of the room is what the host or the
storage knows, if either does; the backup is restored, and the first poll begins. -/
def RoomPage.enterRoom (page : RoomPage) (roomName : Option String) (closed renders : Bool) :
    RoomPage :=
  { page with client := ({ RoomClient.initial with roomName, closed }.seedEntryFromBackup
      (page.localStorage.get? (backupKey roomName)) renders).pollMessages }

/-! ## The host -/

def Fetch.served (log : List Message) (fetch : Fetch) : Fetch :=
  if fetch.answer = none then
    { fetch with answer := some (messagePage log fetch.sinceId fetch.beforeId fetch.limit) }
  else fetch

def Poll.served (log : List Message) : Poll → Poll
  | .idle => .idle
  | .messages coldEntry fetch => .messages coldEntry (fetch.served log)
  | .restoredHead head fetch => .restoredHead head (fetch.served log)
  | .seededAuthors fetch => .seededAuthors (fetch.served log)

/-- The message comes behind all others.  Ids begin at one, and are safe integers. -/
def comesNext (log : List Message) (message : Message) : Bool :=
  0 < message.id && message.id < newestPageBeforeId &&
    log.all fun earlier => earlier.id < message.id

/-- The host stores the message that is on its way, unless it has it already; `stored` is what
it makes of it. -/
def RoomPage.storeSent (page : RoomPage) (stored : Message) : RoomPage :=
  match page.client.send with
  | some ⟨pending, none⟩ =>
      match page.log.find? fun message =>
          message.sender == page.self && message.clientMsgId == some pending.clientMsgId with
      | some found =>
          { page with client := { page.client with send := some ⟨pending, some found⟩ } }
      | none =>
          if stored.sender = page.self ∧ stored.clientMsgId = some pending.clientMsgId ∧
              comesNext page.log stored then
            { page with
              log := page.log ++ [stored]
              client := { page.client with send := some ⟨pending, some stored⟩ } }
          else page
  | _ => page

/-! ## Events -/

inductive PageEvent where
  /-- The host stores a message of somebody else. -/
  | appended (message : Message)
  | entered (roomName : Option String) (closed renders : Bool)
  | statusLoaded (roomName : String) (closed : Bool)
  | pollStarts
  | pollServed
  | pollAnswered (now : Nat) (written : Bool)
  | pollFails (closes : Bool)
  | typed (text : String) (replyTo : Option Nat)
  | sendStarts (value : String) (replyTo : Option Nat) (clientMsgId : String)
  | sendServed (stored : Message)
  | sendAnswered
  | sendFails

/-- What cannot happen changes nothing: the ids of the log increase, and a random id is new. -/
def RoomPage.step (page : RoomPage) : PageEvent → RoomPage
  | .appended message =>
      if comesNext page.log message then { page with log := page.log ++ [message] } else page
  | .entered roomName closed renders => page.enterRoom roomName closed renders
  | .statusLoaded roomName closed =>
      { page with client := { page.client with roomName := some roomName, closed } }
  | .pollStarts => { page with client := page.client.pollMessages }
  | .pollServed =>
      { page with client := { page.client with poll := page.client.poll.served page.log } }
  | .pollAnswered now written => page.pollAnswered now written
  | .pollFails closes => { page with client := page.client.pollFailed closes }
  | .typed text replyTo =>
      { page with client := page.client.clearPendingSendIfTextChanged text replyTo }
  | .sendStarts value replyTo clientMsgId =>
      if page.log.any fun message => message.clientMsgId == some clientMsgId then page
      else { page with client := page.client.submitMessage value replyTo clientMsgId }
  | .sendServed stored => page.storeSent stored
  | .sendAnswered => { page with client := page.client.sendAnswered }
  | .sendFails => { page with client := { page.client with send := none } }

/-- The page from `init` on. -/
def pageMachine (init : RoomPage) : Machine RoomPage PageEvent Unit where
  init := init
  step page event := (page.step event, ())

/-- The page behind the events. -/
def RoomPage.run (page : RoomPage) (events : List PageEvent) : RoomPage :=
  events.foldl RoomPage.step page

@[simp] theorem RoomPage.run_nil (page : RoomPage) : page.run [] = page := rfl

theorem RoomPage.run_append (page : RoomPage) (before rest : List PageEvent) :
    page.run (before ++ rest) = (page.run before).run rest :=
  List.foldl_append

theorem RoomPage.run_concat (page : RoomPage) (events : List PageEvent) (event : PageEvent) :
    page.run (events ++ [event]) = (page.run events).step event :=
  page.run_append events [event]

theorem exec_pageMachine (init : RoomPage) (events : List PageEvent) :
    ((pageMachine init).exec events).1 = init.run events := by
  induction events using List.reverseRecOn with
  | nil => rfl
  | append_singleton events event ih =>
      rw [Machine.exec_concat, RoomPage.run_concat, ← ih]
      rfl

/-! ## What the steps do -/

theorem mem_unseen {seen : List Nat} {messages : List Message} {id : Nat} :
    id ∈ (unseen seen messages).map (·.id) ↔ id ∈ messages.map (·.id) ∧ id ∉ seen := by
  induction messages generalizing seen with
  | nil => simp [unseen]
  | cons message messages ih =>
      rw [unseen]
      split
      · rename_i hseen
        rw [ih, List.map_cons, List.mem_cons]
        constructor
        · exact fun h => ⟨.inr h.1, h.2⟩
        · rintro ⟨rfl | hid, hnew⟩
          · exact absurd hseen hnew
          · exact ⟨hid, hnew⟩
      · rename_i hseen
        simp only [List.map_cons, List.mem_cons, ih, not_or]
        constructor
        · rintro (rfl | ⟨hid, -, hnew⟩)
          · exact ⟨.inl rfl, hseen⟩
          · exact ⟨.inr hid, hnew⟩
        · rintro ⟨rfl | hid, hnew⟩
          · exact .inl rfl
          · by_cases heq : id = message.id
            · exact .inl heq
            · exact .inr ⟨hid, heq, hnew⟩

theorem nodup_unseen (seen : List Nat) (messages : List Message) :
    ((unseen seen messages).map (·.id)).Nodup := by
  induction messages generalizing seen with
  | nil => exact List.nodup_nil
  | cons message messages ih =>
      rw [unseen]
      split
      · exact ih seen
      · rw [List.map_cons, List.nodup_cons]
        refine ⟨fun h => ?_, ih _⟩
        exact (mem_unseen.mp h).2 List.mem_cons_self

theorem nodup_append_unseen {seen : List Nat} (h : seen.Nodup) (messages : List Message) :
    (seen ++ (unseen seen messages).map (·.id)).Nodup :=
  h.append (nodup_unseen seen messages) fun _ hold hnew => (mem_unseen.mp hnew).2 hold

/-- Keeping a backup changes nothing else. -/
theorem recordBackupBatch_client (page : RoomPage) (messages : List Message) (now : Nat)
    (written : Bool) : ∃ backupCursor,
      (page.recordBackupBatch messages now written).client =
        { page.client with backupCursor } := by
  unfold RoomPage.recordBackupBatch
  split
  · exact ⟨_, rfl⟩
  · exact ⟨_, rfl⟩

theorem recordBackupBatch_log (page : RoomPage) (messages : List Message) (now : Nat)
    (written : Bool) : (page.recordBackupBatch messages now written).log = page.log := by
  unfold RoomPage.recordBackupBatch
  split
  · rfl
  · rfl

theorem advanceCursorTo_eq (client : RoomClient) (id : Nat) :
    client.advanceCursorTo id = { client with cursor := max client.cursor id } := by
  unfold RoomClient.advanceCursorTo
  split
  · rename_i h
    rw [max_eq_right (Nat.le_of_lt h)]
  · rename_i h
    rw [max_eq_left (Nat.le_of_not_lt h)]

theorem followAnswer_eq (client : RoomClient) (cursor : Option Nat) :
    client.followAnswer cursor = { client with cursor := max client.cursor (cursor.getD 0) } := by
  cases cursor with
  | none =>
      rw [Option.getD_none, max_eq_left (Nat.zero_le _)]
      rfl
  | some id => exact advanceCursorTo_eq client id

/-- The answer of a page whose restored rows need no confirmation. -/
theorem messagesAnswered_client {page : RoomPage} (h : page.client.seedUnverified = false)
    (coldEntry : Bool) (reply : Option Reply) (now : Nat) (written : Bool) :
    ∃ backupCursor,
      (page.messagesAnswered coldEntry reply now written).client =
        { page.client.showMessages (unseen page.client.seen (replyMessages reply)) with
          cursor := max page.client.cursor ((answerCursor coldEntry reply).getD 0)
          backupCursor
          poll := .idle
          composerReady := true
          closedHistoryLoaded := page.client.closedHistoryLoaded || page.client.closed } := by
  obtain ⟨backupCursor, hkept⟩ := recordBackupBatch_client
    { page with
      client := page.client.showMessages
        (unseen page.client.seen (replyMessages reply)) }
    (unseen page.client.seen (replyMessages reply)) now written
  refine ⟨backupCursor, ?_⟩
  change (RoomClient.followAnswer
    (RoomPage.recordBackupBatch _ _ now written).client _).finishAnswer _ = _
  rw [hkept, followAnswer_eq, RoomClient.finishAnswer, if_neg]
  · rfl
  · rw [Bool.not_eq_true]
    exact h

theorem messagesAnswered_log (page : RoomPage) (coldEntry : Bool) (reply : Option Reply)
    (now : Nat) (written : Bool) :
    (page.messagesAnswered coldEntry reply now written).log = page.log :=
  recordBackupBatch_log _ _ _ _

theorem comesNext_iff {log : List Message} {message : Message} :
    comesNext log message = true ↔
      0 < message.id ∧ message.id < newestPageBeforeId ∧
        ∀ earlier ∈ log, earlier.id < message.id := by
  simp [comesNext, and_assoc]

/-- What an answer brings, of the log as it was served. -/
theorem answerCursor_since (served : List Message) (sinceId : Nat) :
    (answerCursor false (some (messagePage served sinceId none none))).getD 0 =
      ((Cursor.after Message.id served sinceId).getLast?.map (·.id)).getD sinceId := rfl

theorem replyMessages_since (served : List Message) (sinceId : Nat) :
    replyMessages (some (messagePage served sinceId none none)) =
      Cursor.after Message.id served sinceId := rfl

/-- The cursor of an answer is the one that was asked for, or that of a message it brings. -/
theorem answerCursor_cases (served : List Message) (sinceId : Nat) :
    (answerCursor false (some (messagePage served sinceId none none))).getD 0 = sinceId ∨
      ∃ last ∈ served, last.id =
        (answerCursor false (some (messagePage served sinceId none none))).getD 0 := by
  rw [answerCursor_since]
  cases hlast : (Cursor.after Message.id served sinceId).getLast? with
  | none => exact .inl rfl
  | some last =>
      exact .inr ⟨last, (Cursor.mem_after.mp (List.mem_of_getLast? hlast)).1, rfl⟩

/-- What an answer shows is of the log, and behind the cursor that was asked for. -/
theorem mem_unseen_since {seen : List Nat} {served : List Message} {sinceId id : Nat}
    (h : id ∈ (unseen seen (replyMessages (some (messagePage served sinceId none none)))).map
      (·.id)) : sinceId < id := by
  obtain ⟨hmem, -⟩ := mem_unseen.mp h
  rw [replyMessages_since] at hmem
  obtain ⟨message, hmessage, rfl⟩ := List.mem_map.mp hmem
  exact (Cursor.mem_after.mp hmessage).2

/-- What is not newer than a message that was served, was served. -/
theorem mem_served {log served : List Message} (hlog : Cursor.Increasing Message.id log)
    (hserved : served <+: log) {last message : Message} (hlast : last ∈ served)
    (hmessage : message ∈ log) (hle : message.id ≤ last.id) : message ∈ served := by
  obtain ⟨rest, rfl⟩ := hserved
  rcases List.mem_append.mp hmessage with hmessage | hmessage
  · exact hmessage
  · have hlt : last.id < message.id :=
      (List.pairwise_append.mp hlog).2.2 last hlast message hmessage
    omega

end AgentGather.Browser
