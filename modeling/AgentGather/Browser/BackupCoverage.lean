import AgentGather.Browser.LiveCursor
import AgentGather.Server.Paging

/-!
# What the backup covers

The page seeds its cursor with the newest message of the backup, as if the backup had no gaps.
What a poll brings is kept the moment it is shown, and no gap is left by it, whatever is dropped
later, however often the page is loaded again.  An own message that the answer to its send has
shown is not kept, and is a gap as soon as later messages are.
-/

namespace AgentGather.Browser

open AgentGather.Library AgentGather.Protocol AgentGather.Server

/-! ## Visits -/

/-- The page, all that it has ever shown live, and what of that it has not handed to the backup
under one key. -/
structure Visits where
  page : RoomPage
  shown : List Message
  offRecord : List Message

def PageEvent.isPollAnswer : PageEvent → Bool
  | .pollAnswered _ _ => true
  | _ => false

/-- The rows that an event adds to the screen. -/
def RoomPage.newRows (page : RoomPage) (event : PageEvent) : List Message :=
  (page.step event).client.live.drop page.client.live.length

/-- The rows of an event are handed to the backup of this key. -/
def RoomPage.recordsUnder (page : RoomPage) (key : String) (event : PageEvent) : Bool :=
  event.isPollAnswer && backupKey page.client.roomName == key

def Visits.step (key : String) (visits : Visits) (event : PageEvent) : Visits where
  page := visits.page.step event
  shown := visits.shown ++ visits.page.newRows event
  offRecord := visits.offRecord ++
    if visits.page.recordsUnder key event then [] else visits.page.newRows event

/-- A room that nobody has written to, and a page that has not been loaded and has no backup. -/
def firstVisit (self : String) (localStorage : OrderedMap String (List Char)) : Visits :=
  ⟨⟨[], self, localStorage, .initial⟩, [], []⟩

def visitsMachine (key : String) (init : Visits) : Machine Visits PageEvent Unit where
  init := init
  step visits event := (visits.step key event, ())

/-! ## Coverage -/

/-- What the backup of the key holds. -/
def RoomPage.records (page : RoomPage) (key : String) : List Json :=
  storedRecords (page.localStorage.get? key)

/-- The id of a record. -/
def recordId (record : Json) : Option Int :=
  match record.field? "id" with
  | some (.num id) => some id
  | _ => none

/-- The id lies between two ids of the backup. -/
def RoomPage.Encloses (page : RoomPage) (key : String) (id : Nat) : Prop :=
  ∃ lowest ∈ (page.records key).filterMap recordId,
    ∃ highest ∈ (page.records key).filterMap recordId, lowest ≤ id ∧ (id : Int) ≤ highest

/-- The messages that may be restored are in the backup, if the backup goes around them. -/
def RoomPage.Keeps (page : RoomPage) (key : String) (messages : List Message) : Prop :=
  ∀ message ∈ messages, isRestorableStoredType (some (.str message.type.name)) = true →
    page.Encloses key message.id → backupRecord message ∈ page.records key

/-- A page that is loaded again shows them. -/
def RoomPage.Restores (page : RoomPage) (key : String) (messages : List Message) : Prop :=
  ∀ message ∈ messages, isRestorableStoredType (some (.str message.type.name)) = true →
    page.Encloses key message.id → ∀ roomName closed, backupKey roomName = key →
      (message.id : Int) ∈
        (page.enterRoom roomName closed true).client.restored.map (·.id)

/-- Everything that was ever shown live is covered. -/
structure Visits.Covered (visits : Visits) (key : String) : Prop where
  keeps : visits.page.Keeps key visits.shown
  restores : visits.page.Restores key visits.shown

/-- Behind the event, the backup does not go around a message that was shown without being handed
to it. -/
def OffRecordClear (key : String) (visits : Visits) (event : PageEvent) : Prop :=
  (visits.step key event).page.Keeps key (visits.step key event).offRecord

/-! ## Trails -/

/-- However much is dropped of the oldest, what is left has the message, or only newer ones. -/
def Trail (message : Message) (held : List Message) : Prop :=
  ∀ n, message ∈ held.drop n ∨ ∀ later ∈ held.drop n, message.id < later.id

theorem Trail.drop {message : Message} {held : List Message} (h : Trail message held) (n : Nat) :
    Trail message (held.drop n) := by
  intro k
  rw [List.drop_drop]
  exact h _

theorem Trail.append {message : Message} {held batch : List Message} (h : Trail message held)
    (hbatch : Trail message batch) : Trail message (held ++ batch) := by
  intro n
  rw [List.drop_append]
  rcases hbatch (n - held.length) with hmem | hnewer
  · exact .inl (List.mem_append_right _ hmem)
  · rcases h n with hmem | hheld
    · exact .inl (List.mem_append_left _ hmem)
    · refine .inr fun later hlater => ?_
      rcases List.mem_append.mp hlater with hlater | hlater
      · exact hheld later hlater
      · exact hnewer later hlater

theorem trail_of_newer {message : Message} {batch : List Message}
    (h : ∀ later ∈ batch, message.id < later.id) : Trail message batch :=
  fun _ => .inr fun later hlater => h later (List.mem_of_mem_drop hlater)

theorem trail_of_mem {message : Message} {batch : List Message}
    (hinc : Cursor.Increasing Message.id batch) (h : message ∈ batch) : Trail message batch := by
  intro n
  rw [← List.take_append_drop n batch] at h hinc
  rcases List.mem_append.mp h with hfront | hrest
  · exact .inr fun later hlater =>
      (List.pairwise_append.mp hinc).2.2 message hfront later hlater
  · exact .inl hrest

/-- A message of the batch itself. -/
theorem trail_append_of_mem {message : Message} (held : List Message) {batch : List Message}
    (hinc : Cursor.Increasing Message.id batch) (h : message ∈ batch) :
    Trail message (held ++ batch) := by
  intro n
  rw [List.drop_append]
  rcases Nat.le_or_ge n held.length with hle | hge
  · rw [Nat.sub_eq_zero_of_le hle]
    exact .inl (List.mem_append_right _ h)
  · rw [List.drop_eq_nil_of_le hge]
    exact trail_of_mem hinc h _

/-! ## Records -/

theorem dropOversized_eq (records : List Json) : ∃ n, dropOversized records = records.drop n := by
  induction records with
  | nil => exact ⟨0, rfl⟩
  | cons record records ih =>
      cases records with
      | nil => exact ⟨0, rfl⟩
      | cons next records =>
          rw [dropOversized]
          split
          · obtain ⟨n, hn⟩ := ih
            exact ⟨n + 1, hn⟩
          · exact ⟨0, rfl⟩

/-- The oldest records are dropped, if any. -/
theorem boundRecords_eq (records : List Json) : ∃ n, boundRecords records = records.drop n := by
  obtain ⟨n, hn⟩ := dropOversized_eq (records.drop (records.length - backupMaxMessages))
  exact ⟨_, hn.trans List.drop_drop⟩

theorem validItems_map_backupRecord (messages : List Message) :
    Json.ValidItems (messages.map backupRecord) := by
  induction messages with
  | nil => trivial
  | cons message messages ih => exact ⟨by simp [backupRecord, Json.Valid, Json.ValidFields], ih⟩

theorem storedRecords_backupText (messages : List Message) (now : Nat) :
    storedRecords (some (backupText (messages.map backupRecord) now)) =
      messages.map backupRecord := by
  unfold storedRecords backupText
  rw [Option.bind_some, Json.parse_print]
  · rfl
  · exact ⟨validItems_map_backupRecord messages, trivial, trivial⟩

theorem recordId_backupRecord (message : Message) :
    recordId (backupRecord message) = some (message.id : Int) := rfl

theorem filterMap_recordId (messages : List Message) :
    (messages.map backupRecord).filterMap recordId =
      messages.map fun message => (message.id : Int) := by
  induction messages with
  | nil => rfl
  | cons message messages ih =>
      rw [List.map_cons, List.filterMap_cons, recordId_backupRecord, List.map_cons, ← ih]

/-- A message that trails what is held is held, if it is enclosed. -/
theorem Trail.mem {message : Message} {held : List Message} (h : Trail message held)
    {page : RoomPage} {key : String} (hheld : page.records key = held.map backupRecord)
    (hencloses : page.Encloses key message.id) : message ∈ held := by
  obtain ⟨lowest, hlowest, -, -, hle, -⟩ := hencloses
  rw [hheld, filterMap_recordId] at hlowest
  obtain ⟨oldest, holdest, rfl⟩ := List.mem_map.mp hlowest
  rcases h 0 with hmem | hnewer
  · exact hmem
  · have hlt := hnewer oldest holdest
    omega

/-! ## Pages -/

theorem unseen_sublist (seen : List Nat) (messages : List Message) :
    (unseen seen messages).Sublist messages := by
  induction messages generalizing seen with
  | nil => exact List.Sublist.slnil
  | cons message messages ih =>
      rw [unseen]
      split
      · exact (ih seen).cons message
      · exact (ih _).cons_cons message

/-- The id of a message tells which one of the log it is. -/
theorem eq_of_id_eq {log : List Message} (hlog : Cursor.Increasing Message.id log)
    {message message' : Message} (h : message ∈ log) (h' : message' ∈ log)
    (heq : message.id = message'.id) : message = message' :=
  List.inj_on_of_nodup_map (List.pairwise_map.mpr (hlog.imp fun hlt => Nat.ne_of_lt hlt)) h h' heq

theorem mem_unseen_self {seen : List Nat} {messages : List Message}
    (hinc : Cursor.Increasing Message.id messages) {message : Message}
    (hmem : message ∈ messages) (hnew : message.id ∉ seen) : message ∈ unseen seen messages := by
  obtain ⟨message', hmem', heq⟩ :=
    List.mem_map.mp (mem_unseen.mpr ⟨List.mem_map_of_mem hmem, hnew⟩)
  obtain rfl := eq_of_id_eq hinc ((unseen_sublist seen messages).subset hmem') hmem heq
  exact hmem'

/-- A request for the newest page, or for what is behind a cursor. -/
structure Asks (coldEntry : Bool) (fetch : Fetch) : Prop where
  beforeId : fetch.beforeId = if coldEntry then some newestPageBeforeId else none
  limit : fetch.limit = if coldEntry then some earlierPageSize else none

/-- What the host serves for a request. -/
def Fetch.page (fetch : Fetch) (served : List Message) : List Message :=
  replyMessages (some (messagePage served fetch.sinceId fetch.beforeId fetch.limit))

/-- A page is an end of the log as it was served: what is not on it is older than all that is.  The
cursor that comes with it is not behind it. -/
theorem Asks.page {coldEntry : Bool} {fetch : Fetch} (h : Asks coldEntry fetch)
    {served : List Message} (hserved : Cursor.Increasing Message.id served)
    (hsafe : ∀ message ∈ served, message.id < newestPageBeforeId) :
    Cursor.Increasing Message.id (fetch.page served) ∧
      (∀ message ∈ fetch.page served, message ∈ served) ∧
      ∀ message ∈ served, (message ∈ fetch.page served ∧
          (coldEntry = false → fetch.sinceId < message.id)) ∨
        ∀ later ∈ fetch.page served, message.id < later.id := by
  obtain ⟨sinceId, beforeId, limit, answer⟩ := fetch
  obtain ⟨hbefore, hlimit⟩ := h
  cases coldEntry with
  | false =>
      obtain rfl : beforeId = none := hbefore
      obtain rfl : limit = none := hlimit
      change Cursor.Increasing Message.id (Cursor.after Message.id served sinceId) ∧
        (∀ message ∈ Cursor.after Message.id served sinceId, message ∈ served) ∧
        ∀ message ∈ served, (message ∈ Cursor.after Message.id served sinceId ∧ _) ∨
          ∀ later ∈ Cursor.after Message.id served sinceId, message.id < later.id
      refine ⟨hserved.filter _, fun message hmem => (Cursor.mem_after.mp hmem).1,
        fun message hmem => ?_⟩
      by_cases hle : message.id ≤ sinceId
      · exact .inr fun later hlater => Nat.lt_of_le_of_lt hle (Cursor.mem_after.mp hlater).2
      · have hlt := Nat.lt_of_not_le hle
        exact .inl ⟨Cursor.mem_after.mpr ⟨hmem, hlt⟩, fun _ => hlt⟩
  | true =>
      obtain rfl : beforeId = some newestPageBeforeId := hbefore
      obtain rfl : limit = some earlierPageSize := hlimit
      obtain ⟨older, page, hsplit, hreply, -⟩ := messagePage_back hserved
        (show 1 ≤ earlierPageSize by decide) newestPageBeforeId
      have hpage : Fetch.page ⟨sinceId, some newestPageBeforeId, some earlierPageSize, answer⟩
          served = page := congrArg (fun reply => replyMessages (some reply)) hreply
      have hinc : (older ++ page).Pairwise fun x y => x.id < y.id := by
        rw [← hsplit]
        exact hserved.filter _
      rw [hpage]
      refine ⟨(List.pairwise_append.mp hinc).2.1, fun message hmem => ?_, fun message hmem => ?_⟩
      · exact (Cursor.mem_before.mp (hsplit ▸ List.mem_append_right older hmem)).1
      · have hbound := Cursor.mem_before.mpr ⟨hmem, hsafe message hmem⟩
        rw [hsplit] at hbound
        rcases List.mem_append.mp hbound with holder | hpage
        · exact .inr fun later hlater => (List.pairwise_append.mp hinc).2.2 _ holder _ hlater
        · exact .inl ⟨hpage, fun h => by cases h⟩

/-- The cursor of an answer is not behind what it brings. -/
theorem le_answerCursor {coldEntry : Bool} {fetch : Fetch} (h : Asks coldEntry fetch)
    {served : List Message} (hinc : Cursor.Increasing Message.id (fetch.page served))
    {message : Message} (hmem : message ∈ fetch.page served) :
    message.id ≤ (answerCursor coldEntry
      (some (messagePage served fetch.sinceId fetch.beforeId fetch.limit))).getD 0 := by
  have hlast : ∃ last, (fetch.page served).getLast? = some last ∧ message.id ≤ last.id := by
    rcases List.eq_nil_or_concat (fetch.page served) with hnone | ⟨front, last, hpage⟩
    · rw [hnone] at hmem
      cases hmem
    · rw [hpage, List.concat_eq_append] at hinc hmem ⊢
      refine ⟨last, List.getLast?_concat, ?_⟩
      rcases List.mem_append.mp hmem with hfront | hlast
      · exact Nat.le_of_lt ((List.pairwise_append.mp hinc).2.2 message hfront last
          (List.mem_singleton_self last))
      · exact Nat.le_of_eq (congrArg Message.id (List.mem_singleton.mp hlast))
  obtain ⟨last, hlast, hle⟩ := hlast
  obtain ⟨sinceId, beforeId, limit, answer⟩ := fetch
  obtain ⟨hbefore, hlimit⟩ := h
  cases coldEntry with
  | false =>
      obtain rfl : beforeId = none := hbefore
      obtain rfl : limit = none := hlimit
      change message.id ≤
        ((Cursor.after Message.id served sinceId).getLast?.map (·.id)).getD sinceId
      rw [show (Cursor.after Message.id served sinceId).getLast? = some last from hlast]
      exact hle
  | true =>
      change message.id ≤ ((Fetch.page ⟨sinceId, beforeId, limit, answer⟩ served).getLast?.map
        (·.id)).getD 0
      rw [hlast]
      exact hle

/-! ## What is known of the visits -/

/-- A request for messages: whatever was on the screen when it was made is behind its cursor or was
not kept, and whatever was ever shown and kept is in the answer's log. -/
structure Asked (visits : Visits) (coldEntry : Bool) (fetch : Fetch) : Prop where
  asks : Asks coldEntry fetch
  seen : ∀ id ∈ visits.page.client.seen, (∃ message ∈ visits.offRecord, message.id = id) ∨
    coldEntry = false ∧ id ≤ fetch.sinceId
  answer : ∀ reply, fetch.answer = some reply → ∃ served, served <+: visits.page.log ∧
    reply = messagePage served fetch.sinceId fetch.beforeId fetch.limit ∧
    ∀ message ∈ visits.shown, message ∈ served ∨ message ∈ visits.offRecord

structure Tracked (key : String) (visits : Visits) (held : List Message) : Prop where
  increasing : Cursor.Increasing Message.id visits.page.log
  safe : ∀ message ∈ visits.page.log, 0 < message.id ∧ message.id < newestPageBeforeId
  records : visits.page.records key = held.map backupRecord
  logged : ∀ message ∈ visits.shown, message ∈ visits.page.log
  shown : ∀ message ∈ visits.offRecord, message ∈ visits.shown
  trails : ∀ message ∈ visits.shown, message ∈ visits.offRecord ∨ Trail message held
  reached : ∀ id ∈ visits.page.client.seen, id ≤ visits.page.client.cursor
  poll : ∀ coldEntry fetch, visits.page.client.poll = .messages coldEntry fetch →
    Asked visits coldEntry fetch
  sending : ∀ sending, visits.page.client.send = some sending →
    ∀ sent, sending.answer = some sent → sent ∈ visits.page.log

section Events

variable {key : String} {visits : Visits} {held : List Message}

/-- An event that shows nothing. -/
theorem step_of_newRows {event : PageEvent} (h : visits.page.newRows event = []) :
    visits.step key event = { visits with page := visits.page.step event } := by
  unfold Visits.step
  rw [h, List.append_nil, ite_self, List.append_nil]

/-- A client that shows no more than before, and asks for what is behind its cursor if it asks. -/
theorem Tracked.client (h : Tracked key visits held) {client : RoomClient}
    (hreached : ∀ id ∈ client.seen, id ≤ client.cursor)
    (hpoll : ∀ coldEntry fetch, client.poll = .messages coldEntry fetch →
      Asked { visits with page := { visits.page with client } } coldEntry fetch)
    (hsend : ∀ sending, client.send = some sending →
      ∀ sent, sending.answer = some sent → sent ∈ visits.page.log) :
    Tracked key { visits with page := { visits.page with client } } held :=
  { h with reached := hreached, poll := hpoll, sending := hsend }

/-- A poll that begins asks for the newest page if nothing is on the screen, and else for what is
behind the cursor. -/
theorem pollMessages_cases (client : RoomClient) : client.pollMessages = client ∨
    (client.seen = [] ∧ client.pollMessages = { client with
      poll := .messages true ⟨0, some newestPageBeforeId, some earlierPageSize, none⟩ }) ∨
    client.pollMessages = { client with
      poll := .messages false ⟨client.cursor, none, none, none⟩ } := by
  unfold RoomClient.pollMessages
  dsimp only
  split_ifs with hclosed hbusy hcold
  · exact .inl rfl
  · exact .inl rfl
  · refine .inr (.inl ⟨?_, by rw [hcold]⟩)
    simp only [Bool.and_eq_true] at hcold
    exact List.isEmpty_iff.mp hcold.2
  · refine .inr (.inr ?_)
    rw [Bool.eq_false_of_not_eq_true hcold]

/-- What a page asks for once its poll begins. -/
theorem Tracked.pollMessages {page : RoomPage} {shown offRecord : List Message}
    (h : Tracked key ⟨page, shown, offRecord⟩ held) :
    Tracked key ⟨{ page with client := page.client.pollMessages }, shown, offRecord⟩ held := by
  rcases pollMessages_cases page.client with hsame | ⟨hnone, hasks⟩ | hasks
  · rw [hsame]
    exact h
  · rw [hasks]
    refine h.client h.reached (fun coldEntry fetch hpoll => ?_) h.sending
    obtain ⟨rfl, rfl⟩ := Poll.messages.inj hpoll
    refine ⟨⟨rfl, rfl⟩, fun id hid => ?_, fun _ hanswer => by cases hanswer⟩
    change id ∈ page.client.seen at hid
    rw [hnone] at hid
    cases hid
  · rw [hasks]
    refine h.client h.reached (fun coldEntry fetch hpoll => ?_) h.sending
    obtain ⟨rfl, rfl⟩ := Poll.messages.inj hpoll
    exact ⟨⟨rfl, rfl⟩, fun id hid => .inr ⟨rfl, h.reached id hid⟩,
      fun _ hanswer => by cases hanswer⟩

/-- The log grows by a message that comes next. -/
theorem Tracked.grow (h : Tracked key visits held) {message : Message}
    (hnext : comesNext visits.page.log message = true) :
    Tracked key
      { visits with page := { visits.page with log := visits.page.log ++ [message] } } held := by
  obtain ⟨hpos, hbound, hnewer⟩ := comesNext_iff.mp hnext
  refine
    { h with
      increasing := ?_
      safe := ?_
      logged := fun shown hshown => List.mem_append_left _ (h.logged shown hshown)
      poll := fun coldEntry fetch hpoll => ?_
      sending := fun sending hsending sent hsent =>
        List.mem_append_left _ (h.sending sending hsending sent hsent) }
  · refine List.pairwise_append.mpr ⟨h.increasing, List.pairwise_singleton _ _, ?_⟩
    intro earlier hearlier later hlater
    rw [List.mem_singleton.mp hlater]
    exact hnewer earlier hearlier
  · intro later hlater
    rcases List.mem_append.mp hlater with hlater | hlater
    · exact h.safe later hlater
    · rw [List.mem_singleton.mp hlater]
      exact ⟨hpos, hbound⟩
  · have hasked := h.poll coldEntry fetch hpoll
    refine { hasked with answer := fun reply hreply => ?_ }
    obtain ⟨served, hserved, heq, hshown⟩ := hasked.answer reply hreply
    exact ⟨served, hserved.trans (List.prefix_append _ _), heq, hshown⟩

/-- The host serves what has been asked for. -/
theorem Tracked.pollServed (h : Tracked key visits held) :
    Tracked key { visits with page := { visits.page with
      client := { visits.page.client with
        poll := visits.page.client.poll.served visits.page.log } } } held := by
  refine h.client h.reached (fun coldEntry fetch hpoll => ?_) h.sending
  change visits.page.client.poll.served visits.page.log = _ at hpoll
  cases hcase : visits.page.client.poll with
  | messages coldEntry' asked =>
      rw [hcase] at hpoll
      obtain ⟨rfl, rfl⟩ := Poll.messages.inj hpoll
      have hasked := h.poll _ _ hcase
      unfold Fetch.served
      split_ifs with hunserved
      · refine ⟨⟨hasked.asks.beforeId, hasked.asks.limit⟩, hasked.seen, ?_⟩
        rintro reply ⟨⟩
        exact ⟨visits.page.log, List.prefix_refl _, rfl, fun message hmessage =>
          .inl (h.logged message hmessage)⟩
      · exact ⟨hasked.asks, hasked.seen, hasked.answer⟩
  | _ =>
      rw [hcase] at hpoll
      cases hpoll

/-! ### Answers -/

def Poll.isMessages : Poll → Bool
  | .messages _ _ => true
  | _ => false

/-- The page waits for no messages any more, and shows what it has shown. -/
structure Settles (client settled : RoomClient) : Prop where
  seen : settled.seen = client.seen
  cursor : settled.cursor = client.cursor
  live : settled.live = client.live
  send : settled.send = client.send
  poll : settled.poll.isMessages = false

theorem settles_endPoll (client : RoomClient) : Settles client client.endPoll :=
  ⟨rfl, rfl, rfl, rfl, rfl⟩

theorem settles_confirmSeededAuthors (client : RoomClient) :
    Settles client client.confirmSeededAuthors := by
  unfold RoomClient.confirmSeededAuthors
  split
  · exact ⟨rfl, rfl, rfl, rfl, rfl⟩
  · exact settles_endPoll client

theorem settles_verifyRestoredHead (client : RoomClient) :
    Settles client client.verifyRestoredHead := by
  unfold RoomClient.verifyRestoredHead
  split_ifs
  · exact settles_confirmSeededAuthors client
  · exact ⟨rfl, rfl, rfl, rfl, rfl⟩

theorem settles_finishAnswer (client : RoomClient) (empty : Bool) :
    Settles client (client.finishAnswer empty) := by
  unfold RoomClient.finishAnswer
  dsimp only
  split_ifs
  · obtain ⟨hseen, hcursor, hlive, hsend, hpoll⟩ :=
      settles_verifyRestoredHead { client with seedUnverified := false }
    exact ⟨hseen, hcursor, hlive, hsend, hpoll⟩
  · obtain ⟨hseen, hcursor, hlive, hsend, hpoll⟩ :=
      settles_confirmSeededAuthors { client with seedUnverified := false }
    exact ⟨hseen, hcursor, hlive, hsend, hpoll⟩
  · exact settles_endPoll client

theorem Tracked.settles (h : Tracked key visits held) {client : RoomClient}
    (hsettles : Settles visits.page.client client) :
    Tracked key { visits with page := { visits.page with client } } held := by
  have hpoll := hsettles.poll
  refine h.client (fun id hid => ?_) (fun coldEntry fetch hmessages => ?_)
    (fun sending hsending => ?_)
  · rw [hsettles.cursor]
    rw [hsettles.seen] at hid
    exact h.reached id hid
  · rw [hmessages] at hpoll
    cases hpoll
  · rw [hsettles.send] at hsending
    exact h.sending sending hsending

/-- What the backup of the key holds behind a batch. -/
theorem records_recordBackupBatch {page : RoomPage}
    (hheld : page.records key = held.map backupRecord) (messages : List Message) (now : Nat) :
    ∃ n, (page.recordBackupBatch messages now true).records key =
      ((held ++ if backupKey page.client.roomName = key then messages else []).drop n).map
        backupRecord := by
  unfold RoomPage.recordBackupBatch
  by_cases hnone : messages = []
  · rw [if_pos hnone, hnone, ite_self, List.append_nil]
    exact ⟨0, hheld⟩
  rw [if_neg hnone]
  by_cases hkey : backupKey page.client.roomName = key
  · rw [if_pos hkey]
    dsimp only
    have hbefore : storedRecords (page.localStorage.get? (backupKey page.client.roomName)) =
        held.map backupRecord := by
      rw [hkey]
      exact hheld
    obtain ⟨n, hn⟩ := boundRecords_eq (held.map backupRecord ++ messages.map backupRecord)
    refine ⟨n, ?_⟩
    rw [RoomPage.records, hbefore, hn, if_pos rfl, hkey, OrderedMap.get?_set_self,
      ← List.map_append, ← List.map_drop, storedRecords_backupText]
  · rw [if_neg hkey, List.append_nil]
    refine ⟨0, ?_⟩
    change storedRecords ((page.localStorage.set (backupKey page.client.roomName) _).get? key) = _
    rw [OrderedMap.get?_set_ne _ _ (Ne.symm hkey)]
    exact hheld

/-- An answer shows its messages, keeps them, and moves the cursor behind them. -/
theorem messagesAnswered_eq (page : RoomPage) (coldEntry : Bool) (reply : Option Reply)
    (now : Nat) : ∃ moved,
      Settles moved (page.messagesAnswered coldEntry reply now true).client ∧
      moved.seen = page.client.seen ++
        (unseen page.client.seen (replyMessages reply)).map (·.id) ∧
      moved.live = page.client.live ++ unseen page.client.seen (replyMessages reply) ∧
      moved.cursor = max page.client.cursor ((answerCursor coldEntry reply).getD 0) ∧
      moved.send = page.client.send ∧
      (page.messagesAnswered coldEntry reply now true).localStorage =
        (RoomPage.recordBackupBatch
          { page with
            client := page.client.showMessages (unseen page.client.seen (replyMessages reply)) }
          (unseen page.client.seen (replyMessages reply)) now true).localStorage := by
  let fresh := unseen page.client.seen (replyMessages reply)
  obtain ⟨backupCursor, hkept⟩ := recordBackupBatch_client
    { page with client := page.client.showMessages fresh } fresh now true
  refine ⟨_, settles_finishAnswer _ _, ?_, ?_, ?_, ?_, rfl⟩
  all_goals
    rw [followAnswer_eq, hkept]
    rfl

/-- A message of the log that was ever kept trails what the batch is added to. -/
theorem trail_unseen {coldEntry : Bool} {fetch : Fetch} (hasked : Asked visits coldEntry fetch)
    {served : List Message} (hlog : Cursor.Increasing Message.id visits.page.log)
    (hoff : ∀ message ∈ visits.offRecord, message ∈ visits.page.log)
    (hserved : served <+: visits.page.log)
    (hsafe : ∀ message ∈ served, message.id < newestPageBeforeId) {message : Message}
    (hmem : message ∈ served) (hkept : message ∉ visits.offRecord) :
    Trail message (unseen visits.page.client.seen (fetch.page served)) := by
  obtain ⟨hinc, -, hpage⟩ := hasked.asks.page (hlog.sublist hserved.sublist) hsafe
  have hsub := unseen_sublist visits.page.client.seen (fetch.page served)
  rcases hpage message hmem with ⟨hon, hnewer⟩ | holder
  · by_cases hseen : message.id ∈ visits.page.client.seen
    · rcases hasked.seen message.id hseen with ⟨shown, hshown, heq⟩ | ⟨hcold, hle⟩
      · obtain rfl := eq_of_id_eq hlog (hoff shown hshown) (hserved.subset hmem) heq
        exact absurd hshown hkept
      · exact absurd (hnewer hcold) (Nat.not_lt_of_le hle)
    · exact trail_of_mem (hinc.sublist hsub) (mem_unseen_self hinc hon hseen)
  · exact trail_of_newer fun later hlater => holder later (hsub.subset hlater)

theorem Tracked.messagesAnswered (h : Tracked key visits held) {coldEntry : Bool}
    {fetch : Fetch} (hpoll : visits.page.client.poll = .messages coldEntry fetch)
    {reply : Reply} (hanswer : fetch.answer = some reply) (now : Nat) :
    ∃ held', Tracked key
      ⟨visits.page.messagesAnswered coldEntry (some reply) now true,
        visits.shown ++ unseen visits.page.client.seen (replyMessages (some reply)),
        visits.offRecord ++ if backupKey visits.page.client.roomName = key then []
          else unseen visits.page.client.seen (replyMessages (some reply))⟩ held' := by
  have hasked := h.poll _ _ hpoll
  obtain ⟨served, hserved, rfl, hshown⟩ := hasked.answer reply hanswer
  have hsafe : ∀ message ∈ served, message.id < newestPageBeforeId := fun message hmem =>
    (h.safe message (hserved.subset hmem)).2
  obtain ⟨hinc, hpage, -⟩ := hasked.asks.page (h.increasing.sublist hserved.sublist) hsafe
  obtain ⟨moved, hsettles, hseen, hlive, hcursor, hsend, hstored⟩ :=
    messagesAnswered_eq visits.page coldEntry
      (some (messagePage served fetch.sinceId fetch.beforeId fetch.limit)) now
  have hlog := messagesAnswered_log visits.page coldEntry
    (some (messagePage served fetch.sinceId fetch.beforeId fetch.limit)) now true
  have hserves : replyMessages (some (messagePage served fetch.sinceId fetch.beforeId
      fetch.limit)) = fetch.page served := rfl
  rw [hserves] at hseen hlive hstored ⊢
  have hsub := unseen_sublist visits.page.client.seen (fetch.page served)
  have htrail : ∀ message ∈ served, message ∉ visits.offRecord →
      Trail message (unseen visits.page.client.seen (fetch.page served)) :=
    fun message hmem hkept => trail_unseen hasked h.increasing
      (fun off hoff => h.logged off (h.shown off hoff)) hserved hsafe hmem hkept
  have hfresh : ∀ message ∈ unseen visits.page.client.seen (fetch.page served),
      message ∈ visits.page.log ∧ message.id ≤ moved.cursor := by
    intro message hmem
    have hon := hsub.subset hmem
    refine ⟨hserved.subset (hpage message hon), ?_⟩
    rw [hcursor]
    exact (le_answerCursor hasked.asks hinc hon).trans (Nat.le_max_right _ _)
  have hinc' := hinc.sublist hsub
  obtain ⟨fresh, hnew⟩ : ∃ fresh, unseen visits.page.client.seen (fetch.page served) = fresh :=
    ⟨_, rfl⟩
  rw [hnew] at hseen hlive hstored hinc' htrail hfresh ⊢
  generalize visits.page.messagesAnswered coldEntry (some (messagePage served fetch.sinceId
    fetch.beforeId fetch.limit)) now true = page at hsettles hlog hstored ⊢
  let shown : RoomPage := { visits.page with client := visits.page.client.showMessages fresh }
  have hheld : shown.records key = held.map backupRecord := h.records
  obtain ⟨n, hrecords⟩ := records_recordBackupBatch hheld fresh now
  have hrecords' : page.records key =
      ((held ++ if backupKey visits.page.client.roomName = key then fresh else []).drop n).map
        backupRecord := by
    rw [RoomPage.records, hstored]
    exact hrecords
  refine ⟨_,
    { increasing := ?_
      safe := ?_
      records := hrecords'
      logged := ?_
      shown := ?_
      trails := ?_
      reached := ?_
      poll := ?_
      sending := ?_ }⟩
  · rw [hlog]
    exact h.increasing
  · rw [hlog]
    exact h.safe
  · intro message hmem
    rw [hlog]
    rcases List.mem_append.mp hmem with hmem | hmem
    · exact h.logged message hmem
    · exact (hfresh message hmem).1
  · intro message hmem
    rcases List.mem_append.mp hmem with hmem | hmem
    · exact List.mem_append_left _ (h.shown message hmem)
    · split_ifs at hmem
      · cases hmem
      · exact List.mem_append_right _ hmem
  · intro message hmem
    by_cases hoff : message ∈ visits.offRecord
    · exact .inl (List.mem_append_left _ hoff)
    rcases List.mem_append.mp hmem with hmem | hmem
    · right
      have hserved' := (hshown message hmem).resolve_right hoff
      refine (((h.trails message hmem).resolve_left hoff).append ?_).drop n
      split_ifs
      · exact htrail message hserved' hoff
      · exact trail_of_newer fun _ hlater => by cases hlater
    · split_ifs with hkey
      · exact .inr ((trail_append_of_mem held hinc' hmem).drop n)
      · exact .inl (List.mem_append_right _ hmem)
  · intro id hid
    rw [hsettles.seen, hseen] at hid
    rw [hsettles.cursor]
    rcases List.mem_append.mp hid with hid | hid
    · rw [hcursor]
      exact (h.reached id hid).trans (Nat.le_max_left _ _)
    · obtain ⟨message, hmem, rfl⟩ := List.mem_map.mp hid
      exact (hfresh message hmem).2
  · intro coldEntry' fetch' hmessages
    have hsettled := hsettles.poll
    rw [hmessages] at hsettled
    cases hsettled
  · intro sending hsending
    rw [hsettles.send, hsend] at hsending
    rw [hlog]
    exact h.sending sending hsending

theorem messagesAnswered_live (page : RoomPage) (coldEntry : Bool) (reply : Option Reply)
    (now : Nat) : (page.messagesAnswered coldEntry reply now true).client.live =
      page.client.live ++ unseen page.client.seen (replyMessages reply) := by
  obtain ⟨moved, hsettles, -, hlive, -⟩ := messagesAnswered_eq page coldEntry reply now
  exact hsettles.live.trans hlive

/-! ### Entries and losses -/

/-- A page with nothing on the screen. -/
theorem Tracked.emptied (h : Tracked key visits held)
    {localStorage : OrderedMap String (List Char)} {client : RoomClient}
    (hseen : client.seen = []) (hpoll : client.poll.isMessages = false)
    (hsend : ∀ sending, client.send = some sending →
      ∀ sent, sending.answer = some sent → sent ∈ visits.page.log)
    {held' : List Message} (hrecords : storedRecords (localStorage.get? key) =
      held'.map backupRecord) (hheld : held' = held ∨ held' = []) :
    Tracked key { visits with page := { visits.page with localStorage, client } } held' := by
  refine
    { h with
      records := hrecords
      trails := fun message hmem => ?_
      reached := fun id hid => ?_
      poll := fun coldEntry fetch hmessages => ?_
      sending := hsend }
  · rcases hheld with rfl | rfl
    · exact h.trails message hmem
    · exact .inr (trail_of_newer fun _ hlater => by cases hlater)
  · change id ∈ client.seen at hid
    rw [hseen] at hid
    cases hid
  · change client.poll = _ at hmessages
    rw [hmessages] at hpoll
    cases hpoll

/-- The restored history is dropped, and a poll begins. -/
theorem Tracked.discarded (h : Tracked key visits held) :
    ∃ held', Tracked key { visits with page :=
      { visits.page.discardRestoredHistory with
        client := { visits.page.discardRestoredHistory.client with poll := .idle }.pollMessages } }
      held' := by
  let emptied : RoomPage := { visits.page.discardRestoredHistory with
    client := { visits.page.discardRestoredHistory.client with poll := .idle } }
  have hemptied : ∃ held', Tracked key { visits with page := emptied } held' := by
    by_cases hkey : backupKey visits.page.client.roomName = key
    · refine ⟨[], h.emptied rfl rfl ?_ ?_ (.inr rfl)⟩
      · exact h.sending
      · change storedRecords ((OrderedMap.delete _ (backupKey visits.page.client.roomName)).get?
          key) = _
        rw [hkey, OrderedMap.get?_delete_self]
        rfl
    · refine ⟨held, h.emptied rfl rfl ?_ ?_ (.inl rfl)⟩
      · exact h.sending
      · change storedRecords ((OrderedMap.delete _ (backupKey visits.page.client.roomName)).get?
          key) = _
        rw [OrderedMap.get?_delete_ne _ (Ne.symm hkey)]
        exact h.records
  obtain ⟨held', hheld⟩ := hemptied
  exact ⟨held', hheld.pollMessages⟩

/-- The cursor is seeded with the newest message that is restored. -/
theorem seedEntryFromBackup_reached (client : RoomClient) (hnone : client.seen = [])
    (stored : Option (List Char)) (renders : Bool) :
    (∀ id ∈ (client.seedEntryFromBackup stored renders).seen,
        id ≤ (client.seedEntryFromBackup stored renders).cursor) ∧
      (client.seedEntryFromBackup stored renders).poll = client.poll ∧
      (client.seedEntryFromBackup stored renders).send = client.send ∧
      (client.seedEntryFromBackup stored renders).live = client.live := by
  have hascending := readBackupForSeed_ascending stored
  unfold RoomClient.seedEntryFromBackup
  dsimp only
  split
  · refine ⟨fun id hid => ?_, rfl, rfl, rfl⟩
    rw [hnone] at hid
    cases hid
  · rename_i highest hlast
    split_ifs
    · refine ⟨fun id hid => ?_, rfl, rfl, rfl⟩
      change id ∈ client.seen ++ _ at hid
      change id ≤ highest.id.toNat
      rw [hnone, List.nil_append] at hid
      obtain ⟨message, hmem, rfl⟩ := List.mem_map.mp hid
      refine Int.toNat_le_toNat ?_
      rcases List.eq_nil_or_concat (readBackupForSeed stored) with hempty | ⟨front, last, heq⟩
      · rw [hempty] at hmem
        cases hmem
      · rw [heq, List.concat_eq_append] at hascending hlast hmem
        rw [List.getLast?_concat] at hlast
        obtain rfl := Option.some.inj hlast
        rcases List.mem_append.mp hmem with hfront | hsame
        · exact le_of_lt ((List.pairwise_append.mp (List.pairwise_map.mp hascending)).2.2 message
            hfront last (List.mem_singleton_self last))
        · exact le_of_eq (congrArg RestoredMessage.id (List.mem_singleton.mp hsame))
    · exact ⟨(fun _ hid => by cases hid), rfl, rfl, rfl⟩

/-- The page is loaded again. -/
theorem Tracked.entered (h : Tracked key visits held) (roomName : Option String)
    (closed renders : Bool) :
    Tracked key { visits with page := visits.page.enterRoom roomName closed renders } held := by
  obtain ⟨hreached, hpoll, hsend, -⟩ := seedEntryFromBackup_reached
    { RoomClient.initial with roomName, closed } rfl
    (visits.page.localStorage.get? (backupKey roomName)) renders
  have hseeded : Tracked key { visits with page := { visits.page with
      client := RoomClient.seedEntryFromBackup { RoomClient.initial with roomName, closed }
        (visits.page.localStorage.get? (backupKey roomName)) renders } } held := by
    refine h.client hreached (fun coldEntry fetch hmessages => ?_) (fun sending hsending => ?_)
    · rw [hpoll] at hmessages
      cases hmessages
    · rw [hsend] at hsending
      cases hsending
  exact hseeded.pollMessages

/-! ### Steps -/

/-- An event that leaves the rows, or takes them all away. -/
theorem Tracked.quiet {event : PageEvent} {held' : List Message}
    (hnext : Tracked key { visits with page := visits.page.step event } held')
    (hlive : (visits.page.step event).client.live = visits.page.client.live ∨
      (visits.page.step event).client.live = []) :
    ∃ held', Tracked key (visits.step key event) held' := by
  have hrows : visits.page.newRows event = [] := by
    unfold RoomPage.newRows
    rcases hlive with hsame | hnone
    · rw [hsame, List.drop_length]
    · rw [hnone, List.drop_nil]
  rw [step_of_newRows hrows]
  exact ⟨held', hnext⟩

theorem pollMessages_live (client : RoomClient) : client.pollMessages.live = client.live := by
  rcases pollMessages_cases client with hsame | ⟨-, hasks⟩ | hasks
  · rw [hsame]
  · rw [hasks]
  · rw [hasks]

/-- What an answer can be. -/
theorem pollAnswered_cases (page : RoomPage) (now : Nat) (written : Bool) :
    page.pollAnswered now written = page ∨
    (∃ coldEntry fetch reply, page.client.poll = .messages coldEntry fetch ∧
      fetch.answer = some reply ∧ page.pollAnswered now written =
        page.messagesAnswered coldEntry (some reply) now written) ∨
    (∃ head reply, page.pollAnswered now written = page.headAnswered head (some reply)) ∨
    page.pollAnswered now written = { page with client := page.client.endPoll } := by
  unfold RoomPage.pollAnswered
  cases hpoll : page.client.poll with
  | idle => exact .inl rfl
  | messages coldEntry fetch =>
      cases hanswer : fetch.answer with
      | none => exact .inl (if_pos hanswer)
      | some reply =>
          refine .inr (.inl ⟨coldEntry, fetch, reply, rfl, hanswer, ?_⟩)
          simp [hanswer]
  | restoredHead head fetch =>
      cases hanswer : fetch.answer with
      | none => exact .inl (if_pos hanswer)
      | some reply => exact .inr (.inr (.inl ⟨head, reply, by simp [hanswer]⟩))
  | seededAuthors fetch =>
      cases hanswer : fetch.answer with
      | none => exact .inl (if_pos hanswer)
      | some reply => exact .inr (.inr (.inr (by simp [hanswer])))

theorem Tracked.pollAnswered (h : Tracked key visits held) (now : Nat) :
    ∃ held', Tracked key (visits.step key (.pollAnswered now true)) held' := by
  obtain hsame | ⟨coldEntry, fetch, reply, hpoll, hanswer, hshows⟩ | ⟨head, reply, hverified⟩ |
    hended := pollAnswered_cases visits.page now true
  · refine quiet
      (show Tracked key { visits with page := visits.page.pollAnswered now true } held by
        rw [hsame]
        exact h)
      (.inl (congrArg (fun page => page.client.live) hsame))
  · obtain ⟨held', hheld⟩ := h.messagesAnswered hpoll hanswer now
    have hrows : visits.page.newRows (.pollAnswered now true) =
        unseen visits.page.client.seen (replyMessages (some reply)) := by
      change (visits.page.pollAnswered now true).client.live.drop _ = _
      rw [hshows, messagesAnswered_live, List.drop_left]
    have hrecorded : (visits.page.recordsUnder key (.pollAnswered now true) = true) =
        (backupKey visits.page.client.roomName = key) := by
      simp [RoomPage.recordsUnder, PageEvent.isPollAnswer]
    refine ⟨held', ?_⟩
    unfold Visits.step
    rw [hrows]
    simp only [hrecorded]
    change Tracked key ⟨visits.page.pollAnswered now true, _, _⟩ held'
    rw [hshows]
    exact hheld
  · have hlive : (visits.page.step (.pollAnswered now true)).client.live =
          visits.page.client.live ∨
        (visits.page.step (.pollAnswered now true)).client.live = [] := by
      change (visits.page.pollAnswered now true).client.live = _ ∨
        (visits.page.pollAnswered now true).client.live = []
      rw [hverified, RoomPage.headAnswered]
      split_ifs
      · exact .inl (settles_confirmSeededAuthors _).live
      · exact .inr (pollMessages_live _)
    have hnext : ∃ held', Tracked key
        { visits with page := visits.page.pollAnswered now true } held' := by
      rw [hverified, RoomPage.headAnswered]
      split_ifs
      · exact ⟨held, h.settles (settles_confirmSeededAuthors _)⟩
      · exact h.discarded
    obtain ⟨held', hheld⟩ := hnext
    exact quiet hheld hlive
  · refine quiet
      (show Tracked key { visits with page := visits.page.pollAnswered now true } held by
        rw [hended]
        exact h.settles (settles_endPoll _))
      (.inl (congrArg (fun page => page.client.live) hended))

/-- The storage takes what it is given. -/
def PageEvent.isWritten : PageEvent → Bool
  | .pollAnswered _ written => written
  | _ => true

theorem Tracked.pollFailed (h : Tracked key visits held) (closes : Bool) :
    Tracked key { visits with page := { visits.page with
      client := visits.page.client.pollFailed closes } } held ∧
      (visits.page.client.pollFailed closes).live = visits.page.client.live := by
  have hfailed : visits.page.client.pollFailed closes = visits.page.client ∨
      Settles visits.page.client (visits.page.client.pollFailed closes) := by
    unfold RoomClient.pollFailed
    cases visits.page.client.poll with
    | idle => exact .inl rfl
    | messages coldEntry fetch => exact .inr ⟨rfl, rfl, rfl, rfl, rfl⟩
    | restoredHead head fetch => exact .inr (settles_confirmSeededAuthors _)
    | seededAuthors fetch => exact .inr (settles_endPoll _)
  rcases hfailed with hsame | hsettles
  · rw [hsame]
    exact ⟨h, rfl⟩
  · exact ⟨h.settles hsettles, hsettles.live⟩

/-- A send that begins or ends without an answer, or a text that changes. -/
theorem Tracked.sends (h : Tracked key visits held) {client : RoomClient}
    (hseen : client.seen = visits.page.client.seen)
    (hcursor : client.cursor = visits.page.client.cursor)
    (hpoll : client.poll = visits.page.client.poll)
    (hsend : ∀ sending, client.send = some sending →
      ∀ sent, sending.answer = some sent → sent ∈ visits.page.log) :
    Tracked key { visits with page := { visits.page with client } } held := by
  refine h.client (fun id hid => ?_) (fun coldEntry fetch hmessages => ?_) hsend
  · rw [hseen] at hid
    rw [hcursor]
    exact h.reached id hid
  · rw [hpoll] at hmessages
    have hasked := h.poll coldEntry fetch hmessages
    refine ⟨hasked.asks, fun id hid => hasked.seen id ?_, hasked.answer⟩
    rw [← hseen]
    exact hid

theorem Tracked.submitMessage (h : Tracked key visits held) (value : String)
    (replyTo : Option Nat) (clientMsgId : String) :
    Tracked key { visits with page := { visits.page with
      client := visits.page.client.submitMessage value replyTo clientMsgId } } held ∧
      (visits.page.client.submitMessage value replyTo clientMsgId).live =
        visits.page.client.live := by
  unfold RoomClient.submitMessage
  dsimp only
  split_ifs
  · exact ⟨h, rfl⟩
  · refine ⟨h.sends rfl rfl rfl fun sending hsending sent hsent => ?_, rfl⟩
    obtain rfl := Option.some.inj hsending
    cases hsent

theorem Tracked.storeSent (h : Tracked key visits held) (stored : Message) :
    Tracked key { visits with page := visits.page.storeSent stored } held ∧
      (visits.page.storeSent stored).client.live = visits.page.client.live := by
  unfold RoomPage.storeSent
  split
  · split
    · rename_i pending hsend found hfound
      refine ⟨h.sends rfl rfl rfl fun sending hsending sent hsent => ?_, rfl⟩
      obtain rfl := Option.some.inj hsending
      obtain rfl := Option.some.inj hsent
      exact List.mem_of_find?_eq_some hfound
    · split_ifs with hstored
      · refine ⟨(h.grow hstored.2.2).sends rfl rfl rfl
          fun sending hsending sent hsent => ?_, rfl⟩
        obtain rfl := Option.some.inj hsending
        obtain rfl := Option.some.inj hsent
        exact List.mem_append_right _ (List.mem_singleton_self _)
      · exact ⟨h, rfl⟩
  · exact ⟨h, rfl⟩

/-- The answer to a send shows an own message, off the record. -/
theorem Tracked.sendAnswered (h : Tracked key visits held) :
    ∃ held', Tracked key (visits.step key .sendAnswered) held' := by
  rcases hsend : visits.page.client.send with _ | ⟨pending, _ | sent⟩
  · have hsame : visits.page.client.sendAnswered = visits.page.client := by
      rw [RoomClient.sendAnswered, hsend]
    refine quiet (show Tracked key { visits with page := { visits.page with
        client := visits.page.client.sendAnswered } } held from ?_)
      (.inl (congrArg RoomClient.live hsame))
    rw [hsame]
    exact h
  · have hsame : visits.page.client.sendAnswered = visits.page.client := by
      rw [RoomClient.sendAnswered, hsend]
    refine quiet (show Tracked key { visits with page := { visits.page with
        client := visits.page.client.sendAnswered } } held from ?_)
      (.inl (congrArg RoomClient.live hsame))
    rw [hsame]
    exact h
  · have hmem : sent ∈ visits.page.log := h.sending _ hsend sent rfl
    by_cases hseen : sent.id ∈ visits.page.client.seen
    · have hshown : visits.page.client.sendAnswered =
          { visits.page.client with send := none, pendingSend := none } := by
        rw [RoomClient.sendAnswered, hsend]
        exact if_pos hseen
      refine quiet (show Tracked key { visits with page := { visits.page with
          client := visits.page.client.sendAnswered } } held from ?_)
        (.inl (show visits.page.client.sendAnswered.live = _ by rw [hshown]))
      rw [hshown]
      exact h.sends rfl rfl rfl fun _ hsending => by cases hsending
    · have hshown : visits.page.client.sendAnswered = { visits.page.client with
          send := none
          pendingSend := none
          seen := visits.page.client.seen ++ [sent.id]
          live := visits.page.client.live ++ [sent]
          cursor := max visits.page.client.cursor sent.id } := by
        rw [RoomClient.sendAnswered, hsend]
        dsimp only
        rw [if_neg hseen, advanceCursorTo_eq]
      have hrows : visits.page.newRows .sendAnswered = [sent] := by
        change visits.page.client.sendAnswered.live.drop _ = _
        rw [hshown]
        exact List.drop_left
      refine ⟨held, ?_⟩
      unfold Visits.step
      rw [hrows]
      change Tracked key ⟨{ visits.page with client := visits.page.client.sendAnswered },
        visits.shown ++ [sent], visits.offRecord ++ [sent]⟩ held
      rw [hshown]
      refine
        { h with
          logged := ?_
          shown := ?_
          trails := ?_
          reached := ?_
          poll := ?_
          sending := fun _ hsending => by cases hsending }
      · intro message hmessage
        rcases List.mem_append.mp hmessage with hmessage | hmessage
        · exact h.logged message hmessage
        · rw [List.mem_singleton.mp hmessage]
          exact hmem
      · intro message hmessage
        rcases List.mem_append.mp hmessage with hmessage | hmessage
        · exact List.mem_append_left _ (h.shown message hmessage)
        · exact List.mem_append_right _ hmessage
      · intro message hmessage
        rcases List.mem_append.mp hmessage with hmessage | hmessage
        · exact (h.trails message hmessage).imp_left (List.mem_append_left _)
        · exact .inl (List.mem_append_right _ hmessage)
      · intro id hid
        change id ≤ max _ _
        rcases List.mem_append.mp hid with hid | hid
        · exact (h.reached id hid).trans (Nat.le_max_left _ _)
        · rw [List.mem_singleton.mp hid]
          exact Nat.le_max_right _ _
      · intro coldEntry fetch hmessages
        have hasked := h.poll coldEntry fetch hmessages
        refine ⟨hasked.asks, fun id hid => ?_, fun reply hreply => ?_⟩
        · rcases List.mem_append.mp hid with hid | hid
          · refine (hasked.seen id hid).imp_left ?_
            rintro ⟨message, hmessage, rfl⟩
            exact ⟨message, List.mem_append_left _ hmessage, rfl⟩
          · exact .inl ⟨sent, List.mem_append_right _ (List.mem_singleton_self _),
              (List.mem_singleton.mp hid).symm⟩
        · obtain ⟨served, hserved, heq, hshown⟩ := hasked.answer reply hreply
          refine ⟨served, hserved, heq, fun message hmessage => ?_⟩
          rcases List.mem_append.mp hmessage with hmessage | hmessage
          · exact (hshown message hmessage).imp_right (List.mem_append_left _)
          · exact .inr (List.mem_append_right _ hmessage)

/-- Every event keeps track, if the storage takes what it is given. -/
theorem Tracked.step (h : Tracked key visits held) {event : PageEvent}
    (hwritten : event.isWritten = true) :
    ∃ held', Tracked key (visits.step key event) held' := by
  cases event with
  | appended message =>
      have hnext : Tracked key { visits with page := visits.page.step (.appended message) }
          held := by
        unfold RoomPage.step
        dsimp only
        split_ifs with hnext
        · exact h.grow hnext
        · exact h
      refine quiet hnext (.inl ?_)
      unfold RoomPage.step
      dsimp only
      split_ifs
      · rfl
      · rfl
  | entered roomName closed renders =>
      refine quiet (h.entered roomName closed renders) (.inr ?_)
      exact (pollMessages_live _).trans (seedEntryFromBackup_reached _ rfl _ _).2.2.2
  | statusLoaded roomName closed =>
      have hnext : Tracked key
          { visits with page := visits.page.step (.statusLoaded roomName closed) } held :=
        h.sends rfl rfl rfl h.sending
      exact quiet hnext (.inl rfl)
  | pollStarts => exact quiet h.pollMessages (.inl (pollMessages_live _))
  | pollServed => exact quiet h.pollServed (.inl rfl)
  | pollAnswered now written =>
      obtain rfl : written = true := hwritten
      exact h.pollAnswered now
  | pollFails closes =>
      obtain ⟨hnext, hlive⟩ := h.pollFailed closes
      exact quiet hnext (.inl hlive)
  | typed text replyTo => exact quiet (h.sends rfl rfl rfl h.sending) (.inl rfl)
  | sendStarts value replyTo clientMsgId =>
      by_cases hused : (visits.page.log.any fun message =>
          message.clientMsgId == some clientMsgId) = true
      · have hsame : visits.page.step (.sendStarts value replyTo clientMsgId) = visits.page :=
          if_pos hused
        refine quiet (show Tracked key { visits with
            page := visits.page.step (.sendStarts value replyTo clientMsgId) } held from ?_)
          (.inl (by rw [hsame]))
        rw [hsame]
        exact h
      · have hstarts : visits.page.step (.sendStarts value replyTo clientMsgId) =
            { visits.page with
              client := visits.page.client.submitMessage value replyTo clientMsgId } :=
          if_neg hused
        obtain ⟨hnext, hlive⟩ := h.submitMessage value replyTo clientMsgId
        refine quiet (show Tracked key { visits with
            page := visits.page.step (.sendStarts value replyTo clientMsgId) } held from ?_)
          (.inl (by rw [hstarts]; exact hlive))
        rw [hstarts]
        exact hnext
  | sendServed stored =>
      obtain ⟨hnext, hlive⟩ := h.storeSent stored
      exact quiet hnext (.inl hlive)
  | sendAnswered => exact h.sendAnswered
  | sendFails =>
      have hnext : Tracked key { visits with page := visits.page.step .sendFails } held :=
        h.sends rfl rfl rfl fun _ hsending => by cases hsending
      exact quiet hnext (.inl rfl)

end Events

/-! ## Restoring -/

theorem readBackupForSeed_eq (stored : Option (List Char)) :
    readBackupForSeed stored =
      (OrderedMap.setAll RestoredMessage.id (fun _ message => message) .empty
        ((storedRecords stored).filterMap readEntry)).values.mergeSort
          fun left right => left.id ≤ right.id := by
  have hnone : ([] : List RestoredMessage) =
      (OrderedMap.setAll RestoredMessage.id (fun _ message => message) .empty
        (([] : List Json).filterMap readEntry)).values.mergeSort
          fun left right => left.id ≤ right.id := by
    rw [List.filterMap_nil]
    exact (List.mergeSort_nil).symm
  unfold readBackupForSeed storedRecords
  cases stored.bind Json.parse with
  | none => exact hnone
  | some parsed =>
      dsimp only
      cases parsed.field? "messages" with
      | none => exact hnone
      | some field =>
          cases field with
          | arr entries => rfl
          | _ => exact hnone

theorem isoString_ne_empty (ms : Nat) : Time.isoString ms ≠ "" := by
  unfold Time.isoString
  obtain ⟨date, hdate⟩ : ∃ date, Time.civil (ms / 86400000) = date := ⟨_, rfl⟩
  rw [hdate]
  obtain ⟨year, month, day⟩ := date
  dsimp only
  intro h
  have hlength := congrArg String.toList h
  rw [String.toList_ofList, String.toList_empty, List.append_eq_nil_iff] at hlength
  exact List.cons_ne_nil _ _ hlength.2

/-- Every record that may be restored is. -/
theorem mem_readBackupForSeed {stored : Option (List Char)} {message : Message}
    (hrecord : backupRecord message ∈ storedRecords stored) (hpos : 0 < message.id)
    (htype : isRestorableStoredType (some (.str message.type.name)) = true) :
    (message.id : Int) ∈ (readBackupForSeed stored).map (·.id) := by
  have hid : 0 < (message.id : Int) := Int.natCast_pos.mpr hpos
  have hentry : readEntry (backupRecord message) = some ⟨message.id, message.sender,
      Time.isoString message.ts, redactForBackup (some (.str
        (redactForBackup (some (.str message.text)))))⟩ := by
    refine if_pos ?_
    change (decide (0 < (message.id : Int)) && Time.isoString message.ts != "" &&
      isRestorableStoredType (some (.str message.type.name))) = true
    rw [decide_eq_true hid, htype, bne_iff_ne.mpr (isoString_ne_empty _)]
    rfl
  rw [readBackupForSeed_eq]
  have hnames := @OrderedMap.names_setAll _ _ _ _ RestoredMessage.id
    (fun _ message => message) RestoredMessage.id (fun _ _ => rfl) .empty
    (OrderedMap.names_empty _) ((storedRecords stored).filterMap readEntry)
  rw [((List.mergeSort_perm _ _).map _).mem_iff, OrderedMap.map_values hnames,
    OrderedMap.mem_keys_setAll]
  right
  exact List.mem_map.mpr ⟨_, List.mem_filterMap.mpr ⟨_, hrecord, hentry⟩, rfl⟩

theorem pollMessages_restored (client : RoomClient) :
    client.pollMessages.restored = client.restored := by
  rcases pollMessages_cases client with hsame | ⟨-, hasks⟩ | hasks
  · rw [hsame]
  · rw [hasks]
  · rw [hasks]

/-- A page that is loaded restores what the backup holds. -/
theorem enterRoom_restored (page : RoomPage) (roomName : Option String) (closed : Bool) :
    (page.enterRoom roomName closed true).client.restored =
      readBackupForSeed (page.localStorage.get? (backupKey roomName)) := by
  refine (pollMessages_restored _).trans ?_
  unfold RoomClient.seedEntryFromBackup
  dsimp only
  split
  · rename_i hnone
    exact (List.getLast?_eq_none_iff.mp hnone).symm
  · rfl

/-! ## Runs -/

section Runs

variable {key : String} {visits : Visits} {held : List Message}

/-- What was kept is covered, so that only what is off the record may not be. -/
theorem Tracked.covered (h : Tracked key visits held)
    (hoff : visits.page.Keeps key visits.offRecord) : visits.Covered key := by
  have hkeeps : visits.page.Keeps key visits.shown := by
    intro message hmem htype hencloses
    rcases h.trails message hmem with hoffRecord | htrail
    · exact hoff message hoffRecord htype hencloses
    · rw [h.records]
      exact List.mem_map_of_mem (htrail.mem h.records hencloses)
  refine ⟨hkeeps, fun message hmem htype hencloses roomName closed hkey => ?_⟩
  rw [enterRoom_restored, hkey]
  exact mem_readBackupForSeed (hkeeps message hmem htype hencloses)
    (h.safe message (h.logged message hmem)).1 htype

theorem tracked_firstVisit (self : String) {localStorage : OrderedMap String (List Char)}
    (hnone : localStorage.get? key = none) :
    Tracked key (firstVisit self localStorage) [] where
  increasing := List.Pairwise.nil
  safe _ h := by cases h
  records := by
    change storedRecords (localStorage.get? key) = []
    rw [hnone]
    rfl
  logged _ h := by cases h
  shown _ h := by cases h
  trails _ h := by cases h
  reached _ h := by cases h
  poll _ _ h := by cases h
  sending _ h := by cases h

/-- The visits behind the events. -/
def Visits.run (key : String) (visits : Visits) (events : List PageEvent) : Visits :=
  events.foldl (Visits.step key) visits

theorem Visits.run_concat (key : String) (visits : Visits) (events : List PageEvent)
    (event : PageEvent) :
    visits.run key (events ++ [event]) = (visits.run key events).step key event :=
  List.foldl_append

theorem exec_visitsMachine (key : String) (init : Visits) (events : List PageEvent) :
    ((visitsMachine key init).exec events).1 = init.run key events := by
  induction events using List.reverseRecOn with
  | nil => rfl
  | append_singleton events event ih =>
      rw [Machine.exec_concat, Visits.run_concat, ← ih]
      rfl

theorem Tracked.run (h : Tracked key visits held) {events : List PageEvent}
    (hwritten : ∀ event ∈ events, event.isWritten = true) :
    ∃ held', Tracked key (visits.run key events) held' := by
  induction events using List.reverseRecOn with
  | nil => exact ⟨held, h⟩
  | append_singleton events event ih =>
      obtain ⟨held', hheld⟩ := ih fun e he => hwritten e (List.mem_append_left _ he)
      rw [Visits.run_concat]
      exact hheld.step (hwritten event (List.mem_append_right _ (List.mem_singleton_self _)))

/-- What is off the record stays so. -/
theorem offRecord_prefix (key : String) (visits : Visits) (event : PageEvent) :
    visits.offRecord <+: (visits.step key event).offRecord :=
  List.prefix_append _ _

/-- Where everything has been handed to the backup, nothing is amiss. -/
theorem obeys_of_offRecord {key : String} {init : Visits} {events : List PageEvent}
    (h : (init.run key events).offRecord = []) :
    (visitsMachine key init).Obeys (OffRecordClear key) events := by
  induction events using List.reverseRecOn with
  | nil => trivial
  | append_singleton events event ih =>
      rw [Visits.run_concat] at h
      rw [Machine.obeys_concat, exec_visitsMachine]
      refine ⟨ih (List.prefix_nil.mp (h ▸ offRecord_prefix key _ event)), fun message hmem => ?_⟩
      rw [h] at hmem
      cases hmem

/-- Somebody who has no backup of any room. -/
def stranger : Visits := firstVisit "ann" .empty

/-- The page is loaded and polls; an own message is stored, and a poll brings it before the answer
to its send does. -/
def keptByPoll : List PageEvent :=
  [.appended (roomMessage 1 "host" none), .entered (some "r") false true, .pollServed,
    .pollAnswered 0 true, .sendStarts "hello" none "c",
    .sendServed (roomMessage 2 "ann" (some "c")), .pollStarts, .pollServed, .pollAnswered 0 true,
    .sendAnswered]

/-- Here the answer to the send comes first, and the next poll leaves a gap. -/
example :
    ((stranger.run (backupKey (some "r"))
      [.appended (roomMessage 1 "host" none), .entered (some "r") false true, .pollServed,
        .pollAnswered 0 true, .sendStarts "hello" none "c",
        .sendServed (roomMessage 2 "ann" (some "c")), .sendAnswered,
        .appended (roomMessage 3 "host" none), .pollStarts, .pollServed,
        .pollAnswered 0 true]).page.records (backupKey (some "r"))).filterMap recordId =
      [1, 3] := by decide +kernel

end Runs

end AgentGather.Browser
