import AgentGather.Browser.RoomClient
import AgentGather.Server.Paging

/-!
# The live cursor

A poll asks for what is behind the cursor, so that a message is missed for ever if the cursor
passes it unseen.  After a cold entry it passes none, in every interleaving of the page's polls
and sends with the messages of others, exactly if the answer to an own send never comes while
messages between the cursor and the own one are still to be fetched.
-/

namespace AgentGather.Browser

open AgentGather.Library AgentGather.Protocol AgentGather.Server

/-! ## What the page shows -/

/-- The page that a cold entry asks for. -/
def firstPage (log : List Message) : List Message :=
  replyMessages (some (messagePage log 0 (some newestPageBeforeId) (some earlierPageSize)))

/-- Where it begins. -/
def firstPageStart (log : List Message) : Nat := ((firstPage log).head?.map (·.id)).getD 0

/-- What is between the oldest message on the screen and the cursor has been rendered, nothing has
been rendered twice, and the cursor has passed no message but those before `start`. -/
structure Complete (start : Nat) (page : RoomPage) : Prop where
  covered : ∀ row ∈ page.client.live, ∀ message ∈ page.log, row.id ≤ message.id →
    message.id ≤ page.client.cursor → message.id ∈ page.client.seen
  shown : page.client.seen = page.client.live.map (·.id)
  once : page.client.seen.Nodup
  passed : ∀ message ∈ page.log, message.id ≤ page.client.cursor →
    message.id ∈ page.client.seen ∨ message.id < start

/-- Where the answer to a send makes a message appear, all between the cursor and the message
has been rendered. -/
def RoomPage.sendClear (page : RoomPage) : Bool :=
  match page.client.send with
  | some ⟨_, some sent⟩ =>
      sent.id ∈ page.client.seen || page.log.all fun message =>
        message.id ≤ page.client.cursor || sent.id ≤ message.id ||
          message.id ∈ page.client.seen
  | _ => true

/-- Own sends are answered when nothing is left to be fetched before them. -/
def SendsClear (page : RoomPage) (event : PageEvent) : Prop :=
  (match event with
    | .sendAnswered => page.sendClear
    | _ => true) = true

instance (page : RoomPage) (event : PageEvent) : Decidable (SendsClear page event) :=
  inferInstanceAs (Decidable (_ = true))

def PageEvent.isEntry : PageEvent → Bool
  | .entered _ _ _ => true
  | _ => false

/-- The page is entered and its first poll answered; `missed` is appended in between. -/
def coldEntry (host : RoomPage) (roomName : Option String) (closed renders : Bool)
    (missed : List Message) (now : Nat) (written : Bool) : RoomPage :=
  host.run (.entered roomName closed renders :: .pollServed ::
    (missed.map .appended ++ [.pollAnswered now written]))

/-! ## What always holds -/

/-- Nothing with the client id of a pending send comes before `start`. -/
def SentBehind (start : Nat) (log : List Message) (pending : PendingSend) : Prop :=
  ∀ message ∈ log, message.clientMsgId = some pending.clientMsgId → start ≤ message.id

/-- A request for what is behind the cursor, and its answer. -/
inductive Forward (start : Nat) (log : List Message) (cursor : Nat) : Poll → Prop
  | idle : Forward start log cursor .idle
  | asked {sinceId : Nat} (hstart : start ≤ sinceId) (hsince : sinceId ≤ cursor) :
      Forward start log cursor (.messages false ⟨sinceId, none, none, none⟩)
  | answered {sinceId : Nat} {served : List Message} (hstart : start ≤ sinceId)
      (hsince : sinceId ≤ cursor) (hserved : served <+: log) :
      Forward start log cursor (.messages false
        ⟨sinceId, none, none, some (messagePage served sinceId none none)⟩)

/-- What holds of a page in every interleaving. -/
structure Live (start : Nat) (page : RoomPage) : Prop where
  increasing : Cursor.Increasing Message.id page.log
  shown : page.client.seen = page.client.live.map (·.id)
  once : page.client.seen.Nodup
  behind : ∀ id ∈ page.client.seen, start ≤ id
  reached : start ≤ page.client.cursor
  known : page.client.cursor = 0 ∨ ∃ message ∈ page.log, message.id = page.client.cursor
  loaded : page.client.entryPageLoaded = true
  verified : page.client.seedUnverified = false
  poll : Forward start page.log page.client.cursor page.client.poll
  pending : ∀ pending, page.client.pendingSend = some pending →
    SentBehind start page.log pending
  sending : ∀ sending, page.client.send = some sending →
    SentBehind start page.log sending.pending ∧
      ∀ sent, sending.answer = some sent → sent ∈ page.log ∧ start ≤ sent.id

/-! ## Events -/

section Events

variable {start : Nat} {page : RoomPage}

/-- The log has grown by a message that comes next. -/
theorem Live.grow (h : Live start page) {message : Message}
    (hnext : comesNext page.log message = true) :
    Cursor.Increasing Message.id (page.log ++ [message]) ∧
      page.client.cursor < message.id ∧ start ≤ message.id := by
  obtain ⟨hpos, -, hnewer⟩ := comesNext_iff.mp hnext
  have hcursor : page.client.cursor < message.id := by
    rcases h.known with hzero | ⟨last, hlast, heq⟩
    · rw [hzero]
      exact hpos
    · rw [← heq]
      exact hnewer last hlast
  refine ⟨?_, hcursor, h.reached.trans (Nat.le_of_lt hcursor)⟩
  refine List.pairwise_append.mpr ⟨h.increasing, List.pairwise_singleton _ _, ?_⟩
  intro earlier hearlier later hlater
  rw [List.mem_singleton.mp hlater]
  exact hnewer earlier hearlier

theorem SentBehind.append {log : List Message} {pending : PendingSend} {message : Message}
    (h : SentBehind start log pending) (hstart : start ≤ message.id) :
    SentBehind start (log ++ [message]) pending := by
  intro sent hsent hid
  rcases List.mem_append.mp hsent with hsent | hsent
  · exact h sent hsent hid
  · rw [List.mem_singleton.mp hsent]
    exact hstart

theorem Forward.mono {log log' : List Message} {cursor cursor' : Nat} {poll : Poll}
    (h : Forward start log cursor poll) (hlog : log <+: log') (hcursor : cursor ≤ cursor') :
    Forward start log' cursor' poll := by
  cases h with
  | idle => exact .idle
  | asked hstart hsince => exact .asked hstart (hsince.trans hcursor)
  | answered hstart hsince hserved =>
      exact .answered hstart (hsince.trans hcursor) (hserved.trans hlog)

theorem Live.appended (h : Live start page) {message : Message}
    (hnext : comesNext page.log message = true) :
    Live start { page with log := page.log ++ [message] } := by
  obtain ⟨hincreasing, -, hstart⟩ := h.grow hnext
  exact
    { h with
      increasing := hincreasing
      known := h.known.imp_right fun ⟨last, hlast, heq⟩ =>
        ⟨last, List.mem_append_left _ hlast, heq⟩
      poll := h.poll.mono (List.prefix_append _ _) (Nat.le_refl _)
      pending := fun pending hpending => (h.pending pending hpending).append hstart
      sending := fun sending hsending => by
        obtain ⟨hbehind, hanswer⟩ := h.sending sending hsending
        refine ⟨hbehind.append hstart, fun sent hsent => ?_⟩
        obtain ⟨hmem, hle⟩ := hanswer sent hsent
        exact ⟨List.mem_append_left _ hmem, hle⟩ }

theorem Live.pollMessages (h : Live start page) :
    Live start { page with client := page.client.pollMessages } := by
  unfold RoomClient.pollMessages
  split_ifs
  · exact h
  · exact h
  · have hcold : (!page.client.entryPageLoaded && page.client.cursor == 0 &&
        page.client.seen.isEmpty) = false := by
      rw [h.loaded]
      rfl
    simp only [hcold]
    exact { h with poll := .asked h.reached (Nat.le_refl _) }

theorem Live.pollServed (h : Live start page) :
    Live start { page with
      client := { page.client with poll := page.client.poll.served page.log } } := by
  refine { h with poll := ?_ }
  have hpoll := h.poll
  cases hcase : page.client.poll with
  | idle => exact .idle
  | messages coldEntry fetch =>
      rw [hcase] at hpoll
      cases hpoll with
      | asked hstart hsince => exact .answered hstart hsince (List.prefix_refl _)
      | answered hstart hsince hserved => exact .answered hstart hsince hserved
  | restoredHead head fetch =>
      rw [hcase] at hpoll
      cases hpoll
  | seededAuthors fetch =>
      rw [hcase] at hpoll
      cases hpoll

theorem Live.messagesAnswered (h : Live start page) {sinceId : Nat} {served : List Message}
    (hstart : start ≤ sinceId) (hsince : sinceId ≤ page.client.cursor)
    (hserved : served <+: page.log) (now : Nat) (written : Bool) :
    Live start (page.messagesAnswered false (some (messagePage served sinceId none none)) now
      written) := by
  obtain ⟨backupCursor, hclient⟩ := messagesAnswered_client h.verified false
    (some (messagePage served sinceId none none)) now written
  have hlog := messagesAnswered_log page false (some (messagePage served sinceId none none)) now
    written
  generalize page.messagesAnswered false (some (messagePage served sinceId none none)) now
    written = answered at hclient hlog
  obtain ⟨log, self, localStorage, client⟩ := answered
  obtain rfl : log = page.log := hlog
  obtain rfl := hclient
  refine
    { h with
      shown := ?_
      once := nodup_append_unseen h.once _
      behind := fun id hid => ?_
      reached := h.reached.trans (Nat.le_max_left _ _)
      known := ?_
      loaded := rfl
      poll := .idle }
  · change page.client.seen ++ _ = (page.client.live ++ _).map Message.id
    rw [List.map_append, h.shown]
  · rcases List.mem_append.mp hid with hid | hid
    · exact h.behind id hid
    · exact hstart.trans (Nat.le_of_lt (mem_unseen_since hid))
  · change max page.client.cursor _ = 0 ∨ ∃ message ∈ page.log,
      message.id = max page.client.cursor _
    rcases answerCursor_cases served sinceId with hsame | ⟨last, hlast, heq⟩
    · rw [hsame, max_eq_left hsince]
      exact h.known
    · rcases max_choice page.client.cursor ((answerCursor false
        (some (messagePage served sinceId none none))).getD 0) with hmax | hmax
      · rw [hmax]
        exact h.known
      · rw [hmax]
        exact .inr ⟨last, hserved.subset hlast, heq⟩

theorem Live.pollAnswered (h : Live start page) (now : Nat) (written : Bool) :
    Live start (page.pollAnswered now written) := by
  have hpoll := h.poll
  unfold RoomPage.pollAnswered
  cases hcase : page.client.poll with
  | idle => exact h
  | messages coldEntry fetch =>
      rw [hcase] at hpoll
      cases hpoll with
      | asked hstart hsince => exact h
      | answered hstart hsince hserved =>
          exact h.messagesAnswered hstart hsince hserved now written
  | restoredHead head fetch =>
      rw [hcase] at hpoll
      cases hpoll
  | seededAuthors fetch =>
      rw [hcase] at hpoll
      cases hpoll

theorem Live.pollFailed (h : Live start page) (closes : Bool) :
    Live start { page with client := page.client.pollFailed closes } := by
  have hpoll := h.poll
  unfold RoomClient.pollFailed
  cases hcase : page.client.poll with
  | idle => exact h
  | messages coldEntry fetch => exact { h with poll := .idle }
  | restoredHead head fetch =>
      rw [hcase] at hpoll
      cases hpoll
  | seededAuthors fetch =>
      rw [hcase] at hpoll
      cases hpoll

theorem Live.typed (h : Live start page) (text : String) (replyTo : Option Nat) :
    Live start { page with
      client := page.client.clearPendingSendIfTextChanged text replyTo } :=
  { h with pending := fun pending hpending =>
      h.pending pending (Option.filter_eq_some_iff.mp hpending).1 }

theorem Live.submitMessage (h : Live start page) (value : String) (replyTo : Option Nat)
    {clientMsgId : String}
    (hnew : ∀ message ∈ page.log, message.clientMsgId ≠ some clientMsgId) :
    Live start { page with client := page.client.submitMessage value replyTo clientMsgId } := by
  have hpending (text : String) : SentBehind start page.log
      (page.client.ensurePendingSend text replyTo clientMsgId) := by
    unfold RoomClient.ensurePendingSend
    split
    · rename_i pending hpending
      split_ifs
      · exact h.pending pending hpending
      · exact fun message hmessage hid => (hnew message hmessage hid).elim
    · exact fun message hmessage hid => (hnew message hmessage hid).elim
  unfold RoomClient.submitMessage
  dsimp only
  split_ifs
  · exact h
  · refine { h with pending := ?_, sending := ?_ }
    · rintro pending ⟨⟩
      exact hpending _
    · rintro sending ⟨⟩
      exact ⟨hpending _, fun sent hsent => nomatch hsent⟩

theorem Live.storeSent (h : Live start page) (stored : Message) :
    Live start (page.storeSent stored) := by
  unfold RoomPage.storeSent
  split
  · rename_i pending hsend
    obtain ⟨hbehind, -⟩ := h.sending _ hsend
    split
    · rename_i found hfound
      have hmem := List.mem_of_find?_eq_some hfound
      have hsame := List.find?_some hfound
      simp only [Bool.and_eq_true, beq_iff_eq] at hsame
      refine { h with sending := ?_ }
      rintro sending ⟨⟩
      refine ⟨hbehind, ?_⟩
      rintro sent ⟨⟩
      exact ⟨hmem, hbehind found hmem hsame.2⟩
    · split_ifs with hstored
      · obtain ⟨-, -, hnext⟩ := hstored
        have hstart := (h.grow hnext).2.2
        refine { h.appended hnext with sending := ?_ }
        rintro sending ⟨⟩
        refine ⟨hbehind.append hstart, ?_⟩
        rintro sent ⟨⟩
        exact ⟨List.mem_append_right _ (List.mem_singleton_self _), hstart⟩
      · exact h
  · exact h

theorem Live.sendAnswered (h : Live start page) :
    Live start { page with client := page.client.sendAnswered } := by
  unfold RoomClient.sendAnswered
  split
  · rename_i pending sent hsend
    obtain ⟨-, hanswer⟩ := h.sending _ hsend
    obtain ⟨hmem, hstart⟩ := hanswer sent rfl
    dsimp only
    split_ifs with hseen
    · exact { h with pending := nofun, sending := nofun }
    · rw [advanceCursorTo_eq]
      refine
        { h with
          shown := ?_
          once := h.once.append (List.nodup_singleton _) (List.disjoint_singleton.mpr hseen)
          behind := ?_
          reached := h.reached.trans (Nat.le_max_left _ _)
          known := ?_
          poll := h.poll.mono (List.prefix_refl _) (Nat.le_max_left _ _)
          pending := nofun
          sending := nofun }
      · change page.client.seen ++ [sent.id] = (page.client.live ++ [sent]).map (·.id)
        rw [List.map_append, h.shown]
        rfl
      · intro id hid
        rcases List.mem_append.mp hid with hid | hid
        · exact h.behind id hid
        · rw [List.mem_singleton.mp hid]
          exact hstart
      · change max page.client.cursor sent.id = 0 ∨ ∃ message ∈ page.log,
          message.id = max page.client.cursor sent.id
        rcases max_choice page.client.cursor sent.id with hmax | hmax
        · rw [hmax]
          exact h.known
        · rw [hmax]
          exact .inr ⟨sent, hmem, rfl⟩
  · exact h

/-- Every event but an entry keeps a page as it should be. -/
theorem Live.step (h : Live start page) {event : PageEvent} (hstay : event.isEntry = false) :
    Live start (page.step event) := by
  cases event with
  | appended message =>
      unfold RoomPage.step
      dsimp only
      split_ifs with hnext
      · exact h.appended hnext
      · exact h
  | entered roomName closed renders => cases hstay
  | statusLoaded roomName closed => exact { h with }
  | pollStarts => exact h.pollMessages
  | pollServed => exact h.pollServed
  | pollAnswered now written => exact h.pollAnswered now written
  | pollFails closes => exact h.pollFailed closes
  | typed text replyTo => exact h.typed text replyTo
  | sendStarts value replyTo clientMsgId =>
      unfold RoomPage.step
      dsimp only
      split_ifs with hused
      · exact h
      · refine h.submitMessage value replyTo fun message hmessage hid => hused ?_
        exact List.any_eq_true.mpr ⟨message, hmessage, beq_iff_eq.mpr hid⟩
  | sendServed stored => exact h.storeSent stored
  | sendAnswered => exact h.sendAnswered
  | sendFails => exact { h with sending := nofun }

end Events

/-! ## The cursor passes nothing unseen -/

section Passing

variable {start : Nat} {page : RoomPage}

/-- What the cursor has passed has been rendered, or comes before `start`. -/
def Passed (start : Nat) (page : RoomPage) : Prop :=
  ∀ message ∈ page.log, message.id ≤ page.client.cursor →
    message.id ∈ page.client.seen ∨ message.id < start

theorem Live.complete (h : Live start page) (hpassed : Passed start page) :
    Complete start page where
  covered row hrow message hmessage hle hcursor := by
    have hstart : start ≤ row.id := by
      apply h.behind
      rw [h.shown]
      exact List.mem_map_of_mem hrow
    rcases hpassed message hmessage hcursor with hseen | hbefore
    · exact hseen
    · omega
  shown := h.shown
  once := h.once
  passed := hpassed

theorem Passed.messagesAnswered (h : Live start page) (hpassed : Passed start page)
    {sinceId : Nat} {served : List Message} (hsince : sinceId ≤ page.client.cursor)
    (hserved : served <+: page.log) (now : Nat) (written : Bool) :
    Passed start (page.messagesAnswered false (some (messagePage served sinceId none none)) now
      written) := by
  obtain ⟨backupCursor, hclient⟩ := messagesAnswered_client h.verified false
    (some (messagePage served sinceId none none)) now written
  have hlog := messagesAnswered_log page false (some (messagePage served sinceId none none)) now
    written
  intro message hmessage hle
  rw [hlog] at hmessage
  rw [hclient] at hle ⊢
  change message.id ≤ max page.client.cursor _ at hle
  change message.id ∈ page.client.seen ++ _ ∨ _
  by_cases hold : message.id ≤ page.client.cursor
  · refine (hpassed message hmessage hold).imp_left fun hseen => ?_
    exact List.mem_append_left _ hseen
  · left
    have hshown : message ∈ Cursor.after Message.id served sinceId := by
      refine Cursor.mem_after.mpr ⟨?_, by omega⟩
      rcases answerCursor_cases served sinceId with hsame | ⟨last, hlast, heq⟩
      · omega
      · exact mem_served h.increasing hserved hlast hmessage (by omega)
    by_cases hseen : message.id ∈ page.client.seen
    · exact List.mem_append_left _ hseen
    · refine List.mem_append_right _ (mem_unseen.mpr ⟨?_, hseen⟩)
      exact List.mem_map_of_mem hshown

/-- The cursor stays behind an own message unless nothing is missing before it. -/
theorem passed_sendAnswered (h : Live start page) (hpassed : Passed start page) :
    Passed start { page with client := page.client.sendAnswered } ↔ page.sendClear = true := by
  unfold RoomPage.sendClear RoomClient.sendAnswered
  rcases hsend : page.client.send with _ | ⟨pending, _ | sent⟩
  · exact iff_of_true hpassed rfl
  · exact iff_of_true hpassed rfl
  · obtain ⟨hmem, hstart⟩ := (h.sending _ hsend).2 sent rfl
    dsimp only
    split_ifs with hseen
    · exact iff_of_true hpassed (by simp [hseen])
    · rw [advanceCursorTo_eq]
      simp only [hseen, decide_false, Bool.false_or, List.all_eq_true, Bool.or_eq_true,
        decide_eq_true_eq]
      constructor
      · intro hafter message hmessage
        by_cases hold : message.id ≤ page.client.cursor
        · exact .inl (.inl hold)
        by_cases hlater : sent.id ≤ message.id
        · exact .inl (.inr hlater)
        right
        have hreached := h.reached
        rcases hafter message hmessage ((Nat.le_of_not_le hlater).trans (Nat.le_max_right _ _))
          with hshown | hbefore
        · rcases List.mem_append.mp hshown with hshown | hsame
          · exact hshown
          · rw [List.mem_singleton.mp hsame] at hlater
            exact absurd (Nat.le_refl _) hlater
        · omega
      · intro hclear message hmessage hle
        change message.id ≤ max page.client.cursor sent.id at hle
        by_cases hold : message.id ≤ page.client.cursor
        · refine (hpassed message hmessage hold).imp_left fun hshown => ?_
          exact List.mem_append_left _ hshown
        · left
          rcases hclear message hmessage with (hbefore | hlater) | hshown
          · exact absurd hbefore hold
          · have hsame : message.id = sent.id := by omega
            rw [hsame]
            exact List.mem_append_right _ (List.mem_singleton_self _)
          · exact List.mem_append_left _ hshown

/-- The log has grown, the page has not changed. -/
theorem Passed.appended (h : Live start page) (hpassed : Passed start page) {message : Message}
    (hnext : comesNext page.log message = true) (client : RoomClient)
    (hcursor : client.cursor = page.client.cursor) (hseen : client.seen = page.client.seen) :
    Passed start { page with log := page.log ++ [message], client } := by
  intro earlier hearlier hle
  change earlier.id ≤ client.cursor at hle
  change earlier.id ∈ client.seen ∨ _
  rw [hcursor] at hle
  rw [hseen]
  rcases List.mem_append.mp hearlier with hearlier | hearlier
  · exact hpassed earlier hearlier hle
  · rw [List.mem_singleton.mp hearlier] at hle
    exact absurd hle (Nat.not_le_of_lt (h.grow hnext).2.1)

theorem Passed.pollAnswered (h : Live start page) (hpassed : Passed start page) (now : Nat)
    (written : Bool) : Passed start (page.pollAnswered now written) := by
  have hpoll := h.poll
  unfold RoomPage.pollAnswered
  cases hcase : page.client.poll with
  | idle => exact hpassed
  | messages coldEntry fetch =>
      rw [hcase] at hpoll
      cases hpoll with
      | asked hstart hsince => exact hpassed
      | answered hstart hsince hserved =>
          exact hpassed.messagesAnswered h hsince hserved now written
  | restoredHead head fetch =>
      rw [hcase] at hpoll
      cases hpoll
  | seededAuthors fetch =>
      rw [hcase] at hpoll
      cases hpoll

/-- A change of the client that leaves its cursor and what it has seen. -/
theorem Passed.client (hpassed : Passed start page) {client : RoomClient}
    (hcursor : client.cursor = page.client.cursor) (hseen : client.seen = page.client.seen) :
    Passed start { page with client } := by
  intro message hmessage hle
  change message.id ∈ client.seen ∨ _
  change message.id ≤ client.cursor at hle
  rw [hcursor] at hle
  rw [hseen]
  exact hpassed message hmessage hle

theorem pollMessages_cursor (client : RoomClient) :
    client.pollMessages.cursor = client.cursor ∧ client.pollMessages.seen = client.seen := by
  unfold RoomClient.pollMessages
  split_ifs
  · exact ⟨rfl, rfl⟩
  · exact ⟨rfl, rfl⟩
  · exact ⟨rfl, rfl⟩

theorem Passed.pollFailed (h : Live start page) (hpassed : Passed start page) (closes : Bool) :
    Passed start { page with client := page.client.pollFailed closes } := by
  have hpoll := h.poll
  unfold RoomClient.pollFailed
  cases hcase : page.client.poll with
  | idle => exact hpassed
  | messages coldEntry fetch => exact hpassed.client rfl rfl
  | restoredHead head fetch =>
      rw [hcase] at hpoll
      cases hpoll
  | seededAuthors fetch =>
      rw [hcase] at hpoll
      cases hpoll

theorem Passed.submitMessage (hpassed : Passed start page) (value : String)
    (replyTo : Option Nat) (clientMsgId : String) :
    Passed start
      { page with client := page.client.submitMessage value replyTo clientMsgId } := by
  unfold RoomClient.submitMessage
  dsimp only
  split_ifs
  · exact hpassed
  · exact hpassed.client rfl rfl

theorem Passed.storeSent (h : Live start page) (hpassed : Passed start page)
    (stored : Message) : Passed start (page.storeSent stored) := by
  unfold RoomPage.storeSent
  split
  · split
    · exact hpassed.client rfl rfl
    · split_ifs with hstored
      · exact hpassed.appended h hstored.2.2 _ rfl rfl
      · exact hpassed
  · exact hpassed

/-- Only the answer to an own send can make the cursor pass what has not been seen. -/
theorem Passed.step (h : Live start page) (hpassed : Passed start page) {event : PageEvent}
    (hstay : event.isEntry = false) :
    Passed start (page.step event) ↔ SendsClear page event := by
  cases event with
  | sendAnswered => exact passed_sendAnswered h hpassed
  | appended message =>
      refine iff_of_true ?_ rfl
      unfold RoomPage.step
      dsimp only
      split_ifs with hnext
      · exact hpassed.appended h hnext _ rfl rfl
      · exact hpassed
  | entered roomName closed renders => cases hstay
  | statusLoaded roomName closed => exact iff_of_true (hpassed.client rfl rfl) rfl
  | pollStarts =>
      obtain ⟨hcursor, hseen⟩ := pollMessages_cursor page.client
      exact iff_of_true (hpassed.client hcursor hseen) rfl
  | pollServed => exact iff_of_true (hpassed.client rfl rfl) rfl
  | pollAnswered now written => exact iff_of_true (hpassed.pollAnswered h now written) rfl
  | pollFails closes => exact iff_of_true (hpassed.pollFailed h closes) rfl
  | typed text replyTo => exact iff_of_true (hpassed.client rfl rfl) rfl
  | sendStarts value replyTo clientMsgId =>
      refine iff_of_true ?_ rfl
      unfold RoomPage.step
      dsimp only
      split_ifs
      · exact hpassed
      · exact hpassed.submitMessage value replyTo clientMsgId
  | sendServed stored => exact iff_of_true (hpassed.storeSent h stored) rfl
  | sendFails => exact iff_of_true (hpassed.client rfl rfl) rfl

end Passing

/-! ## The entry -/

section Entry

variable {host : RoomPage} {roomName : Option String}

/-- The first page is the end of what is older than every id. -/
theorem exists_firstPage (hlog : Cursor.Increasing Message.id host.log) :
    ∃ older, Cursor.before Message.id host.log newestPageBeforeId =
        older ++ firstPage host.log ∧
      (firstPage host.log = [] → older = []) := by
  obtain ⟨older, page, hsplit, hreply, hempty, -⟩ := messagePage_back hlog
    (show 1 ≤ earlierPageSize by decide) newestPageBeforeId
  have hpage : firstPage host.log = page := by
    rw [firstPage, hreply]
    rfl
  exact ⟨older, by rw [hsplit, hpage], by rwa [hpage]⟩

/-- Messages of others leave the page as it is. -/
theorem run_appended (page : RoomPage) (missed : List Message)
    (hlog : Cursor.Increasing Message.id page.log) :
    ∃ log, page.run (missed.map .appended) = { page with log } ∧ page.log <+: log ∧
      Cursor.Increasing Message.id log ∧
      ∀ message ∈ log, message ∈ page.log ∨
        0 < message.id ∧ ∀ earlier ∈ page.log, earlier.id < message.id := by
  induction missed using List.reverseRecOn with
  | nil => exact ⟨page.log, rfl, List.prefix_refl _, hlog, fun _ h => .inl h⟩
  | append_singleton missed message ih =>
      obtain ⟨log, hrun, hbefore, hincreasing, hnew⟩ := ih
      rw [List.map_append, List.map_singleton, RoomPage.run_concat, hrun]
      by_cases hnext : comesNext log message = true
      · obtain ⟨hpos, -, hnewer⟩ := comesNext_iff.mp hnext
        refine ⟨log ++ [message], ?_, hbefore.trans (List.prefix_append _ _), ?_, ?_⟩
        · exact if_pos hnext
        · refine List.pairwise_append.mpr ⟨hincreasing, List.pairwise_singleton _ _, ?_⟩
          intro earlier hearlier later hlater
          rw [List.mem_singleton.mp hlater]
          exact hnewer earlier hearlier
        · intro later hlater
          rcases List.mem_append.mp hlater with hlater | hlater
          · exact hnew later hlater
          · rw [List.mem_singleton.mp hlater]
            exact .inr ⟨hpos, fun earlier hearlier => hnewer earlier (hbefore.subset hearlier)⟩
      · exact ⟨log, if_neg hnext, hbefore, hincreasing, hnew⟩

/-- An entry that finds no backup asks for the newest page. -/
theorem enterRoom_cold
    (hcold : readBackupForSeed (host.localStorage.get? (backupKey roomName)) = [])
    (closed renders : Bool) :
    host.enterRoom roomName closed renders = { host with
      client := { RoomClient.initial with
        roomName
        closed
        poll := .messages true ⟨0, some newestPageBeforeId, some earlierPageSize, none⟩ } } := by
  unfold RoomPage.enterRoom RoomClient.seedEntryFromBackup
  rw [hcold]
  unfold RoomClient.pollMessages
  rw [if_neg (by simp [RoomClient.initial]), if_neg (by simp [RoomClient.initial])]
  rfl

/-- The page behind a cold entry. -/
theorem coldEntry_client (hlog : Cursor.Increasing Message.id host.log)
    (hcold : readBackupForSeed (host.localStorage.get? (backupKey roomName)) = [])
    (closed renders : Bool) (missed : List Message) (now : Nat) (written : Bool) :
    ∃ log backupCursor, host.log <+: log ∧ Cursor.Increasing Message.id log ∧
      (∀ message ∈ log, message ∈ host.log ∨
        0 < message.id ∧ ∀ earlier ∈ host.log, earlier.id < message.id) ∧
      (coldEntry host roomName closed renders missed now written).log = log ∧
      (coldEntry host roomName closed renders missed now written).client =
        { RoomClient.initial with
          roomName
          closed
          closedHistoryLoaded := closed
          cursor := ((firstPage host.log).getLast?.map (·.id)).getD 0
          seen := (unseen [] (firstPage host.log)).map (·.id)
          live := unseen [] (firstPage host.log)
          backupCursor
          entryPageLoaded := true
          composerReady := true } := by
  let asked : RoomPage := { host with
    client := { RoomClient.initial with
      roomName
      closed
      poll := .messages true ⟨0, some newestPageBeforeId, some earlierPageSize,
        some (messagePage host.log 0 (some newestPageBeforeId) (some earlierPageSize))⟩ } }
  obtain ⟨log, hrun, hbefore, hincreasing, hnew⟩ := run_appended asked missed hlog
  have hentry : coldEntry host roomName closed renders missed now written =
      RoomPage.messagesAnswered { asked with log } true
        (some (messagePage host.log 0 (some newestPageBeforeId) (some earlierPageSize))) now
        written := by
    change ((host.enterRoom roomName closed renders).step .pollServed).run
      (missed.map .appended ++ [.pollAnswered now written]) = _
    rw [enterRoom_cold hcold, RoomPage.run_concat]
    change RoomPage.step (asked.run (missed.map .appended)) _ = _
    rw [hrun]
    rfl
  have hverified : RoomClient.seedUnverified (RoomPage.client { asked with log }) = false := rfl
  obtain ⟨backupCursor, hclient⟩ := messagesAnswered_client hverified true
    (some (messagePage host.log 0 (some newestPageBeforeId) (some earlierPageSize))) now written
  refine ⟨log, backupCursor, hbefore, hincreasing, hnew, ?_, ?_⟩
  · rw [hentry, messagesAnswered_log]
  · rw [hentry, hclient]
    have hcursor : max 0 ((answerCursor true (some (messagePage host.log 0
        (some newestPageBeforeId) (some earlierPageSize)))).getD 0) =
          ((firstPage host.log).getLast?.map (·.id)).getD 0 := Nat.zero_max _
    simp only [← hcursor]
    rfl

/-- The first page lies in order between its start and its newest message. -/
theorem firstPage_bounds (hlog : Cursor.Increasing Message.id host.log) :
    (∀ message ∈ firstPage host.log, message ∈ host.log ∧
      firstPageStart host.log ≤ message.id) ∧
    firstPageStart host.log ≤ ((firstPage host.log).getLast?.map (·.id)).getD 0 := by
  obtain ⟨older, hsplit, -⟩ := exists_firstPage hlog
  have hinc : (older ++ firstPage host.log).Pairwise fun x y => x.id < y.id := by
    rw [← hsplit]
    exact hlog.filter _
  have hpage := (List.pairwise_append.mp hinc).2.1
  have hstart : ∀ message ∈ firstPage host.log, firstPageStart host.log ≤ message.id := by
    intro message hmessage
    unfold firstPageStart
    cases hfirst : firstPage host.log with
    | nil => exact Nat.zero_le _
    | cons first rest =>
        rw [hfirst] at hmessage hpage
        rcases List.mem_cons.mp hmessage with rfl | hrest
        · exact Nat.le_refl _
        · exact Nat.le_of_lt ((List.pairwise_cons.mp hpage).1 message hrest)
  refine ⟨fun message hmessage => ⟨?_, hstart message hmessage⟩, ?_⟩
  · exact (Cursor.mem_before.mp (hsplit ▸ List.mem_append_right older hmessage)).1
  · cases hlast : (firstPage host.log).getLast? with
    | none =>
        rw [List.getLast?_eq_none_iff] at hlast
        rw [firstPageStart, hlast]
        exact Nat.le_refl _
    | some last => exact hstart last (List.mem_of_getLast? hlast)

/-- A page is as it should be behind a cold entry. -/
theorem live_coldEntry (hlog : Cursor.Increasing Message.id host.log)
    (hcold : readBackupForSeed (host.localStorage.get? (backupKey roomName)) = [])
    (closed renders : Bool) (missed : List Message) (now : Nat) (written : Bool) :
    Live (firstPageStart host.log)
      (coldEntry host roomName closed renders missed now written) := by
  obtain ⟨log, backupCursor, hbefore, hincreasing, -, hlog', hclient⟩ :=
    coldEntry_client hlog hcold closed renders missed now written
  generalize coldEntry host roomName closed renders missed now written = page at hlog' hclient
  obtain ⟨log', self, localStorage, client⟩ := page
  obtain rfl : log' = log := hlog'
  obtain rfl := hclient
  obtain ⟨hpage, hreached⟩ := firstPage_bounds hlog
  refine
    { increasing := hincreasing
      shown := rfl
      once := nodup_unseen [] _
      behind := fun id hid => ?_
      reached := hreached
      known := ?_
      loaded := rfl
      verified := rfl
      poll := .idle
      pending := nofun
      sending := nofun }
  · obtain ⟨message, hmessage, rfl⟩ := List.mem_map.mp (mem_unseen.mp hid).1
    exact (hpage message hmessage).2
  · change ((firstPage host.log).getLast?.map (·.id)).getD 0 = 0 ∨ ∃ message ∈ log',
      message.id = ((firstPage host.log).getLast?.map (·.id)).getD 0
    cases hlast : (firstPage host.log).getLast? with
    | none => exact .inl rfl
    | some last =>
        exact .inr ⟨last, hbefore.subset (hpage last (List.mem_of_getLast? hlast)).1, rfl⟩

theorem passed_coldEntry (hlog : Cursor.Increasing Message.id host.log)
    (hcold : readBackupForSeed (host.localStorage.get? (backupKey roomName)) = [])
    (closed renders : Bool) (missed : List Message) (now : Nat) (written : Bool) :
    Passed (firstPageStart host.log)
      (coldEntry host roomName closed renders missed now written) := by
  obtain ⟨log, backupCursor, hbefore, hincreasing, hnew, hlog', hclient⟩ :=
    coldEntry_client hlog hcold closed renders missed now written
  obtain ⟨older, hsplit, hempty⟩ := exists_firstPage hlog
  intro message hmessage hle
  rw [hlog'] at hmessage
  rw [hclient] at hle ⊢
  change message.id ≤ ((firstPage host.log).getLast?.map (·.id)).getD 0 at hle
  change message.id ∈ (unseen [] (firstPage host.log)).map (·.id) ∨ _
  have hinc : (older ++ firstPage host.log).Pairwise fun x y => x.id < y.id := by
    rw [← hsplit]
    exact hlog.filter _
  cases hlast : (firstPage host.log).getLast? with
  | none =>
      have hnone := List.getLast?_eq_none_iff.mp hlast
      rw [hlast] at hle
      have hzero : message.id = 0 := Nat.le_zero.mp hle
      rcases hnew message hmessage with hold | ⟨hpos, -⟩
      · have hshown := Cursor.mem_before.mpr
          ⟨hold, show message.id < newestPageBeforeId by rw [hzero]; decide⟩
        rw [hsplit, hempty hnone, hnone] at hshown
        cases hshown
      · omega
  | some last =>
      rw [hlast] at hle
      have hmem := List.mem_of_getLast? hlast
      obtain ⟨hlogged, hbound⟩ :=
        Cursor.mem_before.mp (hsplit ▸ List.mem_append_right older hmem)
      have hold : message ∈ host.log := mem_served hincreasing hbefore hlogged hmessage hle
      have hshown := Cursor.mem_before.mpr ⟨hold, Nat.lt_of_le_of_lt hle hbound⟩
      rw [hsplit] at hshown
      rcases List.mem_append.mp hshown with holder | hpage
      · right
        obtain ⟨first, rest, hfirst⟩ := List.exists_cons_of_ne_nil (List.ne_nil_of_mem hmem)
        have hlt := (List.pairwise_append.mp hinc).2.2 message holder first
          (hfirst ▸ List.mem_cons_self)
        rw [firstPageStart, hfirst]
        exact hlt
      · left
        exact mem_unseen.mpr ⟨List.mem_map_of_mem hpage, List.not_mem_nil⟩

end Entry

/-! ## Runs -/

/-- The same events, one after the other. -/
theorem live_run {start : Nat} {page : RoomPage} (h : Live start page)
    {events : List PageEvent} (hstay : ∀ event ∈ events, event.isEntry = false) :
    Live start (page.run events) := by
  induction events using List.reverseRecOn with
  | nil => exact h
  | append_singleton events event ih =>
      rw [RoomPage.run_concat]
      exact (ih fun e he => hstay e (List.mem_append_left _ he)).step
        (hstay event (List.mem_append_right _ (List.mem_singleton_self _)))

/-- Behind a cold entry, in every interleaving of polls, own sends and the messages of others,
the page is complete in every state exactly if every own send is answered with nothing left to
be fetched before it. -/
theorem complete_iff_sendsClear (host : RoomPage) (roomName : Option String)
    (closed renders : Bool) (missed : List Message) (now : Nat) (written : Bool)
    (events : List PageEvent) (hlog : Cursor.Increasing Message.id host.log)
    (hcold : readBackupForSeed (host.localStorage.get? (backupKey roomName)) = [])
    (hstay : ∀ event ∈ events, event.isEntry = false) :
    (∀ before, before <+: events → Complete (firstPageStart host.log)
      ((coldEntry host roomName closed renders missed now written).run before)) ↔
    (pageMachine (coldEntry host roomName closed renders missed now written)).Obeys SendsClear
      events := by
  have hlive := live_coldEntry hlog hcold closed renders missed now written
  have hpassed := passed_coldEntry hlog hcold closed renders missed now written
  generalize coldEntry host roomName closed renders missed now written = page at hlive hpassed ⊢
  induction events using List.reverseRecOn with
  | nil =>
      refine iff_of_true (fun before hbefore => ?_) trivial
      rw [List.prefix_nil.mp hbefore]
      exact hlive.complete hpassed
  | append_singleton events event ih =>
      have hevents : ∀ e ∈ events, e.isEntry = false := fun e he =>
        hstay e (List.mem_append_left _ he)
      have hevent := hstay event (List.mem_append_right _ (List.mem_singleton_self _))
      have hbehind := live_run hlive hevents
      have hearlier := ih hevents
      refine (Iff.trans ?_ (and_congr_left fun _ => hearlier)).trans
        (Machine.obeys_concat events event).symm
      rw [exec_pageMachine]
      constructor
      · intro hall
        refine ⟨fun before hbefore => hall before (hbefore.trans (List.prefix_append _ _)), ?_⟩
        have hlast := (hall _ (List.prefix_refl _)).passed
        rw [RoomPage.run_concat] at hlast
        have hfirst := (hall events (List.prefix_append _ _)).passed
        exact (Passed.step hbehind hfirst hevent).mp hlast
      · rintro ⟨hall, hclear⟩ before hbefore
        rcases List.prefix_concat_iff.mp hbefore with rfl | hbefore
        · rw [RoomPage.run_concat]
          have hfirst : Passed (firstPageStart host.log) (page.run events) :=
            (hall events (List.prefix_refl _)).passed
          exact (hbehind.step hevent).complete ((Passed.step hbehind hfirst hevent).mpr hclear)
        · exact hall before hbefore

/-- A message of the room, by its number. -/
def roomMessage (id : Nat) (sender : String) (clientMsgId : Option String) : Message :=
  ⟨id, "r", 0, sender, .message, "hello", none, clientMsgId, []⟩

/-- A room with one message, opened by somebody who has no backup of it. -/
def newcomer : RoomPage :=
  ⟨[roomMessage 1 "host" none], "ann", .empty, .initial⟩

/-- Somebody's message and then an own one are stored, and the answer to the own one waits for a
poll that brings both. -/
def answeredBehindPoll : List PageEvent :=
  [.appended (roomMessage 2 "host" none), .sendStarts "hello" none "c",
    .sendServed (roomMessage 3 "ann" (some "c")), .pollStarts, .pollServed,
    .pollAnswered 0 true, .sendAnswered]

/-- The poll shows both messages, by the general theorem. -/
theorem complete_iff_sendsClear_poll :
    Complete (firstPageStart newcomer.log)
        ((coldEntry newcomer (some "r") false true [] 0 true).run answeredBehindPoll) ∧
      ((coldEntry newcomer (some "r") false true [] 0 true).run answeredBehindPoll).client.seen =
        [1, 2, 3] := by
  refine ⟨?_, by decide +kernel⟩
  refine (complete_iff_sendsClear newcomer (some "r") false true [] 0 true answeredBehindPoll
    (List.pairwise_singleton _ _) (by decide) (by decide)).mpr ?_ _ (List.prefix_refl _)
  decide +kernel

/-- The answer to an own send comes first, and the message before it is never fetched. -/
theorem sendAnswered_skips :
    ¬ ∀ (host : RoomPage) (roomName : Option String) (closed renders : Bool)
        (missed : List Message) (now : Nat) (written : Bool) (events : List PageEvent),
      Cursor.Increasing Message.id host.log →
      readBackupForSeed (host.localStorage.get? (backupKey roomName)) = [] →
      (∀ event ∈ events, event.isEntry = false) →
      Complete (firstPageStart host.log)
        ((coldEntry host roomName closed renders missed now written).run events) := by
  intro h
  have hcomplete := h newcomer (some "r") false true [] 0 true
    [.appended (roomMessage 2 "host" none), .sendStarts "hello" none "c",
      .sendServed (roomMessage 3 "ann" (some "c")), .sendAnswered, .pollStarts, .pollServed,
      .pollAnswered 0 true]
    (List.pairwise_singleton _ _) (by decide) (by decide)
  have hpassed := hcomplete.passed (roomMessage 2 "host" none) (by decide +kernel)
    (by decide +kernel)
  exact absurd hpassed (by decide +kernel)

end AgentGather.Browser
