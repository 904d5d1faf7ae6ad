import AgentGather.Storage.Alone
import AgentGather.Server.Handlers

/-!
# One send

What `POST /messages` does to the log when nothing interleaves with it, and which stored
states let it store a message.
-/

namespace AgentGather.Server

open AgentGather.Library AgentGather.Protocol AgentGather.Storage

/-- How many messages of participants the log holds. -/
def sentCount (f : RoomFiles) : Nat :=
  (f.log.filter fun message => message.type != .system).length

/-- As far as the stored state decides it, a message of the alias is accepted: the room
is open and not past its expiry, the log is below the limit, and the alias is in the
roster and not removed. -/
structure Accepts (o : ServerOptions) (f : RoomFiles) (clock : Nat) (aliasName : String) :
    Prop where
  opened : ∃ state, f.state = .whole state ∧ state.status = .opened ∧
    RoomState.expiredAt state clock = false
  below : f.log.length < o.maxMessages
  present : ∃ participants, f.participants = .whole participants ∧
    ∃ p ∈ participants, p.aliasName = aliasName ∧ p.removedAt = none

/-! ## Programs that store no message of a participant -/

variable {α β : Type} {t : Nat} {o : ServerOptions} {req : Request}

/-- Alone, the program leaves the number of participants' messages as it is. -/
def KeepsSent (p : RoomProg ServerMemory α) : Prop :=
  ∀ w, sentCount (p.runAlone w).2.files = sentCount w.files

theorem KeepsSent.bind {p : RoomProg ServerMemory α} {f : α → RoomProg ServerMemory β}
    (hp : KeepsSent p) (hf : ∀ a, KeepsSent (f a)) : KeepsSent (p.bind f) := by
  intro w
  have h := hp w
  rw [Prog.runAlone_bind]
  rcases hrun : p.runAlone w with ⟨r, w'⟩
  rw [hrun] at h
  cases r with
  | ok a => exact (hf a w').trans h
  | error e => exact h

theorem KeepsSent.ret (a : α) : KeepsSent (.ret a : RoomProg ServerMemory α) := fun _ => rfl

theorem KeepsSent.err (e : Failure) : KeepsSent (.err e : RoomProg ServerMemory α) :=
  fun _ => rfl

theorem KeepsSent.ofExcept (r : Except Failure α) :
    KeepsSent (Prog.ofExcept r : RoomProg ServerMemory α) := fun w => by
  rw [runAlone_ofExcept]

theorem KeepsSent.action {label : World ServerMemory → RoomStep}
    {ready : World ServerMemory → Bool} {effect : World ServerMemory → World ServerMemory}
    {result : World ServerMemory → Except Failure α}
    (h : ∀ w, (effect w).files.log = w.files.log) :
    KeepsSent (Prog.action label ready effect result) := fun w => by
  rw [Prog.runAlone_action]
  exact congrArg (fun log => (log.filter fun m : Message => m.type != .system).length) (h w)

theorem KeepsSent.withWriterLock {body : RoomProg ServerMemory α} (h : KeepsSent body) :
    KeepsSent (withWriterLock t body) := fun w => by
  rw [runAlone_withWriterLock]
  exact h { w with lock := some t }

theorem readRoomState_keepsSent : KeepsSent readRoomState := .action fun _ => rfl

theorem readParticipants_keepsSent : KeepsSent readParticipants := .action fun _ => rfl

theorem writeState_keepsSent (purpose : StateWrite) (state : RoomState) :
    KeepsSent (writeState purpose state) := .action fun _ => rfl

theorem dateNow_keepsSent (now : Option Nat) : KeepsSent (dateNow now) := by
  cases now with
  | some now => exact .ret now
  | none => exact .action fun _ => rfl

theorem synchronously_keepsSent (code : Nat → MemoryM α) : KeepsSent (synchronously code) :=
  .action fun _ => rfl

/-- A line of the system does not count. -/
theorem appendJsonLine_keepsSent {message : Message} (h : message.type = .system) :
    KeepsSent (appendJsonLine message) := by
  refine .bind (fun w => ?_) fun _ => .action fun _ => rfl
  simp [sentCount, RoomFiles.log, h]

theorem appendServerMessage_keepsSent (options : AppendServerMessageOptions) :
    KeepsSent (appendServerMessage t options) := by
  refine (KeepsSent.ofExcept _).bind fun _ => (KeepsSent.ofExcept _).bind fun _ =>
    (dateNow_keepsSent _).bind fun now => .withWriterLock ?_
  refine readRoomState_keepsSent.bind fun state => readParticipants_keepsSent.bind
    fun participants => ?_
  exact (appendJsonLine_keepsSent rfl).bind fun _ => (writeState_keepsSent _ _).bind
    fun _ => .ret _

theorem closeRoom_keepsSent (now : Option Nat) : KeepsSent (closeRoom t now) := by
  refine (dateNow_keepsSent _).bind fun now => .withWriterLock ?_
  exact readRoomState_keepsSent.bind fun state => (writeState_keepsSent _ _).bind
    fun _ => .ret _

theorem requireRoomOpen_keepsSent : KeepsSent (requireRoomOpen t o) := by
  refine .bind ?_ fun state => ?_
  · refine readRoomState_keepsSent.bind fun state => (dateNow_keepsSent _).bind fun now => ?_
    split
    · exact (synchronously_keepsSent _).bind fun _ => (closeRoom_keepsSent _).bind fun closed =>
        (appendServerMessage_keepsSent _).bind fun _ => (synchronously_keepsSent _).bind
          fun _ => .ret _
    · exact .ret _
  · split
    · exact .err _
    · exact .ret _

theorem requireParticipant_keepsSent (allowRemoved : Bool) :
    KeepsSent (requireParticipant o req allowRemoved) := by
  unfold requireParticipant
  split
  · exact .err _
  · refine readParticipants_keepsSent.bind fun participants => ?_
    split
    · exact .err _
    · dsimp only
      split
      · exact .err _
      · exact .ret _

theorem upsertParticipant_keepsSent (new : Participant) :
    KeepsSent (upsertParticipant t new : RoomProg ServerMemory Unit) :=
  (KeepsSent.ofExcept _).bind fun _ => .withWriterLock
    (readParticipants_keepsSent.bind fun _ => .action fun _ => rfl)

theorem touchParticipant_keepsSent (auth : Participant) (attention : ParticipantAttention) :
    KeepsSent (touchParticipant t auth attention) := by
  refine KeepsSent.bind (dateNow_keepsSent none) fun now => ?_
  exact upsertParticipant_keepsSent _

theorem enforceGuards_keepsSent (auth : Participant) : KeepsSent (enforceGuards o auth) := by
  refine KeepsSent.bind ?_ fun outcome => ?_
  · exact synchronously_keepsSent _
  cases outcome with
  | passed => exact .ret _
  | limitExceeded =>
      refine readRoomState_keepsSent.bind fun state => ?_
      dsimp only
      split
      · exact .err _
      · exact synchronously_keepsSent _

/-! ## The send -/

/-- The program stores one message of a participant and says so, or stores none. -/
def SendsOne (p : Handler) : Prop :=
  ∀ w,
    (∃ message, (p.runAlone w).1 = .ok (.stored message false) ∧
      sentCount (p.runAlone w).2.files = sentCount w.files + 1) ∨
    ((∀ message, (p.runAlone w).1 ≠ .ok (.stored message false)) ∧
      sentCount (p.runAlone w).2.files = sentCount w.files)

theorem SendsOne.bind {p : RoomProg ServerMemory α} {f : α → Handler} (hp : KeepsSent p)
    (hf : ∀ a, SendsOne (f a)) : SendsOne (p.bind f) := by
  intro w
  have h := hp w
  rw [Prog.runAlone_bind]
  rcases hrun : p.runAlone w with ⟨r, w'⟩
  rw [hrun] at h
  cases r with
  | ok a =>
      have hsent := hf a w'
      rw [show sentCount w'.files = sentCount w.files from h] at hsent
      exact hsent
  | error e => exact .inr ⟨fun _ he => (nomatch he), h⟩

/-- A log that an append was decided on is what it read. -/
theorem log_of_read {f : RoomFiles} {messages : List Message}
    (h : f.messages.read = .ok messages) : f.log = messages := by
  unfold RoomFiles.log
  cases hm : f.messages with
  | absent => rw [hm] at h; cases h
  | torn => rw [hm] at h; cases h
  | whole found => rw [hm] at h; exact Except.ok.inj h

/-- An append alone adds one participant's message, or none. -/
theorem appendMessageResult_sent (t : Nat) (options : AppendMessageOptions)
    (w : World ServerMemory) :
    (∃ result, ((appendMessageResult t options).runAlone w).1 = .ok result ∧
      result.idempotent = false ∧
      sentCount ((appendMessageResult t options).runAlone w).2.files =
        sentCount w.files + 1) ∨
    ((∀ result, ((appendMessageResult t options).runAlone w).1 = .ok result →
      result.idempotent = true) ∧
      sentCount ((appendMessageResult t options).runAlone w).2.files = sentCount w.files) := by
  obtain ⟨houtcome, hfiles⟩ := appendMessageResult_alone t options w
  rw [houtcome, hfiles]
  cases hdecision : appendDecision options w.clock w.files with
  | error e => exact .inr ⟨fun _ h => (nomatch h), rfl⟩
  | ok decided =>
      rcases decided with ⟨state, result⟩
      obtain ⟨input, raw, participants, messages, -, -, hinput, -, -, -, hlog, hresult⟩ :=
        appendDecision_ok hdecision
      cases hrepeat : result.idempotent with
      | true =>
          refine .inr ⟨?_, ?_⟩
          · rintro found hfound
            obtain rfl : result = found := Except.ok.inj hfound
            exact hrepeat
          · simp [RoomFiles.appended, hrepeat]
      | false =>
          refine .inl ⟨result, rfl, hrepeat, ?_⟩
          have htype := decideAppend_type hinput hresult hrepeat
          simp [RoomFiles.appended, hrepeat, sentCount, RoomFiles.log, htype]

theorem postMessage_sendsOne : SendsOne (postMessage t o req) := by
  refine .bind (requireParticipant_keepsSent false) fun auth =>
    .bind (.action fun _ => rfl) fun body => .bind (touchParticipant_keepsSent _ _) fun _ =>
      .bind requireRoomOpen_keepsSent fun _ => .bind (enforceGuards_keepsSent _) fun _ => ?_
  intro w
  rw [Prog.bind_eq_bind, Prog.runAlone_bind]
  have h := appendMessageResult_sent t
    ⟨o.roomId, auth.aliasName, body, none, some o.maxMessages⟩ w
  rcases hrun : (appendMessageResult t
    ⟨o.roomId, auth.aliasName, body, none, some o.maxMessages⟩).runAlone w with ⟨r, w'⟩
  rw [hrun] at h
  rcases h with ⟨result, rfl, hnew, hsent⟩ | ⟨hrepeat, hsent⟩
  · refine .inl ⟨result.message, ?_, ?_⟩
    · simp only [hnew, if_neg Bool.false_ne_true]
      rfl
    · simp only [hnew, if_neg Bool.false_ne_true]
      exact hsent
  · cases r with
    | error e => exact .inr ⟨fun _ h => (nomatch h), hsent⟩
    | ok result =>
        refine .inr ⟨fun message h => ?_, ?_⟩
        · simp only [hrepeat result rfl, if_true] at h
          cases h
        · simp only [hrepeat result rfl, if_true]
          exact hsent

/-! ## Which states let a send store -/

section Accepting

variable {w w' : World ServerMemory}

/-- A look at the world that returns. -/
theorem query_alone {label : World ServerMemory → RoomStep}
    {result : World ServerMemory → Except Failure α} {a : α}
    (h : (Prog.query label result).runAlone w = (.ok a, w')) : result w = .ok a ∧ w' = w := by
  rw [runAlone_query] at h
  exact ⟨(Prod.mk.inj h).1, (Prod.mk.inj h).2.symm⟩

theorem requireParticipant_alone {auth : Participant}
    (h : (requireParticipant o req false).runAlone w = (.ok auth, w')) :
    w' = w ∧ ∃ participants, w.files.participants = .whole participants ∧
      auth ∈ participants ∧ auth.removedAt = none := by
  unfold requireParticipant at h
  split at h
  · cases h
  · obtain ⟨participants, w₁, hread, hrest⟩ := Prog.exists_of_runAlone_bind h
    obtain ⟨hroster, rfl⟩ := query_alone hread
    split at hrest
    · cases hrest
    · rename_i found hfound
      dsimp only at hrest
      split at hrest
      · cases hrest
      · rename_i hactive
        obtain ⟨hauth, rfl⟩ := Prod.mk.inj hrest
        obtain rfl := Except.ok.inj hauth
        refine ⟨rfl, participants, Stored.eq_whole_of_read hroster,
          List.mem_of_find?_eq_some hfound, ?_⟩
        simpa using hactive

theorem dateNow_alone {given : Option Nat} {now : Nat}
    (h : (dateNow given).runAlone w = (.ok now, w')) : now = given.getD w.clock ∧ w' = w := by
  rw [runAlone_dateNow] at h
  exact ⟨(Except.ok.inj (Prod.mk.inj h).1).symm, (Prod.mk.inj h).2.symm⟩

/-- Touching leaves the room's state and log. -/
theorem touchParticipant_alone (auth : Participant) (attention : ParticipantAttention)
    (w : World ServerMemory) :
    ((touchParticipant t auth attention).runAlone w).2.files.state = w.files.state ∧
      ((touchParticipant t auth attention).runAlone w).2.files.messages = w.files.messages ∧
      ((touchParticipant t auth attention).runAlone w).2.clock = w.clock := by
  have hrun : (touchParticipant t auth attention).runAlone w =
      (upsertParticipant t { auth with attention, lastSeenAt := w.clock }).runAlone w := rfl
  rw [hrun, upsertParticipant, Prog.bind_eq_bind, runAlone_bind_ofExcept]
  split
  · simp only [runAlone_withWriterLock, Prog.bind_eq_bind, readParticipants,
      runAlone_bind_query]
    split
    · exact ⟨rfl, rfl, rfl⟩
    · exact ⟨rfl, rfl, rfl⟩
  · exact ⟨rfl, rfl, rfl⟩

/-- A closed room is what closing returns, and returning anything else changes
nothing. -/
theorem closeExpiredRoomIfNeeded_alone {state : RoomState}
    (h : (closeExpiredRoomIfNeeded t o).runAlone w = (.ok state, w')) :
    state.status = .closed ∨ (w' = w ∧ ∃ raw, w.files.state = .whole raw ∧
      state = withRoomDefaults raw ∧
      (state.status = .opened → RoomState.expiredAt state w.clock = false)) := by
  obtain ⟨found, w₁, hread, hrest⟩ := Prog.exists_of_runAlone_bind h
  obtain ⟨hfound, rfl⟩ := query_alone hread
  obtain ⟨now, w₂, hnow, hrest'⟩ := Prog.exists_of_runAlone_bind hrest
  obtain ⟨rfl, rfl⟩ := dateNow_alone hnow
  split at hrest'
  · left
    obtain ⟨_, w₃, -, hrest₃⟩ := Prog.exists_of_runAlone_bind hrest'
    obtain ⟨closed, w₄, hclosed, hrest₄⟩ := Prog.exists_of_runAlone_bind hrest₃
    obtain ⟨_, w₅, -, hrest₅⟩ := Prog.exists_of_runAlone_bind hrest₄
    obtain ⟨_, w₆, -, hrest₆⟩ := Prog.exists_of_runAlone_bind hrest₅
    obtain rfl := Except.ok.inj (Prod.mk.inj hrest₆).1
    obtain ⟨now, w₇, -, hlocked⟩ := Prog.exists_of_runAlone_bind hclosed
    rw [runAlone_withWriterLock] at hlocked
    have hbody := (Prod.mk.inj hlocked).1
    rw [Prog.bind_eq_bind, readRoomState, runAlone_bind_query] at hbody
    split at hbody
    · obtain rfl := Except.ok.inj hbody
      rfl
    · cases hbody
  · rename_i hnot
    right
    obtain ⟨hstate, rfl⟩ := Prod.mk.inj hrest'
    obtain rfl := Except.ok.inj hstate
    cases hraw : w₂.files.state.read with
    | error e => rw [hraw] at hfound; cases hfound
    | ok raw =>
        rw [hraw] at hfound
        obtain rfl := Except.ok.inj hfound
        refine ⟨rfl, raw, Stored.eq_whole_of_read hraw, rfl, fun hopen => ?_⟩
        simpa [hopen] using hnot

theorem requireRoomOpen_alone (h : (requireRoomOpen t o).runAlone w = (.ok (), w')) :
    w' = w ∧ ∃ raw, w.files.state = .whole raw ∧ raw.status = .opened ∧
      RoomState.expiredAt raw w.clock = false := by
  obtain ⟨state, w₁, hclose, hrest⟩ := Prog.exists_of_runAlone_bind h
  split at hrest
  · cases hrest
  · rename_i hopen
    obtain ⟨-, rfl⟩ := Prod.mk.inj hrest
    have hopened := not_not.mp hopen
    rcases closeExpiredRoomIfNeeded_alone hclose with hclosed | ⟨rfl, raw, hraw, rfl, hexpiry⟩
    · cases hclosed.symm.trans hopened
    · exact ⟨rfl, raw, hraw, hopened, hexpiry hopened⟩

theorem synchronously_alone {code : Nat → MemoryM α} {r : Except Failure α}
    (h : (synchronously code).runAlone w = (r, w')) :
    w'.files = w.files ∧ w'.clock = w.clock := by
  rw [synchronously, Prog.runAlone_action] at h
  obtain rfl := (Prod.mk.inj h).2
  exact ⟨rfl, rfl⟩

/-- The guards look at the room at most. -/
theorem enforceGuards_alone (auth : Participant)
    (h : (enforceGuards o auth).runAlone w = (.ok (), w')) :
    w'.files = w.files ∧ w'.clock = w.clock := by
  obtain ⟨outcome, w₁, hcount, hrest⟩ := Prog.exists_of_runAlone_bind h
  have hkept := synchronously_alone hcount
  cases outcome with
  | passed =>
      obtain ⟨-, rfl⟩ := Prod.mk.inj hrest
      exact hkept
  | limitExceeded =>
      obtain ⟨state, w₂, hread, hrest'⟩ := Prog.exists_of_runAlone_bind hrest
      obtain ⟨-, rfl⟩ := query_alone hread
      dsimp only at hrest'
      split at hrest'
      · cases hrest'
      · have hkept' := synchronously_alone hrest'
        exact ⟨hkept'.1.trans hkept.1, hkept'.2.trans hkept.2⟩

theorem decideAppend_below {state : RoomState} {participants : List Participant}
    {messages : List Message} {sender : String} {input : ClientMessageInput}
    {limit now : Nat} {result : AppendMessageResult}
    (h : decideAppend state participants messages sender input (some limit) now = .ok result)
    (hnew : result.idempotent = false) : messages.length < limit := by
  unfold decideAppend at h
  dsimp only at h
  split at h
  · obtain rfl := Except.ok.inj h
    cases hnew
  · split at h
    · cases h
    · rename_i hlimit
      simpa using hlimit

/-- `POST /messages` stores a message in accepting states only. -/
theorem postMessage_accepts {message : Message}
    (h : ((postMessage t o req).runAlone w).1 = .ok (.stored message false)) :
    Accepts o w.files w.clock message.sender := by
  rcases hrun : (postMessage t o req).runAlone w with ⟨r, w'⟩
  rw [hrun] at h
  obtain rfl : r = .ok (.stored message false) := h
  obtain ⟨auth, w₁, hauth, h₁⟩ := Prog.exists_of_runAlone_bind hrun
  obtain ⟨rfl, participants, hroster, hmem, hactive⟩ := requireParticipant_alone hauth
  obtain ⟨body, w₂, hbody, h₂⟩ := Prog.exists_of_runAlone_bind h₁
  obtain ⟨-, rfl⟩ := query_alone hbody
  obtain ⟨_, w₃, htouch, h₃⟩ := Prog.exists_of_runAlone_bind h₂
  have htouched := touchParticipant_alone (t := t) auth auth.attention w₂
  rw [htouch] at htouched
  obtain ⟨hstate, hmessages, hclock⟩ := htouched
  obtain ⟨_, w₄, hopen, h₄⟩ := Prog.exists_of_runAlone_bind h₃
  obtain ⟨rfl, raw, hraw, hopened, hexpiry⟩ := requireRoomOpen_alone hopen
  obtain ⟨_, w₅, hguards, h₅⟩ := Prog.exists_of_runAlone_bind h₄
  obtain ⟨hfiles, hclock'⟩ := enforceGuards_alone auth hguards
  obtain ⟨result, w₆, happend, h₆⟩ := Prog.exists_of_runAlone_bind h₅
  have hdecided := (appendMessageResult_alone t
    ⟨o.roomId, auth.aliasName, body, none, some o.maxMessages⟩ w₅).1
  rw [happend] at hdecided
  cases hdecision : appendDecision ⟨o.roomId, auth.aliasName, body, none, some o.maxMessages⟩
      w₅.clock w₅.files with
  | error e =>
      rw [hdecision] at hdecided
      cases hdecided
  | ok decided =>
      rw [hdecision] at hdecided
      rcases decided with ⟨state, found⟩
      obtain rfl : result = found := Except.ok.inj hdecided
      obtain ⟨input, -, roster, messages, -, -, -, -, -, -, hlog, hresult⟩ :=
        appendDecision_ok hdecision
      cases hrepeat : result.idempotent with
      | true =>
          simp only [hrepeat, if_true] at h₆
          cases h₆
      | false =>
          simp only [hrepeat, if_neg Bool.false_ne_true] at h₆
          obtain ⟨_, w₇, -, h₇⟩ := Prog.exists_of_runAlone_bind h₆
          obtain rfl : result.message = message := by
            simpa using (Prod.mk.inj h₇).1
          have hlogs : w₂.files.log = messages := by
            rw [hfiles, hmessages] at hlog
            exact log_of_read hlog
          have hsender : result.message.sender = auth.aliasName := by
            rcases decideAppend_cases hresult with ⟨hr, -⟩ | ⟨-, hmessage⟩
            · rw [hrepeat] at hr
              cases hr
            · rw [hmessage]
              rfl
          refine ⟨⟨raw, hstate ▸ hraw, hopened, hclock ▸ hexpiry⟩, ?_,
            participants, hroster, auth, hmem, hsender.symm, hactive⟩
          rw [hlogs]
          exact decideAppend_below hresult hrepeat

end Accepting

end AgentGather.Server
