import AgentGather.Server.RoomServer

/-!
# What a participant may do

Behind the step that has read who the token of a request belongs to, the request may go on as
this participant may at the endpoint: what is written is written in the participant's own name,
and the settings of the room only by its host.  Each operation on the room does no more.
-/

namespace AgentGather.Server

open AgentGather.Library AgentGather.Protocol AgentGather.Storage AgentGather.Storage.Boards

/-! ## What is known behind some steps -/

/-- The roster that was read first has the token, of this participant, who has not left the room
unless it is asked to wait. -/
def Identified (o : ServerOptions) (endpoint : Endpoint) (token : Option String)
    (auth : Participant) (steps : List RoomStep) : Prop :=
  ∃ found participants, steps.getLast? = some (.readParticipants found) ∧
    found.read = .ok participants ∧
    (token.bind fun token => findByToken o.hashToken token participants) = some auth ∧
    (auth.removedAt = none ∨ endpoint = .getWait)

/-- The room as it was read last. -/
def stateRead : List RoomStep → Option RoomState
  | [] => none
  | .readState found :: _ => found.read.toOption.map withRoomDefaults
  | _ :: steps => stateRead steps

/-- The roster as it was read last. -/
def rosterRead : List RoomStep → Option (List Participant)
  | [] => none
  | .readParticipants found :: _ => found.read.toOption
  | _ :: steps => rosterRead steps

/-- The room was read when it was open, and the clock when its time was over. -/
def SawExpired (steps : List RoomStep) : Prop :=
  ∃ found state clock, .readState found ∈ steps ∧ found.read = .ok state ∧
    .now clock ∈ steps ∧ state.status = .opened ∧ RoomState.expiredAt state clock = true

/-! ## The policy -/

/-- The record is of the same participant, with the same rights, and of one in the room. -/
structure SameRights (auth record : Participant) : Prop where
  aliasName : record.aliasName = auth.aliasName
  kind : record.kind = auth.kind
  isHost : record.isHost = auth.isHost
  tokenHash : record.tokenHash = auth.tokenHash
  active : auth.removedAt = none ∧ record.removedAt = none

def rosterEndpoints : List Endpoint :=
  [.getMessages, .postMessage, .getWait, .postProfile, .postJoin, .postLeave]

/-- How `room.json`, as it was read last, may be replaced: a setting by the host alone, and with
it no other. -/
def MayWrite (endpoint : Endpoint) (auth : Participant) (steps : List RoomStep)
    (old state : RoomState) : StateWrite → Prop
  | .appended => ∃ now id, state = { old with updatedAt := now, nextMessageId := id }
  | .closed => (∃ now,
      state = { old with activeSession := none, status := .closed, updatedAt := now }) ∧
      (endpoint = .postClose ∧ auth.isHost = true ∨ SawExpired steps)
  | .preferred => endpoint = .postLoopGuard ∧ auth.isHost = true ∧
      ∃ enabled delay now, state = { old with
        autoContinueEnabled := some enabled, autoContinueDelayS := some delay, updatedAt := now }
  | .started => endpoint = .postSession ∧ auth.isHost = true ∧
      ∃ session now, session.startedBy = auth.aliasName ∧
        state = { old with updatedAt := now, activeSession := some session }
  | .ended => endpoint = .postSession ∧ auth.isHost = true ∧
      ∃ now, state = { old with activeSession := none, updatedAt := now }
  | .updated => auth.isHost = true ∧ ∃ now,
      (endpoint = .postBrief ∧ state = { old with
        updatedAt := now
        briefVersion := old.briefVersion + 1
        briefUpdatedAt := now
        briefUpdatedBy := auth.aliasName }) ∨
      (endpoint = .postAttendance ∧ ∃ policy,
        state = { old with attendancePolicy := some policy, updatedAt := now })
  | .recovered => False

/-- The message is the system's, or the participant's own. -/
def MayAppend (endpoint : Endpoint) (auth : Participant) (message : Message) : Prop :=
  (message.type = .system ∧ message.sender = "system") ∨
  (endpoint = .postMessage ∧ message.type ≠ .system ∧ message.sender = auth.aliasName)

/-- What the participant may do in the room. -/
def Permitted (endpoint : Endpoint) (auth : Participant) (steps : List RoomStep) :
    RoomStep → Prop
  | .wroteState purpose state =>
      ∃ old, stateRead steps = some old ∧ MayWrite endpoint auth steps old state purpose
  | .wroteParticipants participants => endpoint ∈ rosterEndpoints ∧
      ∃ old record, rosterRead steps = some old ∧ SameRights auth record ∧
        participants = upsertRecord old record
  | .wroteBrief _ => endpoint = .postBrief ∧ auth.isHost = true
  | .appended message => MayAppend endpoint auth message
  | .madeDirectories => False
  | .created _ => False
  | .existed _ => False
  | .filled _ => False
  | .fired _ _ => False
  | .chmod file => file = .messages
  | _ => True

/-- What the participant may do in the forum; its channels stay as they are. -/
def PermittedInForum (endpoint : Endpoint) (auth : Participant) : BoardStep → Prop
  | .synced post => endpoint = .postForumPost ∧ post.author = auth.aliasName
  | .appended comment => endpoint = .postForumComment ∧ comment.author = auth.aliasName
  | .wroteBoardroom _ => False
  | .wrotePost _ => False
  | .madeDirectory _ => endpoint = .postForumPost ∨ endpoint = .postForumComment
  | .chmodDirectory _ => endpoint = .postForumPost ∨ endpoint = .postForumComment
  | .opened _ => endpoint = .postForumPost
  | .existed _ => endpoint = .postForumPost
  | .wroteByte _ => endpoint = .postForumPost ∨ endpoint = .postForumComment
  | .closed _ => endpoint = .postForumPost
  | .chmod _ => endpoint = .postForumPost ∨ endpoint = .postForumComment
  | _ => True

/-- The policy of a request with the token at the endpoint. -/
def roomPolicy (o : ServerOptions) (endpoint : Endpoint) (token : Option String) :
    Policy RoomStep := fun steps l =>
  (steps = [] ∧ token.isSome ∧ ∃ found, l = .readParticipants found) ∨
  ∃ auth, Identified o endpoint token auth steps ∧ Permitted endpoint auth steps l

section Facts

variable {o : ServerOptions} {endpoint : Endpoint} {token : Option String} {auth : Participant}
  {steps : List RoomStep}

theorem Identified.cons (h : Identified o endpoint token auth steps) (l : RoomStep) :
    Identified o endpoint token auth (l :: steps) := by
  obtain ⟨found, participants, hlast, hrest⟩ := h
  refine ⟨found, participants, ?_, hrest⟩
  cases steps with
  | nil => cases hlast
  | cons l' steps => rwa [List.getLast?_cons_cons]

theorem SawExpired.cons (h : SawExpired steps) (l : RoomStep) : SawExpired (l :: steps) := by
  obtain ⟨found, state, clock, hfound, hread, hclock, hrest⟩ := h
  exact ⟨found, state, clock, List.mem_cons_of_mem l hfound, hread,
    List.mem_cons_of_mem l hclock, hrest⟩

theorem stateRead_cons {l : RoomStep} (hl : ∀ found, l ≠ .readState found) :
    stateRead (l :: steps) = stateRead steps := by
  cases l with
  | readState found => exact absurd rfl (hl found)
  | _ => rfl

end Facts

/-! ## Behind the identification -/

/-- The step may be made whatever was made before. -/
def Fits (endpoint : Endpoint) (auth : Participant) (l : RoomStep) : Prop :=
  ∀ steps, Permitted endpoint auth steps l

/-- What lasts once the participant is known. -/
structure Behind (o : ServerOptions) (endpoint : Endpoint) (token : Option String)
    (auth : Participant) (I : List RoomStep → Prop) : Prop where
  lasting : ∀ steps l, I steps → I (l :: steps)
  identified : ∀ steps, I steps → Identified o endpoint token auth steps

/-- The program may go on like that, and `I` stays. -/
abbrev Stays {σ α : Type} (o : ServerOptions) (endpoint : Endpoint) (token : Option String)
    (I : List RoomStep → Prop) (p : Prog σ RoomStep Failure α) : Prop :=
  (roomPolicy o endpoint token).Obeys I (fun _ => I) (fun _ => I) p

/-- The room was read last as `r`. -/
def ReadAs (I : List RoomStep → Prop) (r : RoomState) (steps : List RoomStep) : Prop :=
  I steps ∧ stateRead steps = some r

section Rules

variable {o : ServerOptions} {endpoint : Endpoint} {token : Option String} {auth : Participant}
  {I J : List RoomStep → Prop} {σ α β : Type} {t : Nat}

theorem Behind.may (h : Behind o endpoint token auth I) {steps : List RoomStep} {l : RoomStep}
    (hI : I steps) (hl : Permitted endpoint auth steps l) :
    roomPolicy o endpoint token steps l := .inr ⟨auth, h.identified steps hI, hl⟩

theorem Behind.fits (h : Behind o endpoint token auth I) {p : Prog σ RoomStep Failure α}
    (hp : p.Announces (Fits endpoint auth)) : Stays o endpoint token I p := by
  have hobeys : (roomPolicy o endpoint token).Obeys I (fun _ steps => I steps ∧ True) (fun _ => I)
      p := .of_does hp fun steps l hI hl => ⟨h.may hI (hl steps), h.lasting steps l hI⟩
  exact hobeys.conseq (fun _ hI => hI) (fun _ _ hI => hI.1) fun _ _ hI => hI

/-- One step. -/
theorem Behind.action (h : Behind o endpoint token auth I) (hJ : ∀ steps, J steps → I steps)
    {label : σ → RoomStep} {ready : σ → Bool} {effect : σ → σ} {result : σ → Except Failure α}
    (hl : ∀ steps w, J steps → Permitted endpoint auth steps (label w)) :
    (roomPolicy o endpoint token).Obeys J (fun _ => I) (fun _ => I)
      (Prog.action label ready effect result) :=
  .action (fun steps w hsteps => h.may (hJ steps hsteps) (hl steps w hsteps))
    (fun steps _ _ hsteps _ => h.lasting steps _ (hJ steps hsteps))
    (fun steps _ _ hsteps _ => h.lasting steps _ (hJ steps hsteps))
    fun steps _ hsteps => hJ steps hsteps

/-- Steps that do not read the room again. -/
theorem Behind.unread (h : Behind o endpoint token auth I) {p : Prog σ RoomStep Failure α}
    (hp : p.Announces fun l => Fits endpoint auth l ∧ ∀ found, l ≠ .readState found)
    (r : RoomState) : (roomPolicy o endpoint token).Obeys (ReadAs I r) (fun _ => ReadAs I r)
      (fun _ => I) p := by
  have hobeys : (roomPolicy o endpoint token).Obeys (ReadAs I r)
      (fun _ steps => ReadAs I r steps ∧ True) (fun _ => ReadAs I r) p := by
    refine .of_does hp fun steps l hread hl => ?_
    obtain ⟨hI, hstate⟩ := hread
    exact ⟨h.may hI (hl.1 steps), h.lasting steps l hI, (stateRead_cons hl.2).trans hstate⟩
  exact hobeys.conseq (fun _ h => h) (fun _ _ h => h.1) fun _ _ h => h.1

/-- A section under the lock. -/
theorem Behind.locked (h : Behind o endpoint token auth I) {body : RoomProg ServerMemory α}
    (hbody : Stays o endpoint token I body) :
    Stays o endpoint token I (withWriterLock t body) := by
  have hacquire : Stays o endpoint token I (acquireWriterLock t : RoomProg ServerMemory Unit) :=
    h.action (fun _ hI => hI) fun _ _ _ => trivial
  have hrelease : Stays o endpoint token I (releaseWriterLock : RoomProg ServerMemory Unit) :=
    h.action (fun _ hI => hI) fun _ _ _ => trivial
  exact hacquire.bind fun _ => hbody.finallyDo (fun _ => hrelease) fun _ => hrelease

end Rules

/-! ## Steps -/

section Steps

variable {X : RoomStep → Prop} {t : Nat}

theorem announces_dateNow (hX : ∀ clock, X (.now clock)) (now : Option Nat) :
    (dateNow now : RoomProg ServerMemory Nat).Announces X := by
  cases now with
  | some now => trivial
  | none => exact .action fun _ => hX _

theorem announces_readParticipants (hX : ∀ found, X (.readParticipants found)) :
    (readParticipants : RoomProg ServerMemory (List Participant)).Announces X :=
  .action fun _ => hX _

theorem announces_readMessages (hX : X .readMessages) :
    (readMessages : RoomProg ServerMemory (List Message)).Announces X := .action fun _ => hX

theorem announces_synchronously {α : Type} (hmemory : X .memory)
    (hpending : ∀ clock entry, X (.pending clock entry)) (code : Nat → MemoryM α) :
    (synchronously code).Announces X := by
  refine .action fun w => ?_
  unfold pendingLabel
  split_ifs
  · exact hmemory
  · exact hpending _ _

theorem announces_settling {α : Type} (hmemory : X .memory) (hnothing : X .nothingPending)
    (hpending : ∀ clock entry, X (.pending clock entry)) (code : Nat → MemoryM α) :
    (settling code).Announces X := by
  refine .action fun w => ?_
  unfold settledLabel pendingLabel
  split_ifs
  · exact hnothing
  · exact hmemory
  · exact hpending _ _

end Steps

/-! ## The room store -/

section Store

variable {o : ServerOptions} {endpoint : Endpoint} {token : Option String} {auth : Participant}
  {I : List RoomStep → Prop} {t : Nat}

theorem Behind.dateNow (h : Behind o endpoint token auth I) (now : Option Nat) :
    Stays o endpoint token I (dateNow now : RoomProg ServerMemory Nat) :=
  h.fits (announces_dateNow (fun _ _ => trivial) now)

theorem Behind.synchronously (h : Behind o endpoint token auth I) {α : Type}
    (code : Nat → MemoryM α) : Stays o endpoint token I (synchronously code) :=
  h.fits (announces_synchronously (fun _ => trivial) (fun _ _ _ => trivial) code)

theorem Behind.settling (h : Behind o endpoint token auth I) {α : Type}
    (code : Nat → MemoryM α) : Stays o endpoint token I (settling code) :=
  h.fits (announces_settling (fun _ => trivial) (fun _ => trivial) (fun _ _ _ => trivial) code)

theorem Behind.readRoomState (h : Behind o endpoint token auth I) :
    (roomPolicy o endpoint token).Obeys I (ReadAs I) (fun _ => I)
      (readRoomState : RoomProg ServerMemory RoomState) := by
  refine .action (fun steps w hI => h.may hI trivial) (fun steps w r hI hr => ?_)
    (fun steps w _ hI _ => h.lasting steps _ hI) fun _ _ hI => hI
  refine ⟨h.lasting steps _ hI, ?_⟩
  cases hread : w.files.state.read with
  | error e =>
      rw [hread] at hr
      cases hr
  | ok raw =>
      rw [hread] at hr
      obtain rfl := Except.ok.inj hr
      simp only [stateRead, hread, Except.toOption, Option.map_some]

theorem Behind.readParticipants (h : Behind o endpoint token auth I) :
    (roomPolicy o endpoint token).Obeys I
      (fun participants steps => I steps ∧ rosterRead steps = some participants) (fun _ => I)
      (readParticipants : RoomProg ServerMemory (List Participant)) := by
  refine .action (fun steps w hI => h.may hI trivial) (fun steps w participants hI hread => ?_)
    (fun steps w _ hI _ => h.lasting steps _ hI) fun _ _ hI => hI
  refine ⟨h.lasting steps _ hI, ?_⟩
  simp only [rosterRead, hread, Except.toOption]

/-- The roster with a record of the participant's own. -/
theorem Behind.writeRecord (h : Behind o endpoint token auth I)
    (hendpoint : endpoint ∈ rosterEndpoints) {record : Participant}
    (hrights : SameRights auth record) (participants : List Participant) :
    (roomPolicy o endpoint token).Obeys
      (fun steps => I steps ∧ rosterRead steps = some participants) (fun _ => I) (fun _ => I)
      (writeParticipantsFile (upsertRecord participants record) :
        RoomProg ServerMemory Unit) :=
  h.action (fun _ hI => hI.1) fun _ _ hread =>
    ⟨hendpoint, participants, record, hread.2, hrights, rfl⟩

theorem Behind.upsertParticipant (h : Behind o endpoint token auth I)
    (hendpoint : endpoint ∈ rosterEndpoints) {record : Participant}
    (hrights : SameRights auth record) :
    Stays o endpoint token I (upsertParticipant t record : RoomProg ServerMemory Unit) :=
  .checked fun _ _ => h.locked
    (h.readParticipants.bind fun participants => h.writeRecord hendpoint hrights participants)

theorem Behind.joinParticipant (h : Behind o endpoint token auth I)
    (hendpoint : endpoint ∈ rosterEndpoints) {record : Participant}
    (hrights : SameRights auth record) (staleAfterMs : Nat) (incomingSessionId : Option String) :
    Stays o endpoint token I (joinParticipant t record staleAfterMs incomingSessionId :
      RoomProg ServerMemory Bool) := by
  refine .checked fun _ _ => (h.dateNow none).bind fun now => h.locked ?_
  refine h.readParticipants.bind fun participants => ?_
  exact (h.writeRecord hendpoint hrights participants).bind fun _ => .done

/-- The room is replaced by what is made of it as it was read. -/
theorem Behind.writeRead (h : Behind o endpoint token auth I) {purpose : StateWrite}
    {r state : RoomState}
    (hwrite : ∀ steps, I steps → MayWrite endpoint auth steps r state purpose) :
    (roomPolicy o endpoint token).Obeys (ReadAs I r) (fun _ => I) (fun _ => I)
      (writeState purpose state : RoomProg ServerMemory Unit) :=
  h.action (fun _ hread => hread.1) fun steps _ hread => ⟨r, hread.2, hwrite steps hread.1⟩

/-- A section under the lock that reads the room first, with the time it was called at. -/
theorem Behind.edit {α : Type} (h : Behind o endpoint token auth I) (now : Option Nat)
    {f : Nat → RoomState → RoomProg ServerMemory α}
    (hf : ∀ now r, (roomPolicy o endpoint token).Obeys (ReadAs I r) (fun _ => I) (fun _ => I)
      (f now r)) :
    Stays o endpoint token I ((AgentGather.Storage.dateNow now).bind fun now =>
      withWriterLock t ((AgentGather.Storage.readRoomState).bind (f now))) :=
  (h.dateNow now).bind fun now => h.locked (h.readRoomState.bind (hf now))

/-- The line of a message and the next id. -/
theorem Behind.appendLine (h : Behind o endpoint token auth I) {message : Message}
    (hmessage : MayAppend endpoint auth message) (r : RoomState) (now nextId : Nat) :
    (roomPolicy o endpoint token).Obeys (ReadAs I r) (fun _ => I) (fun _ => I)
      ((appendJsonLine message).bind fun _ =>
        (writeState .appended { r with updatedAt := now, nextMessageId := nextId } :
          RoomProg ServerMemory Unit)) := by
  have hline : (appendJsonLine message : RoomProg ServerMemory Unit).Announces fun l =>
      Fits endpoint auth l ∧ ∀ found, l ≠ .readState found := by
    have hmode : (Prog.update (fun _ => .chmod .messages) id :
        RoomProg ServerMemory Unit).Announces fun l =>
          Fits endpoint auth l ∧ ∀ found, l ≠ .readState found :=
      Prog.Does.action fun _ => ⟨fun _ => rfl, fun _ h => by cases h⟩
    have hwrite : Fits endpoint auth (.appended message) ∧
        ∀ found, RoomStep.appended message ≠ .readState found :=
      ⟨fun _ => hmessage, fun _ h => by cases h⟩
    exact Prog.Does.bind (Prog.Does.action fun _ => hwrite) fun _ _ => hmode
  exact (h.unread hline r).bind fun _ =>
    h.writeRead fun _ _ => ⟨now, nextId, rfl⟩

/-- The files a message is made of, read under the lock. -/
theorem Behind.readFiles (h : Behind o endpoint token auth I) (r : RoomState) :
    (roomPolicy o endpoint token).Obeys (ReadAs I r) (fun _ => ReadAs I r) (fun _ => I)
      (AgentGather.Storage.readParticipants : RoomProg ServerMemory (List Participant)) :=
  h.unread (announces_readParticipants fun _ => ⟨fun _ => trivial, fun _ h => by cases h⟩) r

theorem Behind.appendSystem (h : Behind o endpoint token auth I) (text : String) :
    Stays o endpoint token I (appendSystem t o text) := by
  refine .checked fun _ _ => .checked fun _ _ => h.edit none fun now r => ?_
  refine (h.readFiles r).bind fun participants => ?_
  have hmessage : MayAppend endpoint auth (serverMessage r participants "system" text now) :=
    .inl ⟨rfl, rfl⟩
  exact (h.appendLine hmessage r now _).bind fun _ => .done

/-- A message of the participant's own. -/
theorem Behind.appendMessageResult (h : Behind o .postMessage token auth I)
    {options : AppendMessageOptions} (hsender : options.sender = auth.aliasName) :
    Stays o .postMessage token I
      (appendMessageResult t options : RoomProg ServerMemory AppendMessageResult) := by
  refine .checked fun _ _ => .checked fun _ _ => .checked fun input hinput => ?_
  refine h.edit options.now fun now r => (h.readFiles r).bind fun participants => ?_
  have hmessages : (roomPolicy o .postMessage token).Obeys (ReadAs I r) (fun _ => ReadAs I r)
      (fun _ => I) (readJsonLines : RoomProg ServerMemory (List Message)) :=
    h.unread (announces_readMessages ⟨fun _ => trivial, fun _ h => by cases h⟩) r
  refine hmessages.bind fun messages => .bind_ofExcept (fun result hresult => ?_)
    fun _ _ _ hread => hread.1
  have hown : result.message.sender = auth.aliasName := by
    rcases decideAppend_cases hresult with ⟨-, -, hrepeated, -⟩ | ⟨-, hnew⟩
    · exact hrepeated.trans hsender
    · rw [hnew]
      exact hsender
  split
  · exact .ret fun _ hread => hread.1
  · rename_i hnew
    have hclient := decideAppend_type hinput hresult (Bool.not_eq_true _ ▸ hnew)
    have hmessage : MayAppend .postMessage auth result.message := .inr ⟨rfl, hclient, hown⟩
    exact (h.appendLine hmessage r now _).bind fun _ => .done

/-- The host closes the room, or who has seen that its time is over. -/
theorem Behind.closeRoom (h : Behind o endpoint token auth I)
    (hclose : ∀ steps, I steps → endpoint = .postClose ∧ auth.isHost = true ∨ SawExpired steps)
    (now : Option Nat) :
    Stays o endpoint token I (closeRoom t now : RoomProg ServerMemory RoomState) := by
  refine h.edit now fun now r => ?_
  exact .bind (h.writeRead fun steps hI => ⟨⟨now, rfl⟩, hclose steps hI⟩) fun _ => .done

theorem exists_read_of_stateRead {steps : List RoomStep} {r : RoomState}
    (h : stateRead steps = some r) :
    ∃ found raw, .readState found ∈ steps ∧ found.read = .ok raw ∧ r = withRoomDefaults raw := by
  induction steps with
  | nil => cases h
  | cons l steps ih =>
      cases l with
      | readState found =>
          cases hread : found.read with
          | error e => simp [stateRead, hread, Except.toOption] at h
          | ok raw =>
              simp only [stateRead, hread, Except.toOption, Option.map_some] at h
              exact ⟨found, raw, List.mem_cons_self, hread, (Option.some.inj h).symm⟩
      | _ =>
          obtain ⟨found, raw, hmem, hrest⟩ := ih h
          exact ⟨found, raw, List.mem_cons_of_mem _ hmem, hrest⟩

theorem Behind.expired (h : Behind o endpoint token auth I) :
    Behind o endpoint token auth fun steps => I steps ∧ SawExpired steps where
  lasting steps l hI := ⟨h.lasting steps l hI.1, hI.2.cons l⟩
  identified steps hI := h.identified steps hI.1

/-- The clock, behind the reading of the room. -/
theorem Behind.clock (h : Behind o endpoint token auth I) (r : RoomState) :
    (roomPolicy o endpoint token).Obeys (ReadAs I r)
      (fun now steps => ReadAs I r steps ∧ .now now ∈ steps) (fun _ => I)
      (AgentGather.Storage.dateNow none : RoomProg ServerMemory Nat) := by
  refine .action (fun steps w hread => h.may hread.1 trivial) (fun steps w now hread hnow => ?_)
    (fun steps w _ hread _ => h.lasting steps _ hread.1) fun _ _ hread => hread.1
  obtain rfl := Except.ok.inj hnow
  exact ⟨⟨h.lasting steps _ hread.1, hread.2⟩, List.mem_cons_self⟩

theorem Behind.closeExpiredRoomIfNeeded (h : Behind o endpoint token auth I) :
    Stays o endpoint token I (closeExpiredRoomIfNeeded t o) := by
  refine h.readRoomState.bind fun r => (h.clock r).bind fun now => ?_
  split
  · rename_i hexpired
    -- what was seen before the close lasts, so also the messages behind it are allowed
    have hclosed : Stays o endpoint token (fun steps => I steps ∧ SawExpired steps)
        ((Server.synchronously fun _ => cancelPendingAutoContinue).bind fun _ =>
          (AgentGather.Storage.closeRoom t none).bind fun closed =>
            (Server.appendSystem t o "room closed by ttl").bind fun _ =>
              (Server.synchronously fun _ => notifyWaiters).bind fun _ => .ret closed) := by
      refine (h.expired.synchronously _).bind fun _ =>
        (h.expired.closeRoom (fun _ hI => .inr hI.2) none).bind fun closed => ?_
      exact (h.expired.appendSystem _).bind fun _ => (h.expired.synchronously _).bind fun _ => .done
    refine hclosed.conseq (fun steps hsteps => ?_) (fun _ _ hI => hI.1) fun _ _ hI => hI.1
    obtain ⟨⟨hI, hstate⟩, hnow⟩ := hsteps
    obtain ⟨found, raw, hmem, hread, rfl⟩ := exists_read_of_stateRead hstate
    exact ⟨hI, found, raw, now, hmem, hread, hnow, hexpired⟩
  · exact .ret fun _ hsteps => hsteps.1.1

theorem Behind.requireRoomOpen (h : Behind o endpoint token auth I) :
    Stays o endpoint token I (requireRoomOpen t o) := by
  refine h.closeExpiredRoomIfNeeded.bind fun state => ?_
  split
  · exact .thrown
  · exact .done

theorem Behind.touchParticipant (h : Behind o endpoint token auth I)
    (hendpoint : endpoint ∈ rosterEndpoints) (hactive : auth.removedAt = none)
    (attention : ParticipantAttention) :
    Stays o endpoint token I (touchParticipant t auth attention) :=
  (h.dateNow none).bind fun _ =>
    h.upsertParticipant hendpoint ⟨rfl, rfl, rfl, rfl, hactive, hactive⟩

theorem Behind.pauseLoop (h : Behind o endpoint token auth I) (participant : Participant) :
    Stays o endpoint token I (pauseLoop participant) := by
  refine h.readRoomState.bind fun state => ?_
  refine Policy.Obeys.pre (I := I) ?_ fun _ hread => hread.1
  split
  · exact .thrown
  · exact h.synchronously _

theorem Behind.enforceGuards (h : Behind o endpoint token auth I) (participant : Participant) :
    Stays o endpoint token I (enforceGuards o participant) := by
  have hcount : Stays o endpoint token I
      (Server.synchronously fun now => do
        enforceRateLimit (o.roomId ++ ":" ++ participant.aliasName) o.rateLimitPerMinute now
        countPost participant o.loopGuardLimit) := h.synchronously _
  refine hcount.bind fun outcome => ?_
  cases outcome with
  | passed => exact .done
  | limitExceeded => exact h.pauseLoop participant

theorem Behind.readJsonBody (h : Behind o endpoint token auth I) (req : Request) :
    Stays o endpoint token I (readJsonBody req) :=
  h.action (fun _ hI => hI) fun _ _ _ => trivial

theorem Behind.readMessages (h : Behind o endpoint token auth I) :
    Stays o endpoint token I (readMessages : RoomProg ServerMemory (List Message)) :=
  h.fits (announces_readMessages fun _ => trivial)

theorem fits_readRoomState :
    (readRoomState : RoomProg ServerMemory RoomState).Announces (Fits endpoint auth) :=
  .action fun _ _ => trivial

theorem fits_readBrief (bodyFirst : Bool) :
    (readBrief bodyFirst : RoomProg ServerMemory RoomBrief).Announces (Fits endpoint auth) := by
  have hbody : (readBriefFile : RoomProg ServerMemory String).Announces (Fits endpoint auth) :=
    .action fun _ _ => trivial
  cases bodyFirst with
  | true => exact .andThen hbody fun _ => .andThen fits_readRoomState fun _ => trivial
  | false => exact .andThen fits_readRoomState fun _ => .andThen hbody fun _ => trivial

theorem fits_readParticipants :
    (readParticipants : RoomProg ServerMemory (List Participant)).Announces (Fits endpoint auth) :=
  announces_readParticipants fun _ _ => trivial

end Store

/-! ## The settings of the host -/

section Host

variable {o : ServerOptions} {endpoint : Endpoint} {token : Option String} {auth : Participant}
  {I : List RoomStep → Prop} {t : Nat}

theorem Behind.updateBrief (h : Behind o .postBrief token auth I) (hhost : auth.isHost = true)
    {options : UpdateBriefOptions} (hby : options.updatedBy = auth.aliasName) :
    Stays o .postBrief token I (updateBrief t options : RoomProg ServerMemory RoomBrief) := by
  refine .checked fun _ _ => .checked fun _ _ => .checked fun _ _ => ?_
  refine h.edit options.now fun now r => ?_
  have hbody : (writeBriefFile options.body : RoomProg ServerMemory Unit).Announces fun l =>
      Fits .postBrief auth l ∧ ∀ found, l ≠ .readState found :=
    Prog.Does.action fun _ => ⟨fun _ => ⟨rfl, hhost⟩, fun _ h => by cases h⟩
  refine (h.unread hbody r).bind fun _ => .bind (h.writeRead fun _ _ => ?_) fun _ => .done
  exact ⟨hhost, now, .inl ⟨rfl, by rw [hby]⟩⟩

theorem Behind.updateAttendancePolicy (h : Behind o .postAttendance token auth I)
    (hhost : auth.isHost = true) (options : UpdateAttendancePolicyOptions) :
    Stays o .postAttendance token I
      (updateAttendancePolicy t options : RoomProg ServerMemory RoomState) := by
  refine .checked fun _ _ => .checked fun _ _ => h.edit options.now fun now r => ?_
  refine .bind (h.writeRead fun _ _ => ?_) fun _ => .done
  exact ⟨hhost, now, .inr ⟨rfl, options.policy, rfl⟩⟩

theorem Behind.updateLoopGuardPreference (h : Behind o .postLoopGuard token auth I)
    (hhost : auth.isHost = true) (options : UpdateLoopGuardPreferenceOptions) :
    Stays o .postLoopGuard token I
      (updateLoopGuardPreference t options : RoomProg ServerMemory RoomState) := by
  refine .checked fun _ _ => .checked fun _ _ => ?_
  dsimp only
  split
  · exact .thrown
  · refine h.edit options.now fun now r => .bind (h.writeRead fun _ _ => ?_) fun _ => .done
    exact ⟨rfl, hhost, options.enabled, _, now, rfl⟩

theorem Behind.startActiveSession (h : Behind o .postSession token auth I)
    (hhost : auth.isHost = true) {options : StartActiveSessionOptions}
    (hby : options.startedBy = auth.aliasName) :
    Stays o .postSession token I
      (startActiveSession t options : RoomProg ServerMemory ActiveSession) := by
  refine .checked fun _ _ => .checked fun _ _ => h.edit options.now fun now r => ?_
  dsimp only
  split
  · exact .err fun _ hread => hread.1
  · refine .bind (h.writeRead fun _ _ => ?_) fun _ => .done
    exact ⟨rfl, hhost, _, now, hby, rfl⟩

theorem Behind.endActiveSession (h : Behind o .postSession token auth I)
    (hhost : auth.isHost = true) (roomId : String) (now : Option Nat) :
    Stays o .postSession token I
      (endActiveSession t roomId now : RoomProg ServerMemory (Option ActiveSession)) := by
  refine .checked fun _ _ => h.edit now fun now r => ?_
  split
  · exact .ret fun _ hread => hread.1
  · exact .bind (h.writeRead fun _ _ => ⟨rfl, hhost, now, rfl⟩) fun _ => .done

theorem isHost_of_requireHost {u : Unit} (h : requireHost auth = .ok u) : auth.isHost = true := by
  unfold requireHost at h
  split_ifs at h with hhost
  exact hhost

end Host

end AgentGather.Server
