import AgentGather.Library.Cursor
import AgentGather.Protocol.Urls
import AgentGather.Server.Roster
import AgentGather.Storage.History

/-!
# The continuation of a wait

Every answer to a wait in an open room tells the command to go on with.  Its cursor is that
of the answer; whether it is on the base URL that is advertised depends on the way the answer
was built.
-/

namespace AgentGather.Server

open AgentGather.Library AgentGather.Protocol AgentGather.Storage

/-! ## The command -/

/-- `candidate` is what the resolver of the public base URL returns, unless it is no text. -/
def advertisedBaseUrl (H : HostParser) (baseUrl : List Char) (candidate : Option (List Char)) :
    List Char :=
  match candidate with
  | none => baseUrl
  | some candidate =>
      if candidate = [] then baseUrl else (normalizeBaseUrl H candidate).getD baseUrl

def WaitBase.url (H : HostParser) (baseUrl : List Char) (candidate : Option (List Char)) :
    WaitBase → List Char
  | .serverBase => baseUrl
  | .advertisedBase => advertisedBaseUrl H baseUrl candidate

/-- None where the URL throws, and with it the building of the answer. -/
def waitCommand (H : HostParser) (baseUrl : List Char) (participant : String)
    (nextSinceId : Nat) : Option (List Char) :=
  (roomUrl H baseUrl ("/wait?participant=" ++ participant ++ "&since_id=" ++
    toString nextSinceId).toList).map fun url =>
      "curl -s \"".toList ++ url ++ "\" -H \"Authorization: Bearer $TOKEN\"".toList

/-- `next_cmd` -/
def WaitResponse.command (H : HostParser) (baseUrl : List Char)
    (candidate : Option (List Char)) (r : WaitResponse) : Option (List Char) :=
  r.nextCmd.bind fun base =>
    waitCommand H (base.url H baseUrl candidate) r.participant r.nextSinceId

/-- The answer goes on below the advertised base URL, from its own cursor, which is not
behind the one it was asked for. -/
structure ContinuesAdvertised (H : HostParser) (baseUrl : List Char)
    (candidate : Option (List Char)) (sinceId : Nat) (r : WaitResponse) : Prop where
  command : r.command H baseUrl candidate =
    waitCommand H (advertisedBaseUrl H baseUrl candidate) r.participant r.nextSinceId
  cursor : sinceId ≤ r.nextSinceId

/-! ## What a wait looks at -/

/-- The log as caller `t` has read it last. -/
def seenLog (initial : List Message) (t : Nat) : List (Event RoomStep) → List Message
  | [] => []
  | .ran u l :: es =>
      if u = t ∧ l = .readMessages then logged initial es else seenLog initial t es
  | _ :: es => seenLog initial t es

/-- What is newer than the cursor, of the log as the caller has read it last. -/
def seenNewer (initial : List Message) (t sinceId : Nat) (es : List (Event RoomStep)) :
    List Message :=
  Cursor.after Message.id (seenLog initial t es) sinceId

/-- The cursor behind the messages. -/
def nextCursor (sinceId : Nat) (messages : List Message) : Nat :=
  (messages.getLast?.map (·.id)).getD sinceId

section Runs

variable {process : Nat → Nat} {t : Nat} {o : ServerOptions} {initial : List Message}
  {req : Request}

/-- The log is what the history tells. -/
def LogInv (initial : List Message) (x : Snapshot (World ServerMemory) RoomStep) : Prop :=
  x.world.files.log = logged initial x.trace

theorem seenLog_foreign {e : Event RoomStep}
    (hf : (faultySystem ServerMemory process).Foreign t e) (es : List (Event RoomStep)) :
    seenLog initial t (e :: es) = seenLog initial t es := by
  rcases e with ⟨u, l⟩ | ⟨u, l⟩ | p
  · exact if_neg fun h => hf h.1
  · rfl
  · rfl

theorem logInv_noWrite : KeptWithoutWrites (LogInv initial) :=
  fun _ _ _ hx he hfiles => log_of_noWrite hx he hfiles

theorem logInv_status : KeptByStatus (LogInv initial) where
  noWrite := logInv_noWrite
  state _ _ _ _ _ hx _ _ _ _ := hx
  system _ _ m hx _ _ _ := congrArg (· ++ [m]) hx

theorem logInv_requests : KeptByRequests process (LogInv initial) t o (fun _ _ => True)
    fun _ => True :=
  logInv_status.requests (fun _ _ hx => hx) (.of_const True) (true_own _)
    (requireRoomOpen_kept logInv_status.room) <|
    appendMessageResult_safe logInv_status.room (.of_const True) (true_own _)
      (anyPast_enduring t) (fun _ _ _ => trivial) fun _ m hx _ _ => congrArg (· ++ [m]) hx

/-- What is read of the log is what the caller has seen of it. -/
theorem readMessages_sees :
    LockSafe process (LogInv initial) t (fun all x => seenLog initial t x.trace = all)
      (fun _ _ => True) readMessages fun _ => True := by
  refine (look_safe logInv_noWrite.quietly (.of_const True) (true_own fun _ => True)
    fun _ => ⟨rfl, trivial⟩).conseq (fun _ _ h => h) ?_ fun _ _ _ _ => trivial
  rintro all y - ⟨-, x, w, rfl, rfl, hx, -, hall⟩
  have hlog : x.world.files.log = all := by
    rw [RoomFiles.log, Stored.eq_whole_of_read hall]
  rw [Snapshot.record_trace, seenLog, if_pos ⟨rfl, rfl⟩, ← hx, hlog]

/-! ## What a wait answers -/

/-- The answer tells the participant what the wait has seen. -/
structure WaitSeen (initial : List Message) (t sinceId : Nat) (aliasName : String)
    (r : WaitResponse) (x : Snapshot (World ServerMemory) RoomStep) : Prop where
  participant : r.participant = aliasName
  messages : r.messages = seenNewer initial t sinceId x.trace
  cursor : r.nextSinceId = nextCursor sinceId r.messages
  base : r.nextCmd = some (if r.messages = [] then .advertisedBase else .serverBase)

/-- A wait answers what it has seen, unless the room is closed; it goes on if there is
nothing. -/
theorem waitSnapshot_sees (aliasName : String) (sinceId : Nat) :
    LockSafe process (LogInv initial) t
      (fun found x => match found with
        | some r => r.roomStatus = .opened → WaitSeen initial t sinceId aliasName r x
        | none => seenNewer initial t sinceId x.trace = [])
      (fun _ _ => True) (waitSnapshot t o aliasName sinceId) fun _ => True := by
  refine (closeExpiredRoomIfNeeded_kept logInv_status.room).bind fun state => ?_
  split_ifs
  · exact .done fun _ _ _ => fun hopen => nomatch hopen
  · refine readMessages_sees.bind fun all => ?_
    dsimp only
    split_ifs with hnone
    · refine .done fun x _ hseen => ?_
      rw [seenNewer, hseen]
      exact List.isEmpty_iff.mp hnone
    · refine .done fun x _ hseen _ => ⟨rfl, ?_, rfl, ?_⟩
      · rw [seenNewer, hseen]
        rfl
      · exact congrArg some (if_neg fun h => hnone (List.isEmpty_iff.mpr h)).symm

/-- Whoever is told that it may go on waiting in an open room is told what the wait has
seen. -/
def Continues (initial : List Message) (t : Nat) (req : Request) (auth : Participant)
    (reply : Reply) (x : Snapshot (World ServerMemory) RoomStep) : Prop :=
  ∀ r, reply = .waited r → r.removed = false → r.roomStatus = .opened →
    ∃ sinceId, parseSinceId (req.param "since_id") = .ok sinceId ∧
      WaitSeen initial t sinceId auth.aliasName r x

theorem waitReply_sees (auth : Participant) :
    LockSafe process (LogInv initial) t (Continues initial t req auth) (fun _ _ => True)
      (waitReply t o req auth) fun _ => True := by
  refine .bind_ofExcept (fun sinceId hsince => ?_) fun _ _ _ _ _ => trivial
  dsimp only
  split
  · exact fun _ _ _ => trivial
  split
  · refine (closeExpiredRoomIfNeeded_kept logInv_status.room).bind fun state =>
      .done fun _ _ _ => ?_
    rintro r ⟨⟩ hremoved
    cases hremoved
  refine (waitSnapshot_sees _ _).bind fun immediate => ?_
  cases immediate with
  | some immediate =>
      refine .done fun x _ hseen => ?_
      rintro r ⟨⟩ - hopen
      exact ⟨sinceId, hsince, hseen hopen⟩
  | none =>
      refine Contract.Safe.pre (P := fun _ => True) ?_ fun _ _ _ => trivial
      refine (holdWait_kept logInv_noWrite.quietly).bind fun _ =>
        (waitSnapshot_sees _ _).bind fun afterWait => ?_
      cases afterWait with
      | some afterWait =>
          refine .done fun x _ hseen => ?_
          rintro r ⟨⟩ - hopen
          exact ⟨sinceId, hsince, hseen hopen⟩
      | none =>
          refine .done fun x _ hnone => ?_
          rintro r ⟨⟩ - -
          exact ⟨sinceId, hsince, rfl, hnone.symm, rfl, rfl⟩

/-- A request is known to be of whom it authenticated as. -/
theorem authenticated_rules :
    RequestRules process (LogInv initial) t o req (fun x => firstRead t x.trace = none)
      (fun auth x => authenticated o req t x.trace = some auth) fun _ _ => True := by
  have requests : KeptByRequests process (LogInv initial) t o _ _ := logInv_requests
  exact
    { lasting := fun _ _ e _ h => authenticated_cons h e
      authenticate := requireParticipant_safe logInv_noWrite.quietly req
      upsert := fun _ new _ => (upsertParticipant_kept requests new).pre fun _ _ _ => trivial
      join := fun _ new staleAfterMs sessionId _ =>
        (joinParticipant_kept requests new staleAfterMs sessionId).pre fun _ _ _ => trivial }

/-- The reply is for the participant that the request authenticated as. -/
def WaitReturned (o : ServerOptions) (initial : List Message) (t : Nat) (req : Request)
    (reply : Reply) (x : Snapshot (World ServerMemory) RoomStep) : Prop :=
  ∃ auth, authenticated o req t x.trace = some auth ∧ Continues initial t req auth reply x

theorem getWait_sees :
    LockSafe process (LogInv initial) t (WaitReturned o initial t req) (fun _ _ => True)
      (getWait t o req) fun x => firstRead t x.trace = none := by
  have rules : RequestRules process (LogInv initial) t o req _ _ _ := authenticated_rules
  have hreply (auth : Participant) :
      LockSafe process (LogInv initial) t (WaitReturned o initial t req) (fun _ _ => True)
        (waitReply t o req auth) fun x => authenticated o req t x.trace = some auth :=
    ((waitReply_sees auth).frame (rules.lasting auth)).conseq (fun _ _ h => ⟨trivial, h⟩)
      (fun _ _ _ h => ⟨auth, h.2, h.1⟩) fun _ _ _ _ => trivial
  refine (rules.authenticate true).bind fun auth => ?_
  refine Contract.Safe.pre (P := fun x => authenticated o req t x.trace = some auth) ?_
    fun _ _ hp => hp.2
  dsimp only
  split
  · exact (touchParticipant_safe logInv_status.room rules fun _ => trivial).bind
      fun _ => hreply auth
  · exact hreply auth

/-! ## Calls -/

/-- A call has returned as a wait does, if it is one. -/
def CallReturned (o : ServerOptions) (initial : List Message) (call : ServerCall) (t : Nat)
    (reply : Option Reply) (x : Snapshot (World ServerMemory) RoomStep) : Prop :=
  ∀ req r, call = .request .getWait req → reply = some (.waited r) →
    WaitReturned o initial t req (.waited r) x

theorem call_sees (call : ServerCall) :
    LockSafe process (LogInv initial) t (CallReturned o initial call t) (fun _ _ => True)
      (call.prog o t) fun x => firstRead t x.trace = none := by
  by_cases hwait : ∃ req, call = .request .getWait req
  · obtain ⟨req, rfl⟩ := hwait
    refine getWait_sees.bind fun reply => .done fun x _ hreturned => ?_
    rintro req' r ⟨⟩ ⟨⟩
    exact hreturned
  · have hany : Kept process (LogInv initial) t (call.prog o t) :=
      call_safe logInv_requests
        (fun _ _ _ => handler_safe logInv_requests (anyRecord_rules logInv_requests)
          fun _ => logInv_status.loopGuard)
        (completeAutoContinue_any logInv_noWrite logInv_status.room
          (appendApproval_any logInv_status.room fun _ m hx _ _ =>
            congrArg (· ++ [m]) hx))
    refine hany.conseq (fun _ _ _ => trivial) (fun reply x _ _ => ?_) fun _ _ _ _ => trivial
    exact fun req r hcall _ => (hwait ⟨req, hcall⟩).elim

theorem callReturned_stable (call : ServerCall) (reply : Option Reply) :
    LockStable process (LogInv initial) t (CallReturned o initial call t reply) := by
  intro e x w hf _ _ _ h req r hcall hreply
  obtain ⟨auth, hauth, hcontinues⟩ := h req r hcall hreply
  refine ⟨auth, authenticated_cons hauth e, fun r' hr hremoved hopen => ?_⟩
  obtain ⟨sinceId, hsince, hseen⟩ := hcontinues r' hr hremoved hopen
  refine ⟨sinceId, hsince, hseen.participant, ?_, hseen.cursor, hseen.base⟩
  rw [hseen.messages, Snapshot.record_trace, seenNewer, seenNewer, seenLog_foreign hf]

theorem serving_sees {files : RoomFiles} {clock : Nat} {memory : ServerMemory}
    {calls : List ServerCall} :
    (lockContract process (LogInv files.log)).HoldsTo (faultySystem ServerMemory process)
      (fun t reply x => ∀ call, calls[t]? = some call →
        CallReturned o files.log call t reply x)
      (fun _ _ _ => True) (serving o files clock memory calls) := by
  have hinv : LogInv files.log (serving o files clock memory calls).snap := rfl
  refine ⟨hinv, fun t p hp => ?_⟩
  obtain ⟨call, hcall, rfl⟩ := thread_serving hp
  refine .of_safe ((call_sees call).conseq (fun _ _ h => h) (fun reply x _ h => ?_)
    fun _ _ _ h => h) hinv rfl
  intro call' hcall'
  obtain rfl := Option.some.inj (hcall.symm.trans hcall')
  exact h

/-! ## Runs -/

/-- The cursor behind what is newer than a cursor is not behind it. -/
theorem le_nextCursor {sinceId : Nat} {messages : List Message}
    (h : ∀ m ∈ messages, sinceId < m.id) : sinceId ≤ nextCursor sinceId messages := by
  rw [nextCursor]
  cases hlast : messages.getLast? with
  | none => exact Nat.le_refl sinceId
  | some m => exact Nat.le_of_lt (h m (List.mem_of_getLast? hlast))

/-- In every run, an answer to a wait in an open room goes on below the advertised base URL,
from its own cursor, which is not behind the one that it was asked for, if and only if there
was nothing newer when the wait looked at the log last, or the server's own base URL makes
the same command. -/
theorem waitContinues_iff (process : Nat → Nat) (H : HostParser) (o : ServerOptions)
    (files : RoomFiles) (clock : Nat) (memory : ServerMemory) (calls : List ServerCall)
    (baseUrl : List Char) (candidate : Option (List Char))
    {c : Config (World ServerMemory) RoomStep Failure (Option Reply)}
    (h : (faultySystem ServerMemory process).Reachable
      (serving o files clock memory calls) c) {t : Nat} {req : Request} {r : WaitResponse}
    (hcall : calls[t]? = some (.request .getWait req))
    (hret : System.thread c t = some (.ret (some (.waited r))))
    (hremoved : r.removed = false) (hopen : r.roomStatus = .opened) :
    ∃ auth sinceId, authenticated o req t c.snap.trace = some auth ∧
      parseSinceId (req.param "since_id") = .ok sinceId ∧
      (ContinuesAdvertised H baseUrl candidate sinceId r ↔
        seenNewer files.log t sinceId c.snap.trace = [] ∨
        waitCommand H (advertisedBaseUrl H baseUrl candidate) auth.aliasName
            (nextCursor sinceId (seenNewer files.log t sinceId c.snap.trace)) =
          waitCommand H baseUrl auth.aliasName
            (nextCursor sinceId (seenNewer files.log t sinceId c.snap.trace))) := by
  have hends := (Contract.ends_sound serving_sees
    (lockContract_crashSafe logInv_noWrite.quietly)
    (fun _ reply e x w hf hx hx' hg hreturned call hcall =>
      callReturned_stable call reply e x w hf hx hx' hg (hreturned call hcall))
    (fun _ _ => .of_const True) h).2 t _ hret
  obtain ⟨auth, hauth, hcontinues⟩ := hends _ hcall req r rfl rfl
  obtain ⟨sinceId, hsince, hseen⟩ := hcontinues r rfl hremoved hopen
  refine ⟨auth, sinceId, hauth, hsince, ?_⟩
  have hcursor : sinceId ≤ r.nextSinceId := by
    rw [hseen.cursor, hseen.messages]
    exact le_nextCursor fun m hm => (Cursor.mem_after.mp hm).2
  rw [← hseen.messages, ← hseen.participant, ← hseen.cursor]
  by_cases hnone : r.messages = []
  · refine ⟨fun _ => .inl hnone, fun _ => ⟨?_, hcursor⟩⟩
    rw [WaitResponse.command, hseen.base, if_pos hnone]
    rfl
  · have hcommand : r.command H baseUrl candidate =
        waitCommand H baseUrl r.participant r.nextSinceId := by
      rw [WaitResponse.command, hseen.base, if_neg hnone]
      rfl
    constructor
    · exact fun hadvertised => .inr (hadvertised.command.symm.trans hcommand)
    · rintro (hnothing | hsame)
      · exact (hnone hnothing).elim
      · exact ⟨hcommand.trans hsame.symm, hcursor⟩

end Runs

/-- A room with one message. -/
def greetedRoom : RoomFiles :=
  { openRoom with messages := .whole [⟨1, "r", 0, "host", .message, "hello", none, none, []⟩] }

/-- The host waits for what is newer than a message, while time passes. -/
def hostWaits (rawSince : String) : List ServerCall :=
  [.request .getWait ⟨some "aa", .ok (.obj []), [("since_id", rawSince)]⟩, .timePasses 1000]

/-- A wait that finds nothing, by the general theorem. -/
theorem waitContinues_iff_heartbeat :
    ∃ c r, ∃ auth : Participant, ∃ sinceId, (faultySystem ServerMemory id).Reachable
        (serving smallServer greetedRoom 0 .initial (hostWaits "1")) c ∧
      System.thread c 0 = some (.ret (some (.waited r))) ∧ r.heartbeat = true ∧
      (ContinuesAdvertised .plain "http://127.0.0.1:4100".toList
          (some "https://rooms.example".toList) sinceId r ↔
        seenNewer greetedRoom.log 0 sinceId c.snap.trace = [] ∨
        waitCommand .plain (advertisedBaseUrl .plain "http://127.0.0.1:4100".toList
              (some "https://rooms.example".toList)) auth.aliasName
            (nextCursor sinceId (seenNewer greetedRoom.log 0 sinceId c.snap.trace)) =
          waitCommand .plain "http://127.0.0.1:4100".toList auth.aliasName
            (nextCursor sinceId (seenNewer greetedRoom.log 0 sinceId c.snap.trace))) := by
  have hrun : ((faultySystem ServerMemory id).replay
      (serving smallServer greetedRoom 0 .initial (hostWaits "1"))
      (List.replicate 10 (.run 0) ++ [.run 1] ++ List.replicate 4 (.run 0))).map
      (fun c => System.returned c 0) = some (some (some (.waited
        ⟨.opened, "host", false, true, [], false, 1, true, some .advertisedBase⟩))) := by
    decide +kernel
  obtain ⟨c, hc, hreturned⟩ := System.exists_reachable_of_replay hrun
  have hret := System.thread_of_returned hreturned
  obtain ⟨auth, sinceId, -, -, hiff⟩ := waitContinues_iff id .plain smallServer greetedRoom 0
    .initial (hostWaits "1") "http://127.0.0.1:4100".toList
    (some "https://rooms.example".toList) hc rfl hret rfl rfl
  exact ⟨c, _, auth, sinceId, hc, hret, rfl, hiff⟩

/-- A message that is there when the wait begins is delivered with the server's own base
URL. -/
theorem getWait_leaves_advertised :
    ¬ ∀ (baseUrl : List Char) (candidate : Option (List Char)) (calls : List ServerCall)
        (c : Config (World ServerMemory) RoomStep Failure (Option Reply)) (t : Nat)
        (req : Request) (r : WaitResponse),
      (faultySystem ServerMemory id).Reachable
        (serving smallServer greetedRoom 0 .initial calls) c →
      calls[t]? = some (.request .getWait req) →
      System.thread c t = some (.ret (some (.waited r))) →
      r.removed = false → r.roomStatus = .opened →
      ∃ sinceId, parseSinceId (req.param "since_id") = .ok sinceId ∧
        ContinuesAdvertised .plain baseUrl candidate sinceId r := by
  intro h
  have hrun : ((faultySystem ServerMemory id).replay
      (serving smallServer greetedRoom 0 .initial (hostWaits "0"))
      (List.replicate 9 (.run 0))).map (fun c => System.returned c 0) =
      some (some (some (.waited ⟨.opened, "host", false, false,
        [⟨1, "r", 0, "host", .message, "hello", none, none, []⟩], false, 1, false,
        some .serverBase⟩))) := by decide +kernel
  obtain ⟨c, hc, hreturned⟩ := System.exists_reachable_of_replay hrun
  obtain ⟨sinceId, -, hcontinues⟩ := h "http://127.0.0.1:4100".toList
    (some "https://rooms.example".toList) (hostWaits "0") c 0 _ _ hc rfl
    (System.thread_of_returned hreturned) rfl rfl
  have hcommand : waitCommand .plain "http://127.0.0.1:4100".toList "host" 1 ≠
      waitCommand .plain (advertisedBaseUrl .plain "http://127.0.0.1:4100".toList
        (some "https://rooms.example".toList)) "host" 1 := by decide +kernel
  exact hcommand hcontinues.command

end AgentGather.Server
