import AgentGather.Server.Closing

/-!
# Active sessions

A start or an end of the active session finds the room open before it reads its body, and
writes the state under the writer lock much later.  In every run, starts and ends are
taken in turn, a close being an end, and a closed room is stored with a session exactly
when it was closed between the open check of a start and its taking of the lock.
-/

namespace AgentGather.Server

open AgentGather.Library AgentGather.Protocol AgentGather.Storage

/-! ## What the history says -/

/-- The state that was last stored; at first, the one the run started with. -/
def storedState (state : Stored RoomState) : List (Event RoomStep) → Stored RoomState
  | [] => state
  | .ran _ (.wroteState _ r) :: _ => .whole r
  | _ :: es => storedState state es

/-- Every state that was stored, the first one included. -/
def storedStates (state : Stored RoomState) : List (Event RoomStep) → List RoomState
  | [] =>
      match state with
      | .whole r => [r]
      | _ => []
  | .ran _ (.wroteState _ r) :: es => r :: storedStates state es
  | _ :: es => storedStates state es

/-- A closed room has no session. -/
def idleWhenClosed (r : RoomState) : Bool := r.status != .closed || r.activeSession.isNone

def idleAtFirst : Stored RoomState → Bool
  | .whole r => idleWhenClosed r
  | _ => true

def runningAtFirst : Stored RoomState → Bool
  | .whole r => (RoomState.runningSession r).isSome
  | _ => false

/-- The last start was followed by no end and no close. -/
def sessionRunning (state : Stored RoomState) : List (Event RoomStep) → Bool
  | [] => runningAtFirst state
  | .ran _ (.wroteState .started _) :: _ => true
  | .ran _ (.wroteState .ended _) :: _ => false
  | .ran _ (.wroteState .closed _) :: _ => false
  | _ :: es => sessionRunning state es

/-- A session was started while one was running, or ended while none was. -/
def outOfTurn (state : Stored RoomState) : List (Event RoomStep) → Bool
  | [] => false
  | .ran _ (.wroteState .started _) :: es => sessionRunning state es || outOfTurn state es
  | .ran _ (.wroteState .ended _) :: es => !sessionRunning state es || outOfTurn state es
  | _ :: es => outOfTurn state es

/-- A session was started although the room was closed between the request's last look at
the state and its taking of the lock. -/
def startOvertaken : List (Event RoomStep) → Bool
  | [] => false
  | .ran t (.wroteState .started _) :: es => closedBeforeLock t es || startOvertaken es
  | _ :: es => startOvertaken es

/-- The state that was last stored is that of a closed room. -/
def closedNow (state : Stored RoomState) (es : List (Event RoomStep)) : Bool :=
  match storedState state es with
  | .whole r => r.status == .closed
  | _ => false

section NoWrite

variable {e : Event RoomStep} (he : isWriteEvent e = false) (state : Stored RoomState)
  (es : List (Event RoomStep))

include he

theorem storedState_noWrite : storedState state (e :: es) = storedState state es := by
  rcases e with ⟨t, l⟩ | ⟨t, l⟩ | p
  · cases l <;> first | rfl | cases he
  · rfl
  · rfl

theorem storedStates_noWrite : storedStates state (e :: es) = storedStates state es := by
  rcases e with ⟨t, l⟩ | ⟨t, l⟩ | p
  · cases l <;> first | rfl | cases he
  · rfl
  · rfl

theorem sessionRunning_noWrite :
    sessionRunning state (e :: es) = sessionRunning state es := by
  rcases e with ⟨t, l⟩ | ⟨t, l⟩ | p
  · cases l <;> first | rfl | cases he
  · rfl
  · rfl

theorem outOfTurn_noWrite : outOfTurn state (e :: es) = outOfTurn state es := by
  rcases e with ⟨t, l⟩ | ⟨t, l⟩ | p
  · cases l <;> first | rfl | cases he
  · rfl
  · rfl

theorem startOvertaken_noWrite : startOvertaken (e :: es) = startOvertaken es := by
  rcases e with ⟨t, l⟩ | ⟨t, l⟩ | p
  · cases l <;> first | rfl | cases he
  · rfl
  · rfl

end NoWrite

/-- The last stored state is one of the stored ones. -/
theorem mem_storedStates {state : Stored RoomState} {es : List (Event RoomStep)}
    {r : RoomState} (h : storedState state es = .whole r) : r ∈ storedStates state es := by
  induction es with
  | nil =>
      have hr : state = .whole r := h
      simp [storedStates, hr]
  | cons e es ih =>
      rcases e with ⟨t, l⟩ | ⟨t, l⟩ | p
      · cases l with
        | wroteState purpose r' =>
            obtain rfl := Stored.whole.inj h
            exact List.mem_cons_self
        | _ => exact ih h
      · exact ih h
      · exact ih h

/-! ## The invariant -/

/-- The stored state is the last one of the history and tells whether a session runs; a
session in a closed room was there at first or was started behind a close. -/
structure SessionInv (state : Stored RoomState) (x : Snapshot (World ServerMemory) RoomStep) :
    Prop where
  stored : x.world.files.state = storedState state x.trace
  running : ∀ raw, x.world.files.state = .whole raw →
    (RoomState.runningSession raw).isSome = sessionRunning state x.trace
  turns : outOfTurn state x.trace = false
  closed : closedYet x.trace = true → closedNow state x.trace = true
  idle : (storedStates state x.trace).all idleWhenClosed =
    (idleAtFirst state && !startOvertaken x.trace)

section Invariant

variable {state : Stored RoomState}

theorem sessionInv_noWrite : KeptWithoutWrites (SessionInv state) := by
  rintro x e w ⟨hstored, hrunning, hturns, hclosed, hidle⟩ he hfiles
  refine ⟨?_, fun raw hraw => ?_, ?_, fun hc => ?_, ?_⟩
  · rw [Snapshot.record_world, Snapshot.record_trace, hfiles, storedState_noWrite he]
    exact hstored
  · rw [Snapshot.record_world, hfiles] at hraw
    rw [Snapshot.record_trace, sessionRunning_noWrite he]
    exact hrunning raw hraw
  · rw [Snapshot.record_trace, outOfTurn_noWrite he]
    exact hturns
  · rw [Snapshot.record_trace, closedYet_cons, closes_noWrite he, Bool.false_or] at hc
    rw [Snapshot.record_trace, closedNow, storedState_noWrite he]
    exact hclosed hc
  · rw [Snapshot.record_trace, storedStates_noWrite he, startOvertaken_noWrite he]
    exact hidle

/-- What is appended to the log or to the roster has nothing to do with sessions. -/
theorem sessionInv_other {x : Snapshot (World ServerMemory) RoomStep}
    (hx : SessionInv state x) {l : RoomStep} {w : World ServerMemory}
    (hl : (∃ m, l = .appended m) ∨ ∃ ps, l = .wroteParticipants ps) (t : Nat)
    (hstate : w.files.state = x.world.files.state) : SessionInv state (x.record (.ran t l) w) := by
  rcases hl with ⟨m, rfl⟩ | ⟨ps, rfl⟩
  · exact ⟨hstate.trans hx.stored, fun raw hraw => hx.running raw (hstate.symm.trans hraw),
      hx.turns, hx.closed, hx.idle⟩
  · exact ⟨hstate.trans hx.stored, fun raw hraw => hx.running raw (hstate.symm.trans hraw),
      hx.turns, hx.closed, hx.idle⟩

/-- A new state, from what it does to the session: `running` and `turns` say whether one
runs and that it is the session's turn, `idle` whether it is idle when closed. -/
theorem sessionInv_state {x : Snapshot (World ServerMemory) RoomStep}
    (hx : SessionInv state x) {t : Nat} {purpose : StateWrite} {raw r : RoomState}
    (hraw : x.world.files.state = .whole raw)
    (hstatus : r.status = raw.status ∨ r.status = .closed)
    (hrunning : (RoomState.runningSession r).isSome =
      sessionRunning state (.ran t (.wroteState purpose r) :: x.trace))
    (hturns : outOfTurn state (.ran t (.wroteState purpose r) :: x.trace) = false)
    (hidle : (idleWhenClosed r && (storedStates state x.trace).all idleWhenClosed) =
      (idleAtFirst state && !startOvertaken (.ran t (.wroteState purpose r) :: x.trace))) :
    SessionInv state (x.record (.ran t (.wroteState purpose r))
      { x.world with files := { x.world.files with state := .whole r } }) := by
  refine ⟨rfl, ?_, hturns, fun hc => ?_, hidle⟩
  · rintro r' ⟨⟩
    exact hrunning
  · rw [Snapshot.record_trace, closedYet_cons] at hc
    change (r.status == .closed) = true
    rcases Bool.or_eq_true_iff.mp hc with hc | hc
    · exact hc
    · have hnow := hx.closed hc
      rw [closedNow, ← hx.stored, hraw] at hnow
      rcases hstatus with h | h
      · rw [h]
        exact hnow
      · rw [h]
        rfl

/-- A state that is idle when closed if the one before is adds nothing. -/
theorem idle_same {x : Snapshot (World ServerMemory) RoomStep} (hx : SessionInv state x)
    {raw r : RoomState} (hraw : x.world.files.state = .whole raw)
    (hidle : idleWhenClosed raw = true → idleWhenClosed r = true) :
    (idleWhenClosed r && (storedStates state x.trace).all idleWhenClosed) =
      (idleAtFirst state && !startOvertaken x.trace) := by
  rw [← hx.idle]
  cases hall : (storedStates state x.trace).all idleWhenClosed with
  | false => exact Bool.and_false _
  | true =>
      have hmem := mem_storedStates (hx.stored.symm.trans hraw)
      rw [hidle (List.all_eq_true.mp hall raw hmem)]
      rfl

theorem runningSession_congr {r r' : RoomState} (h : r'.activeSession = r.activeSession) :
    RoomState.runningSession r' = RoomState.runningSession r := by
  rw [RoomState.runningSession, RoomState.runningSession, h]

theorem idleWhenClosed_congr {r r' : RoomState} (hstatus : r'.status = r.status)
    (h : r'.activeSession = r.activeSession) : idleWhenClosed r' = idleWhenClosed r := by
  rw [idleWhenClosed, idleWhenClosed, hstatus, h]

theorem sessionInv_room : KeptByRoom (SessionInv state) where
  quiet := sessionInv_noWrite.quietly
  routine := fun x _ _ hx _ => sessionInv_noWrite x _ _ hx (pendingLabel_process _ _ _).1 rfl
  settled := fun x _ hx _ => sessionInv_noWrite x _ _ hx rfl rfl
  state := by
    intro x t purpose raw r hx _ hraw hwrite
    refine sessionInv_state hx hraw hwrite.status ?_ ?_ ?_
    · cases hwrite with
      | appended same =>
          rw [runningSession_congr same.activeSession]
          exact hx.running raw hraw
      | closed same =>
          rw [RoomState.runningSession, same.activeSession]
          rfl
    · cases hwrite <;> exact hx.turns
    · have hovertaken : startOvertaken (.ran t (.wroteState purpose r) :: x.trace) =
          startOvertaken x.trace := by cases hwrite <;> rfl
      rw [hovertaken]
      refine idle_same hx hraw fun h => ?_
      cases hwrite with
      | appended same => rwa [idleWhenClosed_congr same.status same.activeSession]
      | closed same => simp [idleWhenClosed, same.activeSession]
  system := fun x t m hx _ _ _ => sessionInv_other hx (.inl ⟨m, rfl⟩) t rfl

end Invariant

/-! ## The open check -/

/-- If the room is closed now, that was after caller `t` looked. -/
def FoundOpen (state : Stored RoomState) (t : Nat) (es : List (Event RoomStep)) : Prop :=
  closedNow state es = true → closedSinceCheck t es = true

/-- If the room is closed now, that was before caller `t` took the lock and after it
looked. -/
def FoundOpenBefore (state : Stored RoomState) (t : Nat) (es : List (Event RoomStep)) : Prop :=
  closedNow state es = true → closedBeforeLock t es = true

/-- Only a closing makes the stored room closed. -/
theorem closedNow_cons {state : Stored RoomState} {e : Event RoomStep}
    {es : List (Event RoomStep)} (h : closedNow state (e :: es) = true) :
    closes e = true ∨ closedNow state es = true := by
  rcases e with ⟨t, l⟩ | ⟨t, l⟩ | p
  · cases l with
    | wroteState purpose r => exact .inl h
    | _ => exact .inr h
  · exact .inr h
  · exact .inr h

theorem FoundOpen.cons {state : Stored RoomState} {t : Nat} {es : List (Event RoomStep)}
    (h : FoundOpen state t es) {e : Event RoomStep}
    (he : ∀ found, e ≠ .ran t (.readState found)) : FoundOpen state t (e :: es) := by
  intro hc
  rw [closedSinceCheck_cons he]
  rcases closedNow_cons hc with hc | hc
  · simp [hc]
  · simp [h hc]

theorem foundOpenBefore_enduring (state : Stored RoomState) (t : Nat) :
    Enduring t (FoundOpenBefore state t) := by
  intro e es he hne h hc
  rw [closedBeforeLock_cons hne]
  rcases closedNow_cons hc with hc | hc
  · rw [closes_noWrite he] at hc
    cases hc
  · exact h hc

section Calls

variable {process : Nat → Nat} {t : Nat} {o : ServerOptions} {state : Stored RoomState}

theorem foundOpen_stable :
    LockStable process (SessionInv state) t fun x => FoundOpen state t x.trace := by
  intro e x w hf _ _ _ h
  refine h.cons fun found => ?_
  rintro rfl
  exact hf rfl

theorem foundOpen_own : KeptInMemory t fun x => FoundOpen state t x.trace := by
  rintro x w l hl - h - -
  refine ⟨h.cons fun found hf => ?_, h.cons fun found hf => ?_⟩
  · obtain ⟨-, rfl⟩ := Event.ran.inj hf
    cases hl
  · cases hf

/-- Whoever reads that the room is open has found it open. -/
theorem readRoomState_finds :
    LockSafe process (SessionInv state) t
      (fun r x => r.status = .opened → FoundOpen state t x.trace) (fun _ _ => True)
      readRoomState fun _ => True := by
  refine (look_safe sessionInv_noWrite.quietly (.of_const True) (true_own fun _ => True)
    (fun _ => ⟨rfl, trivial⟩)).conseq (fun _ _ h => h) ?_ fun _ _ _ _ => trivial
  rintro r y - ⟨-, x, w, rfl, rfl, hx, -, hr⟩ hopen hc
  cases hs : x.world.files.state.read with
  | error e => rw [hs] at hr; cases hr
  | ok raw =>
      rw [hs] at hr
      obtain rfl := Except.ok.inj hr
      have hstored : storedState state x.trace = .whole raw :=
        hx.stored.symm.trans (Stored.eq_whole_of_read hs)
      change closedNow state x.trace = true at hc
      rw [closedNow, hstored] at hc
      cases (beq_iff_eq.mp hc).symm.trans hopen

theorem requireRoomOpen_finds :
    LockSafe process (SessionInv state) t (fun _ x => FoundOpen state t x.trace)
      (fun _ _ => True) (requireRoomOpen t o) fun _ => True := by
  have hstable (r : RoomState) : LockStable process (SessionInv state) t
      fun x => r.status = .opened → FoundOpen state t x.trace :=
    fun e x w hf hi hi' hg h hopen => foundOpen_stable e x w hf hi hi' hg (h hopen)
  have hown (r : RoomState) :
      KeptInMemory t fun x => r.status = .opened → FoundOpen state t x.trace :=
    fun x w l hl hw h hfiles hlock =>
      ⟨fun hopen => (foundOpen_own x w l hl hw (h hopen) hfiles hlock).1,
        fun hopen => (foundOpen_own x w l hl hw (h hopen) hfiles hlock).2⟩
  refine (closeExpiredRoomIfNeeded_safe sessionInv_room readRoomState_finds hstable hown
    fun r x hclosed hopen => ?_).bind fun r => ?_
  · cases hclosed.symm.trans hopen
  · split
    · exact fun _ _ _ => trivial
    · rename_i hopen
      exact .done fun x _ h => h (not_not.mp hopen)

/-- Of a request that found the room open, the room is closed now exactly when it was
overtaken. -/
theorem closedNow_eq {x : Snapshot (World ServerMemory) RoomStep} (hx : SessionInv state x)
    (h : FoundOpenBefore state t x.trace) :
    closedNow state x.trace = closedBeforeLock t x.trace := by
  rw [Bool.eq_iff_iff]
  exact ⟨h, fun hc => hx.closed (closedYet_of_closedBeforeLock hc)⟩

/-- A start is taken in turn, and stores a session in a closed room when it was
overtaken. -/
theorem startActiveSession_found (options : StartActiveSessionOptions) :
    LockSafe process (SessionInv state) t (fun _ _ => True) (fun _ _ => True)
      (startActiveSession t options) fun x => FoundOpen state t x.trace := by
  refine startActiveSession_safe sessionInv_noWrite.quietly foundOpen_stable foundOpen_own
    (foundOpenBefore_enduring state t) ?_ ?_ options
  · intro x _ h hc
    simpa [closedBeforeLock] using h hc
  · intro x raw session r hx _ hpast hraw hnone hended hsame
    have hrunning := hx.running raw hraw
    rw [hnone] at hrunning
    refine sessionInv_state hx hraw (.inl hsame.status) ?_ ?_ ?_
    · simp [RoomState.runningSession, hsame.activeSession, hended, sessionRunning]
    · rw [outOfTurn, ← hrunning, hx.turns]
      rfl
    · have hclosed : (r.status == .closed) = closedBeforeLock t x.trace := by
        rw [← closedNow_eq hx hpast, closedNow, ← hx.stored, hraw, hsame.status]
      have hidle : idleWhenClosed r = !closedBeforeLock t x.trace := by
        rw [idleWhenClosed, hsame.activeSession, ← hclosed]
        exact Bool.or_false _
      rw [hidle, hx.idle, startOvertaken]
      cases closedBeforeLock t x.trace <;> simp

/-- An end is taken in turn, and leaves no session. -/
theorem endActiveSession_found (roomId : String) :
    LockSafe process (SessionInv state) t (fun _ _ => True) (fun _ _ => True)
      (endActiveSession t roomId none) fun x => FoundOpen state t x.trace := by
  refine (endActiveSession_safe sessionInv_noWrite.quietly (.of_const True) (true_own _)
    (anyPast_enduring t) (fun _ _ _ => trivial) ?_ roomId none).pre fun _ _ _ => trivial
  intro x raw r hx _ _ hraw hsome hsame
  refine sessionInv_state hx hraw (.inl hsame.status) ?_ ?_ ?_
  · rw [RoomState.runningSession, hsame.activeSession]
    rfl
  · rw [outOfTurn, ← hx.running raw hraw, hsome, hx.turns]
    rfl
  · refine idle_same hx hraw fun _ => ?_
    simp [idleWhenClosed, hsame.activeSession]

theorem call_session (call : ServerCall) :
    Kept process (SessionInv state) t (call.prog o t) := by
  have hroom : KeptByRoom (SessionInv state) := sessionInv_room
  have hrequests : KeptByRequests process (SessionInv state) t o (fun _ _ => True)
      fun x => FoundOpen state t x.trace :=
    { room := hroom
      roster := fun x ps hx => sessionInv_other hx (.inr ⟨ps, rfl⟩) t rfl
      stable := foundOpen_stable
      own := foundOpen_own
      opened := requireRoomOpen_finds
      pause := fun auth => pauseLoop_kept sessionInv_noWrite hroom auth
      append := fun options => (appendMessageResult_safe hroom (.of_const True) (true_own _)
        (anyPast_enduring t) (fun _ _ _ => trivial) (fun x m hx _ _ =>
          sessionInv_other hx (.inl ⟨m, rfl⟩) t rfl) options).pre fun _ _ _ => trivial
      start := startActiveSession_found
      finish := endActiveSession_found _ }
  have hcomplete (cycle : Nat) : Kept process (SessionInv state) t
      (completeAutoContinue t o cycle) :=
    completeAutoContinue_any sessionInv_noWrite hroom (appendApproval_any hroom
      fun x m hx _ _ => sessionInv_other hx (.inl ⟨m, rfl⟩) t rfl) cycle
  have hset (updatedBy : String) (enabled : Bool) (delaySeconds : Option Int) :
      Kept process (SessionInv state) t (setLoopGuard t o updatedBy enabled delaySeconds) := by
    refine setLoopGuard_kept hroom (fun x raw _ _ r hx _ hraw hsame => ?_) _ _ _
    refine sessionInv_state hx hraw (.inl hsame.status) ?_ hx.turns
      (idle_same hx hraw fun h => ?_)
    · rw [runningSession_congr hsame.activeSession]
      exact hx.running raw hraw
    · rwa [idleWhenClosed_congr hsame.status hsame.activeSession]
  exact call_safe hrequests (fun _ _ _ => handler_safe hrequests
    (anyRecord_rules hrequests) fun _ => hset) hcomplete

end Calls

/-! ## Runs -/

theorem serving_session {process : Nat → Nat} {o : ServerOptions} {files : RoomFiles}
    {clock : Nat} {memory : ServerMemory} {calls : List ServerCall} :
    (lockContract process (SessionInv files.state)).Holds
      (faultySystem ServerMemory process) (serving o files clock memory calls) := by
  have hinv : SessionInv files.state (serving o files clock memory calls).snap := by
    refine ⟨rfl, fun raw hraw => ?_, rfl, fun h => (nomatch h), ?_⟩
    · have hraw' : files.state = .whole raw := hraw
      change _ = runningAtFirst files.state
      rw [hraw']
      rfl
    · change (storedStates files.state []).all idleWhenClosed = (idleAtFirst files.state && true)
      cases files.state with
      | whole r => simp [storedStates, idleAtFirst]
      | absent => rfl
      | torn => rfl
  refine ⟨hinv, fun t p hp => ?_⟩
  obtain ⟨call, -, rfl⟩ := thread_serving hp
  exact .of_safe (call_session call) hinv trivial

/-- In every run, starts and ends alternate; and every state that was ever stored has no
session when it is closed if and only if the first one has none and no start was overtaken
by a close between its open check and its taking of the writer lock. -/
theorem sessions_iff (process : Nat → Nat) (o : ServerOptions) (files : RoomFiles)
    (clock : Nat) (memory : ServerMemory) (calls : List ServerCall)
    (c : Config (World ServerMemory) RoomStep Failure (Option Reply))
    (h : (faultySystem ServerMemory process).Reachable
      (serving o files clock memory calls) c) :
    ((storedStates files.state c.snap.trace).all idleWhenClosed = true ∧
        outOfTurn files.state c.snap.trace = false) ↔
      (idleAtFirst files.state = true ∧ startOvertaken c.snap.trace = false) := by
  have hinv := (Contract.sound serving_session
    (lockContract_crashSafe sessionInv_noWrite.quietly) h).1
  rw [hinv.idle, hinv.turns]
  simp

/-- What is stored is the last state of the history, and one of those. -/
theorem stored_mem (process : Nat → Nat) (o : ServerOptions) (files : RoomFiles)
    (clock : Nat) (memory : ServerMemory) (calls : List ServerCall)
    (c : Config (World ServerMemory) RoomStep Failure (Option Reply))
    (h : (faultySystem ServerMemory process).Reachable
      (serving o files clock memory calls) c) {r : RoomState}
    (hr : c.snap.world.files.state = .whole r) :
    r ∈ storedStates files.state c.snap.trace := by
  have hinv := (Contract.sound serving_session
    (lockContract_crashSafe sessionInv_noWrite.quietly) h).1
  exact mem_storedStates (hinv.stored.symm.trans hr)

/-- The host starts a session and closes the room. -/
def startAndClose : List ServerCall :=
  [.request .postSession ⟨some "aa", .ok (.obj [("action", .str "start"),
      ("expected_duration_m", .num 30)]), []⟩,
   .request .postClose ⟨some "aa", .ok .null, []⟩]

/-- The start is through before the close begins, by the general theorem. -/
theorem sessions_iff_startFirst :
    ∃ c, (faultySystem ServerMemory id).Reachable
        (serving smallServer openRoom 0 .initial startAndClose) c ∧
      (closedYet c.snap.trace = true ∧ c.snap.world.files.log.map (·.id) = [1]) ∧
      (((storedStates openRoom.state c.snap.trace).all idleWhenClosed = true ∧
          outOfTurn openRoom.state c.snap.trace = false) ↔
        (idleAtFirst openRoom.state = true ∧ startOvertaken c.snap.trace = false)) := by
  have hrun : ((faultySystem ServerMemory id).replay
      (serving smallServer openRoom 0 .initial startAndClose)
      (List.replicate 19 (.run 0) ++ List.replicate 8 (.run 1))).map
      (fun c => (closedYet c.snap.trace, c.snap.world.files.log.map (·.id))) =
      some (true, [1]) := by decide
  obtain ⟨c, hc, hv⟩ := System.exists_reachable_of_replay hrun
  exact ⟨c, hc, Prod.mk.inj hv, sessions_iff id smallServer openRoom 0 .initial
    startAndClose c hc⟩

/-- A closed room can be stored with a session: the close falls between the start's open
check and its taking of the lock. -/
theorem postSession_overtaken_by_close :
    ¬ ∀ (calls : List ServerCall)
        (c : Config (World ServerMemory) RoomStep Failure (Option Reply)),
      (faultySystem ServerMemory id).Reachable
        (serving smallServer openRoom 0 .initial calls) c →
      (storedStates openRoom.state c.snap.trace).all idleWhenClosed = true ∧
        outOfTurn openRoom.state c.snap.trace = false := by
  intro h
  have hrun : ((faultySystem ServerMemory id).replay
      (serving smallServer openRoom 0 .initial startAndClose)
      (List.replicate 4 (.run 0) ++ List.replicate 8 (.run 1) ++
        List.replicate 5 (.run 0))).map
      (fun c => (storedStates openRoom.state c.snap.trace).all idleWhenClosed) =
      some false := by decide
  obtain ⟨c, hc, hv⟩ := System.exists_reachable_of_replay hrun
  exact Bool.false_ne_true (hv.symm.trans (h startAndClose c hc).1)

end AgentGather.Server
