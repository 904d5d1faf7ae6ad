import AgentGather.Library.Monitor
import AgentGather.Server.Calls

/-!
# The answers to a wait

There is nothing to go on with in exactly the answers of a closed room and those to a removed
participant.  Every other answer delivers a message, or is a heartbeat, and a heartbeat is
only sent by a wait that was held between two looks at the log.
-/

namespace AgentGather.Server

open AgentGather.Library AgentGather.Protocol AgentGather.Storage

/-! ## Held waits -/

/-- How far a caller has come: it has looked at the log, registered with the hub, was let go
and has looked again. -/
inductive WaitStage where
  | fresh
  | looked
  | registered
  | released
  | lookedAgain
deriving DecidableEq, Repr

def WaitStage.step : WaitStage → RoomStep → WaitStage
  | .released, .readMessages => .lookedAgain
  | _, .readMessages => .looked
  | .looked, .memory => .registered
  | .lookedAgain, .memory => .registered
  | .registered, .memory => .released
  | s, _ => s

def waitMonitor : Monitor RoomStep WaitStage where
  step s l := some (s.step l)
  fault s := s

theorem waitMonitor_total (s : WaitStage) (l : RoomStep) :
    ∃ s', waitMonitor.step s l = some s' := ⟨_, rfl⟩

/-- The caller has been held between its last two looks at the log. -/
def Held (t : Nat) (es : List (Event RoomStep)) : Prop :=
  waitMonitor.state .fresh t es = some .lookedAgain

/-! ## What an answer tells -/

structure WaitAnswer (r : WaitResponse) : Prop where
  final : r.nextCmd = none ↔ r.roomStatus = .closed ∨ r.removed = true
  nothing : r.nextCmd = none → r.messages = []
  cursor : r.nextCmd = none → r.nextSinceId ≤ maxSafeInteger
  goesOn : r.nextCmd ≠ none → r.messages ≠ [] ∨ r.heartbeat = true

/-- It is an answer to a wait, and a heartbeat only at the last stage. -/
def RepliesToWait (reply : Reply) (s : WaitStage) : Prop :=
  ∀ r, reply = .waited r → WaitAnswer r ∧ (r.heartbeat = true → s = .lookedAgain)

section Programs

variable {G : World ServerMemory → Prop} {t : Nat} {o : ServerOptions} {req : Request}
  {s : WaitStage}

/-- A caller's program, followed without a claim on where it throws. -/
abbrev Waits (G : World ServerMemory → Prop) {α : Type} (Q : α → WaitStage → Prop)
    (p : RoomProg ServerMemory α) (s : WaitStage) : Prop :=
  waitMonitor.Follows G Q (fun _ _ => True) p s

theorem waits_total {α : Type} {Q : α → WaitStage → Prop} (hQ : ∀ a s, Q a s)
    (p : RoomProg ServerMemory α) : Waits G Q p s :=
  .total waitMonitor_total hQ (fun _ _ => trivial) p

/-- A query that is no stage of a wait. -/
theorem waits_query {α : Type} {label : World ServerMemory → RoomStep}
    {result : World ServerMemory → Except Failure α} (hstep : ∀ w, s.step (label w) = s) :
    Waits G (fun _ s' => s' = s) (.query label result) s :=
  .action (fun w _ _ => ⟨_, rfl, fun _ _ => hstep w, fun _ _ => trivial⟩) fun _ => trivial

theorem waits_readRoomState :
    Waits G (fun _ s' => s' = s) (@readRoomState ServerMemory) s :=
  waits_query fun _ => by cases s <;> rfl

theorem waits_dateNow : Waits G (fun _ s' => s' = s) (@dateNow ServerMemory none) s :=
  waits_query fun _ => by cases s <;> rfl

theorem waits_closeRoom (now : Option Nat) :
    Waits G (fun state _ => state.status = .closed) (closeRoom t now) s := by
  refine (waits_total (fun _ _ => trivial) (dateNow now)).bind fun now _ _ => ?_
  refine (waits_total (fun _ _ => trivial) (acquireWriterLock t)).bind fun _ _ _ => ?_
  refine Monitor.Follows.finallyDo (Q := fun state _ => state.status = .closed)
    (E := fun _ _ => True) ?_ (fun state _ hclosed => waits_total (fun _ _ => hclosed) _)
    fun _ _ _ => waits_total (fun _ _ => trivial) _
  refine (waits_total (fun _ _ => trivial) readRoomState).bind fun state _ _ => ?_
  exact (waits_total (fun _ _ => trivial) (writeState .closed _)).bind fun _ _ _ => rfl

/-- The look at the room's status is no stage, where the room is open. -/
theorem waits_closeExpired :
    Waits G (fun state s' => state.status = .opened → s' = s)
      (closeExpiredRoomIfNeeded t o) s := by
  refine waits_readRoomState.bind ?_
  rintro state s rfl
  refine waits_dateNow.bind ?_
  rintro now s rfl
  split_ifs with hexpired
  · refine (waits_total (fun _ _ => trivial) _).bind fun _ _ _ => ?_
    refine (waits_closeRoom none).bind fun closed _ hclosed => ?_
    refine (waits_total (fun _ _ => trivial) (appendSystem t o _)).bind fun _ _ _ => ?_
    refine (waits_total (fun _ _ => trivial) _).bind fun _ s' _ => ?_
    intro hopened
    rw [hclosed] at hopened
    cases hopened
  · intro _
    rfl

/-- Where a look at the log finds nothing, it is the next stage. -/
theorem waits_waitSnapshot (aliasName : String) {sinceId : Nat}
    (hsince : sinceId ≤ maxSafeInteger) :
    Waits G (fun found s' => match found with
        | some r => WaitAnswer r ∧ r.heartbeat = false
        | none => s' = s.step .readMessages)
      (waitSnapshot t o aliasName sinceId) s := by
  refine waits_closeExpired.bind fun state s' hopen => ?_
  split_ifs with hclosed
  · exact ⟨⟨by simp [buildWaitResponse], fun _ => rfl, fun _ => hsince, fun h => (h rfl).elim⟩,
      rfl⟩
  · have hopened : state.status = .opened := by
      cases hstatus : state.status with
      | opened => rfl
      | closed => exact (hclosed hstatus).elim
    obtain rfl := hopen hopened
    refine Monitor.Follows.bind (Q := fun _ s'' => s'' = s'.step .readMessages)
      (.action (fun w _ _ => ⟨_, rfl, fun _ _ => rfl, fun _ _ => trivial⟩) fun _ => trivial) ?_
    rintro all - rfl
    dsimp only
    split_ifs with hnone
    · rfl
    · refine ⟨⟨by simp [buildWaitResponse], fun h => ?_, fun h => ?_, fun _ => .inl ?_⟩, rfl⟩
      · simp [buildWaitResponse] at h
      · simp [buildWaitResponse] at h
      · intro hempty
        exact hnone (List.isEmpty_iff.mpr hempty)

theorem waits_holdWait :
    Waits G (fun _ s' => s' = .released) (holdWait o) (s.step .readMessages) := by
  refine Monitor.Follows.bind (Q := fun _ s' => s' = .registered)
    (.action (fun w _ _ => ⟨_, rfl, fun _ _ => ?_, fun _ _ => trivial⟩) fun _ => trivial) ?_
  · cases s <;> rfl
  rintro ⟨notified, since⟩ - rfl
  exact .action (fun w _ _ => ⟨_, rfl, fun _ _ => rfl, fun _ _ => trivial⟩) fun _ => trivial

/-- A cursor that is taken is a safe integer. -/
theorem parseSinceId_le {raw : Option String} {sinceId : Nat}
    (h : parseSinceId raw = .ok sinceId) : sinceId ≤ maxSafeInteger := by
  cases raw with
  | none =>
    rw [← Except.ok.inj h]
    exact Nat.zero_le _
  | some raw =>
    simp only [parseSinceId, parseCursorParam] at h
    split at h
    · split_ifs at h with hbounds
      rw [← Except.ok.inj h]
      omega
    · cases h

theorem waits_waitReply (auth : Participant) :
    Waits G RepliesToWait (waitReply t o req auth) s := by
  refine Monitor.Follows.bind (Q := fun sinceId _ => sinceId ≤ maxSafeInteger)
    (.ofExcept (fun sinceId hsince => parseSinceId_le hsince) fun _ _ => trivial) ?_
  intro sinceId s hsince
  dsimp only
  split
  · trivial
  split
  · refine (waits_total (fun _ _ => trivial) (closeExpiredRoomIfNeeded t o)).bind ?_
    rintro state s' - r ⟨⟩
    exact ⟨⟨by simp, fun _ => rfl, fun _ => hsince, fun h => (h rfl).elim⟩, fun h => nomatch h⟩
  refine (waits_waitSnapshot _ hsince).bind fun immediate s' himmediate => ?_
  cases immediate with
  | some immediate =>
    rintro r ⟨⟩
    exact ⟨himmediate.1, fun h => nomatch himmediate.2.symm.trans h⟩
  | none =>
    obtain rfl := himmediate
    refine waits_holdWait.bind ?_
    rintro - s' rfl
    refine (waits_waitSnapshot _ hsince).bind fun afterWait s' hafter => ?_
    cases afterWait with
    | some afterWait =>
      rintro r ⟨⟩
      exact ⟨hafter.1, fun h => nomatch hafter.2.symm.trans h⟩
    | none =>
      obtain rfl := hafter
      rintro r ⟨⟩
      refine ⟨⟨by simp [buildWaitResponse], fun h => ?_, fun h => ?_, fun _ => .inr rfl⟩,
        fun _ => rfl⟩
      · simp [buildWaitResponse] at h
      · simp [buildWaitResponse] at h

theorem waits_getWait : Waits G RepliesToWait (getWait t o req) s := by
  refine (waits_total (fun _ _ => trivial) (requireParticipant o req true)).bind
    fun auth _ _ => ?_
  dsimp only
  split
  · refine (waits_total (fun _ _ => trivial) (touchParticipant t auth .attending)).bind
      fun _ _ _ => ?_
    exact waits_waitReply auth
  · exact waits_waitReply auth

end Programs

/-! ## Runs -/

/-- A wait that has returned in a run has answered so, and a heartbeat comes of a held wait. -/
theorem waited_answer {process : Nat → Nat} {o : ServerOptions} {files : RoomFiles}
    {clock : Nat} {memory : ServerMemory} {calls : List ServerCall}
    {c : Config (World ServerMemory) RoomStep Failure (Option Reply)}
    (h : (faultySystem ServerMemory process).Reachable
      (serving o files clock memory calls) c) {t : Nat} {req : Request} {r : WaitResponse}
    (hcall : calls[t]? = some (.request .getWait req))
    (hreturned : System.thread c t = some (.ret (some (.waited r)))) :
    WaitAnswer r ∧ (r.heartbeat = true → Held t c.snap.trace) := by
  let ends (u : Nat) (reply : Option Reply) (s : WaitStage) : Prop :=
    ∀ req r, calls[u]? = some (.request .getWait req) → reply = some r → RepliesToWait r s
  have hstart : ∀ u p, System.thread (serving o files clock memory calls) u = some p →
      waitMonitor.Follows (fun _ => True) (ends u) (fun _ _ => True) p .fresh := by
    intro u p hp
    obtain ⟨call, hthis, rfl⟩ := thread_serving hp
    by_cases hwait : ∃ req, call = .request .getWait req
    · obtain ⟨req, rfl⟩ := hwait
      refine waits_getWait.bind fun reply s hanswered => ?_
      rintro req' r - ⟨⟩
      exact hanswered
    · refine .total waitMonitor_total (fun reply s req r hcall _ => ?_) (fun _ _ => trivial) _
      exact (hwait ⟨req, Option.some.inj (hthis.symm.trans hcall)⟩).elim
  obtain ⟨s, hstate, hfollows⟩ := Monitor.sound (T := faultySystem ServerMemory process)
    (fun _ => waitMonitor) rfl (fun _ _ => trivial) hstart h t
  obtain ⟨hanswer, hheld⟩ := hfollows _ hreturned req (.waited r) hcall rfl r rfl
  refine ⟨hanswer, fun hheartbeat => ?_⟩
  rw [Held, hstate, hheld hheartbeat]

end AgentGather.Server
