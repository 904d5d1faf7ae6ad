import AgentGather.Server.Requests

/-!
# Closed means closed

A send checks that the room is open in one step and takes the writer lock in a later
one.  In every run, a message of a participant is appended behind the closing of the
room exactly when the room was closed between these two steps of one send.  The approvals
of the loop guard's timers are late in the same way, and when the deadline of the room
falls between their last look at the clock and the reading of their timestamp.
-/

namespace AgentGather.Server

open AgentGather.Library AgentGather.Protocol AgentGather.Storage

/-! ## What the history says -/

/-- `room.json` is written with the status closed. -/
def closes : Event RoomStep → Bool
  | .ran _ (.wroteState _ state) => state.status == .closed
  | _ => false

def closedYet (es : List (Event RoomStep)) : Bool := es.any closes

/-- A message that is not the system's was appended after the room was closed. -/
def sentAfterClose : List (Event RoomStep) → Bool
  | [] => false
  | .ran _ (.appended m) :: es => (m.type != .system && closedYet es) || sentAfterClose es
  | _ :: es => sentAfterClose es

/-- The room was closed since caller `t` last read its state. -/
def closedSinceCheck (t : Nat) : List (Event RoomStep) → Bool
  | [] => false
  | e :: es =>
      match e with
      | .ran u (.readState _) => u != t && closedSinceCheck t es
      | _ => closes e || closedSinceCheck t es

/-- It was closed between that and caller `t`'s last taking of the lock. -/
def closedBeforeLock (t : Nat) : List (Event RoomStep) → Bool
  | [] => false
  | .ran u .acquired :: es => if u = t then closedSinceCheck t es else closedBeforeLock t es
  | _ :: es => closedBeforeLock t es

/-- A send went on to append although the room was closed between its last look at the
state and its taking of the lock. -/
def overtakenByClose : List (Event RoomStep) → Bool
  | [] => false
  | .ran t (.appended m) :: es =>
      (m.type != .system && closedBeforeLock t es) || overtakenByClose es
  | _ :: es => overtakenByClose es

theorem closedYet_cons (e : Event RoomStep) (es : List (Event RoomStep)) :
    closedYet (e :: es) = (closes e || closedYet es) := rfl

theorem closes_noWrite {e : Event RoomStep} (he : isWriteEvent e = false) :
    closes e = false := by
  rcases e with ⟨t, l⟩ | ⟨t, l⟩ | p
  · cases l <;> first | rfl | cases he
  · rfl
  · rfl

theorem sentAfterClose_noWrite {e : Event RoomStep} (he : isWriteEvent e = false)
    (es : List (Event RoomStep)) : sentAfterClose (e :: es) = sentAfterClose es := by
  rcases e with ⟨t, l⟩ | ⟨t, l⟩ | p
  · cases l <;> first | rfl | cases he
  · rfl
  · rfl

theorem overtakenByClose_noWrite {e : Event RoomStep} (he : isWriteEvent e = false)
    (es : List (Event RoomStep)) : overtakenByClose (e :: es) = overtakenByClose es := by
  rcases e with ⟨t, l⟩ | ⟨t, l⟩ | p
  · cases l <;> first | rfl | cases he
  · rfl
  · rfl

/-- Only an own reading of the state makes a caller forget a closing. -/
theorem closedSinceCheck_cons {t : Nat} {e : Event RoomStep}
    (he : ∀ found, e ≠ .ran t (.readState found)) (es : List (Event RoomStep)) :
    closedSinceCheck t (e :: es) = (closes e || closedSinceCheck t es) := by
  rcases e with ⟨u, l⟩ | ⟨u, l⟩ | p
  · cases l with
    | readState found =>
        have hu : u ≠ t := by
          rintro rfl
          exact he found rfl
        simp [closedSinceCheck, closes, hu]
    | _ => rfl
  · rfl
  · rfl

theorem closedYet_of_closedSinceCheck {t : Nat} {es : List (Event RoomStep)}
    (h : closedSinceCheck t es = true) : closedYet es = true := by
  induction es with
  | nil => cases h
  | cons e es ih =>
      rw [closedYet_cons]
      by_cases he : ∃ found, e = .ran t (.readState found)
      · obtain ⟨found, rfl⟩ := he
        simp [closedSinceCheck] at h
      · rw [closedSinceCheck_cons (fun found hf => he ⟨found, hf⟩)] at h
        rcases Bool.or_eq_true_iff.mp h with hc | hc
        · simp [hc]
        · simp [ih hc]

/-- Only the caller's own taking of the lock changes what it was before. -/
theorem closedBeforeLock_cons {t : Nat} {e : Event RoomStep} (he : e ≠ .ran t .acquired)
    (es : List (Event RoomStep)) : closedBeforeLock t (e :: es) = closedBeforeLock t es := by
  rcases e with ⟨u, l⟩ | ⟨u, l⟩ | p
  · cases l with
    | acquired =>
        have hu : u ≠ t := by
          rintro rfl
          exact he rfl
        simp [closedBeforeLock, hu]
    | _ => rfl
  · rfl
  · rfl

theorem closedYet_of_closedBeforeLock {t : Nat} {es : List (Event RoomStep)}
    (h : closedBeforeLock t es = true) : closedYet es = true := by
  induction es with
  | nil => cases h
  | cons e es ih =>
      rw [closedYet_cons]
      by_cases he : e = .ran t .acquired
      · subst he
        have hc : closedSinceCheck t es = true := by simpa [closedBeforeLock] using h
        simp [closedYet_of_closedSinceCheck hc]
      · rw [closedBeforeLock_cons he] at h
        simp [ih h]

/-- When the room expires. -/
def RoomFiles.deadline (f : RoomFiles) : Option Nat :=
  match f.state with
  | .whole state => state.expiresAt
  | _ => none

/-- An approval was appended after the room was closed, or bears a time at or after its
deadline. -/
def approvedLate (deadline : Option Nat) : List (Event RoomStep) → Bool
  | [] => false
  | .ran _ (.appended m) :: es =>
      (isApproval m && (closedYet es || deadline.any fun at' => at' ≤ m.ts)) ||
        approvedLate deadline es
  | _ :: es => approvedLate deadline es

/-- Caller `t` has dropped the pending entry before the deadline. -/
def approvedInTime (t : Nat) (deadline : Option Nat) (es : List (Event RoomStep)) : Bool :=
  es.any fun
    | .ran u (.pending clock none) => u == t && deadline.all fun at' => clock < at'
    | _ => false

/-- A timer's callback went on to append its approval although the room was closed between
its look at the state and its taking of the lock, or although it had reached its deadline
between the callback's look at the clock and the reading of the timestamp. -/
def approvalOvertaken (deadline : Option Nat) : List (Event RoomStep) → Bool
  | [] => false
  | .ran t (.appended m) :: es =>
      (isApproval m && (closedBeforeLock t es ||
        (approvedInTime t deadline es && deadline.any fun at' => at' ≤ m.ts))) ||
        approvalOvertaken deadline es
  | _ :: es => approvalOvertaken deadline es

theorem approvedLate_noWrite {e : Event RoomStep} (he : isWriteEvent e = false)
    (deadline : Option Nat) (es : List (Event RoomStep)) :
    approvedLate deadline (e :: es) = approvedLate deadline es := by
  rcases e with ⟨t, l⟩ | ⟨t, l⟩ | p
  · cases l <;> first | rfl | cases he
  · rfl
  · rfl

theorem approvalOvertaken_noWrite {e : Event RoomStep} (he : isWriteEvent e = false)
    (deadline : Option Nat) (es : List (Event RoomStep)) :
    approvalOvertaken deadline (e :: es) = approvalOvertaken deadline es := by
  rcases e with ⟨t, l⟩ | ⟨t, l⟩ | p
  · cases l <;> first | rfl | cases he
  · rfl
  · rfl

theorem approvedInTime_cons {t : Nat} {deadline : Option Nat} {es : List (Event RoomStep)}
    (h : approvedInTime t deadline es = true) (e : Event RoomStep) :
    approvedInTime t deadline (e :: es) = true := by
  rw [approvedInTime, List.any_cons]
  exact Bool.or_eq_true_iff.mpr (.inr h)

/-! ## The invariant -/

/-- A closed room stays closed, the deadline stays, and what is sent or approved behind
them was overtaken. -/
structure ClosingInv (deadline : Option Nat) (x : Snapshot (World ServerMemory) RoomStep) :
    Prop where
  closed : closedYet x.trace = true → StoresStatus .closed x.world.files
  expiresAt : ∀ raw, x.world.files.state = .whole raw → raw.expiresAt = deadline
  overtaken : sentAfterClose x.trace = overtakenByClose x.trace
  approved : approvedLate deadline x.trace = approvalOvertaken deadline x.trace

section Invariant

variable {deadline : Option Nat}

theorem closingInv_noWrite : KeptWithoutWrites (ClosingInv deadline) := by
  rintro x e w ⟨hclosed, hexpires, hovertaken, happroved⟩ he hfiles
  refine ⟨fun h => ?_, fun raw hraw => ?_, ?_, ?_⟩
  · rw [Snapshot.record_trace, closedYet_cons, closes_noWrite he, Bool.false_or] at h
    rw [Snapshot.record_world, hfiles]
    exact hclosed h
  · rw [Snapshot.record_world, hfiles] at hraw
    exact hexpires raw hraw
  · rw [Snapshot.record_trace, sentAfterClose_noWrite he, overtakenByClose_noWrite he]
    exact hovertaken
  · rw [Snapshot.record_trace, approvedLate_noWrite he, approvalOvertaken_noWrite he]
    exact happroved

theorem closingInv_status : KeptByStatus (ClosingInv deadline) where
  noWrite := closingInv_noWrite
  state := by
    rintro x t purpose raw r ⟨hclosed, hexpires, hovertaken, happroved⟩ - hraw hr hat
    refine ⟨fun h => ⟨r, rfl, ?_⟩, ?_, hovertaken, happroved⟩
    · rcases hr with hr | hr
      · rw [Snapshot.record_trace, closedYet_cons] at h
        rcases Bool.or_eq_true_iff.mp h with hc | hc
        · exact beq_iff_eq.mp hc
        · obtain ⟨raw', hraw', hstatus⟩ := hclosed hc
          obtain rfl := Stored.whole.inj (hraw.symm.trans hraw')
          exact hr.trans hstatus
      · exact hr
    · rintro r' ⟨⟩
      exact hat.trans (hexpires raw hraw)
  system := by
    rintro x t m ⟨hclosed, hexpires, hovertaken, happroved⟩ - hm hplain
    refine ⟨hclosed, hexpires, ?_, ?_⟩
    · simpa [sentAfterClose, overtakenByClose, hm] using hovertaken
    · simpa [approvedLate, approvalOvertaken, hplain] using happroved

/-- Roster writes have nothing to do with closing. -/
theorem closingInv_roster {x : Snapshot (World ServerMemory) RoomStep}
    (hx : ClosingInv deadline x) (t : Nat) (ps : List Participant) :
    ClosingInv deadline (x.record (.ran t (.wroteParticipants ps)) { x.world with
      files := { x.world.files with participants := .whole ps } }) :=
  ⟨hx.closed, hx.expiresAt, hx.overtaken, hx.approved⟩

end Invariant

/-- If the room is closed, that was after caller `t` looked. -/
def Checked (t : Nat) (x : Snapshot (World ServerMemory) RoomStep) : Prop :=
  closedYet x.trace = true → closedSinceCheck t x.trace = true

/-- If the room is closed, that was before caller `t` took the lock and after it
looked. -/
def CheckedBefore (t : Nat) (es : List (Event RoomStep)) : Prop :=
  closedYet es = true → closedBeforeLock t es = true

theorem Checked.record {t : Nat} {x : Snapshot (World ServerMemory) RoomStep}
    (h : Checked t x) {e : Event RoomStep} (he : ∀ found, e ≠ .ran t (.readState found))
    (w : World ServerMemory) : Checked t (x.record e w) := by
  intro hc
  rw [Snapshot.record_trace] at hc ⊢
  rw [closedYet_cons] at hc
  rw [closedSinceCheck_cons he]
  rcases Bool.or_eq_true_iff.mp hc with hc | hc
  · simp [hc]
  · simp [h hc]

theorem checkedBefore_enduring (t : Nat) : Enduring t (CheckedBefore t) := by
  intro e es he hne h hc
  rw [closedYet_cons, closes_noWrite he, Bool.false_or] at hc
  rw [closedBeforeLock_cons hne]
  exact h hc

section Calls

variable {process : Nat → Nat} {t : Nat} {o : ServerOptions} {req : Request}
  {deadline : Option Nat}

theorem checked_stable : LockStable process (ClosingInv deadline) t (Checked t) := by
  intro e x w hf _ _ _ h
  refine h.record (fun found => ?_) w
  rintro rfl
  exact hf rfl

theorem checked_own : KeptInMemory t (Checked t) := by
  rintro x w l hl - h - -
  refine ⟨h.record (fun found hf => ?_) w, h.record (fun found hf => ?_) w⟩
  · obtain ⟨-, rfl⟩ := Event.ran.inj hf
    cases hl
  · cases hf

/-- Whoever reads that the room is open has checked it. -/
theorem readRoomState_checks :
    LockSafe process (ClosingInv deadline) t
      (fun r x => r.expiresAt = deadline ∧ (r.status = .opened → Checked t x))
      (fun _ _ => True) readRoomState fun _ => True := by
  refine (look_safe closingInv_noWrite.quietly (.of_const True) (true_own fun _ => True)
    (fun _ => ⟨rfl, trivial⟩)).conseq (fun _ _ h => h) ?_ fun _ _ _ _ => trivial
  rintro r y - ⟨-, x, w, rfl, rfl, hx, -, hr⟩
  cases hs : x.world.files.state.read with
  | error e => rw [hs] at hr; cases hr
  | ok raw =>
      rw [hs] at hr
      obtain rfl := Except.ok.inj hr
      have hraw := Stored.eq_whole_of_read hs
      refine ⟨hx.expiresAt raw hraw, fun hopen hc => ?_⟩
      rw [Snapshot.record_trace, closedYet_cons] at hc
      obtain ⟨raw', hraw', hstatus⟩ := hx.closed hc
      obtain rfl := Stored.whole.inj (hraw.symm.trans hraw')
      cases hstatus.symm.trans hopen

theorem checkedIfOpen_stable (r : RoomState) :
    LockStable process (ClosingInv deadline) t fun x => r.status = .opened → Checked t x :=
  fun e x w hf hi hi' hg h hopen => checked_stable e x w hf hi hi' hg (h hopen)

theorem checkedIfOpen_own (r : RoomState) :
    KeptInMemory t fun x => r.status = .opened → Checked t x :=
  fun x w l hl hw h hfiles hlock =>
    ⟨fun hopen => (checked_own x w l hl hw (h hopen) hfiles hlock).1,
      fun hopen => (checked_own x w l hl hw (h hopen) hfiles hlock).2⟩

theorem requireRoomOpen_checks :
    LockSafe process (ClosingInv deadline) t (fun _ => Checked t) (fun _ _ => True)
      (requireRoomOpen t o) fun _ => True := by
  have hread : LockSafe process (ClosingInv deadline) t
      (fun r x => r.status = .opened → Checked t x) (fun _ _ => True) readRoomState
      fun _ => True :=
    readRoomState_checks.conseq (fun _ _ h => h) (fun _ _ _ h => h.2) fun _ _ _ h => h
  refine (closeExpiredRoomIfNeeded_safe closingInv_status.room hread checkedIfOpen_stable
    checkedIfOpen_own fun r x hclosed hopen => ?_).bind fun state => ?_
  · cases hclosed.symm.trans hopen
  · split
    · exact fun _ _ _ => trivial
    · rename_i hopen
      exact .done fun x _ h => h (not_not.mp hopen)

/-- Behind the check, the line of a message is late exactly when it was overtaken. -/
theorem appendMessageResult_checked (options : AppendMessageOptions) :
    LockSafe process (ClosingInv deadline) t (fun _ _ => True) (fun _ _ => True)
      (appendMessageResult t options) (Checked t) := by
  refine appendMessageResult_safe closingInv_status.room checked_stable checked_own
    (checkedBefore_enduring t) ?_ ?_ options
  · intro x _ h hc
    rw [closedYet_cons] at hc
    simpa [closedBeforeLock] using h hc
  · rintro x m ⟨hclosed, hexpires, hovertaken, happroved⟩ ⟨-, hpast, -⟩ hm
    refine ⟨hclosed, hexpires, ?_, ?_⟩
    · have heq : closedYet x.trace = closedBeforeLock t x.trace := by
        rw [Bool.eq_iff_iff]
        exact ⟨hpast, closedYet_of_closedBeforeLock⟩
      simp only [Snapshot.record_trace, sentAfterClose, overtakenByClose, heq, hovertaken]
    · have hsent : isApproval m = false := by simp [isApproval, hm]
      simpa [approvedLate, approvalOvertaken, hsent] using happroved

/-- Behind the two checks, an approval is late exactly when it was overtaken. -/
theorem appendApproval_checked (aliasName : String) :
    LockSafe process (ClosingInv deadline) t (fun _ _ => True) (fun _ _ => True)
      (appendApproval t o aliasName)
      fun x => Checked t x ∧ approvedInTime t deadline x.trace = true := by
  have hstable : LockStable process (ClosingInv deadline) t fun x =>
      Checked t x ∧ approvedInTime t deadline x.trace = true :=
    checked_stable.and fun e _ _ _ _ _ _ h => approvedInTime_cons h e
  have hown : KeptInMemory t fun x =>
      Checked t x ∧ approvedInTime t deadline x.trace = true := by
    rintro x w l hl hw ⟨hchecked, htime⟩ hfiles hlock
    have hkept := checked_own x w l hl hw hchecked hfiles hlock
    exact ⟨⟨hkept.1, approvedInTime_cons htime _⟩, hkept.2, approvedInTime_cons htime _⟩
  refine appendApproval_safe closingInv_status.room ?_
  refine appendServerMessage_safe closingInv_status.room
    (R := fun _ es => CheckedBefore t es ∧ approvedInTime t deadline es = true)
    ((dateNow_keeps closingInv_status.room.quiet hstable hown none).conseq
      (fun _ _ h => h) (fun _ _ _ h => h) fun _ _ _ _ => trivial)
    (fun _ => hstable) ?_ ?_ ?_
  · rintro now e es he hne ⟨hchecked, htime⟩
    exact ⟨checkedBefore_enduring t e es he hne hchecked, approvedInTime_cons htime e⟩
  · rintro now x - ⟨hchecked, htime⟩
    refine ⟨fun hc => ?_, approvedInTime_cons htime _⟩
    rw [closedYet_cons] at hc
    simpa [closedBeforeLock] using hchecked hc
  · rintro now x m ⟨hclosed, hexpires, hovertaken, happroved⟩ ⟨-, ⟨hpast, htime⟩, -⟩
      htype htext -
    refine ⟨hclosed, hexpires, ?_, ?_⟩
    · simpa [sentAfterClose, overtakenByClose, htype] using hovertaken
    · have heq : closedYet x.trace = closedBeforeLock t x.trace := by
        rw [Bool.eq_iff_iff]
        exact ⟨hpast, closedYet_of_closedBeforeLock⟩
      simp only [Snapshot.record_trace, approvedLate, approvalOvertaken, heq, htime,
        Bool.true_and, happroved]

/-- A timer's callback approves behind both checks. -/
theorem completeAutoContinue_closing (cycle : Nat) :
    Kept process (ClosingInv deadline) t (completeAutoContinue t o cycle) := by
  refine (fireTimer_kept closingInv_noWrite cycle).bind fun aliasName => ?_
  cases aliasName with
  | none => exact .done fun _ _ _ => trivial
  | some aliasName =>
      refine Contract.Safe.bind (R := fun found x => ∀ state, found = some state →
        state.expiresAt = deadline ∧ (state.status = .opened → Checked t x)) ?_ fun found => ?_
      · refine Contract.Safe.catchErr (readRoomState_checks.bind fun state => ?_)
          fun _ => .done fun _ _ _ _ h => (nomatch h)
        refine .done fun x _ h state' hstate => ?_
        obtain rfl := Option.some.inj hstate
        exact h
      cases found with
      | none =>
          exact (synchronously_any closingInv_noWrite _).pre fun _ _ _ => trivial
      | some state =>
          refine Contract.Safe.pre (P := fun x => state.expiresAt = deadline ∧
            (state.status = .opened → Checked t x)) (Contract.Safe.of_pure fun hat => ?_)
            fun x _ h => h state rfl
          refine Contract.Safe.bind (R := fun approved x => approved = true →
            Checked t x ∧ approvedInTime t deadline x.trace = true) ?_ fun approved => ?_
          · refine (synchronously_safe closingInv_status.room.quiet
              (checkedIfOpen_stable state) (checkedIfOpen_own state) fun _ hx _ =>
                ranCode_kept closingInv_noWrite _ hx).conseq (fun _ _ h => h) ?_
                fun _ _ _ _ => trivial
            rintro approved y - ⟨hchecked, x, rfl, hx, -, happroved⟩ rfl
            rcases recheckAutoContinue_cases state x.world.clock x.world.memory with
              ⟨-, ⟨p, hp⟩, hopen, hexpired⟩ | ⟨hfalse, -⟩
            · refine ⟨hchecked hopen, ?_⟩
              have hnot : ∀ at', deadline = some at' → x.world.clock < at' := by
                rintro at' hat'
                simpa [RoomState.expiredAt, hat, hat'] using hexpired
              rw [ranCode, Snapshot.record_trace, pendingLabel_approved hp, approvedInTime,
                List.any_cons]
              cases deadline with
              | none => simp
              | some at' => simp [hnot at' rfl]
            · rw [hfalse] at happroved
              cases happroved
          · split
            · rename_i htrue
              exact (appendApproval_checked aliasName).pre fun x _ h => h htrue
            · exact .done fun _ _ _ => trivial

theorem call_closing (call : ServerCall) :
    Kept process (ClosingInv deadline) t (call.prog o t) := by
  have hrequests : KeptByRequests process (ClosingInv deadline) t o (fun _ _ => True)
      (Checked t) :=
    closingInv_status.requests (fun _ ps hx => closingInv_roster hx t ps) checked_stable
      checked_own requireRoomOpen_checks appendMessageResult_checked
  exact call_safe hrequests (fun _ _ _ => handler_safe hrequests
    (anyRecord_rules hrequests) fun _ => closingInv_status.loopGuard)
    completeAutoContinue_closing

end Calls

/-! ## Runs -/

theorem serving_closing {process : Nat → Nat} {o : ServerOptions} {files : RoomFiles}
    {clock : Nat} {memory : ServerMemory} {calls : List ServerCall} :
    (lockContract process (ClosingInv (RoomFiles.deadline files))).Holds
      (faultySystem ServerMemory process) (serving o files clock memory calls) := by
  have hinv : ClosingInv (RoomFiles.deadline files)
      (serving o files clock memory calls).snap := by
    refine ⟨fun h => (nomatch h), fun raw hraw => ?_, rfl, rfl⟩
    have hraw' : files.state = .whole raw := hraw
    rw [RoomFiles.deadline, hraw']
  refine ⟨hinv, fun t p hp => ?_⟩
  obtain ⟨call, -, rfl⟩ := thread_serving hp
  exact .of_safe (call_closing call) hinv trivial

/-- In every run, no message of a participant is appended after the room was closed if
and only if no send was overtaken by a close between its look at the room's state and
its taking of the writer lock. -/
theorem not_sentAfterClose_iff (process : Nat → Nat) (o : ServerOptions) (files : RoomFiles)
    (clock : Nat) (memory : ServerMemory) (calls : List ServerCall)
    (c : Config (World ServerMemory) RoomStep Failure (Option Reply))
    (h : (faultySystem ServerMemory process).Reachable
      (serving o files clock memory calls) c) :
    sentAfterClose c.snap.trace = false ↔ overtakenByClose c.snap.trace = false := by
  have hinv := (Contract.sound serving_closing
    (lockContract_crashSafe closingInv_noWrite.quietly) h).1
  rw [hinv.overtaken]

/-- The agent sends, the host closes. -/
def sendAndClose : List ServerCall :=
  [.request .postMessage ⟨some "bb", .ok (.obj [("text", .str "late")]), []⟩,
   .request .postClose ⟨some "aa", .ok .null, []⟩]

/-- The close falls between the send's check and its taking of the lock. -/
def closeOvertakes : List (Move Failure) :=
  List.replicate 11 (.run 0) ++ List.replicate 8 (.run 1) ++ List.replicate 9 (.run 0)

/-- The send is through before the close begins, by the general theorem. -/
theorem not_sentAfterClose_iff_sendFirst :
    ∃ c, (faultySystem ServerMemory id).Reachable
        (serving smallServer openRoom 0 .initial sendAndClose) c ∧
      (closedYet c.snap.trace = true ∧ c.snap.world.files.log.map (·.id) = [1]) ∧
      (sentAfterClose c.snap.trace = false ↔ overtakenByClose c.snap.trace = false) := by
  have hrun : ((faultySystem ServerMemory id).replay
      (serving smallServer openRoom 0 .initial sendAndClose)
      (List.replicate 20 (.run 0) ++ List.replicate 8 (.run 1))).map
      (fun c => (closedYet c.snap.trace, c.snap.world.files.log.map (·.id))) =
      some (true, [1]) := by decide
  obtain ⟨c, hc, hv⟩ := System.exists_reachable_of_replay hrun
  exact ⟨c, hc, Prod.mk.inj hv, not_sentAfterClose_iff id smallServer openRoom 0 .initial
    sendAndClose c hc⟩

/-- A message can be appended after the room was closed. -/
theorem postMessage_overtaken_by_close :
    ¬ ∀ (calls : List ServerCall)
        (c : Config (World ServerMemory) RoomStep Failure (Option Reply)),
      (faultySystem ServerMemory id).Reachable
        (serving smallServer openRoom 0 .initial calls) c →
      sentAfterClose c.snap.trace = false := by
  intro h
  have hrun : ((faultySystem ServerMemory id).replay
      (serving smallServer openRoom 0 .initial sendAndClose) closeOvertakes).map
      (fun c => sentAfterClose c.snap.trace) = some true := by decide
  obtain ⟨c, hc, hv⟩ := System.exists_reachable_of_replay hrun
  exact Bool.false_ne_true ((h sendAndClose c hc).symm.trans hv)

/-! ## Approvals -/

/-- In every run, no approval is appended after the room was closed or with a time at or
after its deadline if and only if no callback was overtaken: by a close between its look
at the room's state and its taking of the writer lock, or by the deadline between its look
at the clock and the reading of its timestamp. -/
theorem not_approvedLate_iff (process : Nat → Nat) (o : ServerOptions) (files : RoomFiles)
    (clock : Nat) (memory : ServerMemory) (calls : List ServerCall)
    (c : Config (World ServerMemory) RoomStep Failure (Option Reply))
    (h : (faultySystem ServerMemory process).Reachable
      (serving o files clock memory calls) c) :
    approvedLate (RoomFiles.deadline files) c.snap.trace = false ↔
      approvalOvertaken (RoomFiles.deadline files) c.snap.trace = false := by
  have hinv := (Contract.sound serving_closing
    (lockContract_crashSafe closingInv_noWrite.quietly) h).1
  rw [hinv.approved]

/-- The agent's message opens a cycle, which ends when the host closes the room. -/
def continueAndClose : List ServerCall :=
  [.request .postMessage ⟨some "bb", .ok (.obj [("text", .str "on")]), []⟩,
   .timePasses 30000,
   .autoContinue 0,
   .request .postClose ⟨some "aa", .ok .null, []⟩]

/-- The callback is through before the close begins, by the general theorem. -/
theorem not_approvedLate_iff_approvalFirst :
    ∃ c, (faultySystem ServerMemory id).Reachable
        (serving guardingServer guardedRoom 0 .initial continueAndClose) c ∧
      (closedYet c.snap.trace = true ∧
        c.snap.world.files.log.map isApproval = [true]) ∧
      (approvedLate (RoomFiles.deadline guardedRoom) c.snap.trace = false ↔
        approvalOvertaken (RoomFiles.deadline guardedRoom) c.snap.trace = false) := by
  have hrun : ((faultySystem ServerMemory id).replay
      (serving guardingServer guardedRoom 0 .initial continueAndClose)
      (List.replicate 12 (.run 0) ++ [.run 1] ++ List.replicate 12 (.run 2) ++
        List.replicate 8 (.run 3))).map
      (fun c => (closedYet c.snap.trace, c.snap.world.files.log.map isApproval)) =
      some (true, [true]) := by decide +kernel
  obtain ⟨c, hc, hv⟩ := System.exists_reachable_of_replay hrun
  exact ⟨c, hc, Prod.mk.inj hv, not_approvedLate_iff id guardingServer guardedRoom 0
    .initial continueAndClose c hc⟩

/-- An approval can be appended to a closed room: the host closes it between the
callback's last look and its taking of the lock. -/
theorem autoContinue_overtaken_by_close :
    ¬ ∀ (calls : List ServerCall)
        (c : Config (World ServerMemory) RoomStep Failure (Option Reply)),
      (faultySystem ServerMemory id).Reachable
        (serving guardingServer guardedRoom 0 .initial calls) c →
      approvedLate (RoomFiles.deadline guardedRoom) c.snap.trace = false := by
  intro h
  have hrun : ((faultySystem ServerMemory id).replay
      (serving guardingServer guardedRoom 0 .initial continueAndClose)
      (List.replicate 12 (.run 0) ++ [.run 1] ++ List.replicate 3 (.run 2) ++
        List.replicate 8 (.run 3) ++ List.replicate 5 (.run 2))).map
      (fun c => approvedLate (RoomFiles.deadline guardedRoom) c.snap.trace) =
      some true := by decide +kernel
  obtain ⟨c, hc, hv⟩ := System.exists_reachable_of_replay hrun
  exact Bool.false_ne_true ((h continueAndClose c hc).symm.trans hv)

end AgentGather.Server
