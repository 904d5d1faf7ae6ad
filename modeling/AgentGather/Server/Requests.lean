import AgentGather.Server.Endpoints

/-!
# What the calls keep

The steps in which endpoints differ, each with what an invariant has to say about it: a
cycle is opened, a session starts or ends, the host sets its preference, a timer goes off.
From these and the shared steps follows what whole requests and calls keep.
-/

namespace AgentGather.Server

open AgentGather.Library AgentGather.Protocol AgentGather.Storage

variable {process : Nat → Nat} {I : Snapshot (World ServerMemory) RoomStep → Prop}
  {t : Nat} {o : ServerOptions} {req : Request}
  {P : Snapshot (World ServerMemory) RoomStep → Prop} {R : List (Event RoomStep) → Prop}

/-! ## The session and the preference -/

section Writes

variable (hI : KeptQuietly I) (hstable : LockStable process I t P) (hown : KeptInMemory t P)
  (hR : Enduring t R) (henter : ∀ x, I x → P x → R (.ran t .acquired :: x.trace))

include hI hstable hown hR henter

/-- A session is stored where none is running. -/
theorem startActiveSession_safe
    (hwrite : ∀ x raw session r, I x → x.world.lock = some t → R x.trace →
      x.world.files.state = .whole raw → RoomState.runningSession raw = none →
      session.endedAt = none → SameRoom { raw with activeSession := some session } r →
      I (x.record (.ran t (.wroteState .started r))
        { x.world with files := { x.world.files with state := .whole r } }))
    (options : StartActiveSessionOptions) :
    LockSafe process I t (fun _ _ => True) (fun _ _ => True) (startActiveSession t options)
      P := by
  refine .bind_ofExcept (fun _ _ => ?_) fun _ _ _ _ _ => trivial
  refine .bind_ofExcept (fun _ _ => ?_) fun _ _ _ _ _ => trivial
  refine Contract.Safe.bind (R := fun _ => P) ?_ fun now => ?_
  · exact (dateNow_keeps hI hstable hown _).conseq (fun _ _ hp => hp)
      (fun _ _ _ hp => hp) fun _ _ _ _ => trivial
  refine withWriterLock_lockSafe hI hstable henter
    ((readRoomState_stored hI hR).bind fun r => ?_)
  dsimp only
  split
  · exact fun _ _ hp => hp.lock
  · rename_i hrunning
    refine (writeState_stored hI hR fun x raw hx hlock hpast hraw hsame => ?_).bind
      fun _ => .done fun _ _ hp => ⟨trivial, hp⟩
    refine hwrite x raw _ _ hx hlock hpast hraw ?_ rfl
      ⟨hsame.status, hsame.expiresAt, rfl, hsame.autoContinueEnabled,
        hsame.autoContinueDelayS⟩
    have hnone : RoomState.runningSession r = none := by simpa using hrunning
    simpa only [RoomState.runningSession, hsame.activeSession] using hnone

/-- The running session is cleared. -/
theorem endActiveSession_safe
    (hwrite : ∀ x raw r, I x → x.world.lock = some t → R x.trace →
      x.world.files.state = .whole raw → (RoomState.runningSession raw).isSome →
      SameRoom { raw with activeSession := none } r →
      I (x.record (.ran t (.wroteState .ended r))
        { x.world with files := { x.world.files with state := .whole r } }))
    (roomId : String) (now : Option Nat) :
    LockSafe process I t (fun _ _ => True) (fun _ _ => True) (endActiveSession t roomId now)
      P := by
  refine .bind_ofExcept (fun _ _ => ?_) fun _ _ _ _ _ => trivial
  refine Contract.Safe.bind (R := fun _ => P) ?_ fun now => ?_
  · exact (dateNow_keeps hI hstable hown _).conseq (fun _ _ hp => hp)
      (fun _ _ _ hp => hp) fun _ _ _ _ => trivial
  refine withWriterLock_lockSafe hI hstable henter
    ((readRoomState_stored hI hR).bind fun r => ?_)
  cases hrunning : RoomState.runningSession r with
  | none => exact .done fun _ _ hp => ⟨trivial, hp.lock⟩
  | some session =>
      refine (writeState_stored hI hR fun x raw hx hlock hpast hraw hsame => ?_).bind
        fun _ => .done fun _ _ hp => ⟨trivial, hp⟩
      refine hwrite x raw _ hx hlock hpast hraw ?_
        ⟨hsame.status, hsame.expiresAt, rfl, hsame.autoContinueEnabled,
          hsame.autoContinueDelayS⟩
      simp only [RoomState.runningSession, hsame.activeSession] at hrunning ⊢
      simp [hrunning]

/-- The preference is stored. -/
theorem updateLoopGuardPreference_safe {options : UpdateLoopGuardPreferenceOptions}
    (hwrite : ∀ x raw delay r, I x → x.world.lock = some t → R x.trace →
      x.world.files.state = .whole raw →
      SameRoom { raw with
        autoContinueEnabled := some options.enabled, autoContinueDelayS := some delay } r →
      I (x.record (.ran t (.wroteState .preferred r))
        { x.world with files := { x.world.files with state := .whole r } })) :
    LockSafe process I t (fun _ _ => True) (fun _ _ => True)
      (updateLoopGuardPreference t options) P := by
  refine .bind_ofExcept (fun _ _ => ?_) fun _ _ _ _ _ => trivial
  refine .bind_ofExcept (fun _ _ => ?_) fun _ _ _ _ _ => trivial
  dsimp only
  split
  · exact fun _ _ _ => trivial
  refine Contract.Safe.bind (R := fun _ => P) ?_ fun now => ?_
  · exact (dateNow_keeps hI hstable hown _).conseq (fun _ _ hp => hp)
      (fun _ _ _ hp => hp) fun _ _ _ _ => trivial
  refine withWriterLock_lockSafe hI hstable henter
    ((readRoomState_stored hI hR).bind fun r => ?_)
  refine (writeState_stored hI hR fun x raw hx hlock hpast hraw hsame => ?_).bind
    fun _ => .done fun _ _ hp => ⟨trivial, hp⟩
  exact hwrite x raw _ _ hx hlock hpast hraw
    ⟨hsame.status, hsame.expiresAt, hsame.activeSession, rfl, rfl⟩

end Writes

/-! ## The loop guard's cycle -/

/-- A cycle is opened, if at all, as `L` says of the state that was read. -/
theorem pauseLoop_safe (h : KeptByRoom I) {auth : Participant}
    {L : RoomState → Snapshot (World ServerMemory) RoomStep → Prop}
    (hread : LockSafe process I t L (fun _ _ => True) readRoomState P)
    (hstable : ∀ state, LockStable process I t (L state))
    (hopen : ∀ state x m, I x → L state x → state.autoContinueEnabled = some true →
      OpenedCycle x.world.memory m ⟨auth.aliasName, x.world.memory.cycles,
        x.world.clock + state.autoContinueDelayS.getD autoContinueDelayDefaultS * 1000⟩ →
      I (x.record (.ran t (.pending x.world.clock m.pendingAutoContinue))
        { x.world with memory := m })) :
    LockSafe process I t (fun _ _ => False) (fun _ _ => True) (pauseLoop auth) P := by
  refine hread.bind fun state => ?_
  dsimp only
  split
  · exact fun _ _ _ => trivial
  · rename_i henabled
    have hcode (now : Nat) (m : ServerMemory) := schedulePendingAutoContinue_cases
      auth.aliasName (state.autoContinueDelayS.getD autoContinueDelayDefaultS) now m
    have hstep : ∀ x, I x → L state x → I (ranCode t (schedulePendingAutoContinue
        auth.aliasName (state.autoContinueDelayS.getD autoContinueDelayDefaultS)) x) := by
      intro x hx hl
      unfold ranCode
      rcases hcode x.world.clock x.world.memory with hsame | hopened
      · exact h.routine x t _ hx (.inl hsame)
      · rw [pendingLabel_opened hopened]
        have hinv := hopen state x _ hx hl (not_not.mp henabled) hopened
        rwa [hopened.pending] at hinv
    refine Contract.Safe.action (hstable state) (fun x hx hl _ _ => ?_) ?_
      (fun _ _ _ _ _ _ _ => trivial) ?_
    · exact keeps_of_noWrite (hstep x hx hl) (pendingLabel_process _ _ _).1 rfl
        fun _ _ hu => hu
    · rintro x a - - - - ⟨⟩
    · exact fun x e hx _ _ _ => ⟨keeps_failed h.quiet hx t _, trivial⟩

theorem loopGuardProjection_routine (state : RoomState) :
    RoutineCode fun now => loopGuardProjection o state now :=
  fun _ _ => .inl ⟨rfl, rfl, rfl⟩

/-- The preference is turned off: nothing is pending when that is answered. -/
theorem settledProjection (state : RoomState) :
    SettlingCode (fun now => do
      cancelPendingAutoContinue
      loopGuardProjection o state now) := by
  intro now m
  dsimp only
  rw [run_bind, cancelPendingAutoContinue, run_modify]
  cases hp : m.pendingAutoContinue with
  | none => exact .inl ⟨rfl, rfl⟩
  | some p => exact .inr ⟨p, hp, rfl, rfl, rfl⟩

/-- The preference's host stores it, and cancels. -/
theorem setLoopGuard_kept (h : KeptByRoom I)
    (hwrite : ∀ x raw enabled delay r, I x → x.world.lock = some t →
      x.world.files.state = .whole raw →
      SameRoom { raw with
        autoContinueEnabled := some enabled, autoContinueDelayS := some delay } r →
      I (x.record (.ran t (.wroteState .preferred r))
        { x.world with files := { x.world.files with state := .whole r } }))
    (updatedBy : String) (enabled : Bool) (delaySeconds : Option Int) :
    Kept process I t (setLoopGuard t o updatedBy enabled delaySeconds) := by
  refine Contract.Safe.bind (R := fun _ _ => True) ?_ fun state => ?_
  · exact updateLoopGuardPreference_safe h.quiet (.of_const True) (true_own _)
      (anyPast_enduring t) (fun _ _ _ => trivial) fun x raw delay r hx hlock _ hraw hsame =>
        hwrite x raw _ delay r hx hlock hraw hsame
  · split
    · exact (settling_kept h (settledProjection state)).bind fun _ =>
        .done fun _ _ _ => trivial
    · exact (synchronously_kept h (loopGuardProjection_routine state)).bind fun _ =>
        .done fun _ _ _ => trivial

/-- The pending entry is dropped by an approval; the timers stay as they are. -/
structure ApprovedCycle (m m' : ServerMemory) (p : PendingAutoContinue) : Prop where
  pending : m.pendingAutoContinue = some p
  none : m'.pendingAutoContinue = none
  timers : m'.timers = m.timers
  cycles : m'.cycles = m.cycles

/-- The second look approves, of a room that is open and not expired, or not. -/
theorem recheckAutoContinue_cases (state : RoomState) (now : Nat) (m : ServerMemory) :
    (((recheckAutoContinue state now).run.run m).1 = .ok true ∧
      (∃ p, ApprovedCycle m ((recheckAutoContinue state now).run.run m).2 p) ∧
      state.status = .opened ∧ RoomState.expiredAt state now = false) ∨
    (((recheckAutoContinue state now).run.run m).1 = .ok false ∧
      RoutineStep m ((recheckAutoContinue state now).run.run m).2) := by
  simp only [recheckAutoContinue, run_bind, run_get]
  cases hp : m.pendingAutoContinue with
  | none => exact .inr ⟨rfl, .inl (.refl m)⟩
  | some p =>
      simp only [Option.isNone_some, if_neg Bool.false_ne_true]
      by_cases hover : state.status ≠ .opened ∨ RoomState.expiredAt state now = true
      · right
        simp only [if_pos hover]
        refine ⟨rfl, .inr ⟨p, hp, ?_, ?_, ?_⟩⟩ <;>
          simp only [cancelPendingAutoContinue, run_bind, run_modify, run_pure, hp]
      · left
        simp only [if_neg hover]
        obtain ⟨hopen, hexpired⟩ := not_or.mp hover
        exact ⟨rfl, ⟨p, hp, rfl, rfl, rfl⟩, not_not.mp hopen, by simpa using hexpired⟩

theorem pendingLabel_approved {m m' : ServerMemory} {p : PendingAutoContinue}
    (h : ApprovedCycle m m' p) (clock : Nat) :
    pendingLabel clock m m' = .pending clock none := by
  rw [pendingLabel, if_neg (by simp [h.pending, h.none]), h.none]

/-- An approval is as safe as its line. -/
theorem appendApproval_safe (h : KeptByRoom I) {aliasName : String}
    (happend : LockSafe process I t (fun _ _ => True) (fun _ _ => True)
      (appendSystem t o (approvalText aliasName)) P) :
    LockSafe process I t (fun _ _ => True) (fun _ _ => True) (appendApproval t o aliasName)
      P :=
  Contract.Safe.catchErr (happend.bind fun _ => synchronously_kept h notifyWaiters_routine)
    fun _ => .done fun _ _ _ => trivial

/-- The callback of a timer, by its three steps on the memory and its message. -/
theorem completeAutoContinue_kept (h : KeptByRoom I)
    (hfire : ∀ cycle, Kept process I t (fireTimer cycle))
    (hcheck : ∀ state, Kept process I t
      (synchronously fun now => recheckAutoContinue state now))
    (happrove : ∀ aliasName, Kept process I t (appendApproval t o aliasName))
    (cycle : Nat) : Kept process I t (completeAutoContinue t o cycle) := by
  refine (hfire cycle).bind fun aliasName => ?_
  cases aliasName with
  | none => exact .done fun _ _ _ => trivial
  | some aliasName =>
      refine Contract.Safe.bind (R := fun _ _ => True) ?_ fun found => ?_
      · exact Contract.Safe.catchErr ((readRoomState_kept h.quiet).bind fun _ =>
          .done fun _ _ _ => trivial) fun _ => .done fun _ _ _ => trivial
      cases found with
      | none => exact synchronously_kept h cancelPendingAutoContinue_routine
      | some state =>
          refine (hcheck state).bind fun approved => ?_
          split
          · exact happrove aliasName
          · exact .done fun _ _ _ => trivial

/-! ## Calls -/

/-- What has to be known of the steps in which requests differ: roster writes do nothing
to `I`; `C` is what an open room is known by, and `A` what authentication leaves. -/
structure KeptByRequests (process : Nat → Nat)
    (I : Snapshot (World ServerMemory) RoomStep → Prop) (t : Nat) (o : ServerOptions)
    (A : Participant → Snapshot (World ServerMemory) RoomStep → Prop)
    (C : Snapshot (World ServerMemory) RoomStep → Prop) : Prop where
  room : KeptByRoom I
  roster : ∀ x ps, I x → I (x.record (.ran t (.wroteParticipants ps)) { x.world with
    files := { x.world.files with participants := .whole ps } })
  stable : LockStable process I t C
  own : KeptInMemory t C
  opened : LockSafe process I t (fun _ => C) (fun _ _ => True) (requireRoomOpen t o)
    fun _ => True
  pause : ∀ auth, LockSafe process I t (fun _ _ => False) (fun _ _ => True) (pauseLoop auth)
    fun x => C x ∧ A auth x
  append : ∀ options, LockSafe process I t (fun _ _ => True) (fun _ _ => True)
    (appendMessageResult t options) C
  start : ∀ options, LockSafe process I t (fun _ _ => True) (fun _ _ => True)
    (startActiveSession t options) C
  finish : LockSafe process I t (fun _ _ => True) (fun _ _ => True)
    (endActiveSession t o.roomId none) C

section Calls

variable {S : Snapshot (World ServerMemory) RoomStep → Prop}
  {A : Participant → Snapshot (World ServerMemory) RoomStep → Prop}
  {C : Snapshot (World ServerMemory) RoomStep → Prop}

/-- Only the preference's request sets the preference. -/
theorem handler_safe (h : KeptByRequests process I t o A C)
    (rules : RequestRules process I t o req S A fun _ _ => True) {kind : RequestKind}
    (hset : kind = .postLoopGuard → ∀ updatedBy enabled delaySeconds,
      Kept process I t (setLoopGuard t o updatedBy enabled delaySeconds)) :
    LockSafe process I t (fun _ _ => True) (fun _ _ => True) (kind.handler t o req) S := by
  cases kind with
  | getMessages => exact getMessages_safe h.room rules fun _ _ => trivial
  | postMessage =>
      exact postMessage_safe h.room rules (fun _ _ => trivial) h.stable h.own h.opened
        h.pause h.append
  | getWait => exact getWait_safe h.room rules fun _ _ => trivial
  | postProfile => exact postProfile_safe h.room rules fun _ _ _ _ _ _ _ => trivial
  | postJoin => exact postJoin_safe h.room rules fun _ _ _ _ _ _ _ _ _ => trivial
  | postLeave => exact postLeave_safe h.room rules fun _ _ => trivial
  | postClose => exact postClose_safe h.room rules
  | postLoopGuard => exact postLoopGuard_safe h.room rules (hset rfl)
  | postSession =>
      exact postSession_safe h.room rules h.stable h.own h.opened h.start h.finish

theorem upsertParticipant_kept (h : KeptByRequests process I t o A C) (new : Participant) :
    Kept process I t (upsertParticipant t new) :=
  upsertParticipant_safe h.room.quiet (.of_const True) (anyPast_enduring t)
    (fun _ _ _ => trivial) fun x _ hx _ => h.roster x _ hx

theorem joinParticipant_kept (h : KeptByRequests process I t o A C) (new : Participant)
    (staleAfterMs : Nat) (sessionId : Option String) :
    Kept process I t (joinParticipant t new staleAfterMs sessionId) :=
  joinParticipant_safe h.room.quiet (.of_const True) (true_own _) (anyPast_enduring t)
    (fun _ _ _ => trivial) (fun x _ hx _ => h.roster x _ hx) staleAfterMs sessionId

/-- The authenticated record is an active one, unless removed ones are let in. -/
theorem requireParticipant_kept (hI : KeptQuietly I) (allowRemoved : Bool) :
    LockSafe process I t
      (fun auth _ => (allowRemoved = false → auth.removedAt = none) ∧ True)
      (fun _ _ => True) (requireParticipant o req allowRemoved) fun _ => True := by
  unfold requireParticipant
  split
  · exact fun _ _ _ => trivial
  · refine (readParticipants_kept hI).bind fun participants => ?_
    split
    · exact fun _ _ _ => trivial
    · dsimp only
      split
      · exact fun _ _ _ => trivial
      · rename_i hremoved
        refine .done fun _ _ _ => ⟨fun h => ?_, trivial⟩
        simpa [h] using hremoved

/-- Where authentication leaves nothing, requests may store any record. -/
theorem anyRecord_rules (h : KeptByRequests process I t o (fun _ _ => True) C) :
    RequestRules process I t o req (fun _ => True) (fun _ _ => True) fun _ _ => True where
  lasting _ := fun _ _ _ h => h
  authenticate := requireParticipant_kept h.room.quiet
  upsert _ new _ := upsertParticipant_kept h new
  join _ new staleAfterMs sessionId _ := joinParticipant_kept h new staleAfterMs sessionId

/-- A call is safe when requests and completions are. -/
theorem call_safe (h : KeptByRequests process I t o A C) {call : ServerCall}
    (hrequest : ∀ kind req, call = .request kind req →
      LockSafe process I t (fun _ _ => True) (fun _ _ => True)
        (RequestKind.handler t o req kind) S)
    (hcomplete : ∀ cycle, LockSafe process I t (fun _ _ => True) (fun _ _ => True)
      (completeAutoContinue t o cycle) S) :
    LockSafe process I t (fun _ _ => True) (fun _ _ => True) (call.prog o t) S := by
  cases call with
  | request kind req =>
      exact (hrequest kind req rfl).bind fun _ => .done fun _ _ _ => trivial
  | autoContinue cycle => exact (hcomplete cycle).bind fun _ => .done fun _ _ _ => trivial
  | roomInvite options =>
      exact ((roomInvite_kept h.room.quiet (upsertParticipant_kept h) options).pre
        fun _ _ _ => trivial).bind fun _ => .done fun _ _ _ => trivial
  | hostWrite participant =>
      exact ((upsertParticipant_kept h participant).pre fun _ _ _ => trivial).bind fun _ =>
        .done fun _ _ _ => trivial
  | timePasses ms => exact (timePasses_kept h.room.quiet ms).pre fun _ _ _ => trivial

end Calls

/-! ## Invariants of the files and the history -/

section Status

/-- Such an invariant is kept whatever happens to the memory. -/
theorem process_kept (h : KeptWithoutWrites I) {α : Type}
    {label : World ServerMemory → RoomStep} {ready : World ServerMemory → Bool}
    {effect : World ServerMemory → World ServerMemory}
    {result : World ServerMemory → Except Failure α} (hwrite : ∀ w, (label w).isWrite = false)
    (hfiles : ∀ w, (effect w).files = w.files) (hlock : ∀ w, (effect w).lock = w.lock) :
    Kept process I t (Prog.action label ready effect result) :=
  step_keeps h.quietly (.of_const True) (true_own fun _ => True)
    (fun x hx _ _ => h x _ _ hx (hwrite _) (hfiles _)) (fun w => ⟨hwrite w, trivial⟩) hfiles
    hlock

theorem pauseLoop_kept (hI : KeptWithoutWrites I) (h : KeptByRoom I) (auth : Participant) :
    LockSafe process I t (fun _ _ => False) (fun _ _ => True) (pauseLoop auth) P :=
  (pauseLoop_safe h (readRoomState_kept h.quiet) (fun _ => .of_const True)
    fun _ x _ hx _ _ _ => hI x _ _ hx rfl rfl).pre fun _ _ _ => trivial

theorem fireTimer_kept (h : KeptWithoutWrites I) (cycle : Nat) :
    Kept process I t (fireTimer cycle) := by
  refine process_kept h (fun w => ?_) (fun _ => rfl) fun _ => rfl
  split <;> rfl

theorem ranCode_kept (h : KeptWithoutWrites I) {α : Type} (code : Nat → MemoryM α)
    {x : Snapshot (World ServerMemory) RoomStep} (hx : I x) : I (ranCode t code x) :=
  h x _ _ hx (pendingLabel_process _ _ _).1 rfl

theorem synchronously_any (h : KeptWithoutWrites I) {α : Type} (code : Nat → MemoryM α) :
    Kept process I t (synchronously code) :=
  (synchronously_safe h.quietly (.of_const True) (true_own _) fun _ hx _ =>
    ranCode_kept h code hx).conseq (fun _ _ hp => hp) (fun _ _ _ _ => trivial)
    fun _ _ _ _ => trivial

theorem KeptByStatus.loopGuard (h : KeptByStatus I) (updatedBy : String) (enabled : Bool)
    (delaySeconds : Option Int) :
    Kept process I t (setLoopGuard t o updatedBy enabled delaySeconds) :=
  setLoopGuard_kept h.room (fun x raw _ _ r hx hlock hraw hsame =>
    h.state x t _ raw r hx hlock hraw (.inl hsame.status) hsame.expiresAt) _ _ _

theorem KeptByStatus.start (h : KeptByStatus I) (options : StartActiveSessionOptions) :
    LockSafe process I t (fun _ _ => True) (fun _ _ => True) (startActiveSession t options)
      P :=
  (startActiveSession_safe h.room.quiet (.of_const True) (true_own _) (anyPast_enduring t)
    (fun _ _ _ => trivial) (fun x raw _ r hx hlock _ hraw _ _ hsame =>
      h.state x t _ raw r hx hlock hraw (.inl hsame.status) hsame.expiresAt) options).pre
    fun _ _ _ => trivial

theorem KeptByStatus.finish (h : KeptByStatus I) (roomId : String) :
    LockSafe process I t (fun _ _ => True) (fun _ _ => True) (endActiveSession t roomId none)
      P :=
  (endActiveSession_safe h.room.quiet (.of_const True) (true_own _) (anyPast_enduring t)
    (fun _ _ _ => trivial) (fun x raw r hx hlock _ hraw _ hsame =>
      h.state x t _ raw r hx hlock hraw (.inl hsame.status) hsame.expiresAt) _ _).pre
    fun _ _ _ => trivial

/-- What remains of the calls is the sending of messages. -/
theorem KeptByStatus.requests (h : KeptByStatus I)
    (hroster : ∀ x ps, I x → I (x.record (.ran t (.wroteParticipants ps)) { x.world with
      files := { x.world.files with participants := .whole ps } }))
    {A : Participant → Snapshot (World ServerMemory) RoomStep → Prop}
    {C : Snapshot (World ServerMemory) RoomStep → Prop} (hstable : LockStable process I t C)
    (hown : KeptInMemory t C)
    (hopened : LockSafe process I t (fun _ => C) (fun _ _ => True) (requireRoomOpen t o)
      fun _ => True)
    (happend : ∀ options, LockSafe process I t (fun _ _ => True) (fun _ _ => True)
      (appendMessageResult t options) C) :
    KeptByRequests process I t o A C where
  room := h.room
  roster := hroster
  stable := hstable
  own := hown
  opened := hopened
  pause auth := pauseLoop_kept h.noWrite h.room auth
  append := happend
  start := h.start
  finish := h.finish _

/-- A completion is as safe as its approval. -/
theorem completeAutoContinue_any (hI : KeptWithoutWrites I) (h : KeptByRoom I)
    (happrove : ∀ aliasName, Kept process I t (appendApproval t o aliasName))
    (cycle : Nat) : Kept process I t (completeAutoContinue t o cycle) :=
  completeAutoContinue_kept h (fireTimer_kept hI) (fun _ => synchronously_any hI _) happrove
    cycle

/-- The line of an approval is kept as any line of the system. -/
theorem appendApproval_any (h : KeptByRoom I)
    (hline : ∀ x m, I x → x.world.lock = some t → m.type = .system →
      I (x.record (.ran t (.appended m)) { x.world with
        files := { x.world.files with messages := .whole (x.world.files.log ++ [m]) } }))
    (aliasName : String) : Kept process I t (appendApproval t o aliasName) := by
  refine appendApproval_safe h ?_
  exact appendServerMessage_safe h (N := fun _ _ => True) (R := fun _ => anyPast)
    (dateNow_kept h.quiet _) (fun _ => .of_const True) (fun _ => anyPast_enduring t)
    (fun _ _ _ _ => trivial) fun _ x m hx hp hm _ _ => hline x m hx hp.lock hm

end Status

end AgentGather.Server
