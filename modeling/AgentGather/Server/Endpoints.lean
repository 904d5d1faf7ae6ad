import AgentGather.Storage.Discipline
import AgentGather.Server.Calls

/-!
# What the endpoints keep

An invariant of a served room that survives the steps every endpoint makes survives the
endpoints themselves, whatever runs between their steps.  Two kinds of step are left to
the invariant at hand: the roster write at the end of a request, of which `RequestRules`
says what it may use, and the line of a sent message.
-/

namespace AgentGather.Server

open AgentGather.Library AgentGather.Protocol AgentGather.Storage

/-! ## Approvals -/

/-- The text is that of an approval. -/
def isApprovalText (text : String) : Bool :=
  text.toList.head? == some '@' && approvalSuffix.toList.isSuffixOf text.toList

def isApproval (message : Message) : Bool :=
  message.type == .system && isApprovalText message.text

theorem isApprovalText_approvalText (aliasName : String) :
    isApprovalText (approvalText aliasName) = true := by
  simp [isApprovalText, approvalText]

theorem not_approvalText_of_head {text : String} {c : Char}
    (h : text.toList.head? = some c) (hc : c ≠ '@') : isApprovalText text = false := by
  simp [isApprovalText, h, hc]

theorem not_approvalText_of_last {text : String} {c : Char}
    (h : text.toList.getLast? = some c) (hc : c ≠ '.') : isApprovalText text = false := by
  rw [isApprovalText, Bool.and_eq_false_iff]
  right
  rw [← Bool.not_eq_true, List.isSuffixOf_iff_suffix]
  rintro ⟨s, hs⟩
  have hlast : approvalSuffix.toList.getLast? = some '.' := by decide
  rw [← hs, List.getLast?_append, hlast] at h
  exact hc (Option.some.inj h).symm

/-! ## Invariants -/

/-- For the room's status, deadline, session and preference the states are the same. -/
structure SameRoom (raw r : RoomState) : Prop where
  status : r.status = raw.status
  expiresAt : r.expiresAt = raw.expiresAt
  activeSession : r.activeSession = raw.activeSession
  autoContinueEnabled : r.autoContinueEnabled = raw.autoContinueEnabled
  autoContinueDelayS : r.autoContinueDelayS = raw.autoContinueDelayS

/-- What the endpoints share as changes of `room.json`: the room stays the same behind a
new message, or is closed. -/
inductive SharedWrite (raw r : RoomState) : StateWrite → Prop where
  | appended (same : SameRoom raw r) : SharedWrite raw r .appended
  | closed (same : SameRoom { raw with status := .closed, activeSession := none } r) :
      SharedWrite raw r .closed

theorem SharedWrite.status {raw r : RoomState} {purpose : StateWrite}
    (h : SharedWrite raw r purpose) : r.status = raw.status ∨ r.status = .closed := by
  cases h with
  | appended same => exact .inl same.status
  | closed same => exact .inr same.status

theorem SharedWrite.expiresAt {raw r : RoomState} {purpose : StateWrite}
    (h : SharedWrite raw r purpose) : r.expiresAt = raw.expiresAt := by
  cases h with
  | appended same => exact same.expiresAt
  | closed same => exact same.expiresAt

/-- The steps that endpoints share keep `I`: quiet ones, what they do to the loop guard's
cycle, if there is one, and to `room.json`, and a message of the system that is no
approval. -/
structure KeptByRoom (I : Snapshot (World ServerMemory) RoomStep → Prop) : Prop where
  quiet : KeptQuietly I
  routine : ∀ x t m, I x → RoutineStep x.world.memory m →
    I (x.record (.ran t (pendingLabel x.world.clock x.world.memory m))
      { x.world with memory := m })
  settled : ∀ x t, I x → x.world.memory.pendingAutoContinue = none →
    I (x.record (.ran t .nothingPending) x.world)
  state : ∀ x t purpose raw r, I x → x.world.lock = some t →
    x.world.files.state = .whole raw → SharedWrite raw r purpose →
    I (x.record (.ran t (.wroteState purpose r))
      { x.world with files := { x.world.files with state := .whole r } })
  system : ∀ x t m, I x → x.world.lock = some t → m.type = .system →
    isApproval m = false → I (x.record (.ran t (.appended m)) { x.world with
      files := { x.world.files with messages := .whole (x.world.files.log ++ [m]) } })

/-- An invariant that does not know the memory, and of the room at most its status and
deadline. -/
structure KeptByStatus (I : Snapshot (World ServerMemory) RoomStep → Prop) : Prop where
  noWrite : KeptWithoutWrites I
  state : ∀ x t purpose raw r, I x → x.world.lock = some t →
    x.world.files.state = .whole raw → (r.status = raw.status ∨ r.status = .closed) →
    r.expiresAt = raw.expiresAt →
    I (x.record (.ran t (.wroteState purpose r))
      { x.world with files := { x.world.files with state := .whole r } })
  system : ∀ x t m, I x → x.world.lock = some t → m.type = .system →
    isApproval m = false → I (x.record (.ran t (.appended m)) { x.world with
      files := { x.world.files with messages := .whole (x.world.files.log ++ [m]) } })

/-- A look at the clock or at the memory, or code on it. -/
def RoomStep.isProcess : RoomStep → Bool
  | .now _ => true
  | .memory => true
  | .pending _ _ => true
  | .nothingPending => true
  | .fired _ _ => true
  | _ => false

theorem pendingLabel_process (clock : Nat) (m m' : ServerMemory) :
    (pendingLabel clock m m').isWrite = false ∧
      RoomStep.isProcess (pendingLabel clock m m') = true := by
  unfold pendingLabel
  split <;> exact ⟨rfl, rfl⟩

theorem KeptByStatus.room {I : Snapshot (World ServerMemory) RoomStep → Prop}
    (h : KeptByStatus I) : KeptByRoom I where
  quiet := h.noWrite.quietly
  routine := fun x _ _ hx _ => h.noWrite x _ _ hx (pendingLabel_process _ _ _).1 rfl
  settled := fun x _ hx _ => h.noWrite x _ _ hx rfl rfl
  state := fun x t purpose raw r hx hlock hraw hr =>
    h.state x t purpose raw r hx hlock hraw hr.status hr.expiresAt
  system := h.system

/-- The program keeps `I`, from anywhere. -/
abbrev Kept (process : Nat → Nat) (I : Snapshot (World ServerMemory) RoomStep → Prop)
    (t : Nat) {α : Type} (p : RoomProg ServerMemory α) : Prop :=
  LockSafe process I t (fun _ _ => True) (fun _ _ => True) p fun _ => True

/-- A caller's assertion that its looks at the clock and its code on the memory do not
change. -/
def KeptInMemory (t : Nat) (P : Snapshot (World ServerMemory) RoomStep → Prop) : Prop :=
  KeptByOwn t (fun l => RoomStep.isProcess l = true) P

variable {process : Nat → Nat} {I : Snapshot (World ServerMemory) RoomStep → Prop}
  {t : Nat} {o : ServerOptions} {req : Request} {α β : Type}
  {P : Snapshot (World ServerMemory) RoomStep → Prop} {R : List (Event RoomStep) → Prop}

/-! ## Rules for steps without the lock -/

theorem Kept.checked {r : Except Failure α} {f : α → RoomProg ServerMemory β}
    (h : ∀ a, Kept process I t (f a)) : Kept process I t ((Prog.ofExcept r).bind f) :=
  .bind_ofExcept (fun a _ => h a) fun _ _ _ _ _ => trivial

theorem kept_query (hI : KeptQuietly I) {label : World ServerMemory → RoomStep}
    {result : World ServerMemory → Except Failure α}
    (hquiet : ∀ w : World ServerMemory, (label w).isQuiet w.clock = true) :
    Kept process I t (Prog.query label result) :=
  (look_safe hI (.of_const True) (true_own fun _ => True)
    fun w => ⟨hquiet w, trivial⟩).conseq (fun _ _ h => h) (fun _ _ _ _ => trivial)
    fun _ _ _ _ => trivial

theorem readRoomState_kept (hI : KeptQuietly I) : Kept process I t readRoomState :=
  kept_query hI fun _ => rfl

theorem readParticipants_kept (hI : KeptQuietly I) : Kept process I t readParticipants :=
  kept_query hI fun _ => rfl

theorem readMessages_kept (hI : KeptQuietly I) : Kept process I t readMessages :=
  kept_query hI fun _ => rfl

theorem dateNow_keeps (hI : KeptQuietly I) (hstable : LockStable process I t P)
    (hown : KeptInMemory t P) (now : Option Nat) :
    LockSafe process I t (fun _ => P) (fun _ => P) (dateNow now) P := by
  cases now with
  | some now => exact Contract.Safe.ret
  | none =>
      exact (look_safe hI hstable hown fun _ => ⟨beq_self_eq_true _, rfl⟩).conseq
        (fun _ _ h => h) (fun _ _ _ h => h.1) fun _ _ _ h => h

/-- The snapshot behind code that ran on the memory of `x`. -/
def ranCode (t : Nat) (code : Nat → MemoryM α) (x : Snapshot (World ServerMemory) RoomStep) :
    Snapshot (World ServerMemory) RoomStep :=
  x.record
    (.ran t (pendingLabel x.world.clock x.world.memory
      ((code x.world.clock).run.run x.world.memory).2))
    { x.world with memory := ((code x.world.clock).run.run x.world.memory).2 }

/-- Code of the process that keeps the invariant, with its outcome. -/
theorem synchronously_safe (hI : KeptQuietly I) (hstable : LockStable process I t P)
    (hown : KeptInMemory t P) {code : Nat → MemoryM α}
    (hcode : ∀ x, I x → P x → I (ranCode t code x)) :
    LockSafe process I t
      (fun a y => P y ∧ ∃ x, y = ranCode t code x ∧ I x ∧ P x ∧
        ((code x.world.clock).run.run x.world.memory).1 = .ok a)
      (fun _ => P) (synchronously code) P := by
  refine Contract.Safe.conseq (step_safe hI hstable hown ?_ ?_ ?_ ?_) (fun _ _ h => h) ?_
    fun _ _ _ h => h
  · exact fun x hx hp _ => hcode x hx hp
  · exact fun _ => pendingLabel_process _ _ _
  · exact fun _ => rfl
  · exact fun _ => rfl
  · rintro a y - ⟨hp, x, w, hy, rfl, hx, hpx, -, ha⟩
    exact ⟨hp, x, hy, hx, hpx, ha⟩

theorem synchronously_keeps (h : KeptByRoom I) (hstable : LockStable process I t P)
    (hown : KeptInMemory t P) {code : Nat → MemoryM α} (hcode : RoutineCode code) :
    LockSafe process I t (fun _ => P) (fun _ => P) (synchronously code) P :=
  (synchronously_safe h.quiet hstable hown fun x hx _ =>
    h.routine x t _ hx (hcode _ _)).conseq (fun _ _ hp => hp) (fun _ _ _ hp => hp.1)
    fun _ _ _ hp => hp

theorem settledLabel_process (clock : Nat) (m m' : ServerMemory) :
    (settledLabel clock m m').isWrite = false ∧
      RoomStep.isProcess (settledLabel clock m m') = true := by
  unfold settledLabel
  split
  · exact ⟨rfl, rfl⟩
  · exact pendingLabel_process _ _ _

/-- Code that leaves nothing pending is announced as that, or as the end of a cycle. -/
theorem settledLabel_cases {code : Nat → MemoryM α} (hcode : SettlingCode code) (clock : Nat)
    (m : ServerMemory) :
    (settledLabel clock m ((code clock).run.run m).2 = .nothingPending ∧
      m.pendingAutoContinue = none ∧ ((code clock).run.run m).2 = m) ∨
    (settledLabel clock m ((code clock).run.run m).2 = .pending clock none ∧
      ∃ p, CancelledCycle m ((code clock).run.run m).2 p) := by
  rcases hcode clock m with ⟨hnone, hsame⟩ | ⟨p, hcancelled⟩
  · left
    rw [hsame]
    exact ⟨settledLabel_none hnone clock, hnone, rfl⟩
  · exact .inr ⟨settledLabel_cancelled hcancelled clock, p, hcancelled⟩

theorem settling_step (h : KeptByRoom I) {code : Nat → MemoryM α} (hcode : SettlingCode code)
    {x : Snapshot (World ServerMemory) RoomStep} (hx : I x) :
    I (x.record
      (.ran t (settledLabel x.world.clock x.world.memory
        ((code x.world.clock).run.run x.world.memory).2))
      { x.world with memory := ((code x.world.clock).run.run x.world.memory).2 }) := by
  rcases settledLabel_cases hcode x.world.clock x.world.memory with
    ⟨hlabel, hnone, hsame⟩ | ⟨hlabel, p, hcancelled⟩
  · rw [hlabel, hsame]
    exact h.settled x t hx hnone
  · have hroutine := h.routine x t _ hx (.inr ⟨p, hcancelled⟩)
    rw [pendingLabel_cancelled hcancelled] at hroutine
    rwa [hlabel]

theorem settling_kept (h : KeptByRoom I) {code : Nat → MemoryM α} (hcode : SettlingCode code) :
    Kept process I t (settling code) :=
  step_keeps h.quiet (.of_const True) (true_own fun _ => True)
    (fun _ hx _ _ => settling_step h hcode hx)
    (fun _ => ⟨(settledLabel_process _ _ _).1, trivial⟩) (fun _ => rfl) fun _ => rfl

theorem dateNow_kept (hI : KeptQuietly I) (now : Option Nat) :
    Kept process I t (dateNow now) :=
  dateNow_keeps hI (.of_const True) (true_own _) now

theorem synchronously_kept (h : KeptByRoom I) {code : Nat → MemoryM α}
    (hcode : RoutineCode code) : Kept process I t (synchronously code) :=
  synchronously_keeps h (.of_const True) (true_own _) hcode

theorem Kept.timed (hI : KeptQuietly I) {now : Option Nat}
    {f : Nat → RoomProg ServerMemory α} (h : ∀ now, Kept process I t (f now)) :
    Kept process I t ((dateNow now).bind f) := (dateNow_kept hI now).bind h

/-! ## Closing, and messages of the system -/

/-- The files hold a room of this status. -/
def StoresStatus (status : RoomStatus) (f : RoomFiles) : Prop :=
  ∃ raw, f.state = .whole raw ∧ raw.status = status

/-- The files hold the room that was read as `r`. -/
def StoresRoom (r : RoomState) (f : RoomFiles) : Prop :=
  ∃ raw, f.state = .whole raw ∧ SameRoom raw r

theorem sameRoom_withRoomDefaults (raw : RoomState) :
    SameRoom raw (withRoomDefaults raw) := ⟨rfl, rfl, rfl, rfl, rfl⟩

/-- The room that is read is the one that is stored. -/
theorem readRoomState_stored (hI : KeptQuietly I) (hR : Enduring t R) :
    LockSafe process I t (fun r => Holding t R (StoresRoom r)) (fun _ => Locked t)
      readRoomState (Holding t R anyFiles) := by
  refine (readRoomState_holding hI hR anyFiles).conseq (fun _ _ h => h) ?_ fun _ _ _ h => h
  rintro r x - ⟨hlock, hpast, -, raw, hs, rfl⟩
  exact ⟨hlock, hpast, raw, hs, sameRoom_withRoomDefaults raw⟩

/-- `room.json` is replaced under the lock. -/
theorem writeState_stored (hI : KeptQuietly I) (hR : Enduring t R) {purpose : StateWrite}
    {r r' : RoomState}
    (hwrite : ∀ x raw, I x → x.world.lock = some t → R x.trace →
      x.world.files.state = .whole raw → SameRoom raw r →
      I (x.record (.ran t (.wroteState purpose r'))
        { x.world with files := { x.world.files with state := .whole r' } })) :
    LockSafe process I t (fun _ => Locked t) (fun _ => Locked t) (writeState purpose r')
      (Holding t R (StoresRoom r)) := by
  have hsafe : LockSafe process I t (fun _ => Holding t anyPast anyFiles)
      (fun _ => Locked t) (writeState purpose r') (Holding t R (StoresRoom r)) := by
    refine write_holding hI hR (.wroteState purpose r')
      (fun f => { f with state := .whole r' }) ?_ fun _ _ => trivial
    rintro x hx ⟨hlock, hpast, raw, hs, hsame⟩
    exact hwrite x raw hx hlock hpast hs hsame
  exact hsafe.conseq (fun _ _ hp => hp) (fun _ _ _ hp => hp.lock) fun _ _ _ hp => hp

/-- The room is replaced as endpoints share it. -/
theorem writeState_shared (h : KeptByRoom I) {purpose : StateWrite} {r r' : RoomState}
    (hr : ∀ raw, SameRoom raw r → SharedWrite raw r' purpose) :
    LockSafe process I t (fun _ => Locked t) (fun _ => Locked t) (writeState purpose r')
      (Holding t anyPast (StoresRoom r)) :=
  writeState_stored h.quiet (anyPast_enduring t) fun x raw hx hlock _ hs hsame =>
    h.state x t purpose raw r' hx hlock hs (hr raw hsame)

/-- A line of the log and the next id, under the lock. -/
theorem appendLine_holding (h : KeptByRoom I) (hR : Enduring t R) {m : Message}
    {r r' : RoomState} {a : α} (hr : ∀ raw, SameRoom raw r → SameRoom raw r')
    (hline : ∀ x, I x → Holding t R anyFiles x →
      I (x.record (.ran t (.appended m)) { x.world with
        files := { x.world.files with messages := .whole (x.world.files.log ++ [m]) } })) :
    LockSafe process I t (fun _ x => True ∧ Locked t x) (fun _ => Locked t)
      ((appendJsonLine m).bind fun _ => (writeState .appended r').bind fun _ => .ret a)
      (Holding t R (StoresRoom r)) := by
  have happended : LockSafe process I t (fun _ => Holding t anyPast (StoresRoom r))
      (fun _ => Locked t) (@appendJsonLine ServerMemory m) (Holding t R (StoresRoom r)) := by
    refine (write_holding h.quiet hR (.appended m)
      (fun f => { f with messages := .whole (f.log ++ [m]) }) ?_ ?_).bind fun _ =>
        chmod_holding h.quiet (anyPast_enduring t) _ .messages
    · exact fun x hx hp => hline x hx ⟨hp.lock, hp.past, trivial⟩
    · exact fun _ hf => hf
  refine happended.bind fun _ => ?_
  refine (writeState_shared h fun raw hraw => .appended (hr raw hraw)).bind fun _ => ?_
  exact .done fun _ _ hp => ⟨trivial, hp⟩

/-- A closed room is what closing returns. -/
theorem closeRoom_kept (h : KeptByRoom I) (now : Option Nat) :
    LockSafe process I t (fun r _ => r.status = .closed) (fun _ _ => True) (closeRoom t now)
      fun _ => True := by
  refine (dateNow_kept h.quiet now).bind fun now => ?_
  refine withWriterLock_lockSafe h.quiet (.of_const True) (fun _ _ _ => trivial)
    ((readRoomState_stored h.quiet (anyPast_enduring t)).bind fun r => ?_)
  dsimp only
  refine (writeState_shared h fun raw hraw => .closed ?_).bind fun _ =>
    .done fun _ _ hp => ⟨rfl, hp⟩
  exact ⟨rfl, hraw.expiresAt, rfl, hraw.autoContinueEnabled, hraw.autoContinueDelayS⟩

/-- `N` is what is known once the time of the message has been read, `R` what is known
under the lock. -/
theorem appendServerMessage_safe (h : KeptByRoom I) {options : AppendServerMessageOptions}
    {N : Nat → Snapshot (World ServerMemory) RoomStep → Prop}
    {R : Nat → List (Event RoomStep) → Prop}
    (hnow : LockSafe process I t N (fun _ _ => True) (dateNow options.now) P)
    (hstable : ∀ now, LockStable process I t (N now)) (hR : ∀ now, Enduring t (R now))
    (henter : ∀ now x, I x → N now x → R now (.ran t .acquired :: x.trace))
    (hline : ∀ now x m, I x → Holding t (R now) anyFiles x → m.type = .system →
      m.text = options.text → m.ts = now →
      I (x.record (.ran t (.appended m)) { x.world with
        files := { x.world.files with messages := .whole (x.world.files.log ++ [m]) } })) :
    LockSafe process I t (fun _ _ => True) (fun _ _ => True) (appendServerMessage t options)
      P := by
  refine .bind_ofExcept (fun _ _ => ?_) fun _ _ _ _ _ => trivial
  refine .bind_ofExcept (fun _ _ => ?_) fun _ _ _ _ _ => trivial
  refine hnow.bind fun now => ?_
  refine (withWriterLock_lockSafe h.quiet (hstable now) (henter now)
    ((readRoomState_stored h.quiet (hR now)).bind fun r =>
      (readParticipants_holding h.quiet (hR now) _).bind fun ps => ?_))
  dsimp only
  refine (appendLine_holding h (hR now) (r := r) (fun raw hraw => ?_) fun x hx hp => ?_).pre
    fun x _ hp => ⟨hp.lock, hp.past, hp.files.1⟩
  · exact ⟨hraw.status, hraw.expiresAt, hraw.activeSession, hraw.autoContinueEnabled,
      hraw.autoContinueDelayS⟩
  · exact hline now x _ hx hp rfl rfl rfl

/-- The system tells what happened. -/
theorem appendServerMessage_kept (h : KeptByRoom I) (options : AppendServerMessageOptions)
    (htext : isApprovalText options.text = false) :
    Kept process I t (appendServerMessage t options) := by
  refine appendServerMessage_safe h (N := fun _ _ => True) (R := fun _ => anyPast)
    (dateNow_kept h.quiet _) (fun _ => .of_const True) (fun _ => anyPast_enduring t)
    (fun _ _ _ _ => trivial) fun now x m hx hp htype hm _ => ?_
  refine h.system x t m hx hp.lock htype ?_
  rw [isApproval, hm, htext, Bool.and_false]

theorem appendSystem_kept (h : KeptByRoom I) {text : String}
    (htext : isApprovalText text = false) : Kept process I t (appendSystem t o text) :=
  appendServerMessage_kept h _ htext

/-- What is known of the state that was read is known of the state that is returned;
a room closed on the way is closed. -/
theorem closeExpiredRoomIfNeeded_safe (h : KeptByRoom I)
    {C : RoomState → Snapshot (World ServerMemory) RoomStep → Prop}
    (hread : LockSafe process I t C (fun _ _ => True) readRoomState P)
    (hstable : ∀ r, LockStable process I t (C r)) (hown : ∀ r, KeptInMemory t (C r))
    (hclosed : ∀ r x, r.status = .closed → C r x) :
    LockSafe process I t C (fun _ _ => True) (closeExpiredRoomIfNeeded t o) P := by
  refine hread.bind fun state => ?_
  refine ((dateNow_keeps h.quiet (hstable state) (hown state) none).conseq
    (fun _ _ hp => hp) (fun _ _ _ hp => hp) fun _ _ _ _ => trivial).bind fun now => ?_
  split_ifs
  · refine Contract.Safe.pre (P := fun _ => True) ?_ fun _ _ _ => trivial
    refine (synchronously_kept h cancelPendingAutoContinue_routine).bind fun _ =>
      (closeRoom_kept h none).bind fun closed => ?_
    refine Contract.Safe.pre (P := fun _ => closed.status = .closed ∧ True) ?_
      fun _ _ hp => ⟨hp, trivial⟩
    refine Contract.Safe.of_pure fun hc => ?_
    refine Contract.Safe.bind (R := fun _ _ => True)
      (appendSystem_kept h (by decide)) fun _ => ?_
    exact (synchronously_kept h notifyWaiters_routine).bind fun _ =>
      .done fun x _ _ => hclosed _ x hc
  · exact .done fun _ _ hp => hp

theorem closeExpiredRoomIfNeeded_kept (h : KeptByRoom I) :
    Kept process I t (closeExpiredRoomIfNeeded t o) :=
  closeExpiredRoomIfNeeded_safe h (readRoomState_kept h.quiet) (fun _ => .of_const True)
    (fun _ => true_own _) fun _ _ _ => trivial

theorem requireRoomOpen_kept (h : KeptByRoom I) : Kept process I t (requireRoomOpen t o) := by
  refine (closeExpiredRoomIfNeeded_kept h).bind fun state => ?_
  split
  · exact fun _ _ _ => trivial
  · exact .done fun _ _ _ => trivial

/-! ## Waiting and the guards -/

/-- Whoever gets past the guards has not looked at the room again. -/
theorem enforceGuards_safe (h : KeptByRoom I) (hstable : LockStable process I t P)
    (hown : KeptInMemory t P) {auth : Participant}
    (hpause : LockSafe process I t (fun _ _ => False) (fun _ _ => True) (pauseLoop auth) P) :
    LockSafe process I t (fun _ => P) (fun _ _ => True) (enforceGuards o auth) P := by
  refine Contract.Safe.bind (R := fun _ => P) ?_ fun outcome => ?_
  · refine (synchronously_keeps h hstable hown ?_).conseq (fun _ _ hp => hp)
      (fun _ _ _ hp => hp) fun _ _ _ _ => trivial
    exact routine_bind (fun now m => enforceRateLimit_same _ _ now m)
      fun _ => countPost_routine auth o.loopGuardLimit
  cases outcome with
  | passed => exact .done fun _ _ hp => hp
  | limitExceeded =>
      exact hpause.conseq (fun _ _ hp => hp) (fun _ _ _ hp => hp.elim) fun _ _ _ hp => hp

theorem waitSnapshot_kept (h : KeptByRoom I) (participant : String) (sinceId : Nat) :
    Kept process I t (waitSnapshot t o participant sinceId) := by
  refine (closeExpiredRoomIfNeeded_kept h).bind fun state => ?_
  split_ifs
  · exact .done fun _ _ _ => trivial
  · refine (readMessages_kept h.quiet).bind fun all => ?_
    dsimp only
    split_ifs
    · exact .done fun _ _ _ => trivial
    · exact .done fun _ _ _ => trivial

theorem holdWait_kept (hI : KeptQuietly I) : Kept process I t (holdWait o) :=
  Contract.Safe.bind (R := fun _ _ => True) (kept_query hI fun _ => rfl) fun _ =>
    step_keeps hI (.of_const True) (true_own fun _ => True)
      (fun x hx _ _ => hI x _ _ hx ⟨rfl, rfl, rfl, le_refl _⟩) (fun _ => ⟨rfl, trivial⟩)
      (fun _ => rfl) fun _ => rfl

/-! ## Sending -/

/-- The line of a sent message is kept by what holds when the lock is taken. -/
theorem appendMessageResult_safe (h : KeptByRoom I) (hstable : LockStable process I t P)
    (hown : KeptInMemory t P) (hR : Enduring t R)
    (henter : ∀ x, I x → P x → R (.ran t .acquired :: x.trace))
    (hline : ∀ x m, I x → Holding t R anyFiles x → m.type ≠ .system →
      I (x.record (.ran t (.appended m)) { x.world with
        files := { x.world.files with messages := .whole (x.world.files.log ++ [m]) } }))
    (options : AppendMessageOptions) :
    LockSafe process I t (fun _ _ => True) (fun _ _ => True) (appendMessageResult t options)
      P := by
  refine .bind_ofExcept (fun _ _ => ?_) fun _ _ _ _ _ => trivial
  refine .bind_ofExcept (fun _ _ => ?_) fun _ _ _ _ _ => trivial
  refine .bind_ofExcept (fun input hinput => ?_) fun _ _ _ _ _ => trivial
  refine Contract.Safe.bind (R := fun _ => P) ?_ fun now => ?_
  · exact (dateNow_keeps h.quiet hstable hown _).conseq (fun _ _ hp => hp)
      (fun _ _ _ hp => hp) fun _ _ _ _ => trivial
  refine withWriterLock_lockSafe h.quiet hstable henter
    ((readRoomState_stored h.quiet hR).bind fun r =>
      (readParticipants_holding h.quiet hR _).bind fun ps =>
        (readJsonLines_holding h.quiet hR _).bind fun ms => ?_)
  refine .bind_ofExcept (fun result hresult => ?_) fun _ _ _ _ hp => hp.lock
  split_ifs with hrepeat
  · exact .done fun _ _ hp => ⟨trivial, hp.lock⟩
  · refine (appendLine_holding h hR (r := r) (fun raw hraw => ?_) fun x hx hp => ?_).pre
      fun x _ hp => ⟨hp.lock, hp.past, hp.files.1.1⟩
    · exact ⟨hraw.status, hraw.expiresAt, hraw.activeSession, hraw.autoContinueEnabled,
        hraw.autoContinueDelayS⟩
    · exact hline x _ hx hp (decideAppend_type hinput hresult (by simpa using hrepeat))

/-! ## Storing a record -/

section Storing

variable {new : Participant}

/-- The roster with the record, written under the lock that it was read under. -/
theorem storeRecord_holding (hI : KeptQuietly I) (hR : Enduring t R)
    (hroster : ∀ x ps, I x → Holding t R (fun f => f.participants = .whole ps) x →
      I (x.record (.ran t (.wroteParticipants (upsertRecord ps new))) { x.world with
        files := { x.world.files with participants := .whole (upsertRecord ps new) } }))
    (ps : List Participant) :
    LockSafe process I t (fun _ => Locked t) (fun _ => Locked t)
      (writeParticipantsFile (upsertRecord ps new))
      (Holding t R fun f => True ∧ f.participants = .whole ps) := by
  have hwrite : LockSafe process I t (fun _ => Holding t anyPast anyFiles)
      (fun _ => Locked t) (writeParticipantsFile (upsertRecord ps new))
      (Holding t R fun f => True ∧ f.participants = .whole ps) := by
    refine write_holding hI hR (.wroteParticipants (upsertRecord ps new))
      (fun f => { f with participants := .whole (upsertRecord ps new) }) ?_ fun _ _ => trivial
    exact fun x hx hp => hroster x ps hx ⟨hp.lock, hp.past, hp.files.2⟩
  exact hwrite.conseq (fun _ _ hp => hp) (fun _ _ _ hp => hp.lock) fun _ _ _ hp => hp

theorem upsertParticipant_safe (hI : KeptQuietly I) (hstable : LockStable process I t P)
    (hR : Enduring t R) (henter : ∀ x, I x → P x → R (.ran t .acquired :: x.trace))
    (hroster : ∀ x ps, I x → Holding t R (fun f => f.participants = .whole ps) x →
      I (x.record (.ran t (.wroteParticipants (upsertRecord ps new))) { x.world with
        files := { x.world.files with participants := .whole (upsertRecord ps new) } })) :
    LockSafe process I t (fun _ _ => True) (fun _ _ => True) (upsertParticipant t new) P := by
  refine .bind_ofExcept (fun _ _ => ?_) fun _ _ _ _ _ => trivial
  exact withWriterLock_lockSafe hI hstable henter
    ((readParticipants_holding hI hR anyFiles).bind fun ps =>
      (storeRecord_holding hI hR hroster ps).conseq (fun _ _ hp => hp)
        (fun _ _ _ hp => ⟨trivial, hp⟩) fun _ _ _ hp => hp)

theorem joinParticipant_safe (hI : KeptQuietly I) (hstable : LockStable process I t P)
    (hown : KeptInMemory t P) (hR : Enduring t R)
    (henter : ∀ x, I x → P x → R (.ran t .acquired :: x.trace))
    (hroster : ∀ x ps, I x → Holding t R (fun f => f.participants = .whole ps) x →
      I (x.record (.ran t (.wroteParticipants (upsertRecord ps new))) { x.world with
        files := { x.world.files with participants := .whole (upsertRecord ps new) } }))
    (staleAfterMs : Nat) (sessionId : Option String) :
    LockSafe process I t (fun _ _ => True) (fun _ _ => True)
      (joinParticipant t new staleAfterMs sessionId) P := by
  refine .bind_ofExcept (fun _ _ => ?_) fun _ _ _ _ _ => trivial
  refine Contract.Safe.bind (R := fun _ => P) ?_ fun now => ?_
  · exact (dateNow_keeps hI hstable hown _).conseq (fun _ _ hp => hp)
      (fun _ _ _ hp => hp) fun _ _ _ _ => trivial
  refine withWriterLock_lockSafe hI hstable henter
    ((readParticipants_holding hI hR anyFiles).bind fun ps => ?_)
  dsimp only
  exact (storeRecord_holding hI hR hroster ps).bind fun _ =>
    .done fun _ _ hp => ⟨trivial, hp⟩

end Storing

/-! ## Requests -/

/-- What a request may use: from `S`, authentication finds a record and leaves `A` of
it; from there the record may be stored again as one that `W` relates to it. -/
structure RequestRules (process : Nat → Nat)
    (I : Snapshot (World ServerMemory) RoomStep → Prop) (t : Nat) (o : ServerOptions)
    (req : Request) (S : Snapshot (World ServerMemory) RoomStep → Prop)
    (A : Participant → Snapshot (World ServerMemory) RoomStep → Prop)
    (W : Participant → Participant → Prop) : Prop where
  lasting : ∀ auth, Contract.Lasting (A auth)
  authenticate : ∀ allowRemoved, LockSafe process I t
    (fun auth x => (allowRemoved = false → auth.removedAt = none) ∧ A auth x)
    (fun _ _ => True) (requireParticipant o req allowRemoved) S
  upsert : ∀ auth new, W auth new → LockSafe process I t (fun _ _ => True)
    (fun _ _ => True) (upsertParticipant t new) (A auth)
  join : ∀ auth new staleAfterMs sessionId, W auth new → LockSafe process I t
    (fun _ _ => True) (fun _ _ => True) (joinParticipant t new staleAfterMs sessionId) (A auth)

section Requests

variable {S : Snapshot (World ServerMemory) RoomStep → Prop}
  {A : Participant → Snapshot (World ServerMemory) RoomStep → Prop}
  {W : Participant → Participant → Prop}

/-- What the request is known to have authenticated as stays known. -/
theorem RequestRules.carry (rules : RequestRules process I t o req S A W)
    {p : RoomProg ServerMemory α} (hp : Kept process I t p) (auth : Participant) :
    LockSafe process I t (fun _ => A auth) (fun _ _ => True) p (A auth) :=
  (hp.frame (rules.lasting auth)).conseq (fun _ _ h => ⟨trivial, h⟩) (fun _ _ _ h => h.2)
    fun _ _ _ _ => trivial

/-- After authentication, as an active participant. -/
theorem RequestRules.start (rules : RequestRules process I t o req S A W)
    {f : Participant → RoomProg ServerMemory α}
    (hf : ∀ auth, auth.removedAt = none →
      LockSafe process I t (fun _ _ => True) (fun _ _ => True) (f auth) (A auth)) :
    LockSafe process I t (fun _ _ => True) (fun _ _ => True)
      ((requireParticipant o req false).bind f) S :=
  (rules.authenticate false).bind fun auth =>
    (Contract.Safe.of_pure fun h => hf auth (h rfl)).pre fun _ _ h => h

theorem RequestRules.forget (rules : RequestRules process I t o req S A W)
    {p : RoomProg ServerMemory α} (hp : Kept process I t p) (auth : Participant) :
    LockSafe process I t (fun _ _ => True) (fun _ _ => True) p (A auth) :=
  (rules.carry hp auth).conseq (fun _ _ h => h) (fun _ _ _ _ => trivial) fun _ _ _ h => h

theorem touchParticipant_safe (h : KeptByRoom I) (rules : RequestRules process I t o req S A W)
    {auth : Participant} {attention : ParticipantAttention}
    (hW : ∀ now, W auth { auth with attention, lastSeenAt := now }) :
    LockSafe process I t (fun _ => A auth) (fun _ _ => True)
      (touchParticipant t auth attention) (A auth) := by
  refine (rules.carry (dateNow_kept h.quiet none) auth).bind fun now => ?_
  exact ((rules.upsert auth _ (hW now)).frame (rules.lasting auth)).conseq
    (fun _ _ hp => ⟨hp, hp⟩) (fun _ _ _ hp => hp.2) fun _ _ _ _ => trivial

theorem getMessages_safe (h : KeptByRoom I) (rules : RequestRules process I t o req S A W)
    (hW : ∀ auth now, W auth { auth with lastSeenAt := now }) :
    LockSafe process I t (fun _ _ => True) (fun _ _ => True) (getMessages t o req) S := by
  refine rules.start fun auth _ => ?_
  dsimp only
  split
  · exact fun _ _ _ => trivial
  refine (touchParticipant_safe h rules (hW auth)).bind fun _ => ?_
  split
  · exact fun _ _ _ => trivial
  refine rules.forget (.checked fun limit => ?_) auth
  refine (readMessages_kept h.quiet).bind fun all => ?_
  cases req.param "before_id" with
  | none => exact Kept.checked fun _ => .done fun _ _ _ => trivial
  | some raw => exact Kept.checked fun _ => .done fun _ _ _ => trivial

/-- The body that was read, with what the request is known to be authenticated as. -/
theorem readJsonBody_safe (hI : KeptQuietly I)
    (rules : RequestRules process I t o req S A W) (auth : Participant) :
    LockSafe process I t (fun body x => req.body = .ok body ∧ A auth x) (fun _ _ => True)
      (readJsonBody req) (A auth) := by
  have hstable : LockStable process I t (A auth) :=
    fun e x w _ _ _ _ hx => rules.lasting auth x e w hx
  have hown : KeptInMemory t (A auth) :=
    fun x w l _ _ hx _ _ => ⟨rules.lasting auth x _ w hx, rules.lasting auth x _ w hx⟩
  refine (look_safe hI hstable hown fun _ => ⟨rfl, rfl⟩).conseq (fun _ _ h => h) ?_
    fun _ _ _ _ => trivial
  rintro body y - ⟨hp, x, w, -, -, -, -, hbody⟩
  exact ⟨hbody, hp⟩

/-- `C` is what an open room is known by when the message is appended. -/
theorem postMessage_safe (h : KeptByRoom I) (rules : RequestRules process I t o req S A W)
    (hW : ∀ auth now, W auth { auth with lastSeenAt := now })
    {C : Snapshot (World ServerMemory) RoomStep → Prop} (hstable : LockStable process I t C)
    (hown : KeptInMemory t C)
    (hopen : LockSafe process I t (fun _ => C) (fun _ _ => True) (requireRoomOpen t o)
      fun _ => True)
    (hpause : ∀ auth, LockSafe process I t (fun _ _ => False) (fun _ _ => True)
      (pauseLoop auth) fun x => C x ∧ A auth x)
    (happend : ∀ options, LockSafe process I t (fun _ _ => True) (fun _ _ => True)
      (appendMessageResult t options) C) :
    LockSafe process I t (fun _ _ => True) (fun _ _ => True) (postMessage t o req) S := by
  refine rules.start fun auth _ => ?_
  refine Contract.Safe.bind (R := fun _ => A auth) ?_ fun body => ?_
  · exact (readJsonBody_safe h.quiet rules auth).conseq (fun _ _ hp => hp)
      (fun _ _ _ hp => hp.2) fun _ _ _ hp => hp
  refine (touchParticipant_safe h rules (hW auth)).bind fun _ => ?_
  have hboth : LockStable process I t fun x => C x ∧ A auth x :=
    hstable.and fun e x w _ _ _ _ hx => rules.lasting auth x e w hx
  have hbothOwn : KeptInMemory t fun x => C x ∧ A auth x := by
    rintro x w l hl hw ⟨hc, ha⟩ hfiles hlock
    have hkept := hown x w l hl hw hc hfiles hlock
    exact ⟨⟨hkept.1, rules.lasting auth x _ w ha⟩, hkept.2, rules.lasting auth x _ w ha⟩
  have hopened : LockSafe process I t (fun _ x => C x ∧ A auth x) (fun _ _ => True)
      (requireRoomOpen t o) (A auth) :=
    (hopen.frame (rules.lasting auth)).conseq (fun _ _ hp => ⟨trivial, hp⟩)
      (fun _ _ _ hp => hp) fun _ _ _ _ => trivial
  refine hopened.bind fun _ => ?_
  refine (enforceGuards_safe h hboth hbothOwn (hpause auth)).bind fun _ => ?_
  refine ((happend _).pre fun _ _ hp => hp.1).bind fun result => ?_
  split
  · exact .done fun _ _ _ => trivial
  · exact (synchronously_kept h notifyWaiters_routine).bind fun _ =>
      .done fun _ _ _ => trivial

theorem waitReply_kept (h : KeptByRoom I) (auth : Participant) :
    Kept process I t (waitReply t o req auth) := by
  refine Kept.checked fun sinceId => ?_
  dsimp only
  split
  · exact fun _ _ _ => trivial
  split
  · exact (closeExpiredRoomIfNeeded_kept h).bind fun state => .done fun _ _ _ => trivial
  refine (waitSnapshot_kept h _ _).bind fun immediate => ?_
  cases immediate with
  | some immediate => exact .done fun _ _ _ => trivial
  | none =>
      refine (holdWait_kept h.quiet).bind fun _ => (waitSnapshot_kept h _ _).bind
        fun afterWait => ?_
      cases afterWait with
      | some afterWait => exact .done fun _ _ _ => trivial
      | none => exact .done fun _ _ _ => trivial

theorem getWait_safe (h : KeptByRoom I) (rules : RequestRules process I t o req S A W)
    (hW : ∀ auth now, W auth { auth with attention := .attending, lastSeenAt := now }) :
    LockSafe process I t (fun _ _ => True) (fun _ _ => True) (getWait t o req) S := by
  refine (rules.authenticate true).bind fun auth => ?_
  refine Contract.Safe.pre (P := A auth) ?_ fun _ _ hp => hp.2
  dsimp only
  split
  · exact (touchParticipant_safe h rules (hW auth)).bind fun _ =>
      rules.forget (waitReply_kept h auth) auth
  · exact rules.forget (waitReply_kept h auth) auth

theorem postProfile_safe (h : KeptByRoom I) (rules : RequestRules process I t o req S A W)
    (hW : ∀ auth body declared displayName now, req.body = .ok body →
      parseAttentionDeclaration body = .ok declared →
      W auth (profileRecord auth declared displayName now)) :
    LockSafe process I t (fun _ _ => True) (fun _ _ => True) (postProfile t o req) S := by
  refine rules.start fun auth _ => ?_
  refine (rules.carry
    (synchronously_kept h (enforceWriteRateLimit_routine _ _ _)) auth).bind fun _ => ?_
  refine (readJsonBody_safe h.quiet rules auth).bind fun body => .of_pure fun hbody => ?_
  split
  · refine .bind_ofExcept (fun displayName _ => ?_) fun _ _ _ _ _ => trivial
    refine (rules.carry (readParticipants_kept h.quiet) auth).bind fun participants => ?_
    dsimp only
    split
    · exact fun _ _ _ => trivial
    refine .bind_ofExcept (fun declared hdeclared => ?_) fun _ _ _ _ _ => trivial
    refine (rules.carry (dateNow_kept h.quiet _) auth).bind fun now => ?_
    exact (rules.upsert auth _ (hW auth body declared displayName now hbody hdeclared)).bind
      fun _ => .done fun _ _ _ => trivial
  · exact fun _ _ _ => trivial

theorem postJoin_safe (h : KeptByRoom I) (rules : RequestRules process I t o req S A W)
    (hW : ∀ auth body declared sessionId now, auth.removedAt = none → req.body = .ok body →
      parseAttentionDeclaration body = .ok declared →
      parseSessionId (body.field? "session_id") = .ok sessionId →
      W auth (joinRecord auth declared sessionId now)) :
    LockSafe process I t (fun _ _ => True) (fun _ _ => True) (postJoin t o req) S := by
  refine rules.start fun auth hactive => ?_
  refine (rules.carry
    (synchronously_kept h (enforceWriteRateLimit_routine _ _ _)) auth).bind fun _ => ?_
  refine (rules.carry (dateNow_kept h.quiet _) auth).bind fun now => ?_
  refine (readJsonBody_safe h.quiet rules auth).bind fun body => .of_pure fun hbody => ?_
  refine .bind_ofExcept (fun declared hdeclared => ?_) fun _ _ _ _ _ => trivial
  refine .bind_ofExcept (fun sessionId hsession => ?_) fun _ _ _ _ _ => trivial
  have hjoin := rules.join auth _ attendanceStaleAfterMs sessionId
    (hW auth body declared sessionId now hactive hbody hdeclared hsession)
  refine hjoin.bind fun _ => ?_
  have hplain : isApprovalText (auth.aliasName ++ " joined") = false :=
    not_approvalText_of_last (c := 'd') (by simp) (by decide)
  exact (appendSystem_kept h hplain).bind fun _ =>
    (synchronously_kept h notifyWaiters_routine).bind fun _ => .done fun _ _ _ => trivial

theorem postLeave_safe (h : KeptByRoom I) (rules : RequestRules process I t o req S A W)
    (hW : ∀ auth now, W auth { auth with attention := .away, lastSeenAt := now }) :
    LockSafe process I t (fun _ _ => True) (fun _ _ => True) (postLeave t o req) S := by
  refine rules.start fun auth _ => ?_
  refine (rules.carry
    (synchronously_kept h (enforceWriteRateLimit_routine _ _ _)) auth).bind fun _ => ?_
  refine (rules.carry (dateNow_kept h.quiet _) auth).bind fun now => ?_
  refine (rules.upsert auth _ (hW auth now)).bind fun _ => ?_
  have hplain : isApprovalText (auth.aliasName ++ " left") = false :=
    not_approvalText_of_last (c := 't') (by simp) (by decide)
  exact (appendSystem_kept h hplain).bind fun _ =>
    (synchronously_kept h notifyWaiters_routine).bind fun _ => .done fun _ _ _ => trivial

theorem postClose_safe (h : KeptByRoom I) (rules : RequestRules process I t o req S A W) :
    LockSafe process I t (fun _ _ => True) (fun _ _ => True) (postClose t o req) S := by
  refine rules.start fun auth _ => rules.forget ?_ auth
  refine (synchronously_kept h (enforceWriteRateLimit_routine _ _ _)).bind fun _ =>
    Kept.checked fun _ => ?_
  refine (synchronously_kept h cancelPendingAutoContinue_routine).bind fun _ => ?_
  refine ((closeRoom_kept h none).conseq (fun _ _ hp => hp) (fun _ _ _ _ => trivial)
    fun _ _ _ hp => hp).bind fun state => ?_
  exact (appendSystem_kept h (by decide)).bind fun _ =>
    (synchronously_kept h notifyWaiters_routine).bind fun _ => .done fun _ _ _ => trivial

theorem postLoopGuard_safe (h : KeptByRoom I) (rules : RequestRules process I t o req S A W)
    (hset : ∀ updatedBy enabled delaySeconds,
      Kept process I t (setLoopGuard t o updatedBy enabled delaySeconds)) :
    LockSafe process I t (fun _ _ => True) (fun _ _ => True) (postLoopGuard t o req) S := by
  refine rules.start fun auth _ => rules.forget ?_ auth
  refine (synchronously_kept h (enforceWriteRateLimit_routine _ _ _)).bind fun _ =>
    Kept.checked fun _ => (kept_query h.quiet fun _ => rfl).bind fun body => ?_
  split
  · exact Kept.checked fun delaySeconds => hset _ _ _
  · exact fun _ _ _ => trivial

/-- `C` is what an open room is known by when the session starts or ends. -/
theorem postSession_safe (h : KeptByRoom I) (rules : RequestRules process I t o req S A W)
    {C : Snapshot (World ServerMemory) RoomStep → Prop} (hstable : LockStable process I t C)
    (hown : KeptInMemory t C)
    (hopen : LockSafe process I t (fun _ => C) (fun _ _ => True) (requireRoomOpen t o)
      fun _ => True)
    (hstart : ∀ options, LockSafe process I t (fun _ _ => True) (fun _ _ => True)
      (startActiveSession t options) C)
    (hend : LockSafe process I t (fun _ _ => True) (fun _ _ => True)
      (endActiveSession t o.roomId none) C) :
    LockSafe process I t (fun _ _ => True) (fun _ _ => True) (postSession t o req) S := by
  have htold {text : String} (htext : text.toList.head? = some 'A') (reply : Reply) :
      Kept process I t ((appendSystem t o text).bind fun _ =>
        (synchronously fun _ => notifyWaiters).bind fun _ => .ret reply) :=
    (appendSystem_kept h (not_approvalText_of_head htext (by decide))).bind fun _ =>
      (synchronously_kept h notifyWaiters_routine).bind fun _ => .done fun _ _ _ => trivial
  refine rules.start fun auth _ => Contract.Safe.pre (P := fun _ => True) ?_
    fun _ _ _ => trivial
  refine (synchronously_kept h (enforceWriteRateLimit_routine _ _ _)).bind fun _ =>
    Kept.checked fun _ => hopen.bind fun _ => ?_
  refine Contract.Safe.bind (R := fun _ => C) ?_ fun body => ?_
  · exact (look_safe h.quiet hstable hown fun _ => ⟨rfl, rfl⟩).conseq (fun _ _ hp => hp)
      (fun _ _ _ hp => hp.1) fun _ _ _ _ => trivial
  split
  · unfold startSession
    dsimp only
    split
    · exact fun _ _ _ => trivial
    refine .bind_ofExcept (fun expectedDurationM _ => ?_) fun _ _ _ _ _ => trivial
    refine .bind_ofExcept (fun requestedMode _ => ?_) fun _ _ _ _ _ => trivial
    refine Contract.Safe.bind (R := fun _ _ => True) ?_ fun session => ?_
    · refine (hstart _).catchErr fun e => ?_
      split <;> exact fun _ _ _ => trivial
    · exact htold (by simp) _
  · refine hend.bind fun ended => ?_
    cases ended with
    | none => exact fun _ _ _ => trivial
    | some ended => exact htold (by simp) _
  · exact fun _ _ _ => trivial

end Requests

/-! ## Calls -/

/-- The host's invitation is kept when its roster write is. -/
theorem roomInvite_kept (hI : KeptQuietly I)
    (hwrite : ∀ new, Kept process I t (upsertParticipant t new))
    (options : RoomInviteOptions) : Kept process I t (roomInvite t o options) := by
  refine Kept.timed hI fun now => ?_
  dsimp only
  cases options.forumChannel with
  | none => exact hwrite _
  | some channel => exact Kept.checked fun _ => hwrite _

/-- Time passes. -/
theorem timePasses_kept (hI : KeptQuietly I) (ms : Nat) :
    Kept process I t ((ServerCall.timePasses ms).prog o t) :=
  Contract.Safe.bind (R := fun _ _ => True)
    (step_keeps hI (.of_const True) (true_own fun _ => True)
      (fun x hx _ _ => hI x _ _ hx ⟨rfl, rfl, rfl, Nat.le_add_right _ _⟩)
      (fun _ => ⟨rfl, trivial⟩) (fun _ => rfl) fun _ => rfl) fun _ =>
      .done fun _ _ _ => trivial

end AgentGather.Server
