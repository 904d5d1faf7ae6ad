import AgentGather.Library.Monitor
import AgentGather.Server.Closing
import AgentGather.Server.Waiting

/-!
# Notices of expiry

A caller that finds the room expired closes it and tells so in the log, in two separate steps.
What it still owes the log is followed along its steps: no caller tells of a closing that it has
not made, and none ends with a closing that it has not told, unless a step of it failed.
-/

namespace AgentGather.Server

open AgentGather.Library AgentGather.Protocol AgentGather.Storage

/-! ## Debts -/

/-- What the system tells of a room that has expired. -/
def isExpiryNotice (message : Message) : Bool :=
  message.type == .system && message.text == "room closed by ttl"

/-- How many notices a caller owes for the closings it made, and whether a step of it failed. -/
structure Debt where
  owed : Nat
  faulted : Bool
deriving DecidableEq, Repr

/-- The writing of a closed status is to be told, unless the caller was asked to close the
room.  No notice comes without a closing. -/
def noticeMonitor (asked : Bool) : Monitor RoomStep Debt where
  step d
    | .wroteState .closed r =>
        some (if asked || r.status != .closed then d else { d with owed := d.owed + 1 })
    | .appended m =>
        if isExpiryNotice m then
          if d.owed = 0 then none else some { d with owed := d.owed - 1 }
        else some d
    | _ => some d
  fault d := { d with faulted := true }

/-- Nothing is owed, unless a step failed. -/
def Debt.Settled (d : Debt) : Prop := d.owed = 0 ∨ d.faulted = true

/-- One notice is owed, unless a step failed. -/
def Debt.Owing (d : Debt) : Prop := d.owed ≠ 0 ∧ (d.owed = 1 ∨ d.faulted = true)

/-- The step is neither a closing nor a notice. -/
def plainStep : RoomStep → Bool
  | .wroteState .closed _ => false
  | .appended m => !isExpiryNotice m
  | _ => true

theorem step_of_plain {l : RoomStep} (h : plainStep l = true) (asked : Bool) (d : Debt) :
    (noticeMonitor asked).step d l = some d := by
  cases l with
  | wroteState purpose r => cases purpose <;> first | rfl | cases h
  | appended m =>
      have hm : isExpiryNotice m = false := by simpa [plainStep] using h
      simp [noticeMonitor, hm]
  | _ => rfl

/-- The room and its roster can be read. -/
def Readable (w : World ServerMemory) : Prop :=
  (∃ raw, w.files.state = .whole raw) ∧ ∃ ps, w.files.participants = .whole ps

/-- The program keeps what is known of the debt, and so it leaves it where it throws. -/
abbrev Leaves (asked : Bool) {α : Type} (D : Debt → Prop) (p : RoomProg ServerMemory α) : Prop :=
  ∀ d, D d → (noticeMonitor asked).Follows Readable (fun _ => D) (fun _ => D) p d

/-- The program pays what it owes. -/
abbrev Tidy (asked : Bool) {α : Type} (p : RoomProg ServerMemory α) : Prop :=
  Leaves asked Debt.Settled p

section Rules

variable {asked : Bool} {α β : Type} {D : Debt → Prop}

theorem settled_fault (d : Debt) : Debt.Settled ((noticeMonitor asked).fault d) := .inr rfl

theorem Leaves.ret (a : α) : Leaves asked D (.ret a) := fun _ h => h

theorem Leaves.err (e : Failure) : Leaves asked D (.err e : RoomProg ServerMemory α) :=
  fun _ h => h

theorem Leaves.bind {p : RoomProg ServerMemory α} {f : α → RoomProg ServerMemory β}
    (hp : Leaves asked D p) (hf : ∀ a, Leaves asked D (f a)) : Leaves asked D (p.bind f) :=
  fun d hd => (hp d hd).bind fun a s hs => hf a s hs

theorem Leaves.catchErr {p : RoomProg ServerMemory α} {f : Failure → RoomProg ServerMemory α}
    (hp : Leaves asked D p) (hf : ∀ e, Leaves asked D (f e)) : Leaves asked D (p.catchErr f) :=
  fun d hd => (hp d hd).catchErr fun e s hs => hf e s hs

theorem Leaves.ofExcept (r : Except Failure α) :
    Leaves asked D (Prog.ofExcept r : RoomProg ServerMemory α) :=
  fun _ hd => .ofExcept (fun _ _ => hd) fun _ _ => hd

/-- Going on with the outcome of a pure computation. -/
theorem Leaves.checked (r : Except Failure α) {f : α → RoomProg ServerMemory β}
    (hf : ∀ a, r = .ok a → Leaves asked D (f a)) : Leaves asked D ((Prog.ofExcept r).bind f) := by
  cases r with
  | ok a => exact hf a rfl
  | error e => exact Leaves.err e

/-- A step that is neither a closing nor a notice. -/
theorem Tidy.action {label : World ServerMemory → RoomStep}
    {ready : World ServerMemory → Bool} {effect : World ServerMemory → World ServerMemory}
    {result : World ServerMemory → Except Failure α}
    (hlabel : ∀ w, plainStep (label w) = true) :
    Tidy asked (Prog.action label ready effect result) :=
  fun d hd => .action (fun _ _ _ => ⟨d, step_of_plain (hlabel _) asked d, fun _ _ => hd,
    fun _ _ => hd⟩) fun _ => settled_fault d

theorem Tidy.query {label : World ServerMemory → RoomStep}
    {result : World ServerMemory → Except Failure α}
    (hlabel : ∀ w, plainStep (label w) = true) : Tidy asked (Prog.query label result) :=
  Tidy.action hlabel

theorem Tidy.update {label : World ServerMemory → RoomStep}
    {effect : World ServerMemory → World ServerMemory}
    (hlabel : ∀ w, plainStep (label w) = true) : Tidy asked (Prog.update label effect) :=
  Tidy.action hlabel

theorem Tidy.withWriterLock {t : Nat} {body : RoomProg ServerMemory α} (h : Tidy asked body) :
    Tidy asked (withWriterLock t body) :=
  Leaves.bind (Tidy.action fun _ => rfl) fun _ d hd =>
    (h d hd).finallyDo (fun _ s hs => Tidy.update (fun _ => rfl) s hs)
      fun _ s hs => Tidy.update (fun _ => rfl) s hs

theorem plainStep_process {l : RoomStep} (h : RoomStep.isProcess l = true) :
    plainStep l = true := by
  cases l <;> first | rfl | cases h

theorem tidy_synchronously (code : Nat → MemoryM α) : Tidy asked (synchronously code) :=
  Tidy.action fun _ => plainStep_process (pendingLabel_process _ _ _).2

theorem tidy_settling (code : Nat → MemoryM α) : Tidy asked (settling code) :=
  Tidy.action fun _ => plainStep_process (settledLabel_process _ _ _).2

theorem tidy_dateNow (now : Option Nat) : Tidy asked (@dateNow ServerMemory now) := by
  cases now with
  | none => exact Tidy.query fun _ => rfl
  | some now => exact Leaves.ret now

end Rules

/-! ## Programs without a notice -/

section Programs

variable {asked : Bool} {t : Nat} {o : ServerOptions} {req : Request}

theorem tidy_readRoomState : Tidy asked (@readRoomState ServerMemory) := Tidy.query fun _ => rfl

theorem tidy_readParticipants : Tidy asked (@readParticipants ServerMemory) :=
  Tidy.query fun _ => rfl

theorem tidy_readMessages : Tidy asked (@readMessages ServerMemory) := Tidy.query fun _ => rfl

theorem tidy_writeParticipants (ps : List Participant) :
    Tidy asked (@writeParticipantsFile ServerMemory ps) := Tidy.update fun _ => rfl

theorem tidy_writeState {purpose : StateWrite} (h : purpose ≠ .closed) (r : RoomState) :
    Tidy asked (@writeState ServerMemory purpose r) :=
  Tidy.update fun _ => by cases purpose <;> first | rfl | exact absurd rfl h

theorem tidy_appendJsonLine {m : Message} (h : isExpiryNotice m = false) :
    Tidy asked (@appendJsonLine ServerMemory m) :=
  (Tidy.update fun _ => by rw [plainStep, h]; rfl).bind fun _ => Tidy.update fun _ => rfl

theorem tidy_readJsonBody : Tidy asked (readJsonBody req) := Tidy.query fun _ => rfl

theorem tidy_upsertParticipant (p : Participant) :
    Tidy asked (@upsertParticipant ServerMemory t p) :=
  Leaves.checked _ fun _ _ => Tidy.withWriterLock
    (tidy_readParticipants.bind fun _ => tidy_writeParticipants _)

theorem tidy_joinParticipant (p : Participant) (staleAfterMs : Nat) (id : Option String) :
    Tidy asked (@joinParticipant ServerMemory t p staleAfterMs id) :=
  Leaves.checked _ fun _ _ => (tidy_dateNow none).bind fun _ => Tidy.withWriterLock
    (tidy_readParticipants.bind fun _ => (tidy_writeParticipants _).bind fun _ => Leaves.ret _)

/-- Another text is no notice. -/
theorem tidy_appendServerMessage {options : AppendServerMessageOptions}
    (h : options.text ≠ "room closed by ttl") :
    Tidy asked (@appendServerMessage ServerMemory t options) := by
  have hplain (state : RoomState) (ps : List Participant) (now : Nat) :
      isExpiryNotice (serverMessage state ps options.sender options.text now) = false := by
    simp [isExpiryNotice, serverMessage, buildMessage, h]
  refine Leaves.checked _ fun _ _ => Leaves.checked _ fun _ _ => (tidy_dateNow _).bind fun now =>
    Tidy.withWriterLock (tidy_readRoomState.bind fun state => tidy_readParticipants.bind
      fun ps => ?_)
  exact (tidy_appendJsonLine (hplain state ps now)).bind fun _ =>
    (tidy_writeState (by decide) _).bind fun _ => Leaves.ret _

theorem tidy_appendSystem {text : String} (h : text ≠ "room closed by ttl") :
    Tidy asked (appendSystem t o text) := tidy_appendServerMessage h

/-- What a client sends is no notice. -/
theorem tidy_appendMessageResult (options : AppendMessageOptions) :
    Tidy asked (@appendMessageResult ServerMemory t options) := by
  refine Leaves.checked _ fun _ _ => Leaves.checked _ fun _ _ =>
    Leaves.checked _ fun input hinput => (tidy_dateNow options.now).bind fun now => Tidy.withWriterLock
      (tidy_readRoomState.bind fun state => tidy_readParticipants.bind fun ps =>
        (Tidy.query fun _ => rfl).bind fun ms => Leaves.checked _ fun result hresult => ?_)
  split_ifs with hrepeat
  · exact Leaves.ret _
  · have hplain : isExpiryNotice result.message = false := by
      have htype := decideAppend_type hinput hresult (by simpa using hrepeat)
      simp [isExpiryNotice, htype]
    exact (tidy_appendJsonLine hplain).bind fun _ =>
      (tidy_writeState (by decide) _).bind fun _ => Leaves.ret _

theorem tidy_requireParticipant (allowRemoved : Bool) :
    Tidy asked (requireParticipant o req allowRemoved) := by
  unfold requireParticipant
  split
  · exact Leaves.err _
  · refine tidy_readParticipants.bind fun ps => ?_
    split
    · exact Leaves.err _
    · split_ifs
      · exact Leaves.err _
      · exact Leaves.ret _

theorem tidy_touchParticipant (p : Participant) (attention : ParticipantAttention) :
    Tidy asked (touchParticipant t p attention) :=
  (tidy_dateNow none).bind fun _ => tidy_upsertParticipant _

theorem tidy_pauseLoop (auth : Participant) : Tidy asked (pauseLoop auth) := by
  refine tidy_readRoomState.bind fun state => ?_
  dsimp only
  split_ifs
  · exact Leaves.err _
  · exact tidy_synchronously _

theorem tidy_enforceGuards (auth : Participant) : Tidy asked (enforceGuards o auth) := by
  refine Leaves.bind (tidy_synchronously _) fun outcome => ?_
  cases outcome with
  | passed => exact Leaves.ret ()
  | limitExceeded => exact tidy_pauseLoop auth

theorem tidy_updateLoopGuardPreference (options : UpdateLoopGuardPreferenceOptions) :
    Tidy asked (@updateLoopGuardPreference ServerMemory t options) := by
  refine Leaves.checked _ fun _ _ => Leaves.checked _ fun _ _ => ?_
  dsimp only
  split_ifs
  · exact Leaves.err _
  · exact (tidy_dateNow _).bind fun now => Tidy.withWriterLock
      (tidy_readRoomState.bind fun state => (tidy_writeState (by decide) _).bind fun _ =>
        Leaves.ret _)

theorem tidy_startActiveSession (options : StartActiveSessionOptions) :
    Tidy asked (@startActiveSession ServerMemory t options) := by
  refine Leaves.checked _ fun _ _ => Leaves.checked _ fun _ _ => (tidy_dateNow _).bind fun now =>
    Tidy.withWriterLock (tidy_readRoomState.bind fun state => ?_)
  split_ifs
  · exact Leaves.err _
  · exact (tidy_writeState (by decide) _).bind fun _ => Leaves.ret _

theorem tidy_endActiveSession (roomId : String) :
    Tidy asked (@endActiveSession ServerMemory t roomId none) := by
  refine Leaves.checked _ fun _ _ => (tidy_dateNow _).bind fun now =>
    Tidy.withWriterLock (tidy_readRoomState.bind fun state => ?_)
  split
  · exact Leaves.ret _
  · exact (tidy_writeState (by decide) _).bind fun _ => Leaves.ret _

theorem tidy_holdWait : Tidy asked (holdWait o) :=
  (Tidy.query fun _ => rfl).bind fun _ => Tidy.action fun _ => rfl

end Programs

/-! ## Closing -/

section Closing

variable {t : Nat} {o : ServerOptions} {req : Request}

/-- A caller that was asked to close the room owes nothing for it. -/
theorem tidy_closeRoom_asked (now : Option Nat) :
    Tidy true (@closeRoom ServerMemory t now) :=
  (tidy_dateNow now).bind fun _ => Tidy.withWriterLock <| tidy_readRoomState.bind fun _ =>
    Leaves.bind (fun d hd => .action (fun _ _ _ => ⟨d, rfl, fun _ _ => hd, fun _ _ => hd⟩)
      fun _ => settled_fault d) fun _ => Leaves.ret _

theorem Debt.Settled.owing {d : Debt} (h : d.Settled) :
    Debt.Owing { d with owed := d.owed + 1 } := by
  refine ⟨Nat.succ_ne_zero _, ?_⟩
  rcases h with h | h
  · exact .inl (congrArg (· + 1) h)
  · exact .inr h

theorem Debt.Owing.settled {d : Debt} (h : d.Owing) :
    Debt.Settled { d with owed := d.owed - 1 } := by
  rcases h.2 with hone | hfaulted
  · exact .inl (congrArg (· - 1) hone)
  · exact .inr hfaulted

/-- The program goes on to owe a notice, unless it throws with nothing owed. -/
abbrev Owes {α : Type} (D : Debt → Prop) (p : RoomProg ServerMemory α) : Prop :=
  ∀ d, D d → (noticeMonitor false).Follows Readable (fun _ => Debt.Owing)
    (fun _ => Debt.Settled) p d

/-- A step that is neither a closing nor a notice, and does not throw in a readable room. -/
theorem Owes.action {α : Type} {label : World ServerMemory → RoomStep}
    {ready : World ServerMemory → Bool} {effect : World ServerMemory → World ServerMemory}
    {result : World ServerMemory → Except Failure α} (hlabel : ∀ w, plainStep (label w) = true)
    (hok : ∀ w, Readable w → ∃ a, result w = .ok a) :
    Owes Debt.Owing (Prog.action label ready effect result) := by
  refine fun d hd => .action (fun w hw _ => ?_) fun _ => settled_fault d
  obtain ⟨a, ha⟩ := hok w hw
  refine ⟨d, step_of_plain (hlabel w) false d, fun _ _ => hd, fun e he => ?_⟩
  rw [ha] at he
  cases he

theorem owes_closeRoom : Owes Debt.Settled (@closeRoom ServerMemory t none) := by
  have hbody (now : Nat) : Owes Debt.Settled (Prog.bind (@readRoomState ServerMemory)
      fun state => (writeState .closed
        { state with activeSession := none, status := .closed, updatedAt := now }).bind
          fun _ => .ret { state with
            activeSession := none, status := .closed, updatedAt := now }) := by
    intro d hd
    refine (tidy_readRoomState d hd).bind fun state d hd => ?_
    refine Monitor.Follows.bind (Q := fun _ => Debt.Owing)
      (.action (fun w _ _ => ⟨_, rfl, fun _ _ => hd.owing, fun _ h => nomatch h⟩)
        fun _ => settled_fault d) fun _ _ howing => howing
  intro d hd
  refine (tidy_dateNow none d hd).bind fun now d hd => ?_
  refine Monitor.Follows.bind (Tidy.action (fun _ => rfl) d hd) fun _ d hd => ?_
  exact (hbody now d hd).finallyDo
    (fun _ d howing => Owes.action (fun _ => rfl) (fun _ _ => ⟨(), rfl⟩) d howing)
    fun _ d hd => Tidy.update (fun _ => rfl) d hd

/-- The notice is appended, and pays for the closing. -/
theorem pays_appendSystem (hroom : assertSafeSlug o.roomId "room id" = .ok ()) {d : Debt}
    (hd : d.Owing) :
    (noticeMonitor false).Follows Readable (fun _ => Debt.Settled) (fun _ => Debt.Settled)
      (appendSystem t o "room closed by ttl") d := by
  have hstate : Owes Debt.Owing (@readRoomState ServerMemory) :=
    Owes.action (fun _ => rfl) fun w hw => by
      obtain ⟨⟨raw, hraw⟩, -⟩ := hw
      rw [hraw]
      exact ⟨withRoomDefaults raw, rfl⟩
  have hroster : Owes Debt.Owing (@readParticipants ServerMemory) :=
    Owes.action (fun _ => rfl) fun w hw => by
      obtain ⟨-, ps, hps⟩ := hw
      rw [hps]
      exact ⟨ps, rfl⟩
  have happend (state : RoomState) (ps : List Participant) (now : Nat) {d : Debt}
      (hd : d.Owing) : (noticeMonitor false).Follows Readable (fun _ => Debt.Settled)
        (fun _ => Debt.Settled)
        (@appendJsonLine ServerMemory (serverMessage state ps "system" "room closed by ttl" now))
        d := by
    have hnotice : isExpiryNotice
        (serverMessage state ps "system" "room closed by ttl" now) = true := by
      simp [isExpiryNotice, serverMessage, buildMessage]
    have hstep : (noticeMonitor false).step d
        (.appended (serverMessage state ps "system" "room closed by ttl" now)) =
          some { d with owed := d.owed - 1 } := by
      simp only [noticeMonitor, hnotice, if_true, if_neg hd.1]
    refine Monitor.Follows.bind (.action (fun w _ _ => ⟨_, hstep, fun _ _ => hd.settled,
      fun _ h => (by cases h)⟩) fun _ => settled_fault d) fun _ d hd => ?_
    exact Tidy.update (fun _ => rfl) d hd
  have hslug : assertSafeSlug "system" "from" = .ok () := by decide +kernel
  unfold appendSystem appendServerMessage
  dsimp only
  rw [hroom, hslug]
  change (noticeMonitor false).Follows _ _ _ (Prog.bind (dateNow none) _) d
  refine Monitor.Follows.bind (Owes.action (fun _ => rfl) (fun _ _ => ⟨_, rfl⟩) d hd)
    fun now d hd => ?_
  refine Monitor.Follows.bind (Owes.action (fun _ => rfl) (fun _ _ => ⟨(), rfl⟩) d hd)
    fun _ d hd => ?_
  refine Monitor.Follows.finallyDo (Q := fun _ => Debt.Settled) ?_
    (fun _ d hd => Tidy.update (fun _ => rfl) d hd) fun _ d hd => Tidy.update (fun _ => rfl) d hd
  refine (hstate d hd).bind fun state d hd => (hroster d hd).bind fun ps d hd => ?_
  refine (happend state ps now hd).bind fun _ d hd => ?_
  exact ((tidy_writeState (by decide) _).bind fun _ => Leaves.ret _) d hd

variable (hroom : assertSafeSlug o.roomId "room id" = .ok ())

include hroom

theorem tidy_closeExpiredRoomIfNeeded : Tidy false (closeExpiredRoomIfNeeded t o) := by
  refine tidy_readRoomState.bind fun state => (tidy_dateNow none).bind fun now => ?_
  split_ifs
  · refine (tidy_synchronously _).bind fun _ d hd => ?_
    refine (owes_closeRoom d hd).bind fun closed d hd => ?_
    refine (pays_appendSystem hroom hd).bind fun _ d hd => ?_
    exact ((tidy_synchronously _).bind fun _ => Leaves.ret _) d hd
  · exact Leaves.ret _

theorem tidy_requireRoomOpen : Tidy false (requireRoomOpen t o) := by
  refine (tidy_closeExpiredRoomIfNeeded hroom).bind fun state => ?_
  split_ifs
  · exact Leaves.err _
  · exact Leaves.ret _

theorem tidy_waitSnapshot (aliasName : String) (sinceId : Nat) :
    Tidy false (waitSnapshot t o aliasName sinceId) := by
  refine (tidy_closeExpiredRoomIfNeeded hroom).bind fun state => ?_
  split_ifs
  · exact Leaves.ret _
  · refine tidy_readMessages.bind fun all => ?_
    dsimp only
    split_ifs
    · exact Leaves.ret _
    · exact Leaves.ret _

theorem tidy_waitReply (auth : Participant) : Tidy false (waitReply t o req auth) := by
  refine Leaves.checked _ fun sinceId _ => ?_
  dsimp only
  split
  · exact Leaves.err _
  split
  · exact (tidy_closeExpiredRoomIfNeeded hroom).bind fun state => Leaves.ret _
  refine (tidy_waitSnapshot hroom _ _).bind fun immediate => ?_
  cases immediate with
  | some immediate => exact Leaves.ret _
  | none =>
      refine tidy_holdWait.bind fun _ => (tidy_waitSnapshot hroom _ _).bind fun afterWait => ?_
      cases afterWait with
      | some afterWait => exact Leaves.ret _
      | none => exact Leaves.ret _

theorem tidy_getWait : Tidy false (getWait t o req) := by
  refine (tidy_requireParticipant true).bind fun auth => ?_
  dsimp only
  split
  · exact (tidy_touchParticipant auth .attending).bind fun _ => tidy_waitReply hroom auth
  · exact tidy_waitReply hroom auth

theorem tidy_postMessage : Tidy false (postMessage t o req) := by
  refine (tidy_requireParticipant false).bind fun auth => tidy_readJsonBody.bind fun body =>
    (tidy_touchParticipant auth _).bind fun _ => (tidy_requireRoomOpen hroom).bind fun _ =>
      (tidy_enforceGuards auth).bind fun _ => (tidy_appendMessageResult _).bind fun result => ?_
  split_ifs
  · exact Leaves.ret _
  · exact (tidy_synchronously _).bind fun _ => Leaves.ret _

end Closing

/-! ## Handlers -/

section Handlers

variable {asked : Bool} {t : Nat} {o : ServerOptions} {req : Request}

/-- A text with another last character is not that of the notice. -/
theorem ne_notice {s suffix : String}
    (h : (suffix.toList.getLast?.any fun c => c != 'l') = true) :
    s ++ suffix ≠ "room closed by ttl" := by
  intro heq
  have hlast := congrArg (fun text => text.toList.getLast?) heq
  obtain ⟨c, hc, hne⟩ := (Option.any_eq_true _ _).mp h
  rw [String.toList_append, List.getLast?_append, hc] at hlast
  have hnotice : "room closed by ttl".toList.getLast? = some 'l' := by decide
  rw [hnotice] at hlast
  exact bne_iff_ne.mp hne (Option.some.inj hlast)

/-- A text with another first character is not that of the notice. -/
theorem ne_notice_of_head {s rest : String}
    (h : (s.toList.head?.any fun c => c != 'r') = true) :
    s ++ rest ≠ "room closed by ttl" := by
  intro heq
  have hhead := congrArg (fun text => text.toList.head?) heq
  obtain ⟨c, hc, hne⟩ := (Option.any_eq_true _ _).mp h
  rw [String.toList_append, List.head?_append, hc] at hhead
  have hnotice : "room closed by ttl".toList.head? = some 'r' := by decide
  rw [hnotice] at hhead
  exact bne_iff_ne.mp hne (Option.some.inj hhead)

theorem ne_notice_approval (aliasName : String) :
    approvalText aliasName ≠ "room closed by ttl" := ne_notice (by decide +kernel)

theorem tidy_getMessages : Tidy asked (getMessages t o req) := by
  refine (tidy_requireParticipant false).bind fun auth => ?_
  dsimp only
  split
  · exact Leaves.err _
  · refine (tidy_touchParticipant auth _).bind fun _ => ?_
    split
    · exact Leaves.err _
    · refine Leaves.checked _ fun limit _ => tidy_readMessages.bind fun all => ?_
      split
      · exact Leaves.checked _ fun beforeId _ => Leaves.ret _
      · exact Leaves.checked _ fun sinceId _ => Leaves.ret _

theorem tidy_notified {α : Type} (reply : α) :
    Tidy asked ((synchronously fun _ => notifyWaiters).bind fun _ => .ret reply) :=
  Leaves.bind (tidy_synchronously _) fun _ => Leaves.ret _

theorem tidy_postProfile : Tidy asked (postProfile t o req) := by
  refine (tidy_requireParticipant false).bind fun auth => (tidy_synchronously _).bind fun _ =>
    tidy_readJsonBody.bind fun body => ?_
  dsimp only
  split
  · refine Leaves.checked _ fun displayName _ => tidy_readParticipants.bind fun ps => ?_
    split_ifs
    · exact Leaves.err _
    · exact Leaves.checked _ fun declared _ => (tidy_dateNow none).bind fun now =>
        (tidy_upsertParticipant _).bind fun _ => Leaves.ret _
  · exact Leaves.err _

theorem tidy_postJoin : Tidy asked (postJoin t o req) :=
  (tidy_requireParticipant false).bind fun auth => (tidy_synchronously _).bind fun _ =>
    (tidy_dateNow none).bind fun now => tidy_readJsonBody.bind fun body =>
      Leaves.checked _ fun declared _ => Leaves.checked _ fun sessionId _ =>
        (tidy_joinParticipant _ _ _).bind fun duplicate =>
          (tidy_appendSystem (ne_notice (by decide))).bind fun _ => tidy_notified _

theorem tidy_postLeave : Tidy asked (postLeave t o req) :=
  (tidy_requireParticipant false).bind fun auth => (tidy_synchronously _).bind fun _ =>
    (tidy_dateNow none).bind fun now => (tidy_upsertParticipant _).bind fun _ =>
      (tidy_appendSystem (ne_notice (by decide))).bind fun _ => tidy_notified _

theorem tidy_setLoopGuard (updatedBy : String) (enabled : Bool) (delaySeconds : Option Int) :
    Tidy asked (setLoopGuard t o updatedBy enabled delaySeconds) := by
  refine (tidy_updateLoopGuardPreference _).bind fun state => ?_
  split_ifs
  · exact (tidy_settling _).bind fun projection => Leaves.ret _
  · exact (tidy_synchronously _).bind fun projection => Leaves.ret _

theorem tidy_postLoopGuard : Tidy asked (postLoopGuard t o req) := by
  refine (tidy_requireParticipant false).bind fun auth => (tidy_synchronously _).bind fun _ =>
    Leaves.checked _ fun _ _ => tidy_readJsonBody.bind fun body => ?_
  split
  · exact Leaves.checked _ fun delaySeconds _ => tidy_setLoopGuard _ _ _
  · exact Leaves.err _

theorem tidy_startSession (auth : Participant) (body : Json) :
    Tidy asked (startSession t o auth body) := by
  unfold startSession
  dsimp only
  split_ifs
  · exact Leaves.err _
  · refine Leaves.checked _ fun duration _ => Leaves.checked _ fun mode _ => ?_
    refine Leaves.bind (Leaves.catchErr (tidy_startActiveSession _) fun e => ?_) fun session =>
      (tidy_appendSystem (ne_notice (by decide))).bind fun _ => tidy_notified _
    cases e <;> exact Leaves.err _

theorem tidy_endSession : Tidy asked (endSession t o) := by
  refine (tidy_endActiveSession _).bind fun ended => ?_
  cases ended with
  | none => exact Leaves.err _
  | some ended =>
      exact (tidy_appendSystem (ne_notice_of_head (by decide))).bind fun _ => tidy_notified _

theorem tidy_postSession (hroom : assertSafeSlug o.roomId "room id" = .ok ()) :
    Tidy false (postSession t o req) := by
  refine (tidy_requireParticipant false).bind fun auth => (tidy_synchronously _).bind fun _ =>
    Leaves.checked _ fun _ _ => (tidy_requireRoomOpen hroom).bind fun _ =>
      tidy_readJsonBody.bind fun body => ?_
  split
  · exact tidy_startSession auth body
  · exact tidy_endSession
  · exact Leaves.err _

theorem tidy_postClose : Tidy true (postClose t o req) :=
  (tidy_requireParticipant false).bind fun auth => (tidy_synchronously _).bind fun _ =>
    Leaves.checked _ fun _ _ => (tidy_synchronously _).bind fun _ =>
      (tidy_closeRoom_asked none).bind fun state =>
        (tidy_appendSystem (by decide)).bind fun _ => tidy_notified _

theorem tidy_completeAutoContinue (cycle : Nat) :
    Tidy asked (completeAutoContinue t o cycle) := by
  have hfire : Tidy asked (fireTimer cycle) := Tidy.action fun w => by split <;> rfl
  have happrove (aliasName : String) : Tidy asked (appendApproval t o aliasName) :=
    Leaves.catchErr ((tidy_appendSystem (ne_notice_approval aliasName)).bind fun _ =>
      tidy_synchronously _) fun _ => Leaves.ret _
  refine hfire.bind fun found => ?_
  cases found with
  | none => exact Leaves.ret _
  | some aliasName =>
      have hread : Tidy asked (tryCatch (some <$> readRoomState) fun _ => return none :
          RoomProg ServerMemory (Option RoomState)) :=
        Leaves.catchErr (tidy_readRoomState.bind fun _ => Leaves.ret _) fun _ => Leaves.ret _
      refine Leaves.bind hread fun state => ?_
      cases state with
      | none => exact tidy_synchronously _
      | some state =>
          refine Leaves.bind (tidy_synchronously _) fun approve => ?_
          split_ifs
          · exact happrove aliasName
          · exact Leaves.ret _

theorem tidy_roomInvite (options : RoomInviteOptions) : Tidy asked (roomInvite t o options) := by
  refine (tidy_dateNow none).bind fun now => ?_
  dsimp only
  split
  · exact Leaves.checked _ fun _ _ => tidy_upsertParticipant _
  · exact tidy_upsertParticipant _

/-- The call is the host's, to close the room. -/
def ServerCall.asksToClose : ServerCall → Bool
  | .request .postClose _ => true
  | _ => false

theorem tidy_call (hroom : assertSafeSlug o.roomId "room id" = .ok ()) (call : ServerCall) :
    Tidy call.asksToClose (call.prog o t) := by
  cases call with
  | request kind req =>
      refine Leaves.bind ?_ fun reply => Leaves.ret _
      cases kind with
      | getMessages => exact tidy_getMessages
      | postMessage => exact tidy_postMessage hroom
      | getWait => exact tidy_getWait hroom
      | postProfile => exact tidy_postProfile
      | postJoin => exact tidy_postJoin
      | postLeave => exact tidy_postLeave
      | postClose => exact tidy_postClose
      | postLoopGuard => exact tidy_postLoopGuard
      | postSession => exact tidy_postSession hroom
  | autoContinue cycle => exact (tidy_completeAutoContinue cycle).bind fun _ => Leaves.ret _
  | roomInvite options => exact (tidy_roomInvite options).bind fun _ => Leaves.ret _
  | hostWrite participant => exact (tidy_upsertParticipant participant).bind fun _ => Leaves.ret _
  | timePasses ms => exact Leaves.bind (Tidy.update fun _ => rfl) fun _ => Leaves.ret _

end Handlers

end AgentGather.Server
