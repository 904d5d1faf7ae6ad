import AgentGather.Server.ExpiryNotices
import AgentGather.Server.WaitDelivery

/-!
# A room expires once

A request looks at the expiry of the room without the lock, and then closes it and tells so, in
two separate holdings of the lock.  The status changes once.  The log has as many notices as
there were closings by expiry, and there is one notice too many for every one of these that
closes a room which is closed already.
-/

namespace AgentGather.Server

open AgentGather.Library AgentGather.Protocol AgentGather.Storage

/-! ## What the history says -/

/-- A notice is appended. -/
def announces : Event RoomStep → Bool
  | .ran _ (.appended m) => isExpiryNotice m
  | _ => false

/-- A request that was not asked to closes the room. -/
def closesByTtl (calls : List ServerCall) : Event RoomStep → Bool
  | .ran t (.wroteState .closed r) =>
      !(calls[t]?.any ServerCall.asksToClose || r.status != .closed)
  | _ => false

/-- The status that the history leaves. -/
def statusAfter (initial : RoomStatus) : List (Event RoomStep) → RoomStatus
  | [] => initial
  | .ran _ (.wroteState _ r) :: _ => r.status
  | _ :: es => statusAfter initial es

/-- How often the status has changed. -/
def statusChanges (initial : RoomStatus) : List (Event RoomStep) → Nat
  | [] => 0
  | e :: es =>
      statusChanges initial es +
        if statusAfter initial (e :: es) = statusAfter initial es then 0 else 1

/-- How often a room was closed by expiry that was open. -/
def ttlCloses (calls : List ServerCall) : List (Event RoomStep) → Nat
  | [] => 0
  | e :: es =>
      ttlCloses calls es + if closesByTtl calls e ∧ statusAfter .opened es = .opened then 1 else 0

/-- A room was closed by expiry that was closed already. -/
def closedAgain (calls : List ServerCall) : List (Event RoomStep) → Bool
  | [] => false
  | e :: es =>
      (closesByTtl calls e && statusAfter .opened es == .closed) || closedAgain calls es

theorem isRan_of_announces {e : Event RoomStep} (h : announces e = true) : e.isRan = true := by
  cases e <;> first | rfl | cases h

theorem isRan_of_closesByTtl {calls : List ServerCall} {e : Event RoomStep}
    (h : closesByTtl calls e = true) : e.isRan = true := by
  cases e <;> first | rfl | cases h

/-- The closings by expiry are those of an open room, unless a closed one was closed again. -/
theorem countP_closesByTtl (calls : List ServerCall) (es : List (Event RoomStep)) :
    ttlCloses calls es ≤ es.countP (closesByTtl calls) ∧
      (es.countP (closesByTtl calls) = ttlCloses calls es ↔ closedAgain calls es = false) := by
  induction es with
  | nil => exact ⟨Nat.le_refl 0, by simp [ttlCloses, closedAgain]⟩
  | cons e es ih =>
      rw [List.countP_cons, ttlCloses, closedAgain]
      cases hcloses : closesByTtl calls e with
      | false => simpa using ih
      | true =>
          cases hstatus : statusAfter .opened es with
          | opened => simpa using ih
          | closed =>
              obtain ⟨hle, hiff⟩ := ih
              simp
              omega

theorem countP_logged (initial : List Message) (es : List (Event RoomStep)) :
    (logged initial es).countP isExpiryNotice =
      initial.countP isExpiryNotice + es.countP announces := by
  induction es with
  | nil => rfl
  | cons e es ih =>
      rw [logged, List.countP_cons]
      rcases e with ⟨t, l⟩ | ⟨t, l⟩ | p
      · cases l with
        | appended m =>
            rw [loggedStep, List.countP_append, ih, List.countP_singleton, announces]
            omega
        | _ => simpa [loggedStep, announces] using ih
      · simpa [loggedStep, announces] using ih
      · simpa [loggedStep, announces] using ih

/-! ## What a caller owes -/

/-- The monitor of a caller. -/
abbrev callMonitor (calls : List ServerCall) (t : Nat) : Monitor RoomStep Debt :=
  noticeMonitor (calls[t]?.any ServerCall.asksToClose)

/-- A closing by expiry is owed, a notice pays. -/
theorem owed_step {calls : List ServerCall} {t : Nat} {l : RoomStep} {d d' : Debt}
    (h : (callMonitor calls t).step d l = some d') :
    d'.faulted = d.faulted ∧ (if announces (.ran t l) = true then 1 else 0) + d'.owed =
      d.owed + if closesByTtl calls (.ran t l) = true then 1 else 0 := by
  cases l with
  | wroteState purpose r =>
      cases purpose with
      | closed =>
          obtain rfl := Option.some.inj h
          have hcloses : closesByTtl calls (.ran t (.wroteState .closed r)) =
              !(calls[t]?.any ServerCall.asksToClose || r.status != .closed) := rfl
          rw [hcloses]
          cases calls[t]?.any ServerCall.asksToClose || r.status != .closed with
          | false => exact ⟨rfl, Nat.zero_add _⟩
          | true => exact ⟨rfl, Nat.zero_add _⟩
      | _ =>
          obtain rfl := Option.some.inj h
          exact ⟨rfl, Nat.zero_add _⟩
  | appended m =>
      by_cases hm : isExpiryNotice m = true
      · by_cases howed : d.owed = 0
        · simp [noticeMonitor, hm, howed] at h
        · simp only [noticeMonitor, hm, if_true, if_neg howed] at h
          obtain rfl := Option.some.inj h
          refine ⟨rfl, ?_⟩
          simp [announces, closesByTtl, hm]
          omega
      · simp only [noticeMonitor, if_neg hm] at h
        obtain rfl := Option.some.inj h
        exact ⟨rfl, by simp [announces, closesByTtl, hm]⟩
  | _ =>
      obtain rfl := Option.some.inj h
      exact ⟨rfl, Nat.zero_add _⟩

/-- What a caller owes are the closings it made and has not told. -/
theorem owed_eq {calls : List ServerCall} {t : Nat} {es : List (Event RoomStep)} {d : Debt}
    (h : (callMonitor calls t).state ⟨0, false⟩ t es = some d) :
    (es.countP fun e => announces e && e.isOf t) + d.owed =
      es.countP fun e => closesByTtl calls e && e.isOf t := by
  induction es generalizing d with
  | nil =>
      cases h
      rfl
  | cons e es ih =>
      rw [List.countP_cons, List.countP_cons]
      rcases e with ⟨u, l⟩ | ⟨u, l⟩ | p
      · rw [Monitor.state] at h
        split at h
        · rename_i hu
          subst hu
          obtain ⟨d', hd', hstep⟩ := Option.bind_eq_some_iff.mp h
          have hbefore := ih hd'
          have hown : (Event.ran u l).isOf u = true := beq_self_eq_true u
          have hpaid := (owed_step hstep).2
          simp only [hown, Bool.and_true]
          omega
        · rename_i hu
          have hother : (Event.ran u l).isOf t = false := beq_false_of_ne hu
          simp only [hother, Bool.and_false, Bool.false_eq_true, if_false, Nat.add_zero]
          exact ih h
      · rw [Monitor.state] at h
        split at h
        · obtain ⟨d', hd', rfl⟩ := Option.map_eq_some_iff.mp h
          have hbefore := ih hd'
          exact hbefore
        · exact ih h
      · exact ih h

theorem not_faulted {calls : List ServerCall} {t : Nat} {es : List (Event RoomStep)} {d : Debt}
    (h : (callMonitor calls t).state ⟨0, false⟩ t es = some d)
    (hran : ∀ e ∈ es, e.isRan = true) : d.faulted = false := by
  induction es generalizing d with
  | nil =>
      cases h
      rfl
  | cons e es ih =>
      obtain ⟨hfirst, hrest⟩ := List.forall_mem_cons.mp hran
      rcases e with ⟨u, l⟩ | ⟨u, l⟩ | p
      · rw [Monitor.state] at h
        split at h
        · obtain ⟨d', hd', hstep⟩ := Option.bind_eq_some_iff.mp h
          exact (owed_step hstep).1.trans (ih hd' hrest)
        · exact ih h hrest
      · cases hfirst
      · cases hfirst

/-! ## The status -/

/-- The stored status is the one that the history leaves, it has changed if it is closed, and
the roster can be read. -/
structure StatusInv (x : Snapshot (World ServerMemory) RoomStep) : Prop where
  stored : StoresStatus (statusAfter .opened x.trace) x.world.files
  roster : ∃ ps, x.world.files.participants = .whole ps
  changes : statusChanges .opened x.trace =
    if statusAfter .opened x.trace = .closed then 1 else 0

theorem StatusInv.readable {x : Snapshot (World ServerMemory) RoomStep} (hx : StatusInv x) :
    Readable x.world := by
  obtain ⟨raw, hraw, -⟩ := hx.stored
  exact ⟨⟨raw, hraw⟩, hx.roster⟩

theorem statusAfter_noWrite {e : Event RoomStep} (he : isWriteEvent e = false)
    (initial : RoomStatus) (es : List (Event RoomStep)) :
    statusAfter initial (e :: es) = statusAfter initial es := by
  rcases e with ⟨t, l⟩ | ⟨t, l⟩ | p
  · cases l <;> first | rfl | cases he
  · rfl
  · rfl

/-- An event that leaves the status. -/
theorem StatusInv.record {x : Snapshot (World ServerMemory) RoomStep} (hx : StatusInv x)
    {e : Event RoomStep} {w : World ServerMemory}
    (hstatus : statusAfter .opened (e :: x.trace) = statusAfter .opened x.trace)
    (hstate : w.files.state = x.world.files.state)
    (hroster : ∃ ps, w.files.participants = .whole ps) : StatusInv (x.record e w) where
  stored := by
    obtain ⟨raw, hraw, hleft⟩ := hx.stored
    exact ⟨raw, hstate.trans hraw, hleft.trans hstatus.symm⟩
  roster := hroster
  changes := by
    rw [Snapshot.record_trace, statusChanges, hstatus, if_pos rfl]
    exact hx.changes

theorem statusInv_noWrite : KeptWithoutWrites StatusInv := by
  intro x e w hx he hfiles
  refine hx.record (statusAfter_noWrite he .opened x.trace) (congrArg RoomFiles.state hfiles) ?_
  rw [hfiles]
  exact hx.roster

theorem statusInv_status : KeptByStatus StatusInv where
  noWrite := statusInv_noWrite
  state := by
    intro x t purpose raw r hx _ hraw hr _
    obtain ⟨raw', hraw', hleft⟩ := hx.stored
    obtain rfl := Stored.whole.inj (hraw.symm.trans hraw')
    refine ⟨⟨r, rfl, rfl⟩, hx.roster, ?_⟩
    have hchanges := hx.changes
    rw [Snapshot.record_trace, statusChanges, hchanges, ← hleft]
    change (_ + if r.status = raw.status then 0 else 1) = if r.status = .closed then 1 else 0
    rcases hr with hr | hr
    · rw [hr, if_pos rfl, Nat.add_zero]
    · rw [hr]
      cases raw.status <;> rfl
  system _ _ _ hx _ _ _ := hx.record rfl rfl hx.roster

theorem serving_status {process : Nat → Nat} {o : ServerOptions} {files : RoomFiles}
    {clock : Nat} {memory : ServerMemory} {calls : List ServerCall}
    (hopen : StoresStatus .opened files) (hroster : ∃ ps, files.participants = .whole ps) :
    (lockContract process StatusInv).Holds (faultySystem ServerMemory process)
      (serving o files clock memory calls) := by
  have hrequests (t : Nat) : KeptByRequests process StatusInv t o (fun _ _ => True)
      fun _ => True :=
    statusInv_status.requests (fun _ ps hx => hx.record rfl rfl ⟨ps, rfl⟩) (.of_const True)
      (true_own _) (requireRoomOpen_kept statusInv_status.room) <|
      appendMessageResult_safe statusInv_status.room (.of_const True) (true_own _)
        (anyPast_enduring t) (fun _ _ _ => trivial) fun _ m hx _ _ =>
          hx.record rfl rfl hx.roster
  refine ⟨⟨hopen, hroster, rfl⟩, fun t p hp => ?_⟩
  obtain ⟨call, -, rfl⟩ := thread_serving hp
  refine .of_safe (call_safe (hrequests t)
    (fun _ _ _ => handler_safe (hrequests t) (anyRecord_rules (hrequests t))
      fun _ => statusInv_status.loopGuard)
    (completeAutoContinue_any statusInv_noWrite statusInv_status.room
      (appendApproval_any statusInv_status.room fun _ m hx _ _ =>
        hx.record rfl rfl hx.roster))) ⟨hopen, hroster, rfl⟩ trivial

/-- A closing by expiry of an open room changes its status. -/
theorem ttlCloses_le_statusChanges (calls : List ServerCall) (es : List (Event RoomStep)) :
    ttlCloses calls es ≤ statusChanges .opened es := by
  induction es with
  | nil => exact Nat.le_refl 0
  | cons e es ih =>
      rw [ttlCloses, statusChanges]
      split
      · rename_i hcloses
        obtain ⟨hcloses, hopen⟩ := hcloses
        have hclosed : statusAfter .opened (e :: es) = .closed := by
          cases e with
          | ran t l =>
              cases l with
              | wroteState purpose r =>
                  cases purpose with
                  | closed => exact (by simpa [closesByTtl] using hcloses :
                      _ ∧ r.status = .closed).2
                  | _ => cases hcloses
              | _ => cases hcloses
          | _ => cases hcloses
        rw [hclosed, hopen]
        exact Nat.add_le_add_right ih 1
      · exact Nat.le_add_right_of_le ih

/-! ## Runs -/

section Runs

variable {process : Nat → Nat} {o : ServerOptions} {files : RoomFiles} {clock : Nat}
  {memory : ServerMemory} {calls : List ServerCall}
  {c : Config (World ServerMemory) RoomStep Failure (Option Reply)}

/-- Every call has been followed. -/
theorem serving_debts (hroom : assertSafeSlug o.roomId "room id" = .ok ())
    (hopen : StoresStatus .opened files) (hroster : ∃ ps, files.participants = .whole ps)
    (h : (faultySystem ServerMemory process).Reachable
      (serving o files clock memory calls) c) (t : Nat) :
    ∃ d, (callMonitor calls t).state ⟨0, false⟩ t c.snap.trace = some d ∧
      ∀ p, System.thread c t = some p → (callMonitor calls t).Follows Readable
        (fun _ => Debt.Settled) (fun _ => Debt.Settled) p d := by
  refine Monitor.sound (T := faultySystem ServerMemory process) (callMonitor calls)
    (Q := fun _ _ => Debt.Settled) (E := fun _ _ => Debt.Settled) rfl (fun c' h' => ?_)
    (fun u p hp => ?_) h t
  · exact (Contract.sound (serving_status hopen hroster)
      (lockContract_crashSafe statusInv_noWrite.quietly) h').1.readable
  · obtain ⟨call, hcall, rfl⟩ := thread_serving hp
    rw [callMonitor, hcall, Option.any_some]
    exact tidy_call hroom call _ (.inl rfl)

/-- A call that is over owes nothing, nor one that has not begun. -/
theorem settled_of_quiescent (hroom : assertSafeSlug o.roomId "room id" = .ok ())
    (hopen : StoresStatus .opened files) (hroster : ∃ ps, files.participants = .whole ps)
    (h : (faultySystem ServerMemory process).Reachable
      (serving o files clock memory calls) c) (hquiet : System.Quiescent c)
    (hran : ∀ e ∈ c.snap.trace, e.isRan = true) (t : Nat) :
    (c.snap.trace.countP fun e => announces e && e.isOf t) =
      c.snap.trace.countP fun e => closesByTtl calls e && e.isOf t := by
  obtain ⟨d, hd, hfollows⟩ := serving_debts hroom hopen hroster h t
  have howed := owed_eq hd
  by_cases hevents : ∃ e ∈ c.snap.trace, e.isOf t = true
  · obtain ⟨p, hp⟩ := System.thread_of_event rfl h hran hevents
    have hover : p.isOver = true := by
      rcases hquiet t p hp with hover | hnone
      · exact hover
      · obtain ⟨e, he, hof⟩ := hevents
        exact absurd hof (by simp [hnone e he])
    have hsettled : d.Settled := by
      have hends := hfollows p hp
      cases p with
      | ret a => exact hends
      | err e => exact hends
      | act => cases hover
    rcases hsettled with hnothing | hfaulted
    · omega
    · exact absurd hfaulted (by simp [not_faulted hd hran])
  · have hnone (q : Event RoomStep → Bool) :
        (c.snap.trace.countP fun e => q e && e.isOf t) = 0 := by
      refine List.countP_eq_zero.mpr fun e he hboth => hevents ⟨e, he, ?_⟩
      exact (Bool.and_eq_true_iff.mp hboth).2
    rw [hnone, hnone]

/-- The status went from open to closed once, and the log has received one notice if it was
for the expiry, and none otherwise. -/
structure ClosedOnce (calls : List ServerCall) (files : RoomFiles)
    (c : Config (World ServerMemory) RoomStep Failure (Option Reply)) : Prop where
  changes : statusChanges .opened c.snap.trace = 1
  notices : c.snap.world.files.log.countP isExpiryNotice =
    files.log.countP isExpiryNotice + ttlCloses calls c.snap.trace

/-- In every run from an open room the status changes once at most, and so often at least as an
open room is closed for its expiry.  No notice is appended without a closing of an open room, as
long as no closed room is closed again for its expiry.  When the callers are through and the room
is closed, the status has changed once and the log has received one notice if that was for the
expiry, if and only if no closed room was closed again for its expiry. -/
theorem closedOnce_iff (process : Nat → Nat) (o : ServerOptions) (files : RoomFiles)
    (clock : Nat) (memory : ServerMemory) (calls : List ServerCall)
    (c : Config (World ServerMemory) RoomStep Failure (Option Reply))
    (hroom : assertSafeSlug o.roomId "room id" = .ok ())
    (hopen : StoresStatus .opened files) (hroster : ∃ ps, files.participants = .whole ps)
    (h : (faultySystem ServerMemory process).Reachable
      (serving o files clock memory calls) c) :
    (ttlCloses calls c.snap.trace ≤ statusChanges .opened c.snap.trace ∧
      statusChanges .opened c.snap.trace ≤ 1 ∧
      (closedAgain calls c.snap.trace = false →
        c.snap.world.files.log.countP isExpiryNotice ≤
          files.log.countP isExpiryNotice + ttlCloses calls c.snap.trace)) ∧
    (System.Quiescent c → (∀ e ∈ c.snap.trace, e.isRan = true) →
      statusAfter .opened c.snap.trace = .closed →
      (ClosedOnce calls files c ↔ closedAgain calls c.snap.trace = false)) := by
  have hinv : StatusInv c.snap := (Contract.sound (serving_status hopen hroster)
    (lockContract_crashSafe statusInv_noWrite.quietly) h).1
  have hlog : c.snap.world.files.log.countP isExpiryNotice =
      files.log.countP isExpiryNotice + c.snap.trace.countP announces := by
    rw [log_serving h, countP_logged]
  have hagain := (countP_closesByTtl calls c.snap.trace).2
  refine ⟨⟨ttlCloses_le_statusChanges calls c.snap.trace, ?_, fun honce => ?_⟩,
    fun hquiet hran hclosed => ?_⟩
  · rw [hinv.changes]
    split <;> omega
  · have hle : c.snap.trace.countP announces ≤ c.snap.trace.countP (closesByTtl calls) := by
      refine countP_le_of_threads (fun _ => isRan_of_announces)
        (fun _ => isRan_of_closesByTtl) fun t => ?_
      obtain ⟨d, hd, -⟩ := serving_debts hroom hopen hroster h t
      have howed := owed_eq hd
      omega
    rw [hagain.mpr honce] at hle
    omega
  · have heq : c.snap.trace.countP announces = c.snap.trace.countP (closesByTtl calls) :=
      countP_eq_of_threads (fun _ => isRan_of_announces) (fun _ => isRan_of_closesByTtl)
        (settled_of_quiescent hroom hopen hroster h hquiet hran)
    constructor
    · rintro ⟨-, hnotices⟩
      exact hagain.mp (by omega)
    · intro honce
      refine ⟨?_, ?_⟩
      · rw [hinv.changes, if_pos hclosed]
      · rw [hlog, heq, hagain.mpr honce]

end Runs

/-- A room that has expired. -/
def expiredRoom : RoomFiles where
  state := .whole
    { CreateRoomOptions.state ⟨"r", "host", some 0, none, none, none⟩ 0 with
      expiresAt := some 0 }
  participants := .whole twoParticipants
  brief := .whole ""
  messages := .whole []

/-- The host waits, and the agent. -/
def bothWait : List ServerCall :=
  [.request .getWait ⟨some "aa", .ok (.obj []), []⟩,
   .request .getWait ⟨some "bb", .ok (.obj []), []⟩]

/-- The host's wait finds the room expired, by the general theorem. -/
theorem closedOnce_iff_hostWaits :
    ∃ c, (faultySystem ServerMemory id).Reachable
        (serving smallServer expiredRoom 0 .initial bothWait) c ∧
      ttlCloses bothWait c.snap.trace = 1 ∧ ClosedOnce bothWait expiredRoom c := by
  have hrun : ((faultySystem ServerMemory id).replay
      (serving smallServer expiredRoom 0 .initial bothWait)
      (List.replicate 23 (.run 0) ++ List.replicate 8 (.run 1))).map
      (fun c => (c.threads.all fun p => p.all Prog.isOver, c.snap.trace.all Event.isRan,
        statusAfter .opened c.snap.trace, ttlCloses bothWait c.snap.trace,
        closedAgain bothWait c.snap.trace)) = some (true, true, .closed, 1, false) := by
    decide +kernel
  obtain ⟨c, hc, hv⟩ := System.exists_reachable_of_replay hrun
  simp only [Prod.mk.injEq] at hv
  obtain ⟨hover, hran, hclosed, hcloses, honce⟩ := hv
  have hiff := (closedOnce_iff id smallServer expiredRoom 0 .initial bothWait c
    (by decide +kernel) ⟨_, rfl, rfl⟩ ⟨_, rfl⟩ hc).2 (System.quiescent_of_over hover)
    (fun e he => List.all_eq_true.mp hran e he) hclosed
  exact ⟨c, hc, hcloses, hiff.mpr honce⟩

/-- Two waits that have both found the room expired tell of it twice. -/
theorem closeExpiredRoom_twice :
    ¬ ∀ (calls : List ServerCall)
        (c : Config (World ServerMemory) RoomStep Failure (Option Reply)),
      (faultySystem ServerMemory id).Reachable
        (serving smallServer expiredRoom 0 .initial calls) c →
      System.Quiescent c → (∀ e ∈ c.snap.trace, e.isRan = true) →
      statusAfter .opened c.snap.trace = .closed → ClosedOnce calls expiredRoom c := by
  intro h
  have hrun : ((faultySystem ServerMemory id).replay
      (serving smallServer expiredRoom 0 .initial bothWait)
      (List.replicate 9 (.run 0) ++ List.replicate 23 (.run 1) ++
        List.replicate 14 (.run 0))).map
      (fun c => (c.threads.all fun p => p.all Prog.isOver, c.snap.trace.all Event.isRan,
        statusAfter .opened c.snap.trace, ttlCloses bothWait c.snap.trace,
        c.snap.world.files.log.countP isExpiryNotice)) = some (true, true, .closed, 1, 2) := by
    decide +kernel
  obtain ⟨c, hc, hv⟩ := System.exists_reachable_of_replay hrun
  simp only [Prod.mk.injEq] at hv
  obtain ⟨hover, hran, hclosed, hcloses, hnotices⟩ := hv
  have honce := (h bothWait c hc (System.quiescent_of_over hover)
    (fun e he => List.all_eq_true.mp hran e he) hclosed).notices
  rw [hcloses, hnotices] at honce
  cases honce

end AgentGather.Server
