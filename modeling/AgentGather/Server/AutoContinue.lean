import AgentGather.Server.Roster

/-!
# Cycles of the loop guard

A cycle is opened when the loop guard schedules an automatic continuation; its timer's
callback looks for a pending entry twice, before and after reading the room's state.  The
second look does not ask whose entry it finds.  In every run, each approval belongs to one
cycle and no callback drops the entry of another exactly when no cycle was opened, between
the two looks, before a callback that drops an entry.
-/

namespace AgentGather.Server

open AgentGather.Library AgentGather.Protocol AgentGather.Storage

/-! ## What the history says -/

/-- The entry that is pending; at first, none. -/
def pendingEntry : List (Event RoomStep) → Option PendingAutoContinue
  | [] => none
  | .ran _ (.pending _ entry) :: _ => entry
  | _ :: es => pendingEntry es

/-- The timer that caller `t` is the callback of: the one it first went off as. -/
def firedTimer (t : Nat) : List (Event RoomStep) → Option PendingAutoContinue
  | [] => none
  | .ran u (.fired _ timer) :: es =>
      (firedTimer t es).or (if u = t then some timer else none)
  | _ :: es => firedTimer t es

/-- A cycle was opened since the timer of caller `t` went off. -/
def openedSinceFired (t : Nat) : List (Event RoomStep) → Bool
  | [] => false
  | .ran _ (.pending _ (some _)) :: es => (firedTimer t es).isSome || openedSinceFired t es
  | _ :: es => openedSinceFired t es

/-- A callback found an entry behind its reading of the room's state, and dropped it,
although a cycle had been opened since its timer went off. -/
def droppedLater : List (Event RoomStep) → Bool :=
  happened fun t l es =>
    match l with
    | .pending _ none => openedSinceFired t es
    | _ => false

/-- A callback dropped the entry of a cycle that its timer was not set for. -/
def droppedOther : List (Event RoomStep) → Bool :=
  happened fun t l es =>
    match l with
    | .pending _ none => (firedTimer t es).any fun timer => pendingEntry es != some timer
    | _ => false

/-- Caller `t` dropped this entry. -/
def dropped (t : Nat) (entry : PendingAutoContinue) : List (Event RoomStep) → Bool :=
  happened fun u l es =>
    match l with
    | .pending _ none => u == t && pendingEntry es == some entry
    | _ => false

/-- What caller `t` saw at its last look at the room's state. -/
def lastState (t : Nat) : List (Event RoomStep) → Option (Stored RoomState)
  | [] => none
  | .ran u (.readState found) :: es => if u = t then some found else lastState t es
  | _ :: es => lastState t es

/-- A cycle was opened with this entry: by a request that authenticated as its alias and
found the preference on, for the delay that it found. -/
def opened (o : ServerOptions) (calls : List ServerCall) (entry : PendingAutoContinue) :
    List (Event RoomStep) → Bool :=
  happened fun u l es =>
    match l, calls[u]?, lastState u es with
    | .pending clock (some found), some (.request _ req), some (.whole state) =>
        found == entry && state.autoContinueEnabled == some true &&
          entry.expiresAt ==
            clock + state.autoContinueDelayS.getD autoContinueDelayDefaultS * 1000 &&
          (authenticated o req u es).any fun auth => auth.aliasName == entry.aliasName
    | _, _, _ => false

/-- The approval belongs to the cycle that its caller is the callback of: the cycle was
opened, was pending until the callback dropped it itself, its delay is over, and it is its
alias that is named. -/
def belongs (o : ServerOptions) (calls : List ServerCall) (t : Nat) (m : Message)
    (es : List (Event RoomStep)) : Bool :=
  (firedTimer t es).any fun timer =>
    opened o calls timer es && dropped t timer es && timer.expiresAt ≤ m.ts &&
      m.text == approvalText timer.aliasName

/-- Some approval belongs to no cycle. -/
def strayApproval (o : ServerOptions) (calls : List ServerCall) :
    List (Event RoomStep) → Bool :=
  happened fun t l es =>
    match l with
    | .appended m => isApproval m && !belongs o calls t m es
    | _ => false

/-! ## Events that do not concern cycles -/

/-- The event opens or ends a cycle, is a timer going off, or stores a message. -/
def ofCycle : Event RoomStep → Bool
  | .ran _ (.pending _ _) => true
  | .ran _ (.fired _ _) => true
  | .ran _ (.appended _) => true
  | _ => false

theorem ofCycle_of_quiet {e : Event RoomStep} {clock : Nat}
    (h : isQuietEvent clock e = true) : ofCycle e = false := by
  rcases e with ⟨t, l⟩ | ⟨t, l⟩ | p
  · cases l <;> first | rfl | cases h
  · rfl
  · rfl

section Besides

variable {e : Event RoomStep} (he : ofCycle e = false) (es : List (Event RoomStep))

include he

theorem pendingEntry_besides : pendingEntry (e :: es) = pendingEntry es := by
  rcases e with ⟨t, l⟩ | ⟨t, l⟩ | p
  · cases l <;> first | rfl | cases he
  · rfl
  · rfl

theorem firedTimer_besides (t : Nat) : firedTimer t (e :: es) = firedTimer t es := by
  rcases e with ⟨u, l⟩ | ⟨u, l⟩ | p
  · cases l <;> first | rfl | cases he
  · rfl
  · rfl

theorem openedSinceFired_besides (t : Nat) :
    openedSinceFired t (e :: es) = openedSinceFired t es := by
  rcases e with ⟨u, l⟩ | ⟨u, l⟩ | p
  · cases l <;> first | rfl | cases he
  · rfl
  · rfl

theorem droppedLater_besides : droppedLater (e :: es) = droppedLater es := by
  rcases e with ⟨t, l⟩ | ⟨t, l⟩ | p
  · cases l <;> first | rfl | cases he
  · rfl
  · rfl

theorem droppedOther_besides : droppedOther (e :: es) = droppedOther es := by
  rcases e with ⟨t, l⟩ | ⟨t, l⟩ | p
  · cases l <;> first | rfl | cases he
  · rfl
  · rfl

theorem opened_besides (o : ServerOptions) (calls : List ServerCall)
    (q : PendingAutoContinue) : opened o calls q (e :: es) = opened o calls q es := by
  rcases e with ⟨t, l⟩ | ⟨t, l⟩ | p
  · cases l <;> first | rfl | cases he
  · rfl
  · rfl

theorem strayApproval_besides (o : ServerOptions) (calls : List ServerCall) :
    strayApproval o calls (e :: es) = strayApproval o calls es := by
  rcases e with ⟨t, l⟩ | ⟨t, l⟩ | p
  · cases l <;> first | rfl | cases he
  · rfl
  · rfl

end Besides

/-- What a caller is the callback of is settled once and for all. -/
theorem firedTimer_cons {t : Nat} {es : List (Event RoomStep)} {q : PendingAutoContinue}
    (h : firedTimer t es = some q) (e : Event RoomStep) : firedTimer t (e :: es) = some q := by
  rcases e with ⟨u, l⟩ | ⟨u, l⟩ | p
  · cases l with
    | fired clock timer => simp [firedTimer, h]
    | _ => exact h
  · exact h
  · exact h

theorem firedTimer_foreign {process : Nat → Nat} {t : Nat} {e : Event RoomStep}
    (he : (faultySystem ServerMemory process).Foreign t e) (es : List (Event RoomStep)) :
    firedTimer t (e :: es) = firedTimer t es := by
  rcases e with ⟨u, l⟩ | ⟨u, l⟩ | p
  · cases l with
    | fired clock timer =>
        have hu : u ≠ t := he
        simp [firedTimer, hu]
    | _ => rfl
  · rfl
  · rfl

theorem isSome_firedTimer_of_openedSince {t : Nat} {es : List (Event RoomStep)}
    (h : openedSinceFired t es = true) : (firedTimer t es).isSome := by
  induction es with
  | nil => cases h
  | cons e es ih =>
      have hcons (hes : (firedTimer t es).isSome) : (firedTimer t (e :: es)).isSome := by
        obtain ⟨q, hq⟩ := Option.isSome_iff_exists.mp hes
        rw [firedTimer_cons hq]
        rfl
      apply hcons
      by_cases he : ∃ u clock p, e = .ran u (.pending clock (some p))
      · obtain ⟨u, clock, p, rfl⟩ := he
        rcases Bool.or_eq_true_iff.mp h with h | h
        · exact h
        · exact ih h
      · have hsame : openedSinceFired t (e :: es) = openedSinceFired t es := by
          rcases e with ⟨u, l⟩ | ⟨u, l⟩ | p
          · cases l with
            | pending clock entry =>
                cases entry with
                | none => rfl
                | some p => exact absurd ⟨u, clock, p, rfl⟩ he
            | _ => rfl
          · rfl
          · rfl
        exact ih (hsame ▸ h)

/-! ## The invariant -/

/-- The memory is as the history says; timers that are armed or went off were set by
cycles that were opened; and as long as no callback dropped an entry behind an opening,
what is armed is the pending entry's, a callback finds its own entry or none, and approvals
belong to their cycles. -/
structure CycleInv (o : ServerOptions) (calls : List ServerCall)
    (x : Snapshot (World ServerMemory) RoomStep) : Prop where
  pending : x.world.memory.pendingAutoContinue = pendingEntry x.trace
  fresh : ∀ q, opened o calls q x.trace = true → q.cycle < x.world.memory.cycles
  armed : ∀ q ∈ x.world.memory.timers, opened o calls q x.trace = true
  fired : ∀ t q, firedTimer t x.trace = some q → opened o calls q x.trace = true ∧
    q.expiresAt ≤ x.world.clock ∧ ∀ q' ∈ x.world.memory.timers, q'.cycle ≠ q.cycle
  own : droppedLater x.trace = false → ∀ q ∈ x.world.memory.timers,
    x.world.memory.pendingAutoContinue = some q
  found : ∀ t q, firedTimer t x.trace = some q → droppedLater x.trace = false →
    openedSinceFired t x.trace = false →
    pendingEntry x.trace = some q ∨ pendingEntry x.trace = none
  passed : ∀ t q, firedTimer t x.trace = some q → openedSinceFired t x.trace = true →
    pendingEntry x.trace ≠ some q
  others : droppedOther x.trace = droppedLater x.trace
  approvals : droppedLater x.trace = false → strayApproval o calls x.trace = false

section Invariant

variable {o : ServerOptions} {calls : List ServerCall}
  {x : Snapshot (World ServerMemory) RoomStep}

/-- A step that leaves the cycle. -/
theorem CycleInv.besides (hx : CycleInv o calls x) {e : Event RoomStep}
    (he : ofCycle e = false) {w : World ServerMemory} (hcycle : SameCycle x.world.memory w.memory)
    (hclock : x.world.clock ≤ w.clock) : CycleInv o calls (x.record e w) := by
  obtain ⟨hpending, htimers, hcycles⟩ := hcycle
  constructor
  all_goals simp only [Snapshot.record_trace, Snapshot.record_world, pendingEntry_besides he,
    firedTimer_besides he, openedSinceFired_besides he, droppedLater_besides he,
    droppedOther_besides he, opened_besides he, strayApproval_besides he, hpending, htimers,
    hcycles]
  · exact hx.pending
  · exact hx.fresh
  · exact hx.armed
  · intro t q hq
    obtain ⟨hopened, hdue, hoff⟩ := hx.fired t q hq
    exact ⟨hopened, hdue.trans hclock, hoff⟩
  · exact hx.own
  · exact hx.found
  · exact hx.passed
  · exact hx.others
  · exact hx.approvals

theorem opened_appended (q : PendingAutoContinue) (t : Nat) (m : Message)
    (es : List (Event RoomStep)) :
    opened o calls q (.ran t (.appended m) :: es) = opened o calls q es := rfl

/-- A message that is stored: an approval belongs to its cycle. -/
theorem CycleInv.append (hx : CycleInv o calls x) {t : Nat} {m : Message}
    (hm : isApproval m = true → droppedLater x.trace = false →
      belongs o calls t m x.trace = true) :
    CycleInv o calls (x.record (.ran t (.appended m)) { x.world with
      files := { x.world.files with messages := .whole (x.world.files.log ++ [m]) } }) where
  pending := hx.pending
  fresh := hx.fresh
  armed := hx.armed
  fired := hx.fired
  own := hx.own
  found := hx.found
  passed := hx.passed
  others := hx.others
  approvals := by
    intro hlater
    have hstray := hx.approvals hlater
    change ((isApproval m && !belongs o calls t m x.trace) ||
      strayApproval o calls x.trace) = false
    rw [hstray, Bool.or_false]
    cases hcase : isApproval m with
    | false => rfl
    | true => rw [hm hcase hlater]; rfl

/-- The end of a cycle: `timers` are those left. -/
theorem CycleInv.drop (hx : CycleInv o calls x) {t clock : Nat} {m : ServerMemory}
    {p : PendingAutoContinue} (hp : x.world.memory.pendingAutoContinue = some p)
    (hnone : m.pendingAutoContinue = none) (hcycles : m.cycles = x.world.memory.cycles)
    (hsub : ∀ q ∈ m.timers, q ∈ x.world.memory.timers)
    (hleft : ∀ q ∈ m.timers, droppedLater (.ran t (.pending clock none) :: x.trace) = false →
      q ≠ p) :
    CycleInv o calls (x.record (.ran t (.pending clock none)) { x.world with memory := m }) := by
  have hpending : pendingEntry x.trace = some p := hx.pending ▸ hp
  have hlater : droppedLater (.ran t (.pending clock none) :: x.trace) =
      (openedSinceFired t x.trace || droppedLater x.trace) := rfl
  constructor
  · exact hnone
  · intro q hq
    rw [Snapshot.record_world, hcycles]
    exact hx.fresh q hq
  · exact fun q hq => hx.armed q (hsub q hq)
  · intro u q hq
    obtain ⟨hopened, hdue, hoff⟩ := hx.fired u q hq
    exact ⟨hopened, hdue, fun q' hq' => hoff q' (hsub q' hq')⟩
  · intro hl q hq
    have hown := hx.own (not_happened_tail hl) q (hsub q hq)
    exact absurd (Option.some.inj (hown.symm.trans hp)) (hleft q hq hl)
  · exact fun _ _ _ _ _ => .inr rfl
  · exact fun u q _ _ h => (nomatch h)
  · have hother : droppedOther (.ran t (.pending clock none) :: x.trace) =
        ((firedTimer t x.trace).any (fun timer => pendingEntry x.trace != some timer) ||
          droppedOther x.trace) := rfl
    rw [Snapshot.record_trace, hlater, hother, hx.others]
    cases hl : droppedLater x.trace with
    | true => rw [Bool.or_true, Bool.or_true]
    | false =>
        rw [Bool.or_false, Bool.or_false]
        cases hfired : firedTimer t x.trace with
        | none =>
            cases hsince : openedSinceFired t x.trace with
            | false => rfl
            | true =>
                have hsome := isSome_firedTimer_of_openedSince hsince
                rw [hfired] at hsome
                cases hsome
        | some q =>
            cases hsince : openedSinceFired t x.trace with
            | true =>
                have hne := hx.passed t q hfired hsince
                simpa using hne
            | false =>
                rcases hx.found t q hfired hl hsince with hq | hq
                · simp [hq]
                · rw [hq] at hpending
                  cases hpending
  · intro hl
    exact hx.approvals (not_happened_tail hl)

/-- A cycle is opened. -/
theorem CycleInv.opens (hx : CycleInv o calls x) {t clock : Nat} {m : ServerMemory}
    {p : PendingAutoContinue} (hm : OpenedCycle x.world.memory m p)
    (hopened : opened o calls p (.ran t (.pending clock (some p)) :: x.trace) = true) :
    CycleInv o calls
      (x.record (.ran t (.pending clock (some p))) { x.world with memory := m }) := by
  have hkeep (q : PendingAutoContinue) (hq : opened o calls q x.trace = true) :
      opened o calls q (.ran t (.pending clock (some p)) :: x.trace) = true :=
    happened_cons hq _
  have hnew (q : PendingAutoContinue)
      (hq : opened o calls q (.ran t (.pending clock (some p)) :: x.trace) = true) :
      q = p ∨ opened o calls q x.trace = true := by
    rw [opened, happened, ← opened] at hq
    rcases Bool.or_eq_true_iff.mp hq with hq | hq
    · left
      split at hq
      · rename_i clock' found kind req state heq _ _
        obtain ⟨-, hfound⟩ := RoomStep.pending.inj heq
        obtain rfl := Option.some.inj hfound
        simp only [Bool.and_eq_true, beq_iff_eq] at hq
        exact hq.1.1.1.symm
      · cases hq
    · exact .inr hq
  have hpast : ∀ u q, firedTimer u x.trace = some q → p ≠ q := by
    rintro u q hq rfl
    have hlt := hx.fresh p (hx.fired u p hq).1
    rw [hm.cycle] at hlt
    exact Nat.lt_irrefl _ hlt
  have hunarmed : droppedLater x.trace = false → x.world.memory.timers = [] := by
    intro hl
    refine List.eq_nil_iff_forall_not_mem.mpr fun q hq => ?_
    cases (hx.own hl q hq).symm.trans hm.none
  constructor
  · exact hm.pending
  · intro q hq
    rw [Snapshot.record_world, hm.cycles]
    rcases hnew q hq with rfl | hq
    · rw [hm.cycle]
      exact Nat.lt_succ_self _
    · exact Nat.lt_succ_of_lt (hx.fresh q hq)
  · intro q hq
    rw [Snapshot.record_world, hm.timers] at hq
    rcases List.mem_append.mp hq with hq | hq
    · exact hkeep q (hx.armed q hq)
    · rw [List.mem_singleton.mp hq]
      exact hopened
  · intro u q hq
    obtain ⟨hwas, hdue, hoff⟩ := hx.fired u q hq
    refine ⟨hkeep q hwas, hdue, fun q' hq' => ?_⟩
    rw [Snapshot.record_world, hm.timers] at hq'
    rcases List.mem_append.mp hq' with hq' | hq'
    · exact hoff q' hq'
    · rw [List.mem_singleton.mp hq', hm.cycle]
      exact Nat.ne_of_gt (hx.fresh q hwas)
  · intro hl q hq
    rw [Snapshot.record_world, hm.timers, hunarmed hl] at hq
    rw [Snapshot.record_world, hm.pending, List.mem_singleton.mp hq]
  · intro u q hq _ hsince
    have hq' : firedTimer u x.trace = some q := hq
    rw [Snapshot.record_trace, openedSinceFired, hq'] at hsince
    cases hsince
  · intro u q hq _ h
    exact hpast u q hq (Option.some.inj h)
  · exact hx.others
  · exact hx.approvals

/-- A timer that is armed and due goes off. -/
theorem CycleInv.fire (hx : CycleInv o calls x) {t : Nat} {m : ServerMemory}
    {q : PendingAutoContinue} (hq : q ∈ x.world.memory.timers)
    (hdue : q.expiresAt ≤ x.world.clock)
    (hpending : m.pendingAutoContinue = x.world.memory.pendingAutoContinue)
    (hcycles : m.cycles = x.world.memory.cycles)
    (htimers : ∀ q', q' ∈ m.timers ↔ q' ∈ x.world.memory.timers ∧ q'.cycle ≠ q.cycle) :
    CycleInv o calls
      (x.record (.ran t (.fired x.world.clock q)) { x.world with memory := m }) := by
  have hcases (u : Nat) (q' : PendingAutoContinue)
      (h : firedTimer u (.ran t (.fired x.world.clock q) :: x.trace) = some q') :
      firedTimer u x.trace = some q' ∨ (firedTimer u x.trace = none ∧ q' = q) := by
    rw [firedTimer] at h
    cases hu : firedTimer u x.trace with
    | some q'' =>
        rw [hu] at h
        exact .inl h
    | none =>
        rw [hu, Option.none_or] at h
        split at h
        · exact .inr ⟨rfl, (Option.some.inj h).symm⟩
        · cases h
  have hsince (u : Nat) : openedSinceFired u (.ran t (.fired x.world.clock q) :: x.trace) =
      openedSinceFired u x.trace := rfl
  constructor
  · exact hpending.trans hx.pending
  · intro q' hq'
    rw [Snapshot.record_world, hcycles]
    exact hx.fresh q' hq'
  · exact fun q' hq' => hx.armed q' ((htimers q').mp hq').1
  · intro u q' h
    rcases hcases u q' h with h | ⟨-, rfl⟩
    · obtain ⟨hopened, hdue', hoff⟩ := hx.fired u q' h
      exact ⟨hopened, hdue', fun q'' hq'' => hoff q'' ((htimers q'').mp hq'').1⟩
    · exact ⟨hx.armed q' hq, hdue, fun q'' hq'' => ((htimers q'').mp hq'').2⟩
  · intro hl q' hq'
    rw [Snapshot.record_world, hpending]
    exact hx.own hl q' ((htimers q').mp hq').1
  · intro u q' h hl hs
    rcases hcases u q' h with h | ⟨-, rfl⟩
    · exact hx.found u q' h hl hs
    · exact .inl (hx.pending.symm.trans (hx.own hl q' hq))
  · intro u q' h hs
    rcases hcases u q' h with h | ⟨hnone, -⟩
    · exact hx.passed u q' h hs
    · have hsome := isSome_firedTimer_of_openedSince ((hsince u).symm.trans hs)
      rw [hnone] at hsome
      cases hsome
  · exact hx.others
  · exact hx.approvals

end Invariant

section Calls

variable {process : Nat → Nat} {t : Nat} {o : ServerOptions} {calls : List ServerCall}

/-- Cancelling leaves other cycles' timers armed. -/
theorem cycleInv_routine {x : Snapshot (World ServerMemory) RoomStep} {m : ServerMemory}
    (hx : CycleInv o calls x) (t : Nat) (hm : RoutineStep x.world.memory m) :
    CycleInv o calls (x.record (.ran t (pendingLabel x.world.clock x.world.memory m))
      { x.world with memory := m }) := by
  rcases hm with hsame | ⟨p, hcancelled⟩
  · rw [pendingLabel_same hsame]
    exact hx.besides rfl hsame (le_refl _)
  · rw [pendingLabel_cancelled hcancelled]
    refine hx.drop hcancelled.pending hcancelled.none hcancelled.cycles (fun q hq => ?_)
      fun q hq _ => ?_
    · rw [hcancelled.timers] at hq
      exact (List.mem_filter.mp hq).1
    · rw [hcancelled.timers] at hq
      rintro rfl
      simpa using (List.mem_filter.mp hq).2

theorem cycleInv_room : KeptByRoom (CycleInv o calls) where
  quiet := fun _ _ _ hx hstep =>
    hx.besides (ofCycle_of_quiet hstep.event)
      ⟨by rw [hstep.memory], by rw [hstep.memory], by rw [hstep.memory]⟩ hstep.clock
  routine := fun _ t _ hx hm => cycleInv_routine hx t hm
  settled := fun x _ hx _ => hx.besides rfl (.refl x.world.memory) (le_refl _)
  state := fun x _ _ _ _ hx _ _ _ => hx.besides rfl (.refl x.world.memory) (le_refl _)
  system := fun _ _ _ hx _ _ hplain => hx.append fun happroval =>
    absurd happroval (by simp [hplain])

/-! ## Requests -/

/-- What the guard reads of the room is what the history shows. -/
theorem readRoomState_last {P : Snapshot (World ServerMemory) RoomStep → Prop}
    (hP : Contract.Lasting P) :
    LockSafe process (CycleInv o calls) t
      (fun r x => (∃ raw, lastState t x.trace = some (.whole raw) ∧ SameRoom raw r) ∧ P x)
      (fun _ _ => True) readRoomState P := by
  refine Contract.Safe.action (fun e x w _ _ _ _ hp => hP x e w hp) ?_ ?_
    (fun _ _ _ _ _ _ _ => trivial) ?_
  · exact fun x hx _ _ _ =>
      keeps_quietly cycleInv_room.quiet hx ⟨rfl, rfl, rfl, le_refl _⟩ fun _ _ hu => hu
  · intro x r _ hp _ _ hread
    refine ⟨?_, hP x _ _ hp⟩
    cases hs : x.world.files.state.read with
    | error e => rw [hs] at hread; cases hread
    | ok raw =>
        rw [hs] at hread
        obtain rfl := Except.ok.inj hread
        refine ⟨raw, ?_, sameRoom_withRoomDefaults raw⟩
        rw [Snapshot.record_trace, lastState, if_pos rfl, Stored.eq_whole_of_read hs]
  · exact fun x e hx _ _ _ => ⟨keeps_failed cycleInv_room.quiet hx t _, trivial⟩

theorem lastState_foreign {e : Event RoomStep}
    (he : (faultySystem ServerMemory process).Foreign t e) (es : List (Event RoomStep)) :
    lastState t (e :: es) = lastState t es := by
  rcases e with ⟨u, l⟩ | ⟨u, l⟩ | p
  · cases l with
    | readState found =>
        have hu : u ≠ t := he
        simp [lastState, hu]
    | _ => rfl
  · rfl
  · rfl

/-- A cycle is opened for whom the request authenticated as, as the room says. -/
theorem pauseLoop_opens {kind : RequestKind} {req : Request}
    (hcall : calls[t]? = some (.request kind req)) (auth : Participant) :
    LockSafe process (CycleInv o calls) t (fun _ _ => False) (fun _ _ => True)
      (pauseLoop auth) fun x => authenticated o req t x.trace = some auth := by
  have hlasting : Contract.Lasting fun x : Snapshot (World ServerMemory) RoomStep =>
      authenticated o req t x.trace = some auth :=
    fun x e w h => authenticated_cons h e
  refine pauseLoop_safe cycleInv_room (readRoomState_last hlasting) (fun r => ?_)
    fun r x m hx hl henabled hopened => ?_
  · rintro e x w hf - - - ⟨⟨raw, hlast, hsame⟩, hauth⟩
    refine ⟨⟨raw, ?_, hsame⟩, hlasting x e w hauth⟩
    rw [Snapshot.record_trace, lastState_foreign hf]
    exact hlast
  · obtain ⟨⟨raw, hlast, hsame⟩, hauth⟩ := hl
    rw [hopened.pending]
    refine hx.opens hopened ?_
    rw [hsame.autoContinueEnabled] at henabled
    rw [hsame.autoContinueDelayS, opened, happened]
    simp [hcall, hlast, henabled, hauth]

/-- Behind an assertion about the caller, requests keep the cycles. -/
theorem cycleInv_requests {A : Participant → Snapshot (World ServerMemory) RoomStep → Prop}
    (hpause : ∀ auth, LockSafe process (CycleInv o calls) t (fun _ _ => False)
      (fun _ _ => True) (pauseLoop auth) fun x => True ∧ A auth x) :
    KeptByRequests process (CycleInv o calls) t o A fun _ => True where
  room := cycleInv_room
  roster := fun x _ hx => hx.besides rfl (.refl x.world.memory) (le_refl _)
  stable := .of_const True
  own := true_own _
  opened := requireRoomOpen_kept cycleInv_room
  pause := hpause
  append options := by
    refine appendMessageResult_safe cycleInv_room (.of_const True) (true_own _)
      (anyPast_enduring t) (fun _ _ _ => trivial) (fun x m hx _ hm => ?_) options
    exact hx.append fun happroval => absurd happroval (by simp [isApproval, hm])
  start options := startActiveSession_safe cycleInv_room.quiet (.of_const True) (true_own _)
    (anyPast_enduring t) (fun _ _ _ => trivial) (fun x _ _ _ hx _ _ _ _ _ _ =>
      hx.besides rfl (.refl x.world.memory) (le_refl _)) options
  finish := endActiveSession_safe cycleInv_room.quiet (.of_const True) (true_own _)
    (anyPast_enduring t) (fun _ _ _ => trivial) (fun x _ _ hx _ _ _ _ _ =>
      hx.besides rfl (.refl x.world.memory) (le_refl _)) _ _

theorem handler_cycle {kind : RequestKind} {req : Request}
    (hcall : calls[t]? = some (.request kind req)) :
    LockSafe process (CycleInv o calls) t (fun _ _ => True) (fun _ _ => True)
      (kind.handler t o req) fun x => firstRead t x.trace = none := by
  have hrequests : KeptByRequests process (CycleInv o calls) t o
      (fun auth x => authenticated o req t x.trace = some auth) fun _ => True :=
    cycleInv_requests fun auth => (pauseLoop_opens hcall auth).pre fun _ _ h => h.2
  refine handler_safe hrequests ?_ fun _ => setLoopGuard_kept cycleInv_room
    fun x _ _ _ _ hx _ _ _ => hx.besides rfl (.refl x.world.memory) (le_refl _)
  exact
    { lasting := fun auth x e w h => authenticated_cons h e
      authenticate := requireParticipant_safe cycleInv_room.quiet req
      upsert := fun _ new _ => (upsertParticipant_kept hrequests new).pre fun _ _ _ => trivial
      join := fun _ new staleAfterMs sessionId _ =>
        (joinParticipant_kept hrequests new staleAfterMs sessionId).pre fun _ _ _ => trivial }

/-! ## Completions -/

/-- The caller is the callback of this timer, and it dropped its entry. -/
def Completing (t : Nat) (q : PendingAutoContinue) (es : List (Event RoomStep)) : Prop :=
  firedTimer t es = some q ∧ (droppedLater es = false → dropped t q es = true)

theorem Completing.cons {q : PendingAutoContinue} {es : List (Event RoomStep)}
    (h : Completing t q es) (e : Event RoomStep) : Completing t q (e :: es) :=
  ⟨firedTimer_cons h.1 e, fun hl => happened_cons (h.2 (not_happened_tail hl)) e⟩

/-- The timer goes off. -/
theorem fireTimer_cycle (cycle : Nat) :
    LockSafe process (CycleInv o calls) t
      (fun found x => ∀ aliasName, found = some aliasName →
        ∃ q, firedTimer t x.trace = some q ∧ q.aliasName = aliasName)
      (fun _ _ => True) (fireTimer cycle) fun x => firedTimer t x.trace = none := by
  have hdue {x : Snapshot (World ServerMemory) RoomStep} {q : PendingAutoContinue}
      (h : dueTimer cycle x.world = some q) :
      q ∈ x.world.memory.timers ∧ q.cycle = cycle ∧ q.expiresAt ≤ x.world.clock := by
    have hq := List.find?_some h
    rw [Bool.and_eq_true, beq_iff_eq, decide_eq_true_eq] at hq
    exact ⟨List.mem_of_find?_eq_some h, hq⟩
  refine Contract.Safe.action ?_ ?_ ?_ (fun _ _ _ _ _ _ _ => trivial) ?_
  · intro e x w hf _ _ _ h
    rw [Snapshot.record_trace, firedTimer_foreign hf]
    exact h
  · intro x hx _ hready _
    obtain ⟨q, hq⟩ := Option.isSome_iff_exists.mp hready
    obtain ⟨hmem, rfl, htime⟩ := hdue hq
    simp only [hq]
    refine keeps_of_noWrite (hx.fire hmem htime rfl rfl fun q' => ?_) rfl rfl fun _ _ hu => hu
    simp only [List.mem_filter, decide_eq_true_eq]
  · rintro x found - hnone hready - hfound aliasName rfl
    obtain ⟨q, hq⟩ := Option.isSome_iff_exists.mp hready
    have hname := Except.ok.inj hfound
    rw [hq] at hname
    refine ⟨q, ?_, ?_⟩
    · simp [hq, firedTimer, hnone]
    · split at hname
      · exact Option.some.inj hname
      · cases hname
  · exact fun x e hx _ _ _ => ⟨keeps_failed cycleInv_room.quiet hx t _, trivial⟩

/-- The second look drops the callback's own entry, unless it drops behind an opening. -/
theorem recheckAutoContinue_cycle (q : PendingAutoContinue) (state : RoomState) :
    LockSafe process (CycleInv o calls) t
      (fun approved x => approved = true → Completing t q x.trace) (fun _ _ => True)
      (synchronously fun now => recheckAutoContinue state now)
      fun x => firedTimer t x.trace = some q := by
  have hown {x : Snapshot (World ServerMemory) RoomStep} {p : PendingAutoContinue}
      {clock : Nat} (hx : CycleInv o calls x) (hq : firedTimer t x.trace = some q)
      (hp : x.world.memory.pendingAutoContinue = some p)
      (hl : droppedLater (.ran t (.pending clock none) :: x.trace) = false) : p = q := by
    obtain ⟨hsince, hl'⟩ := Bool.or_eq_false_iff.mp hl
    rcases hx.found t q hq hl' hsince with h | h
    · exact Option.some.inj (hp.symm.trans (hx.pending.trans h))
    · cases hp.symm.trans (hx.pending.trans h)
  have hstable : LockStable process (CycleInv o calls) t
      fun x => firedTimer t x.trace = some q := fun e x w _ _ _ _ h => firedTimer_cons h e
  have hkept : KeptInMemory t fun x => firedTimer t x.trace = some q :=
    fun x w l _ _ h _ _ => ⟨firedTimer_cons h _, firedTimer_cons h _⟩
  refine (synchronously_safe cycleInv_room.quiet hstable hkept fun x hx hq => ?_).conseq (fun _ _ h => h) ?_ fun _ _ _ _ => trivial
  · unfold ranCode
    rcases recheckAutoContinue_cases state x.world.clock x.world.memory with
      ⟨-, ⟨p, hp⟩, -⟩ | ⟨-, hroutine⟩
    · rw [pendingLabel_approved hp]
      refine hx.drop hp.pending hp.none hp.cycles (fun q' hq' => hp.timers ▸ hq')
        fun q' hq' hl => ?_
      rw [hp.timers] at hq'
      rintro rfl
      exact (hx.fired t q hq).2.2 q' hq' (hown hx hq hp.pending hl ▸ rfl)
    · exact cycleInv_routine hx t hroutine
  · rintro approved y - ⟨hfired, x, rfl, hx, hq, happroved⟩ rfl
    refine ⟨hfired, fun hl => ?_⟩
    rcases recheckAutoContinue_cases state x.world.clock x.world.memory with
      ⟨-, ⟨p, hp⟩, -⟩ | ⟨hfalse, -⟩
    · rw [ranCode, Snapshot.record_trace, pendingLabel_approved hp] at hl ⊢
      have hentry := hown hx hq hp.pending hl
      have hpending : pendingEntry x.trace = some q :=
        hx.pending.symm.trans (hp.pending.trans (congrArg some hentry))
      rw [dropped, happened]
      simp [hpending]
    · rw [hfalse] at happroved
      cases happroved

/-- The approval belongs to the cycle whose entry was dropped. -/
theorem appendApproval_cycle (q : PendingAutoContinue) :
    LockSafe process (CycleInv o calls) t (fun _ _ => True) (fun _ _ => True)
      (appendApproval t o q.aliasName) fun x => Completing t q x.trace := by
  have hstable : LockStable process (CycleInv o calls) t fun x => Completing t q x.trace :=
    fun e x w _ _ _ _ h => h.cons e
  have hown : KeptInMemory t fun x => Completing t q x.trace :=
    fun x w l _ _ h _ _ => ⟨h.cons _, h.cons _⟩
  refine appendApproval_safe cycleInv_room ?_
  refine appendServerMessage_safe cycleInv_room
    (N := fun now x => q.expiresAt ≤ now ∧ Completing t q x.trace)
    (R := fun now es => q.expiresAt ≤ now ∧ Completing t q es) ?_ ?_ ?_ ?_ ?_
  · refine (look_safe cycleInv_room.quiet hstable hown fun _ =>
      ⟨beq_self_eq_true _, rfl⟩).conseq (fun _ _ h => h) ?_ fun _ _ _ _ => trivial
    rintro now y - ⟨hcompleting, x, w, -, rfl, hx, hpast, hnow⟩
    obtain rfl := Except.ok.inj hnow
    exact ⟨(hx.fired t q hpast.1).2.1, hcompleting⟩
  · exact fun now => (Contract.Stable.of_const _).and hstable
  · exact fun now e es _ _ h => ⟨h.1, h.2.cons e⟩
  · exact fun now x _ h => ⟨h.1, h.2.cons _⟩
  · rintro now x m hx ⟨-, ⟨htime, hfired, hdropped⟩, -⟩ - htext hts
    refine hx.append fun _ hl => ?_
    rw [belongs, hfired]
    simp [(hx.fired t q hfired).1, hdropped hl, hts, htime, htext]

theorem completeAutoContinue_cycle (cycle : Nat) :
    LockSafe process (CycleInv o calls) t (fun _ _ => True) (fun _ _ => True)
      (completeAutoContinue t o cycle) fun x => firedTimer t x.trace = none := by
  refine (fireTimer_cycle cycle).bind fun found => ?_
  cases found with
  | none => exact .done fun _ _ _ => trivial
  | some aliasName =>
      refine Contract.Safe.pre (P := fun x => ∃ q : PendingAutoContinue,
          q.aliasName = aliasName ∧ firedTimer t x.trace = some q)
        (.of_exists fun q => .of_pure fun hname => ?_) fun x _ h => ?_
      swap
      · obtain ⟨q, hq, hname⟩ := h aliasName rfl
        exact ⟨q, hname, hq⟩
      subst hname
      have hlasting : Contract.Lasting fun x : Snapshot (World ServerMemory) RoomStep =>
          firedTimer t x.trace = some q := fun x e w h => firedTimer_cons h e
      have hread : Kept process (CycleInv o calls) t
          (tryCatch (some <$> readRoomState) fun _ => return none) :=
        Contract.Safe.catchErr ((readRoomState_kept cycleInv_room.quiet).bind fun _ =>
          .done fun _ _ _ => trivial) fun _ => .done fun _ _ _ => trivial
      refine Contract.Safe.bind ((hread.frame hlasting).conseq (fun _ _ h => ⟨trivial, h⟩)
        (fun _ _ _ h => h.2) fun _ _ _ _ => trivial) fun found => ?_
      cases found with
      | none =>
          exact (synchronously_kept cycleInv_room cancelPendingAutoContinue_routine).pre
            fun _ _ _ => trivial
      | some state =>
          refine (recheckAutoContinue_cycle q state).bind fun approved => ?_
          split
          · rename_i happroved
            exact (appendApproval_cycle q).pre fun _ _ h => h happroved
          · exact .done fun _ _ _ => trivial

theorem call_cycle {call : ServerCall} (hcall : calls[t]? = some call) :
    LockSafe process (CycleInv o calls) t (fun _ _ => True) (fun _ _ => True)
      (call.prog o t)
      fun x => firstRead t x.trace = none ∧ firedTimer t x.trace = none := by
  have hrequests : KeptByRequests process (CycleInv o calls) t o (fun _ _ => False)
      fun _ => True := cycleInv_requests fun _ => (Contract.Safe.vacuous _).pre fun _ _ h => h.2
  refine call_safe hrequests (fun kind req hreq => ?_) fun cycle => ?_
  · exact (handler_cycle (hreq ▸ hcall)).pre fun _ _ h => h.1
  · exact (completeAutoContinue_cycle cycle).pre fun _ _ h => h.2

end Calls

/-! ## Runs -/

theorem serving_cycle {process : Nat → Nat} {o : ServerOptions} {files : RoomFiles}
    {clock : Nat} {calls : List ServerCall} :
    (lockContract process (CycleInv o calls)).Holds (faultySystem ServerMemory process)
      (serving o files clock .initial calls) := by
  have hinv : CycleInv o calls (serving o files clock .initial calls).snap := by
    constructor
    case pending => rfl
    case others => rfl
    case approvals => exact fun _ => rfl
    case fresh => exact fun _ h => nomatch h
    case armed => exact fun _ h => nomatch h
    all_goals exact fun _ _ h => nomatch h
  refine ⟨hinv, fun t p hp => ?_⟩
  obtain ⟨call, hcall, rfl⟩ := thread_serving hp
  exact .of_safe (call_cycle hcall) hinv ⟨rfl, rfl⟩

/-- In every run, approvals belong to cycles, callbacks drop no other cycle's entry and at
most the pending entry has a timer that is armed, if and only if no callback dropped an
entry behind its reading of the state although a cycle had been opened since its timer
went off. -/
theorem cycles_iff (process : Nat → Nat) (o : ServerOptions) (files : RoomFiles)
    (clock : Nat) (calls : List ServerCall)
    (c : Config (World ServerMemory) RoomStep Failure (Option Reply))
    (h : (faultySystem ServerMemory process).Reachable
      (serving o files clock .initial calls) c) :
    (strayApproval o calls c.snap.trace = false ∧ droppedOther c.snap.trace = false ∧
        ∀ timer ∈ c.snap.world.memory.timers,
          c.snap.world.memory.pendingAutoContinue = some timer) ↔
      droppedLater c.snap.trace = false := by
  have hinv := (Contract.sound serving_cycle
    (lockContract_crashSafe cycleInv_room.quiet) h).1
  constructor
  · rintro ⟨-, hothers, -⟩
    rw [← hinv.others]
    exact hothers
  · intro hlater
    exact ⟨hinv.approvals hlater, hinv.others.trans hlater, hinv.own hlater⟩

/-- Two messages of the agent each open a cycle; in between the host's message cancels the
first, whose timer has gone off. -/
def continueTwice : List ServerCall :=
  [.request .postMessage ⟨some "bb", .ok (.obj [("text", .str "on")]), []⟩,
   .timePasses 30000,
   .autoContinue 0,
   .request .postMessage ⟨some "aa", .ok (.obj [("text", .str "wait")]), []⟩,
   .request .postMessage ⟨some "bb", .ok (.obj [("text", .str "on")]), []⟩]

/-- The callback is through before the host's message, by the general theorem. -/
theorem cycles_iff_oneByOne :
    ∃ c, (faultySystem ServerMemory id).Reachable
        (serving guardingServer guardedRoom 0 .initial continueTwice) c ∧
      (droppedLater c.snap.trace = false ∧
        c.snap.world.files.log.map isApproval = [true]) ∧
      ((strayApproval guardingServer continueTwice c.snap.trace = false ∧
          droppedOther c.snap.trace = false ∧
          ∀ timer ∈ c.snap.world.memory.timers,
            c.snap.world.memory.pendingAutoContinue = some timer) ↔
        droppedLater c.snap.trace = false) := by
  have hrun : ((faultySystem ServerMemory id).replay
      (serving guardingServer guardedRoom 0 .initial continueTwice)
      (List.replicate 12 (.run 0) ++ [.run 1] ++ List.replicate 12 (.run 2))).map
      (fun c => (droppedLater c.snap.trace, c.snap.world.files.log.map isApproval)) =
      some (false, [true]) := by decide +kernel
  obtain ⟨c, hc, hv⟩ := System.exists_reachable_of_replay hrun
  exact ⟨c, hc, Prod.mk.inj hv, cycles_iff id guardingServer guardedRoom 0 continueTwice c hc⟩

/-- A callback can drop and approve a cycle that was opened while it read the state: its
own was cancelled. -/
theorem autoContinue_approves_later_cycle :
    ¬ ∀ (calls : List ServerCall)
        (c : Config (World ServerMemory) RoomStep Failure (Option Reply)),
      (faultySystem ServerMemory id).Reachable
        (serving guardingServer guardedRoom 0 .initial calls) c →
      strayApproval guardingServer calls c.snap.trace = false ∧
        droppedOther c.snap.trace = false := by
  intro h
  have hrun : ((faultySystem ServerMemory id).replay
      (serving guardingServer guardedRoom 0 .initial continueTwice)
      (List.replicate 12 (.run 0) ++ [.run 1] ++ List.replicate 2 (.run 2) ++
        List.replicate 20 (.run 3) ++ List.replicate 12 (.run 4) ++
        List.replicate 10 (.run 2))).map
      (fun c => (strayApproval guardingServer continueTwice c.snap.trace,
        droppedOther c.snap.trace)) = some (true, true) := by decide +kernel
  obtain ⟨c, hc, hv⟩ := System.exists_reachable_of_replay hrun
  have hstray := (Prod.mk.inj hv).1
  exact Bool.false_ne_true ((h continueTwice c hc).1.symm.trans hstray)

end AgentGather.Server
