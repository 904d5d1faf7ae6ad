import AgentGather.Storage.RoomStore

/-!
# The memory of a room server

What a room server keeps outside the room's files: the rate limiter's buckets, the loop
guard's counters, its pending automatic continuation and the timers, and how often waiters
were notified.  The functions run without suspension, so each is a state transformer that
may throw.
-/

namespace AgentGather.Server

open AgentGather.Library AgentGather.Protocol AgentGather.Storage

structure RateBucket where
  resetAt : Nat
  count : Nat
deriving DecidableEq, Repr

/-- `cycles` counts the timers set so far; `timers` holds the entries of those that are
armed. -/
structure ServerMemory where
  rateBuckets : List (String × RateBucket)
  loopCounts : List (String × Nat)
  pendingAutoContinue : Option PendingAutoContinue
  timers : List PendingAutoContinue
  autoContinueCount : Nat
  cycles : Nat
  notifications : Nat
deriving DecidableEq, Repr

def ServerMemory.initial : ServerMemory := ⟨[], [], none, [], 0, 0, 0⟩

/-- Synchronous code on the memory. -/
abbrev MemoryM := ExceptT Failure (StateM ServerMemory)

/-! ## The rate limiter -/

def defaultWriteRateLimit : Nat := 30

def writeRateLimits : List (String × Nat) :=
  [("brief", 20), ("close", 10), ("join", 60), ("forum/comment", 60)]

/-- Set the entry of a key, keeping the order of a map. -/
def setEntry {α : Type} (key : String) (value : α) (entries : List (String × α)) :
    List (String × α) :=
  if (entries.lookup key).isSome then
    entries.map fun e => if e.1 == key then (key, value) else e
  else entries ++ [(key, value)]

theorem lookup_setEntry {α : Type} (key : String) (value : α) (entries : List (String × α))
    (k : String) :
    (setEntry key value entries).lookup k = if k = key then some value else entries.lookup k := by
  have hmap (entries : List (String × α)) :
      (entries.map fun e => if e.1 == key then (key, value) else e).lookup k =
        if k = key then (entries.lookup k).map fun _ => value else entries.lookup k := by
    induction entries with
    | nil => simp
    | cons e entries ih =>
        rw [List.map_cons, List.lookup_cons, List.lookup_cons, ih]
        by_cases hkey : e.1 = key
        · by_cases hk : k = key
          · simp [hkey, hk]
          · have hne : (k == key) = false := beq_eq_false_iff_ne.mpr hk
            simp [hkey, hk, hne]
        · by_cases hk : k = key
          · have hne : (key == e.1) = false := beq_eq_false_iff_ne.mpr (Ne.symm hkey)
            simp [hkey, hk, hne]
          · simp [hkey, hk]
  unfold setEntry
  by_cases hk : k = key
  · subst hk
    split
    · rename_i hsome
      obtain ⟨old, hold⟩ := Option.isSome_iff_exists.mp hsome
      rw [hmap, if_pos rfl, hold]
      simp
    · rename_i hnone
      rw [Option.not_isSome_iff_eq_none] at hnone
      simp [List.lookup_append, hnone]
  · rw [if_neg hk]
    split
    · rw [hmap, if_neg hk]
    · have hne : (k == key) = false := beq_eq_false_iff_ne.mpr hk
      simp [List.lookup_append, List.lookup_cons, hne]

/-- Elapsed windows are dropped first, of every key. -/
def enforceRateLimit (key : String) (limit now : Nat) : MemoryM Unit := do
  modify fun m =>
    { m with rateBuckets := m.rateBuckets.filter fun e => !(e.2.resetAt ≤ now) }
  let m ← get
  match m.rateBuckets.lookup key with
  | none =>
      set { m with rateBuckets := setEntry key ⟨now + 60000, 1⟩ m.rateBuckets }
  | some bucket =>
      set { m with
        rateBuckets := setEntry key { bucket with count := bucket.count + 1 } m.rateBuckets }
      if limit < bucket.count + 1 then
        throw (.http 429 "rate_limited" "rate limit exceeded")

def enforceWriteRateLimit (roomId aliasName endpoint : String) (now : Nat) :
    MemoryM Unit :=
  enforceRateLimit (roomId ++ ":" ++ aliasName ++ ":" ++ endpoint)
    ((writeRateLimits.lookup endpoint).getD defaultWriteRateLimit) now

/-! ## The loop guard -/

def clearRoomLoopCounts : MemoryM Unit := modify fun m => { m with loopCounts := [] }

/-- The entry goes, and the timer that it holds. -/
def cancelPendingAutoContinue : MemoryM Unit :=
  modify fun m =>
    match m.pendingAutoContinue with
    | none => m
    | some pending =>
        { m with
          pendingAutoContinue := none
          timers := m.timers.filter fun timer => timer.cycle ≠ pending.cycle }

/-- What the guard found before it reads the room's preference. -/
inductive GuardOutcome where
  | passed
  | limitExceeded
deriving DecidableEq, Repr

/-- The guard up to its file access: a human post re-arms it, an agent post is counted,
and none passes while a continuation is pending. -/
def countPost (participant : Participant) (limit : Nat) : MemoryM GuardOutcome := do
  if participant.kind = .human then
    clearRoomLoopCounts
    cancelPendingAutoContinue
    return .passed
  let m ← get
  if m.pendingAutoContinue.isSome then
    throw (.http 429 "loop_guard" "loop guard paused: an automatic continue is pending")
  let next := (m.loopCounts.lookup participant.aliasName).getD 0 + 1
  set { m with loopCounts := setEntry participant.aliasName next m.loopCounts }
  return if next ≤ limit then .passed else .limitExceeded

/-- An existing cycle is never replaced. -/
def schedulePendingAutoContinue (aliasName : String) (delaySeconds now : Nat) :
    MemoryM Unit :=
  modify fun m =>
    if m.pendingAutoContinue.isSome then m
    else
      let pending := ⟨aliasName, m.cycles, now + delaySeconds * 1000⟩
      { m with
        pendingAutoContinue := some pending
        timers := m.timers ++ [pending]
        cycles := m.cycles + 1 }

def notifyWaiters : MemoryM Unit :=
  modify fun m => { m with notifications := m.notifications + 1 }

/-- What a stretch of synchronous code is announced as. -/
def pendingLabel (clock : Nat) (before after : ServerMemory) : RoomStep :=
  if after.pendingAutoContinue = before.pendingAutoContinue then .memory
  else .pending clock after.pendingAutoContinue

/-- Run synchronous code, told the time, as one step. -/
def synchronously {α : Type} (code : Nat → MemoryM α) : RoomProg ServerMemory α :=
  .action (fun w => pendingLabel w.clock w.memory ((code w.clock).run.run w.memory).2)
    (fun _ => true)
    (fun w => { w with memory := ((code w.clock).run.run w.memory).2 })
    fun w => ((code w.clock).run.run w.memory).1

/-- What code that leaves nothing pending is announced as. -/
def settledLabel (clock : Nat) (before after : ServerMemory) : RoomStep :=
  if before.pendingAutoContinue.isNone && after.pendingAutoContinue.isNone then .nothingPending
  else pendingLabel clock before after

/-- Run such code, told the time, as one step. -/
def settling {α : Type} (code : Nat → MemoryM α) : RoomProg ServerMemory α :=
  .action (fun w => settledLabel w.clock w.memory ((code w.clock).run.run w.memory).2)
    (fun _ => true)
    (fun w => { w with memory := ((code w.clock).run.run w.memory).2 })
    fun w => ((code w.clock).run.run w.memory).1

/-! ## What the code does to the cycle -/

/-- The loop guard's cycle stays as it is. -/
structure SameCycle (m m' : ServerMemory) : Prop where
  pending : m'.pendingAutoContinue = m.pendingAutoContinue
  timers : m'.timers = m.timers
  cycles : m'.cycles = m.cycles

/-- The cycle that was pending is over, and its timer is off. -/
structure CancelledCycle (m m' : ServerMemory) (p : PendingAutoContinue) : Prop where
  pending : m.pendingAutoContinue = some p
  none : m'.pendingAutoContinue = none
  timers : m'.timers = m.timers.filter fun timer => timer.cycle ≠ p.cycle
  cycles : m'.cycles = m.cycles

/-- The cycle stays as it is or is cancelled. -/
def RoutineStep (m m' : ServerMemory) : Prop :=
  SameCycle m m' ∨ ∃ p, CancelledCycle m m' p

/-- A cycle is opened with the entry, where none was pending. -/
structure OpenedCycle (m m' : ServerMemory) (p : PendingAutoContinue) : Prop where
  none : m.pendingAutoContinue = none
  cycle : p.cycle = m.cycles
  pending : m'.pendingAutoContinue = some p
  timers : m'.timers = m.timers ++ [p]
  cycles : m'.cycles = m.cycles + 1

/-- Code of which every run is such a step. -/
def RoutineCode {α : Type} (code : Nat → MemoryM α) : Prop :=
  ∀ now m, RoutineStep m ((code now).run.run m).2

/-- Code behind which nothing is pending: nothing was, and nothing is changed, or the cycle
is cancelled. -/
def SettlingCode {α : Type} (code : Nat → MemoryM α) : Prop :=
  ∀ now m, m.pendingAutoContinue = none ∧ ((code now).run.run m).2 = m ∨
    ∃ p, CancelledCycle m ((code now).run.run m).2 p

theorem SameCycle.refl (m : ServerMemory) : SameCycle m m := ⟨rfl, rfl, rfl⟩

section Run

variable {α β : Type} (m : ServerMemory)

theorem run_modify (f : ServerMemory → ServerMemory) :
    (modify f : MemoryM Unit).run.run m = (.ok (), f m) := rfl

theorem run_get : (get : MemoryM ServerMemory).run.run m = (.ok m, m) := rfl

theorem run_set (m' : ServerMemory) :
    (set m' : MemoryM Unit).run.run m = (.ok (), m') := rfl

theorem run_throw (e : Failure) : (throw e : MemoryM α).run.run m = (.error e, m) := rfl

theorem run_pure (a : α) : (pure a : MemoryM α).run.run m = (.ok a, m) := rfl

/-- A sequence runs its second part where the first has ended. -/
theorem run_bind (code : MemoryM α) (f : α → MemoryM β) :
    (code >>= f).run.run m =
      match code.run.run m with
      | (.ok a, m') => (f a).run.run m'
      | (.error e, m') => (.error e, m') := by
  change (ExceptT.bindCont f (code.run.run m).1).run (code.run.run m).2 = _
  rcases code.run.run m with ⟨r, m'⟩
  cases r <;> rfl

end Run

/-- Code that leaves the cycle, and routine code behind it. -/
theorem routine_bind {α β : Type} {code : Nat → MemoryM α} {f : Nat → α → MemoryM β}
    (hcode : ∀ now m, SameCycle m ((code now).run.run m).2)
    (hf : ∀ a, RoutineCode fun now => f now a) :
    RoutineCode fun now => code now >>= f now := by
  intro now m
  have hfirst := hcode now m
  dsimp only
  rw [run_bind]
  rcases hrun : (code now).run.run m with ⟨r, m'⟩
  rw [hrun] at hfirst
  obtain ⟨hpending, htimers, hcycles⟩ := hfirst
  cases r with
  | error e => exact .inl ⟨hpending, htimers, hcycles⟩
  | ok a =>
      rcases hf a now m' with hsame | ⟨p, hcancelled⟩
      · exact .inl ⟨hsame.pending.trans hpending, hsame.timers.trans htimers,
          hsame.cycles.trans hcycles⟩
      · refine .inr ⟨p, hpending ▸ hcancelled.pending, hcancelled.none, ?_,
          hcancelled.cycles.trans hcycles⟩
        have hoff := hcancelled.timers
        rw [htimers] at hoff
        exact hoff

theorem notifyWaiters_routine : RoutineCode fun _ => notifyWaiters :=
  fun _ _ => .inl ⟨rfl, rfl, rfl⟩

theorem cancelPendingAutoContinue_routine :
    RoutineCode fun _ => cancelPendingAutoContinue := by
  intro now m
  dsimp only
  rw [cancelPendingAutoContinue, run_modify]
  split
  · exact .inl (.refl m)
  · rename_i p hp
    exact .inr ⟨p, hp, rfl, rfl, rfl⟩

theorem enforceRateLimit_same (key : String) (limit now : Nat) (m : ServerMemory) :
    SameCycle m ((enforceRateLimit key limit now).run.run m).2 := by
  simp only [enforceRateLimit, run_bind, run_modify, run_get]
  split
  · exact ⟨rfl, rfl, rfl⟩
  · simp only [run_bind, run_set]
    split <;> exact ⟨rfl, rfl, rfl⟩

theorem enforceWriteRateLimit_routine (roomId aliasName endpoint : String) :
    RoutineCode fun now => enforceWriteRateLimit roomId aliasName endpoint now :=
  fun _ _ => .inl (enforceRateLimit_same _ _ _ _)

/-- A human's post cancels, an agent's is counted. -/
theorem countPost_routine (participant : Participant) (limit : Nat) :
    RoutineCode fun _ => countPost participant limit := by
  intro now m
  dsimp only [countPost]
  split
  · simp only [clearRoomLoopCounts, cancelPendingAutoContinue, run_bind, run_modify, run_pure]
    split
    · exact .inl ⟨rfl, rfl, rfl⟩
    · rename_i p hp
      exact .inr ⟨p, hp, rfl, rfl, rfl⟩
  · simp only [run_bind, run_get]
    split
    · exact .inl (.refl m)
    · exact .inl ⟨rfl, rfl, rfl⟩

/-- A cycle is opened unless one is pending. -/
theorem schedulePendingAutoContinue_cases (aliasName : String) (delaySeconds now : Nat)
    (m : ServerMemory) :
    SameCycle m ((schedulePendingAutoContinue aliasName delaySeconds now).run.run m).2 ∨
      OpenedCycle m ((schedulePendingAutoContinue aliasName delaySeconds now).run.run m).2
        ⟨aliasName, m.cycles, now + delaySeconds * 1000⟩ := by
  rw [schedulePendingAutoContinue, run_modify]
  dsimp only
  split
  · exact .inl (.refl m)
  · rename_i hnone
    exact .inr ⟨by simpa using hnone, rfl, rfl, rfl, rfl⟩

/-- What a change of the cycle is announced as. -/
theorem pendingLabel_same {m m' : ServerMemory} (h : SameCycle m m') (clock : Nat) :
    pendingLabel clock m m' = .memory := if_pos h.pending

theorem pendingLabel_cancelled {m m' : ServerMemory} {p : PendingAutoContinue}
    (h : CancelledCycle m m' p) (clock : Nat) :
    pendingLabel clock m m' = .pending clock none := by
  rw [pendingLabel, if_neg (by simp [h.pending, h.none]), h.none]

theorem pendingLabel_opened {m m' : ServerMemory} {p : PendingAutoContinue}
    (h : OpenedCycle m m' p) (clock : Nat) :
    pendingLabel clock m m' = .pending clock (some p) := by
  rw [pendingLabel, if_neg (by simp [h.pending, h.none]), h.pending]

/-- What is announced of code that leaves nothing pending. -/
theorem settledLabel_none {m : ServerMemory} (h : m.pendingAutoContinue = none)
    (clock : Nat) : settledLabel clock m m = .nothingPending := by
  rw [settledLabel, h]
  rfl

theorem settledLabel_cancelled {m m' : ServerMemory} {p : PendingAutoContinue}
    (h : CancelledCycle m m' p) (clock : Nat) :
    settledLabel clock m m' = .pending clock none := by
  rw [settledLabel, if_neg (by simp [h.pending]), pendingLabel_cancelled h]

end AgentGather.Server
