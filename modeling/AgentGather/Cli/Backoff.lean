import AgentGather.Cli.WakeAdapter

/-!
# The wake adapter's backoff

One variable holds the pause for two kinds of failures: `/wait` fails, or the command does.
Failures of `/wait` in a row double it.  A wait that succeeds sets it back to its base, and the
command only runs behind such a wait: every pause behind a failing command is the shortest one,
however many commands have failed in a row.
-/

namespace AgentGather.Cli

open AgentGather.Library AgentGather.Protocol AgentGather.Server

/-! ## Failures in a row -/

/-- The command's failures since it last succeeded, or the adapter was started.
`uninterrupted`: no `/wait` has failed behind the first of them. -/
structure Streak where
  failures : Nat
  uninterrupted : Bool
deriving DecidableEq, Repr

def Streak.none : Streak := ⟨0, true⟩

def Effect.sleep? : Effect → Option Nat
  | .slept ms => some ms
  | _ => Option.none

/-- How long the adapter sleeps, when it does. -/
def sleeps (fx : List Effect) : List Nat := fx.filterMap Effect.sleep?

/-- The command exits with a code that is not zero. -/
def Fails (s : WakeAdapter) (h : Happening) : Prop :=
  ∃ code, s.phase = .running ∧ h = .exited code ∧ code ≠ 0

/-- Where the adapter sleeps without a run of the command, `/wait` has failed. -/
def Streak.next (current : WakeIdentity) (s : WakeAdapter) (k : Streak) (h : Happening) :
    Streak :=
  match s.phase, h with
  | _, .started _ => .none
  | .running, .exited code => if code = 0 then .none else ⟨k.failures + 1, k.uninterrupted⟩
  | _, _ => if sleeps (s.step current h).2 = [] then k else ⟨k.failures, k.failures = 0⟩

/-- The streak behind a run. -/
def streak (current : WakeIdentity) (cursor : Option Nat) (happenings : List Happening) :
    Streak :=
  let M := runWakeAdapterCommand current cursor
  (happenings.foldl
    (fun run h => ((M.step run.1 h).1, run.2.next current run.1 h)) (M.init, Streak.none)).2

/-- What the pause behind the last failure of a streak has to be: the base doubled for every
failure before it, up to the maximum.  Only behind the first failure it is the base. -/
structure Streak.Paced (k : Streak) (ms : Nat) : Prop where
  doubled : k.uninterrupted = true → ms = min (backoffBaseMs * 2 ^ (k.failures - 1)) backoffMaxMs
  grown : ms = backoffBaseMs → k.failures = 1

/-- Behind every failure of the command the adapter sleeps once, as its streak demands. -/
def BacksOff (current : WakeIdentity) (cursor : Option Nat) (happenings : List Happening) :
    Prop :=
  let M := runWakeAdapterCommand current cursor
  ∀ before h after, happenings = before ++ h :: after → Fails (M.exec before).1 h →
    ∃ ms, sleeps (M.step (M.exec before).1 h).2 = [ms] ∧
      (streak current cursor (before ++ [h])).Paced ms

/-- Between two failures of the command, it succeeds or the adapter is started again. -/
def FailuresApart (current : WakeIdentity) (cursor : Option Nat)
    (happenings : List Happening) : Prop :=
  let M := runWakeAdapterCommand current cursor
  ∀ before h after, happenings = before ++ h :: after → Fails (M.exec before).1 h →
    (streak current cursor before).failures = 0

/-! ## The pause is always the base -/

/-- While the command runs, the pause is the base: the wait before it has succeeded. -/
def Reset (s : WakeAdapter) : Prop := s.phase = .running → s.backoffMs = backoffBaseMs

theorem reset_next (s : WakeAdapter) : Reset s.next := by
  intro hrunning
  unfold WakeAdapter.next at hrunning
  split_ifs at hrunning

theorem reset_start (s : WakeAdapter) (args : WakeAdapterArgs) : Reset (s.start args).1 := by
  unfold WakeAdapter.start
  dsimp only
  split_ifs
  · intro hrunning
    cases hrunning
  · rcases henter : s.enter args (args.exec.getD "") with e | s'
    · intro hrunning
      cases hrunning
    · unfold WakeAdapter.enter at henter
      obtain ⟨maxEvents, -, henter⟩ := exists_ok_of_bind henter
      obtain ⟨maxTurns, -, henter⟩ := exists_ok_of_bind henter
      obtain ⟨sinceId, -, henter⟩ := exists_ok_of_bind henter
      obtain rfl := Except.ok.inj henter
      exact reset_next _

theorem reset_takeTurn (current : WakeIdentity) (s : WakeAdapter) (r : WaitResponse) :
    Reset (s.takeTurn current r).1 := by
  unfold WakeAdapter.takeTurn
  dsimp only
  by_cases hclosed : r.roomStatus = .closed
  · rw [if_pos hclosed]
    intro hrunning
    cases hrunning
  · rw [if_neg hclosed]
    by_cases hactionable : isActionable r.messages current.aliasName = true
    · rw [if_pos hactionable]
      intro _
      rfl
    · rw [if_neg hactionable]
      exact reset_next _

theorem reset_store (s : WakeAdapter) (r : WaitResponse) : Reset (s.store r).1 := by
  unfold WakeAdapter.store
  split_ifs
  · intro hrunning
    cases hrunning
  · intro hrunning
    cases hrunning

theorem reset_exit (s : WakeAdapter) (code : Int) : Reset (s.exit code).1 := by
  unfold WakeAdapter.exit
  split_ifs
  · exact reset_next s
  · intro hrunning
    cases hrunning

theorem reset_step (current : WakeIdentity) (s : WakeAdapter) (h : Happening) (hs : Reset s) :
    Reset (s.step current h).1 := by
  unfold WakeAdapter.step
  split
  · exact reset_start s _
  · intro hrunning
    cases hrunning
  · intro hrunning
    cases hrunning
  · exact reset_store s _
  · intro hrunning
    cases hrunning
  · exact reset_takeTurn current s _
  · exact reset_exit s _
  · exact reset_next _
  · exact hs

theorem reset_exec (current : WakeIdentity) (cursor : Option Nat)
    (happenings : List Happening) :
    Reset ((runWakeAdapterCommand current cursor).exec happenings).1 := by
  refine Machine.invariant (I := fun s _ => Reset s) ?_ ?_ happenings
  · intro hrunning
    cases hrunning
  · intro s _ h hs
    exact reset_step current s h hs

theorem sleeps_of_fails {current : WakeIdentity} {s : WakeAdapter} {h : Happening}
    (hs : Reset s) (hfails : Fails s h) : sleeps (s.step current h).2 = [backoffBaseMs] := by
  obtain ⟨code, hrunning, rfl, hcode⟩ := hfails
  have hstep : s.step current (.exited code) = s.exit code := by
    simp only [WakeAdapter.step, hrunning]
  rw [hstep, WakeAdapter.exit, if_neg hcode, ← hs hrunning]
  rfl

theorem streak_concat (current : WakeIdentity) (cursor : Option Nat) (before : List Happening)
    (h : Happening) :
    streak current cursor (before ++ [h]) = (streak current cursor before).next current
      ((runWakeAdapterCommand current cursor).exec before).1 h := by
  have hstate : ∀ (happenings : List Happening) (k : Streak)
      (run : WakeAdapter × WakeHistory),
      (happenings.foldl (fun (run : WakeAdapter × Streak) h =>
          (((runWakeAdapterCommand current cursor).step run.1 h).1,
            run.2.next current run.1 h)) (run.1, k)).1 =
        (happenings.foldl (runWakeAdapterCommand current cursor).extend run).1 := by
    intro happenings
    induction happenings with
    | nil =>
      intro k run
      rfl
    | cons h happenings ih =>
      intro k run
      exact ih _ ((runWakeAdapterCommand current cursor).extend run h)
  have hlast := hstate before Streak.none ((runWakeAdapterCommand current cursor).init, [])
  simp only [streak, List.foldl_append, List.foldl_cons, List.foldl_nil]
  rw [hlast]
  rfl

theorem streak_of_fails {current : WakeIdentity} {cursor : Option Nat}
    {before : List Happening} {h : Happening}
    (hfails : Fails ((runWakeAdapterCommand current cursor).exec before).1 h) :
    streak current cursor (before ++ [h]) =
      ⟨(streak current cursor before).failures + 1,
        (streak current cursor before).uninterrupted⟩ := by
  obtain ⟨code, hrunning, rfl, hcode⟩ := hfails
  rw [streak_concat]
  simp only [Streak.next, hrunning, hcode, ↓reduceIte]

/-- The shortest pause is right behind the first failure only. -/
theorem paced_base (failures : Nat) (uninterrupted : Bool) :
    (Streak.mk (failures + 1) uninterrupted).Paced backoffBaseMs ↔ failures = 0 := by
  constructor
  · intro hpaced
    have hfirst := hpaced.grown rfl
    exact Nat.succ.inj hfirst
  · rintro rfl
    exact ⟨fun _ => rfl, fun _ => rfl⟩

/-! ## The law -/

/-- The pauses behind failing commands grow as they have to in exactly the runs in which no
two commands fail without a success between them. -/
theorem backsOff_iff (current : WakeIdentity) (cursor : Option Nat)
    (happenings : List Happening) :
    BacksOff current cursor happenings ↔ FailuresApart current cursor happenings := by
  have hpaced : ∀ before h, Fails ((runWakeAdapterCommand current cursor).exec before).1 h →
      ((∃ ms, sleeps ((runWakeAdapterCommand current cursor).step
            ((runWakeAdapterCommand current cursor).exec before).1 h).2 = [ms] ∧
          (streak current cursor (before ++ [h])).Paced ms) ↔
        (streak current cursor before).failures = 0) := by
    intro before h hfails
    have hsleeps := @sleeps_of_fails current _ _ (reset_exec current cursor before) hfails
    have hbase := paced_base (streak current cursor before).failures
      (streak current cursor before).uninterrupted
    rw [streak_of_fails hfails]
    constructor
    · rintro ⟨ms, hms, hpaced⟩
      have hone : [backoffBaseMs] = [ms] := hsleeps.symm.trans hms
      obtain rfl := List.singleton_inj.mp hone
      exact hbase.mp hpaced
    · intro hfirst
      exact ⟨backoffBaseMs, hsleeps, hbase.mpr hfirst⟩
  constructor
  · intro hlaw before h after hcalls hfails
    exact (hpaced before h hfails).mp (hlaw before h after hcalls hfails)
  · intro hapart before h after hcalls hfails
    exact (hpaced before h hfails).mpr (hapart before h after hcalls hfails)

def mentionedAgain : WaitResponse :=
  ⟨.opened, "agent", false, false,
    [⟨6, "r", 0, "host", .message, "@agent hello", none, none, ["agent"]⟩], true, 6, false, none⟩

/-- Two messages that mention the agent, each with a command that fails. -/
def failsTwice : List Happening :=
  [.started ⟨some "attend-once", none, none, none, false⟩,
    .answered mentionedOnce, .stored, .resumed, .exited 1, .slept,
    .answered mentionedAgain, .stored, .resumed, .exited 1]

/-- The second of two failing commands is followed by the pause of the first. -/
theorem backsOff_fails : ¬ BacksOff ⟨"agent", "http://r"⟩ (some 3) failsTwice := by
  intro hlaw
  obtain ⟨ms, hms, hpaced⟩ := hlaw (failsTwice.take 9) (.exited 1) [] rfl
    ⟨1, by with_unfolding_all rfl, rfl, by decide⟩
  have hbase : [backoffBaseMs] = [ms] := by
    rw [← hms]
    decide +kernel
  have hfirst := hpaced.grown (List.singleton_inj.mp hbase).symm
  have hsecond : (streak ⟨"agent", "http://r"⟩ (some 3) failsTwice).failures = 2 := by
    decide +kernel
  have htwo : 2 = 1 := hsecond.symm.trans hfirst
  cases htwo

/-! ## Failures of `/wait` -/

/-- The pause behind a failure of `/wait` is the one that was due. -/
theorem sleeps_retry (s : WakeAdapter) (message : String) :
    sleeps (s.retry message).2 = [s.backoffMs] := rfl

/-- Every failure of `/wait` in a row doubles the pause, up to the maximum. -/
theorem backoffMs_retries (message : String) (s : WakeAdapter) (hmax : s.backoffMs ≤ backoffMaxMs)
    (k : Nat) :
    ((fun s => (WakeAdapter.retry s message).1.wake)^[k] s).backoffMs =
      min (s.backoffMs * 2 ^ k) backoffMaxMs := by
  have hwake : ∀ s : WakeAdapter, (WakeAdapter.retry s message).1.wake.backoffMs =
      min (s.backoffMs * 2) backoffMaxMs := by
    intro s
    unfold WakeAdapter.wake WakeAdapter.next
    split_ifs
    · rfl
    · rfl
  induction k with
  | zero =>
    rw [Function.iterate_zero_apply, pow_zero, Nat.mul_one, Nat.min_eq_left hmax]
  | succ k ih =>
    rw [Function.iterate_succ_apply', hwake, ih, pow_succ, ← Nat.mul_assoc]
    omega

end AgentGather.Cli
