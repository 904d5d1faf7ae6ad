import AgentGather.Cli.WakeAdapter
import AgentGather.Server.WaitAnswers

/-!
# The requests of the wake adapter

The adapter asks again after every answer of an open room.  Where an answer of the server
leaves something to go on with, a held wait, a message or a pause lies before the next request.
An answer to a removed participant leaves nothing, and comes at once; while the room is open
the adapter asks again all the same, as often as it is let.
-/

namespace AgentGather.Cli

open AgentGather.Library AgentGather.Protocol AgentGather.Storage AgentGather.Server

/-! ## Requests and pauses -/

def Phase.isWaiting : Phase → Bool
  | .waiting => true
  | _ => false

/-- The step sends a request: the adapter waits, and did not before. -/
def requests (current : WakeIdentity) (s : WakeAdapter) (h : Happening) : Bool :=
  (s.step current h).1.phase.isWaiting && (!s.phase.isWaiting || h.isStart)

/-- A pause is over, or an answer arrives that was held or delivers a message. -/
def pauses (_current : WakeIdentity) (s : WakeAdapter) (h : Happening) : Bool :=
  match s.phase, h with
  | .sleeping, .slept => true
  | .waiting, .answered r => r.heartbeat || !r.messages.isEmpty
  | _, _ => false

/-- How many steps are as `judge` says, from a state on. -/
def countFrom (judge : WakeIdentity → WakeAdapter → Happening → Bool) (current : WakeIdentity) :
    WakeAdapter → List Happening → Nat
  | _, [] => 0
  | s, h :: rest =>
      (judge current s h).toNat + countFrom judge current (s.step current h).1 rest

/-- What happens before the adapter is started again. -/
def sameCall (happenings : List Happening) : List Happening :=
  happenings.takeWhile fun h => !h.isStart

/-- Behind an answer that leaves nothing to go on with no request is sent.  Behind a request,
there are at least as many pauses as further requests, at any time: one between any two. -/
structure NeverSpins (current : WakeIdentity) (cursor : Option Nat)
    (happenings : List Happening) : Prop where
  stops : ∀ before r rest, happenings = before ++ .answered r :: rest →
    ((runWakeAdapterCommand current cursor).exec before).1.phase = .waiting →
    r.nextCmd = none →
    countFrom requests current
      ((runWakeAdapterCommand current cursor).exec (before ++ [.answered r])).1
      (sameCall rest) = 0
  paced : ∀ before h segment rest, happenings = before ++ h :: (segment ++ rest) →
    requests current ((runWakeAdapterCommand current cursor).exec before).1 h = true →
    sameCall segment = segment →
    countFrom requests current
        ((runWakeAdapterCommand current cursor).exec (before ++ [h])).1 segment ≤
      countFrom pauses current
        ((runWakeAdapterCommand current cursor).exec (before ++ [h])).1 segment

/-- The loop would not go on anyway. -/
def WakeAdapter.lastTurn (s : WakeAdapter) : Bool := !s.maxTurns.all (s.turns + 1 < ·)

/-- An answer that leaves nothing to go on with is one of a closed room, unless it is for the
last turn, and its cursor is written. -/
def Finishes (s : WakeAdapter) (h : Happening) : Prop :=
  match s.phase, h with
  | .returned r, .resumed => r.nextCmd = none → r.roomStatus = .closed ∨ s.lastTurn = true
  | .storing r, .unstored _ => r.nextCmd ≠ none
  | _, _ => True

/-- Every answer the adapter gets is one that a wait of the room has returned. -/
def AnsweredBy (calls : List ServerCall)
    (c : Config (World ServerMemory) RoomStep Failure (Option Reply))
    (happenings : List Happening) : Prop :=
  ∀ r, .answered r ∈ happenings → ∃ t req, calls[t]? = some (.request .getWait req) ∧
    System.thread c t = some (.ret (some (.waited r)))

/-! ## What a step does to the phase -/

section Steps

variable {current : WakeIdentity} {s : WakeAdapter} {h : Happening}

/-- How the loop goes on with an answer. -/
structure Resumes (s : WakeAdapter) (r : WaitResponse) (p : Phase) : Prop where
  phases : p = .running ∨ p = .waiting ∨ p = .ended (.ok 0)
  closed : r.roomStatus = .closed → p = .ended (.ok 0)
  last : s.lastTurn = true → r.messages = [] → p = .ended (.ok 0)

/-- Where a step leads to. -/
inductive PhaseStep (s : WakeAdapter) : Happening → Phase → Prop
  | started (args : WakeAdapterArgs) (p : Phase) (settled : p.Settled) :
      PhaseStep s (.started args) p
  | answered (r : WaitResponse) (waiting : s.phase = .waiting) :
      PhaseStep s (.answered r) (.storing r)
  | failed (failure : WaitFailure) (waiting : s.phase = .waiting) :
      PhaseStep s (.failed failure) .sleeping
  | stored (r : WaitResponse) (storing : s.phase = .storing r) : PhaseStep s .stored (.returned r)
  | overflow (r : WaitResponse) (storing : s.phase = .storing r)
      (beyond : maxSafeInteger < r.nextSinceId) : PhaseStep s .stored .sleeping
  | unstored (r : WaitResponse) (message : String) (storing : s.phase = .storing r) :
      PhaseStep s (.unstored message) .sleeping
  | resumed (r : WaitResponse) (p : Phase) (returned : s.phase = .returned r)
      (resumes : Resumes s r p) : PhaseStep s .resumed p
  | exited (code : Int) (p : Phase) (running : s.phase = .running)
      (next : p = .waiting ∨ p = .ended (.ok 0) ∨ p = .sleeping) : PhaseStep s (.exited code) p
  | slept (p : Phase) (sleeping : s.phase = .sleeping)
      (next : p = .waiting ∨ p = .ended (.ok 0)) : PhaseStep s .slept p
  | ignored {h : Happening} : PhaseStep s h s.phase

theorem phase_next (s : WakeAdapter) :
    s.next.phase = .waiting ∨ s.next.phase = .ended (.ok 0) := by
  unfold WakeAdapter.next
  split_ifs
  · exact .inl rfl
  · exact .inr rfl

/-- Nobody is called behind an answer without messages. -/
theorem isActionable_nil (aliasName : String) : isActionable [] aliasName = false := rfl

theorem resumes_takeTurn (s : WakeAdapter) (r : WaitResponse) :
    Resumes s r (s.takeTurn current r).1.phase := by
  unfold WakeAdapter.takeTurn
  dsimp only
  by_cases hclosed : r.roomStatus = .closed
  · rw [if_pos hclosed]
    exact ⟨.inr (.inr rfl), fun _ => rfl, fun _ _ => rfl⟩
  rw [if_neg hclosed]
  by_cases hactionable : isActionable r.messages current.aliasName = true
  · rw [if_pos hactionable]
    refine ⟨.inl rfl, fun h => (hclosed h).elim, fun _ hempty => ?_⟩
    rw [hempty, isActionable_nil] at hactionable
    cases hactionable
  · rw [if_neg hactionable]
    refine ⟨.inr (phase_next _), fun h => (hclosed h).elim, fun hlast _ => ?_⟩
    simp only [WakeAdapter.lastTurn, Bool.not_eq_true'] at hlast
    simp only [WakeAdapter.next, hlast, Bool.false_and, Bool.false_eq_true, ↓reduceIte]

theorem settled_start (s : WakeAdapter) (args : WakeAdapterArgs) :
    (s.start args).1.phase.Settled := by
  have hstepped := @start_stepped ⟨"", ""⟩ s args
  generalize (s.start args).1 = s' at hstepped ⊢
  generalize (s.start args).2 = fx at hstepped
  cases hstepped with
  | started _ settled => exact settled
  | quiet running => cases running
  | ignored running => cases running

theorem phaseStep (current : WakeIdentity) (s : WakeAdapter) (h : Happening) :
    PhaseStep s h (s.step current h).1.phase := by
  unfold WakeAdapter.step
  split
  · exact .started _ _ (settled_start s _)
  · exact .answered _ ‹_›
  · exact .failed _ ‹_›
  · rename_i r hphase
    unfold WakeAdapter.store
    split_ifs with hbound
    · exact .stored r hphase
    · exact .overflow r hphase (Nat.lt_of_not_le hbound)
  · exact .unstored _ _ ‹_›
  · exact .resumed _ _ ‹_› (resumes_takeTurn s _)
  · rename_i code hphase
    refine .exited code _ hphase ?_
    unfold WakeAdapter.exit
    split_ifs
    · rcases phase_next s with hnext | hnext
      · exact .inl hnext
      · exact .inr (.inl hnext)
    · exact .inr (.inr rfl)
  · exact .slept _ ‹_› (phase_next _)
  · exact .ignored

/-! ## Behind a last answer -/

/-- The answers that the loop holds are those of a wait. -/
def Known : Phase → Prop
  | .storing r => WaitAnswer r
  | .returned r => WaitAnswer r
  | _ => True

/-- Nothing is left to go on with, and the loop may ask only after a pause. -/
def Spent : Phase → Prop
  | .storing r => r.nextCmd = none
  | .returned r => r.nextCmd = none
  | .waiting => True
  | .sleeping => True
  | .ended _ => True
  | .absent => False
  | .running => False

/-- The loop has an answer that leaves nothing to go on with, or is over. -/
def Finished : Phase → Prop
  | .storing r => r.nextCmd = none
  | .returned r => r.nextCmd = none
  | .ended _ => True
  | _ => False

/-- A step in a run whose answers are those of waits, and finish. -/
structure Admits (s : WakeAdapter) (h : Happening) : Prop where
  answer : ∀ r, h = .answered r → WaitAnswer r
  finishes : Finishes s h

theorem known_step (current : WakeIdentity) (hs : Known s.phase) (hadmits : Admits s h) :
    Known (s.step current h).1.phase := by
  have hstep := phaseStep current s h
  generalize (s.step current h).1.phase = p at hstep
  cases hstep with
  | started args p settled =>
    cases p with
    | storing r => exact settled.elim
    | returned r => exact settled.elim
    | _ => trivial
  | answered r waiting => exact hadmits.answer r rfl
  | failed => trivial
  | stored r storing =>
    rw [storing] at hs
    exact hs
  | overflow => trivial
  | unstored => trivial
  | resumed r p returned resumes =>
    rcases resumes.phases with rfl | rfl | rfl
    · trivial
    · trivial
    · trivial
  | exited code p running next =>
    rcases next with rfl | rfl | rfl
    · trivial
    · trivial
    · trivial
  | slept p sleeping next =>
    rcases next with rfl | rfl
    · trivial
    · trivial
  | ignored => exact hs

/-- An answer that leaves nothing to go on with ends the loop where the run admits it. -/
theorem ended_of_resumes {r : WaitResponse} {p : Phase} (hphase : s.phase = .returned r)
    (hs : Known s.phase) (hadmits : Admits s .resumed) (hresumes : Resumes s r p)
    (hnone : r.nextCmd = none) : p = .ended (.ok 0) := by
  rw [hphase] at hs
  have hfinishes := hadmits.finishes
  simp only [Finishes, hphase] at hfinishes
  rcases hfinishes hnone with hclosed | hlast
  · exact hresumes.closed hclosed
  · exact hresumes.last hlast (hs.nothing hnone)

/-- Behind a last answer only a new start sends a request. -/
theorem finished_step (current : WakeIdentity) (hs : Finished s.phase) (hknown : Known s.phase)
    (hadmits : Admits s h) (hstart : h.isStart = false) :
    Finished (s.step current h).1.phase := by
  have hstep := phaseStep current s h
  generalize (s.step current h).1.phase = p at hstep
  cases hstep with
  | started args p settled => cases hstart
  | answered r waiting =>
    rw [waiting] at hs
    exact hs.elim
  | failed failure waiting =>
    rw [waiting] at hs
    exact hs.elim
  | stored r storing =>
    rw [storing] at hs
    exact hs
  | overflow r storing beyond =>
    rw [storing] at hs hknown
    exact absurd (hknown.cursor hs) (Nat.not_le.mpr beyond)
  | unstored r message storing =>
    have hfinishes := hadmits.finishes
    simp only [Finishes, storing] at hfinishes
    rw [storing] at hs
    exact (hfinishes hs).elim
  | resumed r p returned resumes =>
    have hnone : r.nextCmd = none := by
      rw [returned] at hs
      exact hs
    rw [ended_of_resumes returned hknown hadmits resumes hnone]
    trivial
  | exited code p running next =>
    rw [running] at hs
    exact hs.elim
  | slept p sleeping next =>
    rw [sleeping] at hs
    exact hs.elim
  | ignored => exact hs

theorem isWaiting_of_finished {p : Phase} (hp : Finished p) : p.isWaiting = false := by
  cases p with
  | waiting => exact hp.elim
  | _ => rfl

/-! ## Requests against pauses -/

/-- A request has been paid for by a pause before it, but for one where the loop may ask only
after a pause. -/
structure Balanced (p : Phase) (asked paused : Nat) : Prop where
  atMost : asked ≤ paused + 1
  paid : ¬ Spent p → asked ≤ paused

theorem balanced_of_spent {p : Phase} {asked paused : Nat} (hp : Spent p)
    (h : asked ≤ paused + 1) : Balanced p asked paused :=
  ⟨h, fun hspent => (hspent hp).elim⟩

theorem balanced_of_paid {p : Phase} {asked paused : Nat} (h : asked ≤ paused) :
    Balanced p asked paused :=
  ⟨Nat.le_succ_of_le h, fun _ => h⟩

/-- A step sends a request when the adapter waits behind it and did not before. -/
theorem requests_eq (current : WakeIdentity) (s : WakeAdapter) {h : Happening}
    (hstart : h.isStart = false) : requests current s h =
      ((s.step current h).1.phase.isWaiting && !s.phase.isWaiting) := by
  rw [requests, hstart, Bool.or_false]

theorem balanced_step (current : WakeIdentity) {asked paused : Nat}
    (hs : Balanced s.phase asked paused) (hknown : Known s.phase) (hadmits : Admits s h)
    (hstart : h.isStart = false) :
    Balanced (s.step current h).1.phase (asked + (requests current s h).toNat)
      (paused + (pauses current s h).toNat) := by
  rw [requests_eq current s hstart]
  have hstep := phaseStep current s h
  generalize (s.step current h).1.phase = p at hstep
  have hmost := hs.atMost
  have hpaid := hs.paid
  cases hstep with
  | started args p settled => cases hstart
  | answered r waiting =>
    have hanswer := hadmits.answer r rfl
    by_cases hnone : r.nextCmd = none
    · exact balanced_of_spent hnone (by simp [Phase.isWaiting]; omega)
    · have hpause : pauses current s (.answered r) = true := by
        simp only [pauses, waiting]
        rcases hanswer.goesOn hnone with hmessages | hheld
        · simp [hmessages]
        · simp [hheld]
      exact balanced_of_paid (by simp [Phase.isWaiting, hpause]; omega)
  | failed failure waiting => exact balanced_of_spent trivial (by simp [Phase.isWaiting]; omega)
  | stored r storing =>
    rw [storing] at hpaid
    refine ⟨by simp [Phase.isWaiting]; omega, fun hspent => ?_⟩
    have hle := hpaid hspent
    simp [Phase.isWaiting]
    omega
  | overflow r storing beyond =>
    exact balanced_of_spent trivial (by simp [Phase.isWaiting]; omega)
  | unstored r message storing =>
    exact balanced_of_spent trivial (by simp [Phase.isWaiting]; omega)
  | resumed r p returned resumes =>
    by_cases hnone : r.nextCmd = none
    · rw [ended_of_resumes returned hknown hadmits resumes hnone]
      exact balanced_of_spent trivial (by simp [Phase.isWaiting]; omega)
    · rw [returned] at hpaid
      have hle := hpaid hnone
      rcases resumes.phases with rfl | rfl | rfl
      · exact balanced_of_paid (by simp [Phase.isWaiting]; omega)
      · exact balanced_of_spent trivial (by simp [Phase.isWaiting, returned]; omega)
      · exact balanced_of_paid (by simp [Phase.isWaiting]; omega)
  | exited code p running next =>
    rw [running] at hpaid
    have hle := hpaid id
    rcases next with rfl | rfl | rfl
    · exact balanced_of_spent trivial (by simp [Phase.isWaiting, running]; omega)
    · exact balanced_of_paid (by simp [Phase.isWaiting]; omega)
    · exact balanced_of_paid (by simp [Phase.isWaiting]; omega)
  | slept p sleeping next =>
    have hpause : pauses current s .slept = true := by simp only [pauses, sleeping]
    rcases next with rfl | rfl
    · exact balanced_of_spent trivial (by simp [Phase.isWaiting, sleeping, hpause]; omega)
    · exact balanced_of_spent trivial (by simp [Phase.isWaiting, hpause]; omega)
  | ignored =>
    have hnone : (s.phase.isWaiting && !s.phase.isWaiting) = false := Bool.and_not_self _
    rw [hnone]
    refine ⟨by simp; omega, fun hspent => ?_⟩
    have hle := hpaid hspent
    simp
    omega

/-! ## Runs of one call -/

theorem sameCall_cons {hs : List Happening} (hstart : h.isStart = false) :
    sameCall (h :: hs) = h :: sameCall hs := by
  simp [sameCall, hstart]

/-- Every step from a state on is admitted. -/
abbrev AdmitsFrom (current : WakeIdentity) (cursor : Option Nat) (s : WakeAdapter)
    (happenings : List Happening) : Prop :=
  (runWakeAdapterCommand current cursor).ObeysFrom Admits s happenings

theorem countFrom_finished (current : WakeIdentity) (cursor : Option Nat) {s : WakeAdapter}
    {rest : List Happening} (hs : Finished s.phase) (hknown : Known s.phase)
    (hrest : AdmitsFrom current cursor s rest) :
    countFrom requests current s (sameCall rest) = 0 := by
  induction rest generalizing s with
  | nil => rfl
  | cons h rest ih =>
    obtain ⟨hadmits, hrest⟩ := hrest
    cases hstart : h.isStart with
    | true => simp [sameCall, hstart, countFrom]
    | false =>
      have hfinished := finished_step current hs hknown hadmits hstart
      have hquiet : requests current s h = false := by
        rw [requests_eq current s hstart, isWaiting_of_finished hfinished, Bool.false_and]
      rw [sameCall_cons hstart, countFrom, hquiet,
        ih hfinished (known_step current hknown hadmits) hrest]
      rfl

theorem countFrom_balanced (current : WakeIdentity) (cursor : Option Nat) {s : WakeAdapter}
    {segment rest : List Happening} {asked paused : Nat} (hs : Balanced s.phase asked paused)
    (hknown : Known s.phase) (hrest : AdmitsFrom current cursor s (segment ++ rest))
    (hcall : sameCall segment = segment) :
    asked + countFrom requests current s segment ≤
      paused + countFrom pauses current s segment + 1 := by
  induction segment generalizing s asked paused with
  | nil => exact hs.atMost
  | cons h segment ih =>
    obtain ⟨hadmits, hrest⟩ := hrest
    have hstart : h.isStart = false := by
      cases hh : h.isStart with
      | false => rfl
      | true => simp [sameCall, hh] at hcall
    rw [sameCall_cons hstart] at hcall
    have hbalanced := balanced_step current hs hknown hadmits hstart
    have htail := ih hbalanced (known_step current hknown hadmits) hrest
      (List.cons_injective hcall)
    simp only [countFrom]
    omega

end Steps

/-! ## The law -/

/-- A run whose answers are those of waits, and finish, never spins. -/
theorem neverSpins_of_admits (current : WakeIdentity) (cursor : Option Nat)
    {happenings : List Happening}
    (h : (runWakeAdapterCommand current cursor).Obeys Admits happenings) :
    NeverSpins current cursor happenings := by
  have hknown : ∀ before, (runWakeAdapterCommand current cursor).Obeys Admits before →
      Known ((runWakeAdapterCommand current cursor).exec before).1.phase := by
    intro before hbefore
    refine Machine.invariant_of_obeys (I := fun s _ => Known s.phase) ?_ ?_ hbefore
    · trivial
    · intro s _ h hs hadmits
      exact known_step current hs hadmits
  have hstate : ∀ before h, ((runWakeAdapterCommand current cursor).exec (before ++ [h])).1 =
      (((runWakeAdapterCommand current cursor).exec before).1.step current h).1 := by
    intro before h
    rw [Machine.exec_concat]
    rfl
  constructor
  · intro before r rest hrun hwaiting hnone
    rw [hrun, List.append_cons, Machine.obeys_append] at h
    refine countFrom_finished current cursor ?_ (hknown _ h.1) h.2
    have hstoring : (((runWakeAdapterCommand current cursor).exec before).1.step current
        (.answered r)).1.phase = .storing r := by
      simp only [WakeAdapter.step, hwaiting]
    rw [hstate, hstoring]
    exact hnone
  · intro before first segment rest hrun hrequests hcall
    rw [hrun, List.append_cons, Machine.obeys_append] at h
    have hwaiting : ((runWakeAdapterCommand current cursor).exec
        (before ++ [first])).1.phase.isWaiting = true := by
      rw [hstate]
      exact (Bool.and_eq_true_iff.mp hrequests).1
    have hspent : Spent ((runWakeAdapterCommand current cursor).exec
        (before ++ [first])).1.phase := by
      revert hwaiting
      cases ((runWakeAdapterCommand current cursor).exec (before ++ [first])).1.phase with
      | waiting => exact fun _ => trivial
      | _ => exact fun hwaiting => nomatch hwaiting
    have hbalanced : Balanced ((runWakeAdapterCommand current cursor).exec
        (before ++ [first])).1.phase 1 0 := balanced_of_spent hspent (Nat.le_refl 1)
    have hcount := countFrom_balanced current cursor hbalanced (hknown _ h.1) h.2 hcall
    omega

/-- Against a room that is served, the adapter never spins, whatever happens to the room and
its roster, as long as every answer that leaves nothing to go on with is one of a closed room
whose cursor is written.  What it takes for a held wait was held by the room. -/
theorem neverSpins_of_finishes (process : Nat → Nat) (o : ServerOptions) (files : RoomFiles)
    (clock : Nat) (memory : ServerMemory) (calls : List ServerCall)
    {c : Config (World ServerMemory) RoomStep Failure (Option Reply)}
    (h : (faultySystem ServerMemory process).Reachable
      (serving o files clock memory calls) c)
    (current : WakeIdentity) (cursor : Option Nat) (happenings : List Happening)
    (hanswered : AnsweredBy calls c happenings)
    (hfinishes : (runWakeAdapterCommand current cursor).Obeys Finishes happenings) :
    NeverSpins current cursor happenings ∧
      ∀ r, .answered r ∈ happenings → r.heartbeat = true →
        ∃ t, System.thread c t = some (.ret (some (.waited r))) ∧ Held t c.snap.trace := by
  constructor
  · have hanswers : ∀ h ∈ happenings, ∀ r, h = .answered r → WaitAnswer r := by
      rintro _ hmem r rfl
      obtain ⟨t, req, hcall, hreturned⟩ := hanswered r hmem
      exact (waited_answer h hcall hreturned).1
    refine neverSpins_of_admits current cursor ?_
    exact (hfinishes.and hanswers).mono fun s h hadmits => ⟨hadmits.1, hadmits.2⟩
  · intro r hmem hheartbeat
    obtain ⟨t, req, hcall, hreturned⟩ := hanswered r hmem
    exact ⟨t, hreturned, (waited_answer h hcall hreturned).2 hheartbeat⟩

/-! ## A removed participant -/

/-- The small room without its agent. -/
def removedRoom : RoomFiles :=
  let removed := { participantRecord id "agent" .agent false "bb" 0 with removedAt := some 0 }
  { openRoom with
    participants := .whole [participantRecord id "host" .human true "aa" 0, removed] }

/-- The agent waits, as often as `n` says. -/
def agentWaits (n : Nat) : List ServerCall :=
  List.replicate n (.request .getWait
    ⟨some "bb", .ok (.obj []), [("participant", "agent"), ("since_id", "0")]⟩)

/-- What a removed participant is answered while the room is open. -/
def removedAnswer : WaitResponse :=
  ⟨.opened, "agent", true, false, [], false, 0, false, none⟩

/-- One turn of the loop, and one after the other. -/
def turn (r : WaitResponse) : List Happening := [.answered r, .stored, .resumed]

def turns (r : WaitResponse) (n : Nat) : List Happening := (List.replicate n (turn r)).flatten

def startOnce : Happening := .started ⟨some "attend-once", none, none, none, false⟩

/-- The second request goes out behind an answer that leaves nothing to go on with. -/
theorem neverSpins_removed :
    ∃ c, (faultySystem ServerMemory id).Reachable
        (serving smallServer removedRoom 0 .initial (agentWaits 2)) c ∧
      AnsweredBy (agentWaits 2) c (startOnce :: turns removedAnswer 2) ∧
      ¬ NeverSpins ⟨"agent", "http://r"⟩ none (startOnce :: turns removedAnswer 2) := by
  have hrun : ((faultySystem ServerMemory id).replay
      (serving smallServer removedRoom 0 .initial (agentWaits 2))
      (List.replicate 3 (.run 0) ++ List.replicate 3 (.run 1))).map
      (fun c => (System.returned c 0, System.returned c 1)) =
      some (some (some (.waited removedAnswer)), some (some (.waited removedAnswer))) := by
    decide +kernel
  obtain ⟨c, hc, hreturned⟩ := System.exists_reachable_of_replay hrun
  have hfirst : System.returned c 0 = some (some (.waited removedAnswer)) :=
    congrArg Prod.fst hreturned
  refine ⟨c, hc, ?_, fun hnever => ?_⟩
  · intro r hr
    have hone : r = removedAnswer := by simpa [turns, turn, startOnce] using hr
    rw [hone]
    exact ⟨0, _, rfl, System.thread_of_returned hfirst⟩
  · have hstops := hnever.stops [startOnce] removedAnswer
      (.stored :: .resumed :: turns removedAnswer 1) rfl (by with_unfolding_all rfl) rfl
    revert hstops
    decide +kernel

/-- A loop without a limit is where it was behind the answer to a removed participant, and
has sent a request without a pause. -/
theorem countFrom_turn {current : WakeIdentity} {s : WakeAdapter} (hs : s.phase = .waiting)
    (hturns : s.maxTurns = none) (hevents : s.maxEvents = none) (rest : List Happening) :
    ∃ s' : WakeAdapter, s'.phase = .waiting ∧ s'.maxTurns = none ∧ s'.maxEvents = none ∧
      countFrom requests current s (turn removedAnswer ++ rest) =
        countFrom requests current s' rest + 1 ∧
      countFrom pauses current s (turn removedAnswer ++ rest) =
        countFrom pauses current s' rest := by
  obtain ⟨cursor, phase, command, maxEvents, maxTurns, json, sinceId, turns, events, backoff⟩ := s
  obtain rfl : phase = .waiting := hs
  obtain rfl : maxTurns = none := hturns
  obtain rfl : maxEvents = none := hevents
  let s' : WakeAdapter :=
    ⟨some 0, .waiting, command, none, none, json, 0, turns + 1, events, backoffBaseMs⟩
  refine ⟨s', rfl, rfl, rfl, ?_, ?_⟩
  · change 0 + (0 + (1 + countFrom requests current s' rest)) =
      countFrom requests current s' rest + 1
    omega
  · change 0 + (0 + (0 + countFrom pauses current s' rest)) = countFrom pauses current s' rest
    omega

/-- However many turns, each has its request, and none a pause. -/
theorem countFrom_turns {current : WakeIdentity} {s : WakeAdapter} (hs : s.phase = .waiting)
    (hturns : s.maxTurns = none) (hevents : s.maxEvents = none) (n : Nat) :
    countFrom requests current s (turns removedAnswer n) = n ∧
      countFrom pauses current s (turns removedAnswer n) = 0 := by
  induction n generalizing s with
  | zero => exact ⟨rfl, rfl⟩
  | succ n ih =>
    obtain ⟨s', hs', hturns', hevents', hrequests, hpauses⟩ :=
      @countFrom_turn current s hs hturns hevents (turns removedAnswer n)
    obtain ⟨hasked, hpaused⟩ := ih hs' hturns' hevents'
    have hsplit : turns removedAnswer (n + 1) = turn removedAnswer ++ turns removedAnswer n :=
      rfl
    rw [hsplit, hrequests, hpauses, hasked, hpaused]
    exact ⟨rfl, rfl⟩

/-! ## A closed room -/

def finishedRoom : RoomFiles :=
  let created := CreateRoomOptions.state ⟨"r", "host", some 0, none, none, none⟩ 0
  { openRoom with state := .whole { created with status := .closed } }

def closedAnswer : WaitResponse := ⟨.closed, "agent", false, false, [], false, 0, false, none⟩

/-- The answer of a closed room ends the loop, by the general theorem. -/
theorem neverSpins_of_finishes_closed :
    ∃ c, (faultySystem ServerMemory id).Reachable
        (serving smallServer finishedRoom 0 .initial (agentWaits 1)) c ∧
      NeverSpins ⟨"agent", "http://r"⟩ none (startOnce :: turn closedAnswer) ∧
      ∀ r, .answered r ∈ startOnce :: turn closedAnswer → r.heartbeat = true →
        ∃ t, System.thread c t = some (.ret (some (.waited r))) ∧ Held t c.snap.trace := by
  have hrun : ((faultySystem ServerMemory id).replay
      (serving smallServer finishedRoom 0 .initial (agentWaits 1))
      (List.replicate 8 (.run 0))).map (fun c => System.returned c 0) =
      some (some (some (.waited closedAnswer))) := by decide +kernel
  obtain ⟨c, hc, hreturned⟩ := System.exists_reachable_of_replay hrun
  refine ⟨c, hc, neverSpins_of_finishes id smallServer finishedRoom 0 .initial (agentWaits 1) hc
    ⟨"agent", "http://r"⟩ none (startOnce :: turn closedAnswer) ?_ ?_⟩
  · intro r hr
    have hone : r = closedAnswer := by simpa [turn, startOnce] using hr
    rw [hone]
    exact ⟨0, _, rfl, System.thread_of_returned hreturned⟩
  · refine ⟨trivial, trivial, trivial, ?_, trivial⟩
    exact fun _ => .inl rfl

end AgentGather.Cli
