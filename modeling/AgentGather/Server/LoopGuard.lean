import AgentGather.Library.Preservation
import AgentGather.Server.Calls
import AgentGather.Server.GuardMaps

/-!
# The bound of the loop guard

Posts to the rooms of one process, the completions of their continuations and whatever cancels
them interleave freely.  In every run, each room's guard is as the room's own history tells, so
that between two resets no alias passes it more often than the limit allows.
-/

namespace AgentGather.Server

open AgentGather.Library AgentGather.Protocol AgentGather.Storage

/-! ## The guard's code -/

/-- What the guards of a process work on; `rooms` is what the reading of a room's state
gives. -/
structure GuardWorld where
  maps : GuardMaps
  clock : Nat
  rooms : RoomId → Except Failure RoomState

inductive GuardStep where
  | posted (roomId : RoomId) (human : Bool) (aliasName : String) (answer : GuardView.Answer)
  | scheduled (roomId : RoomId) (aliasName : String) (expiresAt : Nat)
  | cancelled (roomId : RoomId)
  | approved (roomId : RoomId)
  | readState
  | other
deriving DecidableEq

def GuardView.Answer.ofOutcome : Except Failure GuardOutcome → GuardView.Answer
  | .ok .passed => .passed
  | .ok .limitExceeded => .limitExceeded
  | .error _ => .paused

theorem GuardView.Answer.ofOutcome_outcome (answer : GuardView.Answer) :
    ofOutcome answer.outcome = answer := by
  cases answer <;> rfl

abbrev GuardProg := Prog GuardWorld GuardStep Failure

namespace LoopGuard

def readRoomState (roomId : RoomId) : GuardProg RoomState :=
  .query (fun _ => .readState) fun w => w.rooms roomId

/-- The guard: the counting, and for a post above the limit, behind the reading of the state,
the pause. -/
def enforceLoopGuard (limit : Nat) (roomId : RoomId) (participant : Participant) :
    GuardProg Unit := do
  let outcome ← Prog.action
    (fun w => .posted roomId (participant.kind == .human) participant.aliasName
      (.ofOutcome (w.maps.enforceLoopGuard roomId participant limit).1))
    (fun _ => true)
    (fun w => { w with maps := (w.maps.enforceLoopGuard roomId participant limit).2 })
    fun w => (w.maps.enforceLoopGuard roomId participant limit).1
  match outcome with
  | .passed => return ()
  | .limitExceeded =>
      let state ← readRoomState roomId
      if state.autoContinueEnabled ≠ some true then
        throw (.http 429 "loop_guard" "loop guard stopped repeated agent messages")
      let delaySeconds := state.autoContinueDelayS.getD autoContinueDelayDefaultS
      .update
        (fun w => .scheduled roomId participant.aliasName (w.clock + delaySeconds * 1000))
        fun w => { w with
          maps := w.maps.schedulePendingAutoContinue roomId participant.aliasName delaySeconds
            w.clock }
      throw (.http 429 "loop_guard" "loop guard paused: an automatic continue is pending")

/-- Every path that cancels a cycle: a disabled preference, a close, an expiry, the end of the
room's server. -/
def cancelPendingAutoContinue (roomId : RoomId) : GuardProg Unit :=
  .update (fun _ => .cancelled roomId) fun w =>
    { w with maps := w.maps.cancelPendingAutoContinue roomId }

/-- The timer of the cycle goes off; its callback goes on if something is pending. -/
def fireTimer (roomId : RoomId) (cycle : Nat) : GuardProg Bool :=
  .action (fun _ => .other)
    (fun w => w.maps.timers.any fun timer =>
      timer.1 == roomId && timer.2.cycle == cycle && timer.2.expiresAt ≤ w.clock)
    (fun w => { w with
      maps := { w.maps with
        timers := w.maps.timers.filter fun timer => timer.2.cycle ≠ cycle } })
    fun w => .ok (w.maps.pendingAutoContinue.get? roomId.val).isSome

/-- What the second look finds: nothing pending, a room that is over, or an approval. -/
def recheck (roomId : RoomId) (state : RoomState) (w : GuardWorld) : GuardStep :=
  if (w.maps.pendingAutoContinue.get? roomId.val).isNone then .other
  else if state.status ≠ .opened ∨ RoomState.expiredAt state w.clock = true then
    .cancelled roomId
  else .approved roomId

def completeAutoContinue (roomId : RoomId) (cycle : Nat) : GuardProg Unit := do
  if ← fireTimer roomId cycle then
    match ← tryCatch (some <$> readRoomState roomId) fun _ => return none with
    | none => cancelPendingAutoContinue roomId
    | some state =>
        .update (recheck roomId state) fun w => match recheck roomId state w with
          | .cancelled _ => { w with maps := w.maps.cancelPendingAutoContinue roomId }
          | .approved _ => { w with maps := w.maps.approve roomId }
          | _ => w

end LoopGuard

/-- `stores` is any other step that changes what is read of a room's state. -/
inductive GuardCall where
  | post (roomId : RoomId) (participant : Participant)
  | complete (roomId : RoomId) (cycle : Nat)
  | cancel (roomId : RoomId)
  | stores (roomId : RoomId) (state : Except Failure RoomState)
  | timePasses (ms : Nat)

/-- The call, under the limits of the rooms' servers. -/
def GuardCall.prog (limits : RoomId → Nat) : GuardCall → GuardProg Unit
  | .post roomId participant => LoopGuard.enforceLoopGuard (limits roomId) roomId participant
  | .complete roomId cycle => LoopGuard.completeAutoContinue roomId cycle
  | .cancel roomId => LoopGuard.cancelPendingAutoContinue roomId
  | .stores roomId state => .update (fun _ => .other) fun w =>
      { w with rooms := Function.update w.rooms roomId state }
  | .timePasses ms => .update (fun _ => .other) fun w => { w with clock := w.clock + ms }

/-- One process, in which the state of a room may fail to be read. -/
def guardSystem : System GuardWorld GuardStep Failure where
  process _ := 0
  faults label _ := label == .readState
  crash _ := none

/-- A process that has just been started, and the calls about to be made. -/
def guarding (limits : RoomId → Nat) (clock : Nat)
    (rooms : RoomId → Except Failure RoomState) (calls : List GuardCall) :
    Config GuardWorld GuardStep Failure Unit where
  snap := ⟨⟨.initial, clock, rooms⟩, []⟩
  threads := calls.map fun call => some (call.prog limits)

/-! ## What a room's history tells -/

def GuardStep.room? : GuardStep → Option RoomId
  | .posted roomId _ _ _ => some roomId
  | .scheduled roomId _ _ => some roomId
  | .cancelled roomId => some roomId
  | .approved roomId => some roomId
  | .readState => none
  | .other => none

/-- The steps of one room, the latest first. -/
def roomHistory (roomId : RoomId) (es : List (Event GuardStep)) : List GuardStep :=
  es.filterMap fun
    | .ran _ label => if label.room? = some roomId then some label else none
    | _ => none

/-- What a step does to the guard of its room. -/
def GuardStep.apply (v : GuardView) : GuardStep → GuardView
  | .posted _ human aliasName _ => v.post human aliasName
  | .scheduled _ aliasName expiresAt => v.schedule aliasName expiresAt
  | .cancelled _ => v.cancel
  | .approved _ => v.approve
  | .readState => v
  | .other => v

/-- The guard behind the steps of its room. -/
def guardBehind : List GuardStep → GuardView
  | [] => .initial
  | label :: labels => label.apply (guardBehind labels)

/-- Every post was told what the guard says. -/
def Answered (limit : Nat) : List GuardStep → Prop
  | [] => True
  | .posted _ human aliasName answer :: labels =>
      answer = (guardBehind labels).answer human aliasName limit ∧ Answered limit labels
  | _ :: labels => Answered limit labels

/-- How many posts of the alias have passed since the latest reset: a human's post that
passed, or an approval. -/
def admitted (aliasName : String) : List GuardStep → Nat
  | [] => 0
  | .posted _ true _ .passed :: _ => 0
  | .posted _ false name .passed :: labels =>
      if name = aliasName then admitted aliasName labels + 1 else admitted aliasName labels
  | .approved _ :: _ => 0
  | _ :: labels => admitted aliasName labels

/-- A post of an agent has passed while a continuation was pending. -/
def admittedPaused : List GuardStep → Bool
  | [] => false
  | .posted _ false _ .passed :: labels =>
      (guardBehind labels).pending.isSome || admittedPaused labels
  | _ :: labels => admittedPaused labels

section Answers

variable {limit : Nat} {v : GuardView} {aliasName : String}

theorem GuardView.answer_human : v.answer true aliasName limit = .passed := rfl

/-- An agent's post passes while nothing is pending, as one more within the limit. -/
theorem GuardView.passed_of_answer (h : .passed = v.answer false aliasName limit) :
    v.pending = none ∧ v.counts aliasName + 1 ≤ limit := by
  rw [GuardView.answer, if_neg Bool.false_ne_true] at h
  split_ifs at h with hpending hlimit
  exact ⟨by simpa using hpending, hlimit⟩

theorem GuardView.counts_le_schedule (expiresAt : Nat) (name : String) :
    (v.schedule name expiresAt).counts aliasName = v.counts aliasName := by
  unfold GuardView.schedule
  split <;> rfl

/-- A post that does not reset the guard takes no count back. -/
theorem GuardView.counts_le_post (name : String) :
    v.counts aliasName ≤ (v.post false name).counts aliasName := by
  rw [GuardView.post, if_neg Bool.false_ne_true]
  split
  · exact Nat.le_refl _
  · by_cases hname : aliasName = name
    · subst hname
      simp
    · simp [hname]

theorem GuardView.counts_post (h : v.pending = none) :
    (v.post false aliasName).counts aliasName = v.counts aliasName + 1 := by
  simp [GuardView.post, h]

end Answers

/-- Whoever passes is counted, and no count passes that is above the limit. -/
theorem admitted_le {limit : Nat} {labels : List GuardStep} (h : Answered limit labels)
    (aliasName : String) : admitted aliasName labels ≤ (guardBehind labels).counts aliasName ∧
      admitted aliasName labels ≤ limit := by
  induction labels with
  | nil => exact ⟨Nat.le_refl 0, Nat.zero_le limit⟩
  | cons label labels ih =>
      cases label with
      | posted roomId human name answer =>
          obtain ⟨hanswer, hlabels⟩ := h
          obtain ⟨hcount, hlimit⟩ := ih hlabels
          have hkept := hcount.trans (GuardView.counts_le_post name)
          cases human with
          | true =>
              rw [GuardView.answer_human] at hanswer
              subst hanswer
              exact ⟨Nat.zero_le _, Nat.zero_le limit⟩
          | false =>
              cases answer with
              | passed =>
                  obtain ⟨hpending, hwithin⟩ := GuardView.passed_of_answer hanswer
                  rw [admitted]
                  split_ifs with hname
                  · subst hname
                    have hcounted : ((guardBehind labels).post false name).counts name =
                        (guardBehind labels).counts name + 1 := GuardView.counts_post hpending
                    refine ⟨?_, by omega⟩
                    change _ ≤ ((guardBehind labels).post false name).counts name
                    omega
                  · exact ⟨hkept, hlimit⟩
              | limitExceeded => exact ⟨hkept, hlimit⟩
              | paused => exact ⟨hkept, hlimit⟩
      | scheduled roomId name expiresAt =>
          obtain ⟨hcount, hlimit⟩ := ih h
          exact ⟨hcount.trans_eq (GuardView.counts_le_schedule expiresAt name).symm, hlimit⟩
      | cancelled roomId => exact ih h
      | approved roomId => exact ⟨Nat.zero_le _, Nat.zero_le limit⟩
      | readState => exact ih h
      | other => exact ih h

/-- Nobody passes a guard that pauses. -/
theorem not_admittedPaused {limit : Nat} {labels : List GuardStep}
    (h : Answered limit labels) : admittedPaused labels = false := by
  induction labels with
  | nil => rfl
  | cons label labels ih =>
      cases label with
      | posted roomId human name answer =>
          obtain ⟨hanswer, hlabels⟩ := h
          cases human with
          | true => cases answer <;> exact ih hlabels
          | false =>
              cases answer with
              | passed =>
                  rw [admittedPaused, ih hlabels,
                    (GuardView.passed_of_answer hanswer).1]
                  rfl
              | limitExceeded => exact ih hlabels
              | paused => exact ih hlabels
      | scheduled roomId name expiresAt => exact ih h
      | cancelled roomId => exact ih h
      | approved roomId => exact ih h
      | readState => exact ih h
      | other => exact ih h

/-! ## Runs -/

/-- Every room's guard is as its own history tells, and every post was told so. -/
def GuardInv (limits : RoomId → Nat) (x : Snapshot GuardWorld GuardStep) : Prop :=
  ∀ roomId, x.world.maps.guardView roomId = guardBehind (roomHistory roomId x.trace) ∧
    Answered (limits roomId) (roomHistory roomId x.trace)

section Steps

variable {limits : RoomId → Nat} {x : Snapshot GuardWorld GuardStep} {t : Nat}

theorem roomHistory_ran (roomId : RoomId) (label : GuardStep) (es : List (Event GuardStep)) :
    roomHistory roomId (.ran t label :: es) =
      if label.room? = some roomId then label :: roomHistory roomId es
      else roomHistory roomId es := by
  rw [roomHistory, List.filterMap_cons]
  dsimp only
  split_ifs <;> rfl

theorem roomHistory_failed (roomId : RoomId) (label : GuardStep)
    (es : List (Event GuardStep)) :
    roomHistory roomId (.failed t label :: es) = roomHistory roomId es := rfl

/-- A step that does to its room's view what its label says, and nothing to the others. -/
theorem GuardInv.ran (h : GuardInv limits x) {label : GuardStep} {w : GuardWorld}
    (hview : ∀ roomId, w.maps.guardView roomId =
      if label.room? = some roomId then label.apply (x.world.maps.guardView roomId)
      else x.world.maps.guardView roomId)
    (hanswer : ∀ roomId human aliasName answer,
      label = .posted roomId human aliasName answer → answer =
        (x.world.maps.guardView roomId).answer human aliasName (limits roomId)) :
    GuardInv limits (x.record (.ran t label) w) := by
  intro roomId
  obtain ⟨hguard, hanswered⟩ := h roomId
  rw [Snapshot.record_world, Snapshot.record_trace, roomHistory_ran, hview]
  split_ifs with hroom
  · refine ⟨by rw [hguard]; rfl, ?_⟩
    cases label with
    | posted room human aliasName answer =>
        obtain rfl : room = roomId := Option.some.inj hroom
        refine ⟨?_, hanswered⟩
        rw [← hguard]
        exact hanswer room human aliasName answer rfl
    | scheduled room aliasName expiresAt => exact hanswered
    | cancelled room => exact hanswered
    | approved room => exact hanswered
    | readState => exact hanswered
    | other => exact hanswered
  · exact ⟨hguard, hanswered⟩

/-- A step that leaves what the rooms see. -/
theorem GuardInv.unseen (h : GuardInv limits x) {label : GuardStep} {w : GuardWorld}
    (hlabel : label.room? = none)
    (hview : ∀ roomId, w.maps.guardView roomId = x.world.maps.guardView roomId) :
    GuardInv limits (x.record (.ran t label) w) := by
  refine h.ran (fun roomId => ?_) ?_
  · rw [hlabel, if_neg (by simp)]
    exact hview roomId
  · rintro roomId human aliasName answer rfl
    cases hlabel

theorem GuardInv.failed (h : GuardInv limits x) (label : GuardStep) :
    GuardInv limits (x.record (.failed t label) x.world) := h

theorem ite_some_room (roomId roomId' : RoomId) (v v' : GuardView) :
    (if (some roomId : Option RoomId) = some roomId' then v else v') =
      if roomId' = roomId then v else v' := by
  by_cases hroom : roomId' = roomId
  · simp [hroom]
  · rw [if_neg hroom, if_neg fun h => hroom (Option.some.inj h).symm]

theorem readRoomState_preserves (roomId : RoomId) :
    Prog.Preserves guardSystem (GuardInv limits) t (LoopGuard.readRoomState roomId) :=
  .action (fun _ hx _ => hx.unseen rfl fun _ => rfl) fun _ _ hx _ => hx.failed _

theorem cancel_preserves (roomId : RoomId) :
    Prog.Preserves guardSystem (GuardInv limits) t
      (LoopGuard.cancelPendingAutoContinue roomId) := by
  refine .action (fun x hx _ => hx.ran (fun roomId' => ?_) fun _ _ _ _ h => nomatch h)
    fun _ _ hx _ => hx.failed _
  rw [GuardStep.room?, ite_some_room]
  exact GuardMaps.cancelPendingAutoContinue_view _

theorem enforceLoopGuard_preserves (roomId : RoomId) (participant : Participant) :
    Prog.Preserves guardSystem (GuardInv limits) t
      (LoopGuard.enforceLoopGuard (limits roomId) roomId participant) := by
  refine Prog.Preserves.bind (.action (fun x hx _ => hx.ran (fun roomId' => ?_) ?_)
    fun _ _ hx _ => hx.failed _) fun outcome => ?_
  · rw [GuardStep.room?, ite_some_room]
    exact (GuardMaps.enforceLoopGuard_view _ _ _).2
  · rintro roomId' human aliasName answer ⟨⟩
    have hview := @GuardMaps.enforceLoopGuard_view x.world.maps roomId roomId participant
      (limits roomId)
    rw [hview.1, GuardView.Answer.ofOutcome_outcome]
  cases outcome with
  | passed => exact .ret _
  | limitExceeded =>
      refine (readRoomState_preserves roomId).bind fun state => ?_
      dsimp only
      split_ifs
      · exact .err _
      · refine Prog.Preserves.bind (.action (fun x hx _ => hx.ran (fun roomId' => ?_)
          fun _ _ _ _ h => nomatch h) fun _ _ hx _ => hx.failed _) fun _ => .err _
        rw [GuardStep.room?, ite_some_room]
        exact GuardMaps.schedulePendingAutoContinue_view _ _ _ _

theorem completeAutoContinue_preserves (roomId : RoomId) (cycle : Nat) :
    Prog.Preserves guardSystem (GuardInv limits) t
      (LoopGuard.completeAutoContinue roomId cycle) := by
  refine Prog.Preserves.bind (.action (fun _ hx _ => hx.unseen rfl fun _ => rfl)
    fun _ _ hx _ => hx.failed _) fun waiting => ?_
  split_ifs
  · refine Prog.Preserves.bind (.catchErr ((readRoomState_preserves roomId).bind fun _ =>
      .ret _) fun _ => .ret _) fun found => ?_
    cases found with
    | none => exact cancel_preserves roomId
    | some state =>
        refine .action (fun x hx _ => ?_) fun _ _ hx _ => hx.failed _
        unfold LoopGuard.recheck
        split_ifs
        · exact hx.unseen rfl fun _ => rfl
        · refine hx.ran (fun roomId' => ?_) fun _ _ _ _ h => (by cases h)
          rw [GuardStep.room?, ite_some_room]
          exact GuardMaps.cancelPendingAutoContinue_view _
        · refine hx.ran (fun roomId' => ?_) fun _ _ _ _ h => (by cases h)
          rw [GuardStep.room?, ite_some_room]
          exact GuardMaps.approve_view _
  · exact .ret _

theorem guardCall_preserves (call : GuardCall) :
    Prog.Preserves guardSystem (GuardInv limits) t (call.prog limits) := by
  cases call with
  | post roomId participant => exact enforceLoopGuard_preserves roomId participant
  | complete roomId cycle => exact completeAutoContinue_preserves roomId cycle
  | cancel roomId => exact cancel_preserves roomId
  | stores roomId state =>
      exact .action (fun _ hx _ => hx.unseen rfl fun _ => rfl) fun _ _ hx _ => hx.failed _
  | timePasses ms =>
      exact .action (fun _ hx _ => hx.unseen rfl fun _ => rfl) fun _ _ hx _ => hx.failed _

end Steps

/-- Two rooms, the id of one at the start of the other's. -/
def lobby : RoomId := ⟨"lobby", by decide⟩

def lobbyTwo : RoomId := ⟨"lobby-2", by decide⟩

/-- The agent posts in both rooms, and a human in one of them. -/
def postsInBoth : List GuardCall :=
  [.post lobby (participantRecord id "agent" .agent false "bb" 0),
    .post lobbyTwo (participantRecord id "agent" .agent false "bb" 0),
    .post lobby (participantRecord id "host" .human true "aa" 0),
    .post lobby (participantRecord id "agent" .agent false "bb" 0),
    .post lobbyTwo (participantRecord id "agent" .agent false "bb" 0)]

end AgentGather.Server
