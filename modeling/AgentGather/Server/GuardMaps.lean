import Mathlib.Logic.Function.Basic
import AgentGather.Library.OrderedMap
import AgentGather.Protocol.Validation
import AgentGather.Server.Handlers

/-!
# The loop guards of a process

All room servers of a process keep their counters and their pending continuations in the same
maps, a counter under the room's id and the alias as one text.  What one room sees of the maps
is what the memory of a room server holds, and no room sees what happens in another.
-/

namespace AgentGather.Server

open AgentGather.Library AgentGather.Protocol AgentGather.Storage

/-! ## What a guard is for -/

/-- The posts counted of each alias, for whom and until when the guard pauses, and how often
it was re-armed by itself. -/
@[ext] structure GuardView where
  counts : String → Nat
  pending : Option (String × Nat)
  approvals : Nat

namespace GuardView

def initial : GuardView := ⟨fun _ => 0, none, 0⟩

/-- What a post is told. -/
inductive Answer where
  | passed
  | limitExceeded
  | paused
deriving DecidableEq, Repr

variable (v : GuardView) (human : Bool) (aliasName : String)

def answer (limit : Nat) : Answer :=
  if human then .passed
  else if v.pending.isSome then .paused
  else if v.counts aliasName + 1 ≤ limit then .passed
  else .limitExceeded

/-- A human post resets the guard, any other is counted unless the guard pauses. -/
def post : GuardView :=
  if human then ⟨fun _ => 0, none, v.approvals⟩
  else if v.pending.isSome then v
  else { v with counts := Function.update v.counts aliasName (v.counts aliasName + 1) }

/-- A pause that is there is not replaced. -/
def schedule (expiresAt : Nat) : GuardView :=
  if v.pending.isSome then v else { v with pending := some (aliasName, expiresAt) }

def cancel : GuardView := { v with pending := none }

def approve : GuardView := ⟨fun _ => 0, none, v.approvals + 1⟩

end GuardView

/-! ## The memory of a room server -/

/-- What the guard's answer is as an outcome of the code. -/
def GuardView.Answer.outcome : GuardView.Answer → Except Failure GuardOutcome
  | .passed => .ok .passed
  | .limitExceeded => .ok .limitExceeded
  | .paused =>
      .error (.http 429 "loop_guard" "loop guard paused: an automatic continue is pending")

def pendingView (pending : PendingAutoContinue) : String × Nat :=
  (pending.aliasName, pending.expiresAt)

def ServerMemory.guardView (m : ServerMemory) : GuardView where
  counts aliasName := (m.loopCounts.lookup aliasName).getD 0
  pending := m.pendingAutoContinue.map pendingView
  approvals := m.autoContinueCount

section Memory

variable (m : ServerMemory)

theorem getD_lookup_setEntry (key : String) (value : Nat) (entries : List (String × Nat))
    (k : String) : ((setEntry key value entries).lookup k).getD 0 =
      Function.update (fun k => (entries.lookup k).getD 0) key value k := by
  rw [lookup_setEntry]
  by_cases hk : k = key
  · subst hk
    simp
  · rw [Function.update_of_ne hk, if_neg hk]

theorem countPost_view (participant : Participant) (limit : Nat) :
    ((countPost participant limit).run.run m).1 =
        (m.guardView.answer (participant.kind == .human) participant.aliasName limit).outcome ∧
      ((countPost participant limit).run.run m).2.guardView =
        m.guardView.post (participant.kind == .human) participant.aliasName := by
  rw [countPost]
  by_cases hhuman : participant.kind = .human
  · have hview : (participant.kind == .human) = true := beq_iff_eq.mpr hhuman
    rw [if_pos hhuman, hview]
    simp only [clearRoomLoopCounts, cancelPendingAutoContinue, run_bind, run_modify, run_pure]
    refine ⟨rfl, ?_⟩
    cases hp : m.pendingAutoContinue <;> simp [ServerMemory.guardView, GuardView.post]
  · have hview : (participant.kind == .human) = false := beq_eq_false_iff_ne.mpr hhuman
    rw [if_neg hhuman, hview]
    simp only [run_bind, run_get]
    cases hp : m.pendingAutoContinue with
    | some p =>
        simp only [Option.isSome_some, reduceIte, run_bind, run_throw]
        simp [ServerMemory.guardView, GuardView.post, GuardView.answer, hp,
          GuardView.Answer.outcome]
    | none =>
        simp only [Option.isSome_none, Bool.false_eq_true, if_false, run_bind, run_set, run_pure]
        refine ⟨?_, ?_⟩
        · simp only [GuardView.answer, ServerMemory.guardView, hp, Option.map_none,
            Option.isSome_none, Bool.false_eq_true, if_false]
          split <;> rfl
        · ext k
          · simp [ServerMemory.guardView, GuardView.post, hp, getD_lookup_setEntry]
          · simp [ServerMemory.guardView, GuardView.post, hp]
          · simp [ServerMemory.guardView, GuardView.post, hp]

theorem schedulePendingAutoContinue_view (aliasName : String) (delaySeconds now : Nat) :
    ((schedulePendingAutoContinue aliasName delaySeconds now).run.run m).2.guardView =
      m.guardView.schedule aliasName (now + delaySeconds * 1000) := by
  rw [schedulePendingAutoContinue, run_modify]
  cases hp : m.pendingAutoContinue <;>
    simp [ServerMemory.guardView, GuardView.schedule, hp, pendingView]

theorem cancelPendingAutoContinue_view :
    (cancelPendingAutoContinue.run.run m).2.guardView = m.guardView.cancel := by
  rw [cancelPendingAutoContinue, run_modify]
  cases hp : m.pendingAutoContinue <;>
    simp [ServerMemory.guardView, GuardView.cancel, hp]

/-- The second look of a completion approves, cancels, or finds nothing pending. -/
theorem recheckAutoContinue_view (state : RoomState) (now : Nat) :
    ((recheckAutoContinue state now).run.run m).2.guardView =
      if m.guardView.pending = none then m.guardView
      else if state.status ≠ .opened ∨ RoomState.expiredAt state now = true then
        m.guardView.cancel
      else m.guardView.approve := by
  simp only [recheckAutoContinue, run_bind, run_get]
  cases hp : m.pendingAutoContinue with
  | none =>
      simp only [Option.isNone_none, if_true, run_pure]
      simp [ServerMemory.guardView, hp]
  | some p =>
      simp only [Option.isNone_some, Bool.false_eq_true, if_false]
      by_cases hover : state.status ≠ .opened ∨ RoomState.expiredAt state now = true
      · simp only [if_pos hover, run_bind, run_pure, cancelPendingAutoContinue, run_modify]
        simp [ServerMemory.guardView, GuardView.cancel, hp]
      · simp only [if_neg hover, run_bind, run_set, run_pure, clearRoomLoopCounts, run_modify]
        simp [ServerMemory.guardView, GuardView.approve, hp]

end Memory

/-! ## The maps of the process -/

/-- The id of a room that a server serves. -/
abbrev RoomId := { roomId : String // isSafeSlug roomId = true }

/-- `timers` holds the armed timers with the room their callback is for, and `cycles` counts
the timers set so far. -/
structure GuardMaps where
  loopCounts : OrderedMap String Nat
  pendingAutoContinue : OrderedMap String PendingAutoContinue
  autoContinueCounts : OrderedMap String Nat
  timers : List (RoomId × PendingAutoContinue)
  cycles : Nat

namespace GuardMaps

def initial : GuardMaps := ⟨.empty, .empty, .empty, [], 0⟩

def countKey (roomId : RoomId) (aliasName : String) : String :=
  roomId.val ++ ":" ++ aliasName

variable (m : GuardMaps) (roomId : RoomId)

/-- Every key that starts with the room's id and a colon goes. -/
def clearRoomLoopCounts : GuardMaps :=
  { m with loopCounts := m.loopCounts.discard fun key =>
      (roomId.val ++ ":").toList.isPrefixOf key.toList }

def cancelPendingAutoContinue : GuardMaps :=
  match m.pendingAutoContinue.get? roomId.val with
  | none => m
  | some pending =>
      { m with
        timers := m.timers.filter fun timer => timer.2.cycle ≠ pending.cycle
        pendingAutoContinue := m.pendingAutoContinue.delete roomId.val }

/-- `enforceLoopGuard` up to its file access. -/
def enforceLoopGuard (participant : Participant) (limit : Nat) :
    Except Failure GuardOutcome × GuardMaps :=
  if participant.kind = .human then
    (.ok .passed, (m.clearRoomLoopCounts roomId).cancelPendingAutoContinue roomId)
  else if (m.pendingAutoContinue.get? roomId.val).isSome then
    (.error (.http 429 "loop_guard" "loop guard paused: an automatic continue is pending"), m)
  else
    let key := countKey roomId participant.aliasName
    let next := (m.loopCounts.get? key).getD 0 + 1
    (.ok (if next ≤ limit then .passed else .limitExceeded),
      { m with loopCounts := m.loopCounts.set key next })

def schedulePendingAutoContinue (aliasName : String) (delaySeconds now : Nat) : GuardMaps :=
  if (m.pendingAutoContinue.get? roomId.val).isSome then m
  else
    let pending : PendingAutoContinue := ⟨aliasName, m.cycles, now + delaySeconds * 1000⟩
    { m with
      timers := m.timers ++ [(roomId, pending)]
      cycles := m.cycles + 1
      pendingAutoContinue := m.pendingAutoContinue.set roomId.val pending }

/-- What `completeAutoContinue` does to the maps before it appends the approval. -/
def approve : GuardMaps :=
  let cleared : GuardMaps := clearRoomLoopCounts
    { m with pendingAutoContinue := m.pendingAutoContinue.delete roomId.val } roomId
  { cleared with
    autoContinueCounts := cleared.autoContinueCounts.set roomId.val
      ((cleared.autoContinueCounts.get? roomId.val).getD 0 + 1) }

/-- What a room sees of the maps. -/
def guardView : GuardView where
  counts aliasName := (m.loopCounts.get? (countKey roomId aliasName)).getD 0
  pending := (m.pendingAutoContinue.get? roomId.val).map pendingView
  approvals := (m.autoContinueCounts.get? roomId.val).getD 0

/-! ## Rooms do not see each other -/

theorem colon_not_mem : ':' ∉ roomId.val.toList := fun h =>
  absurd (isSlugChar_of_isSafeSlug roomId.property ':' h) (by decide)

variable {roomId} {roomId' : RoomId}

/-- What stands before the first colon is the room's id. -/
theorem takeWhile_colon (rest : List Char) :
    (roomId.val.toList ++ ':' :: rest).takeWhile (· ≠ ':') = roomId.val.toList := by
  have hkeep : ∀ c ∈ roomId.val.toList, decide (c ≠ ':') = true := by
    intro c hc
    rw [decide_eq_true_eq]
    rintro rfl
    exact colon_not_mem roomId hc
  rw [List.takeWhile_append_of_pos hkeep, List.takeWhile_cons_of_neg (by decide),
    List.append_nil]

/-- A key starts with the id of its own room and a colon, even if the id of another room
starts with it. -/
theorem isPrefixOf_countKey_iff {aliasName : String} :
    (roomId.val ++ ":").toList.isPrefixOf (countKey roomId' aliasName).toList = true ↔
      roomId = roomId' := by
  have hcolon : ":".toList = [':'] := rfl
  have hkey : (countKey roomId' aliasName).toList =
      roomId'.val.toList ++ ':' :: aliasName.toList := by
    simp only [countKey, String.toList_append, hcolon, List.append_assoc, List.cons_append,
      List.nil_append]
  rw [List.isPrefixOf_iff_prefix, hkey, String.toList_append, hcolon]
  constructor
  · rintro ⟨rest, hrest⟩
    rw [List.append_assoc, List.singleton_append] at hrest
    have hfront := congrArg (List.takeWhile (· ≠ ':')) hrest
    rw [takeWhile_colon, takeWhile_colon] at hfront
    exact Subtype.ext (String.toList_inj.mp hfront)
  · rintro rfl
    exact ⟨aliasName.toList, by rw [List.append_assoc]; rfl⟩

theorem countKey_inj {aliasName aliasName' : String} :
    countKey roomId aliasName = countKey roomId' aliasName' ↔
      roomId = roomId' ∧ aliasName = aliasName' := by
  constructor
  · intro h
    have hroom : roomId = roomId' := by
      have hown : (roomId.val ++ ":").toList.isPrefixOf
          (countKey roomId aliasName).toList = true := isPrefixOf_countKey_iff.mpr rfl
      rw [h] at hown
      exact isPrefixOf_countKey_iff.mp hown
    subst hroom
    refine ⟨rfl, String.toList_inj.mp ?_⟩
    have hlists := congrArg String.toList h
    simpa only [countKey, String.toList_append, List.append_cancel_left_eq] using hlists
  · rintro ⟨rfl, rfl⟩
    rfl

/-- Clearing a room's counters is seen in that room only. -/
theorem get?_clearRoomLoopCounts (aliasName : String) :
    (m.clearRoomLoopCounts roomId).loopCounts.get? (countKey roomId' aliasName) =
      if roomId' = roomId then none else m.loopCounts.get? (countKey roomId' aliasName) := by
  rw [clearRoomLoopCounts, OrderedMap.get?_discard]
  by_cases hroom : roomId' = roomId
  · rw [if_pos (isPrefixOf_countKey_iff.mpr hroom.symm), if_pos hroom]
  · rw [if_neg fun h => hroom (isPrefixOf_countKey_iff.mp h).symm, if_neg hroom]

theorem val_ne {roomId roomId' : RoomId} (h : roomId' ≠ roomId) : roomId'.val ≠ roomId.val :=
  fun hval => h (Subtype.ext hval)

theorem cancelPendingAutoContinue_view :
    (m.cancelPendingAutoContinue roomId).guardView roomId' =
      if roomId' = roomId then (m.guardView roomId').cancel else m.guardView roomId' := by
  unfold cancelPendingAutoContinue
  by_cases hroom : roomId' = roomId
  · subst hroom
    rw [if_pos rfl]
    split
    · rename_i hnone
      simp [guardView, GuardView.cancel, hnone]
    · simp [guardView, GuardView.cancel, OrderedMap.get?_delete_self]
  · rw [if_neg hroom]
    split
    · rfl
    · simp [guardView, OrderedMap.get?_delete_ne _ (val_ne hroom)]

/-- The guard's answer is that of the room's own view, and only its room sees the post. -/
theorem enforceLoopGuard_view (participant : Participant) (limit : Nat) :
    (m.enforceLoopGuard roomId participant limit).1 =
        ((m.guardView roomId).answer (participant.kind == .human) participant.aliasName
          limit).outcome ∧
      (m.enforceLoopGuard roomId participant limit).2.guardView roomId' =
        if roomId' = roomId then
          (m.guardView roomId').post (participant.kind == .human) participant.aliasName
        else m.guardView roomId' := by
  unfold enforceLoopGuard
  by_cases hhuman : participant.kind = .human
  · have hview : (participant.kind == .human) = true := beq_iff_eq.mpr hhuman
    rw [if_pos hhuman, hview, cancelPendingAutoContinue_view]
    refine ⟨rfl, ?_⟩
    by_cases hroom : roomId' = roomId
    · rw [if_pos hroom, if_pos hroom]
      ext k
      · simp [guardView, GuardView.cancel, GuardView.post, get?_clearRoomLoopCounts, hroom]
      · simp [GuardView.cancel, GuardView.post]
      · rfl
    · rw [if_neg hroom, if_neg hroom]
      ext k
      · simp [guardView, get?_clearRoomLoopCounts, hroom]
      · rfl
      · rfl
  · have hview : (participant.kind == .human) = false := beq_eq_false_iff_ne.mpr hhuman
    rw [if_neg hhuman, hview]
    cases hp : m.pendingAutoContinue.get? roomId.val with
    | some p =>
        simp only [Option.isSome_some, if_true]
        refine ⟨by simp [guardView, GuardView.answer, hp, GuardView.Answer.outcome], ?_⟩
        split
        · rename_i hroom
          subst hroom
          simp [guardView, GuardView.post, hp]
        · rfl
    | none =>
        simp only [Option.isSome_none, Bool.false_eq_true, if_false]
        refine ⟨?_, ?_⟩
        · simp only [GuardView.answer, guardView, hp, Option.map_none, Option.isSome_none,
            Bool.false_eq_true, if_false]
          split <;> rfl
        · by_cases hroom : roomId' = roomId
          · subst hroom
            rw [if_pos rfl]
            ext k
            · by_cases hk : k = participant.aliasName
              · subst hk
                simp [guardView, GuardView.post, hp, OrderedMap.get?_set_self]
              · have hkey : countKey roomId' k ≠ countKey roomId' participant.aliasName :=
                  fun h => hk (countKey_inj.mp h).2
                simp [guardView, GuardView.post, hp, OrderedMap.get?_set_ne _ _ hkey, hk]
            · simp [guardView, GuardView.post, hp]
            · simp [guardView, GuardView.post, hp]
          · rw [if_neg hroom]
            simp [guardView, OrderedMap.get?_set, countKey_inj, hroom]

theorem schedulePendingAutoContinue_view (aliasName : String) (delaySeconds now : Nat) :
    (m.schedulePendingAutoContinue roomId aliasName delaySeconds now).guardView roomId' =
      if roomId' = roomId then
        (m.guardView roomId').schedule aliasName (now + delaySeconds * 1000)
      else m.guardView roomId' := by
  unfold schedulePendingAutoContinue
  by_cases hroom : roomId' = roomId
  · subst hroom
    rw [if_pos rfl]
    cases hp : m.pendingAutoContinue.get? roomId'.val <;>
      simp [guardView, GuardView.schedule, hp, OrderedMap.get?_set_self, pendingView]
  · rw [if_neg hroom]
    split
    · rfl
    · simp [guardView, OrderedMap.get?_set_ne _ _ (val_ne hroom)]

theorem approve_view :
    (m.approve roomId).guardView roomId' =
      if roomId' = roomId then (m.guardView roomId').approve else m.guardView roomId' := by
  unfold approve
  by_cases hroom : roomId' = roomId
  · subst hroom
    rw [if_pos rfl]
    ext k
    · simp [guardView, GuardView.approve, get?_clearRoomLoopCounts]
    · simp [guardView, GuardView.approve, clearRoomLoopCounts, OrderedMap.get?_delete_self]
    · simp [guardView, GuardView.approve, clearRoomLoopCounts, OrderedMap.get?_set_self]
  · rw [if_neg hroom]
    have hval := val_ne hroom
    ext k
    · simp [guardView, get?_clearRoomLoopCounts, hroom]
    · simp [guardView, clearRoomLoopCounts, OrderedMap.get?_delete_ne _ hval]
    · simp [guardView, clearRoomLoopCounts, OrderedMap.get?_set_ne _ _ hval]

/-! ## The memory of a room stands for its part of the maps -/

section Memory

variable {m} {memory : ServerMemory} (h : m.guardView roomId = memory.guardView)

include h

theorem enforceLoopGuard_countPost (participant : Participant) (limit : Nat) :
    (m.enforceLoopGuard roomId participant limit).1 =
        ((countPost participant limit).run.run memory).1 ∧
      (m.enforceLoopGuard roomId participant limit).2.guardView roomId =
        ((countPost participant limit).run.run memory).2.guardView := by
  obtain ⟨hanswer, hview⟩ := @enforceLoopGuard_view m roomId roomId participant limit
  obtain ⟨hanswer', hview'⟩ := countPost_view memory participant limit
  rw [hanswer, hanswer', hview, hview', if_pos rfl, h]
  exact ⟨rfl, rfl⟩

theorem schedulePendingAutoContinue_memory (aliasName : String) (delaySeconds now : Nat) :
    (m.schedulePendingAutoContinue roomId aliasName delaySeconds now).guardView roomId =
      ((Server.schedulePendingAutoContinue aliasName delaySeconds now).run.run
        memory).2.guardView := by
  rw [schedulePendingAutoContinue_view, if_pos rfl, h, Server.schedulePendingAutoContinue_view]

theorem cancelPendingAutoContinue_memory :
    (m.cancelPendingAutoContinue roomId).guardView roomId =
      (Server.cancelPendingAutoContinue.run.run memory).2.guardView := by
  rw [cancelPendingAutoContinue_view, if_pos rfl, h, Server.cancelPendingAutoContinue_view]

/-- The second look of a completion, where something is pending in an open room. -/
theorem approve_recheckAutoContinue {state : RoomState} {now : Nat}
    (hpending : (m.pendingAutoContinue.get? roomId.val).isSome)
    (hopen : state.status = .opened) (hexpired : RoomState.expiredAt state now = false) :
    (m.approve roomId).guardView roomId =
      ((recheckAutoContinue state now).run.run memory).2.guardView := by
  have hsome : memory.guardView.pending ≠ none := by
    rw [← h]
    simpa [guardView, ← Option.isSome_iff_ne_none] using hpending
  have hgoes : ¬ (state.status ≠ .opened ∨ RoomState.expiredAt state now = true) := by
    simp [hopen, hexpired]
  rw [approve_view, if_pos rfl, recheckAutoContinue_view, if_neg hsome, if_neg hgoes, h]

end Memory

end GuardMaps

end AgentGather.Server
