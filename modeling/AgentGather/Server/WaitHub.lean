import AgentGather.Library.OrderedMap
import Mathlib.Data.List.Induction
import Mathlib.Logic.Function.Basic

/-!
# The hub of the waiters

A waiter stands in the set of its room until it is notified or its signal is aborted.  A set is
held by reference, by the hub and by every waiter that was put into it; the hub drops a set that
has become empty, and makes another for the next waiter.
-/

namespace AgentGather.Server

open AgentGather.Library

/-! ## The hub -/

/-- `waiters` holds the set of each room, by its number.  The waiters are numbered as well:
`dones` tells what the callback of each has captured, the room and the set. -/
structure WaitHub where
  waiters : OrderedMap String Nat
  made : Nat
  sets : Nat → List Nat
  dones : List (String × Nat)
  listening : List Nat
  resolved : List Nat

namespace WaitHub

def new : WaitHub := ⟨.empty, 0, fun _ => [], [], [], []⟩

/-- The next waiter is put into a set that has these members, and its signal listens. -/
def enter (hub : WaitHub) (roomId : String) (set : Nat) (members : List Nat) : WaitHub :=
  { hub with
    waiters := hub.waiters.set roomId set
    sets := Function.update hub.sets set (members ++ [hub.dones.length])
    dones := hub.dones ++ [(roomId, set)]
    listening := hub.listening ++ [hub.dones.length] }

@[simp] theorem enter_waiters (hub : WaitHub) (roomId : String) (set : Nat)
    (members : List Nat) : (hub.enter roomId set members).waiters = hub.waiters.set roomId set :=
  rfl

@[simp] theorem enter_sets (hub : WaitHub) (roomId : String) (set : Nat) (members : List Nat) :
    (hub.enter roomId set members).sets =
      Function.update hub.sets set (members ++ [hub.dones.length]) := rfl

@[simp] theorem enter_dones (hub : WaitHub) (roomId : String) (set : Nat) (members : List Nat) :
    (hub.enter roomId set members).dones = hub.dones ++ [(roomId, set)] := rfl

/-- The set of the room, or else a new one, takes the next waiter. -/
def wait (hub : WaitHub) (roomId : String) : WaitHub :=
  match hub.waiters.get? roomId with
  | some set => hub.enter roomId set (hub.sets set)
  | none => { hub with made := hub.made + 1 }.enter roomId hub.made []

/-- The callback of a waiter. -/
def done (hub : WaitHub) (waiter : Nat) : WaitHub :=
  match hub.dones[waiter]? with
  | none => hub
  | some (roomId, set) =>
      let left := (hub.sets set).filter (· ≠ waiter)
      { hub with
        waiters := if left = [] then hub.waiters.delete roomId else hub.waiters
        sets := Function.update hub.sets set left
        listening := hub.listening.filter (· ≠ waiter)
        resolved := waiter :: hub.resolved }

/-- The signal of a waiter is aborted; it has at most one listener. -/
def abort (hub : WaitHub) (waiter : Nat) : WaitHub :=
  if waiter ∈ hub.listening then hub.done waiter else hub

def notify (hub : WaitHub) (roomId : String) : WaitHub :=
  match hub.waiters.get? roomId with
  | none => hub
  | some set => (hub.sets set).foldl done hub

end WaitHub

/-- What happens to the hub. -/
inductive HubStep where
  | wait (roomId : String)
  | abort (waiter : Nat)
  | notify (roomId : String)
deriving DecidableEq, Repr

def WaitHub.step (hub : WaitHub) : HubStep → WaitHub
  | .wait roomId => hub.wait roomId
  | .abort waiter => hub.abort waiter
  | .notify roomId => hub.notify roomId

/-- The hub after these steps. -/
def WaitHub.after (steps : List HubStep) : WaitHub := steps.foldl WaitHub.step .new

/-! ## The invariant -/

/-- The waiter is in the hub: in the set that its room has now, and its signal has a listener. -/
structure WaitHub.Keeps (hub : WaitHub) (waiter : Nat) (roomId : String) (set : Nat) : Prop where
  current : hub.waiters.get? roomId = some set
  member : waiter ∈ hub.sets set
  listens : waiter ∈ hub.listening

/-- Waiters that were not released are kept; nothing else is, and no empty set. -/
structure WaitHub.Tidy (hub : WaitHub) : Prop where
  waiting : ∀ waiter roomId set, hub.dones[waiter]? = some (roomId, set) →
    waiter ∉ hub.resolved → hub.Keeps waiter roomId set
  nonempty : ∀ roomId set, hub.waiters.get? roomId = some set → hub.sets set ≠ []
  nodup : ∀ roomId set, hub.waiters.get? roomId = some set → (hub.sets set).Nodup
  members : ∀ roomId set, hub.waiters.get? roomId = some set → ∀ waiter ∈ hub.sets set,
    waiter ∉ hub.resolved ∧ hub.dones[waiter]? = some (roomId, set)
  numbered : ∀ roomId set, hub.waiters.get? roomId = some set → set < hub.made
  listeners : ∀ waiter ∈ hub.listening, waiter ∉ hub.resolved ∧ waiter < hub.dones.length
  past : ∀ waiter ∈ hub.resolved, waiter < hub.dones.length

namespace WaitHub

theorem tidy_new : new.Tidy where
  waiting _ _ _ h := nomatch h
  nonempty _ _ h := nomatch h
  nodup _ _ h := nomatch h
  members _ _ h := nomatch h
  numbered _ _ h := nomatch h
  listeners _ h := nomatch h
  past _ h := nomatch h

variable {hub : WaitHub}

/-- The sets of two rooms differ. -/
theorem Tidy.room_eq (h : hub.Tidy) {roomId roomId' : String} {set : Nat}
    (hset : hub.waiters.get? roomId = some set) (hset' : hub.waiters.get? roomId' = some set) :
    roomId = roomId' := by
  obtain ⟨waiter, hwaiter⟩ := List.exists_mem_of_ne_nil _ (h.nonempty roomId set hset)
  have hroom := (h.members roomId set hset waiter hwaiter).2
  have hroom' := (h.members roomId' set hset' waiter hwaiter).2
  rw [hroom] at hroom'
  exact (Prod.mk.inj (Option.some.inj hroom')).1

/-! ## Steps -/

/-- A set takes another waiter, if it is the room's own set or a new one. -/
theorem Tidy.enter (h : hub.Tidy) {roomId : String} {set : Nat} {members : List Nat}
    (hmade : set < hub.made)
    (hfree : ∀ other, hub.waiters.get? other = some set → other = roomId)
    (hmembers : hub.waiters.get? roomId = some set ∧ members = hub.sets set ∨
      hub.waiters.get? roomId = none ∧ members = []) :
    (hub.enter roomId set members).Tidy := by
  have hfresh : hub.dones.length ∉ hub.resolved := fun hmem => Nat.lt_irrefl _ (h.past _ hmem)
  have hmap (other : String) : (hub.enter roomId set members).waiters.get? other =
      if other = roomId then some set else hub.waiters.get? other := by
    rw [enter_waiters, OrderedMap.get?_set]
  have hown : (hub.enter roomId set members).sets set = members ++ [hub.dones.length] := by
    rw [enter_sets, Function.update_self]
  have hother {other : Nat} (hne : other ≠ set) :
      (hub.enter roomId set members).sets other = hub.sets other := by
    rw [enter_sets, Function.update_of_ne hne]
  have hbefore : ∀ waiter ∈ members, waiter ∉ hub.resolved ∧
      hub.dones[waiter]? = some (roomId, set) := by
    intro waiter hwaiter
    rcases hmembers with ⟨hset, rfl⟩ | ⟨-, rfl⟩
    · exact h.members roomId set hset waiter hwaiter
    · cases hwaiter
  have hdone {waiter : Nat} {entry : String × Nat} (hentry : hub.dones[waiter]? = some entry) :
      (hub.enter roomId set members).dones[waiter]? = some entry := by
    rw [enter_dones, List.getElem?_append_left (List.getElem?_eq_some_iff.mp hentry).1, hentry]
  have hlast : (hub.enter roomId set members).dones[hub.dones.length]? = some (roomId, set) :=
    List.getElem?_concat_length
  -- A set of the hub is the set that was entered, or one of another room.
  have hcases {other : String} {set' : Nat}
      (hset' : (hub.enter roomId set members).waiters.get? other = some set') :
      other = roomId ∧ set' = set ∨
        other ≠ roomId ∧ set' ≠ set ∧ hub.waiters.get? other = some set' := by
    rw [hmap] at hset'
    by_cases hroom : other = roomId
    · rw [if_pos hroom] at hset'
      exact .inl ⟨hroom, (Option.some.inj hset').symm⟩
    · rw [if_neg hroom] at hset'
      refine .inr ⟨hroom, ?_, hset'⟩
      rintro rfl
      exact hroom (hfree other hset')
  constructor
  · intro waiter room set' hentry hunresolved
    by_cases hnew : waiter = hub.dones.length
    · subst hnew
      rw [hlast] at hentry
      cases hentry
      refine ⟨?_, ?_, ?_⟩
      · rw [hmap, if_pos rfl]
      · rw [hown]
        exact List.mem_append_right _ List.mem_cons_self
      · exact List.mem_append_right _ List.mem_cons_self
    · have hold : hub.dones[waiter]? = some (room, set') := by
        have hlt := (List.getElem?_eq_some_iff.mp hentry).1
        rw [enter_dones, List.length_append, List.length_singleton] at hlt
        rw [enter_dones, List.getElem?_append_left (by omega)] at hentry
        exact hentry
      obtain ⟨hcurrent, hmember, hlistens⟩ := h.waiting waiter room set' hold hunresolved
      refine ⟨?_, ?_, List.mem_append_left _ hlistens⟩
      · rw [hmap]
        split
        · rename_i hroom
          rw [hroom] at hcurrent
          rcases hmembers with ⟨hset, -⟩ | ⟨hnone, -⟩
          · rw [← hset, hcurrent]
          · rw [hnone] at hcurrent
            cases hcurrent
        · exact hcurrent
      · by_cases hset' : set' = set
        · subst hset'
          rw [hown]
          rw [hfree room hcurrent] at hcurrent
          rcases hmembers with ⟨-, rfl⟩ | ⟨hnone, -⟩
          · exact List.mem_append_left _ hmember
          · rw [hnone] at hcurrent
            cases hcurrent
        · rw [hother hset']
          exact hmember
  · intro room set' hset'
    rcases hcases hset' with ⟨rfl, rfl⟩ | ⟨-, hne, hold⟩
    · rw [hown]
      exact List.append_ne_nil_of_right_ne_nil _ (List.cons_ne_nil _ _)
    · rw [hother hne]
      exact h.nonempty room set' hold
  · intro room set' hset'
    rcases hcases hset' with ⟨rfl, rfl⟩ | ⟨-, hne, hold⟩
    · rw [hown, List.nodup_append]
      refine ⟨?_, List.nodup_singleton _, ?_⟩
      · rcases hmembers with ⟨hset, rfl⟩ | ⟨-, rfl⟩
        · exact h.nodup room set' hset
        · exact List.nodup_nil
      · intro waiter hwaiter last hlast' heq
        rw [List.mem_singleton.mp hlast'] at heq
        have hlt := (List.getElem?_eq_some_iff.mp (hbefore waiter hwaiter).2).1
        omega
    · rw [hother hne]
      exact h.nodup room set' hold
  · intro room set' hset' waiter hwaiter
    rcases hcases hset' with ⟨rfl, rfl⟩ | ⟨-, hne, hold⟩
    · rw [hown, List.mem_append, List.mem_singleton] at hwaiter
      rcases hwaiter with hwaiter | rfl
      · exact ⟨(hbefore waiter hwaiter).1, hdone (hbefore waiter hwaiter).2⟩
      · exact ⟨hfresh, hlast⟩
    · rw [hother hne] at hwaiter
      obtain ⟨hunresolved, hentry⟩ := h.members room set' hold waiter hwaiter
      exact ⟨hunresolved, hdone hentry⟩
  · intro room set' hset'
    rcases hcases hset' with ⟨rfl, rfl⟩ | ⟨-, -, hold⟩
    · exact hmade
    · exact h.numbered room set' hold
  · intro waiter hwaiter
    rw [enter_dones, List.length_append, List.length_singleton]
    rcases List.mem_append.mp hwaiter with hwaiter | hwaiter
    · obtain ⟨hunresolved, hlt⟩ := h.listeners waiter hwaiter
      exact ⟨hunresolved, Nat.lt_succ_of_lt hlt⟩
    · rw [List.mem_singleton.mp hwaiter]
      exact ⟨hfresh, Nat.lt_succ_self _⟩
  · intro waiter hwaiter
    rw [enter_dones, List.length_append, List.length_singleton]
    exact Nat.lt_succ_of_lt (h.past waiter hwaiter)

theorem Tidy.wait (h : hub.Tidy) (roomId : String) : (hub.wait roomId).Tidy := by
  unfold WaitHub.wait
  cases hset : hub.waiters.get? roomId with
  | some set =>
      apply h.enter (h.numbered roomId set hset)
      · intro other hother
        exact h.room_eq hother hset
      · exact .inl ⟨hset, rfl⟩
  | none =>
      have hmore : { hub with made := hub.made + 1 }.Tidy :=
        { nonempty := h.nonempty
          nodup := h.nodup
          members := h.members
          listeners := h.listeners
          past := h.past
          waiting := fun waiter room set hentry hunresolved =>
            have hkept := h.waiting waiter room set hentry hunresolved
            ⟨hkept.current, hkept.member, hkept.listens⟩
          numbered := fun room set hset => Nat.lt_succ_of_lt (h.numbered room set hset) }
      apply hmore.enter (Nat.lt_succ_self _)
      · intro other hother
        exact absurd (h.numbered other hub.made hother) (Nat.lt_irrefl _)
      · exact .inr ⟨hset, rfl⟩

theorem done_eq {waiter : Nat} {roomId : String} {set : Nat}
    (hentry : hub.dones[waiter]? = some (roomId, set)) :
    hub.done waiter =
      { hub with
        waiters := if (hub.sets set).filter (· ≠ waiter) = [] then hub.waiters.delete roomId
          else hub.waiters
        sets := Function.update hub.sets set ((hub.sets set).filter (· ≠ waiter))
        listening := hub.listening.filter (· ≠ waiter)
        resolved := waiter :: hub.resolved } := by
  rw [WaitHub.done, hentry]

theorem done_dones (waiter : Nat) : (hub.done waiter).dones = hub.dones := by
  cases hentry : hub.dones[waiter]? with
  | none => rw [WaitHub.done, hentry]
  | some entry => rw [done_eq hentry]

theorem mem_resolved_done {waiter other : Nat} (hlt : waiter < hub.dones.length) :
    other ∈ (hub.done waiter).resolved ↔ other = waiter ∨ other ∈ hub.resolved := by
  rw [done_eq (List.getElem?_eq_getElem hlt), List.mem_cons]

theorem mem_listening_done {waiter other : Nat} (hlt : waiter < hub.dones.length) :
    other ∈ (hub.done waiter).listening ↔ other ∈ hub.listening ∧ other ≠ waiter := by
  rw [done_eq (List.getElem?_eq_getElem hlt), List.mem_filter, decide_eq_true_iff]

theorem mem_sets_done {waiter : Nat} {roomId : String} {set : Nat}
    (hentry : hub.dones[waiter]? = some (roomId, set)) (other set' : Nat) :
    other ∈ (hub.done waiter).sets set' ↔
      other ∈ hub.sets set' ∧ (set' = set → other ≠ waiter) := by
  rw [done_eq hentry]
  by_cases hset : set' = set
  · subst hset
    simp [List.mem_filter]
  · simp [hset]

/-- A set that the hub still has was there before, and somebody is left in it. -/
theorem Tidy.get?_done (h : hub.Tidy) {waiter : Nat} {roomId room : String} {set set' : Nat}
    (hentry : hub.dones[waiter]? = some (roomId, set))
    (hcurrent : hub.waiters.get? roomId = some set) :
    (hub.done waiter).waiters.get? room = some set' ↔
      hub.waiters.get? room = some set' ∧
        ∃ other, other ∈ hub.sets set' ∧ (set' = set → other ≠ waiter) := by
  have hleft : (hub.sets set).filter (· ≠ waiter) = [] ↔
      ¬ ∃ other, other ∈ hub.sets set ∧ other ≠ waiter := by
    rw [List.filter_eq_nil_iff]
    simp
  rw [done_eq hentry]
  by_cases hset : set' = set
  · subst hset
    by_cases hempty : (hub.sets set').filter (· ≠ waiter) = []
    · simp only [hempty, if_true, OrderedMap.get?_delete, forall_true_left]
      constructor
      · intro hget
        split at hget
        · cases hget
        · rename_i hroom
          exact (hroom (h.room_eq hget hcurrent)).elim
      · rintro ⟨-, hsome⟩
        exact (hleft.mp hempty hsome).elim
    · simp only [if_neg hempty, forall_true_left]
      exact ⟨fun hget => ⟨hget, not_not.mp (hleft.not.mp hempty)⟩, And.left⟩
  · have hother (hget : hub.waiters.get? room = some set') : room ≠ roomId := by
      rintro rfl
      exact hset (Option.some.inj (hget.symm.trans hcurrent))
    have hmember (hget : hub.waiters.get? room = some set') :
        ∃ other, other ∈ hub.sets set' ∧ (set' = set → other ≠ waiter) := by
      obtain ⟨other, hmem⟩ := List.exists_mem_of_ne_nil _ (h.nonempty room set' hget)
      exact ⟨other, hmem, fun heq => (hset heq).elim⟩
    dsimp only
    split
    · rw [OrderedMap.get?_delete]
      split
      · rename_i hroom
        constructor
        · intro hget
          cases hget
        · rintro ⟨hget, -⟩
          exact (hother hget hroom).elim
      · exact ⟨fun hget => ⟨hget, hmember hget⟩, And.left⟩
    · exact ⟨fun hget => ⟨hget, hmember hget⟩, And.left⟩

/-- A waiter that was not released before leaves the hub, and with it a set that is empty then. -/
theorem Tidy.done (h : hub.Tidy) {waiter : Nat} (hunresolved : waiter ∉ hub.resolved) :
    (hub.done waiter).Tidy := by
  cases hentry : hub.dones[waiter]? with
  | none =>
      rw [WaitHub.done, hentry]
      exact h
  | some entry =>
      obtain ⟨roomId, set⟩ := entry
      obtain ⟨hcurrent, hmember, -⟩ := h.waiting waiter roomId set hentry hunresolved
      have hlt : waiter < hub.dones.length := (List.getElem?_eq_some_iff.mp hentry).1
      have hold {room : String} {set' : Nat}
          (hset' : (hub.done waiter).waiters.get? room = some set') :
          hub.waiters.get? room = some set' := ((h.get?_done hentry hcurrent).mp hset').1
      constructor
      · intro other room set' hother hnot
        rw [done_dones] at hother
        rw [mem_resolved_done hlt, not_or] at hnot
        obtain ⟨hcurrent', hmember', hlistens'⟩ := h.waiting other room set' hother hnot.2
        refine ⟨?_, ?_, ?_⟩
        · rw [h.get?_done hentry hcurrent]
          exact ⟨hcurrent', other, hmember', fun _ => hnot.1⟩
        · rw [mem_sets_done hentry]
          exact ⟨hmember', fun _ => hnot.1⟩
        · rw [mem_listening_done hlt]
          exact ⟨hlistens', hnot.1⟩
      · intro room set' hset'
        obtain ⟨-, other, hleft⟩ := (h.get?_done hentry hcurrent).mp hset'
        rw [← mem_sets_done hentry] at hleft
        exact List.ne_nil_of_mem hleft
      · intro room set' hset'
        have hnodup := h.nodup room set' (hold hset')
        rw [done_eq hentry]
        by_cases hset : set' = set
        · subst hset
          simpa using hnodup.filter _
        · simpa [hset] using hnodup
      · intro room set' hset' other hother
        rw [mem_sets_done hentry] at hother
        obtain ⟨hnot, hentry'⟩ := h.members room set' (hold hset') other hother.1
        rw [mem_resolved_done hlt, done_dones, not_or]
        refine ⟨⟨?_, hnot⟩, hentry'⟩
        rintro rfl
        rw [hentry] at hentry'
        exact hother.2 (Prod.mk.inj (Option.some.inj hentry')).2.symm rfl
      · intro room set' hset'
        rw [done_eq hentry]
        exact h.numbered room set' (hold hset')
      · intro other hother
        rw [mem_listening_done hlt] at hother
        obtain ⟨hnot, hlt'⟩ := h.listeners other hother.1
        rw [mem_resolved_done hlt, done_dones, not_or]
        exact ⟨⟨hother.2, hnot⟩, hlt'⟩
      · intro other hother
        rw [done_dones]
        rcases (mem_resolved_done hlt).mp hother with rfl | hother
        · exact hlt
        · exact h.past other hother

theorem Tidy.abort (h : hub.Tidy) (waiter : Nat) : (hub.abort waiter).Tidy := by
  unfold WaitHub.abort
  split
  · rename_i hlistens
    exact h.done (h.listeners waiter hlistens).1
  · exact h

/-- Waiters are released one after the other. -/
theorem Tidy.releaseAll (h : hub.Tidy) {released : List Nat} (hnodup : released.Nodup)
    (hunresolved : ∀ waiter ∈ released, waiter ∉ hub.resolved ∧ waiter < hub.dones.length) :
    (released.foldl WaitHub.done hub).Tidy ∧
      (released.foldl WaitHub.done hub).dones = hub.dones ∧
      ∀ other, other ∈ (released.foldl WaitHub.done hub).resolved ↔
        other ∈ released ∨ other ∈ hub.resolved := by
  induction released generalizing hub with
  | nil => exact ⟨h, rfl, fun other => by simp⟩
  | cons waiter released ih =>
      obtain ⟨hnot, hnodup⟩ := List.nodup_cons.mp hnodup
      obtain ⟨hfirst, hlt⟩ := hunresolved waiter List.mem_cons_self
      have hrest : ∀ other ∈ released, other ∉ (hub.done waiter).resolved ∧
          other < (hub.done waiter).dones.length := by
        intro other hother
        obtain ⟨hfree, hlt'⟩ := hunresolved other (List.mem_cons_of_mem _ hother)
        rw [mem_resolved_done hlt, done_dones, not_or]
        refine ⟨⟨?_, hfree⟩, hlt'⟩
        rintro rfl
        exact hnot hother
      obtain ⟨htidy, hdones, hresolved⟩ := ih (h.done hfirst) hnodup hrest
      rw [List.foldl_cons]
      refine ⟨htidy, hdones.trans (done_dones waiter), fun other => ?_⟩
      rw [hresolved, mem_resolved_done hlt, List.mem_cons]
      tauto

/-- The waiters of the room, and no others, are released. -/
theorem Tidy.notify (h : hub.Tidy) (roomId : String) :
    (hub.notify roomId).Tidy ∧ (hub.notify roomId).dones = hub.dones ∧
      ∀ waiter, waiter ∈ (hub.notify roomId).resolved ↔
        waiter ∈ hub.resolved ∨ ∃ set, hub.dones[waiter]? = some (roomId, set) := by
  unfold WaitHub.notify
  cases hset : hub.waiters.get? roomId with
  | none =>
      refine ⟨h, rfl, fun waiter => ⟨.inl, ?_⟩⟩
      rintro (hresolved | ⟨set, hentry⟩)
      · exact hresolved
      · by_contra hunresolved
        have hcurrent := (h.waiting waiter roomId set hentry hunresolved).current
        rw [hset] at hcurrent
        cases hcurrent
  | some set =>
      have hmembers : ∀ waiter ∈ hub.sets set, waiter ∉ hub.resolved ∧
          waiter < hub.dones.length := by
        intro waiter hwaiter
        obtain ⟨hunresolved, hentry⟩ := h.members roomId set hset waiter hwaiter
        exact ⟨hunresolved, (List.getElem?_eq_some_iff.mp hentry).1⟩
      obtain ⟨htidy, hdones, hresolved⟩ := h.releaseAll (h.nodup roomId set hset) hmembers
      refine ⟨htidy, hdones, fun waiter => ?_⟩
      rw [hresolved]
      constructor
      · rintro (hwaiter | hwaiter)
        · exact .inr ⟨set, (h.members roomId set hset waiter hwaiter).2⟩
        · exact .inl hwaiter
      · rintro (hwaiter | ⟨set', hentry⟩)
        · exact .inr hwaiter
        · by_cases hunresolved : waiter ∈ hub.resolved
          · exact .inr hunresolved
          · obtain ⟨hcurrent, hmember, -⟩ := h.waiting waiter roomId set' hentry hunresolved
            rw [hset] at hcurrent
            rw [Option.some.inj hcurrent]
            exact .inl hmember

theorem Tidy.step (h : hub.Tidy) (s : HubStep) : (hub.step s).Tidy := by
  cases s with
  | wait roomId => exact h.wait roomId
  | abort waiter => exact h.abort waiter
  | notify roomId => exact (h.notify roomId).1

/-! ## Runs -/

theorem after_concat (steps : List HubStep) (s : HubStep) :
    after (steps ++ [s]) = (after steps).step s := List.foldl_concat ..

theorem tidy_after (steps : List HubStep) : (after steps).Tidy := by
  induction steps using List.reverseRecOn with
  | nil => exact tidy_new
  | append_singleton steps s ih =>
      rw [after_concat]
      exact ih.step s

/-- What a step releases. -/
def Releases (waiter : Nat) (roomId : String) (s : HubStep) : Prop :=
  s = .notify roomId ∨ s = .abort waiter

/-- The callbacks stay, and a step releases the waiter it should and no other. -/
theorem Tidy.step_spec (h : hub.Tidy) (s : HubStep) {waiter : Nat} {roomId : String}
    {set : Nat} (hentry : hub.dones[waiter]? = some (roomId, set)) :
    (hub.step s).dones[waiter]? = some (roomId, set) ∧
      (waiter ∈ (hub.step s).resolved ↔ waiter ∈ hub.resolved ∨ Releases waiter roomId s) := by
  have hlt : waiter < hub.dones.length := (List.getElem?_eq_some_iff.mp hentry).1
  cases s with
  | wait other =>
      have hdones : ∃ entry, (hub.wait other).dones = hub.dones ++ [entry] := by
        unfold WaitHub.wait
        split
        · exact ⟨_, rfl⟩
        · exact ⟨_, rfl⟩
      have hresolved : (hub.wait other).resolved = hub.resolved := by
        unfold WaitHub.wait
        split
        · rfl
        · rfl
      obtain ⟨entry, hdones⟩ := hdones
      rw [WaitHub.step, hdones, hresolved, List.getElem?_append_left hlt]
      simp [hentry, Releases]
  | abort other =>
      rw [WaitHub.step, WaitHub.abort]
      split
      · rename_i hlistens
        rw [done_dones, mem_resolved_done (h.listeners other hlistens).2]
        simp [hentry, Releases, or_comm, eq_comm]
      · rename_i hlistens
        refine ⟨hentry, .inl, ?_⟩
        rintro (hresolved | hreleases)
        · exact hresolved
        · by_contra hunresolved
          rcases hreleases with hreleases | hreleases
          · cases hreleases
          · cases hreleases
            exact hlistens (h.waiting waiter roomId set hentry hunresolved).listens
  | notify other =>
      obtain ⟨-, hdones, hresolved⟩ := h.notify other
      rw [WaitHub.step, hdones, hresolved, hentry]
      simp [Releases, Prod.ext_iff, eq_comm]

/-- A waiter is released by the first notification of its room behind it, or else by its
signal, and by nothing else. -/
theorem resolved_iff (before later : List HubStep) (roomId : String) :
    (after before).dones.length ∈ (after (before ++ .wait roomId :: later)).resolved ↔
      ∃ s ∈ later, Releases (after before).dones.length roomId s := by
  have hentered : ∃ set, (after (before ++ .wait roomId :: later)).dones[
      (after before).dones.length]? = some (roomId, set) ∧
      ((after before).dones.length ∈ (after (before ++ .wait roomId :: later)).resolved ↔
        ∃ s ∈ later, Releases (after before).dones.length roomId s) := by
    induction later using List.reverseRecOn with
    | nil =>
        rw [after_concat]
        have hunresolved : (after before).dones.length ∉ (after before).resolved :=
          fun hmem => Nat.lt_irrefl _ ((tidy_after before).past _ hmem)
        rw [WaitHub.step, WaitHub.wait]
        split
        · exact ⟨_, List.getElem?_concat_length, by simpa [WaitHub.enter] using hunresolved⟩
        · exact ⟨_, List.getElem?_concat_length, by simpa [WaitHub.enter] using hunresolved⟩
    | append_singleton later s ih =>
        obtain ⟨set, hentry, hresolved⟩ := ih
        have hstep := (tidy_after (before ++ .wait roomId :: later)).step_spec s hentry
        rw [← List.cons_append, ← List.append_assoc, after_concat]
        refine ⟨set, hstep.1, ?_⟩
        rw [hstep.2, hresolved]
        simp [or_and_right, exists_or]
  exact hentered.choose_spec.2

end WaitHub

end AgentGather.Server
