import AgentGather.Storage.DeviceDiscipline

/-!
# Snapshots and their rows

A snapshot never outlives its row: once no call is under way, every snapshot that is stored
has a row.  A snapshot only goes by a call that deletes its own room.
-/

namespace AgentGather.Storage

open AgentGather.Library AgentGather.Protocol

variable {digest : List Char → String} {process : Nat → Nat} {calls : List DeviceCall}

/-- No two of these rooms have the same digest. -/
def CollisionFree (digest : List Char → String) (rooms : Set JoinedRoomTarget) : Prop :=
  ∀ a ∈ rooms, ∀ b ∈ rooms,
    digest (joinedHistoryKey a) = digest (joinedHistoryKey b) →
      joinedHistoryKey a = joinedHistoryKey b

/-- Rooms without collisions have snapshots of their own. -/
theorem CollisionFree.eq_of_path {rooms : Set JoinedRoomTarget}
    (h : CollisionFree digest rooms) {a b : JoinedRoomTarget} (ha : a ∈ rooms)
    (hb : b ∈ rooms) (hpath : joinedHistoryPath digest a = joinedHistoryPath digest b) :
    a = b := by
  have hdigest : digest (joinedHistoryKey a) = digest (joinedHistoryKey b) :=
    (String.append_left_inj ".json").mp hpath
  exact joinedHistoryKey_injective (h a ha b hb hdigest)

/-- Nothing crashed, and of the calls that delete rooms no step failed. -/
structure Undisturbed (calls : List DeviceCall) (es : List (Event DeviceStep)) : Prop where
  noCrash : ∀ p, .crashed p ∉ es
  noFailedDelete : ∀ t l call, calls[t]? = some call → call.deleted ≠ [] → .failed t l ∉ es

/-- A caller that is over owes nothing. -/
theorem not_owes_of_quiescent {home : DeviceWorld}
    (hhome : ∀ path, (home.snapshots path).isSome → HasRow digest path home.rooms)
    {c : Config DeviceWorld DeviceStep Failure Unit}
    (h : (deviceSystem process).Reachable (device digest home calls) c)
    (hquiet : Undisturbed calls c.snap.trace) (hquiescent : System.Quiescent c) (t : Nat)
    (path : String) : ¬ Owes digest calls t path c.snap.trace := by
  rintro ⟨⟨call, key, hcall, hkey, rfl⟩, ⟨rooms, hwrote⟩, hnot⟩
  have hstart : (System.thread (device digest home calls) t).isSome := by
    simp [System.thread, device, hcall]
  obtain ⟨p, hp⟩ := Option.isSome_iff_exists.mp
    (System.isSome_thread_of_noCrash h hquiet.noCrash hstart)
  obtain ⟨-, hends⟩ := device_holdsTo hhome h
  have hend := hends t p hp
  have hover : p.isOver = true := by
    rcases hquiescent t p hp with hover | hunbegun
    · exact hover
    · simpa [Event.isOf] using hunbegun _ hwrote
  cases p with
  | ret a => exact hnot (hend call key hcall hkey)
  | err e =>
      obtain ⟨l, hfailed⟩ := hend
      exact hquiet.noFailedDelete t l call hcall (List.ne_nil_of_mem hkey) hfailed
  | act label ready effect next failed => cases hover

/-- A snapshot never outlives its row.  In every undisturbed run, whenever no call is under
way, every snapshot has a row; and in every run, a snapshot of one of the rooms in play only
goes by the step of a call that deletes this very room. -/
theorem snapshots_haveRows (digest : List Char → String) (process : Nat → Nat)
    (home : DeviceWorld) (calls : List DeviceCall) (rooms : Set JoinedRoomTarget)
    (hdigest : CollisionFree digest rooms)
    (hrooms : ∀ call ∈ calls, ∀ key ∈ call.deleted, key ∈ rooms)
    (hhome : ∀ path, (home.snapshots path).isSome → HasRow digest path home.rooms)
    {c : Config DeviceWorld DeviceStep Failure Unit}
    (h : (deviceSystem process).Reachable (device digest home calls) c) :
    (Undisturbed calls c.snap.trace → System.Quiescent c →
      ∀ path, (c.snap.world.snapshots path).isSome →
        HasRow digest path c.snap.world.rooms) ∧
    ∀ m e c', (deviceSystem process).next c m = some (e, c') → ∀ room ∈ rooms,
      (c.snap.world.snapshots (joinedHistoryPath digest room)).isSome →
      c'.snap.world.snapshots (joinedHistoryPath digest room) = none →
      ∃ t call, calls[t]? = some call ∧ room ∈ call.deleted ∧
        e = .ran t (.removedSnapshot (joinedHistoryPath digest room)) := by
  have hholds := device_holdsTo hhome h
  refine ⟨fun hquiet hquiescent path hpath => ?_,
    fun m e c' hnext room hroom hsome hnone => ?_⟩
  · rcases hholds.1 path hpath with hrow | ⟨t, howes⟩
    · exact hrow
    · exact absurd howes (not_owes_of_quiescent hhome h hquiet hquiescent t path)
  · have hguar := hholds.guarantee deviceContract_crashSafe hnext trivial
    obtain ⟨t, call, key, hcall, hkey, hpath, he⟩ := hguar.removed _ hsome hnone
    have hplay := hrooms call (List.mem_of_getElem? hcall) key hkey
    obtain rfl := hdigest.eq_of_path hplay hroom hpath
    exact ⟨t, call, hcall, hkey, he⟩

/-- A room is joined and its history recorded, and another room is deleted. -/
def joinAndRecord : List DeviceCall :=
  [.recordJoinedRoom ⟨"r", "Launch", "ada", "https://host", "t0", "t0", none, none, none⟩,
    .recordJoinedHistory ⟨"r", "https://host", [], [], "t1"⟩,
    .deleteJoinedRoom ⟨"q", "https://host"⟩]

/-- The snapshot that is left has its row, by the general theorem. -/
theorem snapshots_haveRows_recorded :
    ∃ c, (deviceSystem id).Reachable (device String.ofList .empty joinAndRecord) c ∧
      (c.snap.world.snapshots (joinedHistoryPath String.ofList ⟨"r", "https://host"⟩)).isSome ∧
      HasRow String.ofList (joinedHistoryPath String.ofList ⟨"r", "https://host"⟩)
        c.snap.world.rooms := by
  have hrun : ((deviceSystem id).replay (device String.ofList .empty joinAndRecord)
      (List.replicate 5 (.run 0) ++ List.replicate 6 (.run 1) ++
        List.replicate 8 (.run 2))).map
      (fun c => (c.snap.trace.all Event.isRan, c.threads.all fun p => p.all Prog.isOver,
        (c.snap.world.snapshots
          (joinedHistoryPath String.ofList ⟨"r", "https://host"⟩)).isSome)) =
      some (true, true, true) := by decide +kernel
  obtain ⟨c, hc, hv⟩ := System.exists_reachable_of_replay hrun
  obtain ⟨hran, hrest⟩ := Prod.mk.inj hv
  obtain ⟨hover, hsome⟩ := Prod.mk.inj hrest
  have hquiet : Undisturbed joinAndRecord c.snap.trace := by
    constructor
    · intro p hp
      exact nomatch List.all_eq_true.mp hran _ hp
    · intro t l _ _ _ hp
      exact nomatch List.all_eq_true.mp hran _ hp
  have hcollision : CollisionFree String.ofList Set.univ := by
    intro a _ b _ hab
    exact String.ofList_injective hab
  refine ⟨c, hc, hsome, ?_⟩
  exact (snapshots_haveRows String.ofList id .empty joinAndRecord Set.univ hcollision
    (fun _ _ _ _ => trivial) (fun _ h => nomatch h) hc).1 hquiet
    (System.quiescent_of_over hover) _ hsome

end AgentGather.Storage
