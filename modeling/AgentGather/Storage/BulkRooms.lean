import AgentGather.Storage.DeviceDiscipline
import Mathlib.Data.List.Dedup

/-!
# Bulk operations on the joined rooms

What archiving and deleting many rows at once makes of a store, compared with the rows one
after the other, and what the counts of the result say.
-/

namespace AgentGather.Storage

open AgentGather.Library AgentGather.Protocol

/-! ## One row after the other -/

def setJoinedRoomArchivedEach (t : Nat) (archived : Bool) :
    List JoinedRoomTarget → DeviceProg Unit
  | [] => .ret ()
  | target :: targets => do
      let _ ← setJoinedRoomArchived t target archived
      setJoinedRoomArchivedEach t archived targets

def deleteJoinedRoomEach (digest : List Char → String) (t : Nat) :
    List JoinedRoomTarget → DeviceProg Unit
  | [] => .ret ()
  | target :: targets => do
      let _ ← deleteJoinedRoom digest t target
      deleteJoinedRoomEach digest t targets

/-! ## What the operations leave -/

theorem runAlone_withLock {α : Type} (t : Nat) (lock : DeviceLock) (body : DeviceProg α)
    (w : DeviceWorld) : (withLock t lock body).runAlone w =
      ((body.runAlone (w.setLock lock (some t))).1,
        (body.runAlone (w.setLock lock (some t))).2.setLock lock none) := by
  rw [withLock, Prog.runAlone_bind, acquireLock, Prog.runAlone_action]
  simp only [Prog.runAlone_finallyDo, releaseLock, Prog.update, Prog.runAlone_action]

theorem runAlone_ensureSecureDir (w : DeviceWorld) :
    ensureSecureDir.runAlone w = (.ok (), w) := rfl

theorem runAlone_readJoinedRooms (w : DeviceWorld) :
    readJoinedRooms.runAlone w = (.ok w.rooms, w) := rfl

theorem runAlone_editRooms {α : Type} (t : Nat)
    (edit : List JoinedRoom → α × Option (List JoinedRoom)) (w : DeviceWorld) :
    ((editRooms t edit).runAlone w).1 = .ok (edit w.rooms).1 ∧
      ((editRooms t edit).runAlone w).2.rooms = (edit w.rooms).2.getD w.rooms := by
  rw [editRooms, Prog.bind_eq_bind, Prog.runAlone_bind, runAlone_ensureSecureDir]
  dsimp only
  rw [runAlone_withLock, Prog.bind_eq_bind, Prog.runAlone_bind, runAlone_readJoinedRooms]
  dsimp only [DeviceWorld.setLock]
  rcases edit w.rooms with ⟨result, next⟩
  cases next with
  | none => exact ⟨rfl, rfl⟩
  | some next => exact ⟨rfl, rfl⟩

theorem runAlone_deleteJoinedHistory (digest : List Char → String) (t : Nat)
    (key : JoinedRoomTarget) (w : DeviceWorld) :
    (∃ found, ((deleteJoinedHistory digest t key).runAlone w).1 = .ok found) ∧
      ((deleteJoinedHistory digest t key).runAlone w).2.rooms = w.rooms := by
  rw [deleteJoinedHistory, Prog.bind_eq_bind, Prog.runAlone_bind, runAlone_ensureSecureDir]
  dsimp only
  rw [runAlone_withLock, Prog.runAlone_action]
  exact ⟨⟨_, rfl⟩, rfl⟩

theorem setJoinedRoomArchived_rooms (t : Nat) (target : JoinedRoomTarget) (archived : Bool)
    (w : DeviceWorld) : ((setJoinedRoomArchived t target archived).runAlone w).2.rooms =
      Table.modify JoinedRoom.target target (.setArchived archived) w.rooms := by
  rw [setJoinedRoomArchived, (runAlone_editRooms t _ w).2]
  by_cases hfound : (findRoom target w.rooms).isSome = true
  · rw [if_pos hfound]
    rfl
  · rw [if_neg hfound, Table.modify_of_not_mem]
    · rfl
    · rwa [← Table.isSome_find_iff]

theorem deleteJoinedRoom_rooms (digest : List Char → String) (t : Nat)
    (target : JoinedRoomTarget) (w : DeviceWorld) :
    (∃ removed, ((deleteJoinedRoom digest t target).runAlone w).1 = .ok removed) ∧
      ((deleteJoinedRoom digest t target).runAlone w).2.rooms =
        Table.besides JoinedRoom.target [target] w.rooms := by
  obtain ⟨hresult, hrooms⟩ := runAlone_editRooms t (deleteEdit target) w
  rw [deleteJoinedRoom, Prog.bind_eq_bind, Prog.runAlone_bind]
  rcases hedit : (editRooms t (deleteEdit target)).runAlone w with ⟨r, w'⟩
  rw [hedit] at hresult hrooms
  cases hresult
  dsimp only
  obtain ⟨⟨found, hfound⟩, hsame⟩ := runAlone_deleteJoinedHistory digest t target w'
  rw [Prog.bind_eq_bind, Prog.runAlone_bind]
  rcases hdelete : (deleteJoinedHistory digest t target).runAlone w' with ⟨r, w''⟩
  rw [hdelete] at hfound hsame
  cases hfound
  refine ⟨⟨_, rfl⟩, ?_⟩
  change w''.rooms = _
  rw [hsame, hrooms, ← filter_target_eq, deleteEdit]
  split
  · rename_i hlength
    exact (List.filter_eq_self.mpr (List.length_filter_eq_length_iff.mp hlength)).symm
  · rfl

theorem setJoinedRoomArchivedEach_rooms (t : Nat) (archived : Bool)
    (targets : List JoinedRoomTarget) (w : DeviceWorld) :
    ((setJoinedRoomArchivedEach t archived targets).runAlone w).2.rooms =
      targets.foldl (fun rooms target =>
        Table.modify JoinedRoom.target target (.setArchived archived) rooms) w.rooms := by
  induction targets generalizing w with
  | nil => rfl
  | cons target targets ih =>
      have hrooms := setJoinedRoomArchived_rooms t target archived w
      have hresult := (runAlone_editRooms t (fun rooms =>
        if (findRoom target rooms).isSome then
          (true, some (Table.modify JoinedRoom.target target (.setArchived archived) rooms))
        else (false, none)) w).1
      rw [setJoinedRoomArchivedEach, Prog.bind_eq_bind, Prog.runAlone_bind, List.foldl_cons,
        ← hrooms]
      change ((setJoinedRoomArchived t target archived).runAlone w).1 = _ at hresult
      rcases hrun : (setJoinedRoomArchived t target archived).runAlone w with ⟨r, w'⟩
      rw [hrun] at hresult
      cases hresult
      exact ih w'

theorem deleteJoinedRoomEach_rooms (digest : List Char → String) (t : Nat)
    (targets : List JoinedRoomTarget) (w : DeviceWorld) :
    ((deleteJoinedRoomEach digest t targets).runAlone w).2.rooms =
      Table.besides JoinedRoom.target targets w.rooms := by
  rw [← Table.foldl_besides]
  induction targets generalizing w with
  | nil => rfl
  | cons target targets ih =>
      obtain ⟨⟨removed, hresult⟩, hrooms⟩ := deleteJoinedRoom_rooms digest t target w
      rw [deleteJoinedRoomEach, Prog.bind_eq_bind, Prog.runAlone_bind, List.foldl_cons,
        ← hrooms]
      rcases hrun : (deleteJoinedRoom digest t target).runAlone w with ⟨r, w'⟩
      rw [hrun] at hresult
      cases hresult
      exact ih w'

theorem clearSnapshots_alone (digest : List Char → String) (t : Nat)
    (targets : List JoinedRoomTarget) (w : DeviceWorld) :
    ((clearSnapshots digest t targets).runAlone w).1 = .ok 0 ∧
      ((clearSnapshots digest t targets).runAlone w).2.rooms = w.rooms := by
  induction targets generalizing w with
  | nil => exact ⟨rfl, rfl⟩
  | cons target targets ih =>
      obtain ⟨⟨found, hfound⟩, hsame⟩ := runAlone_deleteJoinedHistory digest t target w
      rw [clearSnapshots, Prog.bind_eq_bind, Prog.runAlone_bind, Prog.runAlone_catchErr,
        Prog.runAlone_bind]
      rcases hdelete : (deleteJoinedHistory digest t target).runAlone w with ⟨r, w'⟩
      rw [hdelete] at hfound hsame
      cases hfound
      obtain ⟨hcleared, hrooms⟩ := ih w'
      dsimp only [Prog.runAlone_ret]
      rw [Prog.bind_eq_bind, Prog.runAlone_bind]
      rcases hrest : (clearSnapshots digest t targets).runAlone w' with ⟨r, w''⟩
      rw [hrest] at hcleared hrooms
      cases hcleared
      exact ⟨rfl, hrooms.trans hsame⟩

theorem archiveRooms_eq (targets : List JoinedRoomTarget) (archived : Bool)
    (rooms : List JoinedRoom) : archiveRooms (dedupeTargets targets) archived rooms =
      rooms.map fun room =>
        if room.target ∈ targets ∧ room.isArchived ≠ archived then room.setArchived archived
        else room := by
  apply List.map_congr_left
  intro room _
  simp only [isTargeted_dedupeTargets, Bool.and_eq_true, decide_eq_true_iff, bne_iff_ne]

/-- The rows and the result of the bulk call, also where it has no targets. -/
theorem setJoinedRoomsArchived_alone (t : Nat) (targets : List JoinedRoomTarget)
    (archived : Bool) (w : DeviceWorld) :
    ((setJoinedRoomsArchived t targets archived).runAlone w).1 =
        .ok (archiveEdit (dedupeTargets targets) archived w.rooms).1 ∧
      ((setJoinedRoomsArchived t targets archived).runAlone w).2.rooms =
        archiveRooms (dedupeTargets targets) archived w.rooms := by
  unfold setJoinedRoomsArchived
  by_cases hnone : (dedupeTargets targets).keys = []
  · obtain rfl : targets = [] := by
      rw [List.eq_nil_iff_forall_not_mem]
      intro target htarget
      rw [← mem_keys_dedupeTargets, hnone] at htarget
      cases htarget
    rw [if_pos hnone]
    have hbystander (room : JoinedRoom) : isTargeted (dedupeTargets []) room = false :=
      (isTargeted_dedupeTargets [] room).trans (decide_eq_false List.not_mem_nil)
    have hmatched : w.rooms.countP (isTargeted (dedupeTargets [])) = 0 := by
      rw [List.countP_eq_zero]
      intro room _
      rw [hbystander]
      exact Bool.false_ne_true
    rw [Prog.bind_eq_bind, Prog.runAlone_bind, runAlone_ensureSecureDir]
    simp only [archiveEdit, archiveRooms, hmatched, hbystander, Bool.false_and, hnone]
    exact ⟨by simp, by simp⟩
  · rw [if_neg hnone]
    obtain ⟨hresult, hrooms⟩ := runAlone_editRooms t
      (archiveEdit (dedupeTargets targets) archived) w
    refine ⟨hresult, hrooms.trans ?_⟩
    unfold archiveEdit
    dsimp only
    split
    · rfl
    · rename_i hchanged
      rw [Nat.pos_iff_ne_zero, not_not, List.countP_eq_zero] at hchanged
      conv_lhs => rw [Option.getD_none, ← List.map_id w.rooms]
      apply List.map_congr_left
      intro room hroom
      exact (if_neg (hchanged room hroom)).symm

/-! ## Counts -/

/-- The targets are counted once, by whether they have a row. -/
structure BulkCounts (targets : List JoinedRoomTarget) (rooms : List JoinedRoom)
    (changed : Nat) (result : BulkJoinedRoomResult) : Prop where
  requested : result.requested = targets.dedup.length
  accounted : result.requested = result.matched + result.missing
  matched : result.matched =
    (targets.dedup.filter fun target => (findRoom target rooms).isSome).length
  changed : result.changed = changed

theorem length_keys_dedupeTargets (targets : List JoinedRoomTarget) :
    (dedupeTargets targets).keys.length = targets.dedup.length := by
  have hnodup : (targets.dedup.map joinedRoomKey).Nodup :=
    (List.nodup_dedup targets).map joinedRoomKey_injective
  have hperm : (dedupeTargets targets).keys.Perm (targets.dedup.map joinedRoomKey) := by
    rw [List.perm_ext_iff_of_nodup (dedupeTargets targets).keys_nodup hnodup]
    intro key
    rw [dedupeTargets, OrderedMap.mem_keys_setAll]
    simp only [OrderedMap.keys, OrderedMap.empty, List.map_nil, List.not_mem_nil, false_or,
      List.mem_map, List.mem_dedup]
  rw [hperm.length_eq, List.length_map]

theorem countP_isTargeted {rooms : List JoinedRoom}
    (h : (rooms.map JoinedRoom.target).Nodup) (targets : List JoinedRoomTarget) :
    rooms.countP (isTargeted (dedupeTargets targets)) =
      (targets.dedup.filter fun target => (findRoom target rooms).isSome).length := by
  rw [show (fun target => (findRoom target rooms).isSome) =
    fun target => (Table.find JoinedRoom.target target rooms).isSome from rfl,
    ← Table.countP_mem_keys (List.nodup_dedup targets) h]
  apply List.countP_congr
  intro room _
  rw [isTargeted_dedupeTargets, decide_eq_true_iff, decide_eq_true_iff, List.mem_dedup]

theorem bulkCounts_of_matched {rooms : List JoinedRoom}
    (h : (rooms.map JoinedRoom.target).Nodup) (targets : List JoinedRoomTarget)
    (changed : Nat) : BulkCounts targets rooms changed
      ⟨(dedupeTargets targets).keys.length,
        rooms.countP (isTargeted (dedupeTargets targets)), changed,
        (dedupeTargets targets).keys.length -
          rooms.countP (isTargeted (dedupeTargets targets))⟩ := by
  refine ⟨length_keys_dedupeTargets targets, ?_, countP_isTargeted h targets, rfl⟩
  dsimp only
  rw [length_keys_dedupeTargets, countP_isTargeted h]
  exact (Nat.add_sub_cancel' (List.length_filter_le _ _)).symm

/-! ## Bulk equals one by one -/

/-- An explicit `archived: false` reads like none. -/
def JoinedRoom.withoutFalse (row : JoinedRoom) : JoinedRoom :=
  { row with archived := row.archived.filter id }

theorem JoinedRoom.isArchived_setArchived (archived : Bool) (row : JoinedRoom) :
    (row.setArchived archived).isArchived = archived := by
  cases archived <;> rfl

/-- A row that is already as it is to be, and the row with its flag set again. -/
theorem JoinedRoom.setArchived_of_isArchived {archived : Bool} {row : JoinedRoom}
    (h : row.isArchived = archived) :
    (row.setArchived archived).withoutFalse = row.withoutFalse ∧
      (row = row.setArchived archived ↔ archived = true ∨ row.archived ≠ some false) := by
  subst h
  obtain ⟨roomId, title, aliasName, baseUrl, joinedAt, lastSeen, kind, seats, archived⟩ := row
  rcases archived with _ | _ | _
  · simp [setArchived, isArchived, withoutFalse]
  · simp [setArchived, isArchived, withoutFalse, Option.filter]
  · simp [setArchived, isArchived, withoutFalse]

/-- The store behind a bulk call that archives, and behind the single calls. -/
structure BulkArchived (targets : List JoinedRoomTarget) (archived : Bool)
    (rooms bulk each : List JoinedRoom) (result : BulkJoinedRoomResult) : Prop where
  agrees : bulk.map JoinedRoom.withoutFalse = each.map JoinedRoom.withoutFalse
  same : bulk = each ↔
    archived = true ∨ ∀ row ∈ rooms, row.target ∈ targets → row.archived ≠ some false
  order : bulk.map JoinedRoom.target = rooms.map JoinedRoom.target
  others : Table.besides JoinedRoom.target targets bulk =
    Table.besides JoinedRoom.target targets rooms
  counts : BulkCounts targets rooms
    ((rooms.zip bulk).countP fun rows => rows.1.isArchived != rows.2.isArchived) result

/-- The store behind a bulk call that deletes, and behind the single calls. -/
structure BulkDeleted (targets : List JoinedRoomTarget) (rooms bulk each : List JoinedRoom)
    (result : BulkJoinedRoomResult) : Prop where
  same : bulk = each
  others : bulk = Table.besides JoinedRoom.target targets rooms
  counts : BulkCounts targets rooms
    (rooms.countP fun row => (findRoom row.target bulk).isNone) result

theorem bulkArchived_alone (t : Nat) (targets : List JoinedRoomTarget) (archived : Bool)
    {w : DeviceWorld} (h : (w.rooms.map JoinedRoom.target).Nodup) :
    ∃ result, ((setJoinedRoomsArchived t targets archived).runAlone w).1 = .ok result ∧
      BulkArchived targets archived w.rooms
        ((setJoinedRoomsArchived t targets archived).runAlone w).2.rooms
        ((setJoinedRoomArchivedEach t archived targets).runAlone w).2.rooms result := by
  obtain ⟨hresult, hbulk⟩ := setJoinedRoomsArchived_alone t targets archived w
  have hidem (row : JoinedRoom) :
      (row.setArchived archived).setArchived archived = row.setArchived archived := rfl
  have heach := setJoinedRoomArchivedEach_rooms t archived targets w
  rw [Table.foldl_modify_eq_map (JoinedRoom.setArchived_target archived) hidem targets h] at heach
  refine ⟨_, hresult, ?_, ?_, ?_, ?_, ?_⟩
  · rw [hbulk, heach, archiveRooms_eq, List.map_map, List.map_map]
    apply List.map_congr_left
    intro row _
    simp only [Function.comp_apply]
    by_cases hin : row.target ∈ targets
    · by_cases hflag : row.isArchived = archived
      · rw [if_neg fun hboth => hboth.2 hflag, if_pos hin]
        exact (JoinedRoom.setArchived_of_isArchived hflag).1.symm
      · rw [if_pos ⟨hin, hflag⟩, if_pos hin]
    · rw [if_neg fun hboth => hin hboth.1, if_neg hin]
  · rw [hbulk, heach, archiveRooms_eq, List.map_inj_left]
    have hrow (row : JoinedRoom) (hin : row.target ∈ targets) :
        ((if row.target ∈ targets ∧ row.isArchived ≠ archived then row.setArchived archived
          else row) = if row.target ∈ targets then row.setArchived archived else row) ↔
            archived = true ∨ row.archived ≠ some false := by
      rw [if_pos hin]
      by_cases hflag : row.isArchived = archived
      · rw [if_neg fun hboth => hboth.2 hflag]
        exact (JoinedRoom.setArchived_of_isArchived hflag).2
      · rw [if_pos ⟨hin, hflag⟩]
        refine iff_of_true rfl (or_iff_not_imp_left.mpr fun hfalse hnone => hflag ?_)
        rw [JoinedRoom.isArchived, hnone, (Bool.not_eq_true _).mp hfalse]
        rfl
    constructor
    · intro hall
      by_cases harchived : archived = true
      · exact .inl harchived
      · exact .inr fun row hmem hin =>
          ((hrow row hin).mp (hall row hmem)).resolve_left harchived
    · intro hall row hmem
      by_cases hin : row.target ∈ targets
      · exact (hrow row hin).mpr (hall.imp_right fun h => h row hmem hin)
      · rw [if_neg fun hboth => hin hboth.1, if_neg hin]
  · rw [hbulk, map_target_archiveRooms]
  · rw [hbulk, archiveRooms_eq]
    apply Table.besides_map
    · intro row
      split
      · rfl
      · rfl
    · intro row hrow
      exact if_neg fun hin => hrow hin.1
  · have hchanged : (w.rooms.zip (archiveRooms (dedupeTargets targets) archived w.rooms)).countP
        (fun rows => rows.1.isArchived != rows.2.isArchived) =
          w.rooms.countP fun room =>
            isTargeted (dedupeTargets targets) room && room.isArchived != archived := by
      have hzip (f : JoinedRoom → JoinedRoom) :
          w.rooms.zip (w.rooms.map f) = w.rooms.map fun room => (room, f room) := by
        rw [← List.zip_map', List.map_id']
      rw [archiveRooms, hzip, List.countP_map]
      apply List.countP_congr
      intro room _
      dsimp only [Function.comp_apply]
      split
      · rename_i hboth
        rw [JoinedRoom.isArchived_setArchived]
        exact iff_of_true (Bool.and_eq_true_iff.mp hboth).2 hboth
      · rename_i hneither
        exact iff_of_false (by simp) hneither
    rw [hbulk, hchanged]
    exact bulkCounts_of_matched h targets _

theorem length_sub_deleteRooms (unique : OrderedMap (List Char) JoinedRoomTarget)
    (rooms : List JoinedRoom) :
    rooms.length - (deleteRooms unique rooms).length = rooms.countP (isTargeted unique) := by
  have hlength := List.length_eq_countP_add_countP (isTargeted unique) (l := rooms)
  rw [deleteRooms, ← List.countP_eq_length_filter]
  simp only [Bool.not_eq_true, Bool.decide_eq_false] at hlength
  omega

/-- The rows and the result of the bulk call, also where it has no targets. -/
theorem deleteJoinedRooms_alone (digest : List Char → String) (t : Nat)
    (targets : List JoinedRoomTarget) (w : DeviceWorld) :
    let matched := w.rooms.countP (isTargeted (dedupeTargets targets))
    let requested := (dedupeTargets targets).keys.length
    ((deleteJoinedRooms digest t targets).runAlone w).1 =
        .ok ⟨requested, matched, matched, requested - matched⟩ ∧
      ((deleteJoinedRooms digest t targets).runAlone w).2.rooms =
        deleteRooms (dedupeTargets targets) w.rooms := by
  intro matched requested
  have hkept (hnone : matched = 0) : deleteRooms (dedupeTargets targets) w.rooms = w.rooms := by
    apply List.filter_eq_self.mpr
    intro room hroom
    rw [Bool.not_eq_true']
    exact (Bool.not_eq_true _).mp (List.countP_eq_zero.mp hnone room hroom)
  unfold deleteJoinedRooms
  by_cases hnone : (dedupeTargets targets).keys = []
  · have hmatched : matched = 0 := by
      rw [List.countP_eq_zero]
      intro room _
      rw [isTargeted, OrderedMap.get?_eq_none_iff.mpr (hnone ▸ List.not_mem_nil)]
      exact Bool.false_ne_true
    have hrequested : requested = 0 := congrArg List.length hnone
    rw [if_pos hnone, Prog.bind_eq_bind, Prog.runAlone_bind, runAlone_ensureSecureDir, hmatched,
      hrequested, hkept hmatched]
    exact ⟨rfl, rfl⟩
  · obtain ⟨hresult, hrooms⟩ := runAlone_editRooms t (deleteAllEdit (dedupeTargets targets)) w
    rw [if_neg hnone, Prog.bind_eq_bind, Prog.runAlone_bind]
    rcases hedit : (editRooms t (deleteAllEdit (dedupeTargets targets))).runAlone w with ⟨r, w'⟩
    rw [hedit] at hresult hrooms
    cases hresult
    dsimp only
    obtain ⟨hcleared, hsame⟩ := clearSnapshots_alone digest t (dedupeTargets targets).values w'
    rw [Prog.bind_eq_bind, Prog.runAlone_bind]
    rcases hclear : (clearSnapshots digest t (dedupeTargets targets).values).runAlone w' with
      ⟨r, w''⟩
    rw [hclear] at hcleared hsame
    cases hcleared
    dsimp only
    rw [if_neg (lt_irrefl 0)]
    have hcount : (deleteAllEdit (dedupeTargets targets) w.rooms).1 = matched :=
      length_sub_deleteRooms _ _
    rw [hcount]
    refine ⟨rfl, ?_⟩
    change w''.rooms = _
    rw [hsame]
    refine hrooms.trans ?_
    unfold deleteAllEdit
    dsimp only
    rw [length_sub_deleteRooms]
    split
    · rfl
    · rename_i hzero
      exact (hkept (Nat.eq_zero_of_not_pos hzero)).symm

theorem bulkDeleted_alone (digest : List Char → String) (t : Nat)
    (targets : List JoinedRoomTarget) {w : DeviceWorld}
    (h : (w.rooms.map JoinedRoom.target).Nodup) :
    ∃ result, ((deleteJoinedRooms digest t targets).runAlone w).1 = .ok result ∧
      BulkDeleted targets w.rooms
        ((deleteJoinedRooms digest t targets).runAlone w).2.rooms
        ((deleteJoinedRoomEach digest t targets).runAlone w).2.rooms result := by
  obtain ⟨hresult, hbulk⟩ := deleteJoinedRooms_alone digest t targets w
  have hothers := hbulk.trans (deleteRooms_eq targets w.rooms)
  refine ⟨_, hresult, ?_, hothers, ?_⟩
  · rw [hothers, deleteJoinedRoomEach_rooms]
  · have hchanged : w.rooms.countP (fun row => (findRoom row.target
        ((deleteJoinedRooms digest t targets).runAlone w).2.rooms).isNone) =
          w.rooms.countP (isTargeted (dedupeTargets targets)) := by
      apply List.countP_congr
      intro row hrow
      rw [isTargeted_dedupeTargets, decide_eq_true_iff, hothers, Option.isNone_iff_eq_none,
        findRoom, Table.find_eq_none_iff]
      constructor
      · intro hgone
        by_contra hin
        exact hgone (List.mem_map_of_mem (List.mem_filter.mpr ⟨hrow, decide_eq_true hin⟩))
      · intro hin hkept
        obtain ⟨other, hother, htarget⟩ := List.mem_map.mp hkept
        have hout := of_decide_eq_true (List.mem_filter.mp hother).2
        rw [htarget] at hout
        exact hout hin
    rw [hchanged]
    exact bulkCounts_of_matched h targets _

/-- Bulk calls leave what the single calls leave, but for an explicit `archived: false` of
a row that is restored, and count their targets and the rows they change. -/
theorem bulkRooms_eq_each (digest : List Char → String) (t : Nat)
    (targets : List JoinedRoomTarget) (archived : Bool) (w : DeviceWorld)
    (h : (w.rooms.map JoinedRoom.target).Nodup) :
    (∃ result, ((setJoinedRoomsArchived t targets archived).runAlone w).1 = .ok result ∧
      BulkArchived targets archived w.rooms
        ((setJoinedRoomsArchived t targets archived).runAlone w).2.rooms
        ((setJoinedRoomArchivedEach t archived targets).runAlone w).2.rooms result) ∧
    ∃ result, ((deleteJoinedRooms digest t targets).runAlone w).1 = .ok result ∧
      BulkDeleted targets w.rooms
        ((deleteJoinedRooms digest t targets).runAlone w).2.rooms
        ((deleteJoinedRoomEach digest t targets).runAlone w).2.rooms result :=
  ⟨bulkArchived_alone t targets archived h, bulkDeleted_alone digest t targets h⟩

def restoredRoom : JoinedRoom :=
  ⟨"design", "Design", "ana", "http://host:1", "2026-01-01", "2026-01-02", none, none,
    some false⟩

/-- Two rooms, one of them targeted twice, and a target without a row. -/
theorem bulkRooms_eq_each_twoRooms : ∃ result,
    ((setJoinedRoomsArchived 0 [restoredRoom.target, ⟨"gone", "http://host:1"⟩,
      restoredRoom.target] true).runAlone
        { DeviceWorld.empty with
          rooms := [{ restoredRoom with roomId := "ops" }, restoredRoom] }).1 = .ok result ∧
      result.requested = 2 := by
  obtain ⟨⟨result, hresult, harchived⟩, -⟩ := bulkRooms_eq_each (fun _ => "") 0
    [restoredRoom.target, ⟨"gone", "http://host:1"⟩, restoredRoom.target] true
    { DeviceWorld.empty with rooms := [{ restoredRoom with roomId := "ops" }, restoredRoom] }
    (by decide)
  exact ⟨result, hresult, harchived.counts.requested.trans (by decide)⟩

/-- An explicit `archived: false` stays in the bulk call and goes in the single one. -/
theorem setJoinedRoomsArchived_keeps_false :
    ((setJoinedRoomsArchived 0 [restoredRoom.target] false).runAlone
        { DeviceWorld.empty with rooms := [restoredRoom] }).2.rooms ≠
      ((setJoinedRoomArchivedEach 0 false [restoredRoom.target]).runAlone
        { DeviceWorld.empty with rooms := [restoredRoom] }).2.rooms := by
  obtain ⟨_, _, harchived⟩ := bulkArchived_alone 0 [restoredRoom.target] false
    (w := { DeviceWorld.empty with rooms := [restoredRoom] }) (by decide)
  rw [Ne, harchived.same]
  decide

end AgentGather.Storage
