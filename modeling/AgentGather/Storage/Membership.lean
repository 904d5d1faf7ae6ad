import AgentGather.Storage.DeviceDiscipline

/-!
# The rows over whole runs

In every run of calls on one device, each room has at most one row, every write of the rows
is that of one call and changes only the rows the call is about, and of these it keeps what
the call has no authority over: when the room was joined, a real title, the selected alias
and whether it is archived.
-/

namespace AgentGather.Storage

open AgentGather.Library AgentGather.Protocol

/-! ## What a call may change -/

/-- The entry a call records. -/
def DeviceCall.entry? : DeviceCall → Option JoinedRoom
  | .recordJoinedRoom entry => some entry
  | .refreshJoinedRoomMetadata entry => some entry
  | _ => none

/-- The rooms whose archived flag a call is to set. -/
def DeviceCall.archives : DeviceCall → List JoinedRoomTarget
  | .setJoinedRoomArchived target _ => [target]
  | .setJoinedRoomsArchived targets _ => targets
  | _ => []

/-- The rooms a call is about. -/
def DeviceCall.targets (call : DeviceCall) : List JoinedRoomTarget :=
  (call.entry?.map (·.target)).toList ++ call.archives ++ call.deleted

/-- What a call leaves of a row. -/
structure RowKept (call : DeviceCall) (row row' : JoinedRoom) : Prop where
  joinedAt : row'.joinedAt = row.joinedAt
  /-- A real title is only replaced by another one. -/
  title : isRealTitle row.roomId row.title = true → isRealTitle row'.roomId row'.title = true
  /-- Only an explicit record selects another alias. -/
  selectedAlias : row.aliasName ≠ "" → row'.aliasName ≠ row.aliasName →
    ∃ entry, call = .recordJoinedRoom entry ∧ entry.target = row.target
  /-- Only an archive call, or an entry with the flag, archives or restores the row. -/
  archived : row'.isArchived ≠ row.isArchived → row.target ∈ call.archives ∨
    ∃ entry, call.entry? = some entry ∧ entry.target = row.target ∧ entry.archived.isSome

/-- What a call leaves of the rows. -/
structure RowsKept (call : DeviceCall) (rooms rooms' : List JoinedRoom) : Prop where
  /-- The other rows stay as they are, in their order. -/
  others : Table.besides JoinedRoom.target call.targets rooms' =
    Table.besides JoinedRoom.target call.targets rooms
  kept : ∀ key row row', findRoom key rooms = some row → findRoom key rooms' = some row' →
    RowKept call row row'
  /-- A new row is joined when its entry says. -/
  first : ∀ key row', findRoom key rooms = none → findRoom key rooms' = some row' →
    ∃ entry, call.entry? = some entry ∧ entry.target = key ∧ row'.joinedAt = entry.joinedAt

theorem RowKept.refl (call : DeviceCall) (row : JoinedRoom) : RowKept call row row where
  joinedAt := rfl
  title := id
  selectedAlias _ h := absurd rfl h
  archived h := absurd rfl h

/-! ## One call -/

section Calls

variable {row entry : JoinedRoom}

/-- A recorded title is real if the stored one is. -/
theorem isRealTitle_recordTitle (htarget : row.target = entry.target)
    (h : isRealTitle row.roomId row.title = true) :
    isRealTitle entry.roomId (recordTitle (some row) entry) = true := by
  have hroom : row.roomId = entry.roomId := congrArg JoinedRoomTarget.roomId htarget
  rw [hroom] at h
  unfold recordTitle
  split
  · assumption
  · rw [Option.map_some, Option.filter_some, if_pos h]
    exact h

/-- Writing a row for an entry of the same room. -/
theorem joinedRoomRecord_kept {call : DeviceCall} {keep : Bool}
    (htarget : row.target = entry.target) (hcall : call.entry? = some entry)
    (hkeep : keep = false → call = .recordJoinedRoom entry) :
    RowKept call row (joinedRoomRecord (some row) entry keep) where
  joinedAt := rfl
  title := isRealTitle_recordTitle htarget
  selectedAlias hown hchanged := by
    cases keep with
    | false => exact ⟨entry, hkeep rfl, htarget.symm⟩
    | true =>
        refine absurd ?_ hchanged
        show recordAlias (some row) entry true = row.aliasName
        rw [recordAlias, Option.map_some, Option.filter_some, if_pos (by simpa using hown)]
  archived hchanged := by
    refine .inr ⟨entry, hcall, htarget.symm, ?_⟩
    by_contra hnone
    rw [Option.not_isSome_iff_eq_none] at hnone
    apply hchanged
    show JoinedRoom.isArchived { joinedRoomRecord (some row) entry keep with
      archived := if entry.archived.or row.archived = some true then some true else none } = _
    simp only [JoinedRoom.isArchived, hnone, Option.none_or]
    split
    · rename_i harchived
      rw [harchived]
    · rename_i hnot
      cases harchived : row.archived with
      | none => rfl
      | some flag =>
          cases flag with
          | false => rfl
          | true => exact absurd harchived hnot

theorem setArchived_kept {call : DeviceCall} (archived : Bool)
    (h : row.target ∈ call.archives) : RowKept call row (row.setArchived archived) where
  joinedAt := rfl
  title := id
  selectedAlias _ h := absurd rfl h
  archived _ := .inl h

theorem target_of_findRoom {key : JoinedRoomTarget} {rooms : List JoinedRoom}
    (h : findRoom key rooms = some row) : row.target = key := Table.key_of_find h

/-- An upsert writes its own row. -/
theorem upsertJoinedRoom_kept {call : DeviceCall} (entry : JoinedRoom) (keep : Bool)
    (hcall : call.entry? = some entry) (hkeep : keep = false → call = .recordJoinedRoom entry)
    (rooms : List JoinedRoom) : RowsKept call rooms (upsertJoinedRoom rooms entry keep) := by
  have hothers : Table.besides JoinedRoom.target [entry.target]
      (upsertJoinedRoom rooms entry keep) =
      Table.besides JoinedRoom.target [entry.target] rooms :=
    Table.besides_upsert (by simp) rooms
  have hother {key : JoinedRoomTarget} (hne : key ≠ entry.target) :
      findRoom key (upsertJoinedRoom rooms entry keep) = findRoom key rooms :=
    Table.find_eq_of_besides hothers (by simpa using hne)
  refine ⟨Table.besides_upsert ?_ rooms, fun key row row' hrow hrow' => ?_,
    fun key row' hnone hrow' => ?_⟩
  · simp [DeviceCall.targets, hcall]
  · by_cases hkey : key = entry.target
    · subst hkey
      rw [findRoom_upsertJoinedRoom, hrow] at hrow'
      obtain rfl := Option.some.inj hrow'
      exact joinedRoomRecord_kept (target_of_findRoom hrow) hcall hkeep
    · rw [hother hkey, hrow] at hrow'
      obtain rfl := Option.some.inj hrow'
      exact .refl call row
  · by_cases hkey : key = entry.target
    · subst hkey
      rw [findRoom_upsertJoinedRoom, hnone] at hrow'
      obtain rfl := Option.some.inj hrow'
      exact ⟨entry, hcall, rfl, rfl⟩
    · rw [hother hkey, hnone] at hrow'
      cases hrow'

/-- Rows that are found again as they were, or archived by the call. -/
theorem archived_kept {call : DeviceCall} {rooms rooms' : List JoinedRoom}
    {f : JoinedRoom → JoinedRoom}
    (hothers : Table.besides JoinedRoom.target call.archives rooms' =
      Table.besides JoinedRoom.target call.archives rooms)
    (hfind : ∀ key ∈ call.archives, findRoom key rooms' = (findRoom key rooms).map f)
    (hf : ∀ row, row.target ∈ call.archives → RowKept call row (f row))
    (htargets : call.targets = call.archives) : RowsKept call rooms rooms' := by
  refine ⟨by rw [htargets]; exact hothers, fun key row row' hrow hrow' => ?_,
    fun key row' hnone hrow' => ?_⟩
  · by_cases hkey : key ∈ call.archives
    · rw [hfind key hkey, hrow, Option.map_some] at hrow'
      obtain rfl := Option.some.inj hrow'
      exact hf row (target_of_findRoom hrow ▸ hkey)
    · have hsame : findRoom key rooms' = findRoom key rooms :=
        Table.find_eq_of_besides hothers hkey
      rw [hsame, hrow] at hrow'
      obtain rfl := Option.some.inj hrow'
      exact .refl call row
  · by_cases hkey : key ∈ call.archives
    · rw [hfind key hkey, hnone] at hrow'
      cases hrow'
    · have hsame : findRoom key rooms' = findRoom key rooms :=
        Table.find_eq_of_besides hothers hkey
      rw [hsame, hnone] at hrow'
      cases hrow'

/-- Deleting takes rows out. -/
theorem besides_kept {call : DeviceCall} {targets : List JoinedRoomTarget}
    (htargets : call.targets = targets) (rooms : List JoinedRoom) :
    RowsKept call rooms (Table.besides JoinedRoom.target targets rooms) := by
  have hfind {key : JoinedRoomTarget} {row' : JoinedRoom}
      (hrow' : findRoom key (Table.besides JoinedRoom.target targets rooms) = some row') :
      findRoom key rooms = some row' := by
    by_cases hkey : key ∈ targets
    · rw [findRoom, Table.find_besides_of_mem hkey] at hrow'
      cases hrow'
    · rw [← hrow']
      exact (Table.find_eq_of_besides (Table.besides_besides _ _) hkey).symm
  refine ⟨by rw [htargets, Table.besides_besides], fun key row row' hrow hrow' => ?_,
    fun key row' hnone hrow' => ?_⟩
  · obtain rfl := Option.some.inj (hrow.symm.trans (hfind hrow'))
    exact .refl call row
  · rw [hfind hrow'] at hnone
    cases hnone

theorem archiveRooms_kept (targets : List JoinedRoomTarget) (archived : Bool)
    (rooms : List JoinedRoom) :
    RowsKept (.setJoinedRoomsArchived targets archived) rooms
      (archiveRooms (dedupeTargets targets) archived rooms) := by
  have hkey (room : JoinedRoom) : JoinedRoom.target
      (if isTargeted (dedupeTargets targets) room && room.isArchived != archived then
        room.setArchived archived else room) = room.target := by
    split
    · rfl
    · rfl
  refine archived_kept (Table.besides_map hkey (fun room hroom => ?_) rooms)
    (fun key _ => Table.find_map key hkey rooms) (fun row hrow => ?_)
    (by simp [DeviceCall.targets, DeviceCall.entry?, DeviceCall.deleted])
  · have hnot : isTargeted (dedupeTargets targets) room = false := by
      rw [isTargeted_dedupeTargets]
      exact decide_eq_false hroom
    rw [hnot, Bool.false_and, if_neg Bool.false_ne_true]
  · split
    · exact setArchived_kept archived hrow
    · exact .refl _ row

/-- Every call keeps what it has no authority over. -/
theorem DeviceCall.rowsAfter_kept (call : DeviceCall) (rooms : List JoinedRoom) :
    RowsKept call rooms (call.rowsAfter rooms) := by
  cases call with
  | recordJoinedRoom entry => exact upsertJoinedRoom_kept entry false rfl (fun _ => rfl) rooms
  | refreshJoinedRoomMetadata entry =>
      exact upsertJoinedRoom_kept entry true rfl (fun h => nomatch h) rooms
  | setJoinedRoomArchived target archived =>
      refine archived_kept (f := .setArchived archived)
        (Table.besides_modify (JoinedRoom.setArchived_target archived)
          (List.mem_singleton.mpr rfl) rooms) (fun key hkey => ?_) (fun row hrow => setArchived_kept archived hrow)
        (by simp [DeviceCall.targets, DeviceCall.entry?, DeviceCall.deleted])
      rw [List.mem_singleton.mp hkey]
      exact Table.find_modify_self target (JoinedRoom.setArchived_target archived) rooms
  | setJoinedRoomsArchived targets archived => exact archiveRooms_kept targets archived rooms
  | deleteJoinedRoom target =>
      rw [rowsAfter, filter_target_eq]
      exact besides_kept rfl rooms
  | deleteJoinedRooms targets =>
      rw [rowsAfter, deleteRooms_eq]
      exact besides_kept rfl rooms
  | recordJoinedHistory entry =>
      refine ⟨rfl, fun key row row' hrow hrow' => ?_, fun key row' hnone hrow' => ?_⟩
      · obtain rfl := Option.some.inj (hrow.symm.trans hrow')
        exact .refl _ row
      · rw [rowsAfter, hnone] at hrow'
        cases hrow'

/-- Every call keeps the keys distinct. -/
theorem DeviceCall.rowsAfter_nodup (call : DeviceCall) {rooms : List JoinedRoom}
    (h : (rooms.map JoinedRoom.target).Nodup) :
    ((call.rowsAfter rooms).map JoinedRoom.target).Nodup := by
  cases call with
  | recordJoinedRoom entry => exact Table.nodup_upsert h _
  | refreshJoinedRoomMetadata entry => exact Table.nodup_upsert h _
  | setJoinedRoomArchived target archived =>
      rw [rowsAfter, Table.map_key_modify _ (JoinedRoom.setArchived_target archived)]
      exact h
  | setJoinedRoomsArchived targets archived =>
      rw [rowsAfter, map_target_archiveRooms]
      exact h
  | deleteJoinedRoom target =>
      rw [rowsAfter, filter_target_eq]
      exact Table.nodup_besides h _
  | deleteJoinedRooms targets =>
      rw [rowsAfter, deleteRooms_eq]
      exact Table.nodup_besides h _
  | recordJoinedHistory entry => exact h

end Calls

/-! ## Runs -/

section Runs

variable {digest : List Char → String} {process : Nat → Nat} {calls : List DeviceCall}

/-- Every move leaves the rows, or writes those that one call makes of them. -/
theorem rooms_step {home : DeviceWorld}
    (hhome : ∀ path, (home.snapshots path).isSome → HasRow digest path home.rooms)
    {c c' : Config DeviceWorld DeviceStep Failure Unit}
    (h : (deviceSystem process).Reachable (device digest home calls) c) {m : Move Failure}
    {e : Event DeviceStep} (hnext : (deviceSystem process).next c m = some (e, c')) :
    c'.snap.world.rooms = c.snap.world.rooms ∨ ∃ t call, calls[t]? = some call ∧
      e = .ran t (.wroteRooms c'.snap.world.rooms) ∧
      c'.snap.world.rooms = call.rowsAfter c.snap.world.rooms :=
  ((device_holdsTo hhome h).guarantee deviceContract_crashSafe hnext trivial).rows

/-- The keys of the rows are distinct in every run that starts so. -/
theorem rooms_nodup {home : DeviceWorld}
    (hhome : ∀ path, (home.snapshots path).isSome → HasRow digest path home.rooms)
    (hnodup : (home.rooms.map JoinedRoom.target).Nodup)
    {c : Config DeviceWorld DeviceStep Failure Unit}
    (h : (deviceSystem process).Reachable (device digest home calls) c) :
    (c.snap.world.rooms.map JoinedRoom.target).Nodup := by
  induction h with
  | start => exact hnodup
  | step m hrun hnext _ ih =>
      rcases rooms_step hhome hrun hnext with hsame | ⟨t, call, -, -, hrows⟩
      · rw [hsame]
        exact ih
      · rw [hrows]
        exact call.rowsAfter_nodup ih

/-- While a row is there, it was joined when it was, and a real title stays real. -/
theorem row_run {home : DeviceWorld}
    (hhome : ∀ path, (home.snapshots path).isSome → HasRow digest path home.rooms)
    {c c' : Config DeviceWorld DeviceStep Failure Unit}
    (h : (deviceSystem process).Reachable (device digest home calls) c)
    {key : JoinedRoomTarget}
    (hrun : (deviceSystem process).Run
      (fun _ x => (findRoom key x.world.rooms).isSome = true) c c')
    {row row' : JoinedRoom} (hrow : findRoom key c.snap.world.rooms = some row)
    (hrow' : findRoom key c'.snap.world.rooms = some row') :
    row'.joinedAt = row.joinedAt ∧
      (isRealTitle row.roomId row.title = true → isRealTitle row'.roomId row'.title = true) := by
  induction hrun generalizing row' with
  | start =>
      obtain rfl := Option.some.inj (hrow.symm.trans hrow')
      exact ⟨rfl, id⟩
  | step m hrun hnext hallow ih =>
      obtain ⟨between, hbetween⟩ := Option.isSome_iff_exists.mp hallow
      obtain ⟨hjoined, htitle⟩ := ih hbetween
      have hreach := h.trans (hrun.mono fun _ _ _ => trivial)
      rcases rooms_step hhome hreach hnext with hsame | ⟨t, call, -, -, hrows⟩
      · rw [hsame, hbetween] at hrow'
        obtain rfl := Option.some.inj hrow'
        exact ⟨hjoined, htitle⟩
      · rw [hrows] at hrow'
        have hkept := (call.rowsAfter_kept _).kept key between row' hbetween hrow'
        exact ⟨hkept.joinedAt.trans hjoined, fun h => hkept.title (htitle h)⟩

end Runs

/-- In every run from an empty store, each room has at most one row; every move leaves the
rows or is the write of one call, which keeps what that call has no authority over; and
while a row is there, it keeps when it was joined and that its title is real. -/
theorem joinedRooms_kept (digest : List Char → String) (process : Nat → Nat)
    (calls : List DeviceCall) {c : Config DeviceWorld DeviceStep Failure Unit}
    (h : (deviceSystem process).Reachable (device digest .empty calls) c) :
    (c.snap.world.rooms.map JoinedRoom.target).Nodup ∧
    (∀ m e c', (deviceSystem process).next c m = some (e, c') →
      c'.snap.world.rooms = c.snap.world.rooms ∨ ∃ t call, calls[t]? = some call ∧
        e = .ran t (.wroteRooms c'.snap.world.rooms) ∧
        RowsKept call c.snap.world.rooms c'.snap.world.rooms) ∧
    ∀ c' key row row', (deviceSystem process).Run
        (fun _ x => (findRoom key x.world.rooms).isSome = true) c c' →
      findRoom key c.snap.world.rooms = some row →
      findRoom key c'.snap.world.rooms = some row' →
      row'.joinedAt = row.joinedAt ∧
        (isRealTitle row.roomId row.title = true →
          isRealTitle row'.roomId row'.title = true) := by
  have hhome (path : String) (hpath : (DeviceWorld.empty.snapshots path).isSome) :
      HasRow digest path DeviceWorld.empty.rooms := nomatch hpath
  refine ⟨rooms_nodup hhome List.nodup_nil h, fun m e c' hnext => ?_,
    fun c' key row row' hrun hrow hrow' => row_run hhome h hrun hrow hrow'⟩
  rcases rooms_step hhome h hnext with hsame | ⟨t, call, hcall, he, hrows⟩
  · exact .inl hsame
  · refine .inr ⟨t, call, hcall, he, ?_⟩
    rw [hrows]
    exact call.rowsAfter_kept _

/-- A room is joined, and its row is refreshed from another seat. -/
def joinAndRefresh : List DeviceCall :=
  [.recordJoinedRoom ⟨"r", "Launch", "ada", "https://host", "t0", "t0", none, none, none⟩,
    .refreshJoinedRoomMetadata
      ⟨"r", "r", "bot", "https://host", "t1", "t1", none, none, none⟩]

/-- The row that is left, by the general theorem. -/
theorem joinedRooms_kept_refreshed :
    ∃ c, (deviceSystem id).Reachable (device (fun _ => "") .empty joinAndRefresh) c ∧
      c.snap.world.rooms.map (fun row => (row.title, row.aliasName, row.joinedAt)) =
        [("Launch", "ada", "t0")] ∧
      (c.snap.world.rooms.map JoinedRoom.target).Nodup := by
  have hrun : ((deviceSystem id).replay (device (fun _ => "") .empty joinAndRefresh)
      (List.replicate 5 (.run 0) ++ List.replicate 5 (.run 1))).map
      (fun c => c.snap.world.rooms.map fun row => (row.title, row.aliasName, row.joinedAt)) =
      some [("Launch", "ada", "t0")] := by decide
  obtain ⟨c, hc, hrows⟩ := System.exists_reachable_of_replay hrun
  exact ⟨c, hc, hrows, (joinedRooms_kept (fun _ => "") id joinAndRefresh hc).1⟩

end AgentGather.Storage
