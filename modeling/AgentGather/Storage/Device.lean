import AgentGather.Library.RelyGuarantee
import AgentGather.Protocol.Types
import AgentGather.Storage.JoinedHistory

/-!
# The joined rooms of a device

`joined-rooms.json` and the snapshots beside it, as the callers on one device leave them
between two of their steps.  The rows are under one writer lock, each snapshot is under one
of its own.  A file is replaced atomically; every step may fail, and a process may crash
between two steps.
-/

namespace AgentGather.Storage

open AgentGather.Library AgentGather.Protocol

/-- `joined-rooms.lock`, and the lock of a snapshot. -/
inductive DeviceLock where
  | joinedRooms
  | history (path : String)
deriving DecidableEq, Repr

/-- An absent `joined-rooms.json` has no rows; `locks` are the callers that hold them. -/
structure DeviceWorld where
  rooms : List JoinedRoom
  snapshots : String → Option JoinedHistorySnapshot
  locks : DeviceLock → Option Nat

/-- A device nobody joined a room on. -/
def DeviceWorld.empty : DeviceWorld := ⟨[], fun _ => none, fun _ => none⟩

/-- One step of a caller, with the data it wrote. -/
inductive DeviceStep where
  | ensuredDirectory
  | locked (lock : DeviceLock)
  | unlocked (lock : DeviceLock)
  | readRooms
  | wroteRooms (rooms : List JoinedRoom)
  | readSnapshot (path : String)
  | wroteSnapshot (path : String) (snapshot : JoinedHistorySnapshot)
  | removedSnapshot (path : String)
deriving DecidableEq, Repr

/-- What may fail: every step, with an operating-system error, and taking a lock also by
running out of time. -/
def DeviceStep.mayFail : DeviceStep → Failure → Bool
  | .locked _, .error _ => true
  | _, .os => true
  | _, _ => false

abbrev DeviceProg := Prog DeviceWorld DeviceStep Failure

/-- Callers with their processes; a dead holder's lock is free again. -/
def deviceSystem (process : Nat → Nat) : System DeviceWorld DeviceStep Failure where
  process := process
  faults := DeviceStep.mayFail
  crash p := some fun w =>
    { w with locks := fun lock => (w.locks lock).filter fun t => process t != p }

/-! ## Steps -/

def ensureSecureDir : DeviceProg Unit := .update (fun _ => .ensuredDirectory) id

def DeviceWorld.setLock (lock : DeviceLock) (holder : Option Nat) (w : DeviceWorld) :
    DeviceWorld :=
  { w with locks := Function.update w.locks lock holder }

def acquireLock (t : Nat) (lock : DeviceLock) : DeviceProg Unit :=
  .action (fun _ => .locked lock) (fun w => (w.locks lock).isNone) (.setLock lock (some t))
    fun _ => .ok ()

def releaseLock (lock : DeviceLock) : DeviceProg Unit :=
  .update (fun _ => .unlocked lock) (.setLock lock none)

/-- `withWriterLock(lockPath, body)`, by caller `t`. -/
def withLock {α : Type} (t : Nat) (lock : DeviceLock) (body : DeviceProg α) : DeviceProg α :=
  (acquireLock t lock).bind fun _ => body.finallyDo (releaseLock lock)

def readJoinedRooms : DeviceProg (List JoinedRoom) :=
  .query (fun _ => .readRooms) fun w => .ok w.rooms

def writeJoinedRooms (rooms : List JoinedRoom) : DeviceProg Unit :=
  .update (fun _ => .wroteRooms rooms) fun w => { w with rooms := rooms }

def DeviceWorld.setSnapshot (path : String) (snapshot : Option JoinedHistorySnapshot)
    (w : DeviceWorld) : DeviceWorld :=
  { w with snapshots := Function.update w.snapshots path snapshot }

theorem DeviceWorld.setSnapshot_snapshots (path other : String)
    (snapshot : Option JoinedHistorySnapshot) (w : DeviceWorld) :
    (w.setSnapshot path snapshot).snapshots other =
      if other = path then snapshot else w.snapshots other :=
  Function.update_apply ..

/-! ## Rows -/

/-- Read the rows and, where the edit says so, write them, under the lock of the rows. -/
def editRooms {α : Type} (t : Nat) (edit : List JoinedRoom → α × Option (List JoinedRoom)) :
    DeviceProg α := do
  ensureSecureDir
  withLock t .joinedRooms do
    let rooms ← readJoinedRooms
    match edit rooms with
    | (result, none) => return result
    | (result, some next) =>
        writeJoinedRooms next
        return result

def recordJoinedRoom (t : Nat) (entry : JoinedRoom) : DeviceProg Unit :=
  editRooms t fun rooms => ((), some (upsertJoinedRoom rooms entry false))

def refreshJoinedRoomMetadata (t : Nat) (entry : JoinedRoom) : DeviceProg Unit :=
  editRooms t fun rooms => ((), some (upsertJoinedRoom rooms entry true))

/-- Whether a row was there. -/
def setJoinedRoomArchived (t : Nat) (target : JoinedRoomTarget) (archived : Bool) :
    DeviceProg Bool :=
  editRooms t fun rooms =>
    if (findRoom target rooms).isSome then
      (true, some (Table.modify JoinedRoom.target target (.setArchived archived) rooms))
    else (false, none)

/-- Archive the rows of the targets; nothing is written where nothing changes. -/
def archiveEdit (unique : OrderedMap (List Char) JoinedRoomTarget) (archived : Bool)
    (rooms : List JoinedRoom) : BulkJoinedRoomResult × Option (List JoinedRoom) :=
  let matched := rooms.countP (isTargeted unique)
  let changed := rooms.countP fun room =>
    isTargeted unique room && room.isArchived != archived
  (⟨unique.keys.length, matched, changed, unique.keys.length - matched⟩,
    if 0 < changed then some (archiveRooms unique archived rooms) else none)

def setJoinedRoomsArchived (t : Nat) (targets : List JoinedRoomTarget) (archived : Bool) :
    DeviceProg BulkJoinedRoomResult :=
  if (dedupeTargets targets).keys = [] then do
    ensureSecureDir
    return ⟨0, 0, 0, 0⟩
  else editRooms t (archiveEdit (dedupeTargets targets) archived)

/-! ## Snapshots -/

/-- What is hashed for the file name of a snapshot. -/
def joinedHistoryKey (key : JoinedRoomTarget) : List Char :=
  Text.lengthPrefixed key.roomId.toList ++ '\n' :: Text.lengthPrefixed key.baseUrl.toList

theorem joinedHistoryKey_injective : Function.Injective joinedHistoryKey := by
  intro key other h
  obtain ⟨hroom, hrest⟩ := Text.lengthPrefixed_append_inj h
  have hbase := (List.cons.inj hrest).2
  rw [← List.append_nil (Text.lengthPrefixed key.baseUrl.toList),
    ← List.append_nil (Text.lengthPrefixed other.baseUrl.toList)] at hbase
  exact JoinedRoomTarget.ext (String.toList_injective hroom)
    (String.toList_injective (Text.lengthPrefixed_append_inj hbase).1)

section Snapshots

-- The SHA-256 digest in hexadecimal.
variable (digest : List Char → String)

def joinedHistoryPath (key : JoinedRoomTarget) : String :=
  digest (joinedHistoryKey key) ++ ".json"

/-- The stored snapshot; one that cannot be read, or is another room's, is none. -/
def readJoinedHistory (key : JoinedRoomTarget) : DeviceProg (Option JoinedHistorySnapshot) :=
  (Prog.query (fun _ => .readSnapshot (joinedHistoryPath digest key)) fun w =>
    .ok ((w.snapshots (joinedHistoryPath digest key)).filter fun snapshot =>
      snapshot.roomId == key.roomId && snapshot.baseUrl == key.baseUrl)).catchErr
    fun _ => .ret none

/-- The row is there and not archived. -/
def isStillTracked (key : JoinedRoomTarget) : DeviceProg Bool := do
  let rooms ← readJoinedRooms
  return (findRoom key rooms).any fun row => !row.isArchived

def writeSnapshot (path : String) (snapshot : JoinedHistorySnapshot) : DeviceProg Unit :=
  .update (fun _ => .wroteSnapshot path snapshot) (.setSnapshot path (some snapshot))

/-- The guard is evaluated inside the lock, right before the write. -/
def recordJoinedHistory (t : Nat) (entry : HistoryEntry)
    (isStillTracked : Option (DeviceProg Bool)) :
    DeviceProg (Option JoinedHistorySnapshot) := do
  let path := joinedHistoryPath digest entry.key
  ensureSecureDir
  withLock t (.history path) do
    let tracked ← isStillTracked.getD (.ret true)
    if tracked then
      let found ← readJoinedHistory digest entry.key
      let next := recordedSnapshot found entry
      writeSnapshot path next
      return some next
    else return none

/-- Whether there was a snapshot. -/
def deleteJoinedHistory (t : Nat) (key : JoinedRoomTarget) : DeviceProg Bool := do
  let path := joinedHistoryPath digest key
  ensureSecureDir
  withLock t (.history path)
    (.action (fun _ => .removedSnapshot path) (fun _ => true) (.setSnapshot path none)
      fun w => .ok (w.snapshots path).isSome)

/-! ## Deleting rows -/

/-- Delete the row of the target; nothing is written where there is none. -/
def deleteEdit (target : JoinedRoomTarget) (rooms : List JoinedRoom) :
    Bool × Option (List JoinedRoom) :=
  let next := rooms.filter fun room => room.target != target
  if next.length = rooms.length then (false, none) else (true, some next)

/-- The row first, the snapshot second. -/
def deleteJoinedRoom (t : Nat) (target : JoinedRoomTarget) : DeviceProg Bool := do
  let removed ← editRooms t (deleteEdit target)
  let _ ← deleteJoinedHistory digest t target
  return removed

/-- Clear the snapshots one after the other; a failure is counted and the rest are still
attempted. -/
def clearSnapshots (t : Nat) : List JoinedRoomTarget → DeviceProg Nat
  | [] => .ret 0
  | target :: targets => do
      let failures ← ((deleteJoinedHistory digest t target).bind fun _ => .ret 0).catchErr
        fun _ => .ret 1
      let rest ← clearSnapshots t targets
      return failures + rest

/-- The message names only counts. -/
def snapshotFailureMessage (removed snapshotFailures : Nat) : String :=
  toString removed ++ " joined-room " ++ (if removed = 1 then "row was" else "rows were") ++
    " removed, but " ++ toString snapshotFailures ++ " offline " ++
    (if snapshotFailures = 1 then "snapshot" else "snapshots") ++ " could not be cleared"

/-- Delete the rows of the targets, and count them. -/
def deleteAllEdit (unique : OrderedMap (List Char) JoinedRoomTarget)
    (rooms : List JoinedRoom) : Nat × Option (List JoinedRoom) :=
  let next := deleteRooms unique rooms
  let count := rooms.length - next.length
  (count, if 0 < count then some next else none)

def deleteJoinedRooms (t : Nat) (targets : List JoinedRoomTarget) :
    DeviceProg BulkJoinedRoomResult :=
  if (dedupeTargets targets).keys = [] then do
    ensureSecureDir
    return ⟨0, 0, 0, 0⟩
  else do
    let removed ← editRooms t (deleteAllEdit (dedupeTargets targets))
    let snapshotFailures ← clearSnapshots digest t (dedupeTargets targets).values
    if 0 < snapshotFailures then
      throw (.error (snapshotFailureMessage removed snapshotFailures))
    else
      let requested := (dedupeTargets targets).keys.length
      return ⟨requested, removed, removed, requested - removed⟩

end Snapshots

/-! ## Calls -/

inductive DeviceCall where
  | recordJoinedRoom (entry : JoinedRoom)
  | refreshJoinedRoomMetadata (entry : JoinedRoom)
  | setJoinedRoomArchived (target : JoinedRoomTarget) (archived : Bool)
  | setJoinedRoomsArchived (targets : List JoinedRoomTarget) (archived : Bool)
  | deleteJoinedRoom (target : JoinedRoomTarget)
  | deleteJoinedRooms (targets : List JoinedRoomTarget)
  | recordJoinedHistory (entry : HistoryEntry)

/-- The call as caller `t` makes it; what it returns is not looked at. -/
def DeviceCall.prog (digest : List Char → String) (t : Nat) : DeviceCall → DeviceProg Unit
  | .recordJoinedRoom entry => Storage.recordJoinedRoom t entry
  | .refreshJoinedRoomMetadata entry => Storage.refreshJoinedRoomMetadata t entry
  | .setJoinedRoomArchived target archived =>
      (Storage.setJoinedRoomArchived t target archived).bind fun _ => .ret ()
  | .setJoinedRoomsArchived targets archived =>
      (Storage.setJoinedRoomsArchived t targets archived).bind fun _ => .ret ()
  | .deleteJoinedRoom target =>
      (Storage.deleteJoinedRoom digest t target).bind fun _ => .ret ()
  | .deleteJoinedRooms targets =>
      (Storage.deleteJoinedRooms digest t targets).bind fun _ => .ret ()
  | .recordJoinedHistory entry =>
      (Storage.recordJoinedHistory digest t entry (some (isStillTracked entry.key))).bind
        fun _ => .ret ()

/-- A device with these rows and snapshots, and the calls about to be made on it. -/
def device (digest : List Char → String) (home : DeviceWorld) (calls : List DeviceCall) :
    Config DeviceWorld DeviceStep Failure Unit where
  snap := ⟨home, []⟩
  threads := calls.mapIdx fun t call => some (call.prog digest t)

end AgentGather.Storage
