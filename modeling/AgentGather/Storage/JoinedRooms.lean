import AgentGather.Library.OrderedMap
import AgentGather.Library.Table
import AgentGather.Library.Text

/-!
# The rooms a device has joined

The rows of `joined-rooms.json` and what the operations of the store make of them.  A row
is keyed by its room id and its base URL.
-/

namespace AgentGather.Storage

open AgentGather.Library

inductive JoinedRoomKind where
  | human
  | agent
deriving DecidableEq, Repr

/-- A seat this device holds for a room; no kind is an unknown one. -/
structure JoinedRoomSeat where
  aliasName : String
  kind : Option JoinedRoomKind
deriving DecidableEq, Repr

/-- A row.  A row of an older version carries neither a kind nor seats. -/
structure JoinedRoom where
  roomId : String
  title : String
  aliasName : String
  baseUrl : String
  joinedAt : String
  lastSeen : String
  kind : Option JoinedRoomKind
  seats : Option (List JoinedRoomSeat)
  archived : Option Bool
deriving DecidableEq, Repr

@[ext] structure JoinedRoomTarget where
  roomId : String
  baseUrl : String
deriving DecidableEq, Repr

/-- What keys the row. -/
def JoinedRoom.target (row : JoinedRoom) : JoinedRoomTarget := ⟨row.roomId, row.baseUrl⟩

/-- `row.archived === true`. -/
def JoinedRoom.isArchived (row : JoinedRoom) : Bool := row.archived == some true

/-- The row a target names. -/
def findRoom (target : JoinedRoomTarget) (rooms : List JoinedRoom) : Option JoinedRoom :=
  Table.find JoinedRoom.target target rooms

/-! ## Seats -/

/-- The kind a seat is recorded with: the one that was learned, or the one known. -/
def learnSeat (merged : OrderedMap String JoinedRoomSeat) (seat : JoinedRoomSeat) :
    OrderedMap String JoinedRoomSeat :=
  if seat.aliasName = "" then merged
  else
    merged.set seat.aliasName
      ⟨seat.aliasName, seat.kind.or ((merged.get? seat.aliasName).bind (·.kind))⟩

/-- The stored seats by alias. -/
def storedSeats (existing : Option (List JoinedRoomSeat)) : OrderedMap String JoinedRoomSeat :=
  (existing.getD []).foldl
    (fun merged seat =>
      if seat.aliasName = "" then merged else merged.set seat.aliasName seat) .empty

/-- The seats an entry brings, the selected one last. -/
def learnedSeats (incoming : Option (List JoinedRoomSeat)) (selectedAlias : String)
    (selectedKind : Option JoinedRoomKind) : List JoinedRoomSeat :=
  incoming.getD [] ++ if selectedAlias = "" then [] else [⟨selectedAlias, selectedKind⟩]

def mergeSeats (existing incoming : Option (List JoinedRoomSeat)) (selectedAlias : String)
    (selectedKind : Option JoinedRoomKind) : List JoinedRoomSeat :=
  ((learnedSeats incoming selectedAlias selectedKind).foldl learnSeat
    (storedSeats existing)).values

/-! ## Recording a room -/

/-- A title that is more than the room id. -/
def isRealTitle (roomId value : String) : Bool := value != "" && value != roomId

def recordTitle (existing : Option JoinedRoom) (entry : JoinedRoom) : String :=
  if isRealTitle entry.roomId entry.title then entry.title
  else
    match (existing.map (·.title)).filter (isRealTitle entry.roomId) with
    | some title => title
    | none => if entry.title != "" then entry.title else entry.roomId

/-- `keepSelectedAlias` is the metadata refresh: the alias that is stored wins. -/
def recordAlias (existing : Option JoinedRoom) (entry : JoinedRoom)
    (keepSelectedAlias : Bool) : String :=
  match (existing.map (·.aliasName)).filter fun stored => keepSelectedAlias && stored != "" with
  | some stored => stored
  | none => entry.aliasName

/-- The kind the entry carries, or the stored one where the alias is unchanged. -/
def recordKind (existing : Option JoinedRoom) (entry : JoinedRoom) (aliasName : String) :
    Option JoinedRoomKind :=
  entry.kind.or
    (if existing.map (·.aliasName) = some aliasName then existing.bind (·.kind) else none)

/-- The row that is written for an entry. -/
def joinedRoomRecord (existing : Option JoinedRoom) (entry : JoinedRoom)
    (keepSelectedAlias : Bool) : JoinedRoom :=
  let aliasName := recordAlias existing entry keepSelectedAlias
  let kind := recordKind existing entry aliasName
  let seats := mergeSeats (existing.bind (·.seats)) entry.seats aliasName kind
  { roomId := entry.roomId
    title := recordTitle existing entry
    aliasName := aliasName
    baseUrl := entry.baseUrl
    joinedAt := (existing.map (·.joinedAt)).getD entry.joinedAt
    lastSeen := entry.lastSeen
    kind := kind
    seats := if seats.isEmpty then none else some seats
    archived :=
      if entry.archived.or (existing.bind (·.archived)) = some true then some true else none }

/-- The rows with the entry's row written. -/
def upsertJoinedRoom (rooms : List JoinedRoom) (entry : JoinedRoom)
    (keepSelectedAlias : Bool) : List JoinedRoom :=
  Table.upsert JoinedRoom.target
    (joinedRoomRecord (findRoom entry.target rooms) entry keepSelectedAlias) rooms

@[simp] theorem joinedRoomRecord_target (existing : Option JoinedRoom) (entry : JoinedRoom)
    (keepSelectedAlias : Bool) :
    (joinedRoomRecord existing entry keepSelectedAlias).target = entry.target := rfl

/-- The entry's row is the one that was written. -/
theorem findRoom_upsertJoinedRoom (rooms : List JoinedRoom) (entry : JoinedRoom)
    (keepSelectedAlias : Bool) :
    findRoom entry.target (upsertJoinedRoom rooms entry keepSelectedAlias) =
      some (joinedRoomRecord (findRoom entry.target rooms) entry keepSelectedAlias) :=
  @Table.find_upsert_self _ _ _ JoinedRoom.target
    (joinedRoomRecord (findRoom entry.target rooms) entry keepSelectedAlias) rooms

/-! ## Archiving and deleting -/

/-- A row without the flag is not archived. -/
def JoinedRoom.setArchived (archived : Bool) (row : JoinedRoom) : JoinedRoom :=
  { row with archived := if archived then some true else none }

@[simp] theorem JoinedRoom.setArchived_target (archived : Bool) (row : JoinedRoom) :
    (row.setArchived archived).target = row.target := rfl

/-- `${roomId.length}:${roomId}|${baseUrl}`. -/
def joinedRoomKey (target : JoinedRoomTarget) : List Char :=
  Text.lengthPrefixed target.roomId.toList ++ '|' :: target.baseUrl.toList

theorem joinedRoomKey_injective : Function.Injective joinedRoomKey := by
  intro target other h
  obtain ⟨hroom, hrest⟩ := Text.lengthPrefixed_append_inj h
  exact JoinedRoomTarget.ext (String.toList_injective hroom)
    (String.toList_injective (List.cons.inj hrest).2)

def dedupeTargets (targets : List JoinedRoomTarget) :
    OrderedMap (List Char) JoinedRoomTarget :=
  .setAll joinedRoomKey (fun _ target => target) .empty targets

/-- The row is one of the targets'. -/
def isTargeted (unique : OrderedMap (List Char) JoinedRoomTarget) (room : JoinedRoom) : Bool :=
  (unique.get? (joinedRoomKey room.target)).isSome

theorem dedupeTargets_names (targets : List JoinedRoomTarget) :
    OrderedMap.Names joinedRoomKey (dedupeTargets targets) := by
  rw [dedupeTargets]
  apply OrderedMap.names_setAll
  · exact fun _ _ => rfl
  · exact OrderedMap.names_empty _

theorem mem_keys_dedupeTargets (targets : List JoinedRoomTarget) (target : JoinedRoomTarget) :
    joinedRoomKey target ∈ (dedupeTargets targets).keys ↔ target ∈ targets := by
  rw [dedupeTargets, OrderedMap.mem_keys_setAll,
    List.mem_map_of_injective joinedRoomKey_injective]
  simp [OrderedMap.keys, OrderedMap.empty]

theorem isSome_dedupeTargets (targets : List JoinedRoomTarget) (target : JoinedRoomTarget) :
    ((dedupeTargets targets).get? (joinedRoomKey target)).isSome ↔ target ∈ targets := by
  rw [← mem_keys_dedupeTargets, ← not_iff_not, Option.not_isSome_iff_eq_none,
    OrderedMap.get?_eq_none_iff]

theorem mem_values_dedupeTargets (targets : List JoinedRoomTarget)
    (target : JoinedRoomTarget) : target ∈ (dedupeTargets targets).values ↔ target ∈ targets := by
  rw [OrderedMap.mem_values_iff, ← isSome_dedupeTargets, Option.isSome_iff_exists]
  constructor
  · rintro ⟨key, hget⟩
    have hkey := dedupeTargets_names targets key target hget
    exact ⟨target, hkey ▸ hget⟩
  · rintro ⟨other, hget⟩
    have hkey := dedupeTargets_names targets _ other hget
    rw [joinedRoomKey_injective hkey] at hget
    exact ⟨_, hget⟩

/-- A row is targeted exactly if its key is among the targets. -/
theorem isTargeted_dedupeTargets (targets : List JoinedRoomTarget) (room : JoinedRoom) :
    isTargeted (dedupeTargets targets) room = decide (room.target ∈ targets) := by
  rw [isTargeted, Bool.eq_iff_iff, isSome_dedupeTargets, decide_eq_true_iff]

structure BulkJoinedRoomResult where
  requested : Nat
  matched : Nat
  changed : Nat
  missing : Nat
deriving DecidableEq, Repr

def archiveRooms (unique : OrderedMap (List Char) JoinedRoomTarget) (archived : Bool)
    (rooms : List JoinedRoom) : List JoinedRoom :=
  rooms.map fun room =>
    if isTargeted unique room && room.isArchived != archived then room.setArchived archived
    else room

def deleteRooms (unique : OrderedMap (List Char) JoinedRoomTarget) (rooms : List JoinedRoom) :
    List JoinedRoom :=
  rooms.filter fun room => !isTargeted unique room

end AgentGather.Storage
