import Mathlib.Data.List.Sort
import AgentGather.Library.Number
import AgentGather.Platform.Accounts
import AgentGather.Platform.RegistryStore
import AgentGather.Storage.BoardDiscipline

/-!
# The rooms of an owner

What the control plane answers about rooms is scoped by the owner: it is made of the owner's
records, of the channels of these rooms and of their logs.  Of the rooms of others an owner
learns nothing, not even that they are there.
-/

namespace AgentGather.Platform

open AgentGather.Library AgentGather.Library.Url AgentGather.Protocol AgentGather.Storage.Boards

/-! ## Responses -/

/-- What is read for a response: the registry, and by room id the hosts' boardrooms and logs. -/
structure ControlPlane where
  registry : RegistryWorld
  boards : String → BoardFiles
  logs : String → Except Failure (List Message)

structure PlatformApiResponse where
  status : Nat
  body : Json

structure PublicChannel where
  id : String
  name : String
  type : String
deriving DecidableEq, Repr

def PublicChannel.toJson (channel : PublicChannel) : Json :=
  .obj [("id", .str channel.id), ("name", .str channel.name), ("type", .str channel.type)]

def unauthorized : PlatformApiResponse :=
  ⟨401, .obj [("ok", .bool false), ("error", .str "unauthorized"),
    ("message", .str "owner account is required")]⟩

def notFound : PlatformApiResponse :=
  ⟨404, .obj [("ok", .bool false), ("error", .str "not_found"),
    ("message", .str "no such room")]⟩

/-- The channels of a room that are not removed; a room without a store has the default one. -/
def publicChannels (files : BoardFiles) : Except Failure (List PublicChannel) :=
  match files.loaded with
  | .ok boardroom =>
      .ok ((boardroom.channels.filter fun channel => channel.lifecycle != "removed").map
        fun channel => ⟨channel.id, channel.name, channel.type⟩)
  | .error .notFound => .ok [⟨defaultChannelId, defaultChannelName, "chat"⟩]
  | .error e => .error e

/-- A record without the text of a room id leads to no store. -/
def attachChannels (p : ControlPlane) (room : Json) : Except Failure Json :=
  match room.field? "room_id" with
  | some (.str roomId) =>
      (publicChannels (p.boards roomId)).map fun channels =>
        room.setField "channels" (.arr (channels.map PublicChannel.toJson))
  | _ => .error (.error "The \"path\" argument must be of type string")

def isOwnedBy (owner : String) (room : Json) : Bool :=
  match room.field? "owner_user_id" with
  | some (.str ownerUserId) => ownerUserId == owner
  | _ => false

/-- `sinceId` of a request; none where it is malformed. -/
def readSinceId : Option String → Option Nat
  | none => some 0
  | some raw =>
      match Number.toInteger raw.toList with
      | some n => if 0 ≤ n ∧ n ≤ 9007199254740991 then some n.toNat else none
      | none => none

section Responses

variable (isIso : String → Bool) (now : String) (p : ControlPlane) (query : PlatformOwnerQuery)

def ownerOrError : Option String :=
  match Accounts.resolveOwnerAccount isIso now query with
  | .ok (some account) => some account.userId
  | _ => none

def attachAll : List Json → Except Failure (List Json)
  | [] => .ok []
  | room :: rooms => do
      let first ← attachChannels p room
      let rest ← attachAll rooms
      return first :: rest

def listRoomsResponse : Except Failure PlatformApiResponse :=
  match ownerOrError isIso now query with
  | none => .ok unauthorized
  | some owner => do
      let rooms ← (listControlPlaneRooms.runAlone p.registry).1
      let withChannels ← attachAll p (rooms.filter (isOwnedBy owner))
      return ⟨200, .obj [("ok", .bool true), ("rooms", .arr withChannels)]⟩

/-- A room of another owner is answered as one that is not there. -/
def readRoomResponse (roomId : String) : Except Failure PlatformApiResponse :=
  match ownerOrError isIso now query with
  | none => .ok unauthorized
  | some owner =>
      match ((readControlPlaneRoom roomId).runAlone p.registry).1 with
      | .error e => if e = noMetadata roomId then .ok notFound else .error e
      | .ok room =>
          if isOwnedBy owner room then
            (attachChannels p room).map fun attached =>
              ⟨200, .obj [("ok", .bool true), ("room", attached)]⟩
          else .ok notFound

def invalidSinceId : PlatformApiResponse :=
  ⟨400, .obj [("ok", .bool false), ("error", .str "invalid_since_id"),
    ("message", .str "since_id must be a non-negative integer")]⟩

def messagesResponse (messages : List Message) (sinceId : Nat) (available : Bool) :
    PlatformApiResponse :=
  ⟨200, .obj [("ok", .bool true), ("messages", .arr (messages.map Message.toJson)),
    ("next_since_id", .num ((messages.getLast?.map (·.id)).getD sinceId)),
    ("host_log_available", .bool available)]⟩

/-- The log of a room whose host is elsewhere is not there. -/
def sendRoomMessages (roomId : String) (rawSince : Option String) :
    Except Failure PlatformApiResponse := do
  let room ← readRoomResponse isIso now p query roomId
  if room.status ≠ 200 then return room
  else
    match readSinceId rawSince with
    | none => return invalidSinceId
    | some sinceId =>
        match p.logs roomId with
        | .ok log =>
            return messagesResponse (log.filter fun message => sinceId < message.id) sinceId true
        | .error .notFound => return messagesResponse [] sinceId false
        | .error e => throw e

end Responses

/-! ## What is an owner's -/

/-- The record of the room is stored and names the owner. -/
structure ControlPlane.Owns (p : ControlPlane) (owner id : String) (record : Json) : Prop where
  stored : p.registry.files.get? id = some (JsonFile.bytes record)
  valid : record.Valid
  owned : isOwnedBy owner record = true

/-- The owner has the same records on both sides, and of these rooms the same channels and
logs. -/
structure SameForOwner (owner : String) (p q : ControlPlane) : Prop where
  records : ∀ id record, p.Owns owner id record ↔ q.Owns owner id record
  channels : ∀ id record, p.Owns owner id record →
    publicChannels (p.boards id) = publicChannels (q.boards id)
  logs : ∀ id record, p.Owns owner id record → p.logs id = q.logs id

/-- A record of the room as it is written. -/
structure RecordOf (id : String) (record : Json) : Prop where
  valid : record.Valid
  safe : isSafeSlug id = true
  roomId : record.field? "room_id" = some (.str id)

/-- Every file is the one of a record of its room. -/
def WellStored (w : RegistryWorld) : Prop :=
  ∀ id bytes, w.files.get? id = some bytes →
    ∃ record, RecordOf id record ∧ bytes = JsonFile.bytes record

theorem recordOf_toJson {room : ControlPlaneRoom} (hsafe : isSafeSlug room.roomId = true) :
    RecordOf room.roomId room.toJson where
  valid := room.clean_toJson.valid
  safe := hsafe
  roomId := by
    have hkeys : room.members.map Prod.fst = roomKeys := rfl
    have hfield : room.toJson.field? "room_id" = (room.members.lookup "room_id").join := by
      apply Json.field?_present
      rw [hkeys]
      decide
    exact hfield

theorem RegistryInv.wellStored {x : Snapshot RegistryWorld RegistryStep} (h : RegistryInv x) :
    WellStored x.world := by
  intro id bytes hget
  obtain ⟨t, room, hwrote, rfl⟩ := h.stored id bytes hget
  obtain ⟨hsafe, hstored⟩ := h.written t room hwrote
  exact ⟨room.toJson, recordOf_toJson hsafe, Option.some.inj (hget.symm.trans hstored)⟩

/-! ## What is read -/

/-- The record of a room, as it is read. -/
def readRecord (w : RegistryWorld) (id : String) : Except Failure Json := do
  assertSafeSlug id "room id"
  match w.files.get? id with
  | none => .error (noMetadata id)
  | some bytes =>
      match JsonFile.read bytes with
      | some record => .ok record
      | none => .error .malformedJson

section Reading

variable {w : RegistryWorld} {id owner : String} {record : Json}

theorem runAlone_readControlPlaneRoom (w : RegistryWorld) (id : String) :
    (readControlPlaneRoom id).runAlone w = (readRecord w id, w) := by
  refine Prog.runAlone_bind_of_reads (Prog.runAlone_ofExcept _ w) fun _ _ => ?_
  rw [Prog.bind_eq_bind, Prog.runAlone_bind, Prog.runAlone_catchErr, readRoomFile,
    Prog.runAlone_query]
  cases w.files.get? id with
  | none => rfl
  | some bytes =>
      dsimp only
      cases JsonFile.read bytes <;> rfl

theorem readRecord_of_stored (h : RecordOf id record)
    (hstored : w.files.get? id = some (JsonFile.bytes record)) :
    readRecord w id = .ok record := by
  rw [readRecord, assertSafeSlug_ok_iff.mpr h.safe]
  simp only [bind, Except.bind, hstored, JsonFile.read_bytes h.valid]

theorem readRecord_of_absent (hsafe : isSafeSlug id = true) (hnone : w.files.get? id = none) :
    readRecord w id = .error (noMetadata id) := by
  rw [readRecord, assertSafeSlug_ok_iff.mpr hsafe]
  simp only [bind, Except.bind, hnone]

/-- An id that is not safe is refused alike whatever is stored. -/
theorem readRecord_of_unsafe (hbad : isSafeSlug id ≠ true) :
    ∃ e, ∀ w, readRecord w id = .error e := by
  cases hslug : assertSafeSlug id "room id" with
  | ok u => exact absurd (assertSafeSlug_ok_iff.mp hslug) hbad
  | error e =>
      refine ⟨e, fun w => ?_⟩
      rw [readRecord, hslug]
      rfl

theorem exists_records (h : WellStored w) {ids : List String}
    (hids : ∀ id ∈ ids, id ∈ w.files.keys) :
    ∃ records : List (String × Json), records.map Prod.fst = ids ∧
      ∀ r ∈ records, RecordOf r.1 r.2 ∧ w.files.get? r.1 = some (JsonFile.bytes r.2) := by
  induction ids with
  | nil => exact ⟨[], rfl, fun r hr => by cases hr⟩
  | cons id ids ih =>
      obtain ⟨hid, hrest⟩ := List.forall_mem_cons.mp hids
      obtain ⟨records, hmap, hrecords⟩ := ih hrest
      cases hget : w.files.get? id with
      | none => exact absurd hid (OrderedMap.get?_eq_none_iff.mp hget)
      | some bytes =>
          obtain ⟨record, hrecord, rfl⟩ := h id bytes hget
          exact ⟨(id, record) :: records, by rw [List.map_cons, hmap],
            List.forall_mem_cons.mpr ⟨⟨hrecord, hget⟩, hrecords⟩⟩

theorem runAlone_readRooms {records : List (String × Json)}
    (h : ∀ r ∈ records, RecordOf r.1 r.2 ∧ w.files.get? r.1 = some (JsonFile.bytes r.2)) :
    (readRooms (records.map Prod.fst)).runAlone w = (.ok (records.map Prod.snd), w) := by
  induction records with
  | nil => rfl
  | cons r records ih =>
      obtain ⟨⟨hrecord, hstored⟩, hrest⟩ := List.forall_mem_cons.mp h
      simp only [List.map_cons, readRooms, Prog.bind_eq_bind, Prog.runAlone_bind,
        runAlone_readControlPlaneRoom, readRecord_of_stored hrecord hstored, ih hrest]
      rfl

/-- The records are listed in the order of their ids. -/
theorem listed_records (h : WellStored w) : ∃ records : List (String × Json),
    (listControlPlaneRooms.runAlone w).1 = .ok (records.map Prod.snd) ∧
      records.Pairwise (fun r s => r.1 < s.1) ∧
      ∀ id record, (id, record) ∈ records ↔
        RecordOf id record ∧ w.files.get? id = some (JsonFile.bytes record) := by
  have hids : ∀ id ∈ w.files.keys.mergeSort (fun a b => decide (a ≤ b)), id ∈ w.files.keys :=
    fun id hid => List.mem_mergeSort.mp hid
  obtain ⟨records, hmap, hrecords⟩ := exists_records h hids
  refine ⟨records, ?_, ?_, fun id record => ⟨hrecords (id, record), ?_⟩⟩
  · rw [listControlPlaneRooms, Prog.bind_eq_bind, Prog.runAlone_bind, Prog.runAlone_query]
    dsimp only
    rw [← hmap, runAlone_readRooms hrecords]
  · rw [← List.pairwise_map, hmap]
    exact sortedKeys_pairwise w
  · rintro ⟨hrecord, hstored⟩
    have hid : id ∈ records.map Prod.fst := by
      rw [hmap, List.mem_mergeSort]
      exact OrderedMap.mem_keys_of_get? hstored
    obtain ⟨⟨_, other⟩, hmem, rfl⟩ := List.mem_map.mp hid
    obtain ⟨hother, hstored'⟩ := hrecords _ hmem
    obtain rfl := JsonFile.bytes_inj hrecord.valid hother.valid
      (Option.some.inj (hstored.symm.trans hstored'))
    exact hmem

end Reading

/-! ## What an owner is answered -/

section Owners

variable {isIso : String → Bool} {now owner : String} {p q : ControlPlane}
  {query : PlatformOwnerQuery}

theorem attachAll_congr {rooms : List Json}
    (h : ∀ room ∈ rooms, attachChannels p room = attachChannels q room) :
    attachAll p rooms = attachAll q rooms := by
  induction rooms with
  | nil => rfl
  | cons room rooms ih =>
      obtain ⟨hroom, hrest⟩ := List.forall_mem_cons.mp h
      rw [attachAll, attachAll, hroom, ih hrest]

theorem attachChannels_congr {id : String} {record : Json} (hsame : SameForOwner owner p q)
    (howns : p.Owns owner id record) (hrecord : RecordOf id record) :
    attachChannels p record = attachChannels q record := by
  simp only [attachChannels, hrecord.roomId, hsame.channels id record howns]

theorem ControlPlane.Owns.recordOf {id : String} {record : Json} (howns : p.Owns owner id record)
    (hp : WellStored p.registry) : RecordOf id record := by
  obtain ⟨other, hother, hbytes⟩ := hp id _ howns.stored
  rwa [JsonFile.bytes_inj howns.valid hother.valid hbytes]

/-- Where the file of a room is known, so is who owns it. -/
theorem owns_iff_of_stored {id : String} {record other : Json} (hvalid : record.Valid)
    (hstored : p.registry.files.get? id = some (JsonFile.bytes record)) :
    p.Owns owner id other ↔ other = record ∧ isOwnedBy owner record = true := by
  constructor
  · intro howns
    obtain rfl := JsonFile.bytes_inj howns.valid hvalid
      (Option.some.inj (howns.stored.symm.trans hstored))
    exact ⟨rfl, howns.owned⟩
  · rintro ⟨rfl, howned⟩
    exact ⟨hstored, hvalid, howned⟩

/-- What the owner has of some records. -/
theorem mem_owned_iff {records : List (String × Json)}
    (hmem : ∀ id record, (id, record) ∈ records ↔ RecordOf id record ∧
      p.registry.files.get? id = some (JsonFile.bytes record)) (hstored : WellStored p.registry)
    (r : String × Json) :
    r ∈ records.filter (fun r => isOwnedBy owner r.2) ↔ p.Owns owner r.1 r.2 := by
  rw [List.mem_filter, hmem]
  constructor
  · rintro ⟨⟨hrecord, hget⟩, howned⟩
    exact ⟨hget, hrecord.valid, howned⟩
  · intro howns
    exact ⟨⟨howns.recordOf hstored, howns.stored⟩, howns.owned⟩

/-- The owner's records are listed alike where the owner has the same. -/
theorem ownedRooms_congr (hp : WellStored p.registry) (hq : WellStored q.registry)
    (hsame : SameForOwner owner p q) : ∃ records : List (String × Json),
    (∀ r ∈ records, RecordOf r.1 r.2 ∧ p.Owns owner r.1 r.2) ∧
      (∃ rooms, (listControlPlaneRooms.runAlone p.registry).1 = .ok rooms ∧
        rooms.filter (isOwnedBy owner) = records.map Prod.snd) ∧
      (∃ rooms, (listControlPlaneRooms.runAlone q.registry).1 = .ok rooms ∧
        rooms.filter (isOwnedBy owner) = records.map Prod.snd) := by
  obtain ⟨ours, hours, hsorted, hmem⟩ := listed_records hp
  obtain ⟨theirs, htheirs, hsorted', hmem'⟩ := listed_records hq
  let owned := fun r : String × Json => isOwnedBy owner r.2
  have hirrefl : Std.Irrefl fun r s : String × Json => r.1 < s.1 :=
    ⟨fun r => String.lt_irrefl r.1⟩
  have hantisymm : Std.Antisymm fun r s : String × Json => r.1 < s.1 :=
    ⟨fun r s h h' => absurd (String.lt_trans h h') (String.lt_irrefl r.1)⟩
  have heq : ours.filter owned = theirs.filter owned := by
    apply (hsorted.filter owned).eq_of_mem_iff (hsorted'.filter owned)
    intro r
    rw [mem_owned_iff hmem hp, mem_owned_iff hmem' hq]
    exact hsame.records r.1 r.2
  refine ⟨ours.filter owned, fun r hr => ?_, ⟨_, hours, ?_⟩, ⟨_, htheirs, ?_⟩⟩
  · exact ⟨((hmem r.1 r.2).mp (List.mem_filter.mp hr).1).1, (mem_owned_iff hmem hp r).mp hr⟩
  · rw [List.filter_map]
    rfl
  · rw [heq, List.filter_map]
    rfl

theorem listRoomsResponse_congr (hp : WellStored p.registry) (hq : WellStored q.registry)
    (howner : ownerOrError isIso now query = some owner) (hsame : SameForOwner owner p q) :
    listRoomsResponse isIso now p query = listRoomsResponse isIso now q query := by
  obtain ⟨records, hrecords, ⟨ours, hours, hof⟩, ⟨theirs, htheirs, hof'⟩⟩ :=
    ownedRooms_congr hp hq hsame
  have hattach : attachAll p (records.map Prod.snd) = attachAll q (records.map Prod.snd) := by
    apply attachAll_congr
    intro room hroom
    obtain ⟨r, hr, rfl⟩ := List.mem_map.mp hroom
    obtain ⟨hrecord, howns⟩ := hrecords r hr
    exact attachChannels_congr hsame howns hrecord
  simp only [listRoomsResponse, howner, hours, htheirs, bind, Except.bind, hof, hof', hattach]

theorem readRoomResponse_of_owns {id : String} {record : Json}
    (howner : ownerOrError isIso now query = some owner) (hp : WellStored p.registry)
    (howns : p.Owns owner id record) :
    readRoomResponse isIso now p query id = (attachChannels p record).map fun attached =>
      ⟨200, .obj [("ok", .bool true), ("room", attached)]⟩ := by
  have hread := readRecord_of_stored (howns.recordOf hp) howns.stored
  simp only [readRoomResponse, howner, runAlone_readControlPlaneRoom, hread, howns.owned, if_true]

theorem readRoomResponse_of_not_owned {id : String}
    (howner : ownerOrError isIso now query = some owner) (hp : WellStored p.registry)
    (hsafe : isSafeSlug id = true) (hnot : ∀ record, ¬ p.Owns owner id record) :
    readRoomResponse isIso now p query id = .ok notFound := by
  simp only [readRoomResponse, howner, runAlone_readControlPlaneRoom]
  cases hget : p.registry.files.get? id with
  | none =>
      rw [readRecord_of_absent hsafe hget]
      exact if_pos rfl
  | some bytes =>
      obtain ⟨record, hrecord, rfl⟩ := hp id bytes hget
      rw [readRecord_of_stored hrecord hget]
      apply if_neg
      intro howned
      exact hnot record ⟨hget, hrecord.valid, howned⟩

theorem readRoomResponse_congr (hp : WellStored p.registry) (hq : WellStored q.registry)
    (howner : ownerOrError isIso now query = some owner) (hsame : SameForOwner owner p q)
    (id : String) :
    readRoomResponse isIso now p query id = readRoomResponse isIso now q query id := by
  by_cases hsafe : isSafeSlug id = true
  · by_cases howns : ∃ record, p.Owns owner id record
    · obtain ⟨record, howns⟩ := howns
      rw [readRoomResponse_of_owns howner hp howns,
        readRoomResponse_of_owns howner hq ((hsame.records id record).mp howns),
        attachChannels_congr hsame howns (howns.recordOf hp)]
    · rw [readRoomResponse_of_not_owned howner hp hsafe fun record h => howns ⟨record, h⟩,
        readRoomResponse_of_not_owned howner hq hsafe fun record h =>
          howns ⟨record, (hsame.records id record).mpr h⟩]
  · obtain ⟨e, hread⟩ := readRecord_of_unsafe hsafe
    simp only [readRoomResponse, howner, runAlone_readControlPlaneRoom, hread]

/-- A room is shown to its owner alone. -/
theorem owns_of_shown {id : String} {room : PlatformApiResponse} (hp : WellStored p.registry)
    (howner : ownerOrError isIso now query = some owner)
    (hroom : readRoomResponse isIso now p query id = .ok room) (hshown : room.status = 200) :
    ∃ record, p.Owns owner id record := by
  have hnotFound : notFound ≠ room := by
    rintro rfl
    cases hshown
  by_cases hsafe : isSafeSlug id = true
  · by_contra hnone
    rw [readRoomResponse_of_not_owned howner hp hsafe fun record h => hnone ⟨record, h⟩] at hroom
    exact hnotFound (Except.ok.inj hroom)
  · obtain ⟨e, hread⟩ := readRecord_of_unsafe hsafe
    simp only [readRoomResponse, howner, runAlone_readControlPlaneRoom, hread] at hroom
    split_ifs at hroom
    exact absurd (Except.ok.inj hroom) hnotFound

theorem sendRoomMessages_congr (hp : WellStored p.registry) (hq : WellStored q.registry)
    (howner : ownerOrError isIso now query = some owner) (hsame : SameForOwner owner p q)
    (id : String) (rawSince : Option String) :
    sendRoomMessages isIso now p query id rawSince =
      sendRoomMessages isIso now q query id rawSince := by
  rw [sendRoomMessages, sendRoomMessages, ← readRoomResponse_congr hp hq howner hsame id]
  cases hroom : readRoomResponse isIso now p query id with
  | error e => rfl
  | ok room =>
      by_cases hshown : room.status = 200
      · obtain ⟨record, howns⟩ := owns_of_shown hp howner hroom hshown
        rw [hsame.logs id record howns]
      · simp only [bind, Except.bind, ne_eq, hshown, not_false_eq_true, if_true]

theorem sendRoomMessages_of_not_owned {id : String} (hp : WellStored p.registry)
    (howner : ownerOrError isIso now query = some owner) (hsafe : isSafeSlug id = true)
    (hnot : ∀ record, ¬ p.Owns owner id record) (rawSince : Option String) :
    sendRoomMessages isIso now p query id rawSince = .ok notFound := by
  rw [sendRoomMessages, readRoomResponse_of_not_owned howner hp hsafe hnot]
  rfl

/-- All that can be asked about rooms is answered alike. -/
structure AnsweredAlike (isIso : String → Bool) (now : String) (p : ControlPlane)
    (query : PlatformOwnerQuery) (now' : String) (q : ControlPlane)
    (query' : PlatformOwnerQuery) : Prop where
  listed : listRoomsResponse isIso now p query = listRoomsResponse isIso now' q query'
  room : ∀ id, readRoomResponse isIso now p query id = readRoomResponse isIso now' q query' id
  messages : ∀ id rawSince, sendRoomMessages isIso now p query id rawSince =
    sendRoomMessages isIso now' q query' id rawSince

/-- Who the owner is decides, not how this is known. -/
theorem answeredAlike_of_owner {now' : String} {query' : PlatformOwnerQuery}
    (howner : ownerOrError isIso now query = ownerOrError isIso now' query') :
    AnsweredAlike isIso now p query now' p query' := by
  have hroom id : readRoomResponse isIso now p query id =
      readRoomResponse isIso now' p query' id := by
    rw [readRoomResponse, readRoomResponse, howner]
  refine ⟨?_, hroom, fun id rawSince => ?_⟩
  · rw [listRoomsResponse, listRoomsResponse, howner]
  · rw [sendRoomMessages, sendRoomMessages, hroom]

end Owners

def gardenInput : Json :=
  .obj [("room_id", .str "garden"), ("title", .str "Garden"), ("owner_user_id", .str "bob"),
    ("route_url", .str "https://rooms.example"), ("status", .str "idle"), ("roster", .arr [])]

def gardenMetadata : RoomMetadata where
  roomId := "garden"
  title := "Garden"
  ownerUserId := "bob"
  routeUrl := "https://rooms.example"
  routeSlug := "garden"
  status := .idle
  statusReason := none
  roster := []
  routeHealth := ⟨⟨false, false⟩, none⟩
  lastSyncedMessageId := 0
  lastSeenAt := none
  lastSyncedAt := none

def launchRoom : ControlPlaneRoom := ⟨launchMetadata, "t0", "t0"⟩

def gardenRoom : ControlPlaneRoom := ⟨gardenMetadata, "t0", "t0"⟩

/-- The registry holds the records of these rooms, and no others. -/
def Holds (c : Config RegistryWorld RegistryStep Failure RegistryReply)
    (rooms : List ControlPlaneRoom) : Prop :=
  c.snap.world.files.entries = rooms.map fun room => (room.roomId, JsonFile.bytes room.toJson)

instance (c : Config RegistryWorld RegistryStep Failure RegistryReply)
    (rooms : List ControlPlaneRoom) : Decidable (Holds c rooms) :=
  inferInstanceAs (Decidable (_ = _))

theorem stored_of_holds {c : Config RegistryWorld RegistryStep Failure RegistryReply}
    {rooms : List ControlPlaneRoom} (h : Holds c rooms) {id : String} {bytes : List Nat}
    (hget : c.snap.world.files.get? id = some bytes) :
    ∃ room ∈ rooms, room.roomId = id ∧ bytes = JsonFile.bytes room.toJson := by
  have hmem := OrderedMap.get?_eq_some_iff.mp hget
  rw [h] at hmem
  obtain ⟨room, hroom, heq⟩ := List.mem_map.mp hmem
  obtain ⟨hid, hbytes⟩ := Prod.mk.inj heq
  exact ⟨room, hroom, hid, hbytes.symm⟩

/-- What ada owns is the room of the launch, whoever else is there. -/
theorem owns_ada_iff {c : Config RegistryWorld RegistryStep Failure RegistryReply}
    {rooms : List ControlPlaneRoom} (h : Holds c rooms) (hlaunch : launchRoom ∈ rooms)
    (hother : ∀ room ∈ rooms, isOwnedBy "ada" room.toJson = true → room = launchRoom)
    {boards : String → BoardFiles} {logs : String → Except Failure (List Message)}
    (id : String) (record : Json) :
    ControlPlane.Owns ⟨c.snap.world, boards, logs⟩ "ada" id record ↔
      id = "launch" ∧ record = launchRoom.toJson := by
  constructor
  · intro howns
    obtain ⟨room, hroom, rfl, hbytes⟩ := stored_of_holds h howns.stored
    obtain rfl := JsonFile.bytes_inj howns.valid room.clean_toJson.valid hbytes
    obtain rfl := hother room hroom howns.owned
    exact ⟨rfl, rfl⟩
  · rintro ⟨rfl, rfl⟩
    refine ⟨OrderedMap.get?_eq_some_iff.mpr ?_, launchRoom.clean_toJson.valid, rfl⟩
    rw [h]
    exact List.mem_map.mpr ⟨launchRoom, hlaunch, rfl⟩

/-- A run of creators, one after the other. -/
theorem exists_holding (calls : List RegistryCall) (rooms : List ControlPlaneRoom)
    (moves : List (Move Failure))
    (hrun : ((registrySystem id).replay (registry (fun _ => false) .plain calls) moves).map
      (fun c => decide (Holds c rooms)) = some true) :
    ∃ c, (registrySystem id).Reachable (registry (fun _ => false) .plain calls) c ∧
      Holds c rooms := by
  obtain ⟨c, hc, hholds⟩ := System.exists_reachable_of_replay hrun
  exact ⟨c, hc, of_decide_eq_true hholds⟩

end AgentGather.Platform
