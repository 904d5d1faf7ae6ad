import AgentGather.Library.JsonFile
import AgentGather.Library.JsonMembers
import AgentGather.Platform.Status
import AgentGather.Platform.TokenlessUrls
import AgentGather.Protocol.Boardroom

/-!
# Registered rooms

The registry keeps one record of metadata for each room.  An untrusted input is read field by
field, and the record is built from what was read; a field that would carry content or a
credential is an error wherever it stands.  What is built is read again as itself.
-/

namespace AgentGather.Platform

open AgentGather.Library AgentGather.Library.Url AgentGather.Protocol

/-! ## Records -/

inductive RosterRole where
  | host
  | member
deriving DecidableEq, Repr

structure RosterEntry where
  aliasName : String
  kind : ParticipantKind
  role : RosterRole
  status : String
  lastSeenAt : Option String
deriving DecidableEq, Repr

/-- The route's health, and when it was checked. -/
structure CheckedRouteHealth extends RouteHealth where
  checkedAt : Option String
deriving DecidableEq, Repr

/-- A record but for the times of its making. -/
structure RoomMetadata where
  roomId : String
  title : String
  ownerUserId : String
  routeUrl : String
  routeSlug : String
  status : PlatformRoomStatus
  statusReason : Option PlatformStatusReason
  roster : List RosterEntry
  routeHealth : CheckedRouteHealth
  lastSyncedMessageId : Nat
  lastSeenAt : Option String
  lastSyncedAt : Option String
deriving DecidableEq, Repr

structure ControlPlaneRoom extends RoomMetadata where
  createdAt : String
  updatedAt : String
deriving DecidableEq, Repr

def PlatformRoomStatus.name : PlatformRoomStatus → String
  | .active => "active"
  | .idle => "idle"
  | .paused => "paused"
  | .closed => "closed"

def platformRoomStatuses : List PlatformRoomStatus := [.active, .idle, .paused, .closed]

def PlatformStatusReason.name : PlatformStatusReason → String
  | .foregroundAttending => "foreground_attending"
  | .foregroundIdle => "foreground_idle"
  | .noForegroundRequired => "no_foreground_required"
  | .hostUnavailable => "host_unavailable"
  | .routeExpired => "route_expired"
  | .routeClosed => "route_closed"
  | .roomClosed => "room_closed"

def platformStatusReasons : List PlatformStatusReason :=
  [.foregroundAttending, .foregroundIdle, .noForegroundRequired, .hostUnavailable,
    .routeExpired, .routeClosed, .roomClosed]

def kindName : ParticipantKind → String
  | .agent => "agent"
  | .human => "human"
  | .system => "system"

def participantKinds : List ParticipantKind := [.agent, .human, .system]

def RosterRole.name : RosterRole → String
  | .host => "host"
  | .member => "member"

def rosterRoles : List RosterRole := [.host, .member]

/-! ## Records as JSON -/

def RosterEntry.members (entry : RosterEntry) : List (String × Option Json) :=
  [("alias", some (.str entry.aliasName)), ("kind", some (.str (kindName entry.kind))),
    ("role", some (.str entry.role.name)), ("status", some (.str entry.status)),
    ("last_seen_at", entry.lastSeenAt.map .str)]

def RosterEntry.toJson (entry : RosterEntry) : Json := .present entry.members

def CheckedRouteHealth.members (health : CheckedRouteHealth) : List (String × Option Json) :=
  [("reachable", some (.bool health.reachable)),
    ("host_connected", some (.bool health.hostConnected)),
    ("checked_at", health.checkedAt.map .str)]

def CheckedRouteHealth.toJson (health : CheckedRouteHealth) : Json := .present health.members

def ControlPlaneRoom.members (room : ControlPlaneRoom) : List (String × Option Json) :=
  [("room_id", some (.str room.roomId)), ("title", some (.str room.title)),
    ("owner_user_id", some (.str room.ownerUserId)),
    ("route_url", some (.str room.routeUrl)), ("route_slug", some (.str room.routeSlug)),
    ("status", some (.str room.status.name)),
    ("roster", some (.arr (room.roster.map RosterEntry.toJson))),
    ("route_health", some room.routeHealth.toJson),
    ("last_synced_message_id", some (.num room.lastSyncedMessageId)),
    ("status_reason", room.statusReason.map fun reason => .str reason.name),
    ("last_seen_at", room.lastSeenAt.map .str), ("last_synced_at", room.lastSyncedAt.map .str),
    ("created_at", some (.str room.createdAt)), ("updated_at", some (.str room.updatedAt))]

def ControlPlaneRoom.toJson (room : ControlPlaneRoom) : Json := .present room.members

/-! ## Forbidden fields -/

def forbiddenKeys : List String :=
  ["message", "messages", "text", "body", "brief", "brief_body", "content", "token", "tokens",
    "token_hash", "bearer", "authorization", "invite_url", "card_url", "request_body",
    "response_body"]

/-- `toLowerCase`, as far as it leads to a letter of ASCII; the Kelvin sign does, too. -/
def lowerLetter (c : Char) : Char := if c = '\u212a' then 'k' else c.toLower

def isForbiddenKey (key : String) : Bool :=
  forbiddenKeys.contains (String.ofList (key.toList.map lowerLetter))

section Reading

variable {α : Type}

/-- Throw a `ControlPlaneValidationError`. -/
def invalid (message : String) : Except Failure α := .error (.error message)

def assertNoForbiddenKeys (record : Json) (context : String) : Except Failure Unit :=
  match record.keys.find? isForbiddenKey with
  | some key =>
      invalid (context ++ " must not carry canonical or sensitive field \"" ++ key ++ "\"")
  | none => .ok ()

/-! ## Reading fields -/

def asRecord (value : Json) (context : String) : Except Failure Json :=
  match value with
  | .obj fields => .ok (.obj fields)
  | _ => invalid (context ++ " must be an object")

def asString (value : Option Json) (field : String) : Except Failure String :=
  match value with
  | some (.str text) => if text = "" then invalid (field ++ " is required") else .ok text
  | _ => invalid (field ++ " is required")

def maxTitleLength : Nat := 200

def asTitle (value : Option Json) : Except Failure String :=
  match value with
  | some (.str title) =>
      if title = "" then invalid "title is required"
      else if maxTitleLength < Text.utf16Length title.toList then
        invalid ("title must be <= " ++ toString maxTitleLength ++ " characters")
      else .ok title
  | _ => invalid "title is required"

/-- `/^[a-z0-9][a-z0-9-]{0,31}$/` -/
def isSafeLabel (value : String) : Bool :=
  match value.toList with
  | [] => false
  | c :: rest => (Text.isLower c || Text.isDigit c) && rest.length ≤ 31 && rest.all isSlugChar

def asLabel (value : Option Json) (field : String) : Except Failure String :=
  match value with
  | some (.str label) =>
      if isSafeLabel label then .ok label else invalid (field ++ " must be a short safe label")
  | _ => invalid (field ++ " must be a short safe label")

/-- The one of some known values that is named. -/
def named? (known : List α) (name : α → String) (value : Option Json) : Option α :=
  match value with
  | some (.str text) => known.find? fun a => name a == text
  | _ => none

/-- The value that is named, or else an error. -/
def asOneOf (known : List α) (name : α → String) (message : String) (value : Option Json) :
    Except Failure α :=
  match named? known name value with
  | some a => .ok a
  | none => invalid message

/-- A field that may be missing. -/
def asOptional (read : Option Json → Except Failure α) (value : Option Json) :
    Except Failure (Option α) :=
  match value with
  | none => .ok none
  | some value => (read (some value)).map some

def asStatus : Option Json → Except Failure PlatformRoomStatus :=
  asOneOf platformRoomStatuses PlatformRoomStatus.name
    ("status must be one of " ++
      ", ".intercalate (platformRoomStatuses.map PlatformRoomStatus.name))

def asOptionalStatusReason : Option Json → Except Failure (Option PlatformStatusReason) :=
  asOptional (asOneOf platformStatusReasons PlatformStatusReason.name
    ("status_reason must be one of " ++
      ", ".intercalate (platformStatusReasons.map PlatformStatusReason.name)))

/-- `Number.isSafeInteger` -/
def asCursor (value : Option Json) : Except Failure Nat :=
  match value with
  | none => .ok 0
  | some (.num n) =>
      if 0 ≤ n ∧ n ≤ 9007199254740991 then .ok n.toNat
      else invalid "last_synced_message_id must be a non-negative integer cursor"
  | _ => invalid "last_synced_message_id must be a non-negative integer cursor"

-- `isDate` are the texts that `Date.parse` reads.
variable (isDate : String → Bool)

def asTimestamp (field : String) (value : Option Json) : Except Failure String :=
  match value with
  | some (.str text) =>
      if isDate text then .ok text else invalid (field ++ " must be an ISO timestamp")
  | _ => invalid (field ++ " must be an ISO timestamp")

def asOptionalTimestamp (value : Option Json) (field : String) :
    Except Failure (Option String) := asOptional (asTimestamp isDate field) value

def rosterKeys : List String := ["alias", "kind", "role", "status", "last_seen_at"]

def asRosterEntry (index : Nat) (entry : Json) : Except Failure RosterEntry := do
  let context := "roster[" ++ toString index ++ "]"
  let record ← asRecord entry context
  assertNoForbiddenKeys record context
  match record.keys.find? fun key => !rosterKeys.contains key with
  | some key => invalid (context ++ " has unsupported field " ++ key)
  | none =>
      let aliasName ← asString (record.field? "alias") (context ++ ".alias")
      assertSafeSlug aliasName (context ++ ".alias")
      let kind ← asOneOf participantKinds kindName (context ++ ".kind is invalid")
        (record.field? "kind")
      let role ← asOneOf rosterRoles RosterRole.name (context ++ ".role is invalid")
        (record.field? "role")
      let status ← asLabel (record.field? "status") (context ++ ".status")
      let lastSeenAt ← asOptionalTimestamp isDate (record.field? "last_seen_at")
        (context ++ ".last_seen_at")
      return ⟨aliasName, kind, role, status, lastSeenAt⟩

/-- The entries from this index on. -/
def asRosterFrom (index : Nat) : List Json → Except Failure (List RosterEntry)
  | [] => .ok []
  | entry :: entries => do
      let first ← asRosterEntry isDate index entry
      let rest ← asRosterFrom (index + 1) entries
      return first :: rest

def asRoster (value : Option Json) : Except Failure (List RosterEntry) :=
  match value with
  | none => .ok []
  | some (.arr entries) => asRosterFrom isDate 0 entries
  | _ => invalid "roster must be an array"

def asBool (value : Option Json) : Option Bool :=
  match value with
  | some (.bool b) => some b
  | _ => none

def asRouteHealth (value : Option Json) : Except Failure CheckedRouteHealth :=
  match value with
  | none => .ok ⟨⟨false, false⟩, none⟩
  | some value => do
      let record ← asRecord value "route_health"
      assertNoForbiddenKeys record "route_health"
      match asBool (record.field? "reachable"), asBool (record.field? "host_connected") with
      | some reachable, some hostConnected =>
          let checkedAt ← asOptionalTimestamp isDate (record.field? "checked_at")
            "route_health.checked_at"
          return ⟨⟨reachable, hostConnected⟩, checkedAt⟩
      | _, _ => invalid "route_health.reachable and host_connected must be booleans"

variable (H : HostParser)

def checkTokenlessUrl (value : String) : Except Failure Unit :=
  match assertTokenlessUrl H value.toList with
  | .ok _ => .ok ()
  | .error message => invalid message

/-- Without a slug of its own a route has the room's. -/
def asRouteSlug (roomId : String) (value : Option Json) : Except Failure String :=
  match value with
  | none => .ok roomId
  | some value => asString (some value) "route_slug"

def sanitizeInput (input : Json) : Except Failure RoomMetadata := do
  let record ← asRecord input "room input"
  assertNoForbiddenKeys record "room input"
  let roomId ← asString (record.field? "room_id") "room_id"
  assertSafeSlug roomId "room_id"
  let routeUrl ← asString (record.field? "route_url") "route_url"
  checkTokenlessUrl H routeUrl
  let routeSlug ← asRouteSlug roomId (record.field? "route_slug")
  assertSafeSlug routeSlug "route_slug"
  let title ← asTitle (record.field? "title")
  let ownerUserId ← asString (record.field? "owner_user_id") "owner_user_id"
  let status ← asStatus (record.field? "status")
  let roster ← asRoster isDate (record.field? "roster")
  let routeHealth ← asRouteHealth isDate (record.field? "route_health")
  let lastSyncedMessageId ← asCursor (record.field? "last_synced_message_id")
  let statusReason ← asOptionalStatusReason (record.field? "status_reason")
  let lastSeenAt ← asOptionalTimestamp isDate (record.field? "last_seen_at") "last_seen_at"
  let lastSyncedAt ← asOptionalTimestamp isDate (record.field? "last_synced_at")
    "last_synced_at"
  return {
    roomId, title, ownerUserId, routeUrl, routeSlug, status, statusReason, roster, routeHealth,
    lastSyncedMessageId, lastSeenAt, lastSyncedAt }

end Reading

/-! ## Fields read again -/

/-- A field that was read is written so that it is read as the same again. -/
def Rereads {α : Type} (read : Option Json → Except Failure α) (write : α → Option Json) : Prop :=
  ∀ value a, read value = .ok a → read (write a) = .ok a

section Rereading

variable {α : Type} {isDate : String → Bool} {H : HostParser}

theorem rereads_of_text {read : Option Json → Except Failure String}
    (h : ∀ value text, read value = .ok text → value = some (.str text)) :
    Rereads read fun text => some (.str text) := by
  intro value text hread
  obtain rfl := h value text hread
  exact hread

theorem asString_eq {value : Option Json} {field text : String}
    (h : asString value field = .ok text) : value = some (.str text) := by
  unfold asString at h
  split at h
  · split at h
    · cases h
    · rw [Except.ok.inj h]
  · cases h

theorem asString_rereads (field : String) :
    Rereads (asString · field) fun text => some (.str text) :=
  rereads_of_text fun _ _ => asString_eq

theorem asTitle_eq {value : Option Json} {title : String} (h : asTitle value = .ok title) :
    value = some (.str title) := by
  unfold asTitle at h
  split at h
  · split_ifs at h
    · cases h
    · cases h
    · rw [Except.ok.inj h]
  · cases h

theorem asLabel_eq {value : Option Json} {field label : String}
    (h : asLabel value field = .ok label) : value = some (.str label) := by
  unfold asLabel at h
  split at h
  · split_ifs at h
    · rw [Except.ok.inj h]
    · cases h
  · cases h

theorem asTimestamp_eq {value : Option Json} {field text : String}
    (h : asTimestamp isDate field value = .ok text) : value = some (.str text) := by
  unfold asTimestamp at h
  split at h
  · split_ifs at h
    · rw [Except.ok.inj h]
    · cases h
  · cases h

/-- Known values with names of their own. -/
theorem asOneOf_rereads {known : List α} {name : α → String} (message : String)
    (hname : ∀ a ∈ known, (known.find? fun b => name b == name a) = some a) :
    Rereads (asOneOf known name message) fun a => some (.str (name a)) := by
  intro value a h
  have hmem : a ∈ known := by
    unfold asOneOf at h
    split at h
    · rename_i b hb
      obtain rfl := Except.ok.inj h
      unfold named? at hb
      split at hb
      · exact List.mem_of_find?_eq_some hb
      · cases hb
    · cases h
  rw [asOneOf, named?, hname a hmem]

theorem asOptional_rereads {read : Option Json → Except Failure α} {write : α → Json}
    (h : Rereads read fun a => some (write a)) :
    Rereads (asOptional read) fun found => found.map write := by
  intro value found hread
  cases found with
  | none => rfl
  | some a =>
      cases value with
      | none => cases hread
      | some value =>
          rw [asOptional] at hread
          cases hvalue : read (some value) with
          | error e =>
              rw [hvalue] at hread
              cases hread
          | ok b =>
              rw [hvalue] at hread
              obtain rfl : b = a := Option.some.inj (Except.ok.inj hread)
              change (read (some (write b))).map some = _
              rw [h _ _ hvalue]
              rfl

theorem asOptionalTimestamp_rereads (field : String) :
    Rereads (asOptionalTimestamp isDate · field) fun found => found.map Json.str :=
  asOptional_rereads (rereads_of_text fun _ _ => asTimestamp_eq)

theorem asStatus_rereads : Rereads asStatus fun status => some (.str status.name) :=
  asOneOf_rereads _ (by decide)

theorem asOptionalStatusReason_rereads :
    Rereads asOptionalStatusReason fun found => found.map fun reason => .str reason.name :=
  asOptional_rereads (asOneOf_rereads _ (by decide))

theorem asCursor_rereads : Rereads asCursor fun n => some (.num n) := by
  intro value n h
  have hle : n ≤ 9007199254740991 := by
    unfold asCursor at h
    split at h
    · rw [← Except.ok.inj h]
      omega
    · split_ifs at h with hsafe
      · rw [← Except.ok.inj h]
        omega
      · cases h
    · cases h
  rw [asCursor, if_pos (by omega), Int.toNat_natCast]

/-- No key of an object that is built is one that its members' names exclude. -/
theorem find?_keys_present {members : List (String × Option Json)} {p : String → Bool}
    (h : ∀ name ∈ members.map Prod.fst, p name = false) :
    (Json.present members).keys.find? p = none := by
  rw [List.find?_eq_none]
  intro key hkey
  obtain ⟨value, hmem⟩ := Json.mem_keys_present.mp hkey
  rw [h key (List.mem_map_of_mem hmem)]
  decide

theorem asRecord_eq {value record : Json} {context : String}
    (h : asRecord value context = .ok record) : record = value := by
  cases value with
  | obj fields => exact (Except.ok.inj h).symm
  | null | bool | num | real | str | arr => cases h

/-- What the checks of a roster entry leave. -/
structure ReadEntry (isDate : String → Bool) (context : String) (record : Json)
    (entry : RosterEntry) : Prop where
  aliasName : asString (record.field? "alias") (context ++ ".alias") = .ok entry.aliasName
  safe : isSafeSlug entry.aliasName = true
  kind : asOneOf participantKinds kindName (context ++ ".kind is invalid")
    (record.field? "kind") = .ok entry.kind
  role : asOneOf rosterRoles RosterRole.name (context ++ ".role is invalid")
    (record.field? "role") = .ok entry.role
  status : asLabel (record.field? "status") (context ++ ".status") = .ok entry.status
  lastSeenAt : asOptionalTimestamp isDate (record.field? "last_seen_at")
    (context ++ ".last_seen_at") = .ok entry.lastSeenAt

theorem readEntry_of_ok {index : Nat} {value : Json} {entry : RosterEntry}
    (h : asRosterEntry isDate index value = .ok entry) :
    ReadEntry isDate ("roster[" ++ toString index ++ "]") value entry := by
  obtain ⟨record, hrecord, h⟩ := exists_ok_of_bind h
  obtain ⟨-, -, h⟩ := exists_ok_of_bind h
  rw [← asRecord_eq hrecord]
  split at h
  · cases h
  · obtain ⟨aliasName, haliasName, h⟩ := exists_ok_of_bind h
    obtain ⟨⟨⟩, hsafe, h⟩ := exists_ok_of_bind h
    obtain ⟨kind, hkind, h⟩ := exists_ok_of_bind h
    obtain ⟨role, hrole, h⟩ := exists_ok_of_bind h
    obtain ⟨status, hstatus, h⟩ := exists_ok_of_bind h
    obtain ⟨lastSeenAt, hlastSeenAt, h⟩ := exists_ok_of_bind h
    obtain rfl := Except.ok.inj h
    exact ⟨haliasName, assertSafeSlug_ok_iff.mp hsafe, hkind, hrole, hstatus, hlastSeenAt⟩

/-- An object that the checks leave is read. -/
theorem asRosterEntry_of_read {index : Nat} {fields : List (String × Json)} {entry : RosterEntry}
    (hallowed : assertNoForbiddenKeys (.obj fields) ("roster[" ++ toString index ++ "]") = .ok ())
    (hknown : (Json.obj fields).keys.find? (fun key => !rosterKeys.contains key) = none)
    (h : ReadEntry isDate ("roster[" ++ toString index ++ "]") (.obj fields) entry) :
    asRosterEntry isDate index (.obj fields) = .ok entry := by
  have hsafe : assertSafeSlug entry.aliasName ("roster[" ++ toString index ++ "]" ++ ".alias") =
    .ok () := assertSafeSlug_ok_iff.mpr h.safe
  simp only [asRosterEntry, asRecord, bind, Except.bind, hallowed, hknown, h.aliasName, hsafe,
    h.kind, h.role, h.status, h.lastSeenAt]
  rfl

theorem assertNoForbiddenKeys_present {members : List (String × Option Json)} {names : List String}
    (hnames : members.map Prod.fst = names) (h : ∀ name ∈ names, isForbiddenKey name = false)
    (context : String) : assertNoForbiddenKeys (.present members) context = .ok () := by
  rw [assertNoForbiddenKeys, find?_keys_present (by rw [hnames]; exact h)]

/-- An entry that was read is read again. -/
theorem asRosterEntry_toJson {index : Nat} {value : Json} {entry : RosterEntry}
    (h : asRosterEntry isDate index value = .ok entry) :
    asRosterEntry isDate index entry.toJson = .ok entry := by
  have hread := readEntry_of_ok h
  have hkeys : entry.members.map Prod.fst = rosterKeys := rfl
  have hnodup : (entry.members.map Prod.fst).Nodup := by
    rw [hkeys]
    decide
  have hfield (name : String) : entry.toJson.field? name = (entry.members.lookup name).join :=
    Json.field?_present hnodup
  have hknown : entry.toJson.keys.find? (fun key => !rosterKeys.contains key) = none := by
    apply find?_keys_present
    rw [hkeys]
    decide
  have hallowed : assertNoForbiddenKeys entry.toJson ("roster[" ++ toString index ++ "]") =
      .ok () := assertNoForbiddenKeys_present hkeys (by decide +kernel) _
  refine asRosterEntry_of_read hallowed hknown ⟨?_, hread.safe, ?_, ?_, ?_, ?_⟩
  · exact (congrArg (asString · _) (hfield "alias")).trans
      (asString_rereads _ _ _ hread.aliasName)
  · exact (congrArg (asOneOf _ _ _) (hfield "kind")).trans
      (asOneOf_rereads _ (by decide) _ _ hread.kind)
  · exact (congrArg (asOneOf _ _ _) (hfield "role")).trans
      (asOneOf_rereads _ (by decide) _ _ hread.role)
  · exact (congrArg (asLabel · _) (hfield "status")).trans
      (rereads_of_text (fun _ _ => asLabel_eq) _ _ hread.status)
  · exact (congrArg (asOptionalTimestamp isDate · _) (hfield "last_seen_at")).trans
      (asOptionalTimestamp_rereads _ _ _ hread.lastSeenAt)

/-- A roster that was read is read again, entry by entry. -/
theorem asRosterFrom_toJson {values : List Json} {index : Nat} {roster : List RosterEntry}
    (h : asRosterFrom isDate index values = .ok roster) :
    asRosterFrom isDate index (roster.map RosterEntry.toJson) = .ok roster := by
  induction values generalizing index roster with
  | nil =>
      obtain rfl := Except.ok.inj h
      rfl
  | cons value values ih =>
      obtain ⟨entry, hentry, h⟩ := exists_ok_of_bind h
      obtain ⟨rest, hrest, h⟩ := exists_ok_of_bind h
      obtain rfl := Except.ok.inj h
      simp only [List.map_cons, asRosterFrom, asRosterEntry_toJson hentry, ih hrest, bind,
        Except.bind]
      rfl

theorem asRoster_rereads :
    Rereads (asRoster isDate) fun roster => some (.arr (roster.map RosterEntry.toJson)) := by
  intro value roster h
  unfold asRoster at h
  split at h
  · obtain rfl := Except.ok.inj h
    rfl
  · exact asRosterFrom_toJson h
  · cases h

theorem asRouteHealth_rereads :
    Rereads (asRouteHealth isDate) fun health => some health.toJson := by
  intro value health h
  have hkeys : health.members.map Prod.fst = ["reachable", "host_connected", "checked_at"] := rfl
  have hfield (name : String) : health.toJson.field? name = (health.members.lookup name).join := by
    apply Json.field?_present
    rw [hkeys]
    decide
  have hallowed : assertNoForbiddenKeys health.toJson "route_health" = .ok () :=
    assertNoForbiddenKeys_present hkeys (by decide +kernel) _
  have hchecked : asOptionalTimestamp isDate (health.checkedAt.map .str)
      "route_health.checked_at" = .ok health.checkedAt := by
    unfold asRouteHealth at h
    split at h
    · obtain rfl := Except.ok.inj h
      rfl
    · obtain ⟨record, -, h⟩ := exists_ok_of_bind h
      obtain ⟨-, -, h⟩ := exists_ok_of_bind h
      split at h
      · obtain ⟨checkedAt, hcheckedAt, h⟩ := exists_ok_of_bind h
        obtain rfl := Except.ok.inj h
        exact asOptionalTimestamp_rereads _ _ _ hcheckedAt
      · cases h
  have hreachable : asBool (health.toJson.field? "reachable") = some health.reachable :=
    congrArg asBool (hfield "reachable")
  have hconnected : asBool (health.toJson.field? "host_connected") = some health.hostConnected :=
    congrArg asBool (hfield "host_connected")
  have hread : asOptionalTimestamp isDate (health.toJson.field? "checked_at")
      "route_health.checked_at" = .ok health.checkedAt :=
    (congrArg (asOptionalTimestamp isDate · _) (hfield "checked_at")).trans hchecked
  have hrecord : asRecord health.toJson "route_health" = .ok health.toJson := rfl
  simp only [asRouteHealth, hrecord, hallowed, hreachable, hconnected, hread, bind, Except.bind]
  rfl

/-! ## Records read again -/

/-- What the checks of an input leave. -/
structure ReadRoom (isDate : String → Bool) (H : HostParser) (record : Json)
    (room : RoomMetadata) : Prop where
  roomId : asString (record.field? "room_id") "room_id" = .ok room.roomId
  roomIdSafe : isSafeSlug room.roomId = true
  routeUrl : asString (record.field? "route_url") "route_url" = .ok room.routeUrl
  tokenless : checkTokenlessUrl H room.routeUrl = .ok ()
  routeSlug : asRouteSlug room.roomId (record.field? "route_slug") = .ok room.routeSlug
  routeSlugSafe : isSafeSlug room.routeSlug = true
  title : asTitle (record.field? "title") = .ok room.title
  ownerUserId : asString (record.field? "owner_user_id") "owner_user_id" = .ok room.ownerUserId
  status : asStatus (record.field? "status") = .ok room.status
  roster : asRoster isDate (record.field? "roster") = .ok room.roster
  routeHealth : asRouteHealth isDate (record.field? "route_health") = .ok room.routeHealth
  lastSyncedMessageId : asCursor (record.field? "last_synced_message_id") =
    .ok room.lastSyncedMessageId
  statusReason : asOptionalStatusReason (record.field? "status_reason") = .ok room.statusReason
  lastSeenAt : asOptionalTimestamp isDate (record.field? "last_seen_at") "last_seen_at" =
    .ok room.lastSeenAt
  lastSyncedAt : asOptionalTimestamp isDate (record.field? "last_synced_at") "last_synced_at" =
    .ok room.lastSyncedAt

/-- An input is accepted exactly if it is an object without a forbidden key whose fields are
read. -/
theorem sanitizeInput_ok_iff {input : Json} {room : RoomMetadata} :
    sanitizeInput isDate H input = .ok room ↔
      asRecord input "room input" = .ok input ∧
        assertNoForbiddenKeys input "room input" = .ok () ∧ ReadRoom isDate H input room := by
  constructor
  · intro h
    obtain ⟨record, hrecord, h⟩ := exists_ok_of_bind h
    have hinput := asRecord_eq hrecord
    rw [hinput] at hrecord h
    obtain ⟨⟨⟩, hallowed, h⟩ := exists_ok_of_bind h
    obtain ⟨roomId, hroomId, h⟩ := exists_ok_of_bind h
    obtain ⟨⟨⟩, hroomIdSafe, h⟩ := exists_ok_of_bind h
    obtain ⟨routeUrl, hrouteUrl, h⟩ := exists_ok_of_bind h
    obtain ⟨⟨⟩, htokenless, h⟩ := exists_ok_of_bind h
    obtain ⟨routeSlug, hrouteSlug, h⟩ := exists_ok_of_bind h
    obtain ⟨⟨⟩, hrouteSlugSafe, h⟩ := exists_ok_of_bind h
    obtain ⟨title, htitle, h⟩ := exists_ok_of_bind h
    obtain ⟨ownerUserId, hownerUserId, h⟩ := exists_ok_of_bind h
    obtain ⟨status, hstatus, h⟩ := exists_ok_of_bind h
    obtain ⟨roster, hroster, h⟩ := exists_ok_of_bind h
    obtain ⟨routeHealth, hrouteHealth, h⟩ := exists_ok_of_bind h
    obtain ⟨cursor, hcursor, h⟩ := exists_ok_of_bind h
    obtain ⟨statusReason, hstatusReason, h⟩ := exists_ok_of_bind h
    obtain ⟨lastSeenAt, hlastSeenAt, h⟩ := exists_ok_of_bind h
    obtain ⟨lastSyncedAt, hlastSyncedAt, h⟩ := exists_ok_of_bind h
    obtain rfl := Except.ok.inj h
    exact ⟨hrecord, hallowed, hroomId, assertSafeSlug_ok_iff.mp hroomIdSafe, hrouteUrl,
      htokenless, hrouteSlug, assertSafeSlug_ok_iff.mp hrouteSlugSafe, htitle, hownerUserId,
      hstatus, hroster, hrouteHealth, hcursor, hstatusReason, hlastSeenAt, hlastSyncedAt⟩
  · rintro ⟨hrecord, hallowed, h⟩
    have hroomIdSafe : assertSafeSlug room.roomId "room_id" = .ok () :=
      assertSafeSlug_ok_iff.mpr h.roomIdSafe
    have hrouteSlugSafe : assertSafeSlug room.routeSlug "route_slug" = .ok () :=
      assertSafeSlug_ok_iff.mpr h.routeSlugSafe
    simp only [sanitizeInput, hrecord, hallowed, h.roomId, hroomIdSafe, h.routeUrl, h.tokenless,
      h.routeSlug, hrouteSlugSafe, h.title, h.ownerUserId, h.status, h.roster, h.routeHealth,
      h.lastSyncedMessageId, h.statusReason, h.lastSeenAt, h.lastSyncedAt, bind, Except.bind]
    rfl

/-- The keys of a stored record. -/
def roomKeys : List String :=
  ["room_id", "title", "owner_user_id", "route_url", "route_slug", "status", "roster",
    "route_health", "last_synced_message_id", "status_reason", "last_seen_at", "last_synced_at",
    "created_at", "updated_at"]

variable {input : Json}

/-- A record that was read is read again, whenever it was made. -/
theorem sanitizeInput_toJson {metadata : RoomMetadata} {createdAt updatedAt : String}
    (h : sanitizeInput isDate H input = .ok metadata) :
    sanitizeInput isDate H (ControlPlaneRoom.toJson ⟨metadata, createdAt, updatedAt⟩) =
      .ok metadata := by
  obtain ⟨-, -, hread⟩ := sanitizeInput_ok_iff.mp h
  have hkeys : (ControlPlaneRoom.members ⟨metadata, createdAt, updatedAt⟩).map Prod.fst =
      roomKeys := rfl
  have hfield (name : String) :
      (ControlPlaneRoom.toJson ⟨metadata, createdAt, updatedAt⟩).field? name =
        ((ControlPlaneRoom.members ⟨metadata, createdAt, updatedAt⟩).lookup name).join := by
    apply Json.field?_present
    rw [hkeys]
    decide
  have hroomId := asString_rereads _ _ _ hread.roomId
  refine sanitizeInput_ok_iff.mpr ⟨rfl, assertNoForbiddenKeys_present hkeys (by decide +kernel) _,
    ?_, hread.roomIdSafe, ?_, hread.tokenless, ?_, hread.routeSlugSafe, ?_, ?_, ?_, ?_, ?_, ?_,
    ?_, ?_, ?_⟩
  · exact (congrArg (asString · _) (hfield "room_id")).trans hroomId
  · exact (congrArg (asString · _) (hfield "route_url")).trans
      (asString_rereads _ _ _ hread.routeUrl)
  · have hslug : asString (some (.str metadata.routeSlug)) "route_slug" =
        .ok metadata.routeSlug := by
      refine if_neg fun hempty => ?_
      have hsafe := hread.routeSlugSafe
      rw [hempty] at hsafe
      cases hsafe
    exact (congrArg (asRouteSlug _ ·) (hfield "route_slug")).trans hslug
  · exact (congrArg asTitle (hfield "title")).trans
      (rereads_of_text (fun _ _ => asTitle_eq) _ _ hread.title)
  · exact (congrArg (asString · _) (hfield "owner_user_id")).trans
      (asString_rereads _ _ _ hread.ownerUserId)
  · exact (congrArg asStatus (hfield "status")).trans (asStatus_rereads _ _ hread.status)
  · exact (congrArg (asRoster isDate) (hfield "roster")).trans (asRoster_rereads _ _ hread.roster)
  · exact (congrArg (asRouteHealth isDate) (hfield "route_health")).trans
      (asRouteHealth_rereads _ _ hread.routeHealth)
  · exact (congrArg asCursor (hfield "last_synced_message_id")).trans
      (asCursor_rereads _ _ hread.lastSyncedMessageId)
  · exact (congrArg asOptionalStatusReason (hfield "status_reason")).trans
      (asOptionalStatusReason_rereads _ _ hread.statusReason)
  · exact (congrArg (asOptionalTimestamp isDate · _) (hfield "last_seen_at")).trans
      (asOptionalTimestamp_rereads _ _ _ hread.lastSeenAt)
  · exact (congrArg (asOptionalTimestamp isDate · _) (hfield "last_synced_at")).trans
      (asOptionalTimestamp_rereads _ _ _ hread.lastSyncedAt)

/-! ## What is written -/

/-- The value can be written, and no object in it has a forbidden key. -/
structure Clean (value : Json) : Prop where
  valid : value.Valid
  keys : ∀ key ∈ value.keysWithin, isForbiddenKey key = false

theorem clean_str (text : String) : Clean (.str text) := ⟨trivial, fun _ h => by cases h⟩

theorem clean_bool (b : Bool) : Clean (.bool b) := ⟨trivial, fun _ h => by cases h⟩

theorem clean_num (n : Int) : Clean (.num n) := ⟨trivial, fun _ h => by cases h⟩

theorem clean_arr {items : List Json} (h : ∀ item ∈ items, Clean item) : Clean (.arr items) where
  valid := Json.validItems_of_mem fun item hitem => (h item hitem).valid
  keys key hkey := by
    obtain ⟨item, hitem, hkey⟩ := Json.mem_keysWithin_arr.mp hkey
    exact (h item hitem).keys key hkey

theorem clean_present {members : List (String × Option Json)} {names : List String}
    (hnames : members.map Prod.fst = names)
    (hallowed : ∀ name ∈ names, isForbiddenKey name = false)
    (h : ∀ m ∈ members, ∀ value, m.2 = some value → Clean value) : Clean (.present members) where
  valid := Json.valid_present fun _ value hmem => (h _ hmem value rfl).valid
  keys key hkey := by
    obtain ⟨name, value, hmem, rfl | hkey⟩ := Json.mem_keysWithin_present.mp hkey
    · exact hallowed key (hnames ▸ List.mem_map_of_mem hmem)
    · exact (h _ hmem value rfl).keys key hkey

theorem clean_map_str {found : Option String} {value : Json}
    (h : found.map Json.str = some value) : Clean value := by
  obtain ⟨text, -, rfl⟩ := Option.map_eq_some_iff.mp h
  exact clean_str text

theorem RosterEntry.clean_toJson (entry : RosterEntry) : Clean entry.toJson := by
  have hnames : entry.members.map Prod.fst = rosterKeys := rfl
  refine clean_present hnames (by decide +kernel) ?_
  simp only [members, List.forall_mem_cons, Option.some.injEq, forall_eq', clean_str, true_and]
  exact ⟨fun _ => clean_map_str, by simp⟩

theorem CheckedRouteHealth.clean_toJson (health : CheckedRouteHealth) : Clean health.toJson := by
  have hnames : health.members.map Prod.fst = ["reachable", "host_connected", "checked_at"] := rfl
  refine clean_present hnames (by decide +kernel) ?_
  simp only [members, List.forall_mem_cons, Option.some.injEq, forall_eq', clean_bool, true_and]
  exact ⟨fun _ => clean_map_str, by simp⟩

theorem ControlPlaneRoom.clean_toJson (room : ControlPlaneRoom) : Clean room.toJson := by
  have hroster : Clean (.arr (room.roster.map RosterEntry.toJson)) := by
    apply clean_arr
    intro item hitem
    obtain ⟨entry, -, rfl⟩ := List.mem_map.mp hitem
    exact entry.clean_toJson
  have hreason (value : Json) (h : (room.statusReason.map fun reason => Json.str reason.name) =
      some value) : Clean value := by
    obtain ⟨reason, -, rfl⟩ := Option.map_eq_some_iff.mp h
    exact clean_str _
  have hnames : room.members.map Prod.fst = roomKeys := rfl
  refine clean_present hnames (by decide +kernel) ?_
  simp only [members, List.forall_mem_cons, Option.some.injEq, forall_eq', clean_str, clean_num,
    hroster, room.routeHealth.clean_toJson, true_and]
  exact ⟨hreason, fun _ => clean_map_str, fun _ => clean_map_str, by simp⟩

/-! ## What is accepted -/

theorem not_forbidden_of_ok {record : Json} {context : String}
    (h : assertNoForbiddenKeys record context = .ok ()) :
    ∀ key ∈ record.keys, isForbiddenKey key = false := by
  intro key hkey
  unfold assertNoForbiddenKeys at h
  split at h
  · cases h
  · rename_i hnone
    exact Bool.eq_false_iff.mpr (List.find?_eq_none.mp hnone key hkey)

/-- No object of the input that is looked into has a forbidden key, and a roster entry has no
key but its own. -/
structure AllowedInput (input : Json) : Prop where
  room : ∀ key ∈ input.keys, isForbiddenKey key = false
  roster : ∀ entries, input.field? "roster" = some (.arr entries) → ∀ entry ∈ entries,
    ∀ key ∈ entry.keys, isForbiddenKey key = false ∧ key ∈ rosterKeys
  routeHealth : ∀ value, input.field? "route_health" = some value →
    ∀ key ∈ value.keys, isForbiddenKey key = false

theorem asRosterEntry_allowed {index : Nat} {value : Json} {entry : RosterEntry}
    (h : asRosterEntry isDate index value = .ok entry) :
    ∀ key ∈ value.keys, isForbiddenKey key = false ∧ key ∈ rosterKeys := by
  obtain ⟨record, hrecord, h⟩ := exists_ok_of_bind h
  obtain ⟨⟨⟩, hallowed, h⟩ := exists_ok_of_bind h
  rw [← asRecord_eq hrecord]
  split at h
  · cases h
  · rename_i hknown
    intro key hkey
    refine ⟨not_forbidden_of_ok hallowed key hkey, ?_⟩
    simpa using List.find?_eq_none.mp hknown key hkey

theorem asRosterFrom_allowed {values : List Json} {index : Nat} {roster : List RosterEntry}
    (h : asRosterFrom isDate index values = .ok roster) :
    ∀ value ∈ values, ∀ key ∈ value.keys, isForbiddenKey key = false ∧ key ∈ rosterKeys := by
  induction values generalizing index roster with
  | nil => simp
  | cons value values ih =>
      obtain ⟨entry, hentry, h⟩ := exists_ok_of_bind h
      obtain ⟨rest, hrest, -⟩ := exists_ok_of_bind h
      intro other hother
      rcases List.mem_cons.mp hother with rfl | hother
      · exact asRosterEntry_allowed hentry
      · exact ih hrest other hother

theorem sanitizeInput_allowed {metadata : RoomMetadata}
    (h : sanitizeInput isDate H input = .ok metadata) : AllowedInput input := by
  obtain ⟨-, hallowed, hread⟩ := sanitizeInput_ok_iff.mp h
  refine ⟨not_forbidden_of_ok hallowed, fun entries hentries => ?_, fun value hvalue => ?_⟩
  · have hroster := hread.roster
    rw [hentries] at hroster
    exact asRosterFrom_allowed hroster
  · have hhealth := hread.routeHealth
    rw [hvalue] at hhealth
    obtain ⟨record, hrecord, hhealth⟩ := exists_ok_of_bind hhealth
    obtain ⟨⟨⟩, hallowed, -⟩ := exists_ok_of_bind hhealth
    rw [← asRecord_eq hrecord]
    exact not_forbidden_of_ok hallowed

/-- An input that is accepted has no forbidden key, nor has the record that is built of it,
at any depth; and the record's file reads back as the record, which is accepted as itself. -/
theorem registeredRecord_reads_back {metadata : RoomMetadata}
    (h : sanitizeInput isDate H input = .ok metadata) (createdAt updatedAt : String) :
    AllowedInput input ∧
      JsonFile.read (JsonFile.bytes (ControlPlaneRoom.toJson ⟨metadata, createdAt, updatedAt⟩)) =
        some (ControlPlaneRoom.toJson ⟨metadata, createdAt, updatedAt⟩) ∧
      sanitizeInput isDate H (ControlPlaneRoom.toJson ⟨metadata, createdAt, updatedAt⟩) =
        .ok metadata ∧
      ∀ key ∈ (ControlPlaneRoom.toJson ⟨metadata, createdAt, updatedAt⟩).keysWithin,
        isForbiddenKey key = false :=
  have hclean := ControlPlaneRoom.clean_toJson ⟨metadata, createdAt, updatedAt⟩
  ⟨sanitizeInput_allowed h, JsonFile.read_bytes hclean.valid, sanitizeInput_toJson h, hclean.keys⟩

end Rereading

/-- An input with a roster of one. -/
def launchInput : Json :=
  .obj [("room_id", .str "launch"), ("title", .str "Launch"), ("owner_user_id", .str "ada"),
    ("route_url", .str "https://rooms.example"), ("status", .str "idle"),
    ("roster", .arr [.obj [("alias", .str "ada"), ("kind", .str "human"), ("role", .str "host"),
      ("status", .str "attending")]]),
    ("note", .str "dropped")]

def launchMetadata : RoomMetadata where
  roomId := "launch"
  title := "Launch"
  ownerUserId := "ada"
  routeUrl := "https://rooms.example"
  routeSlug := "launch"
  status := .idle
  statusReason := none
  roster := [⟨"ada", .human, .host, "attending", none⟩]
  routeHealth := ⟨⟨false, false⟩, none⟩
  lastSyncedMessageId := 0
  lastSeenAt := none
  lastSyncedAt := none

/-- The record of an input, read back by the general theorem. -/
theorem registeredRecord_reads_back_launch :
    sanitizeInput (fun _ => false) .plain
      (ControlPlaneRoom.toJson ⟨launchMetadata, "t0", "t0"⟩) = .ok launchMetadata := by
  have haccepted : sanitizeInput (fun _ => false) .plain launchInput = .ok launchMetadata := rfl
  exact (registeredRecord_reads_back haccepted "t0" "t0").2.2.1

end AgentGather.Platform
