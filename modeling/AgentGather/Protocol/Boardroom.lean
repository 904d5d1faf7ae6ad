import AgentGather.Protocol.Validation

/-!
# Boardrooms

A boardroom is a room's list of channels.  A bare room of the first version has none stored;
it is projected to one `general` chat channel.  Types and lifecycles are texts here, as in the
stored file: what they may be is what the checks check.
-/

namespace AgentGather.Protocol

open AgentGather.Library

def channelTypes : List String := ["chat", "forum"]

def channelLifecycles : List String := ["active", "idle", "inactive", "removed"]

def defaultChannelId : String := "general"

def defaultChannelName : String := "general"

structure Channel where
  id : String
  name : String
  type : String
  lifecycle : String
  createdAt : Nat
deriving DecidableEq, Repr

/-- `legacy` marks the projection of a bare room, which is not stored. -/
structure Boardroom where
  id : String
  name : Option String
  channels : List Channel
  lifecycle : String
  createdAt : Nat
  updatedAt : Nat
  legacy : Bool
deriving DecidableEq, Repr

def defaultChannel (createdAt : Nat) : Channel where
  id := defaultChannelId
  name := defaultChannelName
  type := "chat"
  lifecycle := "active"
  createdAt := createdAt

def deriveDefaultBoardroom (id : String) (createdAt updatedAt : Nat) (name : Option String) :
    Boardroom where
  id := id
  name := name
  channels := [defaultChannel createdAt]
  lifecycle := "active"
  createdAt := createdAt
  updatedAt := updatedAt
  legacy := true

/-! ## The checks -/

def assertOneOf (label : String) (known : List String) (value : String) : Except Failure Unit :=
  if known.contains value then .ok ()
  else .error (.error (label ++ " must be one of " ++ ", ".intercalate known))

/-- `if (condition) throw new Error(message)`. -/
def throwIf (condition : Bool) (message : String) : Except Failure Unit :=
  if condition then .error (.error message) else .ok ()

def assertValidChannel (channel : Channel) : Except Failure Unit := do
  assertSafeSlug channel.id "channel id"
  assertOneOf "channel type" channelTypes channel.type
  assertOneOf "channel lifecycle" channelLifecycles channel.lifecycle

/-- The loop over the channels; `seen` are the ids met so far. -/
def assertValidChannels (seen : List String) : List Channel → Except Failure Unit
  | [] => .ok ()
  | channel :: channels => do
      assertValidChannel channel
      throwIf (seen.contains channel.id) ("duplicate channel id: " ++ channel.id)
      assertValidChannels (channel.id :: seen) channels

def assertValidBoardroom (boardroom : Boardroom) : Except Failure Unit := do
  assertSafeSlug boardroom.id "boardroom id"
  throwIf boardroom.channels.isEmpty "boardroom must have at least one channel"
  assertValidChannels [] boardroom.channels
  assertOneOf "boardroom lifecycle" channelLifecycles boardroom.lifecycle

/-! ## What the checks accept -/

structure ValidChannel (channel : Channel) : Prop where
  id : isSafeSlug channel.id = true
  type : channel.type ∈ channelTypes
  lifecycle : channel.lifecycle ∈ channelLifecycles

/-- At least one channel, each with a slug of its own, a known type and a known lifecycle. -/
structure ValidBoardroom (boardroom : Boardroom) : Prop where
  id : isSafeSlug boardroom.id = true
  nonempty : boardroom.channels ≠ []
  channels : ∀ channel ∈ boardroom.channels, ValidChannel channel
  distinct : (boardroom.channels.map Channel.id).Nodup
  lifecycle : boardroom.lifecycle ∈ channelLifecycles

theorem assertSafeSlug_ok_iff {value label : String} :
    assertSafeSlug value label = .ok () ↔ isSafeSlug value = true := by
  unfold assertSafeSlug
  by_cases h : isSafeSlug value = true
  · simp [h]
  · simp [h]

theorem assertOneOf_ok_iff {label : String} {known : List String} {value : String} :
    assertOneOf label known value = .ok () ↔ value ∈ known := by
  unfold assertOneOf
  by_cases h : value ∈ known
  · simp [h]
  · simp [h]

theorem throwIf_ok_iff {condition : Bool} {message : String} :
    throwIf condition message = .ok () ↔ condition = false := by
  cases condition <;> simp [throwIf]

/-- Two checks, one behind the other. -/
theorem bind_ok_unit_iff {x : Except Failure Unit} {f : Unit → Except Failure Unit} :
    x >>= f = .ok () ↔ x = .ok () ∧ f () = .ok () := by
  cases x with
  | error e =>
      constructor
      · intro h
        cases h
      · rintro ⟨h, -⟩
        cases h
  | ok u => exact ⟨fun h => ⟨rfl, h⟩, fun h => h.2⟩

theorem assertValidChannel_ok_iff {channel : Channel} :
    assertValidChannel channel = .ok () ↔ ValidChannel channel := by
  rw [assertValidChannel, bind_ok_unit_iff, bind_ok_unit_iff, assertSafeSlug_ok_iff,
    assertOneOf_ok_iff, assertOneOf_ok_iff]
  constructor
  · rintro ⟨hid, htype, hlifecycle⟩
    exact ⟨hid, htype, hlifecycle⟩
  · intro h
    exact ⟨h.id, h.type, h.lifecycle⟩

theorem assertValidChannels_ok_iff {seen : List String} {channels : List Channel} :
    assertValidChannels seen channels = .ok () ↔
      (∀ channel ∈ channels, ValidChannel channel) ∧
        (channels.map Channel.id).Nodup ∧ ∀ id ∈ channels.map Channel.id, id ∉ seen := by
  induction channels generalizing seen with
  | nil => simp [assertValidChannels]
  | cons channel channels ih =>
      rw [assertValidChannels, bind_ok_unit_iff, bind_ok_unit_iff, assertValidChannel_ok_iff,
        throwIf_ok_iff, ih]
      simp only [List.map_cons, List.nodup_cons, List.contains_eq_mem,
        decide_eq_false_iff_not]
      rw [List.forall_mem_cons, List.forall_mem_cons]
      constructor
      · rintro ⟨hvalid, hseen, hrest, hnodup, hout⟩
        exact ⟨⟨hvalid, hrest⟩, ⟨fun hmem => hout _ hmem List.mem_cons_self, hnodup⟩, hseen,
          fun id hid hmem => hout id hid (List.mem_cons_of_mem _ hmem)⟩
      · rintro ⟨⟨hvalid, hrest⟩, ⟨hnew, hnodup⟩, hseen, hout⟩
        refine ⟨hvalid, hseen, hrest, hnodup, fun id hid hmem => ?_⟩
        rcases List.mem_cons.mp hmem with rfl | hmem
        · exact hnew hid
        · exact hout id hid hmem

theorem assertValidBoardroom_ok_iff {boardroom : Boardroom} :
    assertValidBoardroom boardroom = .ok () ↔ ValidBoardroom boardroom := by
  rw [assertValidBoardroom, bind_ok_unit_iff, bind_ok_unit_iff, bind_ok_unit_iff,
    assertSafeSlug_ok_iff, throwIf_ok_iff, assertValidChannels_ok_iff, assertOneOf_ok_iff,
    List.isEmpty_eq_false_iff]
  constructor
  · rintro ⟨hid, hnonempty, ⟨hchannels, hdistinct, -⟩, hlifecycle⟩
    exact ⟨hid, hnonempty, hchannels, hdistinct, hlifecycle⟩
  · intro h
    exact ⟨h.id, h.nonempty, ⟨h.channels, h.distinct, fun _ _ hmem => nomatch hmem⟩,
      h.lifecycle⟩

end AgentGather.Protocol
