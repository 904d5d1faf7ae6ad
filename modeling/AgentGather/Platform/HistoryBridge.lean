import AgentGather.Library.Machine
import AgentGather.Platform.HeldSeats
import AgentGather.Platform.HistoryReceiver
import AgentGather.Platform.SnapshotCapabilities

/-!
# The history bridge

A dashboard hands every room it opens a capability, and the room's page posts its history
back under it.  The process holds the capabilities and nothing else; the files it reads may be
changed by others between any two reads, so every request comes with what it reads.  Of a run
the history tells which room a capability was minted for, when it was last used, and how many
were minted since.
-/

namespace AgentGather.Platform

open AgentGather.Library AgentGather.Library.Url AgentGather.Storage

/-! ## Opening a room -/

section Requests

variable (H : HostParser)

/-- The room a capability is minted for; none where the request does not come so far. -/
def mintedTarget (rooms : List JoinedRoom) (files : TokenFiles)
    (params : List (List Char × List Char)) : Option JoinedRoomTarget := do
  let roomId := String.ofList ((getParam "room_id".toList params).getD [])
  let baseUrl ← (getParam "base_url".toList params).bind (sanitizeBaseUrl H)
  if !isSafeRoomId roomId then none
  else
    let joined ← findRoom ⟨roomId, String.ofList baseUrl⟩ rooms
    let aliasName ← selectedAlias files joined
      ((getParam "alias".toList params).map String.ofList)
    if aliasName = "" then none
    else
      let _ ← readStoredParticipantToken files joined.roomId aliasName
      let _ ← parse H none (if baseUrl.getLast? = some '/' then baseUrl else baseUrl ++ ['/'])
      return joined.target

/-- The capability in the fragment of an address, as the room's page reads it. -/
def carriedCapability (location : List Char) : Option (List Char) :=
  (splitAtFirst '#' location).2.bind fun fragment =>
    getParam "snapshot".toList (paramsOf fragment)

/-! ## Receiving a batch -/

def isLoopbackOrigin (origin : Option String) : Bool :=
  match origin with
  | none => false
  | some origin =>
      if origin = "" then false
      else
        match parse H none origin.toList with
        | none => false
        | some url =>
            let host := url.host.getD []
            host == "127.0.0.1".toList || host == "localhost".toList || host == "::1".toList ||
              host == "[::1]".toList

/-- A room that names itself. -/
def snapshotTargetFromOrigin (baseUrl roomId : Option Json) (origin : Option String) :
    Option JoinedRoomTarget :=
  match baseUrl, roomId, origin with
  | some (.str baseUrl), some (.str roomId), some origin =>
      if baseUrl = "" ∨ roomId = "" ∨ origin = "" then none
      else
        match parse H none baseUrl.toList, parse H none origin.toList with
        | some claimed, some reported =>
            if claimed.origin ≠ reported.origin then none
            else (sanitizeBaseUrl H baseUrl.toList).map fun canonical =>
              ⟨roomId, String.ofList canonical⟩
        | _, _ => none
  | _, _, _ => none

/-- The row is there and not archived. -/
def isTracked (rooms : List JoinedRoom) (target : JoinedRoomTarget) : Bool :=
  (findRoom target rooms).any fun row => !row.isArchived

/-- A posted request.  The rows are read before the batch is looked at, and again inside the
lock; there is no body where it is too long or not JSON. -/
structure PostRequest where
  origin : Option String
  body : Option Json
  rooms : List JoinedRoom
  roomsInLock : List JoinedRoom
  savedAt : String

inductive HistoryAnswer where
  | refused (status : Nat) (error message : String)
  | nothingToStore
  | stored (entry : HistoryEntry)
  | internalError

def badOrigin : HistoryAnswer := .refused 403 "bad_origin" "history bridge is loopback-only"

def invalidBody : HistoryAnswer :=
  .refused 400 "invalid_body" "body must be JSON within the size limit"

def badCapability : HistoryAnswer :=
  .refused 403 "bad_capability" "unknown or expired bridge capability"

def notTracked : HistoryAnswer :=
  .refused 404 "not_tracked" "no active joined-room record for this bridge"

/-- The room a body is for: the capability's, or the one that names itself. -/
def bridgeTarget (now : Nat) (origin : Option String) (body : Json)
    (grants : SnapshotCapabilities) : Option JoinedRoomTarget × SnapshotCapabilities :=
  match body.field? "capability" with
  | none =>
      (snapshotTargetFromOrigin H (body.field? "baseUrl") (body.field? "roomId") origin, grants)
  | some .null =>
      (snapshotTargetFromOrigin H (body.field? "baseUrl") (body.field? "roomId") origin, grants)
  | some value => resolveSnapshotCapability now value grants

def postedHistory (body : Json) : PostedHistory :=
  ⟨body.field? "messages", body.field? "forumPosts"⟩

/-- There is a message or a post to store. -/
def PostedHistory.hasItems (posted : PostedHistory) : Bool :=
  !((snapshotMessagesFrom posted.messages).isEmpty &&
    (snapshotForumPostsFrom posted.forumPosts).isEmpty)

/-- What becomes of a batch for a room. -/
def recordBatch (post : PostRequest) (body : Json) (target : JoinedRoomTarget) :
    HistoryAnswer :=
  if !isTracked post.rooms target then notTracked
  else if !(postedHistory body).hasItems then .nothingToStore
  else if !isTracked post.roomsInLock target then notTracked
  else .stored (receivedEntry target (postedHistory body) post.savedAt)

/-- Reading a member of `null` throws. -/
def hasMembers : Json → Bool
  | .null => false
  | _ => true

/-- What becomes of a body, with the room that was resolved. -/
def receiveBody (now : Nat) (post : PostRequest) (body : Json) (grants : SnapshotCapabilities) :
    (Option JoinedRoomTarget × HistoryAnswer) × SnapshotCapabilities :=
  if !hasMembers body then ((none, .internalError), grants)
  else
    match bridgeTarget H now post.origin body grants with
    | (none, grants) => ((none, badCapability), grants)
    | (some target, grants) => ((some target, recordBatch post body target), grants)

def receiveJoinedHistoryRequest (now : Nat) (post : PostRequest)
    (grants : SnapshotCapabilities) :
    (Option JoinedRoomTarget × HistoryAnswer) × SnapshotCapabilities :=
  if !isLoopbackOrigin H post.origin then ((none, badOrigin), grants)
  else
    match post.body with
    | none => ((none, invalidBody), grants)
    | some body => receiveBody H now post body grants

/-! ## The process -/

structure BridgeState where
  now : Nat
  grants : SnapshotCapabilities

/-- Time passes, or a request comes.  `capability` is what is drawn if one is minted. -/
inductive BridgeCall where
  | elapse (ms : Nat)
  | openRoom (rooms : List JoinedRoom) (files : TokenFiles) (host : Option String)
      (params : List (List Char × List Char)) (capability : String)
  | postHistory (post : PostRequest)

inductive BridgeAnswer where
  | elapsed
  | opened (minted : Option JoinedRoomTarget) (answer : OpenAnswer)
  | received (resolved : Option JoinedRoomTarget) (answer : HistoryAnswer)

/-- The time of the call is part of its answer. -/
def bridge : Machine BridgeState BridgeCall (Nat × BridgeAnswer) where
  init := ⟨0, .empty⟩
  step s call :=
    match call with
    | .elapse ms => ({ s with now := s.now + ms }, s.now, .elapsed)
    | .openRoom rooms files host params capability =>
        let minted := mintedTarget H rooms files params
        let grants := minted.elim s.grants fun target =>
          mintSnapshotCapability s.now capability target s.grants
        ({ s with grants }, s.now,
          .opened minted (openJoinedRoom H rooms files host capability.toList params))
    | .postHistory post =>
        let (answer, grants) := receiveJoinedHistoryRequest H s.now post s.grants
        ({ s with grants }, s.now, .received answer.1 answer.2)

/-- What is drawn is not empty and not held already. -/
def Drawn (s : BridgeState) : BridgeCall → Prop
  | .openRoom _ _ _ _ capability => capability ≠ "" ∧ capability ∉ s.grants.keys
  | _ => True

instance (s : BridgeState) (call : BridgeCall) : Decidable (Drawn s call) := by
  cases call with
  | openRoom => exact inferInstanceAs (Decidable (_ ∧ _))
  | elapse => exact inferInstanceAs (Decidable True)
  | postHistory => exact inferInstanceAs (Decidable True)

end Requests

/-! ## What the history tells -/

abbrev BridgeEvent := BridgeCall × (Nat × BridgeAnswer)

/-- The capability a request names. -/
def PostRequest.capability? (post : PostRequest) : Option String :=
  match post.body.bind (·.field? "capability") with
  | some (.str capability) => some capability
  | _ => none

/-- The capability that was minted, and its room. -/
def BridgeEvent.minted : BridgeEvent → Option (String × JoinedRoomTarget)
  | (.openRoom _ _ _ _ capability, _, .opened (some target) _) => some (capability, target)
  | _ => none

/-- The capability that a room was resolved by. -/
def BridgeEvent.used : BridgeEvent → Option String
  | (.postHistory post, _, .received (some _) _) => post.capability?
  | _ => none

/-- The capability was minted, or used. -/
def BridgeEvent.Touches (e : BridgeEvent) (c : String) : Prop :=
  e.minted.map Prod.fst = some c ∨ e.used = some c

instance (e : BridgeEvent) (c : String) : Decidable (e.Touches c) :=
  inferInstanceAs (Decidable (_ ∨ _))

/-- The room a capability was last minted for. -/
def grantedTo (c : String) : List BridgeEvent → Option JoinedRoomTarget
  | [] => none
  | e :: es =>
      match e.minted with
      | none => grantedTo c es
      | some (other, target) => if other = c then some target else grantedTo c es

/-- When a capability was last minted or used. -/
def lastUse (c : String) : List BridgeEvent → Option Nat
  | [] => none
  | e :: es => if e.Touches c then some e.2.1 else lastUse c es

/-- How many capabilities were minted since this one. -/
def opensSince (c : String) : List BridgeEvent → Nat
  | [] => 0
  | e :: es =>
      match e.minted with
      | none => opensSince c es
      | some (other, _) => if other = c then 0 else opensSince c es + 1

/-! ## What a call can do -/

/-- Nothing is minted or used, a capability is minted, or one is used. -/
inductive BridgeMove (s : BridgeState) (e : BridgeEvent) : BridgeState → Prop
  | quiet (now : Nat) (grants : SnapshotCapabilities) (hminted : e.minted = none)
      (hused : e.used = none) (hnow : s.now ≤ now)
      (hgrants : grants = s.grants ∨ grants = pruneSnapshotCapabilities s.now s.grants) :
      BridgeMove s e ⟨now, grants⟩
  | mint (c : String) (target : JoinedRoomTarget) (hminted : e.minted = some (c, target))
      (hused : e.used = none) :
      BridgeMove s e ⟨s.now, mintSnapshotCapability s.now c target s.grants⟩
  | use (c : String) (grant : SnapshotGrant) (hminted : e.minted = none)
      (hused : e.used = some c)
      (hlive : (pruneSnapshotCapabilities s.now s.grants).get? c = some grant) :
      BridgeMove s e ⟨s.now, (pruneSnapshotCapabilities s.now s.grants).set c
        { grant with expiresAt := s.now + snapshotCapabilityTtlMs }⟩

/-- A capability resolves to its room, or to none. -/
theorem resolve_cases (now : Nat) (value : Json) (grants : SnapshotCapabilities) :
    (∃ c grant, value = .str c ∧ c ≠ "" ∧
      (pruneSnapshotCapabilities now grants).get? c = some grant ∧
      resolveSnapshotCapability now value grants =
        (some grant.target, (pruneSnapshotCapabilities now grants).set c
          { grant with expiresAt := now + snapshotCapabilityTtlMs })) ∨
    ((resolveSnapshotCapability now value grants).1 = none ∧
      ((resolveSnapshotCapability now value grants).2 = grants ∨
        (resolveSnapshotCapability now value grants).2 =
          pruneSnapshotCapabilities now grants)) := by
  cases value with
  | str c =>
      by_cases hempty : c = ""
      · exact .inr ⟨by simp [resolveSnapshotCapability, hempty],
          .inl (by simp [resolveSnapshotCapability, hempty])⟩
      · cases hget : (pruneSnapshotCapabilities now grants).get? c with
        | none =>
            exact .inr ⟨by simp [resolveSnapshotCapability, hempty, hget],
              .inr (by simp [resolveSnapshotCapability, hempty, hget])⟩
        | some grant =>
            exact .inl ⟨c, grant, rfl, hempty, hget,
              by simp [resolveSnapshotCapability, hempty, hget]⟩
  | null | bool | num | real | arr | obj => exact .inr ⟨rfl, .inl rfl⟩

/-- How a request is received: it is turned away, or it uses its capability, or it names its
room itself. -/
inductive Received (H : HostParser) (now : Nat) (post : PostRequest)
    (grants : SnapshotCapabilities) :
    (Option JoinedRoomTarget × HistoryAnswer) × SnapshotCapabilities → Prop
  | refused (answer : HistoryAnswer) (left : SnapshotCapabilities)
      (hanswer : ∀ entry, answer ≠ .stored entry)
      (hleft : left = grants ∨ left = pruneSnapshotCapabilities now grants) :
      Received H now post grants ((none, answer), left)
  | granted (body : Json) (c : String) (grant : SnapshotGrant)
      (horigin : isLoopbackOrigin H post.origin = true) (hbody : post.body = some body)
      (hnamed : post.capability? = some c)
      (hlive : (pruneSnapshotCapabilities now grants).get? c = some grant) :
      Received H now post grants ((some grant.target, recordBatch post body grant.target),
        (pruneSnapshotCapabilities now grants).set c
          { grant with expiresAt := now + snapshotCapabilityTtlMs })
  | named (body : Json) (target : JoinedRoomTarget)
      (horigin : isLoopbackOrigin H post.origin = true) (hbody : post.body = some body)
      (hnamed : post.capability? = none)
      (htarget : snapshotTargetFromOrigin H (body.field? "baseUrl") (body.field? "roomId")
        post.origin = some target) :
      Received H now post grants ((some target, recordBatch post body target), grants)

section Spec

variable {H : HostParser} {now : Nat} {post : PostRequest} {grants : SnapshotCapabilities}

theorem received_named {body : Json} (horigin : isLoopbackOrigin H post.origin = true)
    (hbody : post.body = some body) (hnamed : post.capability? = none) :
    Received H now post grants (match
      (snapshotTargetFromOrigin H (body.field? "baseUrl") (body.field? "roomId") post.origin,
        grants) with
      | (none, grants) => ((none, badCapability), grants)
      | (some target, grants) => ((some target, recordBatch post body target), grants)) := by
  cases htarget : snapshotTargetFromOrigin H (body.field? "baseUrl") (body.field? "roomId")
      post.origin with
  | none => exact .refused _ _ (fun _ h => by cases h) (.inl rfl)
  | some target => exact .named body target horigin hbody hnamed htarget

theorem received_resolved {body value : Json} (horigin : isLoopbackOrigin H post.origin = true)
    (hbody : post.body = some body) (hvalue : body.field? "capability" = some value) :
    Received H now post grants (match resolveSnapshotCapability now value grants with
      | (none, grants) => ((none, badCapability), grants)
      | (some target, grants) => ((some target, recordBatch post body target), grants)) := by
  rcases resolve_cases now value grants with ⟨c, grant, rfl, -, hlive, heq⟩ | ⟨hnone, hleft⟩
  · rw [heq]
    refine .granted body c grant horigin hbody ?_ hlive
    rw [PostRequest.capability?, hbody, Option.bind_some, hvalue]
  · generalize resolveSnapshotCapability now value grants = resolved at hnone hleft
    obtain ⟨target, left⟩ := resolved
    obtain rfl : target = none := hnone
    exact .refused _ _ (fun _ h => by cases h) hleft

theorem received_body {body : Json} (horigin : isLoopbackOrigin H post.origin = true)
    (hbody : post.body = some body) :
    Received H now post grants (receiveBody H now post body grants) := by
  rw [receiveBody]
  by_cases hmembers : hasMembers body = true
  · rw [if_neg (by rw [hmembers]; decide), bridgeTarget]
    cases hcapability : body.field? "capability" with
    | none =>
        apply received_named horigin hbody
        rw [PostRequest.capability?, hbody, Option.bind_some, hcapability]
    | some value =>
        cases value with
        | null =>
            apply received_named horigin hbody
            rw [PostRequest.capability?, hbody, Option.bind_some, hcapability]
        | str | bool | num | real | arr | obj =>
            exact received_resolved horigin hbody hcapability
  · rw [if_pos (by simpa using hmembers)]
    exact .refused _ _ (fun _ h => by cases h) (.inl rfl)

/-- Every request is received in one of these ways. -/
theorem received : Received H now post grants (receiveJoinedHistoryRequest H now post grants) := by
  rw [receiveJoinedHistoryRequest]
  by_cases horigin : isLoopbackOrigin H post.origin = true
  · rw [if_neg (by rw [horigin]; decide)]
    cases hbody : post.body with
    | none => exact .refused _ _ (fun _ h => by cases h) (.inl rfl)
    | some body => exact received_body horigin hbody
  · rw [if_pos (by simpa using horigin)]
    exact .refused _ _ (fun _ h => by cases h) (.inl rfl)

/-- A request under a grant that is held and not over. -/
theorem receive_granted {body : Json} {c : String} {grant : SnapshotGrant}
    (horigin : isLoopbackOrigin H post.origin = true) (hbody : post.body = some body)
    (hnamed : post.capability? = some c) (hne : c ≠ "")
    (hlive : (pruneSnapshotCapabilities now grants).get? c = some grant) :
    (receiveJoinedHistoryRequest H now post grants).1 =
      (some grant.target, recordBatch post body grant.target) := by
  have hcapability : body.field? "capability" = some (.str c) := by
    rw [PostRequest.capability?, hbody, Option.bind_some] at hnamed
    split at hnamed
    · rename_i hfield
      rw [hfield, Option.some.inj hnamed]
    · cases hnamed
  have hmembers : hasMembers body = true := by
    cases body with
    | null => cases hcapability
    | bool | num | real | str | arr | obj => rfl
  rw [receiveJoinedHistoryRequest, if_neg (by rw [horigin]; decide), hbody]
  simp only [receiveBody, hmembers, bridgeTarget, hcapability, resolveSnapshotCapability,
    if_neg hne, hlive, Bool.not_true, Bool.false_eq_true, if_false]

/-- What a call does, told by the event it leaves in the history. -/
theorem bridge_move (s : BridgeState) (call : BridgeCall) :
    BridgeMove s (call, ((bridge H).step s call).2) ((bridge H).step s call).1 := by
  cases call with
  | elapse ms => exact .quiet _ _ rfl rfl (Nat.le_add_right _ _) (.inl rfl)
  | openRoom rooms files host params capability =>
      simp only [bridge]
      cases hminted : mintedTarget H rooms files params with
      | none => exact .quiet _ _ rfl rfl le_rfl (.inl rfl)
      | some target => exact .mint capability target rfl rfl
  | postHistory post =>
      simp only [bridge]
      have hreceived : Received H s.now post s.grants _ := received
      generalize receiveJoinedHistoryRequest H s.now post s.grants = result at hreceived
      cases hreceived with
      | refused answer left _ hleft => exact .quiet _ _ rfl rfl le_rfl hleft
      | granted body c grant _ _ hnamed hlive => exact .use c grant rfl hnamed hlive
      | named body target _ _ hnamed _ => exact .quiet _ _ rfl hnamed le_rfl (.inl rfl)

end Spec

/-! ## What the process keeps -/

/-- The grants are those the history tells of, and a grant that lasts is held while not too
many were minted behind it. -/
structure BridgeKeeps (s : BridgeState) (es : List BridgeEvent) : Prop where
  bounded : s.grants.entries.length ≤ snapshotCapabilityMax
  known : ∀ c grant, s.grants.get? c = some grant → c ≠ "" ∧
    grantedTo c es = some grant.target ∧
      ∃ used, lastUse c es = some used ∧ grant.expiresAt = used + snapshotCapabilityTtlMs
  kept : ∀ c used, lastUse c es = some used → s.now < used + snapshotCapabilityTtlMs →
    opensSince c es < snapshotCapabilityMax → HeldWithin (opensSince c es) c s.grants

section Events

variable {e : BridgeEvent} {es : List BridgeEvent} {c other : String}
  {target : JoinedRoomTarget}

theorem grantedTo_of_none (h : e.minted = none) : grantedTo c (e :: es) = grantedTo c es := by
  rw [grantedTo, h]

theorem grantedTo_of_minted (h : e.minted = some (other, target)) :
    grantedTo c (e :: es) = if other = c then some target else grantedTo c es := by
  rw [grantedTo, h]

theorem opensSince_of_none (h : e.minted = none) : opensSince c (e :: es) = opensSince c es := by
  rw [opensSince, h]

theorem opensSince_of_minted (h : e.minted = some (other, target)) :
    opensSince c (e :: es) = if other = c then 0 else opensSince c es + 1 := by
  rw [opensSince, h]

theorem lastUse_of_none (hminted : e.minted = none) (hused : e.used = none) :
    lastUse c (e :: es) = lastUse c es := by
  rw [lastUse, if_neg]
  rintro (h | h)
  · rw [hminted] at h
    cases h
  · rw [hused] at h
    cases h

theorem lastUse_of_minted (h : e.minted = some (other, target)) (hused : e.used = none) :
    lastUse c (e :: es) = if other = c then some e.2.1 else lastUse c es := by
  have htouches : e.Touches c ↔ other = c := by
    rw [BridgeEvent.Touches, h, hused]
    simp
  rw [lastUse]
  exact if_congr htouches rfl rfl

theorem lastUse_of_used (hminted : e.minted = none) (h : e.used = some other) :
    lastUse c (e :: es) = if other = c then some e.2.1 else lastUse c es := by
  have htouches : e.Touches c ↔ other = c := by
    rw [BridgeEvent.Touches, h, hminted]
    simp
  rw [lastUse]
  exact if_congr htouches rfl rfl

end Events

section Keeps

variable {s s' : BridgeState} {e : BridgeEvent} {es : List BridgeEvent} {c : String} {used : Nat}

theorem bridgeKeeps_init : BridgeKeeps ⟨0, .empty⟩ [] where
  bounded := Nat.zero_le _
  known _ _ h := by cases h
  kept _ _ h := by cases h

/-- Pruning spares a grant that lasts. -/
theorem BridgeKeeps.held_prune (h : BridgeKeeps s es) (hused : lastUse c es = some used)
    (hlasts : s.now < used + snapshotCapabilityTtlMs)
    (hopens : opensSince c es < snapshotCapabilityMax) :
    HeldWithin (opensSince c es) c (pruneSnapshotCapabilities s.now s.grants) := by
  apply (h.kept c used hused hlasts hopens).prune
  intro grant hget
  obtain ⟨-, -, used', hused', hexpires⟩ := h.known c grant hget
  obtain rfl := Option.some.inj (hused.symm.trans hused')
  rw [hexpires]
  exact hlasts

theorem BridgeKeeps.quiet (h : BridgeKeeps s es) (hminted : e.minted = none)
    (hused : e.used = none) {now : Nat} {grants : SnapshotCapabilities} (hnow : s.now ≤ now)
    (hgrants : grants = s.grants ∨ grants = pruneSnapshotCapabilities s.now s.grants) :
    BridgeKeeps ⟨now, grants⟩ (e :: es) where
  bounded := by
    rcases hgrants with rfl | rfl
    · exact h.bounded
    · exact length_prune_le.trans h.bounded
  known c grant hget := by
    rw [grantedTo_of_none hminted, lastUse_of_none hminted hused]
    rcases hgrants with rfl | rfl
    · exact h.known c grant hget
    · exact h.known c grant (get?_prune.mp hget).1
  kept c used hlast hlasts hopens := by
    rw [lastUse_of_none hminted hused] at hlast
    rw [opensSince_of_none hminted] at hopens ⊢
    have hearlier : s.now < used + snapshotCapabilityTtlMs := lt_of_le_of_lt hnow hlasts
    rcases hgrants with rfl | rfl
    · exact h.kept c used hlast hearlier hopens
    · exact h.held_prune hlast hearlier hopens

theorem BridgeKeeps.mint (h : BridgeKeeps s es) {target : JoinedRoomTarget}
    (hminted : e.minted = some (c, target)) (hused : e.used = none) (htime : e.2.1 = s.now)
    (hne : c ≠ "") (hnew : c ∉ s.grants.keys) :
    BridgeKeeps ⟨s.now, mintSnapshotCapability s.now c target s.grants⟩ (e :: es) := by
  have hfresh : c ∉ (evictOldest (pruneSnapshotCapabilities s.now s.grants)).keys := fun hmem =>
    hnew (mem_keys_prune (mem_keys_evictOldest hmem))
  refine ⟨?_, fun other grant hget => ?_, fun other used hlast hlasts hopens => ?_⟩
  · have hroom := @length_evictOldest_lt (pruneSnapshotCapabilities s.now s.grants)
    simp only [mintSnapshotCapability, OrderedMap.entries_set_of_not_mem hfresh,
      List.length_append, List.length_singleton]
    exact hroom
  · rw [grantedTo_of_minted hminted, lastUse_of_minted hminted hused, htime]
    change ((evictOldest (pruneSnapshotCapabilities s.now s.grants)).set c _).get? other =
      _ at hget
    by_cases hother : other = c
    · subst hother
      rw [OrderedMap.get?_set_self] at hget
      obtain rfl := Option.some.inj hget
      rw [if_pos rfl, if_pos rfl]
      exact ⟨hne, rfl, s.now, rfl, rfl⟩
    · rw [OrderedMap.get?_set_ne _ _ hother] at hget
      rw [if_neg (Ne.symm hother), if_neg (Ne.symm hother)]
      exact h.known other grant (get?_prune.mp (get?_of_evictOldest hget)).1
  · rw [lastUse_of_minted hminted hused] at hlast
    rw [opensSince_of_minted hminted] at hopens ⊢
    by_cases hother : c = other
    · subst hother
      rw [if_pos rfl]
      exact heldWithin_set_self _ hfresh
    · rw [if_neg hother] at hlast hopens ⊢
      have hheld := h.held_prune hlast hlasts (by omega)
      exact (hheld.evictOldest hopens).set_new _ hfresh

theorem BridgeKeeps.use (h : BridgeKeeps s es) {grant : SnapshotGrant}
    (hminted : e.minted = none) (hused : e.used = some c) (htime : e.2.1 = s.now)
    (hlive : (pruneSnapshotCapabilities s.now s.grants).get? c = some grant) :
    BridgeKeeps ⟨s.now, (pruneSnapshotCapabilities s.now s.grants).set c
      { grant with expiresAt := s.now + snapshotCapabilityTtlMs }⟩ (e :: es) := by
  have hmem := OrderedMap.mem_keys_of_get? hlive
  obtain ⟨hget, hlives⟩ := get?_prune.mp hlive
  obtain ⟨hne, hgranted, before, hbefore, hexpires⟩ := h.known c grant hget
  refine ⟨?_, fun other grant' hget' => ?_, fun other used hlast hlasts hopens => ?_⟩
  · simp only [OrderedMap.entries_set_of_mem hmem, List.length_map]
    exact length_prune_le.trans h.bounded
  · rw [grantedTo_of_none hminted, lastUse_of_used hminted hused, htime]
    by_cases hother : other = c
    · subst hother
      rw [OrderedMap.get?_set_self] at hget'
      obtain rfl := Option.some.inj hget'
      rw [if_pos rfl]
      exact ⟨hne, hgranted, s.now, rfl, rfl⟩
    · rw [OrderedMap.get?_set_ne _ _ hother] at hget'
      rw [if_neg (Ne.symm hother)]
      exact h.known other grant' (get?_prune.mp hget').1
  · rw [lastUse_of_used hminted hused] at hlast
    rw [opensSince_of_none hminted] at hopens ⊢
    apply HeldWithin.set_held _ _ hmem
    by_cases hother : c = other
    · subst hother
      exact h.held_prune hbefore (hexpires ▸ hlives) hopens
    · rw [if_neg hother] at hlast
      exact h.held_prune hlast hlasts hopens

variable {H : HostParser}

/-- A capability that is minted is what the call drew. -/
theorem drawn_of_minted {target : JoinedRoomTarget} (h : e.minted = some (c, target))
    (hdrawn : Drawn s e.1) : c ≠ "" ∧ c ∉ s.grants.keys := by
  obtain ⟨call, time, answer⟩ := e
  cases call with
  | elapse | postHistory => cases h
  | openRoom rooms files host params capability =>
      cases answer with
      | elapsed | received => cases h
      | opened minted answer =>
          cases minted with
          | none => cases h
          | some target' =>
              obtain ⟨rfl, -⟩ := Prod.mk.inj (Option.some.inj h)
              exact hdrawn

/-- A call keeps it, if what it draws is new. -/
theorem BridgeKeeps.step (h : BridgeKeeps s es) {call : BridgeCall} (hdrawn : Drawn s call) :
    BridgeKeeps ((bridge H).step s call).1 ((call, ((bridge H).step s call).2) :: es) := by
  have htime : ((bridge H).step s call).2.1 = s.now := by cases call <;> rfl
  have hmove := bridge_move (H := H) s call
  generalize hevent : (call, ((bridge H).step s call).2) = e at hmove
  generalize ((bridge H).step s call).1 = s' at hmove
  have hat : e.2.1 = s.now := by
    rw [← hevent]
    exact htime
  have hcall : e.1 = call := by rw [← hevent]
  cases hmove with
  | quiet now grants hminted hused hnow hgrants => exact h.quiet hminted hused hnow hgrants
  | use c grant hminted hused hlive => exact h.use hminted hused hat hlive
  | mint c target hminted hused =>
      obtain ⟨hne, hnew⟩ := drawn_of_minted hminted (s := s) (by rw [hcall]; exact hdrawn)
      exact h.mint hminted hused hat hne hnew

theorem bridgeKeeps_exec {calls : List BridgeCall} (h : (bridge H).Obeys Drawn calls) :
    BridgeKeeps ((bridge H).exec calls).1 ((bridge H).exec calls).2 :=
  Machine.invariant_of_obeys bridgeKeeps_init (fun _ _ _ hkeeps hdrawn => hkeeps.step hdrawn) h

end Keeps

/-! ## Where a batch is stored -/

/-- The capability was last minted for the room, and was minted or used a short time ago. -/
structure CapabilityLasts (run : BridgeState × List BridgeEvent) (c : String)
    (target : JoinedRoomTarget) : Prop where
  granted : grantedTo c run.2 = some target
  lasts : ∃ used, lastUse c run.2 = some used ∧
    run.1.now < used + snapshotCapabilityTtlMs

section Results

variable {H : HostParser} {calls : List BridgeCall}

/-- A grant that is held and not over was minted for its room, and lasts. -/
theorem capabilityLasts_of_live (h : (bridge H).Obeys Drawn calls) {c : String}
    {grant : SnapshotGrant}
    (hlive : (pruneSnapshotCapabilities ((bridge H).exec calls).1.now
      ((bridge H).exec calls).1.grants).get? c = some grant) :
    CapabilityLasts ((bridge H).exec calls) c grant.target := by
  obtain ⟨hget, hlives⟩ := get?_prune.mp hlive
  obtain ⟨-, hgranted, used, hused, hexpires⟩ := (bridgeKeeps_exec h).known c grant hget
  exact ⟨hgranted, used, hused, hexpires ▸ hlives⟩

/-- What is stored was posted for a room that is tracked at both reads. -/
theorem recordBatch_eq_stored_iff {post : PostRequest} {body : Json} {target : JoinedRoomTarget}
    {entry : HistoryEntry} : recordBatch post body target = .stored entry ↔
      isTracked post.rooms target = true ∧ isTracked post.roomsInLock target = true ∧
        (postedHistory body).hasItems = true ∧
          entry = receivedEntry target (postedHistory body) post.savedAt := by
  rw [recordBatch]
  by_cases hrooms : isTracked post.rooms target = true
  · by_cases hitems : (postedHistory body).hasItems = true
    · by_cases hlock : isTracked post.roomsInLock target = true
      · simp [hrooms, hitems, hlock, eq_comm]
      · simp [hrooms, hitems, hlock, notTracked]
    · simp [hrooms, hitems]
  · simp [hrooms, notTracked]

/-- The address a browser reports and the base URL are of one origin. -/
def SameOrigin (H : HostParser) (baseUrl : String) (origin : Option String) : Prop :=
  ∃ claimed reported, parse H none baseUrl.toList = some claimed ∧
    (origin.bind fun origin => parse H none origin.toList) = some reported ∧
      claimed.origin = reported.origin

/-- A canonical base URL is of the origin it was made from. -/
theorem parse_canonicalBaseUrl (hlaw : H.Lawful) {url : Url} (h : IsWebUrl H url) :
    ∃ canonical, parse H none (canonicalBaseUrl url) = some canonical ∧
      canonical.origin = url.origin := by
  obtain ⟨o, hwritten, -, horigin⟩ := h.exists_origin hlaw
  obtain ⟨path, hpath, hnormal, -⟩ := h.path
  have hstrip : url.pathname.rdropWhile (· == '/') =
      joinSegments (path.rdropWhile (· == [])) := by
    rw [pathname_segments hpath]
    exact rdropWhile_joinSegments fun x hx c hc heq => by
      have hslash := (hnormal x hx).not_slash true c hc
      rw [heq] at hslash
      cases hslash
  have hkept : ∀ x ∈ path.rdropWhile (· == []), Normal x := fun x hx =>
    hnormal x ((List.rdropWhile_prefix _ _).subset hx)
  exact ⟨_, by rw [canonicalBaseUrl, hstrip, ← hwritten, parse_origin_joinSegments o hkept],
    horigin _⟩

/-- The row of a room that names itself is of the origin the browser reports. -/
theorem sameOrigin_of_named (hlaw : H.Lawful) {baseUrl roomId : Option Json}
    {origin : Option String} {target : JoinedRoomTarget}
    (h : snapshotTargetFromOrigin H baseUrl roomId origin = some target) :
    SameOrigin H target.baseUrl origin := by
  unfold snapshotTargetFromOrigin at h
  split at h
  · rename_i baseUrl roomId origin
    split at h
    · cases h
    · split at h
      · rename_i claimed reported hclaimed hreported
        split at h
        · cases h
        · rename_i hsame
          obtain ⟨canonical, hcanonical, rfl⟩ := Option.map_eq_some_iff.mp h
          have hhttp : claimed.isHttp = true := by
            by_contra hnot
            rw [sanitizeBaseUrl, hclaimed, Option.bind_eq_bind, Option.bind_some,
              if_neg hnot] at hcanonical
            cases hcanonical
          obtain rfl := Option.some.inj
            ((sanitizeBaseUrl_eq hlaw hclaimed hhttp).symm.trans hcanonical)
          obtain ⟨canonical, hparse, horigin⟩ :=
            parse_canonicalBaseUrl hlaw (isWebUrl_of_parse hclaimed hhttp)
          refine ⟨canonical, reported, ?_, hreported, horigin.trans (not_not.mp hsame)⟩
          rw [String.toList_ofList]
          exact hparse
      · cases h
  · cases h

/-- A batch is stored nowhere but under a tracked room, which a capability was minted for that
lasts, or which is of the origin the browser reports. -/
theorem bridge_stores_only_where_opened (hlaw : H.Lawful) (h : (bridge H).Obeys Drawn calls)
    (post : PostRequest) (entry : HistoryEntry)
    (hstored : (receiveJoinedHistoryRequest H ((bridge H).exec calls).1.now post
      ((bridge H).exec calls).1.grants).1.2 = .stored entry) :
    isLoopbackOrigin H post.origin = true ∧ isTracked post.rooms entry.key = true ∧
      isTracked post.roomsInLock entry.key = true ∧
        ((∃ c, post.capability? = some c ∧
            CapabilityLasts ((bridge H).exec calls) c entry.key) ∨
          (post.capability? = none ∧ SameOrigin H entry.baseUrl post.origin)) := by
  have hreceived : Received H ((bridge H).exec calls).1.now post
    ((bridge H).exec calls).1.grants _ := received
  generalize receiveJoinedHistoryRequest H ((bridge H).exec calls).1.now post
    ((bridge H).exec calls).1.grants = result at hreceived hstored
  cases hreceived with
  | refused answer left hanswer _ => exact absurd hstored (hanswer entry)
  | granted body c grant horigin hbody hnamed hlive =>
      obtain ⟨hrooms, hlock, -, rfl⟩ := recordBatch_eq_stored_iff.mp hstored
      exact ⟨horigin, hrooms, hlock, .inl ⟨c, hnamed, capabilityLasts_of_live h hlive⟩⟩
  | named body target horigin hbody hnamed htarget =>
      obtain ⟨hrooms, hlock, -, rfl⟩ := recordBatch_eq_stored_iff.mp hstored
      exact ⟨horigin, hrooms, hlock, .inr ⟨hnamed, sameOrigin_of_named hlaw htarget⟩⟩

/-- The row is opened, and five hours pass. -/
def adaOpened : List BridgeCall :=
  [.elapse 1000, .openRoom [adaRow] (adaToken [0x74, 0x67, 0x6c]) none (openParams adaRow "ada")
    "grant", .elapse (5 * 60 * 60 * 1000)]

/-- The page posts one message under its grant. -/
def adaBody : Json :=
  .obj [("capability", .str "grant"), ("messages", .arr [.obj [("id", .num 1)]])]

def adaPost : PostRequest :=
  ⟨some "http://127.0.0.1:4100", some adaBody, [adaRow], [adaRow], "t1"⟩

/-- A batch that is stored under the grant of the room, by the general theorem. -/
theorem bridge_stores_only_where_opened_ada :
    ∃ c, adaPost.capability? = some c ∧
      CapabilityLasts ((bridge .plain).exec adaOpened) c adaRow.target := by
  have hlive : (pruneSnapshotCapabilities ((bridge .plain).exec adaOpened).1.now
      ((bridge .plain).exec adaOpened).1.grants).get? "grant" =
        some ⟨adaRow.target, 21601000⟩ := by
    decide +kernel
  have hstored : (receiveJoinedHistoryRequest .plain ((bridge .plain).exec adaOpened).1.now
      adaPost ((bridge .plain).exec adaOpened).1.grants).1.2 =
        .stored (receivedEntry adaRow.target (postedHistory adaBody) "t1") := by
    rw [receive_granted (by decide +kernel) rfl rfl (by decide) hlive]
    change recordBatch adaPost adaBody adaRow.target = _
    exact recordBatch_eq_stored_iff.mpr
      ⟨by decide +kernel, by decide +kernel, by decide +kernel, rfl⟩
  have hdrawn : (bridge .plain).Obeys Drawn adaOpened := by decide +kernel
  obtain ⟨-, -, -, hlasts | ⟨hnone, -⟩⟩ :=
    bridge_stores_only_where_opened plain_lawful hdrawn adaPost _ hstored
  · exact hlasts
  · cases hnone

/-! ## What is opened stays open -/

/-- The capability is read back from the fragment. -/
theorem getParam_openFragment_snapshot (token capability : List Char) :
    getParam "snapshot".toList (paramsOf (openFragment (percentEncode componentSet token)
      (percentEncode componentSet capability))) = some capability := by
  have hand {s : List Char} : '&' ∉ percentEncode componentSet s := fun hc => by
    rcases mem_component hc with hset | heq
    · cases hset
    · cases heq
  have hfirst : '&' ∉ "token".toList ++ '=' :: percentEncode componentSet token := by
    rw [List.mem_append, List.mem_cons, not_or, not_or]
    exact ⟨by decide, by decide, hand⟩
  have hname : rawName ("token".toList ++ '=' :: percentEncode componentSet token) =
      "token".toList := by
    rw [rawName, splitAtFirst_append (by decide)]
    simp [splitAtFirst]
  have hsecond := @getParam_second _ "snapshot".toList (percentEncode componentSet capability)
    (by simp) hfirst (by rw [hname]; decide) (by decide) (by decide) (by decide) hand
  rw [formDecode_component] at hsecond
  exact hsecond

/-- A redirect leads to a page that reads the capability. -/
theorem carriedCapability_joinedTarget (hlaw : H.Lawful) {value base : List Char}
    (h : sanitizeBaseUrl H value = some base) {host : Option String} {units : List UInt16}
    {capability : List Char} {target : Url}
    (htarget : joinedTarget H base host units capability = some target) :
    carriedCapability target.href = some capability := by
  cases htoken : Utf16.decode units with
  | none =>
      obtain ⟨url, hparse, -⟩ := parse_sanitized hlaw h
      have hencode : encodeComponent units = none := by
        rw [encodeComponent, htoken, Option.map_none]
      rw [joinedTarget, hparse, hencode] at htarget
      cases htarget
  | some token =>
      obtain ⟨carried, hcarried, hfragment⟩ := joinedTarget_fragment hlaw h htoken host capability
      obtain rfl := Option.some.inj (hcarried.symm.trans htarget)
      rw [carriedCapability, hfragment, Option.bind_some, getParam_openFragment_snapshot]

/-- A room that is opened is one that a capability is minted for, and its page reads it. -/
theorem openJoinedRoom_redirect (hlaw : H.Lawful) {rooms : List JoinedRoom} {files : TokenFiles}
    {host : Option String} {params : List (List Char × List Char)}
    {capability location : List Char}
    (h : openJoinedRoom H rooms files host capability params = .redirect location) :
    (mintedTarget H rooms files params).isSome ∧
      carriedCapability location = some capability := by
  unfold openJoinedRoom at h
  unfold mintedTarget
  simp only at h ⊢
  cases hbase : (getParam "base_url".toList params).bind (sanitizeBaseUrl H) with
  | none => simp only [hbase, reduceCtorEq] at h
  | some baseUrl =>
      obtain ⟨value, -, hvalue⟩ := Option.bind_eq_some_iff.mp hbase
      obtain ⟨url, hparse, -⟩ := parse_sanitized hlaw hvalue
      simp only [hbase, Option.bind_eq_bind, Option.bind_some] at h ⊢
      split at h
      · cases h
      · rename_i hsafe
        rw [if_neg hsafe]
        cases hjoined : findRoom ⟨_, String.ofList baseUrl⟩ rooms with
        | none => simp only [hjoined, reduceCtorEq] at h
        | some joined =>
            simp only [hjoined, Option.bind_some] at h ⊢
            cases halias : selectedAlias files joined
                ((getParam "alias".toList params).map String.ofList) with
            | none => simp only [halias, reduceCtorEq] at h
            | some aliasName =>
                simp only [halias, Option.bind_some] at h ⊢
                split at h
                · cases h
                · rename_i hnamed
                  rw [if_neg hnamed]
                  cases htoken : readStoredParticipantToken files joined.roomId aliasName with
                  | none => simp only [htoken, reduceCtorEq] at h
                  | some token =>
                      simp only [htoken] at h
                      cases htarget : joinedTarget H baseUrl host token capability with
                      | none => simp only [htarget, reduceCtorEq] at h
                      | some target =>
                          simp only [htarget, OpenAnswer.redirect.injEq] at h
                          rw [← h]
                          refine ⟨?_, carriedCapability_joinedTarget hlaw hvalue htarget⟩
                          rw [Option.bind_some, hparse]
                          rfl

/-- A capability that lasts, with not too many minted behind it, resolves to its room. -/
theorem resolve_of_lasts (h : (bridge H).Obeys Drawn calls) {c : String}
    {target : JoinedRoomTarget} (hlasts : CapabilityLasts ((bridge H).exec calls) c target)
    (hopens : opensSince c ((bridge H).exec calls).2 < snapshotCapabilityMax) :
    ∃ grant, grant.target = target ∧ c ≠ "" ∧
      (pruneSnapshotCapabilities ((bridge H).exec calls).1.now
        ((bridge H).exec calls).1.grants).get? c = some grant := by
  have hkeeps := bridgeKeeps_exec h
  obtain ⟨used, hused, htime⟩ := hlasts.lasts
  have hmem := (hkeeps.held_prune hused htime hopens).mem_keys
  cases hget : (pruneSnapshotCapabilities ((bridge H).exec calls).1.now
      ((bridge H).exec calls).1.grants).get? c with
  | none => exact absurd hmem (OrderedMap.get?_eq_none_iff.mp hget)
  | some grant =>
      obtain ⟨hne, hgranted, -⟩ := hkeeps.known c grant (get?_prune.mp hget).1
      exact ⟨grant, Option.some.inj (hgranted.symm.trans hlasts.granted), hne, rfl⟩

/-- The page of a room that is opened reads its capability; and while at most as many rooms
are opened behind it as are kept, its batches are stored for the room exactly as long as the
capability was minted or used a short time ago. -/
theorem bridge_stores_iff_lasts (hlaw : H.Lawful) (h : (bridge H).Obeys Drawn calls) :
    ((bridge H).exec calls).1.grants.entries.length ≤ snapshotCapabilityMax ∧
    (∀ rooms files host params capability location,
      openJoinedRoom H rooms files host capability params = .redirect location →
        (mintedTarget H rooms files params).isSome ∧
          carriedCapability location = some capability) ∧
    ∀ (post : PostRequest) (body : Json) (c : String) (target : JoinedRoomTarget),
      isLoopbackOrigin H post.origin = true → post.body = some body →
      post.capability? = some c → (postedHistory body).hasItems = true →
      isTracked post.rooms target = true → isTracked post.roomsInLock target = true →
      opensSince c ((bridge H).exec calls).2 < snapshotCapabilityMax →
        ((receiveJoinedHistoryRequest H ((bridge H).exec calls).1.now post
            ((bridge H).exec calls).1.grants).1.2 =
              .stored (receivedEntry target (postedHistory body) post.savedAt) ↔
          CapabilityLasts ((bridge H).exec calls) c target) := by
  refine ⟨(bridgeKeeps_exec h).bounded,
    fun _ _ _ _ _ _ hopen => openJoinedRoom_redirect hlaw hopen, ?_⟩
  intro post body c target horigin hbody hnamed hitems hrooms hlock hopens
  constructor
  · intro hstored
    have hreceived : Received H ((bridge H).exec calls).1.now post
      ((bridge H).exec calls).1.grants _ := received
    generalize receiveJoinedHistoryRequest H ((bridge H).exec calls).1.now post
      ((bridge H).exec calls).1.grants = result at hreceived hstored
    cases hreceived with
    | refused answer left hanswer _ => exact absurd hstored (hanswer _)
    | named body' target' _ _ hnone _ =>
        rw [hnamed] at hnone
        cases hnone
    | granted body' c' grant _ _ hnamed' hlive =>
        obtain rfl := Option.some.inj (hnamed.symm.trans hnamed')
        obtain ⟨-, -, -, hentry⟩ := recordBatch_eq_stored_iff.mp hstored
        have htarget : target = grant.target :=
          JoinedRoomTarget.ext (congrArg HistoryEntry.roomId hentry)
            (congrArg HistoryEntry.baseUrl hentry)
        rw [htarget]
        exact capabilityLasts_of_live h hlive
  · intro hlasts
    obtain ⟨grant, rfl, hne, hlive⟩ := resolve_of_lasts h hlasts hopens
    rw [receive_granted horigin hbody hnamed hne hlive]
    exact recordBatch_eq_stored_iff.mpr ⟨hrooms, hlock, hitems, rfl⟩

/-- The grant of a room, five hours after the room was opened, by the general theorem. -/
theorem bridge_stores_iff_lasts_ada :
    (receiveJoinedHistoryRequest .plain ((bridge .plain).exec adaOpened).1.now adaPost
      ((bridge .plain).exec adaOpened).1.grants).1.2 =
        .stored (receivedEntry adaRow.target (postedHistory adaBody) "t1") := by
  have hdrawn : (bridge .plain).Obeys Drawn adaOpened := by decide +kernel
  apply ((bridge_stores_iff_lasts plain_lawful hdrawn).2.2 adaPost adaBody "grant" adaRow.target
    (by decide +kernel) rfl rfl (by decide +kernel) (by decide +kernel) (by decide +kernel)
    (by decide +kernel)).mpr
  exact ⟨by decide +kernel, 1000, by decide +kernel, by decide +kernel⟩

end Results

end AgentGather.Platform
