import AgentGather.Tunnel.Broker
import AgentGather.Server.Handlers

/-!
# What the platform reports of a room

The status of a room is derived from two answers: the broker's route, which is refreshed
whenever it is looked up, and the host's `/status`, which projects the roster.  A room is
reported active exactly when it is open, its host was seen within the grace time, and everyone
who has to be in the foreground is there and was seen lately.
-/

namespace AgentGather.Server

open AgentGather.Protocol

/-! ## The roster that `/status` shows -/

/-- An entry of `participants.json` with what `Date.parse` makes of its `lastSeenAt`, which is
absent when that text is no date. -/
structure RosterRow where
  participant : Participant
  lastSeenAt : Option Int
deriving DecidableEq, Repr

inductive AttendanceState where
  | attention (own : ParticipantAttention)
  | notAttending
  | stale
deriving DecidableEq, Repr

/-- `publicFields` has neither a token hash nor a session id. -/
structure PublicParticipant where
  publicFields : Participant
  attendanceRequired : Bool
  attendanceState : AttendanceState
  lastSeenAgeMs : Nat
  staleAfterMs : Nat
deriving DecidableEq, Repr

/-- `Number.MAX_SAFE_INTEGER`. -/
def maxSafeInteger : Nat := 9007199254740991

def isForegroundRequired (policy : AttendancePolicy) (participant : Participant) : Bool :=
  if participant.removedAt.isSome || participant.kind = .system then false
  else match policy with
    | .agentsForeground => participant.kind = .agent
    | .allForeground => true
    | .manualOk => false
    | .hostDirected => false

def lastSeenAgeMs (now : Int) : Option Int → Nat
  | none => maxSafeInteger
  | some lastSeenAt => (now - lastSeenAt).toNat

def isForeground (attention : ParticipantAttention) : Bool :=
  attention = .attending || attention = .managed

/-- A policy that the room does not have is `manual-ok`. -/
def publicParticipant (row : RosterRow) (attendancePolicy : Option AttendancePolicy)
    (now : Int) : PublicParticipant :=
  let participant := row.participant
  let age := lastSeenAgeMs now row.lastSeenAt
  let required := isForegroundRequired (attendancePolicy.getD .manualOk) participant
  let foreground := isForeground participant.attention
  let stale := foreground && decide (age > attendanceStaleAfterMs)
  { publicFields := { participant with tokenHash := none, sessionId := none }
    attendanceRequired := required
    attendanceState :=
      if required && !foreground then .notAttending
      else if stale then .stale
      else .attention participant.attention
    lastSeenAgeMs := age
    staleAfterMs := attendanceStaleAfterMs }

/-- Seen at most so long ago as an attendance lasts. -/
def RosterRow.SeenLately (row : RosterRow) (now : Int) : Prop :=
  ∃ lastSeenAt, row.lastSeenAt = some lastSeenAt ∧ now ≤ lastSeenAt + attendanceStaleAfterMs

theorem seenLately_iff (row : RosterRow) (now : Int) :
    row.SeenLately now ↔ lastSeenAgeMs now row.lastSeenAt ≤ attendanceStaleAfterMs := by
  unfold RosterRow.SeenLately lastSeenAgeMs
  cases hseen : row.lastSeenAt with
  | none => simp [maxSafeInteger, attendanceStaleAfterMs]
  | some lastSeenAt =>
    simp only [Option.some.injEq, exists_eq_left', Int.toNat_le]
    omega

/-- A participant that is not required to attend is never shown as not attending. -/
theorem publicParticipant_notAttending (row : RosterRow) (policy : Option AttendancePolicy)
    (now : Int) (h : (publicParticipant row policy now).attendanceState = .notAttending) :
    (publicParticipant row policy now).attendanceRequired = true := by
  simp only [publicParticipant] at h ⊢
  split at h
  · next hreq =>
    rw [Bool.and_eq_true] at hreq
    exact hreq.1
  · split at h <;> cases h

end AgentGather.Server

namespace AgentGather.Platform

open AgentGather.Protocol AgentGather.Server AgentGather.Tunnel

/-! ## The signals -/

inductive PlatformRoomStatus where
  | active
  | idle
  | paused
  | closed
deriving DecidableEq, Repr

inductive PlatformStatusReason where
  | foregroundAttending
  | foregroundIdle
  | noForegroundRequired
  | hostUnavailable
  | routeExpired
  | routeClosed
  | roomClosed
deriving DecidableEq, Repr

/-- The `checked_at` of a stored one is not derived. -/
structure RouteHealth where
  reachable : Bool
  hostConnected : Bool
deriving DecidableEq, Repr

structure RouteHealthSignal where
  registered : Bool
  routeStatus : Option RouteStatus
  hostConnected : Option Bool
deriving DecidableEq, Repr

structure HostAttendanceParticipant where
  kind : ParticipantKind
  attendanceRequired : Bool
  attendanceState : AttendanceState
deriving DecidableEq, Repr

structure HostStatusSignal where
  roomStatus : RoomStatus
  participants : List HostAttendanceParticipant
deriving DecidableEq, Repr

structure PlatformStatusResult where
  status : PlatformRoomStatus
  reason : PlatformStatusReason
  routeHealth : RouteHealth
deriving DecidableEq, Repr

/-- `FOREGROUND_STATES`. -/
def foregroundStates : List AttendanceState := [.attention .attending, .attention .managed]

def routeSignalFromMetadata : Option RouteMetadata → RouteHealthSignal
  | none => ⟨false, none, none⟩
  | some route => ⟨true, some route.status, some route.hostConnected⟩

def routeHealthFromSignal (route : RouteHealthSignal) : RouteHealth where
  reachable := route.registered && decide (route.routeStatus = some .active)
  hostConnected := route.hostConnected.getD false

/-- What of a projected participant a status signal tells. -/
def attendanceOf (shown : PublicParticipant) : HostAttendanceParticipant where
  kind := shown.publicFields.kind
  attendanceRequired := shown.attendanceRequired
  attendanceState := shown.attendanceState

/-- The host's `/status` as a signal. -/
def hostStatusSignal (state : RoomState) (roster : List RosterRow) (now : Int) :
    HostStatusSignal where
  roomStatus := state.status
  participants :=
    roster.map fun row => attendanceOf (publicParticipant row state.attendancePolicy now)

/-- The participants that have to be in the foreground. -/
def HostStatusSignal.required (host : HostStatusSignal) : List HostAttendanceParticipant :=
  host.participants.filter (·.attendanceRequired)

def derivePlatformStatus (route : RouteHealthSignal) (host : HostStatusSignal) :
    PlatformStatusResult :=
  let result status reason : PlatformStatusResult :=
    ⟨status, reason, routeHealthFromSignal route⟩
  if route.registered = true ∧ route.routeStatus = some .closed then
    result .closed .routeClosed
  else if host.roomStatus = .closed then result .closed .roomClosed
  else if route.registered = false then result .paused .hostUnavailable
  else if route.routeStatus = some .expired then result .paused .routeExpired
  else if route.hostConnected ≠ some true then result .paused .hostUnavailable
  else if host.required = [] then result .idle .noForegroundRequired
  else if host.required.all (fun shown => foregroundStates.contains shown.attendanceState) then
    result .active .foregroundAttending
  else result .idle .foregroundIdle

/-! ## What an active room is -/

/-- A route that neither its host closed nor time ended, with a host seen within the grace
time. -/
structure RouteLive (o : BrokerOptions) (now : Nat) (route : RouteMetadata) : Prop where
  active : route.status = .active
  unexpired : now < route.expiresAt
  withinLifetime : now < route.createdAt + o.maxRouteLifetimeMs
  hostSeen : now ≤ route.lastHeartbeatAt + o.hostGraceMs

/-- Required to be in the foreground under the room's policy, which removed participants
and the system never are. -/
def Required (state : RoomState) (row : RosterRow) : Prop :=
  isForegroundRequired (state.attendancePolicy.getD .manualOk) row.participant = true

structure Attends (now : Int) (row : RosterRow) : Prop where
  foreground : row.participant.attention = .attending ∨ row.participant.attention = .managed
  seen : row.SeenLately now

theorem Required.not_removed {state : RoomState} {row : RosterRow} (h : Required state row) :
    row.participant.removedAt = none := by
  cases hremoved : row.participant.removedAt with
  | none => rfl
  | some at' => simp [Required, isForegroundRequired, hremoved] at h

/-! ## The broker's part -/

theorem refresh_status_active (o : BrokerOptions) (now : Nat) (route : RouteMetadata) :
    (refresh o now route).status = .active ↔
      route.status = .active ∧ now < route.expiresAt ∧
        now < route.createdAt + o.maxRouteLifetimeMs := by
  simp only [refresh]
  split
  · next h =>
    constructor
    · intro hcontra
      cases hcontra
    · rintro ⟨-, hexpires, hlifetime⟩
      omega
  · next h =>
    constructor
    · intro hactive
      refine ⟨hactive, ?_, ?_⟩
      · by_contra hexpired
        exact h ⟨hactive, .inl (by omega)⟩
      · by_contra hover
        exact h ⟨hactive, .inr (by omega)⟩
    · intro hlive
      exact hlive.1

theorem refresh_status_closed (o : BrokerOptions) (now : Nat) (route : RouteMetadata) :
    (refresh o now route).status = .closed ↔ route.status = .closed := by
  simp only [refresh]
  split
  · next h => simp [h.1]
  · rfl

/-- A refreshed route has a connected host exactly when it is live. -/
theorem refresh_hostConnected (o : BrokerOptions) (now : Nat) (route : RouteMetadata) :
    (refresh o now route).hostConnected = true ↔ RouteLive o now route := by
  have hstatus := refresh_status_active o now route
  have hconnected : (refresh o now route).hostConnected = true ↔
      (refresh o now route).status = .active ∧ now - route.lastHeartbeatAt ≤ o.hostGraceMs := by
    simp only [refresh, Bool.and_eq_true, decide_eq_true_eq]
  rw [hconnected, hstatus]
  constructor
  · rintro ⟨⟨hactive, hexpires, hlifetime⟩, hseen⟩
    exact ⟨hactive, hexpires, hlifetime, by omega⟩
  · intro hlive
    have hseen := hlive.hostSeen
    exact ⟨⟨hlive.active, hlive.unexpired, hlive.withinLifetime⟩, by omega⟩

/-! ## The host's part -/

/-- A required participant counts as in the foreground exactly when it attends. -/
theorem foregroundStates_publicParticipant {state : RoomState} {row : RosterRow}
    (hrequired : Required state row) (now : Int) :
    foregroundStates.contains
        (publicParticipant row state.attendancePolicy now).attendanceState = true ↔
      Attends now row := by
  have hseen := seenLately_iff row now
  have hattends : Attends now row ↔
      isForeground row.participant.attention = true ∧
        lastSeenAgeMs now row.lastSeenAt ≤ attendanceStaleAfterMs := by
    rw [← hseen]
    constructor
    · intro h
      exact ⟨by simpa [isForeground] using h.foreground, h.seen⟩
    · intro h
      exact ⟨by simpa [isForeground] using h.1, h.2⟩
  rw [hattends]
  simp only [Required] at hrequired
  simp only [publicParticipant, hrequired, Bool.true_and]
  cases hforeground : isForeground row.participant.attention with
  | false => simp [foregroundStates]
  | true =>
    by_cases hage : lastSeenAgeMs now row.lastSeenAt ≤ attendanceStaleAfterMs
    · have hshown : AttendanceState.attention row.participant.attention ∈ foregroundStates := by
        simpa [isForeground, foregroundStates] using hforeground
      simp [hage, Nat.not_lt.mpr hage, hshown]
    · simp [hage, Nat.lt_of_not_le hage, foregroundStates]

theorem required_hostStatusSignal (state : RoomState) (roster : List RosterRow) (now : Int) :
    (hostStatusSignal state roster now).required =
      (roster.filter fun row =>
        isForegroundRequired (state.attendancePolicy.getD .manualOk) row.participant).map
          fun row => attendanceOf (publicParticipant row state.attendancePolicy now) := by
  rw [HostStatusSignal.required, hostStatusSignal, List.filter_map]
  rfl

theorem required_eq_nil (state : RoomState) (roster : List RosterRow) (now : Int) :
    (hostStatusSignal state roster now).required = [] ↔ ∀ row ∈ roster, ¬ Required state row := by
  rw [required_hostStatusSignal, List.map_eq_nil_iff, List.filter_eq_nil_iff]
  rfl

theorem all_required_attend (state : RoomState) (roster : List RosterRow) (now : Int) :
    ((hostStatusSignal state roster now).required.all fun shown =>
        foregroundStates.contains shown.attendanceState) = true ↔
      ∀ row ∈ roster, Required state row → Attends now row := by
  rw [required_hostStatusSignal, List.all_map, List.all_eq_true]
  constructor
  · intro h row hrow hrequired
    exact (foregroundStates_publicParticipant hrequired now).mp
      (h row (List.mem_filter.mpr ⟨hrow, hrequired⟩))
  · intro h row hrow
    obtain ⟨hmem, hrequired⟩ := List.mem_filter.mp hrow
    exact (foregroundStates_publicParticipant hrequired now).mpr (h row hmem hrequired)

/-! ## The derived status -/

/-- The order of the tests, read for the one outcome that reports a room as live. -/
theorem derivePlatformStatus_active (route : RouteHealthSignal) (host : HostStatusSignal) :
    (derivePlatformStatus route host).status = .active ↔
      host.roomStatus = .opened ∧
      (route.registered = true ∧ route.routeStatus ≠ some .closed ∧
        route.routeStatus ≠ some .expired ∧ route.hostConnected = some true) ∧
      host.required ≠ [] ∧
      host.required.all (fun shown => foregroundStates.contains shown.attendanceState) = true := by
  have hopen : host.roomStatus = .opened ↔ host.roomStatus ≠ .closed := by
    cases host.roomStatus <;> simp
  simp only [derivePlatformStatus]
  split_ifs <;> simp_all

theorem derivePlatformStatus_closed (route : RouteHealthSignal) (host : HostStatusSignal) :
    (derivePlatformStatus route host).status = .closed ↔
      (route.registered = true ∧ route.routeStatus = some .closed) ∨
        host.roomStatus = .closed := by
  simp only [derivePlatformStatus]
  split_ifs <;> simp_all

theorem routeSignal_live (o : BrokerOptions) (now : Nat) (found : Option RouteMetadata) :
    ((routeSignalFromMetadata (found.map (refresh o now))).registered = true ∧
        (routeSignalFromMetadata (found.map (refresh o now))).routeStatus ≠ some .closed ∧
        (routeSignalFromMetadata (found.map (refresh o now))).routeStatus ≠ some .expired ∧
        (routeSignalFromMetadata (found.map (refresh o now))).hostConnected = some true) ↔
      ∃ route, found = some route ∧ RouteLive o now route := by
  cases found with
  | none => simp [routeSignalFromMetadata]
  | some route =>
    have hconnected := refresh_hostConnected o now route
    simp only [Option.map_some, routeSignalFromMetadata, Option.some.injEq, hconnected,
      exists_eq_left', true_and, ne_eq]
    constructor
    · intro h
      exact h.2.2
    · intro hlive
      have hactive := (refresh_status_active o now route).mpr
        ⟨hlive.active, hlive.unexpired, hlive.withinLifetime⟩
      exact ⟨by simp [hactive], by simp [hactive], hlive⟩

theorem routeSignal_closed (o : BrokerOptions) (now : Nat) (found : Option RouteMetadata) :
    ((routeSignalFromMetadata (found.map (refresh o now))).registered = true ∧
        (routeSignalFromMetadata (found.map (refresh o now))).routeStatus = some .closed) ↔
      ∃ route, found = some route ∧ route.status = .closed := by
  cases found with
  | none => simp [routeSignalFromMetadata]
  | some route =>
    simp [routeSignalFromMetadata, refresh_status_closed o now route]

/-- A room is reported active exactly when it is open on a live route, somebody has to attend
and everybody who has to does, and closed exactly when the room or its route is closed.  The
broker and the host look at clocks of their own. -/
theorem derivePlatformStatus_real (o : BrokerOptions) (brokerNow : Nat) (hostNow : Int)
    (found : Option RouteMetadata) (state : RoomState) (roster : List RosterRow) :
    let derived := derivePlatformStatus
      (routeSignalFromMetadata (found.map (refresh o brokerNow)))
      (hostStatusSignal state roster hostNow)
    (derived.status = .active ↔
      state.status = .opened ∧
      (∃ route, found = some route ∧ RouteLive o brokerNow route) ∧
      (∃ row ∈ roster, Required state row) ∧
      ∀ row ∈ roster, Required state row → Attends hostNow row) ∧
    (derived.status = .closed ↔
      (∃ route, found = some route ∧ route.status = .closed) ∨ state.status = .closed) := by
  intro derived
  constructor
  · rw [derivePlatformStatus_active, routeSignal_live, all_required_attend, ne_eq,
      required_eq_nil]
    simp only [not_forall, not_not, exists_prop]
    rfl
  · rw [derivePlatformStatus_closed, routeSignal_closed]
    rfl

end AgentGather.Platform
