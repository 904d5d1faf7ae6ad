import AgentGather.Protocol.Types

/-!
# Attention modes and attendance policies

A participant declares the modes it supports, the host requests one, and the effective
mode is the most capable supported one that does not exceed the request.
-/

namespace AgentGather.Protocol

def attentionModes : List AttentionMode :=
  [.foregroundAttended, .wakeOnEvent, .heartbeat, .manual]

def AttentionMode.name : AttentionMode → String
  | .foregroundAttended => "foreground_attended"
  | .wakeOnEvent => "wake_on_event"
  | .heartbeat => "heartbeat"
  | .manual => "manual"

def parseAttentionMode (value : String) : Except Failure AttentionMode :=
  match attentionModes.find? fun mode => mode.name == value with
  | some mode => .ok mode
  | none => .error (.error
      "attention mode must be one of: foreground_attended, wake_on_event, heartbeat, manual")

/-- 0 is the most capable mode, 3 the least. -/
def attentionRank (mode : AttentionMode) : Nat := attentionModes.idxOf mode

/-- Without repetitions, from most to least capable. -/
def sortModes (modes : List AttentionMode) : List AttentionMode :=
  attentionModes.filter modes.contains

def normalizeSupportedModes (modes : List String) : Except Failure (List AttentionMode) := do
  return sortModes (← modes.mapM parseAttentionMode)

def negotiateEffectiveMode (supported : List AttentionMode) (requested : AttentionMode) :
    AttentionMode :=
  let best := supported.foldl (fun best mode =>
    if attentionRank mode < attentionRank requested then best
    else match best with
      | none => some mode
      | some b => if attentionRank mode < attentionRank b then some mode else some b) none
  best.getD .manual

/-- What `withNegotiatedAttention` of the server writes into the record. -/
def negotiateParticipantAttention (participant : Participant) : Participant :=
  let supported := sortModes (participant.supportedModes.getD [])
  let requested := participant.requestedMode.getD .foregroundAttended
  { participant with
    supportedModes := some supported
    requestedMode := some requested
    effectiveMode := some (negotiateEffectiveMode supported requested) }

def attendancePolicies : List AttendancePolicy :=
  [.manualOk, .agentsForeground, .allForeground, .hostDirected]

def AttendancePolicy.name : AttendancePolicy → String
  | .manualOk => "manual-ok"
  | .agentsForeground => "agents-foreground"
  | .allForeground => "all-foreground"
  | .hostDirected => "host-directed"

def parseAttendancePolicy (value : String) : Except Failure AttendancePolicy :=
  match attendancePolicies.find? fun policy => policy.name == value with
  | some policy => .ok policy
  | none => .error (.error ("attendance policy must be one of: " ++
      ", ".intercalate (attendancePolicies.map (·.name))))

end AgentGather.Protocol
