import AgentGather.Library.Text

/-!
# The tunnel protocol

What a host tunnel client, the broker and its participants exchange.  Instants are
milliseconds; their ISO text on the wire is an exact encoding of them.
-/

namespace AgentGather.Tunnel

open AgentGather.Library

inductive RouteStatus where
  | active
  | expired
  | closed
deriving DecidableEq, Repr

inductive TunnelErrorCode where
  | invalidRegistration
  | routeSlugTaken
  | invalidHeartbeat
  | routeNotFound
  | routeExpired
  | routeClosed
  | brokerUnreachable
  | unsupportedRoute
  | routeRequestLimit
  | waitLimit
  | rateLimited
  | requestTooLarge
  | responseTooLarge
  | hostUnavailable
  | unknownRequest
  | quotaExceeded
  | internalError
deriving DecidableEq, Repr

/-- A code on the wire. -/
def TunnelErrorCode.text : TunnelErrorCode → String
  | .invalidRegistration => "invalid_registration"
  | .routeSlugTaken => "route_slug_taken"
  | .invalidHeartbeat => "invalid_heartbeat"
  | .routeNotFound => "route_not_found"
  | .routeExpired => "route_expired"
  | .routeClosed => "route_closed"
  | .brokerUnreachable => "broker_unreachable"
  | .unsupportedRoute => "unsupported_route"
  | .routeRequestLimit => "route_request_limit"
  | .waitLimit => "wait_limit"
  | .rateLimited => "rate_limited"
  | .requestTooLarge => "request_too_large"
  | .responseTooLarge => "response_too_large"
  | .hostUnavailable => "host_unavailable"
  | .unknownRequest => "unknown_request"
  | .quotaExceeded => "quota_exceeded"
  | .internalError => "internal_error"

structure TunnelError where
  code : TunnelErrorCode
  status : Nat
  message : String
deriving DecidableEq, Repr

/-- The only state the broker keeps of a route. -/
structure RouteMetadata where
  routeSlug : String
  routeId : String
  hostConnectionId : String
  createdAt : Nat
  lastSeenAt : Nat
  lastHeartbeatAt : Nat
  expiresAt : Nat
  status : RouteStatus
  hostConnected : Bool
deriving DecidableEq, Repr

/-- `routeSlug` is absent when it is not a string. -/
structure HostRegistration where
  routeSlug : Option String
  target : Option String
deriving DecidableEq, Repr

/-- What a host names its route by; a part is absent when it is not a string. -/
structure RouteIdentifiers where
  routeId : Option String
  hostConnectionId : Option String
deriving DecidableEq, Repr

/-- A participant's request as the host claims it, without its id. -/
structure RequestEnvelope where
  routeSlug : String
  method : String
  path : String
  headers : List (String × String)
  bodyBase64 : Option String
deriving DecidableEq, Repr

structure ForwardedRequest where
  requestId : String
  envelope : RequestEnvelope
deriving DecidableEq, Repr

structure ForwardedResponse where
  status : Nat
  headers : List (String × String)
  bodyBase64 : Option String
deriving DecidableEq, Repr

/-- `Buffer.byteLength(text, "base64")`, given the text's last character and the one
before it: padding does not count. -/
def base64ByteLength (text : String) : Nat :=
  let length := Text.utf16Length text.toList
  let (last, beforeLast) := match text.toList.reverse with
    | [] => (none, none)
    | [c] => (some c, none)
    | c :: d :: _ => (some c, if Text.codeUnits c = 1 then some d else none)
  let bytes := if last = some '=' then length - 1 else length
  let bytes := if 1 < bytes ∧ beforeLast = some '=' then bytes - 1 else bytes
  bytes * 3 / 4

/-- Ids that are minted one after the other and never repeat. -/
structure IdSupply where
  id : Nat → String
  injective : Function.Injective id

/-- Every id of the same letter, each longer than the one before. -/
def IdSupply.letters (c : Char) : IdSupply where
  id n := String.ofList (List.replicate n c)
  injective := by
    intro m n h
    have hlists := String.ofList_injective h
    simpa using congrArg List.length hlists

end AgentGather.Tunnel
