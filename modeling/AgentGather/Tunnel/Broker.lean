import AgentGather.Library.Regex
import AgentGather.Tunnel.Limits
import AgentGather.Tunnel.Relay

/-!
# The tunnel broker

Routes by slug, their expiry, and the forwarding of participant requests.  Every method
of the broker is one step, with one reading of the clock; a forwarded request is a
sequence of such steps, between which other calls come.  `metered` records the calls of
the meter's lifecycle hooks, the latest first.
-/

namespace AgentGather.Tunnel

open AgentGather.Library

/-- What the broker reads of a parsed URL. -/
structure TargetUrl where
  protocol : String
  hostname : String
deriving DecidableEq, Repr

/-- `ids` is where the random part of every id comes from, and `parseUrl` is
`new URL`. -/
structure BrokerOptions where
  routeTtlMs : Nat
  maxRouteLifetimeMs : Nat
  hostGraceMs : Nat
  claimTimeoutMs : Nat
  responseTimeoutMs : Nat
  limits : BrokerLimits
  ids : IdSupply
  parseUrl : String → Option TargetUrl

def BrokerOptions.relay (o : BrokerOptions) : RelayOptions :=
  ⟨o.claimTimeoutMs, o.responseTimeoutMs, o.limits.responseBodyBytes⟩

/-- `mintId(kind)`. -/
def mintId (ids : IdSupply) (kind : String) : IdSupply where
  id n := kind ++ "_" ++ ids.id n
  injective := by
    intro m n h
    apply ids.injective
    have hlists := congrArg String.toList h
    simp only [String.toList_append] at hlists
    exact String.toList_injective (List.append_cancel_left hlists)

/-- A call of the meter about the life of a public route. -/
inductive MeterCall where
  | routeRegistered (slug : String)
  | routeClosed (slug : String) (durationMs : Nat)
deriving DecidableEq, Repr

/-- `minted` counts the ids of routes and connections. -/
structure Broker where
  routes : OrderedMap String RouteMetadata
  targets : OrderedMap String String
  relay : RelayHub
  guards : BrokerGuards
  minted : Nat
  metered : List MeterCall

def Broker.initial : Broker := ⟨.empty, .empty, .initial, .initial, 0, []⟩

/-! ## Registration -/

def isSlugEnd (c : Char) : Bool := Text.isLower c || Text.isDigit c

def isSlugMiddle (c : Char) : Bool := isSlugEnd c || c == '-'

/-- `/^[a-z0-9](?:[a-z0-9-]{0,61}[a-z0-9])?$/`. -/
def slugPattern : Regex Char :=
  .seq .start (.seq (.char isSlugEnd)
    (.seq (.opt (.seq (.between (.char isSlugMiddle) 0 61) (.char isSlugEnd))) .stop))

def localTargetHosts : List String := ["127.0.0.1", "localhost", "::1", "[::1]"]

def assertLocalTarget (o : BrokerOptions) (target : String) : Except TunnelError Unit :=
  match o.parseUrl target with
  | none => .error ⟨.invalidRegistration, 400, "target is not a valid URL"⟩
  | some url =>
      if url.protocol ≠ "http:" ∧ url.protocol ≠ "https:" then
        .error ⟨.invalidRegistration, 400, "target must use http or https"⟩
      else if url.hostname ∉ localTargetHosts then
        .error ⟨.invalidRegistration, 400, "target must be a local address"⟩
      else .ok ()

/-- The slug of a registration that may be tried. -/
def checkRegistration (o : BrokerOptions) (registration : HostRegistration) :
    Except TunnelError String := do
  match registration.routeSlug with
  | none => throw ⟨.invalidRegistration, 400, "route slug is missing or malformed"⟩
  | some slug =>
      if slugPattern.test slug.toList = false then
        throw ⟨.invalidRegistration, 400, "route slug is missing or malformed"⟩
      match registration.target with
      | some target => assertLocalTarget o target
      | none => pure ()
      return slug

/-- A route whose idle time or lifetime is over expires; whether its host is connected is
always computed anew. -/
def refresh (o : BrokerOptions) (now : Nat) (route : RouteMetadata) : RouteMetadata :=
  let status :=
    if route.status = .active ∧
        (route.expiresAt ≤ now ∨ route.createdAt + o.maxRouteLifetimeMs ≤ now) then .expired
    else route.status
  { route with
    status
    hostConnected := status = .active && now - route.lastHeartbeatAt ≤ o.hostGraceMs }

/-- A heartbeat moves the route's instants on. -/
def RouteMetadata.beaten (o : BrokerOptions) (now : Nat) (route : RouteMetadata) :
    RouteMetadata :=
  { route with lastSeenAt := now, expiresAt := now + o.routeTtlMs, lastHeartbeatAt := now }

namespace Broker

/-- A route object that changed, where it is kept. -/
def update (b : Broker) (route : RouteMetadata) : Broker :=
  { b with routes := b.routes.set route.routeSlug route }

def currentRoute (o : BrokerOptions) (b : Broker) (now : Nat) (slug : String) :
    Broker × Option RouteMetadata :=
  match b.routes.get? slug with
  | none => (b, none)
  | some route => (b.update (refresh o now route), some (refresh o now route))

/-- The route that a registration creates. -/
def newRoute (o : BrokerOptions) (b : Broker) (now : Nat) (slug : String) : RouteMetadata where
  routeSlug := slug
  routeId := (mintId o.ids "rte").id b.minted
  hostConnectionId := (mintId o.ids "conn").id (b.minted + 1)
  createdAt := now
  lastSeenAt := now
  lastHeartbeatAt := now
  expiresAt := now + o.routeTtlMs
  status := .active
  hostConnected := true

/-- `register` behind its checks: the slug's previous route, if any, is gone. -/
def install (b : Broker) (existing : Bool) (route : RouteMetadata) (target : Option String) :
    Broker :=
  { b with
    relay := if existing then b.relay.closeRoute route.routeSlug else b.relay
    minted := b.minted + 2
    routes := b.routes.set route.routeSlug route
    targets := match target with
      | some target => b.targets.set route.routeSlug target
      | none => b.targets.delete route.routeSlug
    metered := match target with
      | some _ => b.metered
      | none => .routeRegistered route.routeSlug :: b.metered }

def register (o : BrokerOptions) (b : Broker) (now : Nat) (registration : HostRegistration) :
    Broker × Except TunnelError RouteMetadata :=
  match checkRegistration o registration with
  | .error e => (b, .error e)
  | .ok slug =>
      let (b, existing) := b.currentRoute o now slug
      if existing.any fun route => route.status = .active && route.hostConnected then
        (b, .error ⟨.routeSlugTaken, 409, "an active host already holds this slug"⟩)
      else
        let route := b.newRoute o now slug
        (b.install existing.isSome route registration.target, .ok route)

/-! ## The host's calls -/

/-- The identifiers are those of the route. -/
def names (ids : RouteIdentifiers) (route : RouteMetadata) : Bool :=
  ids.routeId = some route.routeId && ids.hostConnectionId = some route.hostConnectionId

/-- The registered route with these identifiers, as it is stored. -/
def findRoute (b : Broker) (ids : RouteIdentifiers) : Option RouteMetadata :=
  b.routes.values.find? (names ids)

def routeNotFound : TunnelError :=
  ⟨.routeNotFound, 404, "no route matches these identifiers"⟩

def findByConnection (o : BrokerOptions) (b : Broker) (now : Nat) (ids : RouteIdentifiers) :
    Broker × Except TunnelError RouteMetadata :=
  match b.findRoute ids with
  | none => (b, .error routeNotFound)
  | some route => (b.update (refresh o now route), .ok (refresh o now route))

def routeExpired : TunnelError := ⟨.routeExpired, 410, "this route has expired"⟩

def heartbeat (o : BrokerOptions) (b : Broker) (now : Nat) (beat : RouteIdentifiers) :
    Broker × Except TunnelError RouteMetadata :=
  if beat.routeId = none ∨ beat.hostConnectionId = none then
    (b, .error ⟨.invalidHeartbeat, 400, "heartbeat is missing route identifiers"⟩)
  else
    match b.findByConnection o now beat with
    | (b, .error e) => (b, .error e)
    | (b, .ok route) =>
        match route.status with
        | .closed => (b, .error routeClosed)
        | .expired => (b, .error routeExpired)
        | .active =>
            let route := refresh o now (route.beaten o now)
            (b.update route, .ok route)

/-- `closeRoute` at the route found.  Whether it was public is read off the targets before
its own is dropped. -/
def shut (b : Broker) (now : Nat) (route : RouteMetadata) : Broker :=
  { b.update { route with status := .closed } with
    targets := b.targets.delete route.routeSlug
    relay := b.relay.closeRoute route.routeSlug
    metered :=
      if (b.targets.get? route.routeSlug).isNone then
        .routeClosed route.routeSlug (now - route.createdAt) :: b.metered
      else b.metered }

def closeRoute (o : BrokerOptions) (b : Broker) (now : Nat) (request : RouteIdentifiers) :
    Broker × Except TunnelError String :=
  match b.findByConnection o now request with
  | (b, .error e) => (b, .error e)
  | (b, .ok route) => (b.shut now route, .ok route.routeSlug)

/-- An active route was seen; its idle time begins anew. -/
def touch (o : BrokerOptions) (b : Broker) (now : Nat) (slug : String) : Broker :=
  match b.routes.get? slug with
  | none => b
  | some route =>
      if route.status = .active then
        b.update { route with lastSeenAt := now, expiresAt := now + o.routeTtlMs }
      else b

def claimRelay (o : BrokerOptions) (b : Broker) (now : Nat) (ids : RouteIdentifiers) :
    Broker × Except TunnelError (Option ForwardedRequest) :=
  match b.findByConnection o now ids with
  | (b, .error e) => (b, .error e)
  | (b, .ok route) =>
      match route.status with
      | .closed => (b, .error ⟨.routeClosed, 410, "route is not active"⟩)
      | .expired => (b, .error ⟨.routeExpired, 410, "route is not active"⟩)
      | .active =>
          let b := (b.update { route with lastHeartbeatAt := now }).touch o now route.routeSlug
          let (relay, request) := b.relay.claim o.relay route.routeSlug
          ({ b with relay }, .ok request)

/-- The identifiers must be those of a route; which one is not looked at. -/
def respondRelay (o : BrokerOptions) (b : Broker) (now : Nat) (ids : RouteIdentifiers)
    (requestId : String) (response : ForwardedResponse) : Broker × Except TunnelError Unit :=
  match b.findByConnection o now ids with
  | (b, .error e) => (b, .error e)
  | (b, .ok _) =>
      let (relay, result) := b.relay.respond o.relay requestId response
      ({ b with relay }, result)

/-! ## Looking routes up -/

def resolve (o : BrokerOptions) (b : Broker) (now : Nat) (slug : String) :
    Broker × Except TunnelError RouteMetadata :=
  match b.currentRoute o now slug with
  | (b, none) =>
      (b, .error ⟨.routeNotFound, 404, "no route is registered for this slug"⟩)
  | (b, some route) =>
      match route.status with
      | .closed => (b, .error routeClosed)
      | .expired => (b, .error routeExpired)
      | .active => (b, .ok route)

/-- Every stored route, refreshed. -/
def snapshot (o : BrokerOptions) (b : Broker) (now : Nat) : Broker × List RouteMetadata :=
  let b := b.routes.values.foldl (fun b route => b.update (refresh o now route)) b
  (b, b.routes.values)

end Broker

end AgentGather.Tunnel
