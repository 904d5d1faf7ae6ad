import AgentGather.Tunnel.Broker

/-!
# Participant traffic

A participant's request is forwarded in steps: the guards admit it, the meter admits it,
its body is read, it is put into the relay queue, and its response comes back.  Hosts and
other participants call the broker between any two of these steps, timers expire, and
time passes.
-/

namespace AgentGather.Tunnel

open AgentGather.Library

/-- What the broker reads of a participant's request before its body. -/
structure ParticipantRequest where
  slug : String
  method : String
  path : String
  headers : List (String × String)
  clientIp : String
  isWait : Bool
  authenticated : Bool
deriving DecidableEq, Repr

def ParticipantRequest.guardInput (req : ParticipantRequest) : RequestGuardInput :=
  ⟨req.slug, req.clientIp, req.isWait, req.authenticated⟩

def ParticipantRequest.envelope (req : ParticipantRequest) (body : Option String) :
    RequestEnvelope := ⟨req.slug, req.method, req.path, req.headers, body⟩

/-- Where a request that was let in stands: at the meter, reading its body, in the relay
queue, at a local target, or over. -/
inductive ForwardStage where
  | admitting
  | reading
  | queued (requestId : String)
  | direct (target : String)
  | ended
deriving DecidableEq, Repr

/-- `admittedUnder` is the route that held the slug when the request came in; nothing
reads it. -/
structure Forward where
  request : ParticipantRequest
  stage : ForwardStage
  admittedUnder : Option String
deriving DecidableEq, Repr

/-- The broker and the requests it was asked to forward so far. -/
structure Traffic where
  broker : Broker
  clock : Nat
  forwards : List Forward

inductive TunnelCall where
  | register (registration : HostRegistration)
  | heartbeat (beat : RouteIdentifiers)
  | claimRelay (ids : RouteIdentifiers)
  | respondRelay (ids : RouteIdentifiers) (requestId : String) (response : ForwardedResponse)
  | closeRoute (request : RouteIdentifiers)
  | resolve (slug : String)
  | snapshot
  | forward (request : ParticipantRequest)
  | metered (index : Nat) (result : Except TunnelError Unit)
  | bodyRead (index : Nat) (body : Except TunnelError (Option String))
  | finish (index : Nat)
  | expire (timer : Nat)
  | timePasses (ms : Nat)

inductive TunnelResult where
  | route (result : Except TunnelError RouteMetadata)
  | claimed (result : Except TunnelError (Option ForwardedRequest))
  | responded (result : Except TunnelError Unit)
  | closed (result : Except TunnelError String)
  | routes (routes : List RouteMetadata)
  | forwarding (result : Except TunnelError Unit)
  | enqueued (requestId slug : String) (admittedUnder : Option String)
  | done

/-- When the call was made, what it returned, and which hooks of the meter it called. -/
structure TunnelReply where
  time : Nat
  result : TunnelResult
  hooks : List MeterCall

namespace Traffic

def initial : Traffic := ⟨.initial, 0, []⟩

def setStage (t : Traffic) (index : Nat) (f : Forward) (stage : ForwardStage) : Traffic :=
  { t with forwards := t.forwards.set index { f with stage } }

/-- A request is over: its place under the limits is free again. -/
def endForward (t : Traffic) (index : Nat) (f : Forward) : Traffic :=
  let t := t.setStage index f .ended
  { t with broker := { t.broker with
      guards := t.broker.guards.release f.request.guardInput } }

/-- `forward` up to the meter. -/
def startForward (o : BrokerOptions) (t : Traffic) (req : ParticipantRequest) :
    Traffic × Except TunnelError Unit :=
  let (guards, admitted) := t.broker.guards.enter o.limits t.clock req.guardInput
  let b := { t.broker with guards }
  match admitted with
  | .error e => ({ t with broker := b }, .error e)
  | .ok () =>
      let admittedUnder := (b.routes.get? req.slug).map (·.routeId)
      let stage := match b.targets.get? req.slug with
        | some target => .direct target
        | none => .admitting
      ({ t with
          broker := b.touch o t.clock req.slug
          forwards := t.forwards ++ [⟨req, stage, admittedUnder⟩] },
        .ok ())

/-- The meter has decided; a host that is not connected is found out before the body is
read. -/
def afterMeter (o : BrokerOptions) (t : Traffic) (index : Nat) (f : Forward) :
    Except TunnelError Unit → Traffic
  | .error _ => t.endForward index f
  | .ok () =>
      let (b, route) := t.broker.currentRoute o t.clock f.request.slug
      let t := { t with broker := b }
      if route.any (·.hostConnected) then t.setStage index f .reading
      else t.endForward index f

/-- The body is read; the request is queued under its slug. -/
def afterBody (o : BrokerOptions) (t : Traffic) (index : Nat) (f : Forward) :
    Except TunnelError (Option String) → Traffic × TunnelResult
  | .error _ => (t.endForward index f, .done)
  | .ok body =>
      let (relay, requestId) := t.broker.relay.enqueue o.relay (mintId o.ids "req")
        f.request.slug (f.request.envelope body)
      ({ t with broker := { t.broker with relay } }.setStage index f (.queued requestId),
        .enqueued requestId f.request.slug f.admittedUnder)

/-- The call, with what it returns. -/
def call (o : BrokerOptions) (t : Traffic) : TunnelCall → Traffic × TunnelResult
  | .register registration =>
      let (b, result) := t.broker.register o t.clock registration
      ({ t with broker := b }, .route result)
  | .heartbeat beat =>
      let (b, result) := t.broker.heartbeat o t.clock beat
      ({ t with broker := b }, .route result)
  | .claimRelay ids =>
      let (b, result) := t.broker.claimRelay o t.clock ids
      ({ t with broker := b }, .claimed result)
  | .respondRelay ids requestId response =>
      let (b, result) := t.broker.respondRelay o t.clock ids requestId response
      ({ t with broker := b }, .responded result)
  | .closeRoute request =>
      let (b, result) := t.broker.closeRoute o t.clock request
      ({ t with broker := b }, .closed result)
  | .resolve slug =>
      let (b, result) := t.broker.resolve o t.clock slug
      ({ t with broker := b }, .route result)
  | .snapshot =>
      let (b, routes) := t.broker.snapshot o t.clock
      ({ t with broker := b }, .routes routes)
  | .forward request =>
      let (t, result) := t.startForward o request
      (t, .forwarding result)
  | .metered index result =>
      match t.forwards[index]? with
      | some f => if f.stage = .admitting then (t.afterMeter o index f result, .done)
          else (t, .done)
      | none => (t, .done)
  | .bodyRead index body =>
      match t.forwards[index]? with
      | some f => if f.stage = .reading then t.afterBody o index f body else (t, .done)
      | none => (t, .done)
  | .finish index =>
      match t.forwards[index]? with
      | some f =>
          match f.stage with
          | .queued requestId =>
              if requestId ∈ t.broker.relay.settlements.map Prod.fst then
                (t.endForward index f, .done)
              else (t, .done)
          | .direct _ => (t.endForward index f, .done)
          | _ => (t, .done)
      | none => (t, .done)
  | .expire timer =>
      ({ t with broker := { t.broker with relay := t.broker.relay.expire timer } }, .done)
  | .timePasses ms => ({ t with clock := t.clock + ms }, .done)

end Traffic

/-- One broker, with calls in any order. -/
def tunnelMachine (o : BrokerOptions) : Machine Traffic TunnelCall TunnelReply where
  init := .initial
  step t c :=
    let (t', result) := t.call o c
    (t', ⟨t.clock, result,
      t'.broker.metered.take (t'.broker.metered.length - t.broker.metered.length)⟩)

end AgentGather.Tunnel
