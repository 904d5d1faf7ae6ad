import AgentGather.Library.Machine
import AgentGather.Library.OrderedMap
import AgentGather.Tunnel.Protocol

/-!
# The relay queue

The hub of in-flight participant requests: each waits in the queue of its slug until the
host claims it, and then for the host's response.  One replaceable timer stands behind
every request.  `settlements` records the calls of the promises' `resolve` and `reject`,
the latest first.
-/

namespace AgentGather.Tunnel

open AgentGather.Library

structure RelayOptions where
  claimTimeoutMs : Nat
  responseTimeoutMs : Nat
  responseBodyBytes : Nat

/-- How a request's promise was settled. -/
inductive Settlement where
  | resolved (response : ForwardedResponse)
  | rejected (error : TunnelError)
deriving DecidableEq, Repr

/-- An armed timer: when it expires, the request fails with the error. -/
structure RelayTimer where
  requestId : String
  delayMs : Nat
  error : TunnelError
deriving DecidableEq, Repr

structure InFlight where
  request : ForwardedRequest
  slug : String
  claimed : Bool
  timer : Nat
deriving DecidableEq, Repr

/-- `timersSet` and `minted` count the timers set and the ids minted so far. -/
structure RelayHub where
  pending : OrderedMap String (List String)
  inflight : OrderedMap String InFlight
  timers : OrderedMap Nat RelayTimer
  timersSet : Nat
  minted : Nat
  settlements : List (String × Settlement)

def didNotAttend : TunnelError :=
  ⟨.hostUnavailable, 504, "host tunnel did not attend the request"⟩

def didNotRespond : TunnelError :=
  ⟨.hostUnavailable, 504, "host tunnel did not respond in time"⟩

def unknownRequest : TunnelError :=
  ⟨.unknownRequest, 404, "no in-flight request for this id"⟩

def responseTooLarge : TunnelError :=
  ⟨.responseTooLarge, 502, "forwarded response exceeds the broker limit"⟩

def routeClosed : TunnelError := ⟨.routeClosed, 410, "this route has been closed"⟩

namespace RelayHub

def initial : RelayHub := ⟨.empty, .empty, .empty, 0, 0, []⟩

/-- The request is queued and its claim timer set. -/
def enqueue (o : RelayOptions) (mint : IdSupply) (h : RelayHub) (slug : String)
    (envelope : RequestEnvelope) : RelayHub × String :=
  let requestId := mint.id h.minted
  ({ h with
      minted := h.minted + 1
      timers := h.timers.set h.timersSet ⟨requestId, o.claimTimeoutMs, didNotAttend⟩
      timersSet := h.timersSet + 1
      inflight := h.inflight.set requestId ⟨⟨requestId, envelope⟩, slug, false, h.timersSet⟩
      pending := h.pending.set slug ((h.pending.get? slug).getD [] ++ [requestId]) },
    requestId)

/-- An emptied queue is not kept. -/
def storeQueue (slug : String) (queue : List String)
    (pending : OrderedMap String (List String)) : OrderedMap String (List String) :=
  if queue.isEmpty then pending.delete slug else pending.set slug queue

/-- The request is claimed, and the response timer set in place of the claim timer. -/
def take (o : RelayOptions) (h : RelayHub) (slug requestId : String) (item : InFlight)
    (queue : List String) : RelayHub :=
  { h with
    inflight := h.inflight.set requestId { item with claimed := true, timer := h.timersSet }
    timers := (h.timers.delete item.timer).set h.timersSet
      ⟨requestId, o.responseTimeoutMs, didNotRespond⟩
    timersSet := h.timersSet + 1
    pending := storeQueue slug queue h.pending }

/-- `claim` at a queue: ids that are not in flight, or claimed already, are passed over. -/
def claimQueue (o : RelayOptions) (h : RelayHub) (slug : String) :
    List String → RelayHub × Option ForwardedRequest
  | [] => ({ h with pending := h.pending.delete slug }, none)
  | requestId :: queue =>
      match h.inflight.get? requestId with
      | none => claimQueue o h slug queue
      | some item =>
          if item.claimed then claimQueue o h slug queue
          else (h.take o slug requestId item queue, some item.request)

def claim (o : RelayOptions) (h : RelayHub) (slug : String) :
    RelayHub × Option ForwardedRequest :=
  match h.pending.get? slug with
  | none => (h, none)
  | some queue => claimQueue o h slug queue

def remove (h : RelayHub) (requestId : String) : RelayHub :=
  match h.inflight.get? requestId with
  | none => h
  | some item =>
      { h with
        inflight := h.inflight.delete requestId
        pending := match h.pending.get? item.slug with
          | none => h.pending
          | some queue => storeQueue item.slug (queue.erase requestId) h.pending }

/-- Clear the timer of a request that is in flight, forget the request, settle it. -/
def settle (h : RelayHub) (requestId : String) (item : InFlight) (settlement : Settlement) :
    RelayHub :=
  let h := remove { h with timers := h.timers.delete item.timer } requestId
  { h with settlements := (requestId, settlement) :: h.settlements }

def fail (h : RelayHub) (requestId : String) (error : TunnelError) : RelayHub :=
  match h.inflight.get? requestId with
  | none => h
  | some item => h.settle requestId item (.rejected error)

def respond (o : RelayOptions) (h : RelayHub) (requestId : String)
    (response : ForwardedResponse) : RelayHub × Except TunnelError Unit :=
  match h.inflight.get? requestId with
  | none => (h, .error unknownRequest)
  | some item =>
      if o.responseBodyBytes < (response.bodyBase64.map base64ByteLength).getD 0 then
        (h.fail requestId responseTooLarge, .error responseTooLarge)
      else (h.settle requestId item (.resolved response), .ok ())

/-- Every request of the slug that was in flight when the loop began. -/
def closeRoute (h : RelayHub) (slug : String) : RelayHub :=
  h.inflight.entries.foldl
    (fun h e => if e.2.slug = slug then h.fail e.1 routeClosed else h) h

/-- A timer expires; one that was cleared does not. -/
def expire (h : RelayHub) (timer : Nat) : RelayHub :=
  match h.timers.get? timer with
  | none => h
  | some task => fail { h with timers := h.timers.delete timer } task.requestId task.error

end RelayHub

inductive RelayCall where
  | enqueue (slug : String) (envelope : RequestEnvelope)
  | claim (slug : String)
  | respond (requestId : String) (response : ForwardedResponse)
  | closeRoute (slug : String)
  | expire (timer : Nat)

inductive RelayReply where
  | enqueued (requestId : String)
  | claimed (request : Option ForwardedRequest)
  | responded (result : Except TunnelError Unit)
  | done

/-- One hub, its methods called and its timers expiring in any order. -/
def relayMachine (o : RelayOptions) (mint : IdSupply) :
    Machine RelayHub RelayCall RelayReply where
  init := .initial
  step h
    | .enqueue slug envelope =>
        let (h, requestId) := h.enqueue o mint slug envelope
        (h, .enqueued requestId)
    | .claim slug =>
        let (h, request) := h.claim o slug
        (h, .claimed request)
    | .respond requestId response =>
        let (h, result) := h.respond o requestId response
        (h, .responded result)
    | .closeRoute slug => (h.closeRoute slug, .done)
    | .expire timer => (h.expire timer, .done)

end AgentGather.Tunnel
