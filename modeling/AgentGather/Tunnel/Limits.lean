import AgentGather.Library.OrderedMap
import AgentGather.Tunnel.Protocol

/-!
# Broker limits

The broker's admission guards: windows that count requests of a route and of an address,
and how many requests and waits of a route are being forwarded.
-/

namespace AgentGather.Tunnel

open AgentGather.Library

structure BrokerLimits where
  concurrentRequestsPerRoute : Nat
  concurrentWaitsPerRoute : Nat
  requestBodyBytes : Nat
  responseBodyBytes : Nat
  idleTimeoutMs : Nat
  maxRouteLifetimeMs : Nat
  unauthenticatedPerIpPerMinute : Nat
  requestsPerRoutePerMinute : Nat
deriving DecidableEq, Repr

def brokerLimits : BrokerLimits where
  concurrentRequestsPerRoute := 64
  concurrentWaitsPerRoute := 32
  requestBodyBytes := 64 * 1024
  responseBodyBytes := 1024 * 1024
  idleTimeoutMs := 15 * 60000
  maxRouteLifetimeMs := 8 * 60 * 60000
  unauthenticatedPerIpPerMinute := 60
  requestsPerRoutePerMinute := 600

def rateWindowMs : Nat := 60000

/-- Requests of a route being forwarded, and how many of them are waits. -/
structure RouteLoad where
  total : Nat
  waits : Nat
deriving DecidableEq, Repr

structure RateWindow where
  resetAt : Nat
  count : Nat
deriving DecidableEq, Repr

structure BrokerGuards where
  inflight : OrderedMap String RouteLoad
  routeRate : OrderedMap String RateWindow
  ipRate : OrderedMap String RateWindow

structure RequestGuardInput where
  routeSlug : String
  clientIp : String
  isWait : Bool
  authenticated : Bool
deriving DecidableEq, Repr

def limitError (code : TunnelErrorCode) (message : String) : TunnelError :=
  ⟨code, if code = .requestTooLarge then 413 else 429, message⟩

def rateLimited : TunnelError := limitError .rateLimited "request rate limit exceeded"

/-- Count a request in the window of its key; a window that is over begins anew. -/
def admitRate (windows : OrderedMap String RateWindow) (key : String) (perMinute now : Nat) :
    OrderedMap String RateWindow × Except TunnelError Unit :=
  match windows.get? key with
  | none => (windows.set key ⟨now + rateWindowMs, 1⟩, .ok ())
  | some window =>
      if window.resetAt ≤ now then (windows.set key ⟨now + rateWindowMs, 1⟩, .ok ())
      else if perMinute ≤ window.count then (windows, .error rateLimited)
      else (windows.set key { window with count := window.count + 1 }, .ok ())

namespace BrokerGuards

def initial : BrokerGuards := ⟨.empty, .empty, .empty⟩

/-- The rate windows, of the route first. -/
def enterRates (limits : BrokerLimits) (g : BrokerGuards) (now : Nat)
    (input : RequestGuardInput) : BrokerGuards × Except TunnelError Unit :=
  let (routeRate, admitted) :=
    admitRate g.routeRate input.routeSlug limits.requestsPerRoutePerMinute now
  let g := { g with routeRate }
  match admitted with
  | .error e => (g, .error e)
  | .ok () =>
      if input.authenticated then (g, .ok ())
      else
        let (ipRate, admitted) :=
          admitRate g.ipRate input.clientIp limits.unauthenticatedPerIpPerMinute now
        ({ g with ipRate }, admitted)

/-- The rates count also the requests that the concurrency limits then reject. -/
def enter (limits : BrokerLimits) (g : BrokerGuards) (now : Nat) (input : RequestGuardInput) :
    BrokerGuards × Except TunnelError Unit :=
  let (g, admitted) := g.enterRates limits now input
  match admitted with
  | .error e => (g, .error e)
  | .ok () =>
      let counts := (g.inflight.get? input.routeSlug).getD ⟨0, 0⟩
      if limits.concurrentRequestsPerRoute ≤ counts.total then
        (g, .error (limitError .routeRequestLimit
          "too many concurrent requests for this route"))
      else if input.isWait ∧ limits.concurrentWaitsPerRoute ≤ counts.waits then
        (g, .error (limitError .waitLimit
          "too many concurrent wait requests for this route"))
      else
        let waits := if input.isWait then counts.waits + 1 else counts.waits
        ({ g with inflight := g.inflight.set input.routeSlug ⟨counts.total + 1, waits⟩ },
          .ok ())

/-- The release handle, called for the first time. -/
def release (g : BrokerGuards) (input : RequestGuardInput) : BrokerGuards :=
  match g.inflight.get? input.routeSlug with
  | none => g
  | some current =>
      let total := current.total - 1
      let waits := if input.isWait then current.waits - 1 else current.waits
      { g with
        inflight :=
          if total = 0 ∧ waits = 0 then g.inflight.delete input.routeSlug
          else g.inflight.set input.routeSlug ⟨total, waits⟩ }

end BrokerGuards

end AgentGather.Tunnel
