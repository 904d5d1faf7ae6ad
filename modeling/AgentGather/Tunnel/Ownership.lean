import AgentGather.Tunnel.Runs

/-!
# Whose response settles a request

A host is known by the identifiers of its route, a request by its id.  Nothing ties the
two together when a response comes in, so what settles a request is the response of its
own host exactly as long as no host answers a request of another slug.
-/

namespace AgentGather.Tunnel

open AgentGather.Library

/-- The response settled the request it named. -/
def Settling : Except TunnelError Unit → Prop
  | .ok _ => True
  | .error e => e = responseTooLarge

/-- Every response that settled a request came with the identifiers of the route that was
registered for the request's slug. -/
def Owned : List TunnelEvent → Prop
  | [] => True
  | (.respondRelay ids id _, ⟨_, .responded result, _⟩) :: es =>
      (Settling result → ∀ slug, id ∈ queuedFor slug es →
        ∃ route, registered slug es = some route ∧ Broker.names ids route = true) ∧ Owned es
  | _ :: es => Owned es

/-- Requests are resolved by the responses of their hosts, and by nothing else. -/
structure ResolvedByOwner (t : Traffic) (es : List TunnelEvent) : Prop where
  responded : ∀ id response, (id, .resolved response) ∈ t.broker.relay.settlements →
    ∃ ids time hooks,
      (.respondRelay ids id response, ⟨time, .responded (.ok ()), hooks⟩) ∈ es
  owned : Owned es

/-- A request that is in flight is answered only with the identifiers of a route of its own
slug. -/
def answersOwn (t : Traffic) : TunnelCall → Prop
  | .respondRelay ids id _ => ∀ route ∈ t.broker.findRoute ids,
      ∀ item ∈ t.broker.relay.inflight.get? id, item.slug = route.routeSlug
  | _ => True

instance (t : Traffic) (c : TunnelCall) : Decidable (answersOwn t c) :=
  match c with
  | .respondRelay _ _ _ =>
      inferInstanceAs (Decidable (∀ route ∈ _, ∀ item ∈ _, _ = _))
  | .register _ | .heartbeat _ | .claimRelay _ | .closeRoute _ | .resolve _ | .snapshot
  | .forward _ | .metered _ _ | .bodyRead _ _ | .finish _ | .expire _
  | .timePasses _ => isTrue trivial

theorem namesRoute_iff {ids : RouteIdentifiers} {route : RouteMetadata} :
    Broker.names ids route = true ↔
      ids.routeId = some route.routeId ∧ ids.hostConnectionId = some route.hostConnectionId := by
  simp [Broker.names]

/-- Whoever names a route names it still when it has moved on. -/
theorem Succeeds.names {ids : RouteIdentifiers} {r r' : RouteMetadata} (h : Succeeds r r') :
    Broker.names ids r' = true ↔ Broker.names ids r = true := by
  rw [namesRoute_iff, namesRoute_iff, h.id, h.connection]

section

variable {o : BrokerOptions} {t t' : Traffic} {es : List TunnelEvent}

/-- Identifiers of a stored route name the registered route of its slug and of no other. -/
theorem BrokerInv.names_registered (hinv : BrokerInv o t es) {ids : RouteIdentifiers}
    {route : RouteMetadata} (hfind : t.broker.findRoute ids = some route) (slug : String) :
    (∃ first, registered slug es = some first ∧ Broker.names ids first = true) ↔
      slug = route.routeSlug := by
  obtain ⟨hnames, s, hs⟩ := findRoute_some hfind
  obtain ⟨first, hfirst, hsucceeds⟩ := hinv.stored hs
  have hslug : route.routeSlug = s := hinv.wellKeyed s route hs
  constructor
  · rintro ⟨other, hother, hnames'⟩
    have hid : other.routeId = first.routeId := by
      have hids := (namesRoute_iff.mp hnames').1.symm.trans (namesRoute_iff.mp hnames).1
      exact (Option.some.inj hids).trans hsucceeds.id
    have hsame : other = first :=
      List.inj_on_of_nodup_map hinv.distinct (registered_some hother).1
        (registered_some hfirst).1 hid
    rw [← (registered_some hother).2, hsame, (registered_some hfirst).2, hslug]
  · rintro rfl
    rw [hslug]
    exact ⟨first, hfirst, hsucceeds.names.mp hnames⟩

/-- One response is its owner's exactly when it answers a request of the slug of the route
that it came with. -/
theorem BrokerInv.owned_respond (hinv : BrokerInv o t es) (ids : RouteIdentifiers)
    (id : String) (response : ForwardedResponse) :
    (Settling (t.broker.respondRelay o t.clock ids id response).2 →
      ∀ slug, id ∈ queuedFor slug es →
        ∃ route, registered slug es = some route ∧ Broker.names ids route = true) ↔
      answersOwn t (.respondRelay ids id response) := by
  obtain ⟨C, hrelay, -⟩ := hinv.relay
  show _ ↔ ∀ route ∈ t.broker.findRoute ids,
    ∀ item ∈ t.broker.relay.inflight.get? id, item.slug = route.routeSlug
  rcases respondRelay_cases (b := t.broker) (o := o) (n := t.clock) ids id response with
    ⟨hnone, heq⟩ | ⟨-, route, -, -, hfind, heq⟩
  · rw [heq, hnone]
    simp [Settling, Broker.routeNotFound, responseTooLarge]
  · rw [heq, hfind]
    simp only [hinv.names_registered hfind]
    rcases t.broker.relay.respond_cases o.relay id response with
      ⟨hnot, hrespond⟩ | ⟨item, hitem, hrespond⟩
    · rw [hrespond, hnot]
      simp [Settling, unknownRequest, responseTooLarge]
    · have hsettling : Settling (t.broker.relay.respond o.relay id response).2 := by
        rcases hrespond with hrespond | hrespond
        · rw [hrespond]
          rfl
        · rw [hrespond]
          trivial
      have hmem := (hrelay.items id item hitem).1
      rw [hitem]
      constructor
      · rintro h r ⟨⟩ i ⟨⟩
        exact h hsettling item.slug hmem
      · intro h _ slug hslug
        rw [hrelay.slugs slug item.slug id hslug hmem]
        exact h route rfl item rfl

/-- Only an accepted response resolves a request. -/
theorem Effect.resolved {c : TunnelCall} {r : TunnelResult} (h : Effect o t t' c r)
    (hinv : BrokerInv o t es) {id : String} {response : ForwardedResponse}
    (hmem : (id, .resolved response) ∈ t'.broker.relay.settlements) :
    (id, .resolved response) ∈ t.broker.relay.settlements ∨
      ∃ ids, c = .respondRelay ids id response ∧ r = .responded (.ok ()) := by
  obtain ⟨C, hrelay, -⟩ := hinv.relay
  have hclose (slug : String)
      (hmem : (id, .resolved response) ∈ (t.broker.relay.closeRoute slug).settlements) :
      (id, .resolved response) ∈ t.broker.relay.settlements := by
    rw [(closeRoute_eq t.broker.relay slug).1, List.mem_append, List.mem_reverse] at hmem
    rcases hmem with hmem | hmem
    · obtain ⟨j, -, hj⟩ := List.mem_map.mp hmem
      cases hj
    · exact hmem
  cases h with
  | quiet hquiet _ => exact .inl (hquiet.relay ▸ hmem)
  | registers h =>
      left
      rw [h.relay hinv.wellKeyed] at hmem
      split at hmem
      · exact hclose _ hmem
      · exact hmem
  | closes _ _ hbroker =>
      left
      rw [hbroker] at hmem
      exact hclose _ hmem
  | claims _ _ _ _ hbroker =>
      left
      rw [hbroker] at hmem
      rcases hrelay.claim_cases _ with ⟨-, heq⟩ | ⟨_, _, _, -, -, -, -, heq⟩
      · rw [heq] at hmem
        exact hmem
      · rw [heq] at hmem
        exact hmem
  | @responds ids j answer _ _ _ _ hbroker =>
      rw [hbroker] at hmem
      rcases t.broker.relay.respond_cases o.relay j answer with
        ⟨-, heq⟩ | ⟨item, hitem, heq | heq⟩
      · rw [heq] at hmem
        exact .inl hmem
      · rw [heq] at hmem
        dsimp only at hmem
        rw [(RelayHub.settle_eq _ hitem).2.2.2.2.1, List.mem_cons] at hmem
        rcases hmem with hmem | hmem
        · cases hmem
        · exact .inl hmem
      · rw [heq] at hmem
        dsimp only at hmem
        rw [(RelayHub.settle_eq _ hitem).2.2.2.2.1, List.mem_cons] at hmem
        rcases hmem with hmem | hmem
        · cases hmem
          rw [heq]
          exact .inr ⟨ids, rfl, rfl⟩
        · exact .inl hmem
  | enqueues _ _ hbroker =>
      left
      rw [hbroker] at hmem
      exact hmem
  | expires hbroker =>
      left
      rw [hbroker] at hmem
      rcases hrelay.expire_cases _ with heq | ⟨j, item, hitem, heq⟩
      · rw [heq] at hmem
        exact hmem
      · rw [heq] at hmem
        dsimp only at hmem
        rw [(RelayHub.settle_eq _ hitem).2.2.2.2.1, List.mem_cons] at hmem
        rcases hmem with hmem | hmem
        · cases hmem
        · exact hmem

/-- Behind any calls, what is resolved was responded to. -/
theorem resolved_responded (o : BrokerOptions) (calls : List TunnelCall) (id : String)
    (response : ForwardedResponse)
    (h : (id, .resolved response) ∈
      ((tunnelMachine o).exec calls).1.broker.relay.settlements) :
    ∃ ids time hooks, (.respondRelay ids id response, ⟨time, .responded (.ok ()), hooks⟩) ∈
      ((tunnelMachine o).exec calls).2 := by
  induction calls using List.reverseRecOn with
  | nil => cases h
  | append_singleton calls c ih =>
      rw [exec_call] at h ⊢
      have hinv := brokerInv_exec o calls
      rcases (call_effect hinv.wellKeyed c).resolved hinv h with hold | ⟨ids, rfl, hr⟩
      · obtain ⟨ids, time, hooks, hmem⟩ := ih hold
        exact ⟨ids, time, hooks, List.mem_cons_of_mem _ hmem⟩
      · rw [hr]
        exact ⟨ids, _, _, List.mem_cons_self⟩

/-- One more call keeps responses with their owners exactly when it answers a request of
its own slug. -/
theorem owned_concat (o : BrokerOptions) (calls : List TunnelCall) (c : TunnelCall) :
    Owned ((tunnelMachine o).exec (calls ++ [c])).2 ↔
      Owned ((tunnelMachine o).exec calls).2 ∧
        answersOwn ((tunnelMachine o).exec calls).1 c := by
  have hinv := brokerInv_exec o calls
  rw [Machine.exec_concat]
  cases c with
  | respondRelay ids id response =>
      rw [← hinv.owned_respond ids id response, and_comm]
      rfl
  | _ => exact (and_true _).symm ▸ Iff.rfl

end

/-- The requests of every slug are resolved by its own host, whatever is called in whatever
order, exactly when no call answers a request in flight with the identifiers of a route
of another slug. -/
theorem resolvedByOwner_iff (o : BrokerOptions) (calls : List TunnelCall) :
    ResolvedByOwner ((tunnelMachine o).exec calls).1 ((tunnelMachine o).exec calls).2 ↔
      (tunnelMachine o).Obeys answersOwn calls := by
  rw [← Machine.forall_iff_obeys (P := Owned) trivial (owned_concat o) calls]
  exact ⟨fun h => h.owned, fun h => ⟨resolved_responded o calls, h⟩⟩

/-! ## A host answers a request of another slug -/

/-- A broker with the default limits. -/
def defaultOptions : BrokerOptions where
  routeTtlMs := brokerLimits.idleTimeoutMs
  maxRouteLifetimeMs := brokerLimits.maxRouteLifetimeMs
  hostGraceMs := 30000
  claimTimeoutMs := 10000
  responseTimeoutMs := 35000
  limits := brokerLimits
  ids := .letters 'x'
  parseUrl _ := none

/-- The identifiers of the route that is registered when `n` ids are minted. -/
def hostOf (o : BrokerOptions) (n : Nat) : RouteIdentifiers :=
  ⟨some ((mintId o.ids "rte").id n), some ((mintId o.ids "conn").id (n + 1))⟩

def readMessages (slug : String) : ParticipantRequest :=
  ⟨slug, "GET", "/messages", [], "::1", false, true⟩

/-- The host of `b` answers the request that is in flight for `a`. -/
theorem foreign_host_resolves : ¬ ∀ calls,
    ResolvedByOwner ((tunnelMachine defaultOptions).exec calls).1
      ((tunnelMachine defaultOptions).exec calls).2 := by
  intro h
  have howned := (h [.register ⟨some "a", none⟩, .register ⟨some "b", none⟩,
    .forward (readMessages "a"), .metered 0 (.ok ()), .bodyRead 0 (.ok none),
    .respondRelay (hostOf defaultOptions 2) ((mintId defaultOptions.ids "req").id 0)
      ⟨200, [], none⟩]).owned
  obtain ⟨route, hroute, hnames⟩ := howned.1 trivial "a" (by decide)
  have hroute' : some (Broker.initial.newRoute defaultOptions 0 "a") = some route := hroute
  rw [← Option.some.inj hroute'] at hnames
  exact absurd hnames (by decide)

end AgentGather.Tunnel
