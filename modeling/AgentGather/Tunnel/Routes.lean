import AgentGather.Tunnel.RelayOnce
import AgentGather.Tunnel.Traffic

/-!
# What calls do to routes

A call either registers a route, or leaves every slug with the route it has, whose status
only moves forward.  The history tells which route is registered for a slug, and which
requests were queued and handed out.
-/

namespace AgentGather.Tunnel

open AgentGather.Library

abbrev TunnelEvent := TunnelCall × TunnelReply

/-! ## What the history says -/

/-- The routes registered, the latest first. -/
def registrations (es : List TunnelEvent) : List RouteMetadata :=
  es.filterMap fun
    | (.register _, ⟨_, .route (.ok route), _⟩) => some route
    | _ => none

/-- The route registered last for a slug. -/
def registered (slug : String) (es : List TunnelEvent) : Option RouteMetadata :=
  (registrations es).find? fun route => route.routeSlug = slug

/-- The ids queued for a slug, in the order of the calls. -/
def queuedFor (slug : String) : List TunnelEvent → List String
  | [] => []
  | (_, ⟨_, .enqueued id s _, _⟩) :: es =>
      if s = slug then queuedFor slug es ++ [id] else queuedFor slug es
  | _ :: es => queuedFor slug es

/-- The ids of the requests that were handed to a host. -/
def handedOut (es : List TunnelEvent) : List String :=
  es.filterMap fun
    | (_, ⟨_, .claimed (.ok (some request)), _⟩) => some request.requestId
    | _ => none

/-! ## Routes that move on -/

def RouteStatus.rank : RouteStatus → Nat
  | .active => 0
  | .expired => 1
  | .closed => 2

/-- The same route, perhaps further on. -/
structure Succeeds (r r' : RouteMetadata) : Prop where
  slug : r'.routeSlug = r.routeSlug
  id : r'.routeId = r.routeId
  connection : r'.hostConnectionId = r.hostConnectionId
  created : r'.createdAt = r.createdAt
  status : r.status.rank ≤ r'.status.rank

theorem Succeeds.refl (r : RouteMetadata) : Succeeds r r := ⟨rfl, rfl, rfl, rfl, Nat.le_refl _⟩

theorem Succeeds.trans {r r' r'' : RouteMetadata} (h : Succeeds r r') (h' : Succeeds r' r'') :
    Succeeds r r'' :=
  ⟨h'.slug.trans h.slug, h'.id.trans h.id, h'.connection.trans h.connection,
    h'.created.trans h.created, h.status.trans h'.status⟩

/-- Every slug keeps the route it has, and no ids are minted for routes. -/
structure Evolves (b b' : Broker) : Prop where
  routes : ∀ slug, Option.Rel Succeeds (b.routes.get? slug) (b'.routes.get? slug)
  minted : b'.minted = b.minted

/-- Routes are kept under their slugs. -/
def WellKeyed (b : Broker) : Prop :=
  ∀ slug route, b.routes.get? slug = some route → route.routeSlug = slug

theorem rel_refl (found : Option RouteMetadata) : Option.Rel Succeeds found found := by
  cases found with
  | none => exact .none
  | some route => exact .some (.refl route)

theorem rel_trans {x y z : Option RouteMetadata} (h : Option.Rel Succeeds x y)
    (h' : Option.Rel Succeeds y z) : Option.Rel Succeeds x z := by
  cases h with
  | none => exact h'
  | some hs => cases h' with | some hs' => exact .some (hs.trans hs')

/-- The same routes. -/
theorem Evolves.of_routes {b b' : Broker} (h : b'.routes = b.routes)
    (hminted : b'.minted = b.minted) : Evolves b b' := by
  refine ⟨fun slug => ?_, hminted⟩
  rw [h]
  exact rel_refl _

theorem Evolves.refl (b : Broker) : Evolves b b := .of_routes rfl rfl

theorem Evolves.trans {b b' b'' : Broker} (h : Evolves b b') (h' : Evolves b' b'') :
    Evolves b b'' :=
  ⟨fun slug => rel_trans (h.routes slug) (h'.routes slug), h'.minted.trans h.minted⟩

/-- Nothing else changes but the guards, and no route is closed. -/
structure Quiet (b b' : Broker) : Prop where
  evolves : Evolves b b'
  closed : ∀ slug route, b'.routes.get? slug = some route → route.status = .closed →
    ∃ old, b.routes.get? slug = some old ∧ old.status = .closed
  relay : b'.relay = b.relay
  targets : b'.targets = b.targets
  metered : b'.metered = b.metered

theorem Quiet.refl (b : Broker) : Quiet b b :=
  ⟨.refl b, fun _ route h hclosed => ⟨route, h, hclosed⟩, rfl, rfl, rfl⟩

theorem Quiet.trans {b b' b'' : Broker} (h : Quiet b b') (h' : Quiet b' b'') : Quiet b b'' where
  evolves := h.evolves.trans h'.evolves
  closed slug route hroute hclosed := by
    obtain ⟨old, hold, hclosed'⟩ := h'.closed slug route hroute hclosed
    exact h.closed slug old hold hclosed'
  relay := h'.relay.trans h.relay
  targets := h'.targets.trans h.targets
  metered := h'.metered.trans h.metered

theorem rel_some {found : Option RouteMetadata} {route : RouteMetadata}
    (h : Option.Rel Succeeds found (some route)) :
    ∃ old, found = some old ∧ Succeeds old route := by
  cases h with
  | some hs => exact ⟨_, rfl, hs⟩

theorem some_rel {found : Option RouteMetadata} {route : RouteMetadata}
    (h : Option.Rel Succeeds (some route) found) :
    ∃ new, found = some new ∧ Succeeds route new := by
  cases h with
  | some hs => exact ⟨_, rfl, hs⟩

theorem Evolves.wellKeyed {b b' : Broker} (h : Evolves b b') (hkeyed : WellKeyed b) :
    WellKeyed b' := by
  intro slug route hroute
  have hrel := h.routes slug
  rw [hroute] at hrel
  obtain ⟨old, hold, hs⟩ := rel_some hrel
  exact hs.slug.trans (hkeyed slug old hold)

theorem refresh_succeeds (o : BrokerOptions) (now : Nat) (route : RouteMetadata) :
    Succeeds route (refresh o now route) := by
  refine ⟨rfl, rfl, rfl, rfl, ?_⟩
  unfold refresh
  dsimp only
  split
  · rename_i h
    rw [h.1]
    exact Nat.zero_le _
  · exact Nat.le_refl _

theorem beaten_succeeds (o : BrokerOptions) (now : Nat) (route : RouteMetadata) :
    Succeeds route (route.beaten o now) := ⟨rfl, rfl, rfl, rfl, Nat.le_refl _⟩

theorem closed_succeeds (route : RouteMetadata) :
    Succeeds route { route with status := .closed } := by
  refine ⟨rfl, rfl, rfl, rfl, ?_⟩
  show route.status.rank ≤ 2
  cases route.status <;> decide

theorem refresh_closed {o : BrokerOptions} {now : Nat} {route : RouteMetadata}
    (h : (refresh o now route).status = .closed) : route.status = .closed := by
  unfold refresh at h
  dsimp only at h
  split at h
  · cases h
  · exact h

/-- What a refreshed route that is active tells. -/
theorem refresh_active {o : BrokerOptions} {now : Nat} {route : RouteMetadata}
    (h : (refresh o now route).status = .active) :
    now < route.createdAt + o.maxRouteLifetimeMs := by
  unfold refresh at h
  dsimp only at h
  split at h
  · cases h
  · rename_i hnot
    by_contra hle
    exact hnot ⟨h, .inr (by omega)⟩

section Methods

variable {o : BrokerOptions} {b : Broker} {n : Nat}

/-! ## Storing routes -/

/-- Storing a route that is further on. -/
theorem evolves_update (hkeyed : WellKeyed b) {slug : String} {old route : RouteMetadata}
    (hold : b.routes.get? slug = some old) (hs : Succeeds old route) :
    Evolves b (b.update route) := by
  refine ⟨fun s => ?_, rfl⟩
  have hslug : route.routeSlug = slug := hs.slug.trans (hkeyed slug old hold)
  show Option.Rel _ _ ((b.routes.set route.routeSlug route).get? s)
  rw [OrderedMap.get?_set, hslug]
  by_cases h : s = slug
  · rw [if_pos h, h, hold]
    exact .some hs
  · rw [if_neg h]
    exact rel_refl _

theorem get?_update (hkeyed : WellKeyed b) {slug : String} {old route : RouteMetadata}
    (hold : b.routes.get? slug = some old) (hs : Succeeds old route) :
    (b.update route).routes.get? slug = some route := by
  have hslug : route.routeSlug = slug := hs.slug.trans (hkeyed slug old hold)
  show (b.routes.set route.routeSlug route).get? slug = some route
  rw [hslug, OrderedMap.get?_set_self]

/-- The same, of a route that is closed only if it was. -/
theorem quiet_update (hkeyed : WellKeyed b) {slug : String} {old route : RouteMetadata}
    (hold : b.routes.get? slug = some old) (hs : Succeeds old route)
    (hclosed : route.status = .closed → old.status = .closed) : Quiet b (b.update route) := by
  refine ⟨evolves_update hkeyed hold hs, fun s r hr hstatus => ?_, rfl, rfl, rfl⟩
  by_cases h : s = slug
  · subst h
    rw [get?_update hkeyed hold hs] at hr
    obtain rfl := Option.some.inj hr
    exact ⟨old, hold, hclosed hstatus⟩
  · have hslug : route.routeSlug = slug := hs.slug.trans (hkeyed slug old hold)
    have hne : s ≠ route.routeSlug := fun heq => h (heq.trans hslug)
    exact ⟨r, (OrderedMap.get?_set_ne _ _ hne).symm.trans hr, hstatus⟩

theorem quiet_refresh (o : BrokerOptions) (n : Nat) (hkeyed : WellKeyed b) {slug : String}
    {route : RouteMetadata} (hroute : b.routes.get? slug = some route) :
    Quiet b (b.update (refresh o n route)) :=
  quiet_update hkeyed hroute (refresh_succeeds o n route) refresh_closed

/-- Storing a route that moved on since it was refreshed. -/
theorem quiet_update_again (hkeyed : WellKeyed b) {slug : String} {old new : RouteMetadata}
    (hold : b.routes.get? slug = some old) (hs : Succeeds (refresh o n old) new)
    (hclosed : new.status = .closed → (refresh o n old).status = .closed) :
    Quiet b ((b.update (refresh o n old)).update new) ∧
      ((b.update (refresh o n old)).update new).routes.get? slug = some new := by
  have hquiet := quiet_refresh o n hkeyed hold
  have hkeyed' := hquiet.evolves.wellKeyed hkeyed
  have hroute := get?_update hkeyed hold (refresh_succeeds o n old)
  exact ⟨hquiet.trans (quiet_update hkeyed' hroute hs hclosed),
    get?_update hkeyed' hroute hs⟩

theorem touch_quiet (hkeyed : WellKeyed b) (slug : String) :
    Quiet b (b.touch o n slug) := by
  unfold Broker.touch
  split
  · exact .refl _
  · rename_i route hroute
    split
    · exact quiet_update hkeyed hroute ⟨rfl, rfl, rfl, rfl, Nat.le_refl _⟩ fun h => h
    · exact .refl _

/-- Touching a route that is active. -/
theorem touch_active {slug : String} {route : RouteMetadata}
    (hroute : b.routes.get? slug = some route) (hactive : route.status = .active) :
    b.touch o n slug =
      b.update { route with lastSeenAt := n, expiresAt := n + o.routeTtlMs } := by
  simp only [Broker.touch, hroute, hactive, if_true]

/-! ## Finding routes -/

theorem currentRoute_cases (hkeyed : WellKeyed b) (slug : String) :
    (b.routes.get? slug = none ∧ b.currentRoute o n slug = (b, none)) ∨
    (∃ route, b.routes.get? slug = some route ∧
      b.currentRoute o n slug =
        (b.update (refresh o n route), some (refresh o n route)) ∧
      Quiet b (b.update (refresh o n route))) := by
  unfold Broker.currentRoute
  cases h : b.routes.get? slug with
  | none => exact .inl ⟨rfl, rfl⟩
  | some route => exact .inr ⟨route, rfl, rfl, quiet_refresh o n hkeyed h⟩

theorem currentRoute_quiet (hkeyed : WellKeyed b) (slug : String) :
    Quiet b (b.currentRoute o n slug).1 := by
  rcases currentRoute_cases (o := o) (n := n) hkeyed slug with ⟨-, h⟩ | ⟨route, -, h, hq⟩
  · rw [h]
    exact .refl _
  · rw [h]
    exact hq

/-- The route found is a stored one that the identifiers name. -/
theorem findRoute_some {ids : RouteIdentifiers} {route : RouteMetadata}
    (h : b.findRoute ids = some route) :
    Broker.names ids route = true ∧ ∃ slug, b.routes.get? slug = some route :=
  ⟨List.find?_some h, OrderedMap.mem_values_iff.mp (List.mem_of_find?_eq_some h)⟩

/-- Looking a route up by its identifiers. -/
theorem findByConnection_cases (ids : RouteIdentifiers) :
    (b.findRoute ids = none ∧
      b.findByConnection o n ids = (b, .error Broker.routeNotFound)) ∨
    (∃ slug route, b.routes.get? slug = some route ∧ Broker.names ids route = true ∧
      b.findRoute ids = some route ∧
      b.findByConnection o n ids =
        (b.update (refresh o n route), .ok (refresh o n route))) := by
  unfold Broker.findByConnection
  cases h : b.findRoute ids with
  | none => exact .inl ⟨rfl, rfl⟩
  | some route =>
      obtain ⟨hnames, slug, hslug⟩ := findRoute_some h
      exact .inr ⟨slug, route, hslug, hnames, rfl, rfl⟩

/-! ## The methods -/

/-- A heartbeat finds no route, one that is over, or moves an active one on. -/
theorem heartbeat_cases (hkeyed : WellKeyed b) (beat : RouteIdentifiers) :
    (∃ e, e.code ≠ .routeExpired ∧ e.code ≠ .routeClosed ∧
      b.heartbeat o n beat = (b, .error e)) ∨
    (∃ slug route, b.routes.get? slug = some route ∧ Broker.names beat route = true ∧
      (((refresh o n route).status = .closed ∧
          b.heartbeat o n beat = (b.update (refresh o n route), .error routeClosed)) ∨
        ((refresh o n route).status = .expired ∧
          b.heartbeat o n beat =
            (b.update (refresh o n route), .error Broker.routeExpired)) ∨
        ∃ b' new, b.heartbeat o n beat = (b', .ok new) ∧ Quiet b b' ∧
          b'.routes.get? slug = some new ∧ Succeeds route new ∧
          new = refresh o n ((refresh o n route).beaten o n))) := by
  unfold Broker.heartbeat
  split
  · exact .inl ⟨_, by decide, by decide, rfl⟩
  rcases findByConnection_cases (b := b) (o := o) (n := n) beat with ⟨-, heq⟩ |
    ⟨slug, route, hroute, hnames, -, heq⟩
  · rw [heq]
    exact .inl ⟨_, by decide, by decide, rfl⟩
  · rw [heq]
    refine .inr ⟨slug, route, hroute, hnames, ?_⟩
    dsimp only
    cases hstatus : (refresh o n route).status with
    | closed => exact .inl ⟨rfl, rfl⟩
    | expired => exact .inr (.inl ⟨rfl, rfl⟩)
    | active =>
        have hs : Succeeds (refresh o n route)
            (refresh o n ((refresh o n route).beaten o n)) :=
          (beaten_succeeds o n _).trans (refresh_succeeds o n _)
        obtain ⟨hquiet, hget⟩ := quiet_update_again hkeyed hroute hs refresh_closed
        exact .inr (.inr ⟨_, _, rfl, hquiet, hget, (refresh_succeeds o n route).trans hs,
          rfl⟩)

/-- Closing finds no route, or shuts the one it finds. -/
theorem closeRoute_cases (request : RouteIdentifiers) :
    (b.findRoute request = none ∧
      b.closeRoute o n request = (b, .error Broker.routeNotFound)) ∨
    (∃ slug route, b.routes.get? slug = some route ∧ b.findRoute request = some route ∧
      b.closeRoute o n request =
        ((b.update (refresh o n route)).shut n (refresh o n route),
          .ok route.routeSlug)) := by
  unfold Broker.closeRoute
  rcases findByConnection_cases (b := b) (o := o) (n := n) request with ⟨hnone, heq⟩ |
    ⟨slug, route, hroute, -, hfind, heq⟩
  · rw [heq]
    exact .inl ⟨hnone, rfl⟩
  · rw [heq]
    exact .inr ⟨slug, route, hroute, hfind, rfl⟩

theorem shut_evolves (hkeyed : WellKeyed b) {slug : String} {route : RouteMetadata}
    (hroute : b.routes.get? slug = some route) :
    Evolves b ((b.update (refresh o n route)).shut n (refresh o n route)) ∧
      ((b.update (refresh o n route)).shut n (refresh o n route)).routes.get? slug =
        some { refresh o n route with status := .closed } := by
  have hrefreshed := evolves_update hkeyed hroute (refresh_succeeds o n route)
  have hkeyed' := hrefreshed.wellKeyed hkeyed
  have hget := get?_update hkeyed hroute (refresh_succeeds o n route)
  have hclosed := closed_succeeds (refresh o n route)
  have hevolves := hrefreshed.trans (evolves_update hkeyed' hget hclosed)
  exact ⟨hevolves.trans (.of_routes rfl rfl), get?_update hkeyed' hget hclosed⟩

/-- A poll is a sign of the host, and of traffic. -/
theorem touch_seen (hkeyed : WellKeyed b) {slug : String} {old seen : RouteMetadata}
    (hold : b.routes.get? slug = some old) (hseen : Succeeds (refresh o n old) seen)
    (hactive : seen.status = .active) :
    Quiet b (((b.update (refresh o n old)).update seen).touch o n seen.routeSlug) ∧
      ∃ new, (((b.update (refresh o n old)).update seen).touch o n
          seen.routeSlug).routes.get? slug = some new ∧ Succeeds old new ∧
        new.status = .active := by
  obtain ⟨hquiet, hget⟩ := quiet_update_again hkeyed hold hseen
    fun h => absurd (hactive.symm.trans h) (by decide)
  have hkeyed' := hquiet.evolves.wellKeyed hkeyed
  have hslug : seen.routeSlug = slug := hkeyed' slug seen hget
  have htouched : Succeeds seen { seen with lastSeenAt := n, expiresAt := n + o.routeTtlMs } :=
    ⟨rfl, rfl, rfl, rfl, Nat.le_refl _⟩
  rw [hslug, touch_active hget hactive]
  exact ⟨hquiet.trans (quiet_update hkeyed' hget htouched fun h => h), _,
    get?_update hkeyed' hget htouched,
    ((refresh_succeeds o n old).trans hseen).trans htouched, hactive⟩

/-- Claiming finds no route, one that is over, or claims for an active one. -/
theorem claimRelay_cases (hkeyed : WellKeyed b) (ids : RouteIdentifiers) :
    (b.findRoute ids = none ∧
      b.claimRelay o n ids = (b, .error Broker.routeNotFound)) ∨
    (∃ slug route, b.routes.get? slug = some route ∧ Broker.names ids route = true ∧
      (((refresh o n route).status = .closed ∧ b.claimRelay o n ids =
          (b.update (refresh o n route),
            .error ⟨.routeClosed, 410, "route is not active"⟩)) ∨
        ((refresh o n route).status = .expired ∧ b.claimRelay o n ids =
          (b.update (refresh o n route),
            .error ⟨.routeExpired, 410, "route is not active"⟩)) ∨
        ((refresh o n route).status = .active ∧ ∃ b' new, Quiet b b' ∧
          b'.routes.get? slug = some new ∧ Succeeds route new ∧ new.status = .active ∧
          b.claimRelay o n ids =
            ({ b' with relay := (b.relay.claim o.relay slug).1 },
              .ok (b.relay.claim o.relay slug).2)))) := by
  unfold Broker.claimRelay
  rcases findByConnection_cases (b := b) (o := o) (n := n) ids with ⟨hnone, heq⟩ |
    ⟨slug, route, hroute, hnames, -, heq⟩
  · rw [heq]
    exact .inl ⟨hnone, rfl⟩
  · have hs := refresh_succeeds o n route
    have hslug : (refresh o n route).routeSlug = slug :=
      hs.slug.trans (hkeyed slug route hroute)
    rw [heq]
    refine .inr ⟨slug, route, hroute, hnames, ?_⟩
    dsimp only
    cases hstatus : (refresh o n route).status with
    | closed => exact .inl ⟨rfl, rfl⟩
    | expired => exact .inr (.inl ⟨rfl, rfl⟩)
    | active =>
        have hseen : Succeeds (refresh o n route)
            { refresh o n route with lastHeartbeatAt := n, status := .active } :=
          ⟨rfl, rfl, rfl, rfl, by rw [hstatus]⟩
        obtain ⟨hquiet, new, hget, hnew, hactive⟩ :=
          touch_seen (o := o) (n := n) hkeyed hroute hseen rfl
        refine .inr (.inr ⟨rfl, _, new, hquiet, hget, hnew, hactive, ?_⟩)
        rw [← hquiet.relay, ← hslug]

/-- Responding finds no route, or asks the relay. -/
theorem respondRelay_cases (ids : RouteIdentifiers) (id : String)
    (response : ForwardedResponse) :
    (b.findRoute ids = none ∧
      b.respondRelay o n ids id response = (b, .error Broker.routeNotFound)) ∨
    (∃ slug route, b.routes.get? slug = some route ∧ Broker.names ids route = true ∧
      b.findRoute ids = some route ∧
      b.respondRelay o n ids id response =
        ({ b.update (refresh o n route) with
            relay := (b.relay.respond o.relay id response).1 },
          (b.relay.respond o.relay id response).2)) := by
  unfold Broker.respondRelay
  rcases findByConnection_cases (b := b) (o := o) (n := n) ids with ⟨hnone, heq⟩ |
    ⟨slug, route, hroute, hnames, hfind, heq⟩
  · rw [heq]
    exact .inl ⟨hnone, rfl⟩
  · rw [heq]
    exact .inr ⟨slug, route, hroute, hnames, hfind, rfl⟩

/-- Resolving finds no route, or says what the refreshed one is. -/
theorem resolve_cases (hkeyed : WellKeyed b) (slug : String) :
    (b.routes.get? slug = none ∧ ∃ e, e.code = .routeNotFound ∧
      b.resolve o n slug = (b, .error e)) ∨
    (∃ route, b.routes.get? slug = some route ∧
      (b.resolve o n slug).1 = b.update (refresh o n route) ∧
      (b.resolve o n slug).2 = match (refresh o n route).status with
        | .closed => .error routeClosed
        | .expired => .error Broker.routeExpired
        | .active => .ok (refresh o n route)) := by
  unfold Broker.resolve
  rcases currentRoute_cases (o := o) (n := n) hkeyed slug with ⟨hnone, heq⟩ |
    ⟨route, hroute, heq, -⟩
  · rw [heq]
    exact .inl ⟨hnone, _, rfl, rfl⟩
  · rw [heq]
    refine .inr ⟨route, hroute, ?_⟩
    dsimp only
    cases (refresh o n route).status <;> exact ⟨rfl, rfl⟩

theorem resolve_quiet (hkeyed : WellKeyed b) (slug : String) :
    Quiet b (b.resolve o n slug).1 := by
  rcases resolve_cases (o := o) (n := n) hkeyed slug with ⟨-, e, -, heq⟩ |
    ⟨route, hroute, heq, -⟩
  · rw [heq]
    exact .refl _
  · rw [heq]
    exact quiet_refresh o n hkeyed hroute

/-- Stored routes of different slugs, refreshed one after the other. -/
theorem refreshAll_quiet (routes : List RouteMetadata) (hkeyed : WellKeyed b)
    (hdistinct : (routes.map (·.routeSlug)).Nodup)
    (hstored : ∀ route ∈ routes, b.routes.get? route.routeSlug = some route) :
    Quiet b (routes.foldl (fun b route => b.update (refresh o n route)) b) ∧
      ∀ slug, (routes.foldl (fun b route => b.update (refresh o n route)) b).routes.get?
          slug =
        if slug ∈ routes.map (·.routeSlug) then
          (b.routes.get? slug).map (refresh o n)
        else b.routes.get? slug := by
  induction routes generalizing b with
  | nil => exact ⟨.refl _, fun slug => by simp⟩
  | cons route routes ih =>
      rw [List.map_cons, List.nodup_cons] at hdistinct
      have hroute := hstored route List.mem_cons_self
      have hfirst := quiet_refresh o n hkeyed hroute
      have hother (s : String) (hne : s ≠ route.routeSlug) :
          (b.update (refresh o n route)).routes.get? s = b.routes.get? s :=
        OrderedMap.get?_set_ne _ _ hne
      have hself : (b.update (refresh o n route)).routes.get? route.routeSlug =
          some (refresh o n route) := OrderedMap.get?_set_self _ _ _
      obtain ⟨hquiet, hget⟩ := ih (hfirst.evolves.wellKeyed hkeyed) hdistinct.2
        fun r hr => by
          have hne : r.routeSlug ≠ route.routeSlug := fun heq =>
            hdistinct.1 (List.mem_map.mpr ⟨r, hr, heq⟩)
          rw [hother _ hne]
          exact hstored r (List.mem_cons_of_mem _ hr)
      refine ⟨hfirst.trans hquiet, fun slug => ?_⟩
      rw [List.foldl_cons, hget slug, List.map_cons]
      by_cases hslug : slug = route.routeSlug
      · subst hslug
        rw [if_neg hdistinct.1, if_pos List.mem_cons_self, hself, hroute]
        rfl
      · rw [hother slug hslug]
        simp [hslug]

theorem values_slugs (hkeyed : WellKeyed b) :
    b.routes.values.map (·.routeSlug) = b.routes.keys := by
  unfold OrderedMap.values OrderedMap.keys
  rw [List.map_map]
  apply List.map_congr_left
  intro e he
  exact hkeyed e.1 e.2 (OrderedMap.get?_eq_some_iff.mpr he)

/-- A snapshot refreshes every route. -/
theorem snapshot_cases (hkeyed : WellKeyed b) :
    Quiet b (b.snapshot o n).1 ∧
      ∀ slug, (b.snapshot o n).1.routes.get? slug =
        (b.routes.get? slug).map (refresh o n) := by
  obtain ⟨hquiet, hget⟩ := refreshAll_quiet (o := o) (n := n) b.routes.values hkeyed
    (by
      rw [values_slugs hkeyed]
      exact b.routes.keys_nodup)
    (fun route hroute => by
      obtain ⟨slug, hslug⟩ := OrderedMap.mem_values_iff.mp hroute
      rw [hkeyed slug route hslug]
      exact hslug)
  refine ⟨hquiet, fun slug => ?_⟩
  unfold Broker.snapshot
  rw [hget slug, values_slugs hkeyed]
  split
  · rfl
  · rename_i hnot
    rw [OrderedMap.get?_eq_none_iff.mpr hnot]
    rfl

/-- The slug is held by an active route whose host is connected. -/
def Held (o : BrokerOptions) (b : Broker) (n : Nat) (slug : String) : Prop :=
  ∃ route, b.routes.get? slug = some route ∧ (refresh o n route).status = .active ∧
    (refresh o n route).hostConnected = true

/-- A registration fails its checks, fails because the slug is held, or installs a new
route. -/
theorem register_cases (hkeyed : WellKeyed b) (registration : HostRegistration) :
    (∃ e, checkRegistration o registration = .error e ∧
      b.register o n registration = (b, .error e)) ∨
    (∃ slug, checkRegistration o registration = .ok slug ∧
      ((Held o b n slug ∧ (∃ e, (b.register o n registration).2 = .error e) ∧
          Quiet b (b.register o n registration).1) ∨
        (¬ Held o b n slug ∧ b.register o n registration =
          ((b.currentRoute o n slug).1.install (b.routes.get? slug).isSome
            (b.newRoute o n slug) registration.target, .ok (b.newRoute o n slug))))) := by
  unfold Broker.register
  cases hcheck : checkRegistration o registration with
  | error e => exact .inl ⟨e, rfl, rfl⟩
  | ok slug =>
      refine .inr ⟨slug, rfl, ?_⟩
      rcases currentRoute_cases (o := o) (n := n) hkeyed slug with ⟨hnone, heq⟩ |
        ⟨route, hroute, heq, hquiet⟩
      · right
        refine ⟨?_, ?_⟩
        · rintro ⟨route, hroute, -⟩
          rw [hnone] at hroute
          cases hroute
        · simp only [heq, hnone]
          rfl
      · by_cases hheld : (refresh o n route).status = .active ∧
            (refresh o n route).hostConnected = true
        · left
          refine ⟨⟨route, hroute, hheld⟩, ?_⟩
          simp only [heq, Option.any_some, hheld.1, hheld.2, decide_true, Bool.and_self,
            if_true]
          exact ⟨⟨_, rfl⟩, hquiet⟩
        · right
          refine ⟨?_, ?_⟩
          · rintro ⟨found, hfound, hactive⟩
            obtain rfl := Option.some.inj (hroute.symm.trans hfound)
            exact hheld hactive
          · have hany : ((refresh o n route).status = .active &&
                (refresh o n route).hostConnected) = false := by
              simpa using hheld
            simp only [heq, Option.any_some, hany, hroute]
            rfl

end Methods

/-! ## One call -/

/-- What a successful registration does. -/
structure Registers (o : BrokerOptions) (t t' : Traffic) (registration : HostRegistration)
    (route : RouteMetadata) : Prop where
  checked : checkRegistration o registration = .ok route.routeSlug
  free : ¬ Held o t.broker t.clock route.routeSlug
  new : route = t.broker.newRoute o t.clock route.routeSlug
  broker : t'.broker = (t.broker.currentRoute o t.clock route.routeSlug).1.install
    (t.broker.routes.get? route.routeSlug).isSome route registration.target

/-- The result tells of no registration, of no closing and of no relayed request. -/
def Silent : TunnelCall → TunnelResult → Prop
  | .register _, .route (.ok _) => False
  | _, .closed (.ok _) => False
  | _, .claimed (.ok _) => False
  | _, .responded result => result = .error Broker.routeNotFound
  | _, .enqueued _ _ _ => False
  | _, _ => True

/-- What a call can do to the broker. -/
inductive Effect (o : BrokerOptions) (t t' : Traffic) : TunnelCall → TunnelResult → Prop
  | quiet {c r} (quiet : Quiet t.broker t'.broker) (silent : Silent c r) : Effect o t t' c r
  | registers {registration route} (registers : Registers o t t' registration route) :
      Effect o t t' (.register registration) (.route (.ok route))
  | closes {request slug route} (stored : t.broker.routes.get? slug = some route)
      (found : t.broker.findRoute request = some route)
      (broker : t'.broker = (t.broker.update (refresh o t.clock route)).shut t.clock
        (refresh o t.clock route)) :
      Effect o t t' (.closeRoute request) (.closed (.ok slug))
  | claims {ids slug route b'} (stored : t.broker.routes.get? slug = some route)
      (named : Broker.names ids route = true)
      (active : (refresh o t.clock route).status = .active) (quiet : Quiet t.broker b')
      (broker : t'.broker =
        { b' with relay := (t.broker.relay.claim o.relay slug).1 }) :
      Effect o t t' (.claimRelay ids) (.claimed (.ok (t.broker.relay.claim o.relay slug).2))
  | responds {ids id response route b'} (found : t.broker.findRoute ids = some route)
      (quiet : Quiet t.broker b')
      (broker : t'.broker =
        { b' with relay := (t.broker.relay.respond o.relay id response).1 }) :
      Effect o t t' (.respondRelay ids id response)
        (.responded (t.broker.relay.respond o.relay id response).2)
  | enqueues {index body f} (forward : t.forwards[index]? = some f)
      (reading : f.stage = .reading)
      (broker : t'.broker = { t.broker with
        relay := (t.broker.relay.enqueue o.relay (mintId o.ids "req") f.request.slug
          (f.request.envelope body)).1 }) :
      Effect o t t' (.bodyRead index (.ok body))
        (.enqueued ((mintId o.ids "req").id t.broker.relay.minted) f.request.slug
          f.admittedUnder)
  | expires {timer} (broker : t'.broker =
        { t.broker with relay := t.broker.relay.expire timer }) :
      Effect o t t' (.expire timer) .done

section Calls

variable {o : BrokerOptions} {t : Traffic}

theorem Quiet.of_guards {b : Broker} (guards : BrokerGuards) : Quiet b { b with guards } :=
  ⟨.of_routes rfl rfl, fun _ route h hclosed => ⟨route, h, hclosed⟩, rfl, rfl, rfl⟩

theorem startForward_quiet (hkeyed : WellKeyed t.broker) (req : ParticipantRequest) :
    Quiet t.broker (t.startForward o req).1.broker := by
  unfold Traffic.startForward
  rcases t.broker.guards.enter o.limits t.clock req.guardInput with ⟨guards, admitted⟩
  cases admitted with
  | error e => exact .of_guards guards
  | ok _ =>
      have hkeyed' : WellKeyed { t.broker with guards } := hkeyed
      exact (Quiet.of_guards guards).trans (touch_quiet hkeyed' req.slug)

theorem afterMeter_quiet (hkeyed : WellKeyed t.broker) (index : Nat) (f : Forward)
    (result : Except TunnelError Unit) :
    Quiet t.broker (t.afterMeter o index f result).broker := by
  unfold Traffic.afterMeter
  cases result with
  | error e => exact .of_guards _
  | ok _ =>
      have h := currentRoute_quiet (o := o) (n := t.clock) hkeyed f.request.slug
      rcases hcase : t.broker.currentRoute o t.clock f.request.slug with ⟨b, route⟩
      rw [hcase] at h
      dsimp only
      split
      · exact h
      · exact h.trans (.of_guards _)

theorem register_effect (hkeyed : WellKeyed t.broker) (registration : HostRegistration) :
    Effect o t (t.call o (.register registration)).1 (.register registration)
      (t.call o (.register registration)).2 := by
  have hcall : t.call o (.register registration) =
      ({ t with broker := (t.broker.register o t.clock registration).1 },
        .route (t.broker.register o t.clock registration).2) := rfl
  rw [hcall]
  rcases register_cases (o := o) (n := t.clock) hkeyed registration with ⟨e, -, heq⟩ |
    ⟨slug, hcheck, ⟨-, ⟨e, he⟩, hquiet⟩ | ⟨hfree, heq⟩⟩
  · rw [heq]
    exact .quiet (.refl _) trivial
  · rw [he]
    exact .quiet hquiet trivial
  · rw [heq]
    exact .registers ⟨hcheck, hfree, rfl, rfl⟩

theorem heartbeat_effect (hkeyed : WellKeyed t.broker) (beat : RouteIdentifiers) :
    Effect o t (t.call o (.heartbeat beat)).1 (.heartbeat beat)
      (t.call o (.heartbeat beat)).2 := by
  refine .quiet ?_ trivial
  show Quiet _ (t.broker.heartbeat o t.clock beat).1
  rcases heartbeat_cases (o := o) (n := t.clock) hkeyed beat with ⟨e, -, -, heq⟩ |
    ⟨slug, route, hroute, -, ⟨-, heq⟩ | ⟨-, heq⟩ | ⟨b', new, heq, hquiet, -⟩⟩
  · rw [heq]
    exact .refl _
  · rw [heq]
    exact quiet_refresh o t.clock hkeyed hroute
  · rw [heq]
    exact quiet_refresh o t.clock hkeyed hroute
  · rw [heq]
    exact hquiet

theorem claimRelay_effect (hkeyed : WellKeyed t.broker) (ids : RouteIdentifiers) :
    Effect o t (t.call o (.claimRelay ids)).1 (.claimRelay ids)
      (t.call o (.claimRelay ids)).2 := by
  have hcall : t.call o (.claimRelay ids) =
      ({ t with broker := (t.broker.claimRelay o t.clock ids).1 },
        .claimed (t.broker.claimRelay o t.clock ids).2) := rfl
  rw [hcall]
  rcases claimRelay_cases (o := o) (n := t.clock) hkeyed ids with ⟨-, heq⟩ |
    ⟨slug, route, hroute, hnames, ⟨-, heq⟩ | ⟨-, heq⟩ |
      ⟨hactive, b', new, hquiet, -, -, -, heq⟩⟩
  · rw [heq]
    exact .quiet (.refl _) trivial
  · rw [heq]
    exact .quiet (quiet_refresh o t.clock hkeyed hroute) trivial
  · rw [heq]
    exact .quiet (quiet_refresh o t.clock hkeyed hroute) trivial
  · rw [heq]
    exact .claims hroute hnames hactive hquiet rfl

theorem respondRelay_effect (hkeyed : WellKeyed t.broker) (ids : RouteIdentifiers)
    (id : String) (response : ForwardedResponse) :
    Effect o t (t.call o (.respondRelay ids id response)).1 (.respondRelay ids id response)
      (t.call o (.respondRelay ids id response)).2 := by
  have hcall : t.call o (.respondRelay ids id response) =
      ({ t with broker := (t.broker.respondRelay o t.clock ids id response).1 },
        .responded (t.broker.respondRelay o t.clock ids id response).2) := rfl
  rw [hcall]
  rcases respondRelay_cases (b := t.broker) (o := o) (n := t.clock) ids id response with
    ⟨-, heq⟩ | ⟨slug, route, hroute, -, hfind, heq⟩
  · rw [heq]
    exact .quiet (.refl _) rfl
  · rw [heq]
    exact .responds hfind (quiet_refresh o t.clock hkeyed hroute) rfl

theorem closeRoute_effect (hkeyed : WellKeyed t.broker) (request : RouteIdentifiers) :
    Effect o t (t.call o (.closeRoute request)).1 (.closeRoute request)
      (t.call o (.closeRoute request)).2 := by
  have hcall : t.call o (.closeRoute request) =
      ({ t with broker := (t.broker.closeRoute o t.clock request).1 },
        .closed (t.broker.closeRoute o t.clock request).2) := rfl
  rw [hcall]
  rcases closeRoute_cases (b := t.broker) (o := o) (n := t.clock) request with ⟨-, heq⟩ |
    ⟨slug, route, hroute, hfind, heq⟩
  · rw [heq]
    exact .quiet (.refl _) trivial
  · rw [heq, hkeyed slug route hroute]
    exact .closes hroute hfind rfl

/-- A call that is about a forward, if there is one at the index. -/
theorem forward_effect {c : TunnelCall} {index : Nat} {f : Forward → Traffic × TunnelResult}
    (h : ∀ g, t.forwards[index]? = some g → Effect o t (f g).1 c (f g).2)
    (hsilent : Silent c .done) :
    Effect o t (match t.forwards[index]? with | some g => f g | none => (t, .done)).1 c
      (match t.forwards[index]? with | some g => f g | none => (t, .done)).2 := by
  cases hforward : t.forwards[index]? with
  | none => exact .quiet (.refl _) hsilent
  | some g => exact h g hforward

/-- Every call has one of the effects. -/
theorem call_effect (hkeyed : WellKeyed t.broker) (c : TunnelCall) :
    Effect o t (t.call o c).1 c (t.call o c).2 := by
  cases c with
  | register registration => exact register_effect hkeyed registration
  | heartbeat beat => exact heartbeat_effect hkeyed beat
  | claimRelay ids => exact claimRelay_effect hkeyed ids
  | respondRelay ids id response => exact respondRelay_effect hkeyed ids id response
  | closeRoute request => exact closeRoute_effect hkeyed request
  | resolve slug => exact .quiet (resolve_quiet hkeyed slug) trivial
  | snapshot => exact .quiet (snapshot_cases hkeyed).1 trivial
  | forward req => exact .quiet (startForward_quiet hkeyed req) trivial
  | metered index result =>
      refine forward_effect (fun f _ => ?_) trivial
      split
      · exact .quiet (afterMeter_quiet hkeyed index f result) trivial
      · exact .quiet (.refl _) trivial
  | bodyRead index body =>
      refine forward_effect (fun f hf => ?_) trivial
      split
      · rename_i hreading
        cases body with
        | error e => exact .quiet (.of_guards _) trivial
        | ok body => exact .enqueues hf hreading rfl
      · exact .quiet (.refl _) trivial
  | finish index =>
      refine forward_effect (fun f _ => ?_) trivial
      split
      · split
        · exact .quiet (.of_guards _) trivial
        · exact .quiet (.refl _) trivial
      · exact .quiet (.of_guards _) trivial
      · exact .quiet (.refl _) trivial
  | expire timer => exact .expires rfl
  | timePasses ms => exact .quiet (.refl _) trivial

end Calls

end AgentGather.Tunnel
