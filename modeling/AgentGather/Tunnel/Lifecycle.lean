import AgentGather.Tunnel.Ownership

/-!
# The life of a route

What the callers of the broker see of a route over time: its status only moves forward, its
lifetime is capped, its slug is free for others when it is over, and then its identifiers
are worth nothing.
-/

namespace AgentGather.Tunnel

open AgentGather.Library

/-! ## What callers see -/

/-- What an error tells of the route that was asked about. -/
def seenInError (routeId : Option String) (e : TunnelError) : List (Option String × RouteStatus) :=
  match e.code with
  | .routeExpired => [(routeId, .expired)]
  | .routeClosed => [(routeId, .closed)]
  | _ => []

/-- What an event shows of routes: their ids and statuses. -/
def seen (es : List TunnelEvent) : TunnelEvent → List (Option String × RouteStatus)
  | (.register _, ⟨_, .route (.ok route), _⟩) => [(some route.routeId, route.status)]
  | (.heartbeat _, ⟨_, .route (.ok route), _⟩) => [(some route.routeId, route.status)]
  | (.heartbeat beat, ⟨_, .route (.error e), _⟩) => seenInError beat.routeId e
  | (.claimRelay ids, ⟨_, .claimed (.ok _), _⟩) => [(ids.routeId, .active)]
  | (.claimRelay ids, ⟨_, .claimed (.error e), _⟩) => seenInError ids.routeId e
  | (.closeRoute request, ⟨_, .closed (.ok _), _⟩) => [(request.routeId, .closed)]
  | (.resolve _, ⟨_, .route (.ok route), _⟩) => [(some route.routeId, route.status)]
  | (.resolve slug, ⟨_, .route (.error e), _⟩) =>
      seenInError ((registered slug es).map (·.routeId)) e
  | (.snapshot, ⟨_, .routes routes, _⟩) => routes.map fun route => (some route.routeId, route.status)
  | _ => []

/-- All that was seen, the latest first. -/
def allSeen : List TunnelEvent → List (Option String × RouteStatus)
  | [] => []
  | e :: es => seen es e ++ allSeen es

/-- The event shows no route as active whose lifetime is over. -/
def InLifetime (o : BrokerOptions) (es : List TunnelEvent) (e : TunnelEvent) : Prop :=
  ∀ routeId, (some routeId, RouteStatus.active) ∈ seen es e →
    ∀ route ∈ registrations (e :: es), route.routeId = routeId →
      e.2.time < route.createdAt + o.maxRouteLifetimeMs

/-- The events that `p` holds of show no route as active whose lifetime is over. -/
def CappedWhere (p : TunnelEvent → Bool) (o : BrokerOptions) : List TunnelEvent → Prop
  | [] => True
  | e :: es => (p e = true → InLifetime o es e) ∧ CappedWhere p o es

def isRegistering : TunnelEvent → Bool
  | (.register _, _) => true
  | _ => false

/-- The identifiers that a registration returned. -/
def RouteMetadata.identifiers (route : RouteMetadata) : RouteIdentifiers :=
  ⟨some route.routeId, some route.hostConnectionId⟩

/-- What holds of routes over their lives; the cap on what the events show that `p` holds
of. -/
structure RouteLives (p : TunnelEvent → Bool) (o : BrokerOptions) (t : Traffic)
    (es : List TunnelEvent) : Prop where
  forward : (allSeen es).Pairwise fun later earlier =>
    later.1 = earlier.1 → earlier.2.rank ≤ later.2.rank
  capped : CappedWhere p o es
  registers : ∀ registration slug, checkRegistration o registration = .ok slug →
    ((∃ route, (t.broker.register o t.clock registration).2 = .ok route) ↔
      ¬ ∃ route, (t.broker.resolve o t.clock slug).2 = .ok route ∧ route.hostConnected = true)
  replaced : ∀ route ∈ registrations es, registered route.routeSlug es ≠ some route →
    (t.broker.heartbeat o t.clock route.identifiers).2 = .error Broker.routeNotFound ∧
      (t.broker.claimRelay o t.clock route.identifiers).2 = .error Broker.routeNotFound ∧
      (∀ id response, (t.broker.respondRelay o t.clock route.identifiers id response).2 =
        .error Broker.routeNotFound) ∧
      (t.broker.closeRoute o t.clock route.identifiers).2 = .error Broker.routeNotFound

section

variable {o : BrokerOptions} {t t' : Traffic} {es : List TunnelEvent}

/-! ## What one call shows -/

/-- What is shown of a route is its status when the call is over, and an active route is
shown as such only within its lifetime. -/
def Shown (o : BrokerOptions) (time : Nat) (b' : Broker) (x : Option String × RouteStatus) :
    Prop :=
  ∃ slug route, b'.routes.get? slug = some route ∧ x.1 = some route.routeId ∧
    x.2 = route.status ∧
    (x.2 = .active → time < route.createdAt + o.maxRouteLifetimeMs)

theorem seenInError_of_code {routeId : Option String} {e : TunnelError}
    (hexpired : e.code ≠ .routeExpired) (hclosed : e.code ≠ .routeClosed) :
    seenInError routeId e = [] := by
  unfold seenInError
  split
  · exact absurd (by assumption) hexpired
  · exact absurd (by assumption) hclosed
  · rfl

theorem shown_heartbeat (hkeyed : WellKeyed t.broker) (beat : RouteIdentifiers) {time : Nat}
    {hooks : List MeterCall} :
    ∀ x ∈ seen es (.heartbeat beat, ⟨time, (t.call o (.heartbeat beat)).2, hooks⟩),
      Shown o t.clock (t.call o (.heartbeat beat)).1.broker x := by
  show ∀ x ∈ seen es (_, ⟨_, .route (t.broker.heartbeat o t.clock beat).2, _⟩),
    Shown o t.clock (t.broker.heartbeat o t.clock beat).1 x
  rcases heartbeat_cases (o := o) (n := t.clock) hkeyed beat with ⟨e, hexpired, hclosed, heq⟩ |
    ⟨slug, route, hroute, hnames, ⟨hstatus, heq⟩ | ⟨hstatus, heq⟩ |
      ⟨b', new, heq, -, hget, hs, hnew⟩⟩
  · rw [heq]
    intro x hx
    rw [show seen es (_, ⟨_, .route (.error e), _⟩) = seenInError beat.routeId e from rfl,
      seenInError_of_code hexpired hclosed] at hx
    cases hx
  · rw [heq]
    intro x hx
    obtain rfl := List.mem_singleton.mp hx
    exact ⟨slug, _, get?_update hkeyed hroute (refresh_succeeds o t.clock route),
      (namesRoute_iff.mp hnames).1, hstatus.symm, fun h => nomatch h⟩
  · rw [heq]
    intro x hx
    obtain rfl := List.mem_singleton.mp hx
    exact ⟨slug, _, get?_update hkeyed hroute (refresh_succeeds o t.clock route),
      (namesRoute_iff.mp hnames).1, hstatus.symm, fun h => nomatch h⟩
  · rw [heq]
    intro x hx
    obtain rfl := List.mem_singleton.mp hx
    refine ⟨slug, new, hget, rfl, rfl, fun hactive => ?_⟩
    rw [hnew] at hactive ⊢
    have hlife : t.clock < ((refresh o t.clock route).beaten o t.clock).createdAt +
        o.maxRouteLifetimeMs := refresh_active hactive
    exact hlife

theorem shown_claimRelay (hkeyed : WellKeyed t.broker) (ids : RouteIdentifiers) {time : Nat}
    {hooks : List MeterCall} :
    ∀ x ∈ seen es (.claimRelay ids, ⟨time, (t.call o (.claimRelay ids)).2, hooks⟩),
      Shown o t.clock (t.call o (.claimRelay ids)).1.broker x := by
  show ∀ x ∈ seen es (_, ⟨_, .claimed (t.broker.claimRelay o t.clock ids).2, _⟩),
    Shown o t.clock (t.broker.claimRelay o t.clock ids).1 x
  rcases claimRelay_cases (o := o) (n := t.clock) hkeyed ids with ⟨-, heq⟩ |
    ⟨slug, route, hroute, hnames, ⟨hstatus, heq⟩ | ⟨hstatus, heq⟩ |
      ⟨hstatus, b', new, -, hget, hs, hnew, heq⟩⟩
  · rw [heq]
    intro x hx
    cases hx
  · rw [heq]
    intro x hx
    obtain rfl := List.mem_singleton.mp hx
    exact ⟨slug, _, get?_update hkeyed hroute (refresh_succeeds o t.clock route),
      (namesRoute_iff.mp hnames).1, hstatus.symm, fun h => nomatch h⟩
  · rw [heq]
    intro x hx
    obtain rfl := List.mem_singleton.mp hx
    exact ⟨slug, _, get?_update hkeyed hroute (refresh_succeeds o t.clock route),
      (namesRoute_iff.mp hnames).1, hstatus.symm, fun h => nomatch h⟩
  · rw [heq]
    intro x hx
    obtain rfl := List.mem_singleton.mp hx
    refine ⟨slug, new, hget, ?_, hnew.symm, fun _ => ?_⟩
    · rw [hs.id]
      exact (namesRoute_iff.mp hnames).1
    · rw [hs.created]
      exact refresh_active hstatus

theorem shown_closeRoute (hkeyed : WellKeyed t.broker) (request : RouteIdentifiers)
    {time : Nat} {hooks : List MeterCall} :
    ∀ x ∈ seen es (.closeRoute request, ⟨time, (t.call o (.closeRoute request)).2, hooks⟩),
      Shown o t.clock (t.call o (.closeRoute request)).1.broker x := by
  show ∀ x ∈ seen es (_, ⟨_, .closed (t.broker.closeRoute o t.clock request).2, _⟩),
    Shown o t.clock (t.broker.closeRoute o t.clock request).1 x
  rcases closeRoute_cases (b := t.broker) (o := o) (n := t.clock) request with ⟨-, heq⟩ |
    ⟨slug, route, hroute, hfind, heq⟩
  · rw [heq]
    intro x hx
    cases hx
  · rw [heq]
    intro x hx
    obtain rfl := List.mem_singleton.mp hx
    exact ⟨slug, _, (shut_evolves hkeyed hroute).2, (namesRoute_iff.mp (findRoute_some hfind).1).1,
      rfl, fun h => nomatch h⟩

theorem shown_resolve (hinv : BrokerInv o t es) (slug : String) {time : Nat}
    {hooks : List MeterCall} :
    ∀ x ∈ seen es (.resolve slug, ⟨time, (t.call o (.resolve slug)).2, hooks⟩),
      Shown o t.clock (t.call o (.resolve slug)).1.broker x := by
  show ∀ x ∈ seen es (_, ⟨_, .route (t.broker.resolve o t.clock slug).2, _⟩),
    Shown o t.clock (t.broker.resolve o t.clock slug).1 x
  have hkeyed := hinv.wellKeyed
  rcases resolve_cases (o := o) (n := t.clock) hkeyed slug with ⟨-, e, hcode, heq⟩ |
    ⟨route, hroute, hbroker, hresult⟩
  · rw [heq]
    intro x hx
    rw [show seen es (_, ⟨_, .route (.error e), _⟩) = seenInError _ e from rfl,
      seenInError_of_code (by rw [hcode]; decide) (by rw [hcode]; decide)] at hx
    cases hx
  · have hget := get?_update hkeyed hroute (refresh_succeeds o t.clock route)
    obtain ⟨first, hfirst, hs⟩ := hinv.stored hroute
    have hid : (registered slug es).map (·.routeId) = some route.routeId := by
      rw [hfirst, Option.map_some, hs.id]
    rw [hbroker, hresult]
    intro x hx
    cases hstatus : (refresh o t.clock route).status with
    | closed =>
        rw [hstatus] at hx
        obtain rfl := List.mem_singleton.mp hx
        exact ⟨slug, _, hget, hid, hstatus.symm, fun h => nomatch h⟩
    | expired =>
        rw [hstatus] at hx
        obtain rfl := List.mem_singleton.mp hx
        exact ⟨slug, _, hget, hid, hstatus.symm, fun h => nomatch h⟩
    | active =>
        rw [hstatus] at hx
        obtain rfl := List.mem_singleton.mp hx
        exact ⟨slug, _, hget, rfl, rfl,
          fun _ => (refresh_active hstatus : t.clock < route.createdAt + _)⟩

theorem shown_snapshot (hkeyed : WellKeyed t.broker) {time : Nat} {hooks : List MeterCall} :
    ∀ x ∈ seen es (.snapshot, ⟨time, (t.call o .snapshot).2, hooks⟩),
      Shown o t.clock (t.call o .snapshot).1.broker x := by
  intro x hx
  obtain ⟨route, hmem, rfl⟩ := List.mem_map.mp hx
  obtain ⟨slug, hroute⟩ := OrderedMap.mem_values_iff.mp hmem
  refine ⟨slug, route, hroute, rfl, rfl, fun hactive => ?_⟩
  have hstored := (snapshot_cases (o := o) (n := t.clock) hkeyed).2 slug
  obtain ⟨old, -, rfl⟩ := Option.map_eq_some_iff.mp (hstored.symm.trans hroute)
  exact (refresh_active hactive : t.clock < old.createdAt + _)

theorem Effect.registered {registration : HostRegistration} {route : RouteMetadata}
    (h : Effect o t t' (.register registration) (.route (.ok route))) :
    Registers o t t' registration route := by
  generalize hr : TunnelResult.route (.ok route) = r at h
  cases h with
  | quiet _ hsilent =>
      subst hr
      exact absurd hsilent not_false
  | registers h =>
      cases hr
      exact h

/-- A registration shows its route, and whatever else a call shows is so. -/
theorem shown_call (hinv : BrokerInv o t es) (c : TunnelCall) (time : Nat)
    (hooks : List MeterCall) :
    (∀ x ∈ seen es (c, ⟨time, (t.call o c).2, hooks⟩),
      Shown o t.clock (t.call o c).1.broker x) ∨
    ∃ registration route, c = .register registration ∧ (t.call o c).2 = .route (.ok route) ∧
      Registers o t (t.call o c).1 registration route := by
  have hkeyed := hinv.wellKeyed
  cases c with
  | register registration =>
      have heffect := register_effect (o := o) hkeyed registration
      cases hresult : (t.call o (.register registration)).2 with
      | route result =>
          cases result with
          | error e => exact .inl fun _ hx => nomatch hx
          | ok route =>
              rw [hresult] at heffect
              exact .inr ⟨registration, route, rfl, rfl, heffect.registered⟩
      | _ => exact .inl fun _ hx => nomatch hx
  | heartbeat beat => exact .inl (shown_heartbeat hkeyed beat)
  | claimRelay ids => exact .inl (shown_claimRelay hkeyed ids)
  | closeRoute request => exact .inl (shown_closeRoute hkeyed request)
  | resolve slug => exact .inl (shown_resolve hinv slug)
  | snapshot => exact .inl (shown_snapshot hkeyed)
  | _ => exact .inl fun _ hx => nomatch hx

/-! ## Statuses that move forward -/

/-- What was seen of a stored route is not ahead of it, and all that was seen was
registered. -/
def Behind (t : Traffic) (es : List TunnelEvent) (x : Option String × RouteStatus) : Prop :=
  (∀ slug route, t.broker.routes.get? slug = some route → x.1 = some route.routeId →
    x.2.rank ≤ route.status.rank) ∧
  ∃ route ∈ registrations es, x.1 = some route.routeId

/-- What is behind the stored routes stays behind them. -/
theorem Behind.effect {c : TunnelCall} {r : TunnelResult} {x : Option String × RouteStatus}
    (hx : Behind t es x) (hinv : BrokerInv o t es) (h : Effect o t t' c r) (time : Nat)
    (hooks : List MeterCall) : Behind t' ((c, ⟨time, r, hooks⟩) :: es) x := by
  obtain ⟨hrank, first, hfirst, hid⟩ := hx
  have hkept (slug : String) (route : RouteMetadata)
      (hrel : Option.Rel Succeeds (t.broker.routes.get? slug) (t'.broker.routes.get? slug))
      (hroute : t'.broker.routes.get? slug = some route) (hx : x.1 = some route.routeId) :
      x.2.rank ≤ route.status.rank := by
    rw [hroute] at hrel
    obtain ⟨old, hold, hs⟩ := rel_some hrel
    exact Nat.le_trans (hrank slug old hold (by rw [hx, hs.id])) hs.status
  rcases h.routes hinv.wellKeyed with ⟨hevolves, hsame⟩ | ⟨registration, route, rfl, rfl, hreg⟩
  · refine ⟨fun slug route hroute => hkept slug route (hevolves.routes slug) hroute,
      first, ?_, hid⟩
    rw [hsame]
    exact hfirst
  · refine ⟨fun slug r hr hxr => ?_, first, List.mem_cons_of_mem _ hfirst, hid⟩
    by_cases hslug : slug = route.routeSlug
    · subst hslug
      obtain rfl := Option.some.inj (hreg.stored.symm.trans hr)
      have heq : first.routeId = route.routeId := Option.some.inj (hid.symm.trans hxr)
      exact absurd (heq.trans hreg.routeId) (hinv.fresh hfirst)
    · exact hkept slug r (hreg.others hinv.wellKeyed hslug) hr hxr

/-- What a call shows is behind the routes that are stored when it is over. -/
theorem BrokerInv.behind_of_shown (hinv : BrokerInv o t es) {x : Option String × RouteStatus}
    {slug : String} {route : RouteMetadata} (hroute : t.broker.routes.get? slug = some route)
    (hid : x.1 = some route.routeId) (hstatus : x.2 = route.status) : Behind t es x := by
  constructor
  · intro s r hr hx
    have hslug := hinv.slug_of_id hr hroute (Option.some.inj (hx.symm.trans hid))
    subst hslug
    rw [Option.some.inj (hr.symm.trans hroute), hstatus]
  · obtain ⟨first, hfirst, hs⟩ := hinv.stored hroute
    exact ⟨first, (registered_some hfirst).1, by rw [hid, hs.id]⟩

/-- All that a call shows is a route that is stored when the call is over. -/
theorem seen_stored (hinv : BrokerInv o t es) (c : TunnelCall) {time : Nat}
    {hooks : List MeterCall} {x : Option String × RouteStatus}
    (hx : x ∈ seen es (c, ⟨time, (t.call o c).2, hooks⟩)) :
    ∃ slug route, (t.call o c).1.broker.routes.get? slug = some route ∧
      x.1 = some route.routeId ∧ x.2 = route.status := by
  rcases shown_call hinv c time hooks with hshown |
    ⟨registration, route, rfl, hresult, hreg⟩
  · obtain ⟨slug, route, hroute, hid, hstatus, -⟩ := hshown x hx
    exact ⟨slug, route, hroute, hid, hstatus⟩
  · rw [hresult] at hx
    obtain rfl := List.mem_singleton.mp hx
    exact ⟨route.routeSlug, route, hreg.stored, rfl, rfl⟩

/-- What was seen so far moves forward, and is behind the stored routes. -/
structure SeenInv (t : Traffic) (es : List TunnelEvent) : Prop where
  forward : (allSeen es).Pairwise fun later earlier =>
    later.1 = earlier.1 → earlier.2.rank ≤ later.2.rank
  behind : ∀ x ∈ allSeen es, Behind t es x

theorem SeenInv.call (hseen : SeenInv t es) (hinv : BrokerInv o t es) (c : TunnelCall)
    (time : Nat) (hooks : List MeterCall) :
    SeenInv (t.call o c).1 ((c, ⟨time, (t.call o c).2, hooks⟩) :: es) := by
  have heffect := call_effect (o := o) hinv.wellKeyed c
  have hinv' := hinv.effect heffect time hooks
  have hold (x : Option String × RouteStatus) (hx : x ∈ allSeen es) :=
    (hseen.behind x hx).effect hinv heffect time hooks
  constructor
  · show (seen es _ ++ allSeen es).Pairwise _
    rw [List.pairwise_append]
    refine ⟨?_, hseen.forward, fun x hx y hy hid => ?_⟩
    · -- what one call shows of a route is its status at one moment
      apply List.pairwise_of_forall_mem_list
      intro x hx y hy hid
      obtain ⟨slug, route, hroute, hxid, hxstatus⟩ := seen_stored hinv c hx
      obtain ⟨slug', route', hroute', hyid, hystatus⟩ := seen_stored hinv c hy
      have hbehind := hinv'.behind_of_shown hroute' hyid hystatus
      rw [hxstatus]
      exact hbehind.1 slug route hroute (hid.symm.trans hxid)
    · obtain ⟨slug, route, hroute, hxid, hxstatus⟩ := seen_stored hinv c hx
      rw [hxstatus]
      exact (hold y hy).1 slug route hroute (hid.symm.trans hxid)
  · intro x hx
    rcases List.mem_append.mp (show x ∈ seen es _ ++ allSeen es from hx) with hx | hx
    · obtain ⟨slug, route, hroute, hid, hstatus⟩ := seen_stored hinv c hx
      exact hinv'.behind_of_shown hroute hid hstatus
    · exact hold x hx

theorem seenInv_exec (o : BrokerOptions) (calls : List TunnelCall) :
    SeenInv ((tunnelMachine o).exec calls).1 ((tunnelMachine o).exec calls).2 := by
  induction calls using List.reverseRecOn with
  | nil => exact ⟨List.Pairwise.nil, fun _ hx => nomatch hx⟩
  | append_singleton calls c ih =>
      rw [exec_call]
      exact ih.call (brokerInv_exec o calls) c _ _

/-! ## Lifetimes -/

/-- Whatever is not a registration shows an active route within its lifetime. -/
theorem inLifetime_call (hinv : BrokerInv o t es) (c : TunnelCall) (hooks : List MeterCall)
    (hc : isRegistering (c, ⟨t.clock, (t.call o c).2, hooks⟩) = false) :
    InLifetime o es (c, ⟨t.clock, (t.call o c).2, hooks⟩) := by
  intro routeId hseen route hroute hid
  have hinv' := hinv.effect (call_effect (o := o) hinv.wellKeyed c) t.clock hooks
  rcases shown_call hinv c t.clock hooks with hshown |
    ⟨registration, _, rfl, -⟩
  · obtain ⟨slug, stored, hstored, hstoredId, -, hlife⟩ := hshown _ hseen
    obtain ⟨first, hfirst, hs⟩ := hinv'.stored hstored
    have hsame : route = first :=
      List.inj_on_of_nodup_map hinv'.distinct hroute (registered_some hfirst).1
        (hid.trans ((Option.some.inj hstoredId).trans hs.id))
    rw [hsame, ← hs.created]
    exact hlife rfl
  · cases hc

theorem capped_exec (o : BrokerOptions) (calls : List TunnelCall) :
    CappedWhere (fun e => !isRegistering e) o ((tunnelMachine o).exec calls).2 := by
  induction calls using List.reverseRecOn with
  | nil => trivial
  | append_singleton calls c ih =>
      rw [exec_call]
      exact ⟨fun hc => inLifetime_call (brokerInv_exec o calls) c _ (by simpa using hc), ih⟩

/-! ## Slugs and identifiers -/

/-- A slug is held when resolving it finds a route whose host is connected. -/
theorem held_iff_resolve (hkeyed : WellKeyed t.broker) (slug : String) :
    Held o t.broker t.clock slug ↔
      ∃ route, (t.broker.resolve o t.clock slug).2 = .ok route ∧ route.hostConnected = true := by
  rcases resolve_cases (o := o) (n := t.clock) hkeyed slug with ⟨hnone, e, -, heq⟩ |
    ⟨route, hroute, -, hresult⟩
  · rw [heq]
    constructor
    · rintro ⟨route, hroute, -⟩
      rw [hnone] at hroute
      cases hroute
    · rintro ⟨route, hroute, -⟩
      cases hroute
  · rw [hresult]
    constructor
    · rintro ⟨found, hfound, hactive, hconnected⟩
      obtain rfl := Option.some.inj (hroute.symm.trans hfound)
      rw [hactive]
      exact ⟨_, rfl, hconnected⟩
    · rintro ⟨found, hfound, hconnected⟩
      cases hstatus : (refresh o t.clock route).status with
      | active =>
          rw [hstatus] at hfound
          obtain rfl := Except.ok.inj hfound
          exact ⟨route, hroute, hstatus, hconnected⟩
      | _ =>
          rw [hstatus] at hfound
          cases hfound

theorem register_iff (hkeyed : WellKeyed t.broker) {registration : HostRegistration}
    {slug : String} (hcheck : checkRegistration o registration = .ok slug) :
    (∃ route, (t.broker.register o t.clock registration).2 = .ok route) ↔
      ¬ ∃ route, (t.broker.resolve o t.clock slug).2 = .ok route ∧
        route.hostConnected = true := by
  rw [← held_iff_resolve hkeyed slug]
  rcases register_cases (o := o) (n := t.clock) hkeyed registration with ⟨e, herror, -⟩ |
    ⟨s, hs, ⟨hheld, ⟨e, he⟩, -⟩ | ⟨hfree, heq⟩⟩
  · rw [hcheck] at herror
    cases herror
  · obtain rfl := Except.ok.inj (hcheck.symm.trans hs)
    rw [he]
    exact ⟨fun ⟨_, h⟩ => (nomatch h), fun h => absurd hheld h⟩
  · obtain rfl := Except.ok.inj (hcheck.symm.trans hs)
    rw [heq]
    exact ⟨fun _ => hfree, fun _ => ⟨_, rfl⟩⟩

/-- The identifiers of a route that was replaced find nothing. -/
theorem BrokerInv.findRoute_replaced (hinv : BrokerInv o t es) {route : RouteMetadata}
    (hroute : route ∈ registrations es) (hreplaced : registered route.routeSlug es ≠ some route) :
    t.broker.findRoute route.identifiers = none := by
  cases hfind : t.broker.findRoute route.identifiers with
  | none => rfl
  | some found =>
      obtain ⟨hnames, slug, hstored⟩ := findRoute_some hfind
      obtain ⟨first, hfirst, hs⟩ := hinv.stored hstored
      have hid : route.routeId = found.routeId := Option.some.inj (namesRoute_iff.mp hnames).1
      have hsame : route = first :=
        List.inj_on_of_nodup_map hinv.distinct hroute (registered_some hfirst).1
          (hid.trans hs.id)
      have hslug : route.routeSlug = slug := hsame ▸ (registered_some hfirst).2
      rw [hslug, hfirst, hsame] at hreplaced
      exact absurd rfl hreplaced

/-- Identifiers that find nothing are rejected by every call of a host. -/
theorem rejected_of_unknown {route : RouteMetadata}
    (h : t.broker.findRoute route.identifiers = none) :
    (t.broker.heartbeat o t.clock route.identifiers).2 = .error Broker.routeNotFound ∧
      (t.broker.claimRelay o t.clock route.identifiers).2 = .error Broker.routeNotFound ∧
      (∀ id response, (t.broker.respondRelay o t.clock route.identifiers id response).2 =
        .error Broker.routeNotFound) ∧
      (t.broker.closeRoute o t.clock route.identifiers).2 = .error Broker.routeNotFound := by
  have hfind : t.broker.findByConnection o t.clock route.identifiers =
      (t.broker, .error Broker.routeNotFound) := by
    unfold Broker.findByConnection
    rw [h]
  refine ⟨?_, ?_, fun id response => ?_, ?_⟩
  · unfold Broker.heartbeat
    rw [if_neg (by simp [RouteMetadata.identifiers]), hfind]
  · unfold Broker.claimRelay
    rw [hfind]
  · unfold Broker.respondRelay
    rw [hfind]
  · unfold Broker.closeRoute
    rw [hfind]

end

/-- Whatever is called in whatever order: the status that is seen of a route only moves
forward; but for its registration a route is never seen active when its lifetime is over; a
slug can be registered exactly when it has no active route whose host is connected; and
the identifiers of a route that was replaced are rejected. -/
theorem routeLives (o : BrokerOptions) (calls : List TunnelCall) :
    RouteLives (fun e => !isRegistering e) o ((tunnelMachine o).exec calls).1
      ((tunnelMachine o).exec calls).2 := by
  have hinv := brokerInv_exec o calls
  refine ⟨(seenInv_exec o calls).forward, capped_exec o calls, fun registration slug hcheck =>
    register_iff hinv.wellKeyed hcheck, fun route hroute hreplaced => ?_⟩
  exact rejected_of_unknown (hinv.findRoute_replaced hroute hreplaced)

/-- Routes may be configured to have no lifetime at all. -/
theorem registration_seen_active : ¬ ∀ o calls,
    RouteLives (fun _ => true) o ((tunnelMachine o).exec calls).1
      ((tunnelMachine o).exec calls).2 := by
  intro h
  have hcapped := (h { defaultOptions with maxRouteLifetimeMs := 0 }
    [.register ⟨some "a", none⟩]).capped.1 rfl
  exact absurd (hcapped "rte_" List.mem_cons_self _ List.mem_cons_self rfl) (by decide)

end AgentGather.Tunnel
