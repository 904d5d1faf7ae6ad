import AgentGather.Tunnel.Ownership

/-!
# Metering of public routes

The meter hears of the registration and of the closing of public routes.  Whether a route
is public is read off the targets when it is closed, and closing it drops its target: the
hooks are called as they should be exactly as long as no route is closed twice.
-/

namespace AgentGather.Tunnel

open AgentGather.Library

/-! ## What the history says -/

/-- The ids of the routes that were registered with, or without, a local target. -/
def registeredWith (isLocal : Bool) (es : List TunnelEvent) : List String :=
  es.filterMap fun
    | (.register registration, ⟨_, .route (.ok route), _⟩) =>
        if registration.target.isSome = isLocal then some route.routeId else none
    | _ => none

/-- The routes whose registration the meter heard of, the latest first. -/
def meteredRegistrations : List TunnelEvent → List (Option String)
  | [] => []
  | (c, ⟨time, r, hooks⟩) :: es =>
      (hooks.filterMap fun
        | .routeRegistered slug =>
            some ((registered slug ((c, ⟨time, r, hooks⟩) :: es)).map (·.routeId))
        | .routeClosed _ _ => none) ++ meteredRegistrations es

/-- The routes whose closing the meter heard of, the latest first. -/
def meteredClosings : List TunnelEvent → List (Option String)
  | [] => []
  | (_, ⟨_, _, hooks⟩) :: es =>
      (hooks.filterMap fun
        | .routeClosed slug _ => some ((registered slug es).map (·.routeId))
        | .routeRegistered _ => none) ++ meteredClosings es

/-- The meter heard once of the registration of each public route and of nothing else, and of
the closing of each route at most once, and never of that of a local one. -/
structure MeteredOnce (es : List TunnelEvent) : Prop where
  heard : meteredRegistrations es = (registeredWith false es).map some
  distinct : (registeredWith false es).Nodup
  closedOnce : (meteredClosings es).Nodup
  neverLocal : ∀ x ∈ meteredClosings es, ∃ id, x = some id ∧ id ∉ registeredWith true es

/-- No route is closed that is closed already. -/
def closesOnce (t : Traffic) : TunnelCall → Prop
  | .closeRoute request => ∀ route ∈ t.broker.findRoute request, route.status ≠ .closed
  | _ => True

instance (t : Traffic) (c : TunnelCall) : Decidable (closesOnce t c) :=
  match c with
  | .closeRoute _ => inferInstanceAs (Decidable (∀ route ∈ _, _ ≠ _))
  | .register _ | .heartbeat _ | .claimRelay _ | .resolve _ | .snapshot | .forward _
  | .metered _ _ | .bodyRead _ _ | .finish _ | .expire _ | .timePasses _
  | .respondRelay _ _ _ => isTrue trivial

/-! ## One call -/

/-- What the targets and the meter tell of the stored routes. -/
structure MeterInv (t : Traffic) (es : List TunnelEvent) : Prop where
  targets : ∀ slug route, t.broker.routes.get? slug = some route →
    ((t.broker.targets.get? slug).isSome ↔
      route.status ≠ .closed ∧ route.routeId ∈ registeredWith true es)
  closed : ∀ slug route, t.broker.routes.get? slug = some route →
    some route.routeId ∈ meteredClosings es → route.status = .closed
  metered : ∀ slug route, t.broker.routes.get? slug = some route → route.status = .closed →
    route.routeId ∉ registeredWith true es → some route.routeId ∈ meteredClosings es
  known : ∀ id, some id ∈ meteredClosings es → ∃ route ∈ registrations es, route.routeId = id
  heard : meteredRegistrations es = (registeredWith false es).map some

section

variable {o : BrokerOptions} {t t' : Traffic} {es : List TunnelEvent} {c : TunnelCall}
  {r : TunnelResult}

/-- An event registers a route, or the history of registrations goes on without it. -/
theorem event_cases (e : TunnelEvent) :
    (∃ registration route time hooks,
      e = (.register registration, ⟨time, .route (.ok route), hooks⟩)) ∨
    ∀ es, registrations (e :: es) = registrations es ∧
      ∀ isLocal, registeredWith isLocal (e :: es) = registeredWith isLocal es := by
  obtain ⟨c, ⟨time, r, hooks⟩⟩ := e
  cases c with
  | register registration =>
      cases r with
      | route result =>
          cases result with
          | error e => exact .inr fun _ => ⟨rfl, fun _ => rfl⟩
          | ok route => exact .inl ⟨registration, route, time, hooks, rfl⟩
      | _ => exact .inr fun _ => ⟨rfl, fun _ => rfl⟩
  | _ => exact .inr fun _ => ⟨rfl, fun _ => rfl⟩

/-- What a registration adds. -/
theorem registeredWith_register (isLocal : Bool) (registration : HostRegistration)
    (route : RouteMetadata) (time : Nat) (hooks : List MeterCall) :
    registeredWith isLocal
        ((.register registration, ⟨time, .route (.ok route), hooks⟩) :: es) =
      if registration.target.isSome = isLocal then route.routeId :: registeredWith isLocal es
      else registeredWith isLocal es := by
  unfold registeredWith
  rw [List.filterMap_cons]
  by_cases h : registration.target.isSome = isLocal
  · simp only [h, if_true]
  · simp only [h, if_false]

theorem registeredWith_sublist (isLocal : Bool) (es : List TunnelEvent) :
    (registeredWith isLocal es).Sublist ((registrations es).map (·.routeId)) := by
  induction es with
  | nil => exact List.Sublist.refl _
  | cons e es ih =>
      rcases event_cases e with ⟨registration, route, time, hooks, rfl⟩ | hsame
      · rw [registrations_register, registeredWith_register, List.map_cons]
        split
        · exact ih.cons_cons _
        · exact ih.cons _
      · rw [(hsame es).1, (hsame es).2 isLocal]
        exact ih

theorem mem_registeredWith {isLocal : Bool} {id : String}
    (h : id ∈ registeredWith isLocal es) : ∃ route ∈ registrations es, route.routeId = id :=
  List.mem_map.mp ((registeredWith_sublist isLocal es).subset h)

/-- The stored route behind a quiet call. -/
theorem Quiet.stored {b b' : Broker} (h : Quiet b b') {slug : String} {route : RouteMetadata}
    (hroute : b'.routes.get? slug = some route) :
    ∃ old, b.routes.get? slug = some old ∧ route.routeId = old.routeId ∧
      (route.status = .closed ↔ old.status = .closed) := by
  have hrel := h.evolves.routes slug
  rw [hroute] at hrel
  obtain ⟨old, hold, hs⟩ := rel_some hrel
  refine ⟨old, hold, hs.id, fun hclosed => ?_, fun hclosed => ?_⟩
  · obtain ⟨old', hold', hclosed'⟩ := h.closed slug route hroute hclosed
    rw [Option.some.inj (hold.symm.trans hold')]
    exact hclosed'
  · have hrank := hs.status
    rw [hclosed] at hrank
    cases hstatus : route.status with
    | closed => rfl
    | _ =>
        rw [hstatus] at hrank
        exact absurd hrank (by decide)

/-- A call registers a route, closes one, or is quiet but for the relay. -/
theorem Effect.lifecycle (h : Effect o t t' c r) :
    (∃ registration route, c = .register registration ∧ r = .route (.ok route) ∧
      Registers o t t' registration route) ∨
    (∃ request slug route, c = .closeRoute request ∧ r = .closed (.ok slug) ∧
      t.broker.routes.get? slug = some route ∧ t.broker.findRoute request = some route ∧
      t'.broker = (t.broker.update (refresh o t.clock route)).shut t.clock
        (refresh o t.clock route)) ∨
    ((∀ request slug, c = .closeRoute request → r ≠ .closed (.ok slug)) ∧
      Quiet t.broker { t'.broker with relay := t.broker.relay } ∧
      ∀ time hooks es, registrations ((c, ⟨time, r, hooks⟩) :: es) = registrations es ∧
        ∀ isLocal, registeredWith isLocal ((c, ⟨time, r, hooks⟩) :: es) =
          registeredWith isLocal es) := by
  cases h with
  | quiet hquiet hsilent =>
      refine .inr (.inr ⟨?_, ?_, fun time hooks es => ?_⟩)
      · rintro request slug rfl rfl
        exact hsilent
      · rw [← hquiet.relay]
        exact hquiet
      · rcases event_cases (c, ⟨time, r, hooks⟩) with ⟨registration, route, _, _, heq⟩ | hsame
        · cases heq
          exact absurd hsilent not_false
        · exact hsame es
  | registers h => exact .inl ⟨_, _, rfl, rfl, h⟩
  | closes hstored hfound hbroker =>
      exact .inr (.inl ⟨_, _, _, rfl, rfl, hstored, hfound, hbroker⟩)
  | claims _ _ _ hquiet hbroker =>
      refine .inr (.inr ⟨fun _ _ h => (nomatch h), ?_, fun _ _ _ => ⟨rfl, fun _ => rfl⟩⟩)
      rw [hbroker, ← hquiet.relay]
      exact hquiet
  | responds _ hquiet hbroker =>
      refine .inr (.inr ⟨fun _ _ h => (nomatch h), ?_, fun _ _ _ => ⟨rfl, fun _ => rfl⟩⟩)
      rw [hbroker, ← hquiet.relay]
      exact hquiet
  | enqueues _ _ hbroker =>
      refine .inr (.inr ⟨fun _ _ h => (nomatch h), ?_, fun _ _ _ => ⟨rfl, fun _ => rfl⟩⟩)
      rw [hbroker]
      exact .refl _
  | expires hbroker =>
      refine .inr (.inr ⟨fun _ _ h => (nomatch h), ?_, fun _ _ _ => ⟨rfl, fun _ => rfl⟩⟩)
      rw [hbroker]
      exact .refl _

/-! ## The hooks of one call -/

theorem newHooks_registers {registration : HostRegistration} {route : RouteMetadata}
    (h : Registers o t t' registration route) (hkeyed : WellKeyed t.broker) :
    newHooks t.broker t'.broker =
      if registration.target.isSome then [] else [.routeRegistered route.routeSlug] := by
  have hmetered := (currentRoute_quiet (o := o) (n := t.clock) hkeyed route.routeSlug).metered
  cases htarget : registration.target with
  | some target =>
      apply newHooks_of_same
      rw [h.broker, htarget]
      exact hmetered
  | none =>
      apply newHooks_of_cons
      rw [h.broker, htarget]
      exact congrArg (_ :: ·) hmetered

theorem newHooks_closes {slug : String} {route : RouteMetadata} (hkeyed : WellKeyed t.broker)
    (hstored : t.broker.routes.get? slug = some route)
    (hbroker : t'.broker = (t.broker.update (refresh o t.clock route)).shut t.clock
      (refresh o t.clock route)) :
    newHooks t.broker t'.broker =
      if (t.broker.targets.get? slug).isNone then
        [.routeClosed slug (t.clock - route.createdAt)]
      else [] := by
  have hslug : route.routeSlug = slug := hkeyed slug route hstored
  subst hslug
  split
  · rename_i hnone
    apply newHooks_of_cons
    rw [hbroker]
    exact if_pos hnone
  · rename_i hsome
    apply newHooks_of_same
    rw [hbroker]
    exact if_neg hsome

/-! ## The invariant -/

theorem MeterInv.initial : MeterInv .initial [] where
  targets _ _ h := nomatch h
  closed _ _ h := nomatch h
  metered _ _ h := nomatch h
  known _ h := nomatch h
  heard := rfl

/-- A call that neither registers nor closes a route. -/
theorem MeterInv.quiet (hm : MeterInv t es)
    (hquiet : Quiet t.broker { t'.broker with relay := t.broker.relay })
    (hhistory : ∀ time hooks es, registrations ((c, ⟨time, r, hooks⟩) :: es) = registrations es ∧
      ∀ isLocal, registeredWith isLocal ((c, ⟨time, r, hooks⟩) :: es) =
        registeredWith isLocal es) (time : Nat) :
    MeterInv t' ((c, ⟨time, r, newHooks t.broker t'.broker⟩) :: es) := by
  have hhooks : newHooks t.broker t'.broker = [] := newHooks_of_same hquiet.metered
  have htargets : t'.broker.targets = t.broker.targets := hquiet.targets
  obtain ⟨hregistrations, hwith⟩ := hhistory time [] es
  rw [hhooks]
  constructor
  · intro slug route hroute
    obtain ⟨old, hold, hid, hclosed⟩ := hquiet.stored hroute
    rw [htargets, hwith, hid, ne_eq, hclosed]
    exact hm.targets slug old hold
  · intro slug route hroute hmem
    obtain ⟨old, hold, hid, hclosed⟩ := hquiet.stored hroute
    exact hclosed.mpr (hm.closed slug old hold (hid ▸ hmem))
  · intro slug route hroute hstatus hnot
    obtain ⟨old, hold, hid, hclosed⟩ := hquiet.stored hroute
    rw [hwith, hid] at hnot
    rw [hid]
    exact hm.metered slug old hold (hclosed.mp hstatus) hnot
  · intro id hmem
    rw [hregistrations]
    exact hm.known id hmem
  · rw [hwith]
    exact hm.heard

/-- A new route is not known to the meter before. -/
theorem MeterInv.fresh (hm : MeterInv t es) (hinv : BrokerInv o t es)
    {registration : HostRegistration} {route : RouteMetadata}
    (h : Registers o t t' registration route) :
    some route.routeId ∉ meteredClosings es ∧
      ∀ isLocal, route.routeId ∉ registeredWith isLocal es := by
  constructor
  · intro hmem
    obtain ⟨first, hfirst, hid⟩ := hm.known _ hmem
    exact hinv.fresh hfirst (hid.trans h.routeId)
  · intro isLocal hmem
    obtain ⟨first, hfirst, hid⟩ := mem_registeredWith hmem
    exact hinv.fresh hfirst (hid.trans h.routeId)

/-- No closing is metered when a route is registered. -/
theorem meteredClosings_registers {registration : HostRegistration} {route : RouteMetadata}
    (h : Registers o t t' registration route) (hkeyed : WellKeyed t.broker) (time : Nat)
    (es : List TunnelEvent) :
    meteredClosings ((.register registration,
      ⟨time, .route (.ok route), newHooks t.broker t'.broker⟩) :: es) = meteredClosings es := by
  rw [newHooks_registers h hkeyed]
  cases registration.target with
  | some target => rfl
  | none => rfl

theorem MeterInv.registers (hm : MeterInv t es) (hinv : BrokerInv o t es)
    {registration : HostRegistration} {route : RouteMetadata}
    (h : Registers o t t' registration route) (time : Nat) :
    MeterInv t' ((.register registration,
      ⟨time, .route (.ok route), newHooks t.broker t'.broker⟩) :: es) := by
  have hkeyed := hinv.wellKeyed
  have hclosings := meteredClosings_registers h hkeyed time es
  obtain ⟨hfreshClosed, hfreshWith⟩ := hm.fresh hinv h
  have hactive : route.status = .active := by
    rw [h.new]
    rfl
  -- the other slugs keep their routes and targets
  have hother (slug : String) (hne : slug ≠ route.routeSlug) :
      t'.broker.targets.get? slug = t.broker.targets.get? slug ∧
        ∀ r, t'.broker.routes.get? slug = some r → ∃ old,
          t.broker.routes.get? slug = some old ∧ r.routeId = old.routeId ∧
            (r.status = .closed ↔ old.status = .closed) := by
    have hquiet := currentRoute_quiet (o := o) (n := t.clock) hkeyed route.routeSlug
    constructor
    · rw [h.broker, ← hquiet.targets]
      unfold Broker.install
      split
      · exact OrderedMap.get?_set_ne _ _ hne
      · exact OrderedMap.get?_delete_ne _ hne
    · intro r hr
      rw [h.broker] at hr
      exact hquiet.stored ((OrderedMap.get?_set_ne _ _ hne).symm.trans hr)
  have hwith (r : RouteMetadata) (hne : r.routeId ≠ route.routeId) (isLocal : Bool) :
      r.routeId ∈ registeredWith isLocal ((.register registration,
        ⟨time, .route (.ok route), newHooks t.broker t'.broker⟩) :: es) ↔
      r.routeId ∈ registeredWith isLocal es := by
    rw [registeredWith_register]
    split
    · simp [hne]
    · rfl
  have hids (slug : String) (hne : slug ≠ route.routeSlug) (r old : RouteMetadata)
      (hold : t.broker.routes.get? slug = some old) (hid : r.routeId = old.routeId) :
      r.routeId ≠ route.routeId := by
    obtain ⟨first, hfirst, hs⟩ := hinv.stored hold
    intro heq
    exact hinv.fresh (registered_some hfirst).1
      (hs.id.symm.trans (hid.symm.trans (heq.trans h.routeId)))
  constructor
  · intro slug r hr
    by_cases hne : slug = route.routeSlug
    · subst hne
      obtain rfl := Option.some.inj (h.stored.symm.trans hr)
      rw [registeredWith_register, h.broker]
      unfold Broker.install
      cases htarget : registration.target with
      | some target =>
          simp [OrderedMap.get?_set_self, hactive]
      | none =>
          simp [OrderedMap.get?_delete_self, hfreshWith true]
    · obtain ⟨htargets, hroutes⟩ := hother slug hne
      obtain ⟨old, hold, hid, hclosed⟩ := hroutes r hr
      rw [htargets, hwith r (hids slug hne r old hold hid), hid, ne_eq, hclosed]
      exact hm.targets slug old hold
  · intro slug r hr hmem
    rw [hclosings] at hmem
    by_cases hne : slug = route.routeSlug
    · subst hne
      obtain rfl := Option.some.inj (h.stored.symm.trans hr)
      exact absurd hmem hfreshClosed
    · obtain ⟨old, hold, hid, hclosed⟩ := (hother slug hne).2 r hr
      exact hclosed.mpr (hm.closed slug old hold (hid ▸ hmem))
  · intro slug r hr hstatus hnot
    rw [hclosings]
    by_cases hne : slug = route.routeSlug
    · subst hne
      obtain rfl := Option.some.inj (h.stored.symm.trans hr)
      exact absurd (hactive.symm.trans hstatus) (by decide)
    · obtain ⟨old, hold, hid, hclosed⟩ := (hother slug hne).2 r hr
      rw [hwith r (hids slug hne r old hold hid), hid] at hnot
      rw [hid]
      exact hm.metered slug old hold (hclosed.mp hstatus) hnot
  · intro id hmem
    rw [hclosings] at hmem
    obtain ⟨first, hfirst, hid⟩ := hm.known id hmem
    exact ⟨first, List.mem_cons_of_mem _ hfirst, hid⟩
  · rw [registeredWith_register, newHooks_registers h hkeyed]
    cases registration.target with
    | some target => exact hm.heard
    | none =>
        have hregistered (hooks : List MeterCall) : registered route.routeSlug
            ((.register registration, ⟨time, .route (.ok route), hooks⟩) :: es) =
            some route := by
          unfold registered
          rw [registrations_register, List.find?_cons, decide_eq_true rfl]
        show (registered _ _).map _ :: meteredRegistrations es = _
        rw [hregistered, hm.heard]
        rfl

/-- The closing of a route is metered when its slug has no target. -/
theorem meteredClosings_closes (hinv : BrokerInv o t es) (request : RouteIdentifiers)
    {slug : String} {route : RouteMetadata} (hstored : t.broker.routes.get? slug = some route)
    (hbroker : t'.broker = (t.broker.update (refresh o t.clock route)).shut t.clock
      (refresh o t.clock route)) (time : Nat) :
    meteredClosings ((.closeRoute request,
        ⟨time, .closed (.ok slug), newHooks t.broker t'.broker⟩) :: es) =
      if (t.broker.targets.get? slug).isNone then some route.routeId :: meteredClosings es
      else meteredClosings es := by
  obtain ⟨first, hfirst, hs⟩ := hinv.stored hstored
  rw [newHooks_closes hinv.wellKeyed hstored hbroker]
  split
  · show (registered slug es).map _ :: meteredClosings es = _
    rw [hfirst, Option.map_some, hs.id]
  · rfl

theorem MeterInv.closes (hm : MeterInv t es) (hinv : BrokerInv o t es)
    (request : RouteIdentifiers) {slug : String} {route : RouteMetadata}
    (hstored : t.broker.routes.get? slug = some route)
    (hbroker : t'.broker = (t.broker.update (refresh o t.clock route)).shut t.clock
      (refresh o t.clock route)) (time : Nat) :
    MeterInv t' ((.closeRoute request,
      ⟨time, .closed (.ok slug), newHooks t.broker t'.broker⟩) :: es) := by
  have hkeyed := hinv.wellKeyed
  have hclosings := meteredClosings_closes hinv request hstored hbroker time
  have hslug : (refresh o t.clock route).routeSlug = slug := hkeyed slug route hstored
  have hself : t'.broker.routes.get? slug =
      some { refresh o t.clock route with status := .closed } := by
    rw [hbroker]
    exact (shut_evolves hkeyed hstored).2
  have hgone : t'.broker.targets.get? slug = none := by
    rw [hbroker, ← hslug]
    exact OrderedMap.get?_delete_self _ _
  have hother (s : String) (hne : s ≠ slug) :
      t'.broker.targets.get? s = t.broker.targets.get? s ∧
        t'.broker.routes.get? s = t.broker.routes.get? s := by
    have hne' : s ≠ (refresh o t.clock route).routeSlug := by rwa [hslug]
    rw [hbroker]
    exact ⟨OrderedMap.get?_delete_ne _ hne',
      (OrderedMap.get?_set_ne _ _ hne').trans (OrderedMap.get?_set_ne _ _ hne')⟩
  constructor
  · intro s r hr
    by_cases hne : s = slug
    · subst hne
      obtain rfl := Option.some.inj (hself.symm.trans hr)
      simp [hgone]
    · obtain ⟨htargets, hroutes⟩ := hother s hne
      rw [htargets]
      exact hm.targets s r (hroutes ▸ hr)
  · intro s r hr hmem
    by_cases hne : s = slug
    · subst hne
      obtain rfl := Option.some.inj (hself.symm.trans hr)
      rfl
    · have hold := (hother s hne).2 ▸ hr
      rw [hclosings] at hmem
      have hids : r.routeId ≠ route.routeId := fun heq =>
        hne (hinv.slug_of_id hold hstored heq)
      apply hm.closed s r hold
      split at hmem
      · rcases List.mem_cons.mp hmem with heq | hmem
        · exact absurd (Option.some.inj heq) hids
        · exact hmem
      · exact hmem
  · intro s r hr hstatus hnot
    have hnot' : r.routeId ∉ registeredWith true es := hnot
    rw [hclosings]
    by_cases hne : s = slug
    · subst hne
      obtain rfl := Option.some.inj (hself.symm.trans hr)
      have hnone : (t.broker.targets.get? s).isNone = true := by
        cases htarget : t.broker.targets.get? s with
        | none => rfl
        | some target =>
            have hsome := (hm.targets s route hstored).mp (by rw [htarget]; rfl)
            exact absurd hsome.2 hnot'
      rw [if_pos hnone]
      exact List.mem_cons_self
    · have hmem := hm.metered s r ((hother s hne).2 ▸ hr) hstatus hnot'
      split
      · exact List.mem_cons_of_mem _ hmem
      · exact hmem
  · intro id hmem
    rw [hclosings] at hmem
    split at hmem
    · rcases List.mem_cons.mp hmem with heq | hmem
      · obtain ⟨first, hfirst, hs⟩ := hinv.stored hstored
        exact ⟨first, (registered_some hfirst).1, hs.id.symm.trans (Option.some.inj heq).symm⟩
      · exact hm.known id hmem
    · exact hm.known id hmem
  · rw [newHooks_closes hkeyed hstored hbroker]
    split
    · exact hm.heard
    · exact hm.heard

theorem MeterInv.effect (hm : MeterInv t es) (hinv : BrokerInv o t es)
    (h : Effect o t t' c r) (time : Nat) :
    MeterInv t' ((c, ⟨time, r, newHooks t.broker t'.broker⟩) :: es) := by
  rcases h.lifecycle with ⟨registration, route, rfl, rfl, hreg⟩ |
    ⟨request, slug, route, rfl, rfl, hstored, -, hbroker⟩ | ⟨-, hquiet, hhistory⟩
  · exact hm.registers hinv hreg time
  · exact hm.closes hinv request hstored hbroker time
  · exact hm.quiet hquiet hhistory time

/-! ## Every run -/

theorem meterInv_exec (o : BrokerOptions) (calls : List TunnelCall) :
    MeterInv ((tunnelMachine o).exec calls).1 ((tunnelMachine o).exec calls).2 := by
  induction calls using List.reverseRecOn with
  | nil => exact .initial
  | append_singleton calls c ih =>
      have hinv := brokerInv_exec o calls
      rw [exec_call]
      exact ih.effect hinv (call_effect hinv.wellKeyed c) _

/-- The closing of a route is metered as it should be exactly when it is its first. -/
theorem meteredOnce_closes (hm : MeterInv t es) (hinv : BrokerInv o t es)
    {request : RouteIdentifiers} {slug : String} {route : RouteMetadata}
    (hstored : t.broker.routes.get? slug = some route)
    (hbroker : t'.broker = (t.broker.update (refresh o t.clock route)).shut t.clock
      (refresh o t.clock route)) (time : Nat) :
    MeteredOnce ((.closeRoute request,
        ⟨time, .closed (.ok slug), newHooks t.broker t'.broker⟩) :: es) ↔
      MeteredOnce es ∧ route.status ≠ .closed := by
  have hclosings := meteredClosings_closes hinv request hstored hbroker time
  have hheard := (hm.closes hinv request hstored hbroker time).heard
  cases htarget : t.broker.targets.get? slug with
  | some target =>
      -- a local route that is not closed: the meter hears nothing
      have hopen := ((hm.targets slug route hstored).mp (by rw [htarget]; rfl)).1
      rw [htarget] at hclosings
      constructor
      · rintro ⟨-, hdistinct, honce, hnever⟩
        rw [hclosings] at honce hnever
        exact ⟨⟨hm.heard, hdistinct, honce, hnever⟩, hopen⟩
      · rintro ⟨⟨-, hdistinct, honce, hnever⟩, -⟩
        refine ⟨hheard, hdistinct, ?_, ?_⟩
        · rw [hclosings]
          exact honce
        · rw [hclosings]
          exact hnever
  | none =>
      rw [htarget] at hclosings
      constructor
      · rintro ⟨-, hdistinct, honce, hnever⟩
        rw [hclosings] at honce hnever
        obtain ⟨hnew, honce⟩ := List.nodup_cons.mp honce
        refine ⟨⟨hm.heard, hdistinct, honce, fun x hx =>
          hnever x (List.mem_cons_of_mem _ hx)⟩, fun hclosed => ?_⟩
        obtain ⟨id, hid, hlocal⟩ := hnever _ List.mem_cons_self
        obtain rfl := Option.some.inj hid
        exact hnew (hm.metered slug route hstored hclosed hlocal)
      · rintro ⟨⟨-, hdistinct, honce, hnever⟩, hopen⟩
        refine ⟨hheard, hdistinct, ?_, ?_⟩
        · rw [hclosings]
          exact List.nodup_cons.mpr
            ⟨fun hmem => hopen (hm.closed slug route hstored hmem), honce⟩
        · rw [hclosings]
          intro x hx
          rcases List.mem_cons.mp hx with rfl | hx
          · refine ⟨route.routeId, rfl, fun hlocal => ?_⟩
            have hsome := (hm.targets slug route hstored).mpr ⟨hopen, hlocal⟩
            rw [htarget] at hsome
            cases hsome
          · exact hnever x hx

theorem meteredOnce_registers (hm : MeterInv t es) (hinv : BrokerInv o t es)
    {registration : HostRegistration} {route : RouteMetadata}
    (h : Registers o t t' registration route) (time : Nat) :
    MeteredOnce ((.register registration,
        ⟨time, .route (.ok route), newHooks t.broker t'.broker⟩) :: es) ↔ MeteredOnce es := by
  have hclosings := meteredClosings_registers h hinv.wellKeyed time es
  have hheard := (hm.registers hinv h time).heard
  obtain ⟨hfreshClosed, hfreshWith⟩ := hm.fresh hinv h
  have hwith (isLocal : Bool) : registeredWith isLocal ((.register registration,
      ⟨time, .route (.ok route), newHooks t.broker t'.broker⟩) :: es) =
        route.routeId :: registeredWith isLocal es ∨
      registeredWith isLocal ((.register registration,
        ⟨time, .route (.ok route), newHooks t.broker t'.broker⟩) :: es) =
        registeredWith isLocal es := by
    rw [registeredWith_register]
    split
    · exact .inl rfl
    · exact .inr rfl
  constructor
  · rintro ⟨-, hdistinct, honce, hnever⟩
    rw [hclosings] at honce hnever
    refine ⟨hm.heard, ?_, honce, fun x hx => ?_⟩
    · rcases hwith false with heq | heq
      · rw [heq] at hdistinct
        exact (List.nodup_cons.mp hdistinct).2
      · rwa [heq] at hdistinct
    · obtain ⟨id, rfl, hid⟩ := hnever x hx
      refine ⟨id, rfl, fun hmem => hid ?_⟩
      rcases hwith true with heq | heq
      · rw [heq]
        exact List.mem_cons_of_mem _ hmem
      · rwa [heq]
  · rintro ⟨-, hdistinct, honce, hnever⟩
    refine ⟨hheard, ?_, ?_, ?_⟩
    · rcases hwith false with heq | heq
      · rw [heq]
        exact List.nodup_cons.mpr ⟨hfreshWith false, hdistinct⟩
      · rwa [heq]
    · rwa [hclosings]
    · rw [hclosings]
      intro x hx
      obtain ⟨id, rfl, hid⟩ := hnever x hx
      refine ⟨id, rfl, fun hmem => ?_⟩
      rcases hwith true with heq | heq
      · rw [heq] at hmem
        rcases List.mem_cons.mp hmem with rfl | hmem
        · exact hfreshClosed hx
        · exact hid hmem
      · rw [heq] at hmem
        exact hid hmem

/-- A call without hooks that registers nothing. -/
theorem meteredOnce_quiet (hmetered : t'.broker.metered = t.broker.metered) {time : Nat}
    (hwith : ∀ isLocal, registeredWith isLocal
      ((c, ⟨time, r, newHooks t.broker t'.broker⟩) :: es) = registeredWith isLocal es) :
    MeteredOnce ((c, ⟨time, r, newHooks t.broker t'.broker⟩) :: es) ↔ MeteredOnce es := by
  have hhooks : newHooks t.broker t'.broker = [] := newHooks_of_same hmetered
  rw [hhooks] at hwith ⊢
  constructor
  · rintro ⟨hheard, hdistinct, honce, hnever⟩
    rw [hwith] at hheard hdistinct hnever
    exact ⟨hheard, hdistinct, honce, hnever⟩
  · rintro ⟨hheard, hdistinct, honce, hnever⟩
    refine ⟨?_, ?_, honce, ?_⟩
    · rw [hwith]
      exact hheard
    · rw [hwith]
      exact hdistinct
    · rw [hwith]
      exact hnever

/-- One more call keeps the meter right exactly when it closes no route that is closed. -/
theorem meteredOnce_concat (o : BrokerOptions) (calls : List TunnelCall) (c : TunnelCall) :
    MeteredOnce ((tunnelMachine o).exec (calls ++ [c])).2 ↔
      MeteredOnce ((tunnelMachine o).exec calls).2 ∧
        closesOnce ((tunnelMachine o).exec calls).1 c := by
  have hinv := brokerInv_exec o calls
  have hm := meterInv_exec o calls
  have heffect := call_effect (o := o) hinv.wellKeyed c
  rw [exec_call]
  rcases heffect.lifecycle with ⟨registration, route, rfl, hr, hreg⟩ |
    ⟨request, slug, route, rfl, hr, hstored, hfound, hbroker⟩ | ⟨hopens, hquiet, hhistory⟩
  · rw [hr, meteredOnce_registers hm hinv hreg]
    exact (and_iff_left trivial).symm
  · rw [hr, meteredOnce_closes hm hinv hstored hbroker]
    show _ ↔ _ ∧ ∀ r ∈ Broker.findRoute _ request, r.status ≠ .closed
    rw [hfound]
    simp
  · have hallow : closesOnce ((tunnelMachine o).exec calls).1 c := by
      cases c with
      | closeRoute request =>
          intro route hroute
          have hfound : Broker.findRoute _ request = some route := hroute
          rcases closeRoute_cases (b := ((tunnelMachine o).exec calls).1.broker) (o := o)
            (n := ((tunnelMachine o).exec calls).1.clock) request with
            ⟨hnone, -⟩ | ⟨-, found, -, -, heq⟩
          · rw [hnone] at hfound
            cases hfound
          · have hresult : (((tunnelMachine o).exec calls).1.call o (.closeRoute request)).2 =
                .closed (.ok found.routeSlug) :=
                congrArg TunnelResult.closed (congrArg Prod.snd heq)
            exact absurd hresult (hopens request found.routeSlug rfl)
      | _ => trivial
    rw [meteredOnce_quiet hquiet.metered fun isLocal => (hhistory _ _ _).2 isLocal]
    exact (and_iff_left hallow).symm

end

/-- The meter hears of every public route once when it is registered, at most once when it is
closed, and never of the closing of a local one, exactly when no route that is closed is
closed again. -/
theorem meteredOnce_iff (o : BrokerOptions) (calls : List TunnelCall) :
    MeteredOnce ((tunnelMachine o).exec calls).2 ↔ (tunnelMachine o).Obeys closesOnce calls :=
  Machine.forall_iff_obeys
    ⟨rfl, List.nodup_nil, List.nodup_nil, fun _ h => (nomatch h)⟩ (meteredOnce_concat o) calls

/-- The host of a public route closes it twice. -/
theorem closedTwice_meteredTwice : ¬ ∀ calls,
    MeteredOnce ((tunnelMachine defaultOptions).exec calls).2 := by
  intro h
  exact absurd (h [.register ⟨some "a", none⟩, .closeRoute (hostOf defaultOptions 0),
    .closeRoute (hostOf defaultOptions 0)]).closedOnce (by decide)

end AgentGather.Tunnel
