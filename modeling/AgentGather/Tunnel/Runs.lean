import AgentGather.Tunnel.Routes

/-!
# Runs of the broker

What ties the broker's state to the history of calls: which route a slug has, whose ids
are new, and which requests are in flight.
-/

namespace AgentGather.Tunnel

open AgentGather.Library

/-- The broker agrees with the history. -/
structure BrokerInv (o : BrokerOptions) (t : Traffic) (es : List TunnelEvent) : Prop where
  current : ∀ slug, Option.Rel Succeeds (registered slug es) (t.broker.routes.get? slug)
  minted : ∀ route ∈ registrations es,
    ∃ n < t.broker.minted, route.routeId = (mintId o.ids "rte").id n
  distinct : ((registrations es).map (·.routeId)).Nodup
  relay : ∃ C, RelayInv o.relay (mintId o.ids "req") t.broker.relay
    (fun slug => queuedFor slug es) C ∧ ∀ id, id ∈ handedOut es ↔ ∃ slug, id ∈ C slug

/-! ## Routes and their registrations -/

section Registrations

variable {es : List TunnelEvent}

theorem registered_some {slug : String} {route : RouteMetadata}
    (h : registered slug es = some route) :
    route ∈ registrations es ∧ route.routeSlug = slug :=
  ⟨List.mem_of_find?_eq_some h, by simpa using List.find?_some h⟩

/-- What a registration adds to the history. -/
theorem registrations_register (registration : HostRegistration) (route : RouteMetadata)
    (time : Nat) (hooks : List MeterCall) :
    registrations ((.register registration, ⟨time, .route (.ok route), hooks⟩) :: es) =
      route :: registrations es := rfl

theorem registered_of_registrations {es' : List TunnelEvent}
    (h : registrations es' = registrations es) (slug : String) :
    registered slug es' = registered slug es := by
  unfold registered
  rw [h]

end Registrations

section Invariant

variable {o : BrokerOptions} {t t' : Traffic} {es : List TunnelEvent}

theorem BrokerInv.initial : BrokerInv o .initial [] where
  current _ := .none
  minted _ h := nomatch h
  distinct := List.nodup_nil
  relay := ⟨fun _ => [], .initial, fun id => by simp [handedOut]⟩

/-- The stored route of a slug is its registered one, perhaps further on. -/
theorem BrokerInv.stored (hinv : BrokerInv o t es) {slug : String} {route : RouteMetadata}
    (hroute : t.broker.routes.get? slug = some route) :
    ∃ first, registered slug es = some first ∧ Succeeds first route := by
  have hrel := hinv.current slug
  rw [hroute] at hrel
  exact rel_some hrel

theorem BrokerInv.wellKeyed (hinv : BrokerInv o t es) : WellKeyed t.broker := by
  intro slug route hroute
  obtain ⟨first, hfirst, hs⟩ := hinv.stored hroute
  exact hs.slug.trans (registered_some hfirst).2

/-- The id of a stored route tells its slug. -/
theorem BrokerInv.slug_of_id (hinv : BrokerInv o t es) {slug slug' : String}
    {route route' : RouteMetadata} (hroute : t.broker.routes.get? slug = some route)
    (hroute' : t.broker.routes.get? slug' = some route')
    (hid : route.routeId = route'.routeId) : slug = slug' := by
  obtain ⟨first, hfirst, hs⟩ := hinv.stored hroute
  obtain ⟨first', hfirst', hs'⟩ := hinv.stored hroute'
  have hsame : first = first' :=
    List.inj_on_of_nodup_map hinv.distinct (registered_some hfirst).1
      (registered_some hfirst').1 (hs.id.symm.trans (hid.trans hs'.id))
  rw [← (registered_some hfirst).2, hsame, (registered_some hfirst').2]

/-- The next id of a route is new. -/
theorem BrokerInv.fresh (hinv : BrokerInv o t es) {route : RouteMetadata}
    (hroute : route ∈ registrations es) :
    route.routeId ≠ (mintId o.ids "rte").id t.broker.minted := by
  obtain ⟨n, hn, hid⟩ := hinv.minted route hroute
  intro heq
  have := (mintId o.ids "rte").injective (hid.symm.trans heq)
  omega

/-! ## What a registration does -/

theorem Registers.stored {registration : HostRegistration} {route : RouteMetadata}
    (h : Registers o t t' registration route) :
    t'.broker.routes.get? route.routeSlug = some route := by
  rw [h.broker]
  exact OrderedMap.get?_set_self _ _ _

theorem Registers.others {registration : HostRegistration} {route : RouteMetadata}
    (h : Registers o t t' registration route) (hkeyed : WellKeyed t.broker) {slug : String}
    (hslug : slug ≠ route.routeSlug) :
    Option.Rel Succeeds (t.broker.routes.get? slug) (t'.broker.routes.get? slug) := by
  rw [h.broker]
  show Option.Rel _ _ ((OrderedMap.set _ route.routeSlug _).get? slug)
  rw [OrderedMap.get?_set_ne _ _ hslug]
  exact (currentRoute_quiet hkeyed route.routeSlug).evolves.routes slug

theorem Registers.minted {registration : HostRegistration} {route : RouteMetadata}
    (h : Registers o t t' registration route) (hkeyed : WellKeyed t.broker) :
    t'.broker.minted = t.broker.minted + 2 := by
  rw [h.broker]
  show (t.broker.currentRoute o t.clock route.routeSlug).1.minted + 2 = _
  rw [(currentRoute_quiet hkeyed route.routeSlug).evolves.minted]

theorem Registers.routeId {registration : HostRegistration} {route : RouteMetadata}
    (h : Registers o t t' registration route) :
    route.routeId = (mintId o.ids "rte").id t.broker.minted := by
  rw [h.new]
  rfl

theorem Registers.relay {registration : HostRegistration} {route : RouteMetadata}
    (h : Registers o t t' registration route) (hkeyed : WellKeyed t.broker) :
    t'.broker.relay = if (t.broker.routes.get? route.routeSlug).isSome then
      t.broker.relay.closeRoute route.routeSlug else t.broker.relay := by
  rw [h.broker]
  unfold Broker.install
  rw [(currentRoute_quiet hkeyed route.routeSlug).relay]

/-! ## One call -/

variable {c : TunnelCall} {r : TunnelResult}

/-- A call registers a route, or leaves every slug with the route it has. -/
theorem Effect.routes (h : Effect o t t' c r) (hkeyed : WellKeyed t.broker) :
    (Evolves t.broker t'.broker ∧ ∀ time hooks es,
      registrations ((c, ⟨time, r, hooks⟩) :: es) = registrations es) ∨
    ∃ registration route, c = .register registration ∧ r = .route (.ok route) ∧
      Registers o t t' registration route := by
  cases h with
  | quiet hquiet hsilent =>
      refine .inl ⟨hquiet.evolves, fun time hooks es => ?_⟩
      cases c with
      | register registration =>
          cases r with
          | route result =>
              cases result with
              | error e => rfl
              | ok route => exact absurd hsilent id
          | _ => rfl
      | _ => rfl
  | registers h => exact .inr ⟨_, _, rfl, rfl, h⟩
  | closes hstored _ hbroker =>
      refine .inl ⟨?_, fun _ _ _ => rfl⟩
      rw [hbroker]
      exact (shut_evolves hkeyed hstored).1
  | claims _ _ _ hquiet hbroker =>
      refine .inl ⟨?_, fun _ _ _ => rfl⟩
      rw [hbroker]
      exact hquiet.evolves.trans (.of_routes rfl rfl)
  | responds _ hquiet hbroker =>
      refine .inl ⟨?_, fun _ _ _ => rfl⟩
      rw [hbroker]
      exact hquiet.evolves.trans (.of_routes rfl rfl)
  | enqueues _ _ hbroker =>
      refine .inl ⟨?_, fun _ _ _ => rfl⟩
      rw [hbroker]
      exact .of_routes rfl rfl
  | expires hbroker =>
      refine .inl ⟨?_, fun _ _ _ => rfl⟩
      rw [hbroker]
      exact .of_routes rfl rfl

/-- The relay behind a call. -/
theorem Effect.relay (h : Effect o t t' c r) (hkeyed : WellKeyed t.broker)
    {C : String → List String} (time : Nat) (hooks : List MeterCall)
    (hinv : RelayInv o.relay (mintId o.ids "req") t.broker.relay
      (fun slug => queuedFor slug es) C)
    (hhanded : ∀ id, id ∈ handedOut es ↔ ∃ slug, id ∈ C slug) :
    ∃ C', RelayInv o.relay (mintId o.ids "req") t'.broker.relay
        (fun slug => queuedFor slug ((c, ⟨time, r, hooks⟩) :: es)) C' ∧
      ∀ id, id ∈ handedOut ((c, ⟨time, r, hooks⟩) :: es) ↔ ∃ slug, id ∈ C' slug := by
  cases h with
  | quiet hquiet hsilent =>
      have hqueued (slug : String) :
          queuedFor slug ((c, ⟨time, r, hooks⟩) :: es) = queuedFor slug es := by
        cases r with
        | enqueued => cases c <;> exact absurd hsilent id
        | _ => rfl
      have hhanded' : handedOut ((c, ⟨time, r, hooks⟩) :: es) = handedOut es := by
        cases r with
        | claimed result =>
            cases result with
            | error e => rfl
            | ok request => cases c <;> exact absurd hsilent id
        | _ => rfl
      simp only [hqueued, hhanded', hquiet.relay]
      exact ⟨C, hinv, hhanded⟩
  | registers h =>
      refine ⟨C, ?_, hhanded⟩
      rw [h.relay hkeyed]
      split
      · exact hinv.closeRoute _
      · exact hinv
  | closes _ _ hbroker =>
      refine ⟨C, ?_, hhanded⟩
      rw [hbroker]
      exact hinv.closeRoute _
  | @claims ids slug route b' _ _ _ _ hbroker =>
      rw [hbroker]
      rcases hinv.claim_cases slug with ⟨-, heq⟩ | ⟨id, item, rest, hhead, hitem, -, hslug, heq⟩
      · rw [heq]
        exact ⟨C, hinv, hhanded⟩
      · rw [heq]
        have hid : item.request.requestId = id := (hinv.items id item hitem).2.1
        refine ⟨addId slug id C, hinv.take hhead hitem hslug, fun j => ?_⟩
        have hcons : handedOut ((.claimRelay ids, ⟨time, .claimed (.ok (some item.request)),
            hooks⟩) :: es) = id :: handedOut es := by
          rw [← hid]
          rfl
        rw [hcons, List.mem_cons, hhanded j]
        simp only [mem_addId]
        constructor
        · rintro (rfl | ⟨s, hs⟩)
          · exact ⟨slug, .inr ⟨rfl, rfl⟩⟩
          · exact ⟨s, .inl hs⟩
        · rintro ⟨s, hs | ⟨-, rfl⟩⟩
          · exact .inr ⟨s, hs⟩
          · exact .inl rfl
  | responds _ _ hbroker =>
      refine ⟨C, ?_, hhanded⟩
      rw [hbroker]
      exact hinv.respond _ _
  | @enqueues index body f _ _ hbroker =>
      refine ⟨C, ?_, hhanded⟩
      rw [hbroker]
      have hE : (fun s => queuedFor s ((.bodyRead index (.ok body), ⟨time,
          .enqueued ((mintId o.ids "req").id t.broker.relay.minted) f.request.slug
            f.admittedUnder, hooks⟩) :: es)) =
          addId f.request.slug ((mintId o.ids "req").id t.broker.relay.minted)
            fun s => queuedFor s es := by
        funext s
        simp only [queuedFor, addId, eq_comm]
      rw [hE]
      exact hinv.enqueue f.request.slug (f.request.envelope body)
  | expires hbroker =>
      refine ⟨C, ?_, hhanded⟩
      rw [hbroker]
      exact hinv.expire _

/-- Every call keeps the broker in agreement with the history. -/
theorem BrokerInv.effect (hinv : BrokerInv o t es) (h : Effect o t t' c r) (time : Nat)
    (hooks : List MeterCall) : BrokerInv o t' ((c, ⟨time, r, hooks⟩) :: es) := by
  obtain ⟨C, hrelay, hhanded⟩ := hinv.relay
  have hrelay' := h.relay hinv.wellKeyed time hooks hrelay hhanded
  rcases h.routes hinv.wellKeyed with ⟨hevolves, hsame⟩ | ⟨registration, route, rfl, rfl, hreg⟩
  · refine ⟨fun slug => ?_, ?_, ?_, hrelay'⟩
    · rw [registered_of_registrations (hsame time hooks es)]
      exact rel_trans (hinv.current slug) (hevolves.routes slug)
    · rw [hsame, hevolves.minted]
      exact hinv.minted
    · rw [hsame]
      exact hinv.distinct
  · refine ⟨fun slug => ?_, ?_, ?_, hrelay'⟩
    · unfold registered
      rw [registrations_register, List.find?_cons]
      by_cases hslug : route.routeSlug = slug
      · subst hslug
        rw [hreg.stored, decide_eq_true rfl]
        exact .some (.refl route)
      · rw [decide_eq_false hslug]
        exact rel_trans (hinv.current slug) (hreg.others hinv.wellKeyed (Ne.symm hslug))
    · rw [registrations_register, hreg.minted hinv.wellKeyed]
      intro first hfirst
      rcases List.mem_cons.mp hfirst with rfl | hfirst
      · exact ⟨t.broker.minted, by omega, hreg.routeId⟩
      · obtain ⟨n, hn, hid⟩ := hinv.minted first hfirst
        exact ⟨n, by omega, hid⟩
    · rw [registrations_register, List.map_cons, List.nodup_cons]
      refine ⟨fun hmem => ?_, hinv.distinct⟩
      obtain ⟨first, hfirst, hid⟩ := List.mem_map.mp hmem
      exact hinv.fresh hfirst (hid.trans hreg.routeId)

/-- The calls of the meter that a call made. -/
def newHooks (b b' : Broker) : List MeterCall :=
  b'.metered.take (b'.metered.length - b.metered.length)

theorem newHooks_of_same {b b' : Broker} (h : b'.metered = b.metered) : newHooks b b' = [] := by
  simp [newHooks, h]

theorem newHooks_of_cons {b b' : Broker} {hook : MeterCall}
    (h : b'.metered = hook :: b.metered) : newHooks b b' = [hook] := by
  simp [newHooks, h]

/-- One more call in a run. -/
theorem exec_call (o : BrokerOptions) (calls : List TunnelCall) (c : TunnelCall) :
    (tunnelMachine o).exec (calls ++ [c]) =
      ((((tunnelMachine o).exec calls).1.call o c).1,
        (c, ⟨((tunnelMachine o).exec calls).1.clock,
          (((tunnelMachine o).exec calls).1.call o c).2,
          newHooks ((tunnelMachine o).exec calls).1.broker
            (((tunnelMachine o).exec calls).1.call o c).1.broker⟩) ::
          ((tunnelMachine o).exec calls).2) := Machine.exec_concat calls c

/-- Behind any calls the broker agrees with the history. -/
theorem brokerInv_exec (o : BrokerOptions) (calls : List TunnelCall) :
    BrokerInv o ((tunnelMachine o).exec calls).1 ((tunnelMachine o).exec calls).2 :=
  Machine.invariant BrokerInv.initial
    (fun _ _ c hinv => hinv.effect (call_effect hinv.wellKeyed c) _ _) calls

end Invariant

end AgentGather.Tunnel
