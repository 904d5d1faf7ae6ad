import AgentGather.Tunnel.Ownership

/-!
# Requests and the route they were admitted under

A request is admitted while some route holds its slug, and queued under the slug once its
body is read.  If the slug still has that route then, the request goes to the host of that
route or to nobody.
-/

namespace AgentGather.Tunnel

open AgentGather.Library

/-- The request was queued for the slug, and admitted when the route held the slug. -/
def AdmittedUnder (es : List TunnelEvent) (id slug routeId : String) : Prop :=
  ∃ c time hooks, (c, ⟨time, .enqueued id slug (some routeId), hooks⟩) ∈ es

/-- The slug has the route with this id. -/
def HasRoute (t : Traffic) (slug routeId : String) : Prop :=
  (t.broker.routes.get? slug).map (·.routeId) = some routeId

/-- The slug has the route with this id, and the route has not ended. -/
def HeldBy (o : BrokerOptions) (t : Traffic) (slug routeId : String) : Prop :=
  ∃ route, t.broker.routes.get? slug = some route ∧ route.routeId = routeId ∧
    (refresh o t.clock route).status = .active

/-- A call treats requests as their epochs demand: one that is handed out goes to the host of
the route it was admitted under, which is active; one that was not handed out is not resolved
when that route has ended; when the route is closed or replaced, nothing admitted under it
stays in flight. -/
structure EpochSafe (o : BrokerOptions) (t : Traffic) (es : List TunnelEvent)
    (c : TunnelCall) : Prop where
  handed : ∀ ids request, c = .claimRelay ids →
    (t.call o c).2 = .claimed (.ok (some request)) →
    ∀ slug routeId, AdmittedUnder es request.requestId slug routeId →
      HeldBy o t slug routeId ∧
        ∃ route ∈ t.broker.routes.get? slug, Broker.names ids route = true
  rejected : ∀ id response,
    (id, .resolved response) ∈ (t.call o c).1.broker.relay.settlements →
    (id, .resolved response) ∉ t.broker.relay.settlements →
    ∀ slug routeId, AdmittedUnder es id slug routeId →
      id ∈ handedOut es ∨ HeldBy o t slug routeId
  closed : ∀ request slug, c = .closeRoute request → (t.call o c).2 = .closed (.ok slug) →
    ∀ item ∈ (t.call o c).1.broker.relay.inflight.values, item.slug ≠ slug
  replaced : ∀ id item, (t.call o c).1.broker.relay.inflight.get? id = some item →
    ∀ slug routeId, AdmittedUnder es id slug routeId →
      HasRoute (t.call o c).1 slug routeId

/-- A request is queued only while its slug has the route that it was admitted under, and
one that was not handed out is answered only while the route of its slug is active. -/
def keepsEpoch (o : BrokerOptions) (t : Traffic) : TunnelCall → Prop
  | .bodyRead index (.ok _) => ∀ f ∈ t.forwards[index]?, f.stage = .reading →
      ∀ routeId ∈ f.admittedUnder,
        (t.broker.routes.get? f.request.slug).map (·.routeId) = some routeId
  | .respondRelay _ id _ => ∀ item ∈ t.broker.relay.inflight.get? id, item.claimed = false →
      ((t.broker.routes.get? item.slug).any fun route =>
        (refresh o t.clock route).status = .active) = true
  | _ => True

instance (o : BrokerOptions) (t : Traffic) (c : TunnelCall) : Decidable (keepsEpoch o t c) :=
  match c with
  | .bodyRead _ (.ok _) => inferInstanceAs (Decidable (∀ f ∈ _, _ → ∀ routeId ∈ _, _ = _))
  | .respondRelay _ _ _ => inferInstanceAs (Decidable (∀ item ∈ _, _ → _ = true))
  | .register _ | .heartbeat _ | .claimRelay _ | .closeRoute _ | .resolve _ | .snapshot
  | .forward _ | .metered _ _ | .bodyRead _ (.error _) | .finish _ | .expire _
  | .timePasses _ => isTrue trivial

/-! ## What stays in flight -/

section

variable {o : BrokerOptions} {t t' : Traffic} {es : List TunnelEvent} {c : TunnelCall}
  {r : TunnelResult}

theorem closeRoute_inflight {h : RelayHub} {slug id : String} {item : InFlight} :
    (h.closeRoute slug).inflight.get? id = some item ↔
      h.inflight.get? id = some item ∧ item.slug ≠ slug := by
  rw [OrderedMap.get?_eq_some_iff, OrderedMap.get?_eq_some_iff, (closeRoute_eq h slug).2,
    List.mem_filter]
  simp

theorem settle_inflight {h : RelayHub} {id j : String} {item other : InFlight}
    {s : Settlement} (hitem : h.inflight.get? id = some item)
    (hother : (h.settle id item s).inflight.get? j = some other) :
    h.inflight.get? j = some other := by
  rw [(RelayHub.settle_eq s hitem).1, OrderedMap.get?_delete] at hother
  split at hother
  · cases hother
  · exact hother

/-- What is in flight behind a call was so before, under the same slug, or was just queued;
of a slug that was registered anew nothing is left. -/
theorem Effect.inflight (h : Effect o t t' c r) (hinv : BrokerInv o t es) {id : String}
    {item : InFlight} (hitem : t'.broker.relay.inflight.get? id = some item) :
    (∃ old, t.broker.relay.inflight.get? id = some old ∧ old.slug = item.slug) ∨
      ∃ admittedUnder, r = .enqueued id item.slug admittedUnder := by
  obtain ⟨C, hrelay, -⟩ := hinv.relay
  cases h with
  | quiet hquiet _ => exact .inl ⟨item, hquiet.relay ▸ hitem, rfl⟩
  | registers h =>
      rw [h.relay hinv.wellKeyed] at hitem
      split at hitem
      · exact .inl ⟨item, (closeRoute_inflight.mp hitem).1, rfl⟩
      · exact .inl ⟨item, hitem, rfl⟩
  | closes _ _ hbroker =>
      rw [hbroker] at hitem
      exact .inl ⟨item, (closeRoute_inflight.mp hitem).1, rfl⟩
  | claims _ _ _ _ hbroker =>
      rw [hbroker] at hitem
      rcases hrelay.claim_cases _ with ⟨-, heq⟩ | ⟨j, old, rest, -, hold, -, -, heq⟩
      · rw [heq] at hitem
        exact .inl ⟨item, hitem, rfl⟩
      · rw [heq] at hitem
        have hget : (if id = j then some _ else t.broker.relay.inflight.get? id) =
            some item := (OrderedMap.get?_set _ _ _ _).symm.trans hitem
        split at hget
        · rename_i heq'
          obtain rfl := Option.some.inj hget
          exact .inl ⟨old, heq' ▸ hold, rfl⟩
        · exact .inl ⟨item, hget, rfl⟩
  | @responds _ j answer _ _ _ _ hbroker =>
      rw [hbroker] at hitem
      rcases t.broker.relay.respond_cases o.relay j answer with
        ⟨-, heq⟩ | ⟨old, hold, heq | heq⟩
      · rw [heq] at hitem
        exact .inl ⟨item, hitem, rfl⟩
      · rw [heq] at hitem
        exact .inl ⟨item, settle_inflight hold hitem, rfl⟩
      · rw [heq] at hitem
        exact .inl ⟨item, settle_inflight hold hitem, rfl⟩
  | @enqueues _ _ f _ _ hbroker =>
      rw [hbroker] at hitem
      have hget : (if id = (mintId o.ids "req").id t.broker.relay.minted then some _
          else t.broker.relay.inflight.get? id) = some item :=
        (OrderedMap.get?_set _ _ _ _).symm.trans hitem
      split at hget
      · rename_i heq
        obtain rfl := Option.some.inj hget
        exact .inr ⟨f.admittedUnder, by rw [heq]⟩
      · exact .inl ⟨item, hget, rfl⟩
  | expires hbroker =>
      rw [hbroker] at hitem
      rcases hrelay.expire_cases _ with heq | ⟨j, old, hold, heq⟩
      · rw [heq] at hitem
        exact .inl ⟨item, hitem, rfl⟩
      · rw [heq] at hitem
        exact .inl ⟨item, settle_inflight hold hitem, rfl⟩

/-- A request that was admitted under a route was queued for its slug. -/
theorem AdmittedUnder.queued {id slug routeId : String} (h : AdmittedUnder es id slug routeId) :
    id ∈ queuedFor slug es := by
  obtain ⟨c, time, hooks, hmem⟩ := h
  induction es with
  | nil => cases hmem
  | cons e es ih =>
      obtain ⟨d, ⟨time', result, hooks'⟩⟩ := e
      rcases List.mem_cons.mp hmem with heq | hmem
      · cases heq
        simp [queuedFor]
      · have hold := ih hmem
        cases result with
        | enqueued j s a =>
            unfold queuedFor
            split
            · exact List.mem_append_left _ hold
            · exact hold
        | _ => exact hold

/-- A slug keeps its route unless the slug is registered anew. -/
theorem Evolves.hasRoute (h : Evolves t.broker t'.broker) {slug routeId : String}
    (hroute : HasRoute t slug routeId) : HasRoute t' slug routeId := by
  unfold HasRoute at hroute ⊢
  have hrel := h.routes slug
  cases hget : t.broker.routes.get? slug with
  | none =>
      rw [hget] at hroute
      cases hroute
  | some route =>
      rw [hget] at hroute hrel
      obtain ⟨new, hnew, hs⟩ := some_rel hrel
      rw [hnew, Option.map_some, hs.id]
      exact hroute

/-! ## One call -/

/-- What is in flight was admitted under the route that its slug has. -/
def InEpoch (t : Traffic) (es : List TunnelEvent) : Prop :=
  ∀ id item, t.broker.relay.inflight.get? id = some item →
    ∀ slug routeId, AdmittedUnder es id slug routeId → HasRoute t slug routeId

/-- Nothing that was in flight before leaves the epoch of its slug. -/
theorem Effect.replaced (h : Effect o t t' c r) (hinv : BrokerInv o t es)
    (hepoch : InEpoch t es) {id : String} {old item : InFlight}
    (hold : t.broker.relay.inflight.get? id = some old)
    (hitem : t'.broker.relay.inflight.get? id = some item) {slug routeId : String}
    (hadmitted : AdmittedUnder es id slug routeId) : HasRoute t' slug routeId := by
  obtain ⟨C, hrelay, -⟩ := hinv.relay
  have hbefore := hepoch id old hold slug routeId hadmitted
  rcases h.routes hinv.wellKeyed with ⟨hevolves, -⟩ | ⟨registration, route, rfl, rfl, hreg⟩
  · exact hevolves.hasRoute hbefore
  · by_cases hslug : slug = route.routeSlug
    · -- the route that was replaced took its requests with it
      have hsome : (t.broker.routes.get? route.routeSlug).isSome = true := by
        rw [← hslug]
        cases hget : t.broker.routes.get? slug with
        | some _ => rfl
        | none =>
            unfold HasRoute at hbefore
            rw [hget] at hbefore
            cases hbefore
      rw [hreg.relay hinv.wellKeyed, if_pos hsome] at hitem
      obtain ⟨hitem, hne⟩ := closeRoute_inflight.mp hitem
      exact absurd (hrelay.slugs _ _ id (hrelay.items id item hitem).1 hadmitted.queued)
        fun heq => hne (heq.trans hslug)
    · unfold HasRoute at hbefore ⊢
      have hrel := hreg.others hinv.wellKeyed hslug
      cases hget : t.broker.routes.get? slug with
      | none =>
          rw [hget] at hbefore
          cases hbefore
      | some _ =>
          rw [hget] at hbefore hrel
          obtain ⟨new, hnew, hs⟩ := some_rel hrel
          rw [hnew, Option.map_some, hs.id]
          exact hbefore

/-- What the new event admits is the request it queues. -/
theorem admittedUnder_cons {time : Nat} {hooks : List MeterCall} {id slug routeId : String}
    (h : AdmittedUnder ((c, ⟨time, r, hooks⟩) :: es) id slug routeId) :
    r = .enqueued id slug (some routeId) ∨ AdmittedUnder es id slug routeId := by
  obtain ⟨d, time', hooks', hmem⟩ := h
  rcases List.mem_cons.mp hmem with heq | hmem
  · cases heq
    exact .inl rfl
  · exact .inr ⟨d, time', hooks', hmem⟩

/-- A request is queued when its body was read. -/
theorem Effect.enqueued {id slug : String} {admittedUnder : Option String}
    (h : Effect o t t' c (.enqueued id slug admittedUnder)) :
    ∃ index body f, c = .bodyRead index (.ok body) ∧ t.forwards[index]? = some f ∧
      f.stage = .reading ∧ id = (mintId o.ids "req").id t.broker.relay.minted ∧
      f.request.slug = slug ∧ f.admittedUnder = admittedUnder ∧
      t'.broker.routes = t.broker.routes := by
  generalize hr : TunnelResult.enqueued id slug admittedUnder = r at h
  cases h with
  | quiet _ hsilent =>
      subst hr
      cases c <;> exact absurd hsilent not_false
  | @enqueues index body f hforward hreading hbroker =>
      cases hr
      exact ⟨index, body, f, rfl, hforward, hreading, rfl, rfl, rfl, by rw [hbroker]⟩
  | _ => cases hr

/-- An admitted call keeps every request in flight in the epoch of its slug. -/
theorem InEpoch.effect (hepoch : InEpoch t es) (hinv : BrokerInv o t es)
    (h : Effect o t t' c r) (hallow : keepsEpoch o t c) (time : Nat)
    (hooks : List MeterCall) : InEpoch t' ((c, ⟨time, r, hooks⟩) :: es) := by
  obtain ⟨C, hrelay, -⟩ := hinv.relay
  intro id item hitem slug routeId hadmitted
  rcases admittedUnder_cons hadmitted with rfl | hearlier
  · obtain ⟨index, body, f, rfl, hforward, hreading, -, rfl, hunder, hroutes⟩ := h.enqueued
    show (t'.broker.routes.get? _).map _ = _
    rw [hroutes]
    exact hallow f hforward hreading routeId hunder
  · rcases h.inflight hinv hitem with ⟨old, hold, -⟩ | ⟨admitted, rfl⟩
    · exact h.replaced hinv hepoch hold hitem hearlier
    · -- the id that was just minted is new
      obtain ⟨-, -, -, -, -, -, rfl, -⟩ := h.enqueued
      exact absurd hearlier.queued (hrelay.fresh slug)

/-- A request that is resolved was in flight. -/
theorem Effect.responded {ids : RouteIdentifiers} {id : String} {response : ForwardedResponse}
    (h : Effect o t t' (.respondRelay ids id response) (.responded (.ok ()))) :
    ∃ item, t.broker.relay.inflight.get? id = some item := by
  generalize hr : TunnelResult.responded (.ok ()) = r at h
  cases h with
  | quiet _ hsilent =>
      subst hr
      cases hsilent
  | responds _ _ _ =>
      rcases t.broker.relay.respond_cases o.relay id response with
        ⟨-, heq⟩ | ⟨item, hitem, -⟩
      · rw [heq] at hr
        cases hr
      · exact ⟨item, hitem⟩

/-- A response that resolves a request that waits to be claimed comes while the route of its
slug is active. -/
theorem InEpoch.rejected (hepoch : InEpoch t es) (hinv : BrokerInv o t es)
    (h : Effect o t t' c r) (hallow : keepsEpoch o t c) {id : String}
    {response : ForwardedResponse}
    (hafter : (id, .resolved response) ∈ t'.broker.relay.settlements)
    (hbefore : (id, .resolved response) ∉ t.broker.relay.settlements) {slug routeId : String}
    (hadmitted : AdmittedUnder es id slug routeId) :
    id ∈ handedOut es ∨ HeldBy o t slug routeId := by
  obtain ⟨C, hrelay, hhanded⟩ := hinv.relay
  rcases h.resolved hinv hafter with hold | ⟨ids, rfl, rfl⟩
  · exact absurd hold hbefore
  · obtain ⟨item, hitem⟩ := h.responded
    obtain ⟨hmem, -, hclaimed⟩ := hrelay.items id item hitem
    cases hcase : item.claimed with
    | true => exact .inl ((hhanded id).mpr ⟨item.slug, hclaimed.mp hcase⟩)
    | false =>
        right
        have hany := hallow item hitem hcase
        have hroute := hepoch id item hitem slug routeId hadmitted
        rw [hrelay.slugs _ _ id hmem hadmitted.queued] at hany
        unfold HasRoute at hroute
        cases hget : t.broker.routes.get? slug with
        | none =>
            rw [hget] at hroute
            cases hroute
        | some route =>
            rw [hget] at hroute hany
            exact ⟨route, hget, Option.some.inj hroute, by simpa using hany⟩

/-- A request that is handed out goes to the host of the route it was admitted under. -/
theorem InEpoch.handed (hepoch : InEpoch t es) (hinv : BrokerInv o t es)
    {ids : RouteIdentifiers} {request : ForwardedRequest}
    (h : Effect o t t' (.claimRelay ids) (.claimed (.ok (some request))))
    {slug routeId : String} (hadmitted : AdmittedUnder es request.requestId slug routeId) :
    HeldBy o t slug routeId ∧
      ∃ route ∈ t.broker.routes.get? slug, Broker.names ids route = true := by
  obtain ⟨C, hrelay, -⟩ := hinv.relay
  generalize hr : TunnelResult.claimed (.ok (some request)) = r at h
  cases h with
  | quiet _ hsilent =>
      subst hr
      exact absurd hsilent not_false
  | @claims _ s route _ hstored hnamed hactive _ _ =>
      rcases hrelay.claim_cases s with ⟨-, heq⟩ | ⟨id, item, rest, -, hitem, -, hslug, heq⟩
      · rw [heq] at hr
        cases hr
      · rw [heq] at hr
        obtain ⟨hmem, hid, -⟩ := hrelay.items id item hitem
        have hrequest : request.requestId = id := by
          cases hr
          exact hid
        rw [hrequest] at hadmitted
        have hs : s = slug :=
          hslug.symm.trans (hrelay.slugs _ _ id hmem hadmitted.queued)
        subst hs
        have hroute := hepoch id item hitem s routeId hadmitted
        unfold HasRoute at hroute
        rw [hstored] at hroute
        exact ⟨⟨route, hstored, Option.some.inj hroute, hactive⟩, route, hstored, hnamed⟩

/-- Of a slug that was closed nothing is in flight. -/
theorem Effect.closed {request : RouteIdentifiers} {slug : String}
    (h : Effect o t t' (.closeRoute request) (.closed (.ok slug))) (hinv : BrokerInv o t es) :
    ∀ item ∈ t'.broker.relay.inflight.values, item.slug ≠ slug := by
  intro item hmem
  obtain ⟨id, hitem⟩ := OrderedMap.mem_values_iff.mp hmem
  generalize hr : TunnelResult.closed (.ok slug) = r at h
  cases h with
  | quiet _ hsilent =>
      subst hr
      exact absurd hsilent not_false
  | @closes _ s route hstored _ hbroker =>
      cases hr
      rw [hbroker] at hitem
      have hslug : (refresh o t.clock route).routeSlug = slug :=
        hinv.wellKeyed slug route hstored
      have hne := (closeRoute_inflight.mp hitem).2
      rwa [hslug] at hne

end

/-! ## Every run -/

/-- Behind admitted calls every request in flight is in the epoch of its slug. -/
theorem inEpoch_exec (o : BrokerOptions) {calls : List TunnelCall}
    (h : (tunnelMachine o).Obeys (keepsEpoch o) calls) :
    InEpoch ((tunnelMachine o).exec calls).1 ((tunnelMachine o).exec calls).2 := by
  induction calls using List.reverseRecOn with
  | nil => exact fun _ _ hitem => nomatch hitem
  | append_singleton calls c ih =>
      obtain ⟨hearlier, hlast⟩ := (Machine.obeys_concat calls c).mp h
      have hinv := brokerInv_exec o calls
      rw [exec_call]
      exact (ih hearlier).effect hinv (call_effect hinv.wellKeyed c) hlast _ _

/-- In a run that queues requests only while their slugs have the routes they were admitted
under, and answers what was not handed out only while the route is active: whatever the
last call is, a request goes to the host of the route that it was admitted under, or is
rejected. -/
theorem epochSafe_of_obeys (o : BrokerOptions) (calls : List TunnelCall) (c : TunnelCall)
    (h : (tunnelMachine o).Obeys (keepsEpoch o) (calls ++ [c])) :
    EpochSafe o ((tunnelMachine o).exec calls).1 ((tunnelMachine o).exec calls).2 c := by
  obtain ⟨hearlier, hlast⟩ := (Machine.obeys_concat calls c).mp h
  have hepoch := inEpoch_exec o hearlier
  have hinv := brokerInv_exec o calls
  have heffect := call_effect (o := o) hinv.wellKeyed c
  constructor
  · rintro ids request rfl hresult slug routeId hadmitted
    rw [hresult] at heffect
    exact hepoch.handed hinv heffect hadmitted
  · intro id response hafter hbefore slug routeId hadmitted
    exact hepoch.rejected hinv heffect hlast hafter hbefore hadmitted
  · rintro request slug rfl hresult
    rw [hresult] at heffect
    exact heffect.closed hinv
  · intro id item hitem slug routeId hadmitted
    rcases heffect.inflight hinv hitem with ⟨old, hold, -⟩ | ⟨admitted, hresult⟩
    · exact heffect.replaced hinv hepoch hold hitem hadmitted
    · rw [hresult] at heffect
      obtain ⟨-, -, -, -, -, -, hid, -⟩ := heffect.enqueued
      obtain ⟨C, hrelay, -⟩ := hinv.relay
      exact absurd (hid ▸ hadmitted.queued) (hrelay.fresh slug)

def postMessage (slug : String) : ParticipantRequest :=
  ⟨slug, "POST", "/messages", [("authorization", "Bearer t")], "::1", false, true⟩

/-- The host that holds the slug all along gets the request. -/
theorem epochSafe_of_obeys_kept :
    EpochSafe defaultOptions
      ((tunnelMachine defaultOptions).exec [.register ⟨some "a", none⟩,
        .forward (postMessage "a"), .metered 0 (.ok ()),
        .bodyRead 0 (.ok (some "e30="))]).1
      ((tunnelMachine defaultOptions).exec [.register ⟨some "a", none⟩,
        .forward (postMessage "a"), .metered 0 (.ok ()),
        .bodyRead 0 (.ok (some "e30="))]).2
      (.claimRelay (hostOf defaultOptions 0)) :=
  epochSafe_of_obeys defaultOptions [.register ⟨some "a", none⟩,
    .forward (postMessage "a"), .metered 0 (.ok ()), .bodyRead 0 (.ok (some "e30="))]
    (.claimRelay (hostOf defaultOptions 0)) (by decide)

/-- The route is closed and its slug registered by another host while the body is read: the
other host gets the request. -/
theorem later_registrant_claims : ¬ ∀ calls c,
    EpochSafe defaultOptions ((tunnelMachine defaultOptions).exec calls).1
      ((tunnelMachine defaultOptions).exec calls).2 c := by
  intro h
  have hsafe := h [.register ⟨some "a", none⟩, .forward (postMessage "a"),
    .metered 0 (.ok ()), .closeRoute (hostOf defaultOptions 0), .register ⟨some "a", none⟩,
    .bodyRead 0 (.ok (some "e30="))] (.claimRelay (hostOf defaultOptions 2))
  obtain ⟨⟨route, hroute, hid, -⟩, -⟩ := hsafe.handed _
    ⟨"req_", (postMessage "a").envelope (some "e30=")⟩ rfl rfl "a" "rte_"
    ⟨_, _, _, List.mem_cons_self⟩
  have hroute' : some "rte_xx" = some route.routeId :=
    congrArg (Option.map RouteMetadata.routeId) hroute
  rw [hid] at hroute'
  exact absurd hroute' (by decide)

end AgentGather.Tunnel
