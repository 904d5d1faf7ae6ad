import AgentGather.Tunnel.Relay

/-!
# Every relayed request is settled once

The two maps of the hub and its timers agree with each other and with the history of
calls.  From that: queues in order of arrival, claims in that order, one settlement a
request, and nothing left of a settled request.
-/

namespace AgentGather.Tunnel

open AgentGather.Library

/-! ## What the history says -/

/-- The ids enqueued for a slug, in the order of the calls. -/
def enqueued (slug : String) : List (RelayCall × RelayReply) → List String
  | [] => []
  | (.enqueue s _, .enqueued id) :: es =>
      if s = slug then enqueued slug es ++ [id] else enqueued slug es
  | _ :: es => enqueued slug es

/-- The ids of the requests that claims of a slug returned, in the order of the calls. -/
def claimed (slug : String) : List (RelayCall × RelayReply) → List String
  | [] => []
  | (.claim s, .claimed (some request)) :: es =>
      if s = slug then claimed slug es ++ [request.requestId] else claimed slug es
  | _ :: es => claimed slug es

/-- What settled a request: an accepted response, one that was too large, a timeout (the
first before the claim, the second behind it), or the closing of its route. -/
def SettledBy (es : List (RelayCall × RelayReply)) (id : String) : Settlement → Prop
  | .resolved response => (.respond id response, .responded (.ok ())) ∈ es
  | .rejected error =>
      (error = responseTooLarge ∧
        ∃ response, (.respond id response, .responded (.error error)) ∈ es) ∨
      (error = didNotAttend ∧ (∃ timer, (.expire timer, .done) ∈ es) ∧
        ∀ slug, id ∉ claimed slug es) ∨
      (error = didNotRespond ∧ (∃ timer, (.expire timer, .done) ∈ es) ∧
        ∃ slug, id ∈ claimed slug es) ∨
      (error = routeClosed ∧
        ∃ slug, (.closeRoute slug, .done) ∈ es ∧ id ∈ enqueued slug es)

namespace RelayHub

/-- In flight and not claimed. -/
def waiting (h : RelayHub) (id : String) : Bool :=
  (h.inflight.get? id).any fun item => !item.claimed

/-- The queue of a slug; one that is not stored is empty. -/
def queue (h : RelayHub) (slug : String) : List String := (h.pending.get? slug).getD []

def settled (h : RelayHub) : List String := h.settlements.map Prod.fst

/-- The timer that stands behind a request. -/
def task (o : RelayOptions) (id : String) (isClaimed : Bool) : RelayTimer :=
  if isClaimed then ⟨id, o.responseTimeoutMs, didNotRespond⟩
  else ⟨id, o.claimTimeoutMs, didNotAttend⟩

end RelayHub

/-! ## The invariant -/

/-- `E` are the ids enqueued and `C` the ids claimed so far, by slug. -/
structure RelayInv (o : RelayOptions) (mint : IdSupply) (h : RelayHub)
    (E C : String → List String) : Prop where
  queues : ∀ slug, h.queue slug = (E slug).filter h.waiting
  kept : ∀ slug, h.pending.get? slug ≠ some []
  nodup : ∀ slug, (E slug).Nodup
  slugs : ∀ slug slug' id, id ∈ E slug → id ∈ E slug' → slug = slug'
  minted : ∀ slug id, id ∈ E slug → ∃ n < h.minted, id = mint.id n
  items : ∀ id item, h.inflight.get? id = some item →
    id ∈ E item.slug ∧ item.request.requestId = id ∧
      (item.claimed = true ↔ id ∈ C item.slug)
  accounted : ∀ slug id, id ∈ E slug → (h.inflight.get? id = none ↔ id ∈ h.settled)
  known : ∀ id ∈ h.settled, ∃ slug, id ∈ E slug
  once : h.settled.Nodup
  order : ∀ slug, (C slug ++ h.queue slug).Sublist (E slug)
  timed : ∀ id item, h.inflight.get? id = some item →
    h.timers.get? item.timer = some (RelayHub.task o id item.claimed)
  armed : ∀ timer task, h.timers.get? timer = some task →
    timer < h.timersSet ∧ ∃ item, h.inflight.get? task.requestId = some item ∧
      item.timer = timer

variable {o : RelayOptions} {mint : IdSupply} {h : RelayHub} {E C : String → List String}

theorem RelayInv.initial : RelayInv o mint .initial (fun _ => []) fun _ => [] where
  queues _ := rfl
  kept _ h := nomatch h
  nodup _ := List.nodup_nil
  slugs _ _ _ h := nomatch h
  minted _ _ h := nomatch h
  items _ _ h := nomatch h
  accounted _ _ h := nomatch h
  known _ h := nomatch h
  once := List.nodup_nil
  order _ := List.Sublist.refl []
  timed _ _ h := nomatch h
  armed _ _ h := nomatch h

/-! ## Queues -/

theorem getD_storeQueue (slug s : String) (queue : List String)
    (pending : OrderedMap String (List String)) :
    ((RelayHub.storeQueue slug queue pending).get? s).getD [] =
      if s = slug then queue else (pending.get? s).getD [] := by
  unfold RelayHub.storeQueue
  by_cases hs : s = slug
  · cases queue with
    | nil => simp [hs, OrderedMap.get?_delete_self]
    | cons id queue => simp [hs, OrderedMap.get?_set_self]
  · cases queue with
    | nil => simp [hs, OrderedMap.get?_delete_ne _ hs]
    | cons id queue => simp [hs, OrderedMap.get?_set_ne _ _ hs]

theorem storeQueue_ne_nil {slug s : String} {queue : List String}
    {pending : OrderedMap String (List String)} (h : pending.get? s ≠ some []) :
    (RelayHub.storeQueue slug queue pending).get? s ≠ some [] := by
  unfold RelayHub.storeQueue
  by_cases hs : s = slug
  · cases queue with
    | nil => simp [hs, OrderedMap.get?_delete_self]
    | cons id queue => simp [hs, OrderedMap.get?_set_self]
  · cases queue with
    | nil => simpa [OrderedMap.get?_delete_ne _ hs] using h
    | cons id queue => simpa [OrderedMap.get?_set_ne _ _ hs] using h

/-- Without one id, which is not listed twice. -/
theorem filter_without {ids : List String} (hnodup : ids.Nodup) {p q : String → Bool}
    {id : String} (hq : ∀ j, q j = (j != id && p j)) :
    ids.filter q = (ids.filter p).erase id := by
  rw [(hnodup.filter p).erase_eq_filter, List.filter_filter]
  exact List.filter_congr fun j _ => hq j

/-! ## Settling -/

/-- Removing a request that is in flight. -/
theorem RelayHub.remove_eq {id : String} {item : InFlight}
    (hitem : h.inflight.get? id = some item) :
    (h.remove id).inflight = h.inflight.delete id ∧ (h.remove id).timers = h.timers ∧
      (h.remove id).timersSet = h.timersSet ∧ (h.remove id).minted = h.minted ∧
      (h.remove id).settlements = h.settlements ∧
      ∀ s, (h.remove id).queue s = if s = item.slug then (h.queue s).erase id
        else h.queue s := by
  unfold RelayHub.remove
  rw [hitem]
  refine ⟨rfl, rfl, rfl, rfl, rfl, fun s => ?_⟩
  unfold RelayHub.queue
  dsimp only
  cases hqueue : h.pending.get? item.slug with
  | none =>
      by_cases hs : s = item.slug
      · simp [hs, hqueue]
      · simp [hs]
  | some queue =>
      rw [getD_storeQueue]
      by_cases hs : s = item.slug
      · simp [hs, hqueue]
      · simp [hs]

theorem RelayHub.remove_kept {id : String} (hkept : ∀ s, h.pending.get? s ≠ some []) :
    ∀ s, (h.remove id).pending.get? s ≠ some [] := by
  intro s
  unfold RelayHub.remove
  split
  · exact hkept s
  · dsimp only
    split
    · exact hkept s
    · exact storeQueue_ne_nil (hkept s)

@[simp] theorem RelayHub.task_requestId (id : String) (isClaimed : Bool) :
    (RelayHub.task o id isClaimed).requestId = id := by
  cases isClaimed <;> rfl

/-- No two requests in flight share a timer. -/
theorem RelayInv.timer_ne (hinv : RelayInv o mint h E C) {id j : String}
    {item other : InFlight} (hitem : h.inflight.get? id = some item)
    (hother : h.inflight.get? j = some other) (hne : j ≠ id) : other.timer ≠ item.timer := by
  intro heq
  have hid := hinv.timed id item hitem
  rw [← heq, hinv.timed j other hother] at hid
  exact hne (by simpa using congrArg RelayTimer.requestId (Option.some.inj hid))

/-- What settling a request that is in flight changes. -/
theorem RelayHub.settle_eq {id : String} {item : InFlight} (s : Settlement)
    (hitem : h.inflight.get? id = some item) :
    (h.settle id item s).inflight = h.inflight.delete id ∧
      (h.settle id item s).timers = h.timers.delete item.timer ∧
      (h.settle id item s).timersSet = h.timersSet ∧
      (h.settle id item s).minted = h.minted ∧
      (h.settle id item s).settlements = (id, s) :: h.settlements ∧
      ∀ slug, (h.settle id item s).queue slug =
        if slug = item.slug then (h.queue slug).erase id else h.queue slug := by
  obtain ⟨hinflight, htimers, hset, hminted, hsettled, hqueue⟩ :=
    @RelayHub.remove_eq { h with timers := h.timers.delete item.timer } id item hitem
  exact ⟨hinflight, htimers, hset, hminted, congrArg ((id, s) :: ·) hsettled, hqueue⟩

/-- Settling a request that is in flight keeps the hub consistent. -/
theorem RelayInv.settle (hinv : RelayInv o mint h E C) {id : String} {item : InFlight}
    (hitem : h.inflight.get? id = some item) (s : Settlement) :
    RelayInv o mint (h.settle id item s) E C := by
  obtain ⟨hinflight, htimers, hset, hminted, hsettled, hqueue⟩ := RelayHub.settle_eq s hitem
  obtain ⟨hmem, -, -⟩ := hinv.items id item hitem
  have hold (j : String) (hj : j ≠ id) :
      (h.settle id item s).inflight.get? j = h.inflight.get? j := by
    rw [hinflight, OrderedMap.get?_delete_ne _ hj]
  have hgone : (h.settle id item s).inflight.get? id = none := by
    rw [hinflight, OrderedMap.get?_delete_self]
  have hnew (j : String) (other : InFlight)
      (hj : (h.settle id item s).inflight.get? j = some other) :
      j ≠ id ∧ h.inflight.get? j = some other := by
    have hne : j ≠ id := by
      rintro rfl
      rw [hgone] at hj
      cases hj
    exact ⟨hne, hold j hne ▸ hj⟩
  have hids : (h.settle id item s).settled = id :: h.settled := by
    rw [RelayHub.settled, hsettled]
    rfl
  constructor
  · intro slug
    have hwaiting (j : String) : (h.settle id item s).waiting j = (j != id && h.waiting j) := by
      unfold RelayHub.waiting
      by_cases hj : j = id
      · subst hj
        simp [hgone]
      · simp [hold j hj, hj]
    rw [hqueue slug]
    by_cases hslug : slug = item.slug
    · rw [if_pos hslug, hinv.queues slug, filter_without (hinv.nodup slug) hwaiting]
    · rw [if_neg hslug, hinv.queues slug]
      apply List.filter_congr
      intro j hj
      have hne : j ≠ id := by
        rintro rfl
        exact hslug (hinv.slugs slug item.slug j hj hmem)
      simp [hwaiting, hne]
  · exact RelayHub.remove_kept (h := { h with timers := h.timers.delete item.timer }) hinv.kept
  · exact hinv.nodup
  · exact hinv.slugs
  · rw [hminted]
    exact hinv.minted
  · intro j other hj
    exact hinv.items j other (hnew j other hj).2
  · intro slug j hj
    rw [hids, List.mem_cons]
    by_cases hne : j = id
    · simp [hne, hgone]
    · simp [hold j hne, hne, hinv.accounted slug j hj]
  · intro j hj
    rw [hids, List.mem_cons] at hj
    rcases hj with rfl | hj
    · exact ⟨item.slug, hmem⟩
    · exact hinv.known j hj
  · rw [hids, List.nodup_cons]
    refine ⟨fun hid => ?_, hinv.once⟩
    rw [(hinv.accounted item.slug id hmem).mpr hid] at hitem
    cases hitem
  · intro slug
    have hsub : ((h.settle id item s).queue slug).Sublist (h.queue slug) := by
      rw [hqueue slug]
      split
      · exact List.erase_sublist
      · exact List.Sublist.refl _
    exact ((List.Sublist.refl (C slug)).append hsub).trans (hinv.order slug)
  · intro j other hj
    obtain ⟨hne, hother⟩ := hnew j other hj
    rw [htimers, OrderedMap.get?_delete_ne _ (hinv.timer_ne hitem hother hne)]
    exact hinv.timed j other hother
  · intro timer task htask
    rw [htimers, OrderedMap.get?_delete] at htask
    split at htask
    · cases htask
    · rename_i hne
      obtain ⟨hlt, other, hother, htimer⟩ := hinv.armed timer task htask
      refine ⟨hset ▸ hlt, other, ?_, htimer⟩
      have hid : task.requestId ≠ id := by
        intro heq
        rw [heq, hitem] at hother
        exact hne (htimer ▸ congrArg InFlight.timer (Option.some.inj hother).symm)
      rw [hold _ hid]
      exact hother

/-! ## Enqueueing and claiming -/

/-- The lists with one more id under a slug. -/
def addId (slug id : String) (ids : String → List String) (s : String) : List String :=
  if s = slug then ids s ++ [id] else ids s

theorem mem_addId {slug id s j : String} {ids : String → List String} :
    j ∈ addId slug id ids s ↔ j ∈ ids s ∨ (s = slug ∧ j = id) := by
  unfold addId
  by_cases hs : s = slug
  · simp [hs]
  · simp [hs]

/-- The next id is new. -/
theorem RelayInv.fresh (hinv : RelayInv o mint h E C) (slug : String) :
    mint.id h.minted ∉ E slug := by
  intro hmem
  obtain ⟨n, hn, heq⟩ := hinv.minted slug _ hmem
  have := mint.injective heq
  omega

theorem RelayInv.enqueue (hinv : RelayInv o mint h E C) (slug : String)
    (envelope : RequestEnvelope) :
    RelayInv o mint (h.enqueue o mint slug envelope).1
      (addId slug (mint.id h.minted) E) C := by
  set id := mint.id h.minted with hid
  have hfresh (s : String) : id ∉ E s := hinv.fresh s
  have hnot : h.inflight.get? id = none := by
    cases hget : h.inflight.get? id with
    | none => rfl
    | some item => exact absurd (hinv.items id item hget).1 (hfresh _)
  have hget (j : String) : (h.enqueue o mint slug envelope).1.inflight.get? j =
      if j = id then some ⟨⟨id, envelope⟩, slug, false, h.timersSet⟩
      else h.inflight.get? j := OrderedMap.get?_set _ _ _ _
  have hqueue (s : String) : (h.enqueue o mint slug envelope).1.queue s =
      if s = slug then h.queue s ++ [id] else h.queue s := by
    show ((h.pending.set slug _).get? s).getD [] = _
    rw [OrderedMap.get?_set]
    by_cases hs : s = slug
    · simp [hs, RelayHub.queue, hid]
    · simp [hs, RelayHub.queue]
  constructor
  · intro s
    have hold : (E s).filter (h.enqueue o mint slug envelope).1.waiting =
        (E s).filter h.waiting := by
      apply List.filter_congr
      intro j hj
      have hne : j ≠ id := by
        rintro rfl
        exact hfresh s hj
      simp [RelayHub.waiting, hget, hne]
    have hself : (h.enqueue o mint slug envelope).1.waiting id = true := by
      simp [RelayHub.waiting, hget]
    rw [hqueue, addId]
    by_cases hs : s = slug
    · rw [if_pos hs, if_pos hs, List.filter_append, hold, hinv.queues s,
        List.filter_singleton, hself, cond_true]
    · rw [if_neg hs, if_neg hs, hold, hinv.queues s]
  · intro s
    show (h.pending.set slug _).get? s ≠ some []
    rw [OrderedMap.get?_set]
    split
    · simp
    · exact hinv.kept s
  · intro s
    unfold addId
    split
    · exact (hinv.nodup s).append (List.nodup_singleton id) (by simpa using hfresh s)
    · exact hinv.nodup s
  · intro s s' j hj hj'
    rw [mem_addId] at hj hj'
    rcases hj with hj | ⟨rfl, rfl⟩
    · rcases hj' with hj' | ⟨rfl, rfl⟩
      · exact hinv.slugs s s' j hj hj'
      · exact absurd hj (hfresh s)
    · rcases hj' with hj' | ⟨rfl, -⟩
      · exact absurd hj' (hfresh s')
      · rfl
  · intro s j hj
    rcases mem_addId.mp hj with hj | ⟨-, rfl⟩
    · obtain ⟨n, hn, heq⟩ := hinv.minted s j hj
      exact ⟨n, Nat.lt_succ_of_lt hn, heq⟩
    · exact ⟨h.minted, Nat.lt_succ_self _, rfl⟩
  · intro j item hj
    rw [hget] at hj
    split at hj
    · rename_i heq
      obtain rfl := Option.some.inj hj
      refine ⟨mem_addId.mpr (.inr ⟨rfl, heq⟩), heq.symm, ?_⟩
      have hnotC : j ∉ C slug := fun hC =>
        hfresh slug (heq ▸ ((List.sublist_append_left _ _).trans (hinv.order slug)).subset hC)
      simp [hnotC]
    · obtain ⟨hmem, hrest⟩ := hinv.items j item hj
      exact ⟨mem_addId.mpr (.inl hmem), hrest⟩
  · intro s j hj
    rw [hget]
    rcases mem_addId.mp hj with hj | ⟨-, rfl⟩
    · have hne : j ≠ id := by
        rintro rfl
        exact hfresh s hj
      rw [if_neg hne]
      exact hinv.accounted s j hj
    · have hsettled : id ∉ h.settled := fun hmem => by
        obtain ⟨s', hs'⟩ := hinv.known id hmem
        exact hfresh s' hs'
      rw [if_pos rfl]
      exact ⟨fun hnone => (by cases hnone), fun hmem => absurd hmem hsettled⟩
  · intro j hj
    obtain ⟨s, hs⟩ := hinv.known j hj
    exact ⟨s, mem_addId.mpr (.inl hs)⟩
  · exact hinv.once
  · intro s
    rw [hqueue, addId]
    by_cases hs : s = slug
    · rw [if_pos hs, if_pos hs, ← List.append_assoc]
      exact (hinv.order s).append (List.Sublist.refl _)
    · rw [if_neg hs, if_neg hs]
      exact hinv.order s
  · intro j item hj
    show (h.timers.set h.timersSet _).get? item.timer = _
    rw [hget] at hj
    split at hj
    · rename_i heq
      obtain rfl := Option.some.inj hj
      rw [OrderedMap.get?_set_self, heq]
      rfl
    · have htimed := hinv.timed j item hj
      have hlt := (hinv.armed item.timer _ htimed).1
      rw [OrderedMap.get?_set_ne _ _ (by omega)]
      exact htimed
  · intro timer task htask
    have htask' : (h.timers.set h.timersSet ⟨id, o.claimTimeoutMs, didNotAttend⟩).get? timer =
        some task := htask
    rw [OrderedMap.get?_set] at htask'
    split at htask'
    · rename_i heq
      obtain rfl := Option.some.inj htask'
      refine ⟨heq ▸ Nat.lt_succ_self _, _, (hget id).trans (if_pos rfl), heq.symm⟩
    · obtain ⟨hlt, item, hitem, htimer⟩ := hinv.armed timer task htask'
      have hne : task.requestId ≠ id := by
        intro heq
        rw [heq, hnot] at hitem
        cases hitem
      exact ⟨Nat.lt_succ_of_lt hlt, item, (hget _).trans ((if_neg hne).trans hitem), htimer⟩

/-- A claim takes the head of the queue, if there is one, and changes nothing if there is
none. -/
theorem RelayInv.claim_cases (hinv : RelayInv o mint h E C) (slug : String) :
    (h.queue slug = [] ∧ h.claim o slug = (h, none)) ∨
    (∃ id item rest, h.queue slug = id :: rest ∧ h.inflight.get? id = some item ∧
      item.claimed = false ∧ item.slug = slug ∧
      h.claim o slug = (h.take o slug id item rest, some item.request)) := by
  cases hpending : h.pending.get? slug with
  | none =>
      left
      exact ⟨by simp [RelayHub.queue, hpending], by simp [RelayHub.claim, hpending]⟩
  | some queue =>
      right
      cases queue with
      | nil => exact absurd hpending (hinv.kept slug)
      | cons id rest =>
          have hqueue : h.queue slug = id :: rest := by simp [RelayHub.queue, hpending]
          have hmem : id ∈ (E slug).filter h.waiting := by
            rw [← hinv.queues slug, hqueue]
            exact List.mem_cons_self
          obtain ⟨hid, hwaiting⟩ := List.mem_filter.mp hmem
          obtain ⟨item, hitem, hfree⟩ := (Option.any_eq_true _ _).mp hwaiting
          have hfree' : item.claimed = false := by simpa using hfree
          have hslug := hinv.slugs item.slug slug id (hinv.items id item hitem).1 hid
          refine ⟨id, item, rest, hqueue, hitem, hfree', hslug, ?_⟩
          simp only [RelayHub.claim, hpending, RelayHub.claimQueue, hitem, hfree']
          rfl

theorem RelayInv.take (hinv : RelayInv o mint h E C) {slug id : String} {item : InFlight}
    {rest : List String} (hhead : h.queue slug = id :: rest)
    (hitem : h.inflight.get? id = some item) (hslug : item.slug = slug) :
    RelayInv o mint (h.take o slug id item rest) E (addId slug id C) := by
  have hget (j : String) : (h.take o slug id item rest).inflight.get? j =
      if j = id then some { item with claimed := true, timer := h.timersSet }
      else h.inflight.get? j := OrderedMap.get?_set _ _ _ _
  have hqueue (s : String) : (h.take o slug id item rest).queue s =
      if s = slug then rest else h.queue s := getD_storeQueue slug s rest h.pending
  have hmem : id ∈ E slug := hslug ▸ (hinv.items id item hitem).1
  have hnew (j : String) (other : InFlight)
      (hj : (h.take o slug id item rest).inflight.get? j = some other) :
      (j = id ∧ other = { item with claimed := true, timer := h.timersSet }) ∨
        (j ≠ id ∧ h.inflight.get? j = some other) := by
    rw [hget] at hj
    split at hj
    · rename_i heq
      exact .inl ⟨heq, (Option.some.inj hj).symm⟩
    · rename_i hne
      exact .inr ⟨hne, hj⟩
  constructor
  · intro s
    have hwaiting (j : String) :
        (h.take o slug id item rest).waiting j = (j != id && h.waiting j) := by
      unfold RelayHub.waiting
      by_cases hj : j = id
      · simp [hget, hj]
      · simp [hget, hj]
    rw [hqueue]
    by_cases hs : s = slug
    · subst hs
      rw [if_pos rfl, filter_without (hinv.nodup s) hwaiting, ← hinv.queues s, hhead,
        List.erase_cons_head]
    · rw [if_neg hs, hinv.queues s]
      apply List.filter_congr
      intro j hj
      have hne : j ≠ id := by
        rintro rfl
        exact hs (hinv.slugs s slug j hj hmem)
      simp [hwaiting, hne]
  · intro s
    exact storeQueue_ne_nil (hinv.kept s)
  · exact hinv.nodup
  · exact hinv.slugs
  · exact hinv.minted
  · intro j other hj
    rcases hnew j other hj with ⟨rfl, rfl⟩ | ⟨hne, hother⟩
    · refine ⟨hslug ▸ hmem, (hinv.items j item hitem).2.1, ?_⟩
      simp [mem_addId, hslug]
    · obtain ⟨hmem', hid', hclaimed⟩ := hinv.items j other hother
      refine ⟨hmem', hid', ?_⟩
      rw [hclaimed, mem_addId]
      simp [hne]
  · intro s j hj
    rw [hget]
    by_cases hne : j = id
    · subst hne
      have hnone := hinv.accounted s j hj
      rw [hitem] at hnone
      rw [if_pos rfl]
      exact ⟨fun hx => (by cases hx), fun hx => (by cases hnone.mpr hx)⟩
    · rw [if_neg hne]
      exact hinv.accounted s j hj
  · exact hinv.known
  · exact hinv.once
  · intro s
    rw [hqueue, addId]
    by_cases hs : s = slug
    · subst hs
      have horder := hinv.order s
      rw [hhead] at horder
      simpa using horder
    · rw [if_neg hs, if_neg hs]
      exact hinv.order s
  · intro j other hj
    show ((h.timers.delete item.timer).set h.timersSet _).get? other.timer = _
    rcases hnew j other hj with ⟨rfl, rfl⟩ | ⟨hne, hother⟩
    · rw [OrderedMap.get?_set_self]
      rfl
    · have htimed := hinv.timed j other hother
      have hlt := (hinv.armed other.timer _ htimed).1
      rw [OrderedMap.get?_set_ne _ _ (by omega),
        OrderedMap.get?_delete_ne _ (hinv.timer_ne hitem hother hne)]
      exact htimed
  · intro timer task htask
    have htask' : ((h.timers.delete item.timer).set h.timersSet
        ⟨id, o.responseTimeoutMs, didNotRespond⟩).get? timer = some task := htask
    rw [OrderedMap.get?_set] at htask'
    split at htask'
    · rename_i heq
      obtain rfl := Option.some.inj htask'
      refine ⟨heq ▸ Nat.lt_succ_self _, _, (hget id).trans (if_pos rfl), heq.symm⟩
    · rw [OrderedMap.get?_delete] at htask'
      split at htask'
      · cases htask'
      · rename_i hne
        obtain ⟨hlt, other, hother, htimer⟩ := hinv.armed timer task htask'
        have hid : task.requestId ≠ id := by
          intro heq
          rw [heq, hitem] at hother
          exact hne (htimer ▸ congrArg InFlight.timer (Option.some.inj hother).symm)
        exact ⟨Nat.lt_succ_of_lt hlt, other, (hget _).trans ((if_neg hid).trans hother),
          htimer⟩

/-! ## Failing, closing and expiring -/

theorem RelayInv.fail (hinv : RelayInv o mint h E C) (id : String) (error : TunnelError) :
    RelayInv o mint (h.fail id error) E C := by
  unfold RelayHub.fail
  split
  · exact hinv
  · rename_i item hitem
    exact hinv.settle hitem _

/-- Whoever fails in a row keeps the hub consistent. -/
theorem RelayInv.failAll (slug : String) (entries : List (String × InFlight))
    (hinv : RelayInv o mint h E C) :
    RelayInv o mint (entries.foldl
      (fun h e => if e.2.slug = slug then h.fail e.1 routeClosed else h) h) E C := by
  induction entries generalizing h with
  | nil => exact hinv
  | cons e entries ih =>
      rw [List.foldl_cons]
      apply ih
      split
      · exact hinv.fail _ _
      · exact hinv

theorem RelayInv.closeRoute (hinv : RelayInv o mint h E C) (slug : String) :
    RelayInv o mint (h.closeRoute slug) E C := hinv.failAll slug h.inflight.entries

/-- What failing the requests of a slug among these does, all of which are in flight. -/
theorem failAll_eq (slug : String) (entries : List (String × InFlight))
    (hdistinct : (entries.map Prod.fst).Nodup)
    (hin : ∀ e ∈ entries, h.inflight.get? e.1 = some e.2) :
    let ids := (entries.filter fun e => e.2.slug = slug).map Prod.fst
    let h' := entries.foldl
      (fun h e => if e.2.slug = slug then h.fail e.1 routeClosed else h) h
    h'.settlements = (ids.map fun id => (id, .rejected routeClosed)).reverse ++
        h.settlements ∧
      h'.inflight.entries = h.inflight.entries.filter fun e => e.1 ∉ ids := by
  induction entries generalizing h with
  | nil => simp
  | cons e entries ih =>
      rw [List.map_cons, List.nodup_cons] at hdistinct
      have hitem := hin e List.mem_cons_self
      by_cases hslug : e.2.slug = slug
      · obtain ⟨hinflight, -, -, -, hsettled, -⟩ :=
          RelayHub.settle_eq (.rejected routeClosed) hitem
        have hfail : h.fail e.1 routeClosed = h.settle e.1 e.2 (.rejected routeClosed) := by
          simp only [RelayHub.fail, hitem]
        have hrest : ∀ e' ∈ entries,
            (h.fail e.1 routeClosed).inflight.get? e'.1 = some e'.2 := by
          intro e' he'
          have hne : e'.1 ≠ e.1 := fun heq =>
            hdistinct.1 (List.mem_map.mpr ⟨e', he', heq⟩)
          rw [hfail, hinflight, OrderedMap.get?_delete_ne _ hne]
          exact hin e' (List.mem_cons_of_mem _ he')
        obtain ⟨hs, hi⟩ := ih hdistinct.2 hrest
        rw [List.foldl_cons, if_pos hslug, List.filter_cons_of_pos (by simpa using hslug)]
        constructor
        · rw [hs, hfail, hsettled]
          simp
        · rw [hi, hfail, hinflight, OrderedMap.delete, List.filter_filter]
          apply List.filter_congr
          intro e' _
          rw [List.map_cons]
          by_cases he : e'.1 = e.1
          · simp [he]
          · simp [List.mem_cons, he]
      · rw [List.foldl_cons, if_neg hslug, List.filter_cons_of_neg (by simpa using hslug)]
        exact ih hdistinct.2 fun e' he' => hin e' (List.mem_cons_of_mem _ he')

/-- Closing a route rejects every request of its slug that is in flight, and no other. -/
theorem closeRoute_eq (h : RelayHub) (slug : String) :
    (h.closeRoute slug).settlements =
        (((h.inflight.entries.filter fun e => e.2.slug = slug).map Prod.fst).map
          fun id => (id, .rejected routeClosed)).reverse ++ h.settlements ∧
      (h.closeRoute slug).inflight.entries =
        h.inflight.entries.filter fun e => e.2.slug ≠ slug := by
  obtain ⟨hs, hi⟩ := failAll_eq (h := h) slug h.inflight.entries h.inflight.distinct
    fun e he => OrderedMap.get?_eq_some_iff.mpr he
  refine ⟨hs, hi.trans ?_⟩
  apply List.filter_congr
  intro e he
  have hiff : e.1 ∈ ((h.inflight.entries.filter fun e => e.2.slug = slug).map Prod.fst) ↔
      e.2.slug = slug := by
    constructor
    · intro hmem
      obtain ⟨e', he', heq⟩ := List.mem_map.mp hmem
      obtain ⟨hin', hslug⟩ := List.mem_filter.mp he'
      have hsame : e'.2 = e.2 := by
        have hget := OrderedMap.get?_eq_some_iff.mpr hin'
        rw [heq, OrderedMap.get?_eq_some_iff.mpr he] at hget
        exact (Option.some.inj hget).symm
      rw [← hsame]
      simpa using hslug
    · intro hslug
      exact List.mem_map.mpr ⟨e, List.mem_filter.mpr ⟨he, by simpa using hslug⟩, rfl⟩
  simp only [hiff, ne_eq]

theorem delete_delete (m : OrderedMap Nat RelayTimer) (k : Nat) :
    (m.delete k).delete k = m.delete k := by
  apply OrderedMap.ext_entries
  simp [OrderedMap.delete, List.filter_filter]

/-- An expiry settles the request its timer stands behind, or is that of no armed
timer. -/
theorem RelayInv.expire_cases (hinv : RelayInv o mint h E C) (timer : Nat) :
    h.expire timer = h ∨ ∃ id item, h.inflight.get? id = some item ∧
      h.expire timer =
        h.settle id item (.rejected (RelayHub.task o id item.claimed).error) := by
  unfold RelayHub.expire
  cases htask : h.timers.get? timer with
  | none => exact .inl rfl
  | some task =>
      right
      obtain ⟨-, item, hitem, htimer⟩ := hinv.armed timer task htask
      have htask' : task = RelayHub.task o task.requestId item.claimed := by
        have htimed := hinv.timed _ item hitem
        rw [htimer, htask] at htimed
        exact Option.some.inj htimed
      refine ⟨task.requestId, item, hitem, ?_⟩
      have hfail : RelayHub.fail { h with timers := h.timers.delete timer } task.requestId
          task.error = RelayHub.settle { h with timers := h.timers.delete timer }
            task.requestId item (.rejected task.error) := by
        simp only [RelayHub.fail, hitem]
      show RelayHub.fail _ _ _ = _
      rw [hfail, ← htask']
      simp only [RelayHub.settle, htimer, delete_delete]

theorem RelayInv.expire (hinv : RelayInv o mint h E C) (timer : Nat) :
    RelayInv o mint (h.expire timer) E C := by
  rcases hinv.expire_cases timer with heq | ⟨id, item, hitem, heq⟩
  · rw [heq]
    exact hinv
  · rw [heq]
    exact hinv.settle hitem _

/-- A response settles the request it names, if that is in flight. -/
theorem RelayHub.respond_cases (o : RelayOptions) (h : RelayHub) (id : String)
    (response : ForwardedResponse) :
    (h.inflight.get? id = none ∧ h.respond o id response = (h, .error unknownRequest)) ∨
    ∃ item, h.inflight.get? id = some item ∧
      (h.respond o id response =
          (h.settle id item (.rejected responseTooLarge), .error responseTooLarge) ∨
        h.respond o id response = (h.settle id item (.resolved response), .ok ())) := by
  unfold RelayHub.respond
  cases hitem : h.inflight.get? id with
  | none => exact .inl ⟨rfl, rfl⟩
  | some item =>
      refine .inr ⟨item, rfl, ?_⟩
      dsimp only
      split
      · have hfail : h.fail id responseTooLarge =
            h.settle id item (.rejected responseTooLarge) := by
          simp only [RelayHub.fail, hitem]
        rw [hfail]
        exact .inl rfl
      · exact .inr rfl

theorem RelayInv.respond (hinv : RelayInv o mint h E C) (id : String)
    (response : ForwardedResponse) : RelayInv o mint (h.respond o id response).1 E C := by
  rcases h.respond_cases o id response with ⟨-, heq⟩ | ⟨item, hitem, heq | heq⟩
  · rw [heq]
    exact hinv
  · rw [heq]
    exact hinv.settle hitem _
  · rw [heq]
    exact hinv.settle hitem _

/-! ## Every run -/

/-- The hub has done what it is for. -/
structure ExactlyOnce (o : RelayOptions) (h : RelayHub)
    (es : List (RelayCall × RelayReply)) : Prop where
  queues : ∀ slug, h.queue slug = (enqueued slug es).filter h.waiting
  distinct : ∀ slug, (enqueued slug es).Nodup ∧ (h.queue slug).Nodup
  oneSlug : ∀ slug slug' id, id ∈ enqueued slug es → id ∈ enqueued slug' es → slug = slug'
  noEmptyQueue : ∀ slug, h.pending.get? slug ≠ some []
  settledOnce : h.settled.Nodup
  settledBy : ∀ e ∈ h.settlements, SettledBy es e.1 e.2
  accounted : ∀ slug, ∀ id ∈ enqueued slug es, (h.inflight.get? id).isSome ↔ id ∉ h.settled
  unknown : ∀ id response, h.inflight.get? id = none →
    h.respond o id response = (h, .error unknownRequest)
  claimedOnce : ∀ slug, (claimed slug es).Nodup
  claimedInOrder : ∀ slug, (claimed slug es ++ h.queue slug).Sublist (enqueued slug es)
  closing : ∀ slug,
    (h.closeRoute slug).settlements =
        (((h.inflight.entries.filter fun e => e.2.slug = slug).map Prod.fst).map
          fun id => (id, .rejected routeClosed)).reverse ++ h.settlements ∧
      (h.closeRoute slug).inflight.entries =
        h.inflight.entries.filter fun e => e.2.slug ≠ slug
  forgotten : ∀ id ∈ h.settled, h.inflight.get? id = none ∧
    ∀ slug queue, h.pending.get? slug = some queue → id ∉ queue

/-- The invariant along a run, with what settled each request. -/
structure RelayRun (o : RelayOptions) (mint : IdSupply) (h : RelayHub)
    (es : List (RelayCall × RelayReply)) : Prop where
  inv : RelayInv o mint h (fun slug => enqueued slug es) fun slug => claimed slug es
  causes : ∀ e ∈ h.settlements, SettledBy es e.1 e.2

/-- What settled a request stays what settled it. -/
theorem SettledBy.later {es : List (RelayCall × RelayReply)} {id : String} {s : Settlement}
    (h : SettledBy es id s) {e : RelayCall × RelayReply}
    (henqueued : ∀ slug, id ∈ enqueued slug es → id ∈ enqueued slug (e :: es))
    (hclaimed : ∀ slug, id ∈ claimed slug (e :: es) ↔ id ∈ claimed slug es) :
    SettledBy (e :: es) id s := by
  cases s with
  | resolved response => exact List.mem_cons_of_mem _ h
  | rejected error =>
      rcases h with ⟨herror, response, hmem⟩ | ⟨herror, ⟨timer, hmem⟩, hnot⟩ |
        ⟨herror, ⟨timer, hmem⟩, slug, hin⟩ | ⟨herror, slug, hmem, hin⟩
      · exact .inl ⟨herror, response, List.mem_cons_of_mem _ hmem⟩
      · exact .inr (.inl ⟨herror, ⟨timer, List.mem_cons_of_mem _ hmem⟩,
          fun slug => (hclaimed slug).not.mpr (hnot slug)⟩)
      · exact .inr (.inr (.inl ⟨herror, ⟨timer, List.mem_cons_of_mem _ hmem⟩, slug,
          (hclaimed slug).mpr hin⟩))
      · exact .inr (.inr (.inr ⟨herror, slug, List.mem_cons_of_mem _ hmem,
          henqueued slug hin⟩))

theorem RelayInv.enqueued_of_claimed (hinv : RelayInv o mint h E C) {slug id : String}
    (hid : id ∈ C slug) : id ∈ E slug :=
  ((List.sublist_append_left _ _).trans (hinv.order slug)).subset hid

theorem RelayRun.initial : RelayRun o mint .initial [] :=
  ⟨.initial, fun _ h => nomatch h⟩

section Steps

variable {es : List (RelayCall × RelayReply)}

/-- A call that neither enqueues nor claims, and settles for the reasons it has. -/
theorem RelayRun.settling {e : RelayCall × RelayReply} {h' : RelayHub}
    (hrun : RelayRun o mint h es) (hE : ∀ slug, enqueued slug (e :: es) = enqueued slug es)
    (hC : ∀ slug, claimed slug (e :: es) = claimed slug es)
    (hinv : RelayInv o mint h' (fun slug => enqueued slug es) fun slug => claimed slug es)
    (hcauses : ∀ x ∈ h'.settlements, x ∈ h.settlements ∨ SettledBy (e :: es) x.1 x.2) :
    RelayRun o mint h' (e :: es) := by
  constructor
  · simpa only [hE, hC] using hinv
  · intro x hx
    rcases hcauses x hx with hold | hnew
    · exact (hrun.causes x hold).later (fun slug hid => by rwa [hE]) fun slug => by rw [hC]
    · exact hnew

/-- The same for a call that settles one request. -/
theorem RelayRun.settles {e : RelayCall × RelayReply} (hrun : RelayRun o mint h es)
    (hE : ∀ slug, enqueued slug (e :: es) = enqueued slug es)
    (hC : ∀ slug, claimed slug (e :: es) = claimed slug es) {id : String} {item : InFlight}
    (hitem : h.inflight.get? id = some item) {s : Settlement}
    (hcause : SettledBy (e :: es) id s) : RelayRun o mint (h.settle id item s) (e :: es) := by
  refine hrun.settling hE hC (hrun.inv.settle hitem s) fun x hx => ?_
  rw [(RelayHub.settle_eq s hitem).2.2.2.2.1, List.mem_cons] at hx
  rcases hx with rfl | hx
  · exact .inr hcause
  · exact .inl hx

theorem RelayRun.enqueue (hrun : RelayRun o mint h es) (slug : String)
    (envelope : RequestEnvelope) :
    RelayRun o mint (h.enqueue o mint slug envelope).1
      ((.enqueue slug envelope, .enqueued (mint.id h.minted)) :: es) := by
  have hE : (fun s => enqueued s ((.enqueue slug envelope, .enqueued (mint.id h.minted)) :: es)) =
      addId slug (mint.id h.minted) fun s => enqueued s es := by
    funext s
    simp only [enqueued, addId, eq_comm]
  constructor
  · rw [hE]
    exact hrun.inv.enqueue slug envelope
  · intro x hx
    refine (hrun.causes x hx).later (fun s hid => ?_) fun s => Iff.rfl
    have hmem : x.1 ∈ addId slug (mint.id h.minted) (fun s => enqueued s es) s :=
      mem_addId.mpr (.inl hid)
    rwa [← hE] at hmem

theorem RelayRun.claim (hrun : RelayRun o mint h es) (slug : String) :
    RelayRun o mint (h.claim o slug).1 ((.claim slug, .claimed (h.claim o slug).2) :: es) := by
  rcases hrun.inv.claim_cases slug with ⟨-, heq⟩ |
    ⟨id, item, rest, hhead, hitem, hfree, hslug, heq⟩
  · rw [heq]
    exact hrun.settling (fun _ => rfl) (fun _ => rfl) hrun.inv fun x hx => .inl hx
  · rw [heq]
    have hid : item.request.requestId = id := (hrun.inv.items id item hitem).2.1
    have hC : (fun s => claimed s ((.claim slug, .claimed (some item.request)) :: es)) =
        addId slug id fun s => claimed s es := by
      funext s
      simp only [claimed, addId, hid, eq_comm]
    constructor
    · rw [hC]
      exact hrun.inv.take hhead hitem hslug
    · intro x hx
      refine (hrun.causes x hx).later (fun s hx' => hx') fun s => ?_
      have hne : x.1 ≠ id := by
        intro heq'
        have hsettled : id ∈ h.settled := heq' ▸ List.mem_map_of_mem hx
        rw [(hrun.inv.accounted item.slug id (hrun.inv.items id item hitem).1).mpr hsettled]
          at hitem
        cases hitem
      have hiff : x.1 ∈ addId slug id (fun s => claimed s es) s ↔ x.1 ∈ claimed s es := by
        rw [mem_addId]
        simp [hne]
      rwa [← hC] at hiff

theorem RelayRun.respond (hrun : RelayRun o mint h es) (id : String)
    (response : ForwardedResponse) :
    RelayRun o mint (h.respond o id response).1
      ((.respond id response, .responded (h.respond o id response).2) :: es) := by
  rcases h.respond_cases o id response with ⟨-, heq⟩ | ⟨item, hitem, heq | heq⟩
  · rw [heq]
    exact hrun.settling (fun _ => rfl) (fun _ => rfl) hrun.inv fun x hx => .inl hx
  · rw [heq]
    exact hrun.settles (fun _ => rfl) (fun _ => rfl) hitem
      (.inl ⟨rfl, response, List.mem_cons_self⟩)
  · rw [heq]
    exact hrun.settles (fun _ => rfl) (fun _ => rfl) hitem List.mem_cons_self

theorem RelayRun.closeRoute (hrun : RelayRun o mint h es) (slug : String) :
    RelayRun o mint (h.closeRoute slug) ((.closeRoute slug, .done) :: es) := by
  refine hrun.settling (fun _ => rfl) (fun _ => rfl) (hrun.inv.closeRoute slug) fun x hx => ?_
  rw [(closeRoute_eq h slug).1, List.mem_append, List.mem_reverse] at hx
  rcases hx with hx | hx
  · obtain ⟨id, hid, rfl⟩ := List.mem_map.mp hx
    obtain ⟨⟨j, item⟩, he, rfl⟩ := List.mem_map.mp hid
    obtain ⟨hin, hslug⟩ := List.mem_filter.mp he
    have hmem := (hrun.inv.items j item (OrderedMap.get?_eq_some_iff.mpr hin)).1
    have hslug' : item.slug = slug := by simpa using hslug
    exact .inr (.inr (.inr (.inr ⟨rfl, slug, List.mem_cons_self, hslug' ▸ hmem⟩)))
  · exact .inl hx

theorem RelayRun.expire (hrun : RelayRun o mint h es) (timer : Nat) :
    RelayRun o mint (h.expire timer) ((.expire timer, .done) :: es) := by
  rcases hrun.inv.expire_cases timer with heq | ⟨id, item, hitem, heq⟩
  · rw [heq]
    exact hrun.settling (fun _ => rfl) (fun _ => rfl) hrun.inv fun x hx => .inl hx
  · rw [heq]
    refine hrun.settles (fun _ => rfl) (fun _ => rfl) hitem ?_
    obtain ⟨hmem, -, hclaimed⟩ := hrun.inv.items id item hitem
    cases hcase : item.claimed with
    | false =>
        refine .inr (.inl ⟨rfl, ⟨timer, List.mem_cons_self⟩, fun slug hin => ?_⟩)
        have hslug := hrun.inv.slugs slug item.slug id
          (hrun.inv.enqueued_of_claimed hin) hmem
        rw [hcase] at hclaimed
        exact Bool.false_ne_true (hclaimed.mpr (hslug ▸ hin))
    | true =>
        exact .inr (.inr (.inl ⟨rfl, ⟨timer, List.mem_cons_self⟩, item.slug,
          hclaimed.mp hcase⟩))

/-- Every call keeps the invariant. -/
theorem RelayRun.step (hrun : RelayRun o mint h es) (call : RelayCall) :
    RelayRun o mint ((relayMachine o mint).step h call).1
      ((call, ((relayMachine o mint).step h call).2) :: es) := by
  cases call with
  | enqueue slug envelope => exact hrun.enqueue slug envelope
  | claim slug => exact hrun.claim slug
  | respond id response => exact hrun.respond id response
  | closeRoute slug => exact hrun.closeRoute slug
  | expire timer => exact hrun.expire timer

end Steps

theorem RelayRun.exactlyOnce {es : List (RelayCall × RelayReply)}
    (hrun : RelayRun o mint h es) : ExactlyOnce o h es where
  queues := hrun.inv.queues
  distinct slug := ⟨hrun.inv.nodup slug, by
    rw [hrun.inv.queues slug]
    exact (hrun.inv.nodup slug).filter _⟩
  oneSlug := hrun.inv.slugs
  noEmptyQueue := hrun.inv.kept
  settledOnce := hrun.inv.once
  settledBy := hrun.causes
  accounted slug id hid := by
    rw [Option.isSome_iff_ne_none, ne_eq, hrun.inv.accounted slug id hid]
  unknown id response hnone := by simp only [RelayHub.respond, hnone]
  claimedOnce slug :=
    (hrun.inv.nodup slug).sublist ((List.sublist_append_left _ _).trans (hrun.inv.order slug))
  claimedInOrder := hrun.inv.order
  closing := closeRoute_eq h
  forgotten id hid := by
    obtain ⟨slug, hmem⟩ := hrun.inv.known id hid
    have hnone := (hrun.inv.accounted slug id hmem).mpr hid
    refine ⟨hnone, fun slug' queue hqueue hin => ?_⟩
    have hwaiting : id ∈ (enqueued slug' es).filter h.waiting := by
      rw [← hrun.inv.queues slug']
      simpa [RelayHub.queue, hqueue] using hin
    have := (List.mem_filter.mp hwaiting).2
    simp [RelayHub.waiting, hnone] at this

/-- Whatever is called, and whichever timers expire, in any order: the queues hold the
unclaimed requests in the order they came in, each request is claimed at most once and in
that order, each is settled at most once, and nothing is left of it then. -/
theorem relay_exactlyOnce (o : RelayOptions) (mint : IdSupply) (calls : List RelayCall) :
    ExactlyOnce o ((relayMachine o mint).exec calls).1
      ((relayMachine o mint).exec calls).2 := by
  have hrun : RelayRun o mint ((relayMachine o mint).exec calls).1
      ((relayMachine o mint).exec calls).2 :=
    Machine.invariant RelayRun.initial (fun _ _ call hrun => hrun.step call) calls
  exact hrun.exactlyOnce

end AgentGather.Tunnel
