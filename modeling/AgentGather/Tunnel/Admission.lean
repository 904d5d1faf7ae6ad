import AgentGather.Library.FixedWindow
import AgentGather.Library.Machine
import AgentGather.Tunnel.Limits

/-!
# Admission

Requests enter through the broker's guards, and their release handles are called in any
order, any of them any number of times.  The load that is tracked for a route is always
that of its requests whose handle was not called yet.
-/

namespace AgentGather.Tunnel

open AgentGather.Library AgentGather.Library.FixedWindow

/-! ## Guards and handles -/

inductive GuardCall where
  | enter (input : RequestGuardInput)
  | release (handle : Nat)
  | timePasses (ms : Nat)
deriving DecidableEq, Repr

/-- A release handle: the request it is for, and whether it was called. -/
structure ReleaseHandle where
  input : RequestGuardInput
  released : Bool
deriving DecidableEq, Repr

/-- The handles are numbered as they were returned. -/
structure Admission where
  clock : Nat
  guards : BrokerGuards
  handles : List ReleaseHandle

/-- An `enter`, with what the window of its route said, what both windows said, and how it
ended. -/
structure Entry where
  time : Nat
  input : RequestGuardInput
  routeAdmitted : Bool
  rateAdmitted : Bool
  admitted : Bool
deriving DecidableEq, Repr

namespace Admission

/-- `enter`; the handle of an admitted request is the next one. -/
def enter (limits : BrokerLimits) (s : Admission) (input : RequestGuardInput) :
    Admission × Except TunnelError Unit :=
  let entered := s.guards.enter limits s.clock input
  match entered.2 with
  | .ok () => ({ s with guards := entered.1, handles := s.handles ++ [⟨input, false⟩] }, .ok ())
  | .error e => ({ s with guards := entered.1 }, .error e)

/-- The handle, called once more or for the first time. -/
def release (s : Admission) (handle : Nat) : Admission :=
  match s.handles[handle]? with
  | none => s
  | some h =>
      if h.released then s
      else { s with
        guards := s.guards.release h.input
        handles := s.handles.set handle { h with released := true } }

def entry (limits : BrokerLimits) (s : Admission) (input : RequestGuardInput) : Entry where
  time := s.clock
  input := input
  routeAdmitted := (admitRate s.guards.routeRate input.routeSlug
    limits.requestsPerRoutePerMinute s.clock).2.isOk
  rateAdmitted := (s.guards.enterRates limits s.clock input).2.isOk
  admitted := (s.enter limits input).2.isOk

def step (limits : BrokerLimits) (s : Admission) : GuardCall → Admission × Option Entry
  | .enter input => ((s.enter limits input).1, some (s.entry limits input))
  | .release handle => (s.release handle, none)
  | .timePasses ms => ({ s with clock := s.clock + ms }, none)

/-- The requests of a route that were admitted and are not released. -/
def outstanding (s : Admission) (slug : String) : List ReleaseHandle :=
  s.handles.filter fun h => !h.released && h.input.routeSlug == slug

end Admission

/-- New guards. -/
def brokerGuards (limits : BrokerLimits) (clock : Nat) :
    Machine Admission GuardCall (Option Entry) where
  init := ⟨clock, .initial, []⟩
  step := Admission.step limits

/-! ## Entries -/

/-- The entries, the first one first. -/
def entries (es : List (GuardCall × Option Entry)) : List Entry := es.reverse.filterMap (·.2)

def routeEntries (slug : String) (es : List (GuardCall × Option Entry)) : List Entry :=
  (entries es).filter fun e => e.input.routeSlug == slug

/-- Entries without credentials that the window of their route let through: these count
for their address. -/
def addressEntries (clientIp : String) (es : List (GuardCall × Option Entry)) : List Entry :=
  (entries es).filter fun e =>
    e.routeAdmitted && !e.input.authenticated && e.input.clientIp == clientIp

/-- What is tracked for requests: nothing if there are none. -/
def loadOf (requests : List ReleaseHandle) : Option RouteLoad :=
  if requests = [] then none
  else some ⟨requests.length, requests.countP (·.input.isWait)⟩

/-- The tracked load is that of the outstanding requests, within the limits. -/
structure Admission.Accounted (limits : BrokerLimits) (s : Admission) : Prop where
  tracked : ∀ slug, s.guards.inflight.get? slug = loadOf (s.outstanding slug)
  requests : ∀ slug, (s.outstanding slug).length ≤ limits.concurrentRequestsPerRoute
  waits : ∀ slug,
    (s.outstanding slug).countP (·.input.isWait) ≤ limits.concurrentWaitsPerRoute

/-- In a window of a minute no more requests of a route are admitted than its limit, or
one, and no more requests of an address without credentials. -/
structure RatesKept (limits : BrokerLimits) (es : List (GuardCall × Option Entry)) : Prop where
  route : ∀ slug, ∀ window ∈ windows rateWindowMs Entry.time (routeEntries slug es),
    window.countP (·.admitted) ≤ max limits.requestsPerRoutePerMinute 1
  address : ∀ clientIp, ∀ window ∈ windows rateWindowMs Entry.time (addressEntries clientIp es),
    window.countP (·.admitted) ≤ max limits.unauthenticatedPerIpPerMinute 1

/-! ## Rate windows -/

section Rates

/-- A window as the guards keep it: calls above the limit are not counted. -/
def clamp (limit : Nat) (w : Window) : RateWindow := ⟨w.resetAt, min w.count (max limit 1)⟩

/-- A call in the window of its key, and in no other. -/
theorem admitRate_spec {ws : OrderedMap String RateWindow} {key : String} {limit : Nat}
    {times : List Nat} (h : ws.get? key = (after rateWindowMs times).map (clamp limit))
    (now : Nat) :
    (admitRate ws key limit now).2.isOk =
        admits limit (call rateWindowMs now (after rateWindowMs times)) ∧
      ∀ k, (admitRate ws key limit now).1.get? k =
        if k = key then (after rateWindowMs (times ++ [now])).map (clamp limit)
        else ws.get? k := by
  have hopens (k : String) : (ws.set key ⟨now + rateWindowMs, 1⟩).get? k =
      if k = key then some (clamp limit ⟨now + rateWindowMs, 1⟩) else ws.get? k := by
    have hclamp : clamp limit ⟨now + rateWindowMs, 1⟩ = ⟨now + rateWindowMs, 1⟩ := by
      simp only [clamp, RateWindow.mk.injEq, true_and]
      omega
    rw [OrderedMap.get?_set, hclamp]
  rw [after_concat, Option.map_some]
  unfold admitRate
  cases hwindow : after rateWindowMs times with
  | none =>
      rw [hwindow, Option.map_none] at h
      rw [h]
      exact ⟨(decide_eq_true (le_max_right _ _)).symm, hopens⟩
  | some w =>
      have hpos := count_pos_of_after hwindow
      rw [hwindow, Option.map_some] at h
      rw [h]
      dsimp only
      by_cases hover : w.resetAt ≤ now
      · have hcall : call rateWindowMs now (some w) = ⟨now + rateWindowMs, 1⟩ := by
          rw [call, live_some_of_le hover]
        rw [if_pos (show (clamp limit w).resetAt ≤ now from hover), hcall]
        exact ⟨(decide_eq_true (le_max_right _ _)).symm, hopens⟩
      · have hcall : call rateWindowMs now (some w) = { w with count := w.count + 1 } := by
          rw [call, live_some_of_lt (not_le.mp hover)]
        rw [if_neg (show ¬ (clamp limit w).resetAt ≤ now from hover), hcall]
        by_cases hfull : limit ≤ (clamp limit w).count
        · have hcount : max limit 1 ≤ w.count := by
            simp only [clamp] at hfull
            omega
          rw [if_pos hfull]
          refine ⟨(decide_eq_false ?_).symm, fun k => ?_⟩
          · dsimp only
            omega
          · by_cases hk : k = key
            · rw [if_pos hk, hk, h]
              simp only [clamp, Option.some.injEq, RateWindow.mk.injEq, true_and]
              omega
            · rw [if_neg hk]
        · have hcount : w.count < max limit 1 := by
            simp only [clamp] at hfull
            omega
          rw [if_neg hfull]
          refine ⟨(decide_eq_true hcount).symm, fun k => ?_⟩
          have hnext : clamp limit { w with count := w.count + 1 } =
              { clamp limit w with count := (clamp limit w).count + 1 } := by
            simp only [clamp, RateWindow.mk.injEq, true_and]
            omega
          rw [OrderedMap.get?_set, hnext]

/-- The windows are those of these calls, and the calls were told what they say. -/
def Tracked (limit : Nat) (ws : OrderedMap String RateWindow) (calls : String → List Entry)
    (told : Entry → Bool) : Prop :=
  ∀ key, ws.get? key = (after rateWindowMs ((calls key).map (·.time))).map (clamp limit) ∧
    (calls key).map told = run rateWindowMs limit none ((calls key).map (·.time))

theorem tracked_admitRate {limit : Nat} {ws : OrderedMap String RateWindow}
    {calls calls' : String → List Entry} {told : Entry → Bool} (h : Tracked limit ws calls told)
    {key : String} {e : Entry} (htold : told e = (admitRate ws key limit e.time).2.isOk)
    (hcalls : ∀ k, calls' k = if k = key then calls key ++ [e] else calls k) :
    Tracked limit (admitRate ws key limit e.time).1 calls' told := by
  obtain ⟨houtcome, hwindows⟩ := admitRate_spec (h key).1 e.time
  intro k
  rw [hwindows, hcalls]
  by_cases hk : k = key
  · rw [if_pos hk, if_pos hk, List.map_append, List.map_append]
    refine ⟨rfl, ?_⟩
    rw [(h key).2, List.map_singleton, List.map_singleton, run_concat, htold, houtcome]
  · rw [if_neg hk, if_neg hk]
    exact h k

end Rates

theorem enterRates_spec (limits : BrokerLimits) (g : BrokerGuards) (now : Nat)
    (input : RequestGuardInput) :
    let byRoute := admitRate g.routeRate input.routeSlug limits.requestsPerRoutePerMinute now
    let byAddress := admitRate g.ipRate input.clientIp limits.unauthenticatedPerIpPerMinute now
    let counted := byRoute.2.isOk && !input.authenticated
    (g.enterRates limits now input).1.inflight = g.inflight ∧
      (g.enterRates limits now input).1.routeRate = byRoute.1 ∧
      (g.enterRates limits now input).1.ipRate = (if counted then byAddress.1 else g.ipRate) ∧
      (g.enterRates limits now input).2.isOk =
        (byRoute.2.isOk && (input.authenticated || byAddress.2.isOk)) := by
  unfold BrokerGuards.enterRates
  dsimp only
  cases (admitRate g.routeRate input.routeSlug limits.requestsPerRoutePerMinute now).2 with
  | error e => exact ⟨rfl, rfl, rfl, rfl⟩
  | ok =>
      cases input.authenticated with
      | true => exact ⟨rfl, rfl, rfl, rfl⟩
      | false => exact ⟨rfl, rfl, rfl, rfl⟩

/-- A request is rejected and nothing is tracked for it, or it is within the limits and
tracked. -/
theorem enter_cases (limits : BrokerLimits) (g : BrokerGuards) (now : Nat)
    (input : RequestGuardInput) :
    (g.enter limits now input).1.routeRate = (g.enterRates limits now input).1.routeRate ∧
      (g.enter limits now input).1.ipRate = (g.enterRates limits now input).1.ipRate ∧
      (((g.enter limits now input).2.isOk = false ∧
          (g.enter limits now input).1.inflight = g.inflight) ∨
        ((g.enterRates limits now input).2.isOk = true ∧
          (g.enter limits now input).2 = .ok () ∧
          let counts := (g.inflight.get? input.routeSlug).getD ⟨0, 0⟩
          counts.total < limits.concurrentRequestsPerRoute ∧
          (input.isWait → counts.waits < limits.concurrentWaitsPerRoute) ∧
          (g.enter limits now input).1.inflight = g.inflight.set input.routeSlug
            ⟨counts.total + 1, counts.waits + input.isWait.toNat⟩)) := by
  obtain ⟨hinflight, -⟩ := enterRates_spec limits g now input
  unfold BrokerGuards.enter
  dsimp only
  cases hrates : (g.enterRates limits now input).2 with
  | error e => exact ⟨rfl, rfl, .inl ⟨rfl, hinflight⟩⟩
  | ok =>
      dsimp only
      rw [hinflight]
      by_cases hfull : limits.concurrentRequestsPerRoute ≤
          ((g.inflight.get? input.routeSlug).getD ⟨0, 0⟩).total
      · rw [if_pos hfull]
        exact ⟨rfl, rfl, .inl ⟨rfl, hinflight⟩⟩
      · rw [if_neg hfull]
        by_cases hwaits : input.isWait ∧ limits.concurrentWaitsPerRoute ≤
            ((g.inflight.get? input.routeSlug).getD ⟨0, 0⟩).waits
        · rw [if_pos hwaits]
          exact ⟨rfl, rfl, .inl ⟨rfl, hinflight⟩⟩
        · rw [if_neg hwaits]
          refine ⟨rfl, rfl, .inr ⟨rfl, rfl, not_le.mp hfull, fun hwait => ?_, ?_⟩⟩
          · exact not_le.mp fun h => hwaits ⟨hwait, h⟩
          · cases input.isWait <;> rfl

/-! ## Accounting -/

theorem loadOf_getD (requests : List ReleaseHandle) :
    (loadOf requests).getD ⟨0, 0⟩ = ⟨requests.length, requests.countP (·.input.isWait)⟩ := by
  cases requests with
  | nil => rfl
  | cons h requests => rfl

theorem loadOf_append_cons (before behind : List ReleaseHandle) (h : ReleaseHandle) :
    loadOf (before ++ h :: behind) = some ⟨(before ++ behind).length + 1,
      (before ++ behind).countP (·.input.isWait) + h.input.isWait.toNat⟩ := by
  have hwaits : (before ++ h :: behind).countP (·.input.isWait) =
      (before ++ behind).countP (·.input.isWait) + h.input.isWait.toNat := by
    rw [List.countP_append, List.countP_append, List.countP_cons]
    cases h.input.isWait with
    | false => rfl
    | true => exact (Nat.add_assoc _ _ _).symm
  rw [loadOf, if_neg (by simp), hwaits, List.length_append, List.length_append, List.length_cons]
  rfl

theorem loadOf_of_ne {requests : List ReleaseHandle} (h : requests ≠ []) :
    loadOf requests = some ⟨requests.length, requests.countP (·.input.isWait)⟩ := if_neg h

/-- One request less is tracked, and a route without requests is not. -/
theorem release_tracked {g : BrokerGuards} {input : RequestGuardInput}
    {requests : List ReleaseHandle} (h : g.inflight.get? input.routeSlug =
      some ⟨requests.length + 1, requests.countP (·.input.isWait) + input.isWait.toNat⟩)
    (slug : String) : (g.release input).inflight.get? slug =
      if slug = input.routeSlug then loadOf requests else g.inflight.get? slug := by
  have hwaits : (if input.isWait then
      requests.countP (·.input.isWait) + input.isWait.toNat - 1
      else requests.countP (·.input.isWait) + input.isWait.toNat) =
        requests.countP (·.input.isWait) := by
    cases input.isWait <;> rfl
  unfold BrokerGuards.release
  rw [h]
  dsimp only
  rw [hwaits, Nat.add_sub_cancel]
  by_cases hnone : requests = []
  · subst hnone
    rw [if_pos ⟨rfl, rfl⟩, OrderedMap.get?_delete]
    rfl
  · have hlength := List.length_pos_iff.mpr hnone
    rw [if_neg (by omega), OrderedMap.get?_set, loadOf_of_ne hnone]

namespace Admission

variable {limits : BrokerLimits} {s : Admission}

theorem enter_eq (limits : BrokerLimits) (s : Admission) (input : RequestGuardInput) :
    (s.enter limits input).2 = (s.guards.enter limits s.clock input).2 ∧
      (s.enter limits input).1.guards = (s.guards.enter limits s.clock input).1 ∧
      (s.enter limits input).1.handles =
        s.handles ++ (if (s.enter limits input).2.isOk then [⟨input, false⟩] else []) := by
  cases hresult : (s.guards.enter limits s.clock input).2 with
  | error e =>
      simp only [enter, hresult]
      exact ⟨trivial, trivial, (List.append_nil _).symm⟩
  | ok =>
      simp only [enter, hresult]
      exact ⟨trivial, trivial, rfl⟩

theorem outstanding_enter (input : RequestGuardInput) (slug : String) :
    (s.enter limits input).1.outstanding slug = s.outstanding slug ++
      (if (s.enter limits input).2.isOk && input.routeSlug == slug then [⟨input, false⟩]
        else []) := by
  rw [outstanding, (enter_eq limits s input).2.2, List.filter_append, outstanding]
  congr 1
  cases (s.enter limits input).2.isOk with
  | false => rfl
  | true => cases hslug : input.routeSlug == slug <;> simp [hslug]

theorem accounted_enter (h : s.Accounted limits) (input : RequestGuardInput) :
    (s.enter limits input).1.Accounted limits := by
  obtain ⟨hresult, hguards, -⟩ := enter_eq limits s input
  obtain ⟨-, -, hcases⟩ := enter_cases limits s.guards s.clock input
  rw [← hresult, ← hguards] at hcases
  rcases hcases with ⟨hrejected, hinflight⟩ | ⟨-, hok, htotal, hwaits, hinflight⟩
  · have houtstanding (slug : String) :
        (s.enter limits input).1.outstanding slug = s.outstanding slug := by
      rw [outstanding_enter, hrejected]
      exact List.append_nil _
    constructor
    · intro slug
      rw [hinflight, houtstanding]
      exact h.tracked slug
    · intro slug
      rw [houtstanding]
      exact h.requests slug
    · intro slug
      rw [houtstanding]
      exact h.waits slug
  · have hother (slug : String) (hne : slug ≠ input.routeSlug) :
        (s.enter limits input).1.outstanding slug = s.outstanding slug := by
      rw [outstanding_enter, beq_false_of_ne hne.symm, Bool.and_false]
      exact List.append_nil _
    have hsame : (s.enter limits input).1.outstanding input.routeSlug =
        s.outstanding input.routeSlug ++ ⟨input, false⟩ :: [] := by
      rw [outstanding_enter, hok, beq_self_eq_true]
      rfl
    rw [h.tracked, loadOf_getD] at htotal hwaits hinflight
    constructor
    · intro slug
      rw [hinflight, OrderedMap.get?_set]
      by_cases hslug : slug = input.routeSlug
      · rw [if_pos hslug, hslug, hsame, loadOf_append_cons, List.append_nil]
      · rw [if_neg hslug, hother slug hslug]
        exact h.tracked slug
    · intro slug
      by_cases hslug : slug = input.routeSlug
      · rw [hslug, hsame, List.length_append]
        exact htotal
      · rw [hother slug hslug]
        exact h.requests slug
    · intro slug
      by_cases hslug : slug = input.routeSlug
      · rw [hslug, hsame, List.countP_append, List.countP_singleton]
        by_cases hwait : input.isWait = true
        · rw [if_pos hwait]
          exact hwaits hwait
        · rw [if_neg hwait]
          exact h.waits input.routeSlug
      · rw [hother slug hslug]
        exact h.waits slug

theorem enter_rejected {input : RequestGuardInput}
    (hrejected : (s.enter limits input).2.isOk = false) :
    (s.enter limits input).1.guards.inflight = s.guards.inflight ∧
      (s.enter limits input).1.handles = s.handles := by
  obtain ⟨hresult, hguards, hhandles⟩ := enter_eq limits s input
  obtain ⟨-, -, ⟨-, hinflight⟩ | ⟨-, hok, -⟩⟩ := enter_cases limits s.guards s.clock input
  · rw [hguards, hinflight, hhandles, hrejected]
    exact ⟨rfl, List.append_nil _⟩
  · rw [hresult, hok] at hrejected
    cases hrejected

/-- A handle that is called for the first time is of an outstanding request, and the others
stay. -/
theorem outstanding_release {handle : Nat} {h : ReleaseHandle}
    (hhandle : s.handles[handle]? = some h) (hfirst : h.released = false) :
    (∃ before behind, s.outstanding h.input.routeSlug = before ++ h :: behind ∧
      (s.release handle).outstanding h.input.routeSlug = before ++ behind) ∧
    ∀ slug, slug ≠ h.input.routeSlug →
      (s.release handle).outstanding slug = s.outstanding slug := by
  obtain ⟨hlt, hget⟩ := List.getElem?_eq_some_iff.mp hhandle
  have hsplit : s.handles = s.handles.take handle ++ h :: s.handles.drop (handle + 1) := by
    rw [← hget, List.getElem_cons_drop, List.take_append_drop]
  have hreleased : (s.release handle).handles = s.handles.take handle ++
      { h with released := true } :: s.handles.drop (handle + 1) := by
    rw [release, hhandle]
    simp [hfirst, hlt, List.set_eq_take_append_cons_drop]
  have hgone (slug : String) : (s.release handle).outstanding slug =
      (s.handles.take handle).filter (fun h => !h.released && h.input.routeSlug == slug) ++
        (s.handles.drop (handle + 1)).filter
          (fun h => !h.released && h.input.routeSlug == slug) := by
    rw [outstanding, hreleased, List.filter_append]
    rfl
  refine ⟨⟨_, _, ?_, hgone _⟩, fun slug hslug => ?_⟩
  · conv_lhs => rw [outstanding, hsplit]
    rw [List.filter_append, List.filter_cons_of_pos (by simp [hfirst])]
  · rw [hgone]
    conv_rhs => rw [outstanding, hsplit]
    rw [List.filter_append, List.filter_cons_of_neg (by simp [hslug.symm])]

theorem release_again {handle : Nat} {h : ReleaseHandle}
    (hhandle : s.handles[handle]? = some h) (hreleased : h.released = true) :
    s.release handle = s := by
  rw [release, hhandle]
  exact if_pos hreleased

theorem release_release (handle : Nat) :
    (s.release handle).release handle = s.release handle := by
  cases hhandle : s.handles[handle]? with
  | none =>
      have hnothing : s.release handle = s := by rw [release, hhandle]
      rw [hnothing, hnothing]
  | some h =>
      by_cases hreleased : h.released = true
      · rw [release_again hhandle hreleased, release_again hhandle hreleased]
      · have hcalled :
            (s.release handle).handles[handle]? = some { h with released := true } := by
          have hlt := (List.getElem?_eq_some_iff.mp hhandle).1
          rw [release, hhandle]
          simp [hreleased, hlt]
        exact release_again hcalled rfl

theorem release_first {handle : Nat} {h : ReleaseHandle}
    (hhandle : s.handles[handle]? = some h) (hfirst : h.released = false) :
    (s.release handle).guards = s.guards.release h.input := by
  rw [release, hhandle]
  simp [hfirst]

theorem accounted_release (h : s.Accounted limits) (handle : Nat) :
    (s.release handle).Accounted limits := by
  cases hhandle : s.handles[handle]? with
  | none =>
      rw [release, hhandle]
      exact h
  | some r =>
      by_cases hreleased : r.released = true
      · rw [release_again hhandle hreleased]
        exact h
      · have hfirst : r.released = false := by simpa using hreleased
        obtain ⟨⟨before, behind, hbefore, hafter⟩, hother⟩ := outstanding_release hhandle hfirst
        have hload := h.tracked r.input.routeSlug
        rw [hbefore, loadOf_append_cons] at hload
        constructor
        · intro slug
          rw [release_first hhandle hfirst, release_tracked hload]
          by_cases hslug : slug = r.input.routeSlug
          · rw [if_pos hslug, hslug, hafter]
          · rw [if_neg hslug, hother slug hslug]
            exact h.tracked slug
        · intro slug
          by_cases hslug : slug = r.input.routeSlug
          · have hle := h.requests r.input.routeSlug
            rw [hbefore, List.length_append, List.length_cons] at hle
            rw [hslug, hafter, List.length_append]
            omega
          · rw [hother slug hslug]
            exact h.requests slug
        · intro slug
          by_cases hslug : slug = r.input.routeSlug
          · have hle := h.waits r.input.routeSlug
            rw [hbefore, List.countP_append, List.countP_cons] at hle
            rw [hslug, hafter, List.countP_append]
            omega
          · rw [hother slug hslug]
            exact h.waits slug

theorem release_rates (handle : Nat) :
    (s.release handle).guards.routeRate = s.guards.routeRate ∧
      (s.release handle).guards.ipRate = s.guards.ipRate := by
  unfold release
  split
  · exact ⟨rfl, rfl⟩
  · split
    · exact ⟨rfl, rfl⟩
    · dsimp only
      unfold BrokerGuards.release
      split
      · exact ⟨rfl, rfl⟩
      · exact ⟨rfl, rfl⟩

end Admission

/-! ## Any calls -/

theorem entries_cons (call : GuardCall) (answer : Option Entry)
    (es : List (GuardCall × Option Entry)) :
    entries ((call, answer) :: es) = entries es ++ answer.toList := by
  rw [entries, List.reverse_cons, List.filterMap_append]
  cases answer <;> rfl

theorem routeEntries_cons (call : GuardCall) (e : Entry) (es : List (GuardCall × Option Entry))
    (slug : String) : routeEntries slug ((call, some e) :: es) =
      if slug = e.input.routeSlug then routeEntries e.input.routeSlug es ++ [e]
      else routeEntries slug es := by
  rw [routeEntries, entries_cons, List.filter_append]
  by_cases hslug : slug = e.input.routeSlug
  · rw [if_pos hslug, hslug, Option.toList_some, List.filter_cons_of_pos (by simp)]
    rfl
  · rw [if_neg hslug, Option.toList_some,
      List.filter_cons_of_neg (by simpa using Ne.symm hslug)]
    exact List.append_nil _

theorem addressEntries_of_counted (call : GuardCall) {e : Entry}
    (es : List (GuardCall × Option Entry))
    (h : (e.routeAdmitted && !e.input.authenticated) = true) (clientIp : String) :
    addressEntries clientIp ((call, some e) :: es) =
      if clientIp = e.input.clientIp then addressEntries e.input.clientIp es ++ [e]
      else addressEntries clientIp es := by
  rw [addressEntries, entries_cons, List.filter_append, Option.toList_some]
  by_cases hip : clientIp = e.input.clientIp
  · rw [if_pos hip, hip, List.filter_cons_of_pos (by simp [h])]
    rfl
  · rw [if_neg hip, List.filter_cons_of_neg (by simp [Ne.symm hip])]
    exact List.append_nil _

theorem addressEntries_of_not_counted (call : GuardCall) {e : Entry}
    (es : List (GuardCall × Option Entry))
    (h : (e.routeAdmitted && !e.input.authenticated) = false) (clientIp : String) :
    addressEntries clientIp ((call, some e) :: es) = addressEntries clientIp es := by
  rw [addressEntries, entries_cons, List.filter_append, Option.toList_some,
    List.filter_cons_of_neg (by simp [h])]
  exact List.append_nil _

/-- What holds behind any calls. -/
structure Admission.Kept (limits : BrokerLimits) (s : Admission)
    (es : List (GuardCall × Option Entry)) : Prop where
  accounted : s.Accounted limits
  routes : Tracked limits.requestsPerRoutePerMinute s.guards.routeRate
    (fun slug => routeEntries slug es) (·.routeAdmitted)
  addresses : Tracked limits.unauthenticatedPerIpPerMinute s.guards.ipRate
    (fun clientIp => addressEntries clientIp es) (·.rateAdmitted)
  told : ∀ e ∈ entries es,
    (e.admitted = true → e.rateAdmitted = true) ∧
      (e.rateAdmitted = true → e.routeAdmitted = true)

theorem kept_enter {limits : BrokerLimits} {s : Admission}
    {es : List (GuardCall × Option Entry)} (h : s.Kept limits es) (input : RequestGuardInput) :
    (s.enter limits input).1.Kept limits
      ((.enter input, some (s.entry limits input)) :: es) := by
  obtain ⟨hresult, hguards, -⟩ := Admission.enter_eq limits s input
  obtain ⟨hroutes, haddresses, hcases⟩ := enter_cases limits s.guards s.clock input
  obtain ⟨-, hrouteRate, hipRate, hrates⟩ := enterRates_spec limits s.guards s.clock input
  refine ⟨Admission.accounted_enter h.accounted input, ?_, ?_, ?_⟩
  · rw [hguards, hroutes, hrouteRate]
    exact tracked_admitRate (e := s.entry limits input) h.routes rfl
      fun slug => routeEntries_cons _ _ es slug
  · rw [hguards, haddresses, hipRate]
    change Tracked _ (if (s.entry limits input).routeAdmitted && !input.authenticated then _
      else _) _ _
    cases hcounted : (s.entry limits input).routeAdmitted && !input.authenticated with
    | false =>
        rw [if_neg Bool.false_ne_true]
        exact (funext (addressEntries_of_not_counted _ es hcounted)) ▸ h.addresses
    | true =>
        rw [if_pos rfl]
        obtain ⟨hroute, hanonymous⟩ := Bool.and_eq_true_iff.mp hcounted
        refine tracked_admitRate (e := s.entry limits input) h.addresses ?_
          (addressEntries_of_counted _ es hcounted)
        have hroute' : (admitRate s.guards.routeRate input.routeSlug
            limits.requestsPerRoutePerMinute s.clock).2.isOk = true := hroute
        rw [Admission.entry, hrates, hroute', Bool.true_and,
          (Bool.not_eq_true' _).mp hanonymous, Bool.false_or]
  · intro e he
    rw [entries_cons, Option.toList_some] at he
    rcases List.mem_append.mp he with he | he
    · exact h.told e he
    · obtain rfl := List.mem_singleton.mp he
      constructor
      · intro hadmitted
        rcases hcases with ⟨hrejected, -⟩ | ⟨hrate, -⟩
        · rw [← hresult] at hrejected
          exact absurd hadmitted (ne_true_of_eq_false hrejected)
        · exact hrate
      · intro hrate
        exact (Bool.and_eq_true_iff.mp (hrates.symm.trans hrate)).1

theorem kept_release {limits : BrokerLimits} {s : Admission}
    {es : List (GuardCall × Option Entry)} (h : s.Kept limits es) (handle : Nat) :
    (s.release handle).Kept limits ((.release handle, none) :: es) := by
  have hentries : entries ((.release handle, none) :: es) = entries es := by
    rw [entries_cons]
    exact List.append_nil _
  obtain ⟨hroutes, haddresses⟩ := s.release_rates handle
  constructor
  · exact Admission.accounted_release h.accounted handle
  · rw [hroutes]
    simpa only [routeEntries, hentries] using h.routes
  · rw [haddresses]
    simpa only [addressEntries, hentries] using h.addresses
  · rw [hentries]
    exact h.told

theorem kept_timePasses {limits : BrokerLimits} {s : Admission}
    {es : List (GuardCall × Option Entry)} (h : s.Kept limits es) (ms : Nat) :
    { s with clock := s.clock + ms }.Kept limits ((.timePasses ms, none) :: es) := by
  have hentries : entries ((.timePasses ms, none) :: es) = entries es := by
    rw [entries_cons]
    exact List.append_nil _
  constructor
  · exact ⟨h.accounted.tracked, h.accounted.requests, h.accounted.waits⟩
  · simpa only [routeEntries, hentries] using h.routes
  · simpa only [addressEntries, hentries] using h.addresses
  · rw [hentries]
    exact h.told

theorem kept_exec (limits : BrokerLimits) (clock : Nat) (calls : List GuardCall) :
    ((brokerGuards limits clock).exec calls).1.Kept limits
      ((brokerGuards limits clock).exec calls).2 := by
  refine Machine.invariant (I := Admission.Kept limits) ?_ ?_ calls
  · exact ⟨⟨fun _ => rfl, fun _ => Nat.zero_le _, fun _ => Nat.zero_le _⟩,
      fun _ => ⟨rfl, rfl⟩, fun _ => ⟨rfl, rfl⟩, fun e he => nomatch he⟩
  · intro s es call h
    cases call with
    | enter input => exact kept_enter h input
    | release handle => exact kept_release h handle
    | timePasses ms => exact kept_timePasses h ms

theorem Admission.Kept.ratesKept {limits : BrokerLimits} {s : Admission}
    {es : List (GuardCall × Option Entry)} (h : s.Kept limits es) : RatesKept limits es := by
  have hmem {calls window : List Entry} (hwindow : window ∈ windows rateWindowMs Entry.time calls)
      {e : Entry} (he : e ∈ window) : e ∈ calls := by
    rw [← flatten_windows rateWindowMs Entry.time calls]
    exact List.mem_flatten.mpr ⟨window, hwindow, he⟩
  constructor
  · intro slug window hwindow
    calc window.countP (·.admitted)
        ≤ window.countP (·.routeAdmitted) := List.countP_mono_left fun e he hadmitted => by
          have htold := h.told e (List.mem_filter.mp (hmem hwindow he)).1
          exact htold.2 (htold.1 hadmitted)
      _ ≤ max limits.requestsPerRoutePerMinute 1 := countP_window_le (h.routes slug).2 hwindow
  · intro clientIp window hwindow
    calc window.countP (·.admitted)
        ≤ window.countP (·.rateAdmitted) := List.countP_mono_left fun e he hadmitted =>
          (h.told e (List.mem_filter.mp (hmem hwindow he)).1).1 hadmitted
      _ ≤ max limits.unauthenticatedPerIpPerMinute 1 :=
        countP_window_le (h.addresses clientIp).2 hwindow

end AgentGather.Tunnel
