import AgentGather.Library.Machine
import AgentGather.Tunnel.Protocol

/-!
# Host sessions

A started host session: heartbeats on a timer, one poll loop, and a handler for every
request a poll returns.  An event is what runs from one `await` to the next.  The model says
when the session calls `onError`, how many handlers run, and when `stop` resolves.
-/

namespace AgentGather.Tunnel

open AgentGather.Library

/-! ## The session -/

/-- What the client throws. -/
inductive ClientError where
  | tunnelError (error : TunnelError)
  | other (message : String)
deriving DecidableEq, Repr

def fatalRouteCodes : List TunnelErrorCode := [.routeClosed, .routeExpired, .routeNotFound]

def ClientError.isFatalRouteError : ClientError → Bool
  | .tunnelError error => fatalRouteCodes.contains error.code
  | .other _ => false

inductive PollLoop where
  | polling
  | idling
  | ended
deriving DecidableEq, Repr

/-- A handler is in the set of handlers until it is deleted, behind its settlement. -/
inductive HandlerPhase where
  | running
  | settled
  | deleted
deriving DecidableEq, Repr

structure Handler where
  request : ForwardedRequest
  phase : HandlerPhase
deriving DecidableEq, Repr

/-- The first call of `stop`; later ones find `stopped` set and return. -/
inductive StopCall where
  | notCalled
  | awaitingPollLoop (closeRoute : Bool)
  | awaitingHandlers (closeRoute : Bool) (handlers : List Nat)
  | closingRoute
  | resolved
deriving DecidableEq, Repr

/-- The handlers are numbered as they were started. -/
structure HostSession where
  concurrency : Nat
  aborted : Bool
  heartbeatTimer : Bool
  beats : Nat
  pollLoop : PollLoop
  handlers : List Handler
  stopCall : StopCall
  failureError : Option ClientError
deriving DecidableEq, Repr

inductive SessionEvent where
  | heartbeatDue
  | beatCompletes (result : Except ClientError RouteMetadata)
  | pollCompletes (result : Except ClientError (Option ForwardedRequest))
  | idleEnds
  | handlerSettles (handler : Nat)
  | handlerDeleted (handler : Nat)
  | stop (closeRoute : Bool)
  | stopResumes
  | closeCompletes (result : Except ClientError Unit)

/-- The error a heartbeat or a poll failed with, the request a poll returned, and what
`onError` was called with. -/
structure SessionAnswer where
  failed : Option ClientError
  polled : Option ForwardedRequest
  onError : Option ClientError
deriving DecidableEq, Repr

def defaultConcurrency : Nat := 16

def sessionConcurrency (concurrency : Option Nat) : Nat :=
  max 2 (concurrency.getD defaultConcurrency)

namespace HostSession

/-- `handlers.size` -/
def handlersSize (s : HostSession) : Nat := s.handlers.countP (·.phase != .deleted)

def running (s : HostSession) : Nat := s.handlers.countP (·.phase == .running)

/-- Where the poll loop comes to from its head. -/
def loopHead (s : HostSession) : PollLoop :=
  if s.aborted then .ended else if s.concurrency ≤ s.handlersSize then .idling else .polling

def runPollLoop (s : HostSession) : HostSession := { s with pollLoop := s.loopHead }

/-- A new session, started. -/
def start (concurrency : Option Nat) : HostSession :=
  runPollLoop
    { concurrency := sessionConcurrency concurrency
      aborted := false
      heartbeatTimer := true
      beats := 0
      pollLoop := .idling
      handlers := []
      stopCall := .notCalled
      failureError := none }

/-- `fail`; the caller is told what `onError` was called with. -/
def fail (s : HostSession) (error : ClientError) : HostSession :=
  { s with
    failureError := s.failureError.or (some error)
    aborted := true }

def setPhase (s : HostSession) (handler : Nat) (phase : HandlerPhase) : HostSession :=
  { s with handlers := s.handlers.modify handler fun h => { h with phase } }

/-- The error that a heartbeat or a poll in flight fails with. -/
def failureOf (s : HostSession) : SessionEvent → Option ClientError
  | .beatCompletes (.error error) => if s.beats = 0 then none else some error
  | .pollCompletes (.error error) => if s.pollLoop = .polling then some error else none
  | _ => none

/-- The request that a poll in flight returns. -/
def requestOf (s : HostSession) : SessionEvent → Option ForwardedRequest
  | .pollCompletes (.ok request) => if s.pollLoop = .polling then request else none
  | _ => none

/-- `beat`, up to its request. -/
def beat (s : HostSession) : HostSession :=
  if !s.heartbeatTimer || s.aborted then s else { s with beats := s.beats + 1 }

def beatCompleted (s : HostSession) : Except ClientError RouteMetadata →
    HostSession × Option ClientError
  | .ok _ => (s, none)
  | .error error =>
      if error.isFatalRouteError then (s.fail error, some error) else (s, none)

def pollCompleted (s : HostSession) : Except ClientError (Option ForwardedRequest) →
    HostSession × Option ClientError
  | .ok none => ({ s with pollLoop := .idling }, none)
  | .ok (some request) =>
      (runPollLoop { s with handlers := s.handlers ++ [⟨request, .running⟩] }, none)
  | .error error =>
      if error.isFatalRouteError then
        ({ s.fail error with pollLoop := .ended }, some error)
      else ({ s with pollLoop := .idling }, none)

def phaseOf (s : HostSession) (handler : Nat) : Option HandlerPhase :=
  (s.handlers[handler]?).map (·.phase)

/-- The handlers in the set, by their numbers. -/
def handlerSet (s : HostSession) : List Nat :=
  (List.range s.handlers.length).filter fun i => s.phaseOf i != some .deleted

/-- What `stop` does behind its handlers. -/
def closeRoute (s : HostSession) (closeRoute : Bool) : HostSession :=
  { s with stopCall := if closeRoute then .closingRoute else .resolved }

/-- `stop` from the promise that it waits for. -/
def stopResumes (s : HostSession) : HostSession :=
  match s.stopCall with
  | .awaitingPollLoop closeRoute =>
      if s.pollLoop = .ended then
        { s with stopCall := .awaitingHandlers closeRoute s.handlerSet }
      else s
  | .awaitingHandlers closeRoute handlers =>
      if handlers.all fun i => s.phaseOf i != some .running then s.closeRoute closeRoute else s
  | _ => s

def stop (s : HostSession) (closeRoute : Bool) : HostSession :=
  if s.stopCall = .notCalled then
    { s with
      stopCall := .awaitingPollLoop closeRoute
      aborted := true
      heartbeatTimer := false }
  else s

/-- An event, and what `onError` is called with. -/
def next (s : HostSession) : SessionEvent → HostSession × Option ClientError
  | .heartbeatDue => (s.beat, none)
  | .beatCompletes result =>
      if s.beats = 0 then (s, none)
      else beatCompleted { s with beats := s.beats - 1 } result
  | .pollCompletes result => if s.pollLoop = .polling then s.pollCompleted result else (s, none)
  | .idleEnds => if s.pollLoop = .idling then (s.runPollLoop, none) else (s, none)
  | .handlerSettles handler =>
      if s.phaseOf handler = some .running then (s.setPhase handler .settled, none)
      else (s, none)
  | .handlerDeleted handler =>
      if s.phaseOf handler = some .settled then (s.setPhase handler .deleted, none)
      else (s, none)
  | .stop closeRoute => (s.stop closeRoute, none)
  | .stopResumes => (s.stopResumes, none)
  -- An error of the close is caught.
  | .closeCompletes _ =>
      if s.stopCall = .closingRoute then ({ s with stopCall := .resolved }, none) else (s, none)

def step (s : HostSession) (event : SessionEvent) : HostSession × SessionAnswer :=
  ((s.next event).1, ⟨s.failureOf event, s.requestOf event, (s.next event).2⟩)

end HostSession

def hostSession (concurrency : Option Nat) : Machine HostSession SessionEvent SessionAnswer where
  init := .start concurrency
  step := HostSession.step

/-! ## Histories -/

/-- The errors that heartbeats and polls failed with, in order. -/
def failures (es : List (SessionEvent × SessionAnswer)) : List ClientError :=
  es.reverse.filterMap (·.2.failed)

/-- The requests that polls returned. -/
def polledRequests (es : List (SessionEvent × SessionAnswer)) : List ForwardedRequest :=
  es.reverse.filterMap (·.2.polled)

/-- What `onError` was called with. -/
def reportedErrors (es : List (SessionEvent × SessionAnswer)) : List ClientError :=
  es.reverse.filterMap (·.2.onError)

theorem failures_cons (event : SessionEvent) (answer : SessionAnswer)
    (es : List (SessionEvent × SessionAnswer)) :
    failures ((event, answer) :: es) = failures es ++ answer.failed.toList := by
  rw [failures, List.reverse_cons, List.filterMap_append]
  cases h : answer.failed <;> simp [failures, h]

theorem polledRequests_cons (event : SessionEvent) (answer : SessionAnswer)
    (es : List (SessionEvent × SessionAnswer)) :
    polledRequests ((event, answer) :: es) = polledRequests es ++ answer.polled.toList := by
  rw [polledRequests, List.reverse_cons, List.filterMap_append]
  cases h : answer.polled <;> simp [polledRequests, h]

theorem reportedErrors_cons (event : SessionEvent) (answer : SessionAnswer)
    (es : List (SessionEvent × SessionAnswer)) :
    reportedErrors ((event, answer) :: es) = reportedErrors es ++ answer.onError.toList := by
  rw [reportedErrors, List.reverse_cons, List.filterMap_append]
  cases h : answer.onError <;> simp [reportedErrors, h]

/-! ## One failure -/

/-- `onError` is called once, with the failure of the session, if a heartbeat or a poll
failed fatally, and else not at all. -/
structure ReportsOneFailure (s : HostSession) (es : List (SessionEvent × SessionAnswer)) :
    Prop where
  once : (reportedErrors es).length ≤ 1
  same : ∀ error ∈ reportedErrors es, s.failureError = some error
  exact : reportedErrors es ≠ [] ↔ ∃ error ∈ failures es, error.isFatalRouteError = true

namespace HostSession

/-- A heartbeat or a poll fails fatally only if none has before. -/
def FailsFirst (s : HostSession) (event : SessionEvent) : Prop :=
  ∀ error ∈ s.failureOf event, error.isFatalRouteError = true → s.failureError = none

/-- The fatal error of an event. -/
def fatalOf (s : HostSession) (event : SessionEvent) : Option ClientError :=
  (s.failureOf event).filter (·.isFatalRouteError)

theorem failsFirst_iff (s : HostSession) (event : SessionEvent) :
    s.FailsFirst event ↔ s.fatalOf event = none ∨ s.failureError = none := by
  unfold FailsFirst fatalOf
  cases s.failureOf event with
  | none => simp
  | some error => by_cases h : error.isFatalRouteError = true <;> simp [h]

theorem beatCompleted_spec (s : HostSession) (error : ClientError) :
    (s.beatCompleted (.error error)).2 = (some error).filter (·.isFatalRouteError) ∧
      (s.beatCompleted (.error error)).1.failureError =
        s.failureError.or ((some error).filter (·.isFatalRouteError)) := by
  unfold beatCompleted
  dsimp only
  by_cases h : error.isFatalRouteError = true
  · rw [if_pos h, Option.filter_some_pos h]
    exact ⟨rfl, rfl⟩
  · rw [if_neg h, Option.filter_some_neg ((Bool.not_eq_true _).mp h), Option.or_none]
    exact ⟨rfl, rfl⟩

theorem pollCompleted_spec (s : HostSession) (error : ClientError) :
    (s.pollCompleted (.error error)).2 = (some error).filter (·.isFatalRouteError) ∧
      (s.pollCompleted (.error error)).1.failureError =
        s.failureError.or ((some error).filter (·.isFatalRouteError)) := by
  unfold pollCompleted
  dsimp only
  by_cases h : error.isFatalRouteError = true
  · rw [if_pos h, Option.filter_some_pos h]
    exact ⟨rfl, rfl⟩
  · rw [if_neg h, Option.filter_some_neg ((Bool.not_eq_true _).mp h), Option.or_none]
    exact ⟨rfl, rfl⟩

/-- An event reports its fatal error, and the first of them stays. -/
theorem next_fatal (s : HostSession) (event : SessionEvent) :
    (s.next event).2 = s.fatalOf event ∧
      (s.next event).1.failureError = s.failureError.or (s.fatalOf event) := by
  have hnone : s.failureError = s.failureError.or none := (Option.or_none).symm
  cases event with
  | heartbeatDue =>
      refine ⟨rfl, ?_⟩
      simp only [next, beat]
      split
      · exact hnone
      · exact hnone
  | beatCompletes result =>
      by_cases hbeats : s.beats = 0
      · cases result <;> simp [next, fatalOf, failureOf, hbeats]
      · cases result with
        | ok => simp [next, fatalOf, failureOf, hbeats, beatCompleted]
        | error error =>
            simp only [next, fatalOf, failureOf, if_neg hbeats]
            exact beatCompleted_spec { s with beats := s.beats - 1 } error
  | pollCompletes result =>
      by_cases hpolling : s.pollLoop = .polling
      · cases result with
        | ok request =>
            simp only [next, fatalOf, failureOf, if_pos hpolling]
            cases request with
            | none => exact ⟨rfl, hnone⟩
            | some request => exact ⟨rfl, hnone⟩
        | error error =>
            simp only [next, fatalOf, failureOf, if_pos hpolling]
            exact pollCompleted_spec s error
      · cases result <;> simp [next, fatalOf, failureOf, hpolling]
  | idleEnds =>
      simp only [next]
      split
      · exact ⟨rfl, hnone⟩
      · exact ⟨rfl, hnone⟩
  | handlerSettles handler =>
      simp only [next]
      split
      · exact ⟨rfl, hnone⟩
      · exact ⟨rfl, hnone⟩
  | handlerDeleted handler =>
      simp only [next]
      split
      · exact ⟨rfl, hnone⟩
      · exact ⟨rfl, hnone⟩
  | stop closeRoute =>
      simp only [next, stop]
      split
      · exact ⟨rfl, hnone⟩
      · exact ⟨rfl, hnone⟩
  | stopResumes =>
      refine ⟨rfl, ?_⟩
      simp only [next, stopResumes]
      split
      · split
        · exact hnone
        · exact hnone
      · split
        · exact hnone
        · exact hnone
      · exact hnone
  | closeCompletes result =>
      simp only [next]
      split
      · exact ⟨rfl, hnone⟩
      · exact ⟨rfl, hnone⟩

end HostSession

/-- Behind any events the session has reported every fatal error, and has the first one. -/
theorem reported_exec (concurrency : Option Nat) (events : List SessionEvent) :
    reportedErrors ((hostSession concurrency).exec events).2 =
        (failures ((hostSession concurrency).exec events).2).filter (·.isFatalRouteError) ∧
      ((hostSession concurrency).exec events).1.failureError =
        (reportedErrors ((hostSession concurrency).exec events).2).head? := by
  refine Machine.invariant (M := hostSession concurrency)
    (I := fun s es => reportedErrors es = (failures es).filter (·.isFatalRouteError) ∧
      s.failureError = (reportedErrors es).head?) ⟨rfl, rfl⟩ ?_ events
  intro s es event ih
  obtain ⟨hreported, hfailure⟩ := s.next_fatal event
  constructor
  · rw [reportedErrors_cons, failures_cons, List.filter_append, ih.1]
    congr 1
    change (s.next event).2.toList = (s.failureOf event).toList.filter _
    rw [hreported, HostSession.fatalOf]
    cases hfailed : s.failureOf event with
    | none => rfl
    | some error => by_cases h : error.isFatalRouteError = true <;> simp [h]
  · change (s.next event).1.failureError = _
    rw [hfailure, ih.2, reportedErrors_cons]
    change _ = (reportedErrors es ++ (s.next event).2.toList).head?
    rw [hreported, List.head?_append]
    cases s.fatalOf event <;> rfl

/-- The session reports one failure exactly if no heartbeat or poll fails fatally after
another one has. -/
theorem hostSession_reportsOneFailure_iff (concurrency : Option Nat)
    (events : List SessionEvent) :
    ReportsOneFailure ((hostSession concurrency).exec events).1
        ((hostSession concurrency).exec events).2 ↔
      (hostSession concurrency).Obeys HostSession.FailsFirst events := by
  have honce : ReportsOneFailure ((hostSession concurrency).exec events).1
      ((hostSession concurrency).exec events).2 ↔
        (reportedErrors ((hostSession concurrency).exec events).2).length ≤ 1 := by
    obtain ⟨hreported, hfailure⟩ := reported_exec concurrency events
    refine ⟨ReportsOneFailure.once, fun h => ⟨h, fun error herror => ?_, ?_⟩⟩
    · rw [hfailure]
      obtain ⟨first, hfirst⟩ := List.length_eq_one_iff.mp
        (le_antisymm h (List.length_pos_of_mem herror))
      rw [hfirst] at herror ⊢
      rw [List.mem_singleton.mp herror]
      rfl
    · rw [hreported, Ne, List.filter_eq_nil_iff]
      simp only [not_forall, not_not, exists_prop]
  rw [honce]
  refine Machine.forall_iff_obeys (P := fun es => (reportedErrors es).length ≤ 1)
    (Nat.zero_le _) (fun earlier event => ?_) events
  obtain ⟨-, hfailure⟩ := reported_exec concurrency earlier
  rw [Machine.exec_concat, HostSession.failsFirst_iff, hfailure]
  change (reportedErrors ((event, (HostSession.step _ event).2) :: _)).length ≤ 1 ↔ _
  rw [reportedErrors_cons]
  change (_ ++ (HostSession.next _ event).2.toList).length ≤ 1 ↔ _
  rw [(HostSession.next_fatal _ event).1, List.length_append, List.head?_eq_none_iff,
    ← List.length_eq_zero_iff]
  cases ((hostSession concurrency).exec earlier).1.fatalOf event with
  | none => simp
  | some error =>
      rw [Option.toList_some, List.length_singleton, or_iff_right (Option.some_ne_none error)]
      omega

/-- A heartbeat that finds the route expired, with a poll in flight that then finds it gone:
`onError` is called twice, the second time with an error that is not the failure. -/
theorem hostSession_reports_two_failures :
    ¬ ReportsOneFailure
      ((hostSession none).exec [.heartbeatDue,
        .beatCompletes (.error (.tunnelError ⟨.routeExpired, 410, "route expired"⟩)),
        .pollCompletes (.error (.tunnelError ⟨.routeNotFound, 404, "route not found"⟩))]).1
      ((hostSession none).exec [.heartbeatDue,
        .beatCompletes (.error (.tunnelError ⟨.routeExpired, 410, "route expired"⟩)),
        .pollCompletes (.error (.tunnelError ⟨.routeNotFound, 404, "route not found"⟩))]).2 :=
  fun h => absurd h.once (by decide)

/-! ## Handlers and the end of a session -/

namespace HostSession

/-- What `stop` has reached: behind the poll loop no handler is started, and those that run
are the ones it waits for; behind the handlers none runs. -/
def Stopping (s : HostSession) : Prop :=
  match s.stopCall with
  | .notCalled | .awaitingPollLoop _ => True
  | .awaitingHandlers _ handlers =>
      s.pollLoop = .ended ∧ ∀ i, s.phaseOf i = some .running → i ∈ handlers
  | .closingRoute | .resolved => s.pollLoop = .ended ∧ ∀ i, s.phaseOf i ≠ some .running

/-- A poll is made only with room for one more handler. -/
structure Sound (s : HostSession) : Prop where
  size : s.handlersSize ≤ s.concurrency
  room : s.pollLoop = .polling → s.handlersSize < s.concurrency
  stopping : s.Stopping

theorem stopping_of_not_ended {s s' : HostSession} (h : s.Stopping) (hs : s.pollLoop ≠ .ended)
    (hstop : s'.stopCall = s.stopCall) : s'.Stopping := by
  unfold Stopping at h ⊢
  rw [hstop]
  cases hcall : s.stopCall with
  | notCalled => trivial
  | awaitingPollLoop closeRoute => trivial
  | awaitingHandlers closeRoute handlers =>
      rw [hcall] at h
      exact absurd h.1 hs
  | closingRoute =>
      rw [hcall] at h
      exact absurd h.1 hs
  | resolved =>
      rw [hcall] at h
      exact absurd h.1 hs

theorem stopping_mono {s s' : HostSession} (h : s.Stopping) (hstop : s'.stopCall = s.stopCall)
    (hended : s.pollLoop = .ended → s'.pollLoop = .ended)
    (hrunning : ∀ i, s'.phaseOf i = some .running → s.phaseOf i = some .running) :
    s'.Stopping := by
  unfold Stopping at h ⊢
  rw [hstop]
  cases hcall : s.stopCall with
  | notCalled => trivial
  | awaitingPollLoop closeRoute => trivial
  | awaitingHandlers closeRoute handlers =>
      rw [hcall] at h
      exact ⟨hended h.1, fun i hi => h.2 i (hrunning i hi)⟩
  | closingRoute =>
      rw [hcall] at h
      exact ⟨hended h.1, fun i hi => h.2 i (hrunning i hi)⟩
  | resolved =>
      rw [hcall] at h
      exact ⟨hended h.1, fun i hi => h.2 i (hrunning i hi)⟩

theorem handlersSize_lt_of_loopHead {s : HostSession} (h : s.loopHead = .polling) :
    s.handlersSize < s.concurrency := by
  unfold loopHead at h
  split at h
  · cases h
  · split at h
    · cases h
    · omega

theorem running_le_handlersSize (s : HostSession) : s.running ≤ s.handlersSize := by
  apply List.countP_mono_left
  intro h _ hrunning
  have hphase : h.phase = .running := by simpa using hrunning
  simp [hphase]

theorem countP_modify_le {α : Type} (p : α → Bool) (f : α → α) (xs : List α) (i : Nat)
    (h : ∀ x, xs[i]? = some x → p (f x) = true → p x = true) :
    (xs.modify i f).countP p ≤ xs.countP p := by
  induction xs generalizing i with
  | nil => simp
  | cons x xs ih =>
      cases i with
      | zero =>
          have hx := h x rfl
          rw [List.modify_zero_cons, List.countP_cons, List.countP_cons]
          by_cases hp : p (f x) = true
          · rw [if_pos hp, if_pos (hx hp)]
          · rw [if_neg hp]
            omega
      | succ i =>
          have hrest := ih i fun y hy => h y (by simpa using hy)
          rw [List.modify_succ_cons, List.countP_cons, List.countP_cons]
          omega

theorem handlersSize_setPhase_le {s : HostSession} {handler : Nat} (phase : HandlerPhase)
    (h : s.phaseOf handler ≠ some .deleted) :
    (s.setPhase handler phase).handlersSize ≤ s.handlersSize := by
  apply countP_modify_le
  intro x hx _
  have hphase : s.phaseOf handler = some x.phase := by rw [phaseOf, hx, Option.map_some]
  rw [hphase] at h
  simpa using h

/-- A phase behind `running` starts no handler. -/
theorem phaseOf_of_setPhase {s : HostSession} {handler i : Nat} {phase : HandlerPhase}
    (hphase : phase ≠ .running) (h : (s.setPhase handler phase).phaseOf i = some .running) :
    s.phaseOf i = some .running := by
  simp only [phaseOf, setPhase, List.getElem?_modify] at h ⊢
  cases hget : s.handlers[i]? with
  | none =>
      rw [hget] at h
      cases h
  | some x =>
      rw [hget] at h
      by_cases hi : handler = i
      · simp [hi, hphase] at h
      · simpa [hi] using h

theorem sound_setPhase {s : HostSession} (h : s.Sound) {handler : Nat} {phase : HandlerPhase}
    (hphase : phase ≠ .running) (hin : s.phaseOf handler ≠ some .deleted) :
    (s.setPhase handler phase).Sound := by
  have hsize := handlersSize_setPhase_le phase hin
  exact ⟨hsize.trans h.size, fun hpolling => hsize.trans_lt (h.room hpolling),
    stopping_mono h.stopping rfl id fun i => phaseOf_of_setPhase hphase⟩

theorem sound_runPollLoop {s : HostSession} (hsize : s.handlersSize ≤ s.concurrency)
    (hstopping : s.runPollLoop.Stopping) : s.runPollLoop.Sound :=
  ⟨hsize, handlersSize_lt_of_loopHead, hstopping⟩

theorem sound_pollCompleted {s : HostSession} (h : s.Sound) (hpolling : s.pollLoop = .polling)
    (result : Except ClientError (Option ForwardedRequest)) :
    (s.pollCompleted result).1.Sound := by
  have hended : s.pollLoop ≠ .ended := by
    rw [hpolling]
    exact nofun
  have hidle : { s with pollLoop := .idling }.Sound :=
    ⟨h.size, nofun, stopping_of_not_ended h.stopping hended rfl⟩
  cases result with
  | error error =>
      unfold pollCompleted
      dsimp only
      split
      · exact ⟨h.size, nofun, stopping_of_not_ended h.stopping hended rfl⟩
      · exact hidle
  | ok request =>
      cases request with
      | none => exact hidle
      | some request =>
          refine sound_runPollLoop ?_ (stopping_of_not_ended h.stopping hended rfl)
          rw [handlersSize, List.countP_append]
          exact h.room hpolling

/-- Every handler that runs is in the set. -/
theorem mem_handlerSet_of_running {s : HostSession} {i : Nat}
    (h : s.phaseOf i = some .running) : i ∈ s.handlerSet := by
  obtain ⟨handler, hhandler, -⟩ := Option.map_eq_some_iff.mp h
  refine List.mem_filter.mpr ⟨List.mem_range.mpr (List.getElem?_eq_some_iff.mp hhandler).1, ?_⟩
  rw [h]
  rfl

theorem sound_stopResumes {s : HostSession} (h : s.Sound) : s.stopResumes.Sound := by
  have hstopping := h.stopping
  unfold stopResumes
  unfold Stopping at hstopping
  split
  · split
    · rename_i hended
      exact ⟨h.size, h.room, hended, fun i => mem_handlerSet_of_running⟩
    · exact h
  · rename_i closeRoute handlers hcall
    rw [hcall] at hstopping
    split
    · rename_i hsettled
      have hnone (i : Nat) : s.phaseOf i ≠ some .running := by
        intro hrunning
        have hi := List.all_eq_true.mp hsettled i (hstopping.2 i hrunning)
        rw [hrunning] at hi
        cases hi
      refine ⟨h.size, h.room, ?_⟩
      cases closeRoute with
      | false => exact ⟨hstopping.1, hnone⟩
      | true => exact ⟨hstopping.1, hnone⟩
    · exact h
  · exact h

theorem sound_stop {s : HostSession} (h : s.Sound) (closeRoute : Bool) :
    (s.stop closeRoute).Sound := by
  unfold stop
  split
  · exact ⟨h.size, h.room, trivial⟩
  · exact h

/-- Events keep the session sound. -/
theorem sound_next {s : HostSession} (h : s.Sound) (event : SessionEvent) :
    (s.next event).1.Sound := by
  cases event with
  | heartbeatDue =>
      simp only [next, beat]
      split
      · exact h
      · exact ⟨h.size, h.room, h.stopping⟩
  | beatCompletes result =>
      simp only [next]
      split
      · exact h
      · cases result with
        | ok => exact ⟨h.size, h.room, h.stopping⟩
        | error error =>
            simp only [beatCompleted]
            split
            · exact ⟨h.size, h.room, h.stopping⟩
            · exact ⟨h.size, h.room, h.stopping⟩
  | pollCompletes result =>
      simp only [next]
      split
      · rename_i hpolling
        exact sound_pollCompleted h hpolling result
      · exact h
  | idleEnds =>
      simp only [next]
      split
      · rename_i hidling
        refine sound_runPollLoop h.size (stopping_of_not_ended h.stopping ?_ rfl)
        rw [hidling]
        exact nofun
      · exact h
  | handlerSettles handler =>
      simp only [next]
      split
      · rename_i hrunning
        exact sound_setPhase h nofun (by simp [hrunning])
      · exact h
  | handlerDeleted handler =>
      simp only [next]
      split
      · rename_i hsettled
        exact sound_setPhase h nofun (by simp [hsettled])
      · exact h
  | stop closeRoute => exact sound_stop h closeRoute
  | stopResumes => exact sound_stopResumes h
  | closeCompletes result =>
      simp only [next]
      split
      · rename_i hclosing
        have hstopping := h.stopping
        unfold Stopping at hstopping
        rw [hclosing] at hstopping
        exact ⟨h.size, h.room, hstopping⟩
      · exact h

theorem setPhase_requests (s : HostSession) (handler : Nat) (phase : HandlerPhase) :
    (s.setPhase handler phase).handlers.map (·.request) = s.handlers.map (·.request) := by
  apply List.ext_getElem?
  intro i
  rw [setPhase, List.getElem?_map, List.getElem?_map, List.getElem?_modify]
  cases s.handlers[i]? with
  | none => rfl
  | some h => by_cases hi : handler = i <;> simp [hi]

/-- A poll's request gets a handler, and no other handler is started. -/
theorem next_requests (s : HostSession) (event : SessionEvent) :
    (s.next event).1.concurrency = s.concurrency ∧
      (s.next event).1.handlers.map (·.request) =
        s.handlers.map (·.request) ++ (s.requestOf event).toList := by
  have hnone : s.handlers.map (·.request) =
      s.handlers.map (·.request) ++ (none : Option ForwardedRequest).toList :=
    (List.append_nil _).symm
  cases event with
  | heartbeatDue =>
      simp only [next, beat]
      split
      · exact ⟨rfl, hnone⟩
      · exact ⟨rfl, hnone⟩
  | beatCompletes result =>
      simp only [next]
      split
      · exact ⟨rfl, hnone⟩
      · cases result with
        | ok => exact ⟨rfl, hnone⟩
        | error error =>
            simp only [beatCompleted]
            split
            · exact ⟨rfl, hnone⟩
            · exact ⟨rfl, hnone⟩
  | pollCompletes result =>
      by_cases hpolling : s.pollLoop = .polling
      · simp only [next, if_pos hpolling]
        cases result with
        | error error =>
            simp only [pollCompleted]
            split
            · exact ⟨rfl, hnone⟩
            · exact ⟨rfl, hnone⟩
        | ok request =>
            simp only [requestOf, if_pos hpolling]
            cases request with
            | none => exact ⟨rfl, hnone⟩
            | some request => exact ⟨rfl, List.map_append⟩
      · simp only [next, if_neg hpolling]
        cases result with
        | error error => exact ⟨trivial, hnone⟩
        | ok request =>
            simp only [requestOf, if_neg hpolling]
            exact ⟨trivial, hnone⟩
  | idleEnds =>
      simp only [next]
      split
      · exact ⟨rfl, hnone⟩
      · exact ⟨rfl, hnone⟩
  | handlerSettles handler =>
      simp only [next]
      split
      · exact ⟨rfl, (s.setPhase_requests handler .settled).trans hnone⟩
      · exact ⟨rfl, hnone⟩
  | handlerDeleted handler =>
      simp only [next]
      split
      · exact ⟨rfl, (s.setPhase_requests handler .deleted).trans hnone⟩
      · exact ⟨rfl, hnone⟩
  | stop closeRoute =>
      simp only [next, stop]
      split
      · exact ⟨rfl, hnone⟩
      · exact ⟨rfl, hnone⟩
  | stopResumes =>
      simp only [next, stopResumes]
      split
      · split
        · exact ⟨rfl, hnone⟩
        · exact ⟨rfl, hnone⟩
      · split
        · exact ⟨rfl, hnone⟩
        · exact ⟨rfl, hnone⟩
      · exact ⟨rfl, hnone⟩
  | closeCompletes result =>
      simp only [next]
      split
      · exact ⟨rfl, hnone⟩
      · exact ⟨rfl, hnone⟩

end HostSession

/-- No more handlers run than the session may have at a time, every request of a poll has
got one handler, and a `stop` that resolved has seen the end of the poll loop and of every
handler. -/
structure Orderly (concurrency : Nat) (s : HostSession)
    (es : List (SessionEvent × SessionAnswer)) : Prop where
  bounded : s.running ≤ concurrency
  handedOver : s.handlers.map (·.request) = polledRequests es
  stopped : s.stopCall = .resolved →
    s.pollLoop = .ended ∧ ∀ handler ∈ s.handlers, handler.phase ≠ .running

/-- Every started session is orderly, behind any events. -/
theorem hostSession_orderly (concurrency : Option Nat) (events : List SessionEvent) :
    Orderly (sessionConcurrency concurrency) ((hostSession concurrency).exec events).1
      ((hostSession concurrency).exec events).2 := by
  have hkept : (((hostSession concurrency).exec events).1.Sound ∧
      ((hostSession concurrency).exec events).1.concurrency =
        sessionConcurrency concurrency) ∧
      ((hostSession concurrency).exec events).1.handlers.map (·.request) =
        polledRequests ((hostSession concurrency).exec events).2 := by
    refine Machine.invariant (M := hostSession concurrency)
      (I := fun s es => (s.Sound ∧ s.concurrency = sessionConcurrency concurrency) ∧
        s.handlers.map (·.request) = polledRequests es) ?_ ?_ events
    · exact ⟨⟨HostSession.sound_runPollLoop (Nat.zero_le _) trivial, rfl⟩, rfl⟩
    · intro s es event ih
      obtain ⟨hconcurrency, hrequests⟩ := s.next_requests event
      refine ⟨⟨HostSession.sound_next ih.1.1 event, hconcurrency.trans ih.1.2⟩, ?_⟩
      rw [polledRequests_cons, ← ih.2]
      exact hrequests
  obtain ⟨⟨hsound, hconcurrency⟩, hrequests⟩ := hkept
  refine ⟨?_, hrequests, fun hresolved => ?_⟩
  · rw [← hconcurrency]
    exact (HostSession.running_le_handlersSize _).trans hsound.size
  · have hstopping := hsound.stopping
    unfold HostSession.Stopping at hstopping
    rw [hresolved] at hstopping
    refine ⟨hstopping.1, fun handler hhandler hrunning => ?_⟩
    obtain ⟨i, hi⟩ := List.mem_iff_getElem?.mp hhandler
    apply hstopping.2 i
    rw [HostSession.phaseOf, hi, Option.map_some, hrunning]

end AgentGather.Tunnel
