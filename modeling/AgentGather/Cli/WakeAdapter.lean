import AgentGather.Cli.Transport
import AgentGather.Library.Machine
import AgentGather.Server.Waiting
import AgentGather.Storage.Redaction

/-!
# The wake adapter

`wake-adapter` waits for messages and runs a command for every batch that needs its
participant.  It may be stopped at any point and started again, from the cursor that it has
stored by then.  The machine below takes one step for everything the adapter waits for; the
batches it invokes the command for lie behind each other in the log.
-/

namespace AgentGather.Cli

open AgentGather.Library AgentGather.Protocol AgentGather.Storage AgentGather.Server

def backoffBaseMs : Nat := 500

def backoffMaxMs : Nat := 30000

/-! ## What it waits for -/

/-- How a wait goes wrong before the cursor is written; anything else that is thrown there
has some message. -/
inductive WaitFailure where
  | unreachable
  | notFound
  | refused (status : Nat) (message : Option String)
  | thrown (message : String)
deriving DecidableEq, Repr

def WaitFailure.text (baseUrl : String) : WaitFailure → String
  | .unreachable =>
      "could not reach the room server at " ++ baseUrl ++ " for HTTP /wait. " ++
        "Check that `agentgather room serve` is running, the current baseUrl (`agentgather " ++
        "room current`), and tunnel state."
  | .notFound =>
      "HTTP /wait returned 404 at " ++ baseUrl ++ ". The route or baseUrl may not point at " ++
        "a running room server (route/server mismatch, not a missing /watch endpoint)."
  | .refused status message => message.getD ("HTTP /wait failed with HTTP " ++ toString status)
  | .thrown message => message

/-- The flags of the command. -/
structure WakeAdapterArgs where
  exec : Option String
  since : Option String
  maxEvents : Option String
  maxTurns : Option String
  json : Bool
deriving DecidableEq, Repr

/-- What the adapter uses of `current-room.json`. -/
structure WakeIdentity where
  aliasName : String
  baseUrl : String

/-- What the adapter meets: it is started, stopped before if need be; `/wait` answers or
fails; the cursor of the answer is written or not; the loop goes on with the answer; the
command exits; a pause is over. -/
inductive Happening where
  | started (args : WakeAdapterArgs)
  | answered (r : WaitResponse)
  | failed (failure : WaitFailure)
  | stored
  | unstored (message : String)
  | resumed
  | exited (code : Int)
  | slept
deriving DecidableEq, Repr

/-- A batch that a wait since `sinceId` has returned. -/
structure Delivery where
  sinceId : Nat
  response : WaitResponse
deriving DecidableEq, Repr

/-- A run of the command: `roomUrl` and `sinceId` are its environment, and it is for the
messages up to `nextSinceId`. -/
structure Invocation where
  command : String
  roomUrl : String
  sinceId : Nat
  nextSinceId : Nat
deriving DecidableEq, Repr

/-- A line of `--json`. -/
structure TurnLine where
  turn : Nat
  nextSinceId : Nat
  actionable : Bool
  roomStatus : RoomStatus
deriving DecidableEq, Repr

/-- What the adapter does: `delivered` is the writing of a cursor, with its batch. -/
inductive Effect where
  | warned (text : String)
  | slept (ms : Nat)
  | delivered (batch : Delivery)
  | printed (line : TurnLine)
  | invoked (invocation : Invocation)
deriving DecidableEq, Repr

/-! ## The loop -/

inductive Phase where
  | absent
  | waiting
  | storing (r : WaitResponse)
  | returned (r : WaitResponse)
  | running
  | sleeping
  | ended (result : Except Failure Nat)

/-- The cursor file and the variables of the loop. -/
structure WakeAdapter where
  cursor : Option Nat
  phase : Phase
  command : String
  maxEvents : Option Nat
  maxTurns : Option Nat
  json : Bool
  sinceId : Nat
  turns : Nat
  events : Nat
  backoffMs : Nat

def activeSessionStarted : Regex Char := litIgnoreCase "active chat session started"

/-- A mention of the alias, or the system line that starts a session. -/
def isActionableMessage (aliasName : String) (m : Message) : Bool :=
  m.mentions.contains aliasName ||
    (m.type == .system && activeSessionStarted.test m.text.toList)

def isActionable (messages : List Message) (aliasName : String) : Bool :=
  messages.any (isActionableMessage aliasName)

def parseSinceId (raw : String) : Except Failure Nat :=
  match Number.toInteger raw.toList with
  | some n =>
      if 0 ≤ n ∧ n ≤ maxSafeInteger then .ok n.toNat
      else .error (.error "since must be a non-negative safe integer")
  | none => .error (.error "since must be a non-negative safe integer")

def optionalCount (raw : Option String) : Except Failure (Option Nat) :=
  match raw with
  | none => .ok none
  | some raw => (parseSinceId raw).map some

/-- The cursor of the flag, else the stored one. -/
def currentSinceId (cursor : Option Nat) (rawSince : Option String) : Except Failure Nat :=
  match rawSince with
  | some raw => parseSinceId raw
  | none => .ok (cursor.getD 0)

namespace WakeAdapter

/-- The condition of the loop. -/
def next (s : WakeAdapter) : WakeAdapter :=
  if s.maxTurns.all (s.turns < ·) && s.maxEvents.all (s.events < ·) then
    { s with phase := .waiting }
  else { s with phase := .ended (.ok 0) }

/-- The variables of a new call. -/
def enter (s : WakeAdapter) (args : WakeAdapterArgs) (command : String) :
    Except Failure WakeAdapter := do
  let maxEvents ← optionalCount args.maxEvents
  let maxTurns ← optionalCount args.maxTurns
  let sinceId ← currentSinceId s.cursor args.since
  return next ⟨s.cursor, .waiting, command, maxEvents, maxTurns, args.json, sinceId, 0, 0,
    backoffBaseMs⟩

def start (s : WakeAdapter) (args : WakeAdapterArgs) : WakeAdapter × List Effect :=
  let command := args.exec.getD ""
  if Text.trim command.toList = [] then
    ({ s with phase := .ended (.ok 1) }, [.warned
      "wake-adapter requires --exec <command> (opt-in; there is no default command)\n"])
  else
    match s.enter args command with
    | .ok s' => (s', [])
    | .error e => ({ s with phase := .ended (.error e) }, [])

/-- `/wait` has failed. -/
def retry (s : WakeAdapter) (message : String) : WakeAdapter × List Effect :=
  ({ s with phase := .sleeping },
    [.warned ("wake-adapter: /wait failed (" ++ message ++ "); retrying in " ++
      toString s.backoffMs ++ "ms\n"), .slept s.backoffMs])

/-- `writeCursor` -/
def store (s : WakeAdapter) (r : WaitResponse) : WakeAdapter × List Effect :=
  if r.nextSinceId ≤ maxSafeInteger then
    ({ s with cursor := some r.nextSinceId, phase := .returned r }, [.delivered ⟨s.sinceId, r⟩])
  else s.retry "cursor sinceId must be a non-negative safe integer"

/-- The loop behind `waitOnce`, up to the next thing it waits for. -/
def takeTurn (current : WakeIdentity) (s : WakeAdapter) (r : WaitResponse) :
    WakeAdapter × List Effect :=
  let previousSinceId := s.sinceId
  let s := { s with turns := s.turns + 1, backoffMs := backoffBaseMs, sinceId := r.nextSinceId }
  let actionable := isActionable r.messages current.aliasName
  let printed := if s.json then [.printed ⟨s.turns, s.sinceId, actionable, r.roomStatus⟩] else []
  if r.roomStatus = .closed then ({ s with phase := .ended (.ok 0) }, printed)
  else if actionable then
    ({ s with events := s.events + 1, phase := .running },
      printed ++ [.invoked ⟨s.command, current.baseUrl, previousSinceId, r.nextSinceId⟩])
  else (s.next, printed)

/-- The command has exited. -/
def exit (s : WakeAdapter) (code : Int) : WakeAdapter × List Effect :=
  if code = 0 then (s.next, [])
  else ({ s with phase := .sleeping },
    [.warned ("wake-adapter: command exited " ++ toString code ++ "; backing off " ++
      toString s.backoffMs ++ "ms\n"), .slept s.backoffMs])

/-- The pause after a failure is over. -/
def wake (s : WakeAdapter) : WakeAdapter :=
  next { s with backoffMs := min (s.backoffMs * 2) backoffMaxMs }

/-- What the adapter does not wait for passes it by. -/
def step (current : WakeIdentity) (s : WakeAdapter) (h : Happening) :
    WakeAdapter × List Effect :=
  match s.phase, h with
  | _, .started args => s.start args
  | .waiting, .answered r => ({ s with phase := .storing r }, [])
  | .waiting, .failed failure => s.retry (failure.text current.baseUrl)
  | .storing r, .stored => s.store r
  | .storing _, .unstored message => s.retry message
  | .returned r, .resumed => s.takeTurn current r
  | .running, .exited code => s.exit code
  | .sleeping, .slept => (s.wake, [])
  | _, _ => (s, [])

end WakeAdapter

/-- The adapter over a cursor file, before its first start. -/
def runWakeAdapterCommand (current : WakeIdentity) (cursor : Option Nat) :
    Machine WakeAdapter Happening (List Effect) where
  init := ⟨cursor, .absent, "", none, none, false, 0, 0, 0, backoffBaseMs⟩
  step := WakeAdapter.step current

/-! ## Batches and runs of the command -/

/-- What has happened, the latest first, and what the adapter did. -/
abbrev WakeHistory := List (Happening × List Effect)

def Effect.delivery? : Effect → Option Delivery
  | .delivered batch => some batch
  | _ => none

def Effect.invocation? : Effect → Option Invocation
  | .invoked invocation => some invocation
  | _ => none

/-- The batches that were returned, the latest first. -/
def deliveries (es : WakeHistory) : List Delivery :=
  es.flatMap fun e => e.2.filterMap Effect.delivery?

/-- The runs of the command, the latest first. -/
def invocations (es : WakeHistory) : List Invocation :=
  es.flatMap fun e => e.2.filterMap Effect.invocation?

def Happening.isStart : Happening → Bool
  | .started _ => true
  | _ => false

/-- What has happened since the adapter was started last. -/
def lastCall (es : WakeHistory) : WakeHistory := es.takeWhile fun e => !e.1.isStart

/-- A batch of an open room with an actionable message. -/
def Delivery.wakes (current : WakeIdentity) (d : Delivery) : Bool :=
  d.response.roomStatus == .opened && isActionable d.response.messages current.aliasName

def Delivery.invocation (current : WakeIdentity) (command : String) (d : Delivery) :
    Invocation :=
  ⟨command, current.baseUrl, d.sinceId, d.response.nextSinceId⟩

/-- The message lies behind `sinceId` and not behind `nextSinceId`. -/
def Invocation.covers (id : Nat) (i : Invocation) : Bool :=
  decide (i.sinceId < id ∧ id ≤ i.nextSinceId)

/-- The batch whose cursor is written, before the loop has gone on with it. -/
def WakeAdapter.pending (s : WakeAdapter) : List Delivery :=
  match s.phase with
  | .returned r => [⟨s.sinceId, r⟩]
  | _ => []

/-- What `/wait` answers: the ids increase beyond `since_id`, and the answer goes on behind
the last of them. -/
structure Answers (sinceId : Nat) (r : WaitResponse) : Prop where
  newer : ∀ m ∈ r.messages, sinceId < m.id
  increasing : Cursor.Increasing (·.id) r.messages
  cursor : r.nextSinceId = nextCursor sinceId r.messages

/-- Once the adapter has run, it is started from the stored cursor. -/
def Admitted (s : WakeAdapter) (h : Happening) : Prop :=
  match s.phase, h with
  | .waiting, .answered r => Answers s.sinceId r
  | .absent, .started _ => True
  | _, .started args => args.since = none
  | _, _ => True

/-- The command runs once for every batch that wakes, and for no other; the runs lie behind
each other in the log, whatever starts lie between them. -/
structure WakesOnce (current : WakeIdentity) (s : WakeAdapter) (es : WakeHistory) : Prop where
  once : s.pending = [] → invocations (lastCall es) =
    ((deliveries (lastCall es)).filter (·.wakes current)).map (·.invocation current s.command)
  forward : ∀ i ∈ invocations es, i.sinceId < i.nextSinceId
  ascending : (invocations es).Pairwise fun later earlier =>
    earlier.nextSinceId ≤ later.sinceId
  covered : s.pending = [] → ∀ d ∈ deliveries (lastCall es),
    (d.response.roomStatus = .closed → d.response.messages = []) →
    ∀ m ∈ d.response.messages, isActionableMessage current.aliasName m = true →
      (invocations es).countP (·.covers m.id) = 1
  notAgain : ∀ id, (invocations es).countP (·.covers id) ≤ 1

/-! ## One step -/

section Steps

variable {current : WakeIdentity} {s s' : WakeAdapter} {fx : List Effect} {h : Happening}

/-- No cursor is being written, and the loop owes nothing. -/
def Phase.Settled : Phase → Prop
  | .absent | .storing _ | .returned _ => False
  | .waiting | .running | .sleeping | .ended _ => True

/-- Neither a batch nor a run of the command. -/
structure Silent (fx : List Effect) : Prop where
  deliveries : fx.filterMap Effect.delivery? = []
  invocations : fx.filterMap Effect.invocation? = []

theorem silent_nil : Silent [] := ⟨rfl, rfl⟩

theorem silent_printed {line : TurnLine} (json : Bool) :
    Silent (if json then [.printed line] else []) := by
  cases json with
  | true => exact ⟨rfl, rfl⟩
  | false => exact silent_nil

/-- What a step does to the cursor and the batches. -/
inductive Stepped (current : WakeIdentity) (s : WakeAdapter) :
    Happening → WakeAdapter → List Effect → Prop
  | started (args : WakeAdapterArgs) {s' : WakeAdapter} {fx : List Effect}
      (settled : s'.phase.Settled) (cursor : s'.cursor = s.cursor)
      (since : s'.sinceId = s.sinceId ∨
        currentSinceId s.cursor args.since = .ok s'.sinceId)
      (silent : Silent fx) : Stepped current s (.started args) s' fx
  | answered (r : WaitResponse) (waiting : s.phase = .waiting) :
      Stepped current s (.answered r) { s with phase := .storing r } []
  | stored (r : WaitResponse) (storing : s.phase = .storing r) :
      Stepped current s .stored
        { s with cursor := some r.nextSinceId, phase := .returned r } [.delivered ⟨s.sinceId, r⟩]
  | resumed (r : WaitResponse) {s' : WakeAdapter} {fx : List Effect}
      (returned : s.phase = .returned r) (settled : s'.phase.Settled)
      (cursor : s'.cursor = s.cursor) (command : s'.command = s.command)
      (since : s'.sinceId = r.nextSinceId)
      (delivered : fx.filterMap Effect.delivery? = [])
      (invoked : fx.filterMap Effect.invocation? =
        ([(⟨s.sinceId, r⟩ : Delivery)].filter (·.wakes current)).map
          (·.invocation current s.command)) :
      Stepped current s .resumed s' fx
  | quiet {h : Happening} {s' : WakeAdapter} {fx : List Effect} (running : h.isStart = false)
      (owes : s.pending = []) (settled : s'.phase.Settled) (cursor : s'.cursor = s.cursor)
      (command : s'.command = s.command) (since : s'.sinceId = s.sinceId) (silent : Silent fx) :
      Stepped current s h s' fx
  | ignored {h : Happening} (running : h.isStart = false) : Stepped current s h s []

theorem settled_next (s : WakeAdapter) : s.next.phase.Settled := by
  unfold WakeAdapter.next
  split_ifs
  · trivial
  · trivial

theorem next_fields (s : WakeAdapter) : s.next.cursor = s.cursor ∧ s.next.command = s.command ∧
    s.next.sinceId = s.sinceId := by
  unfold WakeAdapter.next
  split_ifs
  · exact ⟨rfl, rfl, rfl⟩
  · exact ⟨rfl, rfl, rfl⟩

theorem start_stepped (s : WakeAdapter) (args : WakeAdapterArgs) :
    Stepped current s (.started args) (s.start args).1 (s.start args).2 := by
  unfold WakeAdapter.start
  dsimp only
  split_ifs
  · exact .started args trivial rfl (.inl rfl) ⟨rfl, rfl⟩
  · rcases henter : s.enter args (args.exec.getD "") with e | s'
    · exact .started args trivial rfl (.inl rfl) silent_nil
    · unfold WakeAdapter.enter at henter
      obtain ⟨maxEvents, -, henter⟩ := exists_ok_of_bind henter
      obtain ⟨maxTurns, -, henter⟩ := exists_ok_of_bind henter
      obtain ⟨sinceId, hsince, henter⟩ := exists_ok_of_bind henter
      obtain rfl := Except.ok.inj henter
      obtain ⟨hcursor, -, hnext⟩ := next_fields ⟨s.cursor, .waiting, args.exec.getD "", maxEvents,
        maxTurns, args.json, sinceId, 0, 0, backoffBaseMs⟩
      refine .started args (settled_next _) hcursor (.inr ?_) silent_nil
      rw [hnext]
      exact hsince

theorem retry_stepped (message : String) (hh : h.isStart = false) (howes : s.pending = []) :
    Stepped current s h (s.retry message).1 (s.retry message).2 :=
  .quiet hh howes trivial rfl rfl rfl ⟨rfl, rfl⟩

theorem takeTurn_stepped {r : WaitResponse} (hphase : s.phase = .returned r) :
    Stepped current s .resumed (s.takeTurn current r).1 (s.takeTurn current r).2 := by
  unfold WakeAdapter.takeTurn
  dsimp only
  generalize hfx : (if s.json = true then [Effect.printed ⟨s.turns + 1, r.nextSinceId,
    isActionable r.messages current.aliasName, r.roomStatus⟩] else []) = printed
  have hprinted : Silent printed := hfx ▸ silent_printed s.json
  by_cases hclosed : r.roomStatus = .closed
  · rw [if_pos hclosed]
    refine .resumed r hphase trivial rfl rfl rfl hprinted.deliveries ?_
    rw [hprinted.invocations]
    simp [Delivery.wakes, hclosed]
  have hopen : r.roomStatus = .opened := by
    cases hstatus : r.roomStatus with
    | opened => rfl
    | closed => exact absurd hstatus hclosed
  rw [if_neg hclosed]
  by_cases hactionable : isActionable r.messages current.aliasName = true
  · rw [if_pos hactionable]
    refine .resumed r hphase trivial rfl rfl rfl ?_ ?_
    · rw [List.filterMap_append, hprinted.deliveries]
      rfl
    · rw [List.filterMap_append, hprinted.invocations]
      simp [Delivery.wakes, Delivery.invocation, Effect.invocation?, hopen, hactionable]
  · rw [if_neg hactionable]
    obtain ⟨hcursor, hcommand, hsince⟩ := next_fields { s with
      turns := s.turns + 1, backoffMs := backoffBaseMs, sinceId := r.nextSinceId }
    refine .resumed r hphase (settled_next _) hcursor hcommand hsince hprinted.deliveries ?_
    rw [hprinted.invocations]
    simp [Delivery.wakes, hactionable]

/-- One case for each thing the adapter waits for. -/
theorem step_stepped (current : WakeIdentity) (s : WakeAdapter) (h : Happening) :
    Stepped current s h (s.step current h).1 (s.step current h).2 := by
  have hrunning (h : Happening) (hnone : ∀ args, h = .started args → False) :
      h.isStart = false := by
    cases h with
    | started args => exact absurd rfl (hnone args)
    | _ => rfl
  unfold WakeAdapter.step
  split
  · exact start_stepped s _
  · exact .answered _ ‹_›
  · exact retry_stepped _ rfl (by simp [WakeAdapter.pending, *])
  · rename_i r hphase
    unfold WakeAdapter.store
    split_ifs
    · exact .stored r hphase
    · exact retry_stepped _ rfl (by simp [WakeAdapter.pending, *])
  · exact retry_stepped _ rfl (by simp [WakeAdapter.pending, *])
  · exact takeTurn_stepped ‹_›
  · rename_i code hphase
    have howes : s.pending = [] := by simp [WakeAdapter.pending, hphase]
    obtain ⟨hcursor, hcommand, hsince⟩ := next_fields s
    unfold WakeAdapter.exit
    split_ifs
    · exact .quiet rfl howes (settled_next s) hcursor hcommand hsince silent_nil
    · exact .quiet rfl howes trivial rfl rfl rfl ⟨rfl, rfl⟩
  · have howes : s.pending = [] := by simp [WakeAdapter.pending, *]
    obtain ⟨hcursor, hcommand, hsince⟩ := next_fields { s with
      backoffMs := min (s.backoffMs * 2) backoffMaxMs }
    exact .quiet rfl howes (settled_next _) hcursor hcommand hsince silent_nil
  · refine .ignored (hrunning _ ?_)
    assumption

end Steps

/-! ## The invariant -/

/-- The runs of the command end behind the stored cursor and the variable, a wait is
answered behind its cursor, and whatever woke was run for, up to the batch the loop has not
gone on with. -/
structure WakeInv (current : WakeIdentity) (s : WakeAdapter) (es : WakeHistory) : Prop where
  unstarted : s.phase = .absent → invocations es = []
  answers : ∀ r, s.phase = .storing r ∨ s.phase = .returned r → Answers s.sinceId r
  written : ∀ r, s.phase = .returned r → s.cursor = some r.nextSinceId
  behind : ∀ i ∈ invocations es, i.nextSinceId ≤ s.sinceId ∧ i.nextSinceId ≤ s.cursor.getD 0
  delivered : ∀ d ∈ deliveries (lastCall es), Answers d.sinceId d.response
  balance : ((deliveries (lastCall es)).filter (·.wakes current)).map
      (·.invocation current s.command) =
    (s.pending.filter (·.wakes current)).map (·.invocation current s.command) ++
      invocations (lastCall es)
  forward : ∀ i ∈ invocations es, i.sinceId < i.nextSinceId
  ascending : (invocations es).Pairwise fun later earlier =>
    earlier.nextSinceId ≤ later.sinceId

section Invariant

variable {current : WakeIdentity} {s s' : WakeAdapter} {es : WakeHistory} {fx : List Effect}
  {h : Happening}

theorem deliveries_cons (h : Happening) (fx : List Effect) (es : WakeHistory) :
    deliveries ((h, fx) :: es) = fx.filterMap Effect.delivery? ++ deliveries es := rfl

theorem invocations_cons (h : Happening) (fx : List Effect) (es : WakeHistory) :
    invocations ((h, fx) :: es) = fx.filterMap Effect.invocation? ++ invocations es := rfl

theorem lastCall_cons (hh : h.isStart = false) (fx : List Effect) (es : WakeHistory) :
    lastCall ((h, fx) :: es) = (h, fx) :: lastCall es := by
  rw [lastCall, List.takeWhile_cons_of_pos (by simp [hh]), lastCall]

theorem lastCall_started (args : WakeAdapterArgs) (fx : List Effect) (es : WakeHistory) :
    lastCall ((.started args, fx) :: es) = [] :=
  List.takeWhile_cons_of_neg (by simp [Happening.isStart])

theorem Phase.Settled.pending (hs : s.phase.Settled) : s.pending = [] := by
  unfold WakeAdapter.pending
  cases hphase : s.phase with
  | returned r =>
      rw [hphase] at hs
      exact hs.elim
  | _ => rfl

theorem Phase.Settled.not_open (hs : s.phase.Settled) (r : WaitResponse) :
    ¬ (s.phase = .storing r ∨ s.phase = .returned r) := by
  rintro (hphase | hphase)
  · rw [hphase] at hs
    exact hs
  · rw [hphase] at hs
    exact hs

theorem Phase.Settled.not_absent (hs : s.phase.Settled) : s.phase ≠ .absent := by
  intro hphase
  rw [hphase] at hs
  exact hs

/-- The last message is the one that the cursor goes on behind. -/
theorem Answers.covered {sinceId : Nat} {r : WaitResponse} (hr : Answers sinceId r)
    {m : Message} (hm : m ∈ r.messages) : sinceId < m.id ∧ m.id ≤ r.nextSinceId := by
  refine ⟨hr.newer m hm, ?_⟩
  rw [hr.cursor, nextCursor]
  obtain ⟨older, last, hlast⟩ := List.eq_nil_or_concat r.messages |>.resolve_left
    (List.ne_nil_of_mem hm)
  rw [List.concat_eq_append] at hlast
  rw [hlast, List.getLast?_concat, Option.map_some, Option.getD_some]
  rw [hlast, List.mem_append, List.mem_singleton] at hm
  rcases hm with hm | rfl
  · have hinc := hr.increasing
    rw [Cursor.Increasing, hlast, List.pairwise_append] at hinc
    exact le_of_lt (hinc.2.2 m hm last List.mem_cons_self)
  · exact le_refl _

theorem Answers.le {sinceId : Nat} {r : WaitResponse} (hr : Answers sinceId r) :
    sinceId ≤ r.nextSinceId := by
  rw [hr.cursor]
  exact le_nextCursor hr.newer

theorem exists_of_wakes {d : Delivery} (hd : d.wakes current = true) :
    ∃ m ∈ d.response.messages, isActionableMessage current.aliasName m = true := by
  rw [Delivery.wakes, Bool.and_eq_true] at hd
  exact List.any_eq_true.mp hd.2

/-- A step that returns no batch and runs nothing. -/
theorem invocations_silent (hfx : fx.filterMap Effect.invocation? = []) :
    invocations ((h, fx) :: es) = invocations es := by
  rw [invocations_cons, hfx, List.nil_append]

theorem deliveries_silent (hfx : fx.filterMap Effect.delivery? = []) :
    deliveries ((h, fx) :: es) = deliveries es := by
  rw [deliveries_cons, hfx, List.nil_append]

/-- A start behind the stored cursor, if there was a run of the command. -/
theorem WakeInv.started (hs : WakeInv current s es) {args : WakeAdapterArgs}
    (hadmitted : Admitted s (.started args)) (settled : s'.phase.Settled)
    (cursor : s'.cursor = s.cursor)
    (since : s'.sinceId = s.sinceId ∨ currentSinceId s.cursor args.since = .ok s'.sinceId)
    (silent : Silent fx) : WakeInv current s' ((.started args, fx) :: es) where
  unstarted hphase := absurd hphase settled.not_absent
  answers r hphase := absurd hphase (settled.not_open r)
  written r hphase := absurd (.inr hphase) (settled.not_open r)
  behind i hi := by
    rw [invocations_silent silent.invocations] at hi
    obtain ⟨hsince, hcursor⟩ := hs.behind i hi
    rw [cursor]
    refine ⟨?_, hcursor⟩
    rcases since with hsame | hread
    · rw [hsame]
      exact hsince
    · have hnone : args.since = none := by
        cases hphase : s.phase with
        | absent =>
            rw [hs.unstarted hphase] at hi
            cases hi
        | _ => simpa [Admitted, hphase] using hadmitted
      rw [hnone] at hread
      rw [← Except.ok.inj hread]
      exact hcursor
  delivered d hd := by
    rw [lastCall_started] at hd
    cases hd
  balance := by
    rw [lastCall_started, settled.pending]
    rfl
  forward i hi := hs.forward i (by rwa [invocations_silent silent.invocations] at hi)
  ascending := by
    rw [invocations_silent silent.invocations]
    exact hs.ascending

/-- An answer to the wait. -/
theorem WakeInv.answered (hs : WakeInv current s es) {r : WaitResponse}
    (hr : Answers s.sinceId r) (waiting : s.phase = .waiting) :
    WakeInv current { s with phase := .storing r } ((.answered r, []) :: es) where
  unstarted hphase := nomatch hphase
  answers r' hphase := by
    rcases hphase with hphase | hphase
    · cases hphase
      exact hr
    · cases hphase
  written _ hphase := nomatch hphase
  behind := hs.behind
  delivered d hd := by
    rw [lastCall_cons rfl] at hd
    exact hs.delivered d hd
  balance := by
    have hbalance := hs.balance
    rw [WakeAdapter.pending, waiting] at hbalance
    rw [lastCall_cons rfl]
    exact hbalance
  forward := hs.forward
  ascending := hs.ascending

/-- The cursor of the answer is written. -/
theorem WakeInv.stored (hs : WakeInv current s es) {r : WaitResponse}
    (storing : s.phase = .storing r) : WakeInv current
      { s with cursor := some r.nextSinceId, phase := .returned r }
      ((.stored, [.delivered ⟨s.sinceId, r⟩]) :: es) where
  unstarted hphase := nomatch hphase
  answers r' hphase := by
    rcases hphase with hphase | hphase
    · cases hphase
    · cases hphase
      exact hs.answers r (.inl storing)
  written r' hphase := by
    cases hphase
    rfl
  behind i hi := by
    obtain ⟨hsince, -⟩ := hs.behind i hi
    exact ⟨hsince, hsince.trans (hs.answers r (.inl storing)).le⟩
  delivered d hd := by
    rw [lastCall_cons rfl, deliveries_cons] at hd
    rcases List.mem_cons.mp hd with rfl | hd
    · exact hs.answers r (.inl storing)
    · exact hs.delivered d hd
  balance := by
    have hbalance := hs.balance
    rw [WakeAdapter.pending, storing] at hbalance
    rw [lastCall_cons rfl, deliveries_cons, invocations_silent rfl, List.filter_append,
      List.map_append, hbalance]
    rfl
  forward := hs.forward
  ascending := hs.ascending

/-- The loop goes on with the answer, and runs the command if the batch wakes. -/
theorem WakeInv.resumed (hs : WakeInv current s es) {r : WaitResponse}
    (returned : s.phase = .returned r) (settled : s'.phase.Settled)
    (cursor : s'.cursor = s.cursor) (command : s'.command = s.command)
    (since : s'.sinceId = r.nextSinceId) (delivered : fx.filterMap Effect.delivery? = [])
    (invoked : fx.filterMap Effect.invocation? =
      ([(⟨s.sinceId, r⟩ : Delivery)].filter (·.wakes current)).map
        (·.invocation current s.command)) :
    WakeInv current s' ((.resumed, fx) :: es) := by
  have hr := hs.answers r (.inr returned)
  have hrun (i : Invocation) (hi : i ∈ fx.filterMap Effect.invocation?) :
      (⟨s.sinceId, r⟩ : Delivery).wakes current = true ∧
        i = (⟨s.sinceId, r⟩ : Delivery).invocation current s.command := by
    rw [invoked, List.mem_map] at hi
    obtain ⟨d, hd, rfl⟩ := hi
    obtain ⟨hd, hwakes⟩ := List.mem_filter.mp hd
    obtain rfl := List.mem_singleton.mp hd
    exact ⟨hwakes, rfl⟩
  have hmem (i : Invocation) (hi : i ∈ invocations ((.resumed, fx) :: es)) :
      i ∈ fx.filterMap Effect.invocation? ∨ i ∈ invocations es := by
    rw [invocations_cons] at hi
    exact List.mem_append.mp hi
  exact {
    unstarted := fun hphase => absurd hphase settled.not_absent
    answers := fun r hphase => absurd hphase (settled.not_open r)
    written := fun r hphase => absurd (.inr hphase) (settled.not_open r)
    behind := by
      intro i hi
      rw [since, cursor, hs.written r returned, Option.getD_some]
      rcases hmem i hi with hi | hi
      · rw [(hrun i hi).2]
        exact ⟨le_refl _, le_refl _⟩
      · have hle := (hs.behind i hi).1.trans hr.le
        exact ⟨hle, hle⟩
    delivered := by
      rw [lastCall_cons rfl, deliveries_silent delivered]
      exact hs.delivered
    balance := by
      have hbalance := hs.balance
      rw [WakeAdapter.pending, returned] at hbalance
      rw [lastCall_cons rfl, deliveries_silent delivered, invocations_cons, invoked, command,
        hbalance, settled.pending]
      rfl
    forward := by
      intro i hi
      rcases hmem i hi with hi | hi
      · obtain ⟨hwakes, rfl⟩ := hrun i hi
        obtain ⟨m, hm, -⟩ := exists_of_wakes hwakes
        obtain ⟨hnewer, hcovered⟩ := hr.covered hm
        exact lt_of_lt_of_le hnewer hcovered
      · exact hs.forward i hi
    ascending := by
      rw [invocations_cons]
      refine List.pairwise_append.mpr ⟨?_, hs.ascending, fun i hi j hj => ?_⟩
      · rw [invoked, List.pairwise_map]
        exact (List.pairwise_singleton _ _).filter _
      · rw [(hrun i hi).2]
        exact (hs.behind j hj).1 }

/-- A step that leaves the cursor and the batches alone. -/
theorem WakeInv.quiet (hs : WakeInv current s es) (running : h.isStart = false)
    (owes : s.pending = []) (settled : s'.phase.Settled) (cursor : s'.cursor = s.cursor)
    (command : s'.command = s.command) (since : s'.sinceId = s.sinceId) (silent : Silent fx) :
    WakeInv current s' ((h, fx) :: es) where
  unstarted hphase := absurd hphase settled.not_absent
  answers r hphase := absurd hphase (settled.not_open r)
  written r hphase := absurd (.inr hphase) (settled.not_open r)
  behind i hi := by
    rw [invocations_silent silent.invocations] at hi
    rw [since, cursor]
    exact hs.behind i hi
  delivered := by
    rw [lastCall_cons running, deliveries_silent silent.deliveries]
    exact hs.delivered
  balance := by
    have hbalance := hs.balance
    rw [owes] at hbalance
    rw [lastCall_cons running, deliveries_silent silent.deliveries,
      invocations_silent silent.invocations, settled.pending, command]
    exact hbalance
  forward i hi := hs.forward i (by rwa [invocations_silent silent.invocations] at hi)
  ascending := by
    rw [invocations_silent silent.invocations]
    exact hs.ascending

theorem WakeInv.ignored (hs : WakeInv current s es) (running : h.isStart = false) :
    WakeInv current s ((h, []) :: es) where
  unstarted := hs.unstarted
  answers := hs.answers
  written := hs.written
  behind := hs.behind
  delivered := by
    rw [lastCall_cons running]
    exact hs.delivered
  balance := by
    rw [lastCall_cons running]
    exact hs.balance
  forward := hs.forward
  ascending := hs.ascending

theorem WakeInv.step (hs : WakeInv current s es) (hadmitted : Admitted s h) :
    WakeInv current (s.step current h).1 ((h, (s.step current h).2) :: es) := by
  have hstepped := step_stepped current s h
  generalize (s.step current h).1 = s', (s.step current h).2 = fx at hstepped ⊢
  cases hstepped with
  | started args settled cursor since silent =>
      exact hs.started hadmitted settled cursor since silent
  | answered r waiting =>
      have hr : Answers s.sinceId r := by simpa [Admitted, waiting] using hadmitted
      exact hs.answered hr waiting
  | stored r storing => exact hs.stored storing
  | resumed r returned settled cursor command since delivered invoked =>
      exact hs.resumed returned settled cursor command since delivered invoked
  | quiet running owes settled cursor command since silent =>
      exact hs.quiet running owes settled cursor command since silent
  | ignored running => exact hs.ignored running

/-- No message lies in two runs that lie behind each other. -/
theorem countP_covers_le_one {is : List Invocation}
    (hascending : is.Pairwise fun later earlier => earlier.nextSinceId ≤ later.sinceId)
    (id : Nat) : is.countP (·.covers id) ≤ 1 := by
  induction is with
  | nil => exact Nat.zero_le 1
  | cons i is ih =>
      obtain ⟨hbefore, hrest⟩ := List.pairwise_cons.mp hascending
      by_cases hi : i.covers id = true
      · have hnone : is.countP (·.covers id) = 0 := by
          rw [List.countP_eq_zero]
          intro j hj hcovers
          have hle := hbefore j hj
          simp only [Invocation.covers, decide_eq_true_eq] at hi hcovers
          omega
        rw [List.countP_cons_of_pos hi, hnone]
      · rw [List.countP_cons_of_neg hi]
        exact ih hrest

theorem mem_invocations_of_lastCall {i : Invocation} (hi : i ∈ invocations (lastCall es)) :
    i ∈ invocations es := by
  obtain ⟨e, he, hi⟩ := List.mem_flatMap.mp hi
  exact List.mem_flatMap.mpr ⟨e, (List.takeWhile_sublist _).subset he, hi⟩

/-- A message that wakes lies in a run, once the loop has gone on with its batch. -/
theorem WakeInv.covers (hs : WakeInv current s es) (hpending : s.pending = []) {d : Delivery}
    (hd : d ∈ deliveries (lastCall es)) (hopen : d.response.roomStatus = .opened) {m : Message}
    (hm : m ∈ d.response.messages) (hwakes : isActionableMessage current.aliasName m = true) :
    0 < (invocations es).countP (·.covers m.id) := by
  have hbatch : d.wakes current = true := by
    rw [Delivery.wakes, hopen]
    exact List.any_eq_true.mpr ⟨m, hm, hwakes⟩
  have hrun : d.invocation current s.command ∈ invocations (lastCall es) := by
    have hbalance := hs.balance
    rw [hpending, List.filter_nil, List.map_nil, List.nil_append] at hbalance
    rw [← hbalance]
    exact List.mem_map_of_mem (List.mem_filter.mpr ⟨hd, hbatch⟩)
  refine List.countP_pos_iff.mpr ⟨_, mem_invocations_of_lastCall hrun, ?_⟩
  exact decide_eq_true ((hs.delivered d hd).covered hm)

theorem WakeInv.wakesOnce (hs : WakeInv current s es) : WakesOnce current s es where
  once hpending := by
    have hbalance := hs.balance
    rw [hpending, List.filter_nil, List.map_nil, List.nil_append] at hbalance
    exact hbalance.symm
  forward := hs.forward
  ascending := hs.ascending
  covered hpending d hd hclosed m hm hwakes := by
    have hopen : d.response.roomStatus = .opened := by
      cases hstatus : d.response.roomStatus with
      | opened => rfl
      | closed =>
          rw [hclosed hstatus] at hm
          cases hm
    exact le_antisymm (countP_covers_le_one hs.ascending m.id)
      (hs.covers hpending hd hopen hm hwakes)
  notAgain := countP_covers_le_one hs.ascending

end Invariant

/-- However often the adapter is stopped and started, it runs its command once for every
batch of an open room with an actionable message and never else, and no message twice. -/
theorem runWakeAdapterCommand_wakesOnce (current : WakeIdentity) (cursor : Option Nat)
    (happenings : List Happening)
    (h : (runWakeAdapterCommand current cursor).Obeys Admitted happenings) :
    WakesOnce current ((runWakeAdapterCommand current cursor).exec happenings).1
      ((runWakeAdapterCommand current cursor).exec happenings).2 := by
  apply WakeInv.wakesOnce
  refine Machine.invariant_of_obeys (I := WakeInv current) ?_
    (fun s es call hs hadmitted => hs.step hadmitted) h
  exact {
    unstarted := fun _ => rfl
    answers := fun r hphase => by rcases hphase with hphase | hphase <;> cases hphase
    written := fun _ hphase => nomatch hphase
    behind := fun i hi => nomatch hi
    delivered := fun d hd => nomatch hd
    balance := rfl
    forward := fun i hi => nomatch hi
    ascending := .nil }

/-- The second of two messages mentions the agent. -/
def mentionedOnce : WaitResponse :=
  ⟨.opened, "agent", false, false,
    [⟨4, "r", 0, "host", .message, "hello", none, none, []⟩,
      ⟨5, "r", 0, "host", .message, "@agent hello", none, none, ["agent"]⟩],
    true, 5, false, none⟩

/-- A failed wait, a run of the command that fails, and a start behind it. -/
def stoppedOnce : List Happening :=
  [.started ⟨some "attend-once", none, none, none, false⟩, .failed .notFound, .slept,
    .answered mentionedOnce, .stored, .resumed, .exited 1,
    .started ⟨some "attend-once", none, none, none, false⟩]

/-- One run of the command, by the general theorem. -/
theorem runWakeAdapterCommand_wakesOnce_stopped :
    invocations ((runWakeAdapterCommand ⟨"agent", "http://r"⟩ (some 3)).exec stoppedOnce).2 =
      [⟨"attend-once", "http://r", 3, 5⟩] ∧
    WakesOnce ⟨"agent", "http://r"⟩
      ((runWakeAdapterCommand ⟨"agent", "http://r"⟩ (some 3)).exec stoppedOnce).1
      ((runWakeAdapterCommand ⟨"agent", "http://r"⟩ (some 3)).exec stoppedOnce).2 := by
  refine ⟨by decide +kernel, runWakeAdapterCommand_wakesOnce _ _ _ ?_⟩
  have hanswers : Answers 3 mentionedOnce :=
    ⟨by decide, by rw [Cursor.Increasing]; decide, rfl⟩
  exact ⟨trivial, trivial, trivial, hanswers, trivial, trivial, trivial, rfl, trivial⟩

end AgentGather.Cli
