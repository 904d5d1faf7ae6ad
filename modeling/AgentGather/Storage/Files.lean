import AgentGather.Library.RelyGuarantee
import AgentGather.Protocol.Types

/-!
# The files of a room

One room's files as the storage layer leaves them between two of its steps, the writer
lock, the clock, and the memory `μ` of the process that uses the store.  Every step of
the storage layer announces itself by a `RoomStep`; a file step may fail, a process may
crash between two steps.  The writer lock is taken as mutual exclusion here: a dead
holder's lock is free again.
-/

namespace AgentGather.Storage

open AgentGather.Library AgentGather.Protocol

/-- A file that is replaced as a whole.  `torn` is one that was created and not yet, or
never, filled, so that it does not parse. -/
inductive Stored (α : Type) where
  | absent
  | torn
  | whole (value : α)
deriving DecidableEq, Repr

/-- `room.json`, `participants.json`, `brief.md` and the lines of `messages.jsonl`. -/
structure RoomFiles where
  state : Stored RoomState
  participants : Stored (List Participant)
  brief : Stored String
  messages : Stored (List Message)
deriving DecidableEq, Repr

/-- A room nobody created yet. -/
def RoomFiles.empty : RoomFiles := ⟨.absent, .absent, .absent, .absent⟩

/-- The lines of the log; an absent log has none. -/
def RoomFiles.log (f : RoomFiles) : List Message :=
  match f.messages with
  | .whole messages => messages
  | _ => []

/-- `lock` is the caller that holds the writer lock. -/
structure World (μ : Type) where
  files : RoomFiles
  lock : Option Nat
  clock : Nat
  memory : μ

inductive RoomFile where
  | state
  | participants
  | brief
  | messages
deriving DecidableEq, Repr

/-- Which operation replaced `room.json`. -/
inductive StateWrite where
  | appended
  | recovered
  | updated
  | preferred
  | started
  | ended
  | closed
deriving DecidableEq, Repr

/-- One step of the storage layer, with the data it saw or wrote; `memory` stands for the
other code of the process.  Of that, a change of the pending continuation and the firing
of a timer are announced with the time, and that there was none to turn off. -/
inductive RoomStep where
  | acquired
  | released
  | now (clock : Nat)
  | memory
  | pending (clock : Nat) (entry : Option PendingAutoContinue)
  | nothingPending
  | fired (clock : Nat) (timer : PendingAutoContinue)
  | madeDirectories
  | created (file : RoomFile)
  | existed (file : RoomFile)
  | filled (file : RoomFile)
  | chmod (file : RoomFile)
  | readState (found : Stored RoomState)
  | readParticipants (found : Stored (List Participant))
  | readBrief
  | readMessages
  | wroteState (purpose : StateWrite) (state : RoomState)
  | wroteParticipants (participants : List Participant)
  | wroteBrief (body : String)
  | appended (message : Message)
deriving DecidableEq, Repr

/-- What may fail: every step on a file, with an operating-system error, and taking the
lock, also by running out of time. -/
def RoomStep.mayFail : RoomStep → Failure → Bool
  | .now _, _ => false
  | .memory, _ => false
  | .pending _ _, _ => false
  | .nothingPending, _ => false
  | .fired _ _, _ => false
  | .acquired, .error _ => true
  | _, .os => true
  | _, _ => false

abbrev RoomProg (μ : Type) := Prog (World μ) RoomStep Failure

/-- Callers with their processes; any step on a file may fail, any process may crash. -/
def faultySystem (μ : Type) (process : Nat → Nat) : System (World μ) RoomStep Failure where
  process := process
  faults := RoomStep.mayFail
  crash p := some fun w =>
    { w with lock := if w.lock.any (fun t => process t == p) then none else w.lock }

/-! ## Steps -/

section Steps

variable {μ : Type}

/-- `Date.now()`, unless the caller says what time it is. -/
def dateNow (given : Option Nat) : RoomProg μ Nat :=
  match given with
  | some now => .ret now
  | none => .query (fun w => .now w.clock) fun w => .ok w.clock

def acquireWriterLock (t : Nat) : RoomProg μ Unit :=
  .action (fun _ => .acquired) (fun w => w.lock.isNone) (fun w => { w with lock := some t })
    fun _ => .ok ()

def releaseWriterLock : RoomProg μ Unit :=
  .update (fun _ => .released) fun w => { w with lock := none }

/-- Run `body` as caller `t` of the writer lock. -/
def withWriterLock {α : Type} (t : Nat) (body : RoomProg μ α) : RoomProg μ α :=
  (acquireWriterLock t).bind fun _ => body.finallyDo releaseWriterLock

/-- What reading and parsing a JSON file yields. -/
def Stored.read {α : Type} : Stored α → Except Failure α
  | .absent => .error .notFound
  | .torn => .error .malformedJson
  | .whole value => .ok value

theorem Stored.eq_whole_of_read {α : Type} {f : Stored α} {a : α} (h : f.read = .ok a) :
    f = .whole a := by
  cases f with
  | absent => cases h
  | torn => cases h
  | whole b => rw [Except.ok.inj h]

def ensureRoomDirectories : RoomProg μ Unit := .update (fun _ => .madeDirectories) id

/-- `createSecureFile`: an exclusive open, the content, the mode. -/
def createSecureFile (file : RoomFile) (present : RoomFiles → Bool)
    (openedAs filledAs : RoomFiles → RoomFiles) : RoomProg μ Unit := do
  .action (fun w => if present w.files then .existed file else .created file) (fun _ => true)
    (fun w => if present w.files then w else { w with files := openedAs w.files })
    (fun w => if present w.files then .error .fileExists else .ok ())
  .update (fun _ => .filled file) fun w => { w with files := filledAs w.files }
  .update (fun _ => .chmod file) id

/-- `writeJson(paths.state, …)`: the file is replaced atomically. -/
def writeState (purpose : StateWrite) (state : RoomState) : RoomProg μ Unit :=
  .update (fun _ => .wroteState purpose state) fun w =>
    { w with files := { w.files with state := .whole state } }

def writeParticipantsFile (participants : List Participant) : RoomProg μ Unit :=
  .update (fun _ => .wroteParticipants participants) fun w =>
    { w with files := { w.files with participants := .whole participants } }

def writeBriefFile (body : String) : RoomProg μ Unit :=
  .update (fun _ => .wroteBrief body) fun w =>
    { w with files := { w.files with brief := .whole body } }

/-- `appendJsonLine(paths.messages, …)`: the line, then the mode, which may fail behind
it. -/
def appendJsonLine (message : Message) : RoomProg μ Unit := do
  .update (fun _ => .appended message) fun w =>
    { w with files := { w.files with messages := .whole (w.files.log ++ [message]) } }
  .update (fun _ => .chmod .messages) id

/-- `readJsonLines(paths.messages)`. -/
def readJsonLines : RoomProg μ (List Message) :=
  .query (fun _ => .readMessages) fun w => w.files.messages.read

end Steps

end AgentGather.Storage
