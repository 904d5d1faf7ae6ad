import AgentGather.Library.Json
import AgentGather.Library.RelyGuarantee
import AgentGather.Library.Time
import AgentGather.Protocol.Types

/-!
# The writer lock

The lock is a file that is opened exclusively and holds the record of its owner.  Whoever finds it
there looks at the record: the lock of a dead process is removed, under a second lock of the same
kind, and a second lock that is abandoned is taken over by renaming it.  Every call of the file
system is one step, may fail, and may be the last one of its process.
-/

namespace AgentGather.Storage.WriterLock

open AgentGather.Library AgentGather.Protocol

/-! ## The file system -/

/-- `lockPath`, `${lockPath}.reclaim`, and the scratch names beside it. -/
inductive LockPath where
  | lock
  | reclaim
  | takeover (process counter : Nat)
deriving DecidableEq, Repr

structure LockFile where
  raw : List Char
  mtime : Nat
deriving DecidableEq, Repr

/-- Names stand for files, which are numbered; `fresh` is the next number.  `counters` are the
`takeoverCounter`s of the processes. -/
structure Disk where
  names : LockPath → Option Nat
  files : Nat → LockFile
  fresh : Nat
  now : Nat
  alive : Int → Bool
  counters : Nat → Nat

/-- A step on the file system, with what it saw. -/
inductive LockStep where
  | clock
  | opened (path : LockPath) (file : Nat)
  | existed (path : LockPath)
  | wrote (file : Nat) (raw : List Char)
  | closed
  /-- `chmod` of the lock, the last step of taking it. -/
  | locked
  | chmodMissing
  | read (path : LockPath)
  | probed (path : LockPath) (alive : Bool)
  | aged (path : LockPath) (older : Bool)
  | removed (path : LockPath)
  | counted (process : Nat)
  | renamed (source target : LockPath)
  | linked (source target : LockPath)
  | worked
  | elapsed (ms : Nat)
deriving DecidableEq, Repr

def LockStep.mayFail : LockStep → Failure → Bool
  | .clock, _ | .probed _ _, _ | .counted _, _ | .elapsed _, _ => false
  | _, .os => true
  | _, _ => false

/-- What a step does to the file system. -/
def LockStep.apply : LockStep → Disk → Disk
  | .opened path file, w =>
      { w with
        names := Function.update w.names path (some file)
        files := Function.update w.files file ⟨[], w.now⟩
        fresh := w.fresh + 1 }
  | .wrote file raw, w => { w with files := Function.update w.files file ⟨raw, w.now⟩ }
  | .removed path, w => { w with names := Function.update w.names path none }
  | .counted process, w =>
      { w with counters := Function.update w.counters process (w.counters process + 1) }
  | .renamed source target, w =>
      { w with
        names := Function.update (Function.update w.names target (w.names source)) source none }
  | .linked source target, w =>
      { w with names := Function.update w.names target (w.names source) }
  | .elapsed ms, w => { w with now := w.now + ms }
  | _, w => w

abbrev LockProg := Prog Disk LockStep Failure

/-- The step that the file system calls for, and what it answers. -/
def perform {α : Type} (label : Disk → LockStep) (result : Disk → Except Failure α) :
    LockProg α :=
  .action label (fun _ => true) (fun w => (label w).apply w) result

/-- `Date.now()` -/
def clockNow : LockProg Nat := perform (fun _ => .clock) fun w => .ok w.now

/-- `open(path, "wx")` -/
def openExclusive (path : LockPath) : LockProg Nat :=
  perform (fun w => if (w.names path).isSome then .existed path else .opened path w.fresh)
    fun w => if (w.names path).isSome then .error .fileExists else .ok w.fresh

/-- The file behind the handle is written, whatever its name stands for by now. -/
def writeFile (file : Nat) (raw : List Char) : LockProg Unit :=
  perform (fun _ => .wrote file raw) fun _ => .ok ()

def close : LockProg Unit := perform (fun _ => .closed) fun _ => .ok ()

def chmodLock : LockProg Unit :=
  perform (fun w => if (w.names .lock).isSome then .locked else .chmodMissing)
    fun w => if (w.names .lock).isSome then .ok () else .error .notFound

def readFile (path : LockPath) : LockProg (List Char) :=
  perform (fun _ => .read path) fun w =>
    match w.names path with
    | some file => .ok (w.files file).raw
    | none => .error .notFound

/-- What cannot be read, for whatever reason, is nothing. -/
def tryReadFile (path : LockPath) : LockProg (Option (List Char)) :=
  ((readFile path).bind fun raw => .ret (some raw)).catchErr fun _ => .ret none

/-- `rm` with `force` -/
def rm (path : LockPath) : LockProg Unit := perform (fun _ => .removed path) fun _ => .ok ()

def rename (source target : LockPath) : LockProg Unit :=
  perform (fun w => if (w.names source).isSome then .renamed source target else .read source)
    fun w => if (w.names source).isSome then .ok () else .error .notFound

/-- A second name for the same file; the name must be free. -/
def link (source target : LockPath) : LockProg Unit :=
  perform
    (fun w =>
      if (w.names source).isNone then .read source
      else if (w.names target).isSome then .existed target
      else .linked source target)
    fun w =>
      if (w.names source).isNone then .error .notFound
      else if (w.names target).isSome then .error .fileExists
      else .ok ()

/-! ## Records -/

/-- `JSON.stringify(record)` -/
def lockRecord (pid createdAt : Nat) : List Char :=
  Json.print (.obj [("pid", .num pid), ("createdAt", .str (Time.isoString createdAt))])

/-- The number of a process that a record names; it may be none that a process can have. -/
inductive Pid where
  | whole (pid : Int)
  | other
deriving DecidableEq, Repr

/-- `parsed.pid`, where it is a number. -/
def recordPid (raw : List Char) : Option Pid :=
  match (Json.parse raw).bind (Json.field? "pid") with
  | some (.num pid) => some (.whole pid)
  | some (.real _) => some .other
  | _ => none

/-- Signal zero finds no process only where there is none. -/
def Disk.isAlive (w : Disk) : Pid → Bool
  | .whole pid => w.alive pid
  | .other => true

def isProcessAlive (path : LockPath) (pid : Pid) : LockProg Bool :=
  perform (fun w => .probed path (w.isAlive pid)) fun w => .ok (w.isAlive pid)

/-- A file that is missing is not old. -/
def Disk.isOlder (w : Disk) (path : LockPath) (ageMs : Nat) : Bool :=
  match w.names path with
  | some file => decide ((w.files file).mtime + ageMs ≤ w.now)
  | none => false

def isOlderThan (path : LockPath) (ageMs : Nat) : LockProg Bool :=
  (perform (fun w => .aged path (w.isOlder path ageMs)) fun w =>
    .ok (w.isOlder path ageMs)).catchErr fun _ => .ret false

/-! ## Reclaiming -/

/-- A scratch name that the process has not used. -/
def takeoverName (process : Nat) : LockProg LockPath :=
  perform (fun _ => .counted process) fun w => .ok (.takeover process (w.counters process))

/-- The file is renamed before it is deleted, and linked back if it is another one by then. -/
def takeOverAbandonedFile (process : Nat) (path : LockPath) (expectedRaw : List Char) :
    LockProg Unit := do
  let moved ← takeoverName process
  let taken ← ((rename path moved).bind fun _ => .ret true).catchErr fun e =>
    if e = .notFound then .ret false else .err e
  if !taken then return
  let movedRaw ← tryReadFile moved
  if movedRaw = some expectedRaw then rm moved
  else
    (link moved path).catchErr fun e => if e = .fileExists then .ret () else .err e
    rm moved

def clearAbandonedReclaimLock (process staleAfterMs : Nat) : LockProg Unit := do
  match ← tryReadFile .reclaim with
  | none => return
  | some raw =>
      let abandoned ← match recordPid raw with
        | some pid => (isProcessAlive .reclaim pid).bind fun alive => .ret !alive
        | none => isOlderThan .reclaim staleAfterMs
      if abandoned then takeOverAbandonedFile process .reclaim raw

/-- The reclaim lock with the record of this process. -/
def openReclaim (process : Nat) : LockProg Unit := do
  let file ← openExclusive .reclaim
  (do
    let now ← clockNow
    writeFile file (lockRecord process now) : LockProg Unit).finallyDo close

/-- Under the reclaim lock the file is removed only if it is still the one that was judged. -/
def removeIfUnchanged (expectedRaw : List Char) : LockProg Bool := do
  let current ← ((readFile .lock).bind fun raw => .ret (.inl raw)).catchErr fun e =>
    .ret (.inr (decide (e = .notFound)))
  match (current : List Char ⊕ Bool) with
  | .inr missing => return missing
  | .inl raw =>
      if raw ≠ expectedRaw then return false
      rm .lock
      return true

def reclaimStaleRecord (process staleAfterMs : Nat) (expectedRaw : List Char) :
    LockProg Bool := do
  let owned ← ((openReclaim process).bind fun _ => .ret true).catchErr fun e =>
    if e = .fileExists then
      (clearAbandonedReclaimLock process staleAfterMs).bind fun _ => .ret false
    else .err e
  if owned then (removeIfUnchanged expectedRaw).finallyDo (rm .reclaim) else return false

def removeStaleLock (process staleAfterMs : Nat) : LockProg Bool := do
  match ← tryReadFile .lock with
  | none => return false
  | some raw =>
      match recordPid raw with
      | some pid =>
          if ← isProcessAlive .lock pid then return false
          else reclaimStaleRecord process staleAfterMs raw
      | none =>
          if ← isOlderThan .lock staleAfterMs then
            reclaimStaleRecord process staleAfterMs raw
          else return false

/-! ## Acquiring -/

structure LockOptions where
  timeoutMs : Nat
  staleAfterMs : Nat
deriving DecidableEq, Repr

/-- The file is made, filled and closed, and then the lock is taken. -/
def createLock (record : List Char) : LockProg Unit := do
  let file ← openExclusive .lock
  writeFile file record
  close
  chmodLock

/-- The rounds of the loop, of which there is some number before the time is out.  A round that
neither takes the lock nor clears it sleeps, which is to say that others act. -/
def acquireRounds (process : Nat) (o : LockOptions) (startedAt : Nat) (record : List Char) :
    Nat → LockProg Unit
  | 0 => .err (.error "timed out waiting for writer lock")
  | rounds + 1 => do
      let acquired ← ((createLock record).bind fun _ => .ret true).catchErr fun e =>
        if e = .fileExists then do
          let now ← clockNow
          if o.timeoutMs < now - startedAt then
            throw (.error "timed out waiting for writer lock")
          let _ ← removeStaleLock process o.staleAfterMs
          return false
        else .err e
      if acquired then return else acquireRounds process o startedAt record rounds

def acquireWriterLock (process rounds : Nat) (o : LockOptions) : LockProg Unit := do
  let startedAt ← clockNow
  let createdAt ← clockNow
  acquireRounds process o startedAt (lockRecord process createdAt) rounds

/-- What is done under the lock, as far as the lock is concerned: some steps, and a failure. -/
def work (fails : Bool) : Nat → LockProg Unit
  | 0 => if fails then .err .os else .ret ()
  | steps + 1 => (perform (fun _ => .worked) fun _ => .ok ()).bind fun _ => work fails steps

def withWriterLock (process rounds : Nat) (o : LockOptions) (steps : Nat) (fails : Bool) :
    LockProg Unit := do
  acquireWriterLock process rounds o
  (work fails steps).finallyDo (rm .lock)

/-! ## Callers -/

inductive LockCall where
  | withWriterLock (rounds : Nat) (o : LockOptions) (steps : Nat) (fails : Bool)
  /-- Time passes. -/
  | elapse (ms : Nat)
deriving DecidableEq, Repr

def LockCall.prog (process : Nat) : LockCall → LockProg Unit
  | .withWriterLock rounds o steps fails => WriterLock.withWriterLock process rounds o steps fails
  | .elapse ms => perform (fun _ => .elapsed ms) fun _ => .ok ()

/-- The number of a process is its pid, which no other process ever has. -/
def lockSystem (process : Nat → Nat) : System Disk LockStep Failure where
  process := process
  faults := LockStep.mayFail
  crash p := some fun w => { w with alive := Function.update w.alive (p : Int) false }

/-- The callers before any has begun. -/
def initial (process : Nat → Nat) (w : Disk) (calls : List LockCall) :
    Config Disk LockStep Failure Unit :=
  ⟨⟨w, []⟩, calls.mapIdx fun t call => some (call.prog (process t))⟩

end AgentGather.Storage.WriterLock
