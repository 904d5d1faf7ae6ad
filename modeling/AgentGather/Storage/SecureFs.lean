import AgentGather.Library.RelyGuarantee
import AgentGather.Library.Text
import AgentGather.Protocol.Types

/-!
# Replacing a file

The steps of `writeSecureFile` on one target, with the directory that names its files and the
contents that the names stand for.  A payload is written byte by byte into a file of its own, which
a rename makes the target; every step may fail, and a process may stop between two steps.  A reader
opens the target and reads byte by byte what it opened, whatever the name stands for meanwhile.
-/

namespace AgentGather.Storage.SecureFs

open AgentGather.Library AgentGather.Protocol

abbrev Name := List Char

/-- The names stand for files, which are numbered; `fresh` is the next number.  `counters` are the
`tempCounter`s of the processes. -/
structure Disk where
  directory : Bool
  names : Name → Option Nat
  contents : Nat → List UInt8
  fresh : Nat
  counters : Nat → Nat

/-- What the name stands for, if it stands for anything. -/
def Disk.read (w : Disk) (name : Name) : Option (List UInt8) := (w.names name).map w.contents

/-- A step on the disk, with what it saw.  `renamed` shows the payload of its call. -/
inductive FileStep where
  | madeDirectory
  | chmodDirectory
  | counted (process : Nat)
  | named (process : Nat) (temp : Name)
  | opened (temp : Name) (file : Nat)
  | refused (temp : Name)
  | wrote (file : Nat) (byte : UInt8)
  | synced
  | closed
  | chmod (temp : Name)
  | renamed (temp : Name) (file : Nat) (payload : List UInt8)
  | notRenamed (temp : Name)
  | removed (temp : Name)
  | readerOpened
  | readerRead
deriving DecidableEq, Repr

/-- Every step on a file may fail.  Counting is no such step. -/
def FileStep.mayFail : FileStep → Failure → Bool
  | .counted _, _ => false
  | .named _ _, _ => false
  | _, .os => true
  | _, _ => false

/-- What a step does to the disk. -/
def FileStep.apply (target : Name) : FileStep → Disk → Disk
  | .madeDirectory, w => { w with directory := true }
  | .counted p, w => { w with counters := Function.update w.counters p (w.counters p + 1) }
  | .named p _, w => { w with counters := Function.update w.counters p (w.counters p + 1) }
  | .opened temp file, w =>
      { w with
        names := Function.update w.names temp (some file)
        contents := Function.update w.contents file []
        fresh := w.fresh + 1 }
  | .wrote file byte, w =>
      { w with contents := Function.update w.contents file (w.contents file ++ [byte]) }
  | .renamed temp file _, w =>
      { w with names := Function.update (Function.update w.names temp none) target (some file) }
  | .removed temp, w => { w with names := Function.update w.names temp none }
  | _, w => w

abbrev FileProg := Prog Disk FileStep Failure

section Calls

variable (target : Name)

/-- The step that the disk calls for, and what it answers. -/
def perform {α : Type} (label : Disk → FileStep) (result : Disk → Except Failure α) :
    FileProg α :=
  .action label (fun _ => true) (fun w => (label w).apply target w) result

/-- `mkdir` with its parents, where it is missing, and the mode. -/
def ensureSecureDir : FileProg Unit := do
  perform target (fun _ => .madeDirectory) fun _ => .ok ()
  (perform target (fun _ => .chmodDirectory) fun w =>
      if w.directory then .ok () else .error .notFound).catchErr fun e =>
    if e = .notFound then .ret () else .err e

/-- `${file}.tmp-${process.pid}-${tempCounter}` -/
def tempName (pid counter : Nat) : Name :=
  target ++ ".tmp-".toList ++ Nat.toDigits 10 pid ++ "-".toList ++ Nat.toDigits 10 counter

/-- The name with the counter, which goes up by one. -/
def nextTemp (process pid : Nat) : FileProg Name :=
  perform target (fun w => .named process (tempName target pid (w.counters process)))
    fun w => .ok (tempName target pid (w.counters process))

/-- `open(temp, "wx")`: the file is made, and must not have been there. -/
def openExclusive (temp : Name) : FileProg Nat :=
  perform target
    (fun w =>
      if w.directory = false ∨ (w.names temp).isSome then .refused temp
      else .opened temp w.fresh)
    fun w =>
      if w.directory = false then .error .notFound
      else if (w.names temp).isSome then .error .fileExists
      else .ok w.fresh

/-- `handle.writeFile`, which can stop at every byte. -/
def writeBytes (file : Nat) : List UInt8 → FileProg Unit
  | [] => .ret ()
  | byte :: bytes =>
      (perform target (fun _ => .wrote file byte) fun _ => .ok ()).bind fun _ =>
        writeBytes file bytes

def sync : FileProg Unit := perform target (fun _ => .synced) fun _ => .ok ()

def close : FileProg Unit := perform target (fun _ => .closed) fun _ => .ok ()

/-- A file that is missing has no mode to change. -/
def chmodIfPresent (temp : Name) : FileProg Unit :=
  (perform target (fun _ => .chmod temp) fun w =>
      if (w.names temp).isSome then .ok () else .error .notFound).catchErr fun e =>
    if e = .notFound then .ret () else .err e

def rename (temp : Name) (payload : List UInt8) : FileProg Unit :=
  perform target
    (fun w =>
      match w.names temp with
      | some file => .renamed temp file payload
      | none => .notRenamed temp)
    fun w => if (w.names temp).isSome then .ok () else .error .notFound

/-- `rm` with `force`: a file that is missing is no error. -/
def rm (temp : Name) : FileProg Unit := perform target (fun _ => .removed temp) fun _ => .ok ()

/-- The payload into the file behind the handle, which is closed either way. -/
def fill (file : Nat) (payload : List UInt8) : FileProg Unit :=
  ((writeBytes target file payload).bind fun _ => sync target).finallyDo (close target)

/-- The body of the `try` of `writeSecureFile`. -/
def replaceVia (temp : Name) (payload : List UInt8) : FileProg Unit := do
  let file ← openExclusive target temp
  fill target file payload
  chmodIfPresent target temp
  rename target temp payload

def writeSecureFile (process pid : Nat) (payload : List UInt8) : FileProg Unit := do
  ensureSecureDir target
  let temp ← nextTemp target process pid
  (replaceVia target temp payload).catchErr fun e => do
    rm target temp
    throw e

/-- A reader goes on behind what it has, as often as it has patience, up to the end. -/
def readBytes (file : Nat) : Nat → List UInt8 → FileProg (List UInt8)
  | 0, _ => .err .os
  | patience + 1, found =>
      (perform target (fun _ => .readerRead) fun w => .ok (w.contents file)[found.length]?).bind
        fun next =>
          match next with
          | none => .ret found
          | some byte => readBytes file patience (found ++ [byte])

/-- A reader of the target. -/
def readTarget (patience : Nat) : FileProg (List UInt8) := do
  let file ← perform target (fun _ => .readerOpened) fun w =>
    match w.names target with
    | some file => .ok file
    | none => .error .notFound
  readBytes target file patience []

end Calls

/-- What a thread does: it replaces the target, reads it, or calls `writeSecureFile` on another
file, of which only the counter is seen here. -/
inductive Call where
  | write (payload : List UInt8)
  | read (patience : Nat)
  | elsewhere
deriving DecidableEq, Repr

/-- A writer returns nothing, a reader what it has read. -/
def Call.run (target : Name) (process pid : Nat) : Call → FileProg (Option (List UInt8))
  | .write payload => (writeSecureFile target process pid payload).bind fun _ => .ret none
  | .read patience => (readTarget target patience).bind fun bytes => .ret (some bytes)
  | .elsewhere =>
      (perform target (fun _ => .counted process) fun _ => .ok ()).bind fun _ => .ret none

/-- Every step on a file may fail, and every process may stop. -/
def fileSystem (process : Nat → Nat) : System Disk FileStep Failure where
  process := process
  faults := FileStep.mayFail
  crash _ := some id

/-- A process acts only while no other of the same number is alive: one that has acted has
stopped. -/
def PidsApart (process pid : Nat → Nat) (e : Event FileStep) (x : Snapshot Disk FileStep) : Prop :=
  ∀ t u, e.isOf t = true → process u ≠ process t → pid (process u) = pid (process t) →
    (∃ e' ∈ x.trace, e'.isOf u = true) → .crashed (process u) ∈ x.trace

/-- The calls before any has begun, on a disk as it was left. -/
def initial (target : Name) (process pid : Nat → Nat) (w : Disk) (calls : List Call) :
    Config Disk FileStep Failure (Option (List UInt8)) :=
  ⟨⟨w, []⟩, calls.mapIdx fun t call =>
    some (call.run target (process t) (pid (process t)))⟩

/-- No name stands for a file that is still to be made. -/
def Disk.WellFormed (w : Disk) : Prop := ∀ name file, w.names name = some file → file < w.fresh

/-! ## The target as one value -/

/-- The target as it is replaced: the payload of the last rename, the latest event first. -/
def lastPayload (before : Option (List UInt8)) : List (Event FileStep) → Option (List UInt8)
  | [] => before
  | .ran _ (.renamed _ _ payload) :: _ => some payload
  | _ :: es => lastPayload before es

/-! ## Names of temporary files -/

theorem dash_not_mem_toDigits (n : Nat) : '-' ∉ Nat.toDigits 10 n := by
  intro h
  have hdigit : '-'.isDigit = true := Nat.isDigit_of_mem_toDigits (by decide) (by decide) h
  cases hdigit

theorem toDigits_injective {m n : Nat} (h : Nat.toDigits 10 m = Nat.toDigits 10 n) : m = n := by
  have hread := congrArg (fun digits => Nat.ofDigitChars 10 digits 0) h
  simpa only [Nat.ofDigitChars_ten_toDigits] using hread

/-- The name tells the number of the process and the counter. -/
theorem tempName_injective {target : Name} {pid counter pid' counter' : Nat}
    (h : tempName target pid counter = tempName target pid' counter') :
    pid = pid' ∧ counter = counter' := by
  simp only [tempName, List.append_assoc] at h
  have hdigits := List.append_cancel_left (List.append_cancel_left h)
  have hdash : "-".toList = ['-'] := by decide
  rw [hdash, List.singleton_append, List.singleton_append] at hdigits
  obtain ⟨hpid, hcounter⟩ :=
    Text.append_separator_inj (dash_not_mem_toDigits _) (dash_not_mem_toDigits _) hdigits
  exact ⟨toDigits_injective hpid, toDigits_injective hcounter⟩

theorem tempName_ne (target : Name) (pid counter : Nat) : tempName target pid counter ≠ target := by
  intro h
  have hlength := congrArg List.length h
  simp only [tempName, List.length_append] at hlength
  have hdash : ".tmp-".toList.length = 5 := by decide
  omega

end AgentGather.Storage.SecureFs
