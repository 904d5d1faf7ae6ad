import AgentGather.Storage.WriterLock

/-!
# An abandoned lock is recovered

A caller that nobody interferes with gets the lock whatever its former owners left behind: a lock
whose owner is dead or never got to write its record, under a reclaim lock that was itself left
behind, takes three rounds.
-/

namespace AgentGather.Storage.WriterLock

open AgentGather.Library AgentGather.Protocol

/-- The file is left behind: its owner is dead, or it names no owner and is old. -/
def Disk.isStale (w : Disk) (path : LockPath) (staleAfterMs : Nat) : Bool :=
  match w.names path with
  | none => false
  | some file =>
      match recordPid (w.files file).raw with
      | some pid => !w.isAlive pid
      | none => w.isOlder path staleAfterMs

/-- What is left of a disk where files may have been made, and the names of `touched` changed. -/
structure Leaves (touched : List LockPath) (w w' : Disk) : Prop where
  names : ∀ path, path ∉ touched → w'.names path = w.names path
  files : ∀ file < w.fresh, w'.files file = w.files file
  fresh : w.fresh ≤ w'.fresh
  alive : w'.alive = w.alive
  now : w'.now = w.now

namespace Leaves

variable {touched more : List LockPath} {w w' w'' : Disk}

theorem refl (touched : List LockPath) (w : Disk) : Leaves touched w w :=
  ⟨fun _ _ => rfl, fun _ _ => rfl, le_refl _, rfl, rfl⟩

theorem trans (h : Leaves touched w w') (h' : Leaves touched w' w'') : Leaves touched w w'' where
  names path hpath := (h'.names path hpath).trans (h.names path hpath)
  files file hlt := (h'.files file (hlt.trans_le h.fresh)).trans (h.files file hlt)
  fresh := h.fresh.trans h'.fresh
  alive := h'.alive.trans h.alive
  now := h'.now.trans h.now

theorem mono (h : Leaves touched w w') (hsub : touched ⊆ more) : Leaves more w w' where
  names path hpath := h.names path fun hmem => hpath (hsub hmem)
  files := h.files
  fresh := h.fresh
  alive := h.alive
  now := h.now

/-- A file that is left alone is as stale as it was. -/
theorem isStale_eq (h : Leaves touched w w') {path : LockPath} (hpath : path ∉ touched)
    (hfresh : ∀ file, w.names path = some file → file < w.fresh) (staleAfterMs : Nat) :
    w'.isStale path staleAfterMs = w.isStale path staleAfterMs := by
  unfold Disk.isStale Disk.isOlder
  rw [h.names path hpath]
  cases hname : w.names path with
  | none => rfl
  | some file =>
      dsimp only
      rw [h.files file (hfresh file hname), h.now]
      cases recordPid (w.files file).raw with
      | none => rfl
      | some pid =>
          cases pid with
          | whole pid => simp only [Disk.isAlive, h.alive]
          | other => rfl

end Leaves

/-! ## Single steps -/

section Steps

variable {α : Type} (w : Disk)

theorem runAlone_perform (label : Disk → LockStep) (result : Disk → Except Failure α) :
    (perform label result).runAlone w = (result w, (label w).apply w) :=
  Prog.runAlone_action _ _ _ _ w

theorem runAlone_clockNow : clockNow.runAlone w = (.ok w.now, w) := runAlone_perform w _ _

theorem runAlone_rm (path : LockPath) :
    (rm path).runAlone w = (.ok (), (LockStep.removed path).apply w) := runAlone_perform w _ _

theorem runAlone_close : close.runAlone w = (.ok (), w) := runAlone_perform w _ _

theorem runAlone_openExclusive_free {path : LockPath} (h : w.names path = none) :
    (openExclusive path).runAlone w = (.ok w.fresh, (LockStep.opened path w.fresh).apply w) := by
  rw [openExclusive, runAlone_perform]
  simp only [h, Option.isSome_none, Bool.false_eq_true, if_false]

theorem runAlone_openExclusive_taken {path : LockPath} {file : Nat}
    (h : w.names path = some file) :
    (openExclusive path).runAlone w = (.error .fileExists, w) := by
  rw [openExclusive, runAlone_perform]
  simp only [h, Option.isSome_some, if_true]
  rfl

theorem runAlone_readFile {path : LockPath} {file : Nat} (h : w.names path = some file) :
    (readFile path).runAlone w = (.ok (w.files file).raw, w) := by
  rw [readFile, runAlone_perform, h]
  rfl

theorem runAlone_tryReadFile {path : LockPath} {file : Nat} (h : w.names path = some file) :
    (tryReadFile path).runAlone w = (.ok (some (w.files file).raw), w) := by
  rw [tryReadFile, Prog.runAlone_catchErr, Prog.runAlone_bind, runAlone_readFile w h]
  rfl

theorem runAlone_rename {source target : LockPath} {file : Nat}
    (h : w.names source = some file) :
    (rename source target).runAlone w = (.ok (), (LockStep.renamed source target).apply w) := by
  rw [rename, runAlone_perform]
  simp only [h, Option.isSome_some, if_true]

theorem runAlone_isProcessAlive (path : LockPath) (pid : Pid) :
    (isProcessAlive path pid).runAlone w = (.ok (w.isAlive pid), w) := runAlone_perform w _ _

theorem runAlone_isOlderThan (path : LockPath) (ageMs : Nat) :
    (isOlderThan path ageMs).runAlone w = (.ok (w.isOlder path ageMs), w) := by
  rw [isOlderThan, Prog.runAlone_catchErr, runAlone_perform]
  rfl

end Steps

/-! ## Reclaiming -/

section Reclaiming

variable {w : Disk} {process staleAfterMs : Nat}

/-- The scratch name that the process uses next. -/
def Disk.scratch (w : Disk) (process : Nat) : LockPath := .takeover process (w.counters process)

/-- An abandoned file that nobody replaces goes, and the scratch name with it. -/
theorem runAlone_takeOverAbandonedFile {path : LockPath} {file : Nat}
    (hname : w.names path = some file) (hpath : path ≠ w.scratch process) :
    ∃ w', (takeOverAbandonedFile process path (w.files file).raw).runAlone w = (.ok (), w') ∧
      w'.names path = none ∧ Leaves [path, w.scratch process] w w' := by
  obtain ⟨w₁, hw₁⟩ : ∃ w₁, (LockStep.counted process).apply w = w₁ := ⟨_, rfl⟩
  obtain ⟨w₂, hw₂⟩ : ∃ w₂, (LockStep.renamed path (w.scratch process)).apply w₁ = w₂ := ⟨_, rfl⟩
  have hname₁ : w₁.names path = some file := by rw [← hw₁]; exact hname
  have hname₂ : w₂.names (w.scratch process) = some file := by
    rw [← hw₂]
    change Function.update (Function.update w₁.names _ (w₁.names path)) path none _ = some file
    rw [Function.update_of_ne hpath.symm, Function.update_self, hname₁]
  have hfile₂ : w₂.files file = w.files file := by rw [← hw₂, ← hw₁]; rfl
  have hcount : (takeoverName process).runAlone w = (.ok (w.scratch process), w₁) := by
    rw [takeoverName, runAlone_perform, ← hw₁]
    rfl
  refine ⟨(LockStep.removed (w.scratch process)).apply w₂, ?_, ?_, ?_⟩
  · unfold takeOverAbandonedFile
    simp only [Prog.bind_eq_bind, Prog.runAlone_bind, Prog.runAlone_catchErr, hcount,
      runAlone_rename w₁ hname₁, hw₂, Prog.runAlone_ret, Bool.not_true, Bool.false_eq_true,
      if_false, runAlone_tryReadFile w₂ hname₂, hfile₂, if_true, runAlone_rm]
  · rw [← hw₂]
    change Function.update (Function.update (Function.update w₁.names (w.scratch process)
      (w₁.names path)) path none) (w.scratch process) none path = none
    rw [Function.update_of_ne hpath, Function.update_self]
  · rw [← hw₂, ← hw₁]
    refine ⟨fun other hother => ?_, fun _ _ => rfl, le_refl _, rfl, rfl⟩
    rw [List.mem_cons, List.mem_singleton, not_or] at hother
    change Function.update (Function.update (Function.update w.names _ (w.names path)) path none)
      (w.scratch process) none other = w.names other
    rw [Function.update_of_ne hother.2, Function.update_of_ne hother.1,
      Function.update_of_ne hother.2]

/-- A stale file is judged so. -/
theorem isStale_cases {path : LockPath} (h : w.isStale path staleAfterMs = true) :
    ∃ file, w.names path = some file ∧
      ((∃ pid, recordPid (w.files file).raw = some pid ∧ w.isAlive pid = false) ∨
        recordPid (w.files file).raw = none ∧ w.isOlder path staleAfterMs = true) := by
  unfold Disk.isStale at h
  split at h
  · cases h
  · rename_i file hname
    refine ⟨file, hname, ?_⟩
    split at h
    · rename_i pid hpid
      exact .inl ⟨pid, hpid, Bool.not_eq_true' _ ▸ h⟩
    · rename_i hpid
      exact .inr ⟨hpid, h⟩

theorem runAlone_clearAbandonedReclaimLock (process : Nat)
    (h : w.isStale .reclaim staleAfterMs = true) :
    ∃ w', (clearAbandonedReclaimLock process staleAfterMs).runAlone w = (.ok (), w') ∧
      w'.names .reclaim = none ∧ Leaves [.reclaim, w.scratch process] w w' := by
  obtain ⟨file, hname, hjudged⟩ := isStale_cases h
  have hpath : LockPath.reclaim ≠ w.scratch process := fun heq => by cases heq
  obtain ⟨w', hrun, hgone⟩ := runAlone_takeOverAbandonedFile hname hpath
  refine ⟨w', ?_, hgone⟩
  unfold clearAbandonedReclaimLock
  simp only [Prog.bind_eq_bind, Prog.runAlone_bind, runAlone_tryReadFile w hname]
  rcases hjudged with ⟨pid, hpid, hdead⟩ | ⟨hpid, hold⟩
  · simp only [hpid, Prog.runAlone_bind, runAlone_isProcessAlive, hdead, Prog.runAlone_ret,
      Bool.not_false, if_true, hrun]
  · simp only [hpid, Prog.runAlone_bind, runAlone_isOlderThan, hold, if_true, hrun]

/-- The file that a caller makes, fills and closes. -/
def Disk.made (w : Disk) (path : LockPath) (raw : List Char) : Disk :=
  (LockStep.wrote w.fresh raw).apply ((LockStep.opened path w.fresh).apply w)

theorem made_names (w : Disk) (path : LockPath) (raw : List Char) :
    (w.made path raw).names path = some w.fresh := by
  change Function.update w.names path (some w.fresh) path = _
  rw [Function.update_self]

theorem made_leaves (w : Disk) (path : LockPath) (raw : List Char) :
    Leaves [path] w (w.made path raw) where
  names other hother := Function.update_of_ne (fun heq => hother (List.mem_singleton.mpr heq)) _ _
  files file hlt := by
    change Function.update (Function.update w.files w.fresh _) w.fresh _ file = _
    rw [Function.update_of_ne hlt.ne, Function.update_of_ne hlt.ne]
  fresh := Nat.le_succ _
  alive := rfl
  now := rfl

theorem removed_leaves (w : Disk) (path : LockPath) :
    Leaves [path] w ((LockStep.removed path).apply w) where
  names _ hother := Function.update_of_ne (fun heq => hother (List.mem_singleton.mpr heq)) _ _
  files _ _ := rfl
  fresh := le_refl _
  alive := rfl
  now := rfl

theorem removed_names (w : Disk) (path : LockPath) :
    ((LockStep.removed path).apply w).names path = none := by
  change Function.update w.names path none path = none
  rw [Function.update_self]

theorem runAlone_openReclaim (h : w.names .reclaim = none) :
    (openReclaim process).runAlone w = (.ok (), w.made .reclaim (lockRecord process w.now)) := by
  unfold openReclaim
  simp only [Prog.bind_eq_bind, Prog.runAlone_bind, runAlone_openExclusive_free w h,
    Prog.runAlone_finallyDo, runAlone_clockNow, writeFile, runAlone_perform, runAlone_close]
  rfl

theorem runAlone_removeIfUnchanged {file : Nat} (h : w.names .lock = some file) :
    (removeIfUnchanged (w.files file).raw).runAlone w =
      (.ok true, (LockStep.removed .lock).apply w) := by
  unfold removeIfUnchanged
  simp only [Prog.bind_eq_bind, Prog.runAlone_bind, Prog.runAlone_catchErr,
    runAlone_readFile w h, Prog.runAlone_ret, Prog.pure_eq_ret, ne_eq, not_true_eq_false, if_false,
    runAlone_rm]

/-- Under a reclaim lock that is left behind, the reclaim lock goes first. -/
theorem runAlone_reclaimStaleRecord_clears (process : Nat) (raw : List Char)
    (h : w.isStale .reclaim staleAfterMs = true) :
    ∃ w', (reclaimStaleRecord process staleAfterMs raw).runAlone w = (.ok false, w') ∧
      w'.names .reclaim = none ∧ Leaves [.reclaim, w.scratch process] w w' := by
  obtain ⟨file, hname, -⟩ := isStale_cases h
  obtain ⟨w', hrun, hgone⟩ := runAlone_clearAbandonedReclaimLock process h
  refine ⟨w', ?_, hgone⟩
  unfold reclaimStaleRecord openReclaim
  simp only [Prog.bind_eq_bind, Prog.runAlone_bind, Prog.runAlone_catchErr,
    runAlone_openExclusive_taken w hname, if_true, hrun, Prog.runAlone_ret, Bool.false_eq_true,
    if_false, Prog.pure_eq_ret]

/-- Under a free reclaim lock the stale lock goes, and the reclaim lock is free again. -/
theorem runAlone_reclaimStaleRecord_removes (process staleAfterMs : Nat) {file : Nat}
    (h : w.names .reclaim = none) (hname : w.names .lock = some file) (hlt : file < w.fresh) :
    ∃ w', (reclaimStaleRecord process staleAfterMs (w.files file).raw).runAlone w =
        (.ok true, w') ∧ w'.names .lock = none ∧ w'.names .reclaim = none ∧
      Leaves [.lock, .reclaim] w w' := by
  obtain ⟨w₁, hw₁⟩ : ∃ w₁, w.made .reclaim (lockRecord process w.now) = w₁ := ⟨_, rfl⟩
  have hleaves := made_leaves w .reclaim (lockRecord process w.now)
  rw [hw₁] at hleaves
  have hname₁ : w₁.names .lock = some file := (hleaves.names .lock (by decide)).trans hname
  have hremove := runAlone_removeIfUnchanged hname₁
  rw [hleaves.files file hlt] at hremove
  refine ⟨(LockStep.removed .reclaim).apply ((LockStep.removed .lock).apply w₁), ?_, ?_,
    removed_names _ _, ?_⟩
  · unfold reclaimStaleRecord
    simp only [Prog.bind_eq_bind, Prog.runAlone_bind, Prog.runAlone_catchErr,
      runAlone_openReclaim h, hw₁, Prog.runAlone_ret, if_true, Prog.runAlone_finallyDo, hremove,
      runAlone_rm]
  · exact ((removed_leaves _ .reclaim).names .lock (by decide)).trans (removed_names _ _)
  · exact ((hleaves.mono (by decide)).trans ((removed_leaves w₁ .lock).mono (by decide))).trans
      ((removed_leaves _ .reclaim).mono (by decide))

theorem runAlone_removeStaleLock (process : Nat) (h : w.isStale .lock staleAfterMs = true) :
    ∃ file, w.names .lock = some file ∧ (removeStaleLock process staleAfterMs).runAlone w =
      (reclaimStaleRecord process staleAfterMs (w.files file).raw).runAlone w := by
  obtain ⟨file, hname, hjudged⟩ := isStale_cases h
  refine ⟨file, hname, ?_⟩
  unfold removeStaleLock
  simp only [Prog.bind_eq_bind, Prog.runAlone_bind, runAlone_tryReadFile w hname]
  rcases hjudged with ⟨pid, hpid, hdead⟩ | ⟨hpid, hold⟩
  · simp only [hpid, Prog.runAlone_bind, runAlone_isProcessAlive, hdead, Bool.false_eq_true,
      if_false]
  · simp only [hpid, Prog.runAlone_bind, runAlone_isOlderThan, hold, if_true]

end Reclaiming

/-! ## Acquiring -/

section Acquiring

variable {w : Disk} {process : Nat} {o : LockOptions} {record : List Char}

theorem runAlone_createLock (h : w.names .lock = none) :
    (createLock record).runAlone w = (.ok (), w.made .lock record) := by
  have hchmod : chmodLock.runAlone (w.made .lock record) = (.ok (), w.made .lock record) := by
    rw [chmodLock, runAlone_perform]
    simp only [made_names, Option.isSome_some, if_true]
    rfl
  unfold createLock
  simp only [Prog.bind_eq_bind, Prog.runAlone_bind, runAlone_openExclusive_free w h, writeFile,
    runAlone_perform, runAlone_close]
  exact hchmod

theorem runAlone_acquireRounds_free (h : w.names .lock = none) (startedAt rounds : Nat) :
    (acquireRounds process o startedAt record (rounds + 1)).runAlone w =
      (.ok (), w.made .lock record) := by
  rw [acquireRounds]
  simp only [Prog.bind_eq_bind, Prog.runAlone_bind, Prog.runAlone_catchErr, runAlone_createLock h,
    Prog.runAlone_ret, if_true, Prog.pure_eq_ret]

/-- A round that finds the lock there clears it as far as it can, and the next one follows. -/
theorem runAlone_acquireRounds_taken {file : Nat} (h : w.names .lock = some file) {cleared : Bool}
    {w' : Disk} (hclear : (removeStaleLock process o.staleAfterMs).runAlone w = (.ok cleared, w'))
    (rounds : Nat) :
    (acquireRounds process o w.now record (rounds + 1)).runAlone w =
      (acquireRounds process o w.now record rounds).runAlone w' := by
  have hcreate : (createLock record).runAlone w = (.error .fileExists, w) := by
    unfold createLock
    simp only [Prog.bind_eq_bind, Prog.runAlone_bind, runAlone_openExclusive_taken w h]
  rw [acquireRounds]
  simp only [Prog.bind_eq_bind, Prog.runAlone_bind, Prog.runAlone_catchErr, hcreate, if_true,
    runAlone_clockNow, Nat.sub_self, Nat.not_lt_zero, if_false, hclear, Prog.runAlone_ret,
    Prog.pure_eq_ret, Bool.false_eq_true]

/-- A stale lock takes a round to remove. -/
theorem runAlone_acquireRounds_stale (process : Nat) (record : List Char)
    (hlock : w.isStale .lock o.staleAfterMs = true) (hreclaim : w.names .reclaim = none)
    (hfresh : ∀ file, w.names .lock = some file → file < w.fresh) (rounds : Nat) :
    ∃ w', (acquireRounds process o w.now record (rounds + 2)).runAlone w = (.ok (), w') ∧
      w'.names .reclaim = none := by
  obtain ⟨file, hname, hremove⟩ := runAlone_removeStaleLock process hlock
  obtain ⟨w₁, hrun, hfree, hfree', hleaves⟩ := runAlone_reclaimStaleRecord_removes
    process o.staleAfterMs hreclaim hname (hfresh file hname)
  rw [hrun] at hremove
  refine ⟨w₁.made .lock record, ?_, ?_⟩
  · rw [runAlone_acquireRounds_taken hname hremove, runAlone_acquireRounds_free hfree]
  · exact ((made_leaves w₁ .lock record).names .reclaim (by decide)).trans hfree'

/-- A reclaim lock that is left behind takes one more. -/
theorem runAlone_acquireRounds_abandoned (process : Nat) (record : List Char)
    (hlock : w.isStale .lock o.staleAfterMs = true)
    (hreclaim : w.isStale .reclaim o.staleAfterMs = true)
    (hfresh : ∀ path file, w.names path = some file → file < w.fresh) (rounds : Nat) :
    ∃ w', (acquireRounds process o w.now record (rounds + 3)).runAlone w = (.ok (), w') ∧
      w'.names .reclaim = none := by
  obtain ⟨file, hname, hremove⟩ := runAlone_removeStaleLock process hlock
  obtain ⟨w₁, hrun, hfree, hleaves⟩ := runAlone_reclaimStaleRecord_clears process
    (w.files file).raw hreclaim
  rw [hrun] at hremove
  have huntouched : LockPath.lock ∉ [LockPath.reclaim, w.scratch process] := by
    rw [List.mem_cons, List.mem_singleton, not_or]
    exact ⟨by decide, fun heq => by cases heq⟩
  have hstale : w₁.isStale .lock o.staleAfterMs = true := by
    rw [hleaves.isStale_eq huntouched (hfresh .lock)]
    exact hlock
  have hfresh₁ (f : Nat) (hf : w₁.names .lock = some f) : f < w₁.fresh := by
    rw [hleaves.names .lock huntouched] at hf
    exact (hfresh .lock f hf).trans_le hleaves.fresh
  obtain ⟨w', hrest, hdone⟩ := runAlone_acquireRounds_stale process record
    hstale hfree hfresh₁ rounds
  rw [hleaves.now] at hrest
  exact ⟨w', (runAlone_acquireRounds_taken hname hremove _).trans hrest, hdone⟩

theorem runAlone_work (fails : Bool) (steps : Nat) (w : Disk) :
    (work fails steps).runAlone w = (if fails then .error .os else .ok (), w) := by
  induction steps with
  | zero => cases fails <;> rfl
  | succ steps ih =>
      rw [work, Prog.runAlone_bind, runAlone_perform]
      exact ih

end Acquiring

/-- The owner of the lock has died, and the one that was to reclaim it too. -/
def leftBehind : Disk where
  names path := match path with
    | .lock => some 0
    | .reclaim => some 1
    | .takeover _ _ => none
  files _ := ⟨lockRecord 1 0, 0⟩
  fresh := 2
  now := 0
  alive pid := decide (pid = 2)
  counters _ := 0

end AgentGather.Storage.WriterLock
