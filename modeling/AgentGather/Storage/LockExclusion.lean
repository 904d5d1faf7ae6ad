import AgentGather.Storage.LockRefinement

/-!
# Writers exclude each other

What each caller knows of the files when it makes a step, and why no step of the others takes it
back.  Nobody has to guess who made a file, in the runs this is about: processes may die in any
step, and a dead holder's lock is removed by whoever comes first, but a file without a readable
record is never found to be old, and the owner of a reclaim lock is never found to be dead.
-/

namespace AgentGather.Storage.WriterLock

open AgentGather.Library AgentGather.Protocol

/-! ## What a caller knows -/

/-- The event is no step of the caller's that touches a file, and not its end. -/
def Harmless (process : Nat → Nat) (t : Nat) : Event LockStep → Prop
  | .ran u l => u ≠ t ∨ l.isQuiet = true
  | .failed _ _ => True
  | .crashed p => process t ≠ p

/-- What no such event takes back. -/
def Durable (process : Nat → Nat) (t : Nat) (P : Snapshot Disk LockStep → Prop) : Prop :=
  ∀ e x w, Coherent process x → Respects process e x w → Harmless process t e → P x →
    P (x.record e w)

/-- The caller is alive, and has not the lock yet. -/
structure Idle (process : Nat → Nat) (t : Nat) (x : Snapshot Disk LockStep) : Prop where
  alive : x.world.alive (process t) = true
  free : holder process x.trace ≠ some t

/-- The caller has the reclaim lock. -/
def Reclaiming (t : Nat) (x : Snapshot Disk LockStep) : Prop := ∃ file, Owns t .reclaim file x

/-- The lock is that of a dead process. -/
def Abandoned (raw : List Char) (x : Snapshot Disk LockStep) : Prop :=
  ∃ file, x.world.names .lock = some file ∧ (x.world.files file).raw = raw ∧ Dead x.world raw

section Knowledge

variable {process : Nat → Nat} {t : Nat} {x : Snapshot Disk LockStep} {e : Event LockStep}
  {w : Disk}

theorem Durable.and {P Q : Snapshot Disk LockStep → Prop} (hP : Durable process t P)
    (hQ : Durable process t Q) : Durable process t fun x => P x ∧ Q x :=
  fun e x w hx hr hh hpq => ⟨hP e x w hx hr hh hpq.1, hQ e x w hx hr hh hpq.2⟩

theorem durable_true : Durable process t fun _ => True := fun _ _ _ _ _ _ _ => trivial

theorem apply_alive (l : LockStep) (w : Disk) : (l.apply w).alive = w.alive := by
  cases l <;> rfl

/-- Processes only die. -/
theorem dead_kept (hrespects : Respects process e x w) {pid : Int}
    (h : x.world.alive pid = false) : w.alive pid = false := by
  cases e with
  | ran u l =>
      obtain ⟨rfl, -, -⟩ := hrespects
      rwa [apply_alive]
  | failed u l =>
      obtain rfl := hrespects
      exact h
  | crashed p =>
      obtain rfl := hrespects
      change Function.update x.world.alive (p : Int) false pid = false
      by_cases hp : pid = p
      · rw [hp, Function.update_self]
      · rw [Function.update_of_ne hp]
        exact h

theorem Dead.kept {raw : List Char} (h : Dead x.world raw) (hrespects : Respects process e x w) :
    Dead w raw := by
  obtain ⟨pid, hpid, hdead⟩ := h
  exact ⟨pid, hpid, dead_kept hrespects hdead⟩

theorem alive_kept (hrespects : Respects process e x w) (hharmless : Harmless process t e)
    (h : x.world.alive (process t) = true) : w.alive (process t) = true := by
  cases e with
  | ran u l =>
      obtain ⟨rfl, -, -⟩ := hrespects
      rwa [apply_alive]
  | failed u l =>
      obtain rfl := hrespects
      exact h
  | crashed p =>
      obtain rfl := hrespects
      change Function.update x.world.alive (p : Int) false (process t) = true
      rw [Function.update_of_ne fun heq => hharmless (Int.ofNat_inj.mp heq)]
      exact h

theorem idle_durable : Durable process t (Idle process t) := by
  intro e x w _ hrespects hharmless h
  refine ⟨alive_kept hrespects hharmless h.alive, ?_⟩
  cases e with
  | ran u l =>
      rw [Snapshot.record_trace, holder]
      cases hturn : l.turn with
      | takes =>
          rcases hharmless with hne | hquiet
          · exact fun heq => hne (Option.some.inj heq)
          · rw [turn_of_quiet hquiet] at hturn
            cases hturn
      | gives =>
          change (if holder process x.trace = some u then none else holder process x.trace) ≠
            some t
          split_ifs
          · exact fun heq => by cases heq
          · exact h.free
      | neither => exact h.free
  | failed u l => exact h.free
  | crashed p =>
      rw [Snapshot.record_trace, holder]
      split_ifs
      · exact fun heq => by cases heq
      · exact h.free

/-- A name that the caller has made is its own until it removes it, and what stands in its file
stays; the lock of a dead process apart. -/
theorem Owns.kept (hx : Coherent process x) (hrespects : Respects process e x w)
    (hharmless : Harmless process t e) {path : LockPath} {file : Nat} (h : Owns t path file x)
    (hdead : path = .lock → ¬ Dead x.world (x.world.files file).raw) :
    Owns t path file (x.record e w) ∧ (w.files file).raw = (x.world.files file).raw := by
  have hopened := opened_record h.opened e w
  cases e with
  | ran u l =>
      obtain ⟨rfl, -, hpermitted⟩ := hrespects
      by_cases hquiet : l.isQuiet = true
      · have hsame := sameFiles_of_quiet hquiet x.world
        refine ⟨⟨?_, hopened⟩, by rw [hsame.files]⟩
        rw [Snapshot.record_world, hsame.names]
        exact h.named
      · have hne : u ≠ t := hharmless.resolve_right hquiet
        cases l with
        | opened path' file' =>
            obtain ⟨hnone, rfl⟩ := hpermitted
            have hpath : path ≠ path' := by
              rintro rfl
              rw [h.named] at hnone
              cases hnone
            have hlt := hx.openedFresh t path file h.opened
            refine ⟨⟨?_, hopened⟩, congrArg LockFile.raw (Function.update_of_ne hlt.ne _ _)⟩
            exact (Function.update_of_ne hpath _ _).trans h.named
        | wrote file' raw =>
            obtain ⟨⟨path', hother⟩, -⟩ := hpermitted
            have hfile : file ≠ file' := by
              rintro rfl
              exact hne (hx.openedOnce u t path' path file hother h.opened).1
            exact ⟨⟨h.named, hopened⟩, congrArg LockFile.raw (Function.update_of_ne hfile _ _)⟩
        | locked => exact ⟨⟨h.named, hopened⟩, rfl⟩
        | removed path' =>
            have hpath : path ≠ path' := by
              rintro rfl
              cases path with
              | lock =>
                  rcases hpermitted file h.named with hother | ⟨hgone, -⟩
                  · exact hne (hx.openedOnce u t .lock .lock file hother h.opened).1
                  · exact hdead rfl hgone
              | reclaim =>
                  have hother := hpermitted file h.named
                  exact hne (hx.openedOnce u t .reclaim .reclaim file hother h.opened).1
              | takeover _ _ => exact hpermitted
            exact ⟨⟨(Function.update_of_ne hpath _ _).trans h.named, hopened⟩, rfl⟩
        | renamed source target => exact absurd hpermitted id
        | linked source target => exact absurd hpermitted id
        | _ => exact absurd rfl hquiet
  | failed u l =>
      obtain rfl := hrespects
      exact ⟨⟨h.named, hopened⟩, rfl⟩
  | crashed p =>
      obtain rfl := hrespects
      exact ⟨⟨h.named, hopened⟩, rfl⟩

theorem mine_durable (file : Nat) (raw : List Char) :
    Durable process t (Mine process t file raw) := by
  intro e x w hx hrespects hharmless h
  obtain ⟨howns, hfile⟩ := h.owns.kept hx hrespects hharmless fun _ => by
    rw [h.text]
    exact h.not_dead
  exact ⟨howns, hfile.trans h.text, h.record, alive_kept hrespects hharmless h.alive⟩

theorem owns_reclaim_durable (file : Nat) : Durable process t (Owns t .reclaim file) :=
  fun _ _ _ hx hrespects hharmless h =>
    (h.kept hx hrespects hharmless fun heq => by cases heq).1

theorem reclaiming_durable : Durable process t (Reclaiming t) := by
  rintro e x w hx hrespects hharmless ⟨file, h⟩
  exact ⟨file, owns_reclaim_durable file e x w hx hrespects hharmless h⟩

theorem dead_durable (raw : List Char) : Durable process t fun x => Dead x.world raw :=
  fun _ _ _ _ hrespects _ h => h.kept hrespects

/-- Only the reclaimer removes the lock of a dead process, and nobody writes it. -/
theorem Abandoned.kept {raw : List Char} (hx : Coherent process x)
    (hrespects : Respects process e x w) (hharmless : Harmless process t e)
    (hreclaiming : Reclaiming t x) (h : Abandoned raw x) : Abandoned raw (x.record e w) := by
  obtain ⟨file, hnamed, hraw, hdead⟩ := h
  suffices hkept : w.names .lock = some file ∧ (w.files file).raw = (x.world.files file).raw from
    ⟨file, hkept.1, hkept.2.trans hraw, hdead.kept hrespects⟩
  rw [← hraw] at hdead
  cases e with
  | ran u l =>
      obtain ⟨rfl, halive, hpermitted⟩ := hrespects
      have hunopened (path : LockPath) : ¬ Opened u path file x := by
        intro hopened
        rw [hx.dead_of_opened hopened hdead] at halive
        cases halive
      by_cases hquiet : l.isQuiet = true
      · have hsame := sameFiles_of_quiet hquiet x.world
        exact ⟨by rw [hsame.names, hnamed], by rw [hsame.files]⟩
      · have hne : u ≠ t := hharmless.resolve_right hquiet
        cases l with
        | opened path file' =>
            obtain ⟨hnone, rfl⟩ := hpermitted
            have hpath : LockPath.lock ≠ path := by
              rintro rfl
              rw [hnamed] at hnone
              cases hnone
            have hlt := hx.fresh .lock file hnamed
            exact ⟨(Function.update_of_ne hpath _ _).trans hnamed,
              congrArg LockFile.raw (Function.update_of_ne hlt.ne _ _)⟩
        | wrote file' raw' =>
            obtain ⟨⟨path, hopened⟩, -⟩ := hpermitted
            have hfile : file ≠ file' := by
              rintro rfl
              exact hunopened path hopened
            exact ⟨hnamed, congrArg LockFile.raw (Function.update_of_ne hfile _ _)⟩
        | locked => exact ⟨hnamed, rfl⟩
        | removed path =>
            have hpath : LockPath.lock ≠ path := by
              rintro rfl
              rcases hpermitted file hnamed with hopened | ⟨-, mine, howns⟩
              · exact hunopened .lock hopened
              · obtain ⟨mine', howns'⟩ := hreclaiming
                have hsame := howns.named
                rw [howns'.named] at hsame
                obtain rfl := Option.some.inj hsame
                exact hne (hx.openedOnce u t .reclaim .reclaim mine' howns.opened howns'.opened).1
            exact ⟨(Function.update_of_ne hpath _ _).trans hnamed, rfl⟩
        | renamed source target => exact absurd hpermitted id
        | linked source target => exact absurd hpermitted id
        | _ => exact absurd rfl hquiet
  | failed u l =>
      obtain rfl := hrespects
      exact ⟨hnamed, rfl⟩
  | crashed p =>
      obtain rfl := hrespects
      exact ⟨hnamed, rfl⟩

theorem abandoned_durable (raw : List Char) :
    Durable process t fun x => Reclaiming t x ∧ Abandoned raw x := by
  rintro e x w hx hrespects hharmless ⟨hreclaiming, habandoned⟩
  exact ⟨reclaiming_durable e x w hx hrespects hharmless hreclaiming,
    habandoned.kept hx hrespects hharmless hreclaiming⟩

end Knowledge

/-! ## Callers keep to the rule -/

/-- The step of a caller, or its failure, that gives up a file on a guess. -/
def guessed : Event LockStep → Bool
  | .ran _ l => l.guesses
  | _ => false

/-- The rule for runs in which nobody guesses. -/
def lockContract (process : Nat → Nat) : Contract Disk LockStep where
  inv := Coherent process
  guar := Respects process
  allow e _ := guessed e = false

section Callers

variable {process : Nat → Nat} {t : Nat} {α : Type}

/-- Safety of a program of caller `t`. -/
abbrev LockSafe (process : Nat → Nat) (t : Nat) (Q : α → Snapshot Disk LockStep → Prop)
    (E : Failure → Snapshot Disk LockStep → Prop) (p : LockProg α)
    (P : Snapshot Disk LockStep → Prop) : Prop :=
  (lockContract process).Safe (lockSystem process) t Q E p P

theorem Durable.stable {P : Snapshot Disk LockStep → Prop} (h : Durable process t P) :
    (lockContract process).Stable (lockSystem process) t P := by
  intro e x w hforeign hx _ hrespects hp
  apply h e x w hx hrespects ?_ hp
  cases e with
  | ran u l => exact .inl hforeign
  | failed u l => exact trivial
  | crashed p => exact hforeign

/-- One step of the file system, taken by a caller that is alive. -/
theorem perform_safe {P : Snapshot Disk LockStep → Prop} {Q : α → Snapshot Disk LockStep → Prop}
    {E : Failure → Snapshot Disk LockStep → Prop} {label : Disk → LockStep}
    {result : Disk → Except Failure α} (hP : Durable process t P)
    (halive : ∀ x, P x → x.world.alive (process t) = true)
    (hpermitted : ∀ x, Coherent process x → P x → (label x.world).Permitted process t x)
    (hok : ∀ x a, Coherent process x → P x → (label x.world).guesses = false →
      result x.world = .ok a →
      Q a (x.record (.ran t (label x.world)) ((label x.world).apply x.world)))
    (herr : ∀ x e, Coherent process x → P x → result x.world = .error e →
      E e (x.record (.ran t (label x.world)) ((label x.world).apply x.world)))
    (hfail : ∀ x e, P x → (label x.world).mayFail e = true →
      P (x.record (.failed t (label x.world)) x.world) →
      E e (x.record (.failed t (label x.world)) x.world)) :
    LockSafe process t Q E (perform label result) P := by
  apply Contract.Safe.action hP.stable
  · intro x hx hp _ _
    have hrespects : Respects process (.ran t (label x.world)) x ((label x.world).apply x.world) :=
      ⟨rfl, halive x hp, hpermitted x hx hp⟩
    exact ⟨hx.step hrespects, hrespects⟩
  · exact fun x a hx hp _ hallow ha => hok x a hx hp hallow ha
  · exact fun x e hx hp _ _ he => herr x e hx hp he
  · intro x e hx hp hfault _
    have hrespects : Respects process (.failed t (label x.world)) x x.world := rfl
    exact ⟨⟨hx.step hrespects, hrespects⟩,
      hfail x e hp hfault (hP _ x _ hx hrespects trivial hp)⟩

theorem permitted_of_quiet {l : LockStep} (h : l.isQuiet = true) (x : Snapshot Disk LockStep) :
    l.Permitted process t x := by
  cases l with
  | opened path file => cases h
  | wrote file raw => cases h
  | locked => cases h
  | removed path => cases h
  | renamed source target => cases h
  | linked source target => cases h
  | _ => exact trivial

/-- A step that touches no file, after which the caller knows what it knew before and `R`. -/
theorem quiet_safe {P : Snapshot Disk LockStep → Prop} {R : α → Snapshot Disk LockStep → Prop}
    {label : Disk → LockStep} {result : Disk → Except Failure α} (hP : Durable process t P)
    (halive : ∀ x, P x → x.world.alive (process t) = true)
    (hquiet : ∀ w, (label w).isQuiet = true)
    (hR : ∀ x a, P x → (label x.world).guesses = false → result x.world = .ok a →
      R a (x.record (.ran t (label x.world)) ((label x.world).apply x.world))) :
    LockSafe process t (fun a x => P x ∧ R a x) (fun _ => P) (perform label result) P := by
  have hkept (x : Snapshot Disk LockStep) (hx : Coherent process x) (hp : P x) :
      P (x.record (.ran t (label x.world)) ((label x.world).apply x.world)) := by
    refine hP _ x _ hx ⟨rfl, halive x hp, ?_⟩ (.inr (hquiet _)) hp
    exact permitted_of_quiet (hquiet _) x
  apply perform_safe hP halive
  · exact fun x _ _ => permitted_of_quiet (hquiet _) x
  · exact fun x a hx hp hg ha => ⟨hkept x hx hp, hR x a hp hg ha⟩
  · exact fun x e hx hp _ => hkept x hx hp
  · exact fun x e _ _ hp => hp

/-- The same, where nothing is learnt. -/
theorem quiet_keeps {P : Snapshot Disk LockStep → Prop} {label : Disk → LockStep}
    {result : Disk → Except Failure α} (hP : Durable process t P)
    (halive : ∀ x, P x → x.world.alive (process t) = true)
    (hquiet : ∀ w, (label w).isQuiet = true) :
    LockSafe process t (fun _ => P) (fun _ => P) (perform label result) P :=
  (quiet_safe (R := fun _ _ => True) hP halive hquiet fun _ _ _ _ _ => trivial).conseq
    (fun _ _ h => h) (fun _ _ _ h => h.1) fun _ _ _ h => h

/-- Its own steps leave a caller idle that does not take the lock. -/
theorem Idle.ran {x : Snapshot Disk LockStep} (h : Idle process t x) {l : LockStep}
    (hturn : l.turn ≠ .takes) : Idle process t (x.record (.ran t l) (l.apply x.world)) := by
  refine ⟨?_, ?_⟩
  · rw [Snapshot.record_world, apply_alive]
    exact h.alive
  · rw [Snapshot.record_trace, holder]
    cases hcase : l.turn with
    | takes => exact absurd hcase hturn
    | gives =>
        change (if holder process x.trace = some t then none else holder process x.trace) ≠ some t
        rw [if_neg h.free]
        exact h.free
    | neither => exact h.free

/-! ### Reclaiming -/

theorem tryReadFile_safe {P : Snapshot Disk LockStep → Prop} (hP : Durable process t P)
    (halive : ∀ x, P x → x.world.alive (process t) = true) (path : LockPath) :
    LockSafe process t (fun _ => P) (fun _ _ => False) (tryReadFile path) P := by
  unfold tryReadFile
  apply Contract.Safe.catchErr (R := fun _ => P)
  · apply Contract.Safe.bind
    · exact quiet_keeps hP halive fun _ => rfl
    · exact fun raw => Contract.Safe.ret
  · exact fun e => Contract.Safe.ret

/-- Nothing is found to be old where nobody guesses. -/
theorem isOlderThan_safe {P : Snapshot Disk LockStep → Prop} (hP : Durable process t P)
    (halive : ∀ x, P x → x.world.alive (process t) = true) (path : LockPath) (ageMs : Nat) :
    LockSafe process t (fun older x => older = false ∧ P x) (fun _ _ => False)
      (isOlderThan path ageMs) P := by
  unfold isOlderThan
  apply Contract.Safe.catchErr (R := fun _ => P)
  · apply (quiet_safe (R := fun older _ => older = false) hP halive ?_ ?_).conseq
      (fun _ _ h => h) (fun _ _ _ h => ⟨h.2, h.1⟩) (fun _ _ _ h => h)
    · exact fun _ => rfl
    · intro x older _ hguess hresult
      rw [← Except.ok.inj hresult]
      exact hguess
  · exact fun e => Contract.Safe.done fun x _ h => ⟨rfl, h⟩

/-- Where nobody guesses, the owner of a reclaim lock is not found to be dead. -/
theorem reclaimerAlive_safe (pid : Pid) :
    LockSafe process t (fun alive x => alive = true ∧ Idle process t x) (fun _ _ => True)
      (isProcessAlive .reclaim pid) (Idle process t) := by
  apply (quiet_safe (R := fun alive _ => alive = true) idle_durable (fun _ h => h.alive)
    (fun _ => rfl) ?_).conseq (fun _ _ h => h) (fun _ _ _ h => ⟨h.2, h.1⟩) (fun _ _ _ _ => trivial)
  intro x alive _ hguess hresult
  rw [LockStep.guesses, Bool.not_eq_false'] at hguess
  rw [← Except.ok.inj hresult, hguess]

/-- Where nobody guesses, no reclaim lock is taken over. -/
theorem clearAbandonedReclaimLock_safe (staleAfterMs : Nat) :
    LockSafe process t (fun _ => Idle process t) (fun _ _ => True)
      (clearAbandonedReclaimLock (process t) staleAfterMs) (Idle process t) := by
  unfold clearAbandonedReclaimLock
  simp only [Prog.bind_eq_bind, Prog.pure_eq_ret]
  apply Contract.Safe.bind (R := fun _ => Idle process t)
  · exact (tryReadFile_safe idle_durable (fun _ h => h.alive) _).conseq (fun _ _ h => h)
      (fun _ _ _ h => h) fun _ _ _ _ => trivial
  · intro found
    cases found with
    | none => exact Contract.Safe.ret
    | some raw =>
        dsimp only
        have hleft (abandoned : Bool) : LockSafe process t (fun _ => Idle process t)
            (fun _ _ => True)
            (if abandoned = true then takeOverAbandonedFile (process t) .reclaim raw
              else Prog.ret ())
            fun x => abandoned = false ∧ Idle process t x := by
          apply Contract.Safe.of_pure
          rintro rfl
          exact Contract.Safe.ret
        cases recordPid raw with
        | some pid =>
            apply Contract.Safe.bind _ hleft
            apply Contract.Safe.bind (reclaimerAlive_safe pid)
            intro alive
            apply Contract.Safe.done
            rintro x _ ⟨rfl, h⟩
            exact ⟨rfl, h⟩
        | none =>
            apply Contract.Safe.bind _ hleft
            exact (isOlderThan_safe idle_durable (fun _ h => h.alive) _ _).conseq
              (fun _ _ h => h) (fun _ _ _ h => h) fun _ _ _ _ => trivial

theorem mayFail_os {l : LockStep} {e : Failure} (h : l.mayFail e = true) : e = .os := by
  unfold LockStep.mayFail at h
  split at h
  all_goals first | rfl | cases h

/-- What is made is the caller's. -/
theorem owns_opened (x : Snapshot Disk LockStep) (path : LockPath) (file : Nat) :
    Owns t path file (x.record (.ran t (.opened path file))
      ((LockStep.opened path file).apply x.world)) where
  named := by
    change Function.update x.world.names path (some file) path = some file
    rw [Function.update_self]
  opened := List.mem_cons_self

/-- A name is not lost where another one is removed. -/
theorem Owns.removed {x : Snapshot Disk LockStep} {path path' : LockPath} {file : Nat}
    (h : Owns t path file x) (hpath : path ≠ path') :
    Owns t path file (x.record (.ran t (.removed path')) ((LockStep.removed path').apply x.world))
    where
  named := by
    change Function.update x.world.names path' none path = some file
    rw [Function.update_of_ne hpath]
    exact h.named
  opened := opened_record h.opened _ _

/-- What `openExclusive` does where it succeeds, and where it finds the name taken. -/
theorem openExclusive_safe {P : Snapshot Disk LockStep → Prop}
    {Q : Nat → Snapshot Disk LockStep → Prop} {path : LockPath} (hP : Durable process t P)
    (halive : ∀ x, P x → x.world.alive (process t) = true)
    (hok : ∀ x, Coherent process x → P x → x.world.names path = none →
      Q x.world.fresh (x.record (.ran t (.opened path x.world.fresh))
        ((LockStep.opened path x.world.fresh).apply x.world))) :
    LockSafe process t Q (fun _ => P) (openExclusive path) P := by
  apply perform_safe hP halive
  · intro x _ _
    by_cases hsome : (x.world.names path).isSome = true
    · rw [if_pos hsome]
      exact trivial
    · rw [if_neg hsome]
      exact ⟨Option.not_isSome_iff_eq_none.mp hsome, rfl⟩
  · intro x file hx hp _ hresult
    by_cases hsome : (x.world.names path).isSome = true
    · rw [if_pos hsome] at hresult
      cases hresult
    · rw [if_neg hsome] at hresult ⊢
      obtain rfl := Except.ok.inj hresult
      exact hok x hx hp (Option.not_isSome_iff_eq_none.mp hsome)
  · intro x e hx hp hresult
    by_cases hsome : (x.world.names path).isSome = true
    · rw [if_pos hsome]
      exact hP _ x _ hx ⟨rfl, halive x hp, trivial⟩ (.inr rfl) hp
    · rw [if_neg hsome] at hresult
      cases hresult
  · exact fun x e _ _ hp => hp

/-- Who has opened the reclaim lock has it. -/
theorem openReclaim_safe (raw : List Char) :
    LockSafe process t
      (fun _ x => Idle process t x ∧ Dead x.world raw ∧ Reclaiming t x)
      (fun _ => Idle process t) (openReclaim (process t))
      fun x => Idle process t x ∧ Dead x.world raw := by
  have hbefore : Durable process t fun x => Idle process t x ∧ Dead x.world raw :=
    idle_durable.and (dead_durable raw)
  unfold openReclaim
  simp only [Prog.bind_eq_bind]
  apply Contract.Safe.bind
    (R := fun file x => Idle process t x ∧ Dead x.world raw ∧ Owns t .reclaim file x)
  · have hopened (x : Snapshot Disk LockStep) (_ : Coherent process x)
        (h : Idle process t x ∧ Dead x.world raw) (_ : x.world.names .reclaim = none) :
        (fun file x => Idle process t x ∧ Dead x.world raw ∧ Owns t .reclaim file x)
          x.world.fresh (x.record (.ran t (.opened .reclaim x.world.fresh))
            ((LockStep.opened .reclaim x.world.fresh).apply x.world)) :=
      ⟨h.1.ran fun heq => (by cases heq), h.2, owns_opened x .reclaim x.world.fresh⟩
    exact (openExclusive_safe hbefore (fun _ h => h.1.alive) hopened).conseq
      (fun _ _ h => h) (fun _ _ _ h => h) fun _ _ _ h => h.1
  · intro file
    have hopen : Durable process t fun x =>
        Idle process t x ∧ Dead x.world raw ∧ Owns t .reclaim file x :=
      idle_durable.and ((dead_durable raw).and (owns_reclaim_durable file))
    apply Contract.Safe.finallyDo
      (R := fun _ x => Idle process t x ∧ Dead x.world raw ∧ Owns t .reclaim file x)
      (F := fun _ => Idle process t)
    · apply Contract.Safe.bind
        (R := fun _ x => Idle process t x ∧ Dead x.world raw ∧ Owns t .reclaim file x)
      · exact (quiet_keeps hopen (fun _ h => h.1.alive) fun _ => rfl).conseq (fun _ _ h => h)
          (fun _ _ _ h => h) fun _ _ _ h => h.1
      · intro now
        apply perform_safe hopen fun _ h => h.1.alive
        · exact fun x _ h => ⟨⟨.reclaim, h.2.2.opened⟩, now, rfl⟩
        · intro x _ _ h _ _
          exact ⟨h.1.ran fun heq => (by cases heq), h.2.1, h.2.2.named,
            opened_record h.2.2.opened _ _⟩
        · exact fun x e _ _ he => by cases he
        · exact fun x e _ _ h => h.1
    · intro _
      exact (quiet_keeps hopen (fun _ h => h.1.alive) fun _ => rfl).conseq (fun _ _ h => h)
        (fun _ _ _ h => ⟨h.1, h.2.1, file, h.2.2⟩) fun _ _ _ h => h.1
    · exact fun _ => quiet_keeps idle_durable (fun _ h => h.alive) fun _ => rfl

/-- Whatever becomes of the lock, the reclaim lock is still the caller's. -/
theorem removeIfUnchanged_safe (expectedRaw : List Char) :
    LockSafe process t (fun _ x => Idle process t x ∧ Reclaiming t x)
      (fun _ x => Idle process t x ∧ Reclaiming t x) (removeIfUnchanged expectedRaw)
      fun x => Idle process t x ∧ Dead x.world expectedRaw ∧ Reclaiming t x := by
  have hbefore : Durable process t fun x =>
      Idle process t x ∧ Dead x.world expectedRaw ∧ Reclaiming t x :=
    idle_durable.and ((dead_durable expectedRaw).and reclaiming_durable)
  have hjudged : Durable process t fun x =>
      Idle process t x ∧ Reclaiming t x ∧ Abandoned expectedRaw x :=
    idle_durable.and (abandoned_durable expectedRaw)
  unfold removeIfUnchanged
  simp only [Prog.bind_eq_bind, Prog.pure_eq_ret]
  apply Contract.Safe.bind
    (R := fun current x => (Idle process t x ∧ Reclaiming t x) ∧
      (current = .inl expectedRaw → Abandoned expectedRaw x))
  · apply Contract.Safe.catchErr (R := fun _ x => Idle process t x ∧ Reclaiming t x)
    · apply Contract.Safe.bind (R := fun raw x => (Idle process t x ∧ Reclaiming t x) ∧
        (raw = expectedRaw → Abandoned expectedRaw x))
      · apply (quiet_safe (R := fun raw x => raw = expectedRaw →
            ∃ file, x.world.names .lock = some file ∧ (x.world.files file).raw = expectedRaw)
          hbefore (fun _ h => h.1.alive) (fun _ => rfl) ?_).conseq (fun _ _ h => h) ?_ ?_
        · rintro x raw _ _ hresult rfl
          cases hname : x.world.names .lock with
          | some file =>
              rw [hname] at hresult
              exact ⟨file, hname, Except.ok.inj hresult⟩
          | none =>
              rw [hname] at hresult
              cases hresult
        · rintro raw x _ ⟨⟨hidle, hdead, hreclaiming⟩, hread⟩
          refine ⟨⟨hidle, hreclaiming⟩, fun heq => ?_⟩
          obtain ⟨file, hname, hraw⟩ := hread heq
          exact ⟨file, hname, hraw, hdead⟩
        · exact fun _ _ _ h => ⟨h.1, h.2.2⟩
      · intro raw
        apply Contract.Safe.done
        intro x _ h
        exact ⟨h.1, fun heq => h.2 (Sum.inl.inj heq)⟩
    · intro e
      apply Contract.Safe.done
      intro x _ h
      exact ⟨h, fun heq => by cases heq⟩
  · intro current
    cases current with
    | inr missing => exact Contract.Safe.done fun _ _ h => h.1
    | inl raw =>
        dsimp only
        by_cases hraw : raw = expectedRaw
        · subst hraw
          rw [if_neg (not_not_intro rfl)]
          apply Contract.Safe.bind (R := fun _ x => Idle process t x ∧ Reclaiming t x)
          · apply (perform_safe (E := fun _ x => Idle process t x ∧ Reclaiming t x) hjudged
              (fun _ h => h.1.alive) ?_ ?_ ?_ ?_).pre
            · exact fun x _ h => ⟨h.1.1, h.1.2, h.2 rfl⟩
            · rintro x _ ⟨-, ⟨mine, hmine⟩, file, hname, hfile, hdead⟩ file' hname'
              rw [hname] at hname'
              obtain rfl := Option.some.inj hname'
              rw [hfile]
              exact .inr ⟨hdead, mine, hmine⟩
            · rintro x _ _ ⟨hidle, ⟨mine, hmine⟩, -⟩ - -
              exact ⟨hidle.ran fun heq => (by cases heq), mine, hmine.removed (by decide)⟩
            · exact fun x e _ _ he => by cases he
            · exact fun x e _ _ h => ⟨h.1, h.2.1⟩
          · exact fun _ => Contract.Safe.ret
        · rw [if_pos hraw]
          exact Contract.Safe.done fun _ _ h => h.1

/-- The lock that a caller judged stale is that of a dead process. -/
theorem reclaimStaleRecord_safe (staleAfterMs : Nat) (expectedRaw : List Char) :
    LockSafe process t (fun _ => Idle process t) (fun _ _ => True)
      (reclaimStaleRecord (process t) staleAfterMs expectedRaw)
      fun x => Idle process t x ∧ Dead x.world expectedRaw := by
  unfold reclaimStaleRecord
  simp only [Prog.bind_eq_bind, Prog.pure_eq_ret]
  apply Contract.Safe.bind (R := fun owned x => Idle process t x ∧
    (owned = true → Dead x.world expectedRaw ∧ Reclaiming t x))
  · apply Contract.Safe.catchErr (R := fun _ => Idle process t)
    · apply Contract.Safe.bind (openReclaim_safe expectedRaw)
      intro _
      exact Contract.Safe.done fun x _ h => ⟨h.1, fun _ => h.2⟩
    · intro e
      by_cases he : e = .fileExists
      · rw [if_pos he]
        apply Contract.Safe.bind (clearAbandonedReclaimLock_safe staleAfterMs)
        intro _
        exact Contract.Safe.done fun x _ h => ⟨h, fun heq => by cases heq⟩
      · rw [if_neg he]
        exact fun _ _ _ => trivial
  · intro owned
    cases owned with
    | false => exact Contract.Safe.done fun _ _ h => h.1
    | true =>
        have hreclaiming : Durable process t fun x => Idle process t x ∧ Reclaiming t x :=
          idle_durable.and reclaiming_durable
        have hrm : LockSafe process t (fun _ => Idle process t) (fun _ _ => True) (rm .reclaim)
            fun x => Idle process t x ∧ Reclaiming t x := by
          apply perform_safe hreclaiming fun _ h => h.1.alive
          · rintro x _ ⟨-, mine, hmine⟩ file hname
            rw [hmine.named] at hname
            obtain rfl := Option.some.inj hname
            exact hmine.opened
          · exact fun x _ _ h _ _ => h.1.ran fun heq => by cases heq
          · exact fun x e _ _ he => by cases he
          · exact fun _ _ _ _ _ => trivial
        apply Contract.Safe.finallyDo (F := fun _ x => Idle process t x ∧ Reclaiming t x)
        · exact (removeIfUnchanged_safe expectedRaw).pre fun x _ h => ⟨h.1, h.2 rfl⟩
        · exact fun _ => hrm
        · exact fun _ => hrm.conseq (fun _ _ h => h) (fun _ _ _ _ => trivial) fun _ _ _ h => h

/-- Whose record names no process that lives is dead. -/
theorem ownerAlive_safe (raw : List Char) {pid : Pid} (hpid : recordPid raw = some pid) :
    LockSafe process t
      (fun alive x => Idle process t x ∧ (alive = false → Dead x.world raw)) (fun _ _ => True)
      (isProcessAlive .lock pid) (Idle process t) := by
  apply (quiet_safe (R := fun alive x => alive = false → Dead x.world raw) idle_durable
    (fun _ h => h.alive) (fun _ => rfl) ?_).conseq (fun _ _ h => h) (fun _ _ _ h => h)
    (fun _ _ _ _ => trivial)
  intro x alive _ _ hresult hdead
  rw [hdead] at hresult
  have hgone := Except.ok.inj hresult
  cases pid with
  | whole pid => exact ⟨pid, hpid, hgone⟩
  | other => cases hgone

theorem removeStaleLock_safe (staleAfterMs : Nat) :
    LockSafe process t (fun _ => Idle process t) (fun _ _ => True)
      (removeStaleLock (process t) staleAfterMs) (Idle process t) := by
  unfold removeStaleLock
  simp only [Prog.bind_eq_bind, Prog.pure_eq_ret]
  apply Contract.Safe.bind (R := fun _ => Idle process t)
  · exact (tryReadFile_safe idle_durable (fun _ h => h.alive) _).conseq (fun _ _ h => h)
      (fun _ _ _ h => h) fun _ _ _ _ => trivial
  · intro found
    cases found with
    | none => exact Contract.Safe.ret
    | some raw =>
        dsimp only
        cases hpid : recordPid raw with
        | some pid =>
            apply Contract.Safe.bind (ownerAlive_safe raw hpid)
            intro alive
            cases alive with
            | true => exact Contract.Safe.done fun _ _ h => h.1
            | false =>
                exact (reclaimStaleRecord_safe staleAfterMs raw).pre fun _ _ h => ⟨h.1, h.2 rfl⟩
        | none =>
            apply Contract.Safe.bind (R := fun older x => older = false ∧ Idle process t x)
            · exact (isOlderThan_safe idle_durable (fun _ h => h.alive) _ _).conseq
                (fun _ _ h => h) (fun _ _ _ h => h) fun _ _ _ _ => trivial
            · intro older
              apply Contract.Safe.of_pure
              rintro rfl
              exact Contract.Safe.ret

/-! ### Acquiring -/

/-- The caller's record is the lock. -/
def Held (process : Nat → Nat) (t : Nat) (x : Snapshot Disk LockStep) : Prop :=
  ∃ file createdAt, Mine process t file (lockRecord (process t) createdAt) x

theorem Held.alive {x : Snapshot Disk LockStep} (h : Held process t x) :
    x.world.alive (process t) = true := by
  obtain ⟨file, createdAt, hmine⟩ := h
  exact hmine.alive

theorem held_durable : Durable process t (Held process t) := by
  rintro e x w hx hrespects hharmless ⟨file, createdAt, h⟩
  exact ⟨file, createdAt, mine_durable file _ e x w hx hrespects hharmless h⟩

/-- Whoever does not take the lock is where it was. -/
theorem createLock_safe (createdAt : Nat) :
    LockSafe process t (fun _ => Held process t) (fun _ => Idle process t)
      (createLock (lockRecord (process t) createdAt)) (Idle process t) := by
  have hidle {file : Nat} {raw : List Char} :
      Durable process t fun x => Idle process t x ∧ Mine process t file raw x :=
    idle_durable.and (mine_durable file raw)
  unfold createLock
  simp only [Prog.bind_eq_bind]
  apply Contract.Safe.bind (R := fun file x => Idle process t x ∧ Mine process t file [] x)
  · apply openExclusive_safe idle_durable fun _ h => h.alive
    intro x _ h _
    refine ⟨h.ran fun heq => (by cases heq), owns_opened x .lock x.world.fresh, ?_, .inl rfl,
      h.alive⟩
    change (Function.update x.world.files x.world.fresh _ x.world.fresh).raw = []
    rw [Function.update_self]
  · intro file
    apply Contract.Safe.bind (R := fun _ x => Idle process t x ∧
      Mine process t file (lockRecord (process t) createdAt) x)
    · apply perform_safe hidle fun _ h => h.1.alive
      · exact fun x _ h => ⟨⟨.lock, h.2.owns.opened⟩, createdAt, rfl⟩
      · intro x _ _ h _ _
        refine ⟨h.1.ran fun heq => (by cases heq),
          ⟨h.2.owns.named, opened_record h.2.owns.opened _ _⟩, ?_, .inr ⟨createdAt, rfl⟩,
          h.2.alive⟩
        change (Function.update x.world.files file _ file).raw = _
        rw [Function.update_self]
      · exact fun x e _ _ he => by cases he
      · exact fun x e _ _ h => h.1
    · intro _
      apply Contract.Safe.bind (R := fun _ x => Idle process t x ∧
        Mine process t file (lockRecord (process t) createdAt) x)
      · exact (quiet_keeps hidle (fun _ h => h.1.alive) fun _ => rfl).conseq (fun _ _ h => h)
          (fun _ _ _ h => h) fun _ _ _ h => h.1
      · intro _
        have hthere (x : Snapshot Disk LockStep)
            (h : Mine process t file (lockRecord (process t) createdAt) x) :
            (x.world.names .lock).isSome = true := by
          rw [h.owns.named]
          rfl
        apply perform_safe hidle fun _ h => h.1.alive
        · intro x _ h
          rw [if_pos (hthere x h.2)]
          exact ⟨h.1.free, file, createdAt, h.2⟩
        · intro x _ _ h _ _
          rw [if_pos (hthere x h.2)]
          exact ⟨file, createdAt, h.2.kept rfl rfl rfl _⟩
        · intro x e _ h he
          rw [if_pos (hthere x h.2)] at he
          cases he
        · exact fun x e _ _ h => h.1

/-- However often the caller tries, it ends with the lock or with an error. -/
theorem acquireRounds_safe (o : LockOptions) (startedAt createdAt rounds : Nat) :
    LockSafe process t (fun _ => Held process t) (fun _ _ => True)
      (acquireRounds (process t) o startedAt (lockRecord (process t) createdAt) rounds)
      (Idle process t) := by
  induction rounds with
  | zero => exact fun _ _ _ => trivial
  | succ rounds ih =>
      unfold acquireRounds
      simp only [Prog.bind_eq_bind, Prog.pure_eq_ret, Prog.throw_eq_err]
      apply Contract.Safe.bind (R := fun acquired x =>
        if acquired = true then Held process t x else Idle process t x)
      · apply Contract.Safe.catchErr (R := fun _ => Idle process t)
        · apply Contract.Safe.bind (createLock_safe createdAt)
          intro _
          exact Contract.Safe.done fun x _ h => h
        · intro e
          by_cases he : e = .fileExists
          · rw [if_pos he]
            apply Contract.Safe.bind (R := fun _ => Idle process t)
            · exact (quiet_keeps idle_durable (fun _ h => h.alive) fun _ => rfl).conseq
                (fun _ _ h => h) (fun _ _ _ h => h) fun _ _ _ _ => trivial
            · intro now
              split_ifs
              · exact fun _ _ _ => trivial
              · apply Contract.Safe.bind (removeStaleLock_safe o.staleAfterMs)
                intro _
                exact Contract.Safe.done fun x _ h => h
          · rw [if_neg he]
            exact fun _ _ _ => trivial
      · intro acquired
        cases acquired with
        | true => exact Contract.Safe.done fun x _ h => h
        | false => exact ih.pre fun x _ h => h

/-- The work is done under the lock. -/
theorem work_safe (fails : Bool) (steps : Nat) :
    LockSafe process t (fun _ => Held process t) (fun _ => Held process t) (work fails steps)
      (Held process t) := by
  induction steps with
  | zero =>
      unfold work
      split_ifs
      · exact Contract.Safe.err
      · exact Contract.Safe.ret
  | succ steps ih =>
      apply Contract.Safe.bind (quiet_keeps held_durable (fun _ h => h.alive) fun _ => rfl)
      exact fun _ => ih

theorem withWriterLock_safe (rounds : Nat) (o : LockOptions) (steps : Nat) (fails : Bool) :
    LockSafe process t (fun _ _ => True) (fun _ _ => True)
      (withWriterLock (process t) rounds o steps fails) (Idle process t) := by
  have hclock : LockSafe process t (fun _ => Idle process t) (fun _ _ => True) clockNow
      (Idle process t) :=
    (quiet_keeps idle_durable (fun _ h => h.alive) fun _ => rfl).conseq (fun _ _ h => h)
      (fun _ _ _ h => h) fun _ _ _ _ => trivial
  have hrelease : LockSafe process t (fun _ _ => True) (fun _ _ => True) (rm .lock)
      (Held process t) := by
    apply perform_safe held_durable fun _ h => h.alive
    · rintro x _ ⟨mine, createdAt, hmine⟩ file hname
      rw [hmine.owns.named] at hname
      obtain rfl := Option.some.inj hname
      exact .inl hmine.owns.opened
    · exact fun _ _ _ _ _ _ => trivial
    · exact fun x e _ _ he => by cases he
    · exact fun _ _ _ _ _ => trivial
  unfold withWriterLock acquireWriterLock
  simp only [Prog.bind_eq_bind]
  apply Contract.Safe.bind (R := fun _ => Held process t)
  · apply Contract.Safe.bind hclock
    intro startedAt
    apply Contract.Safe.bind hclock
    exact fun createdAt => acquireRounds_safe o startedAt createdAt rounds
  · intro _
    exact Contract.Safe.finallyDo (work_safe fails steps) (fun _ => hrelease) fun _ => hrelease

theorem prog_safe (call : LockCall) :
    LockSafe process t (fun _ _ => True) (fun _ _ => True) (call.prog (process t))
      (Idle process t) := by
  cases call with
  | withWriterLock rounds o steps fails => exact withWriterLock_safe rounds o steps fails
  | elapse ms =>
      exact (quiet_keeps idle_durable (fun _ h => h.alive) fun _ => rfl).conseq (fun _ _ h => h)
        (fun _ _ _ _ => trivial) fun _ _ _ _ => trivial

theorem crash_safe : (lockContract process).CrashSafe (lockSystem process) := by
  intro p damage hcrash x hx _
  have hrespects : Respects process (.crashed p) x
      { x.world with alive := Function.update x.world.alive (p : Int) false } := rfl
  obtain rfl := Option.some.inj hcrash
  exact ⟨hx.step hrespects, hrespects⟩

end Callers

/-! ## Whole runs -/

theorem initial_coherent (process : Nat → Nat) {w : Disk}
    (hfresh : ∀ path file, w.names path = some file → file < w.fresh) :
    Coherent process ⟨w, []⟩ where
  fresh := hfresh
  openedFresh _ _ _ h := by cases h
  openedOnce _ _ _ _ _ h := by cases h
  written _ _ _ h := by cases h
  atomic := trivial
  held _ h := by cases h

/-- A caller of the list runs its call. -/
theorem thread_initial {process : Nat → Nat} {w : Disk} {calls : List LockCall} {t : Nat}
    {p : LockProg Unit} (h : System.thread (initial process w calls) t = some p) :
    ∃ call, calls[t]? = some call ∧ p = call.prog (process t) := by
  unfold System.thread initial at h
  rw [List.getElem?_mapIdx] at h
  cases hcall : calls[t]? with
  | none =>
      rw [hcall] at h
      cases h
  | some call =>
      rw [hcall] at h
      exact ⟨call, rfl, (Option.some.inj h).symm⟩

/-- Two processes, and no file. -/
def emptyDisk : Disk where
  names _ := none
  files _ := ⟨[], 0⟩
  fresh := 0
  now := 0
  alive pid := decide (pid = 1 ∨ pid = 2)
  counters _ := 0

def twoWriters : List LockCall :=
  [.withWriterLock 1 ⟨5000, 30000⟩ 1 false, .withWriterLock 2 ⟨5000, 30000⟩ 1 false,
    .elapse 30000]

-- A writer that sleeps between making its file and writing it for longer than the files are
-- trusted: the guess is wrong, and both are inside.
example : (((lockSystem (· + 1)).replay (initial (· + 1) emptyDisk twoWriters)
    (List.replicate 3 (.run 0) ++ [.run 2] ++ List.replicate 17 (.run 1) ++
      List.replicate 3 (.run 0))).map fun c =>
        (inside (· + 1) 0 c.snap.trace, inside (· + 1) 1 c.snap.trace)) = some (true, true) := by
  decide +kernel

end AgentGather.Storage.WriterLock
