import AgentGather.Storage.RoomStore

/-!
# The discipline of the writer lock

Of an existing room, files change only under the writer lock, and only the holder
releases it.  For any invariant that the quiet steps of the storage layer keep, this module
gives the rules to reason about one caller among any others: what it holds the lock for
and what it has read stays as it is.
-/

namespace AgentGather.Storage

open AgentGather.Library AgentGather.Protocol

variable {μ : Type}

/-- The step changes a file of an existing room. -/
def RoomStep.isWrite : RoomStep → Bool
  | .wroteState _ _ => true
  | .wroteParticipants _ => true
  | .wroteBrief _ => true
  | .appended _ => true
  | .created _ => true
  | .filled _ => true
  | _ => false

/-- The event changes a file of an existing room. -/
def isWriteEvent : Event RoomStep → Bool
  | .ran _ l => l.isWrite
  | _ => false

/-- Steps that write no file keep the invariant. -/
def KeptWithoutWrites (I : Snapshot (World μ) RoomStep → Prop) : Prop :=
  ∀ x e w, I x → isWriteEvent e = false → w.files = x.world.files → I (x.record e w)

/-- The step neither writes a file nor announces a change of the process's memory, and
tells the time it is made at. -/
def RoomStep.isQuiet (clock : Nat) : RoomStep → Bool
  | .now c => c == clock
  | .pending _ _ => false
  | .nothingPending => false
  | .fired _ _ => false
  | l => !l.isWrite

/-- The event is no more than that, if it is a step at all. -/
def isQuietEvent (clock : Nat) : Event RoomStep → Bool
  | .ran _ l => l.isQuiet clock
  | _ => true

/-- A quiet step leaves files and memory, and the clock does not go back. -/
structure QuietStep (e : Event RoomStep) (w w' : World μ) : Prop where
  event : isQuietEvent w.clock e = true
  files : w'.files = w.files
  memory : w'.memory = w.memory
  clock : w.clock ≤ w'.clock

/-- Quiet steps keep the invariant. -/
def KeptQuietly (I : Snapshot (World μ) RoomStep → Prop) : Prop :=
  ∀ x e w, I x → QuietStep e x.world w → I (x.record e w)

theorem RoomStep.isWrite_of_isQuiet {l : RoomStep} {clock : Nat}
    (h : l.isQuiet clock = true) : l.isWrite = false := by
  cases l <;> first | rfl | cases h

theorem QuietStep.noWrite {e : Event RoomStep} {w w' : World μ} (h : QuietStep e w w') :
    isWriteEvent e = false := by
  rcases e with ⟨t, l⟩ | ⟨t, l⟩ | p
  · exact RoomStep.isWrite_of_isQuiet h.event
  · rfl
  · rfl

theorem KeptWithoutWrites.quietly {I : Snapshot (World μ) RoomStep → Prop}
    (h : KeptWithoutWrites I) : KeptQuietly I :=
  fun x e w hx hstep => h x e w hx hstep.noWrite hstep.files

/-- What an event must leave to a lock holder it is foreign to. -/
def lockGuar (process : Nat → Nat) (e : Event RoomStep) (x : Snapshot (World μ) RoomStep)
    (w : World μ) : Prop :=
  ∀ t, (faultySystem μ process).Foreign t e → x.world.lock = some t →
    w.lock = some t ∧ w.files = x.world.files ∧ isWriteEvent e = false

/-- The discipline, with an invariant of one's own. -/
def lockContract (process : Nat → Nat) (I : Snapshot (World μ) RoomStep → Prop) :
    Contract (World μ) RoomStep where
  inv := I
  guar := lockGuar process
  allow := fun _ _ => True

/-- Safety of a program of caller `t` under the discipline. -/
abbrev LockSafe (process : Nat → Nat) (I : Snapshot (World μ) RoomStep → Prop) (t : Nat)
    {α : Type} (Q : α → Snapshot (World μ) RoomStep → Prop)
    (E : Failure → Snapshot (World μ) RoomStep → Prop) (p : RoomProg μ α)
    (P : Snapshot (World μ) RoomStep → Prop) : Prop :=
  (lockContract process I).Safe (faultySystem μ process) t Q E p P

/-- No event of another caller falsifies `P`. -/
abbrev LockStable (process : Nat → Nat) (I : Snapshot (World μ) RoomStep → Prop) (t : Nat)
    (P : Snapshot (World μ) RoomStep → Prop) : Prop :=
  (lockContract process I).Stable (faultySystem μ process) t P

/-- Caller `t` holds the lock. -/
def Locked (t : Nat) (x : Snapshot (World μ) RoomStep) : Prop := x.world.lock = some t

/-- Caller `t` holds the lock, the history is as `R` and the files are as `p` says. -/
structure Holding (t : Nat) (R : List (Event RoomStep) → Prop) (p : RoomFiles → Prop)
    (x : Snapshot (World μ) RoomStep) : Prop where
  lock : x.world.lock = some t
  past : R x.trace
  files : p x.world.files

/-- What `R` says of a history survives every event that writes nothing, the caller's
own taking of the lock apart. -/
def Enduring (t : Nat) (R : List (Event RoomStep) → Prop) : Prop :=
  ∀ e es, isWriteEvent e = false → e ≠ .ran t .acquired → R es → R (e :: es)

/-- Nothing said. -/
abbrev anyPast : List (Event RoomStep) → Prop := fun _ => True

abbrev anyFiles : RoomFiles → Prop := fun _ => True

theorem anyPast_enduring (t : Nat) : Enduring t anyPast := fun _ _ _ _ _ => trivial

variable {process : Nat → Nat} {I : Snapshot (World μ) RoomStep → Prop} {t : Nat}
  {R : List (Event RoomStep) → Prop}

theorem holding_stable (hR : Enduring t R) (p : RoomFiles → Prop) :
    LockStable process I t (Holding t R p) := by
  rintro e x w hf _ _ hguar ⟨hlock, hpast, hp⟩
  obtain ⟨hlock', hfiles, hwrite⟩ := hguar t hf hlock
  refine ⟨hlock', hR e _ hwrite ?_ hpast, hfiles ▸ hp⟩
  rintro rfl
  exact hf rfl

/-- An event that keeps the invariant, writes nothing and leaves the lock to whoever else
holds it. -/
theorem keeps_of_noWrite {x : Snapshot (World μ) RoomStep} {e : Event RoomStep}
    {w : World μ} (hI : I (x.record e w)) (he : isWriteEvent e = false)
    (hfiles : w.files = x.world.files)
    (hlock : ∀ u, (faultySystem μ process).Foreign u e → x.world.lock = some u →
      w.lock = some u) : (lockContract process I).Keeps e x w :=
  ⟨hI, fun u hf hu => ⟨hlock u hf hu, hfiles, he⟩⟩

/-- A quiet step that leaves the lock to whoever else holds it. -/
theorem keeps_quietly (hI : KeptQuietly I) {x : Snapshot (World μ) RoomStep} (hx : I x)
    {e : Event RoomStep} {w : World μ} (hstep : QuietStep e x.world w)
    (hlock : ∀ u, (faultySystem μ process).Foreign u e → x.world.lock = some u →
      w.lock = some u) : (lockContract process I).Keeps e x w :=
  keeps_of_noWrite (hI x e w hx hstep) hstep.noWrite hstep.files hlock

/-- A step that fails changes nothing. -/
theorem keeps_failed (hI : KeptQuietly I) {x : Snapshot (World μ) RoomStep} (hx : I x)
    (u : Nat) (l : RoomStep) : (lockContract process I).Keeps (.failed u l) x x.world :=
  keeps_quietly hI hx ⟨rfl, rfl, rfl, le_refl _⟩ fun _ _ hu => hu

/-- An event of the lock holder that writes keeps the discipline. -/
theorem keeps_of_holding {x : Snapshot (World μ) RoomStep} {l : RoomStep} {w : World μ}
    (hlock : x.world.lock = some t) (hI : I (x.record (.ran t l) w)) :
    (lockContract process I).Keeps (.ran t l) x w :=
  ⟨hI, fun _ hf hu => absurd (Option.some.inj (hlock.symm.trans hu)) hf⟩

/-! ## Rules for single steps -/

/-- An assertion that the caller's own steps of the kinds `K` keep, failed ones
included. -/
def KeptByOwn (t : Nat) (K : RoomStep → Prop) (P : Snapshot (World μ) RoomStep → Prop) :
    Prop :=
  ∀ x w l, K l → l.isWrite = false → P x → w.files = x.world.files →
    w.lock = x.world.lock → P (x.record (.ran t l) w) ∧ P (x.record (.failed t l) w)

/-- A step that keeps the invariant, writes no file and leaves the lock alone. -/
theorem step_safe (hI : KeptQuietly I) {α : Type} {K : RoomStep → Prop}
    {P : Snapshot (World μ) RoomStep → Prop} (hstable : LockStable process I t P)
    (hown : KeptByOwn t K P) {label : World μ → RoomStep} {ready : World μ → Bool}
    {effect : World μ → World μ} {result : World μ → Except Failure α}
    (hstep : ∀ x, I x → P x → ready x.world = true →
      I (x.record (.ran t (label x.world)) (effect x.world)))
    (hwrite : ∀ w, (label w).isWrite = false ∧ K (label w))
    (hfiles : ∀ w, (effect w).files = w.files) (hlock : ∀ w, (effect w).lock = w.lock) :
    LockSafe process I t
      (fun a y => P y ∧ ∃ x w, y = x.record (.ran t (label w)) (effect w) ∧
        x.world = w ∧ I x ∧ P x ∧ ready w = true ∧ result w = .ok a)
      (fun _ => P) (Prog.action label ready effect result) P := by
  refine Contract.Safe.action hstable (fun x hx hp hr _ => ?_) ?_ ?_ ?_
  · have hw : isWriteEvent (.ran t (label x.world)) = false := (hwrite _).1
    exact keeps_of_noWrite (hstep x hx hp hr) hw (hfiles _) fun u _ hu => (hlock _).trans hu
  · intro x a hx hp hr _ ha
    exact ⟨(hown x _ _ (hwrite _).2 (hwrite _).1 hp (hfiles _) (hlock _)).1,
      x, x.world, rfl, rfl, hx, hp, hr, ha⟩
  · intro x e _ hp _ _ _
    exact (hown x _ _ (hwrite _).2 (hwrite _).1 hp (hfiles _) (hlock _)).1
  · intro x e hx hp _ _
    exact ⟨keeps_failed hI hx t _, (hown x _ _ (hwrite _).2 (hwrite _).1 hp rfl rfl).2⟩

/-- The same, when only the assertion matters. -/
theorem step_keeps (hI : KeptQuietly I) {α : Type} {K : RoomStep → Prop}
    {P : Snapshot (World μ) RoomStep → Prop} (hstable : LockStable process I t P)
    (hown : KeptByOwn t K P) {label : World μ → RoomStep} {ready : World μ → Bool}
    {effect : World μ → World μ} {result : World μ → Except Failure α}
    (hstep : ∀ x, I x → P x → ready x.world = true →
      I (x.record (.ran t (label x.world)) (effect x.world)))
    (hwrite : ∀ w, (label w).isWrite = false ∧ K (label w))
    (hfiles : ∀ w, (effect w).files = w.files) (hlock : ∀ w, (effect w).lock = w.lock) :
    LockSafe process I t (fun _ => P) (fun _ => P) (Prog.action label ready effect result) P :=
  (step_safe hI hstable hown hstep hwrite hfiles hlock).conseq (fun _ _ h => h)
    (fun _ _ _ h => h.1) fun _ _ _ h => h

/-- A quiet look at the world. -/
theorem look_safe (hI : KeptQuietly I) {α : Type} {K : RoomStep → Prop}
    {P : Snapshot (World μ) RoomStep → Prop} (hstable : LockStable process I t P)
    (hown : KeptByOwn t K P) {label : World μ → RoomStep}
    {result : World μ → Except Failure α}
    (hquiet : ∀ w : World μ, (label w).isQuiet w.clock = true ∧ K (label w)) :
    LockSafe process I t
      (fun a y => P y ∧ ∃ x w, y = x.record (.ran t (label w)) w ∧ x.world = w ∧
        I x ∧ P x ∧ result w = .ok a)
      (fun _ => P) (Prog.query label result) P := by
  have hsafe := @step_safe μ process I t hI _ _ _ hstable hown label (fun _ => true) id result
    (fun x hx _ _ => hI x _ _ hx ⟨(hquiet _).1, rfl, rfl, le_refl _⟩)
    (fun w => ⟨RoomStep.isWrite_of_isQuiet (hquiet w).1, (hquiet w).2⟩) (fun _ => rfl)
    fun _ => rfl
  refine hsafe.conseq (fun _ _ h => h) ?_ fun _ _ _ h => h
  rintro a y - ⟨hp, x, w, hy, hw, hx, hpx, -, ha⟩
  exact ⟨hp, x, w, hy, hw, hx, hpx, ha⟩

theorem holding_own (hR : Enduring t R) (p : RoomFiles → Prop) :
    KeptByOwn t (· ≠ .acquired) (Holding (μ := μ) t R p) := by
  rintro x w l hl hw ⟨hlock, hpast, hp⟩ hfiles hlock'
  refine ⟨⟨hlock'.trans hlock, hR _ _ hw ?_ hpast, hfiles ▸ hp⟩,
    ⟨hlock'.trans hlock, hR _ _ rfl (fun h => nomatch h) hpast, hfiles ▸ hp⟩⟩
  rintro ⟨⟩
  exact hl rfl

theorem true_own (K : RoomStep → Prop) : KeptByOwn (μ := μ) t K fun _ => True :=
  fun _ _ _ _ _ _ _ _ => ⟨trivial, trivial⟩

/-! ## Rules for the lock -/

/-- A section under the lock, entered from `P`: what the body ends with outlasts the
release, and `E` also holds where taking or releasing the lock fails. -/
theorem withWriterLock_ends (hI : KeptQuietly I) {α : Type} {body : RoomProg μ α}
    {P E : Snapshot (World μ) RoomStep → Prop} {A : α → Snapshot (World μ) RoomStep → Prop}
    (hstable : LockStable process I t P)
    (henter : ∀ x, I x → P x → R (.ran t .acquired :: x.trace))
    (hA : ∀ a, LockStable process I t (A a)) (hE : LockStable process I t E)
    (hAleave : ∀ a x w, A a x → A a (x.record (.ran t .released) w))
    (hEleave : ∀ x w, E x → E (x.record (.ran t .released) w))
    (henterFailed : ∀ x l, I x → P x → E (x.record (.failed t l) x.world))
    (hAfailed : ∀ a x l, I x → A a x → E (x.record (.failed t l) x.world))
    (hEfailed : ∀ x l, I x → E x → E (x.record (.failed t l) x.world))
    (hbody : LockSafe process I t (fun a x => A a x ∧ Locked t x)
      (fun _ x => E x ∧ Locked t x) body (Holding t R anyFiles)) :
    LockSafe process I t A (fun _ => E) (withWriterLock t body) P := by
  have hlocked : LockStable process I t (Locked t) := by
    rintro e x w hf _ _ hguar hlock
    exact (hguar t hf hlock).1
  have hrelease {B : Snapshot (World μ) RoomStep → Prop} (hB : LockStable process I t B)
      (hleave : ∀ x w, B x → B (x.record (.ran t .released) w))
      (hfailed : ∀ x l, I x → B x → E (x.record (.failed t l) x.world)) :
      LockSafe process I t (fun _ => B) (fun _ => E) (@releaseWriterLock μ)
        fun x => B x ∧ Locked t x := by
    refine Contract.Safe.action (hB.and hlocked) ?_ (fun x _ _ hb _ _ _ => hleave x _ hb.1)
      (fun x _ _ _ _ _ h => nomatch h) ?_
    · intro x hx hp _ _
      refine keeps_quietly hI hx ⟨rfl, rfl, rfl, le_refl _⟩ fun u hf hu => ?_
      exact absurd (Option.some.inj (hp.2.symm.trans hu)) hf
    · exact fun x e hx hp _ _ => ⟨keeps_failed hI hx t _, hfailed x _ hx hp.1⟩
  refine Contract.Safe.bind (R := fun _ => Holding t R anyFiles) ?_ fun _ =>
    hbody.finallyDo (fun a => hrelease (hA a) (hAleave a) (hAfailed a))
      fun _ => hrelease hE hEleave hEfailed
  refine Contract.Safe.action hstable ?_ ?_ (fun _ _ _ _ _ _ h => nomatch h) ?_
  · intro x hx _ hfree _
    refine keeps_quietly hI hx ⟨rfl, rfl, rfl, le_refl _⟩ fun u _ hu => ?_
    rw [hu] at hfree
    cases hfree
  · intro x _ hx hp _ _ _
    exact ⟨rfl, henter x hx hp, trivial⟩
  · exact fun x e hx hp _ _ => ⟨keeps_failed hI hx t _, henterFailed x _ hx hp⟩

/-- The same, when of the end only what `ψ` says of its result matters. -/
theorem withWriterLock_lockSafe (hI : KeptQuietly I) {α : Type} {body : RoomProg μ α}
    {P : Snapshot (World μ) RoomStep → Prop} {ψ : α → Prop}
    (hstable : LockStable process I t P)
    (henter : ∀ x, I x → P x → R (.ran t .acquired :: x.trace))
    (hbody : LockSafe process I t (fun a x => ψ a ∧ Locked t x) (fun _ => Locked t) body
      (Holding t R anyFiles)) :
    LockSafe process I t (fun a _ => ψ a) (fun _ _ => True) (withWriterLock t body) P :=
  withWriterLock_ends hI hstable henter (fun _ => .of_const _) (.of_const True)
    (fun _ _ _ h => h) (fun _ _ _ => trivial) (fun _ _ _ _ => trivial)
    (fun _ _ _ _ _ => trivial) (fun _ _ _ _ => trivial)
    (hbody.conseq (fun _ _ h => h) (fun _ _ _ h => h) fun _ _ _ h => ⟨trivial, h⟩)

/-! ## Rules for reading and writing under the lock -/

/-- Reading something of the files, with what holds where that fails or finds nothing
usable. -/
theorem query_ends (hI : KeptQuietly I) (hR : Enduring t R) {α : Type}
    {p : RoomFiles → Prop} {label : World μ → RoomStep} {result : World μ → Except Failure α}
    {q : α → RoomFiles → Prop} {E : Snapshot (World μ) RoomStep → Prop}
    (hlabel : ∀ w : World μ, (label w).isQuiet w.clock = true ∧ label w ≠ .acquired)
    (hq : ∀ w a, p w.files → result w = .ok a → q a w.files)
    (hunusable : ∀ x e, I x → Holding t R p x → result x.world = .error e →
      E (x.record (.ran t (label x.world)) x.world))
    (hfailed : ∀ x, I x → Holding t R p x →
      E (x.record (.failed t (label x.world)) x.world)) :
    LockSafe process I t (fun a => Holding t R fun f => p f ∧ q a f)
      (fun _ x => E x ∧ Locked t x) (Prog.query label result) (Holding t R p) := by
  have hown := holding_own (μ := μ) (t := t) hR p
  have hwrite (w : World μ) : (label w).isWrite = false :=
    RoomStep.isWrite_of_isQuiet (hlabel w).1
  refine Contract.Safe.action (holding_stable hR p) ?_ ?_ ?_ ?_
  · intro x hx _ _ _
    exact keeps_quietly hI hx ⟨(hlabel _).1, rfl, rfl, le_refl _⟩ fun _ _ hu => hu
  · intro x a _ hp _ _ ha
    have hkept := (hown x x.world _ (hlabel x.world).2 (hwrite _) hp rfl rfl).1
    exact ⟨hkept.lock, hkept.past, hp.files, hq _ a hp.files ha⟩
  · exact fun x e hx hp _ _ he => ⟨hunusable x e hx hp he, hp.lock⟩
  · exact fun x e hx hp _ _ => ⟨keeps_failed hI hx t _, hfailed x hx hp, hp.lock⟩

/-- Reading something of the files that is there. -/
theorem query_holding (hI : KeptQuietly I) (hR : Enduring t R) {α : Type}
    {p : RoomFiles → Prop} {label : World μ → RoomStep} {result : World μ → Except Failure α}
    {q : α → RoomFiles → Prop}
    (hlabel : ∀ w : World μ, (label w).isQuiet w.clock = true ∧ label w ≠ .acquired)
    (hq : ∀ w a, result w = .ok a → q a w.files) :
    LockSafe process I t (fun a => Holding t R fun f => p f ∧ q a f) (fun _ => Locked t)
      (Prog.query label result) (Holding t R p) :=
  (query_ends (E := fun _ => True) hI hR hlabel (fun w a _ ha => hq w a ha)
    (fun _ _ _ _ _ => trivial) fun _ _ _ => trivial).conseq (fun _ _ h => h)
    (fun _ _ _ h => h) fun _ _ _ h => h.2

theorem readRoomState_holding (hI : KeptQuietly I) (hR : Enduring t R)
    (p : RoomFiles → Prop) :
    LockSafe process I t
      (fun r => Holding t R fun f => p f ∧ ∃ raw, f.state = .whole raw ∧
        r = withRoomDefaults raw)
      (fun _ => Locked t) (@readRoomState μ) (Holding t R p) := by
  refine query_holding hI hR (fun _ => ⟨rfl, by simp⟩) fun w r hr => ?_
  cases hs : w.files.state.read with
  | error e => rw [hs] at hr; cases hr
  | ok raw =>
      rw [hs] at hr
      exact ⟨raw, Stored.eq_whole_of_read hs, (Except.ok.inj hr).symm⟩

theorem readParticipants_holding (hI : KeptQuietly I) (hR : Enduring t R)
    (p : RoomFiles → Prop) :
    LockSafe process I t
      (fun ps => Holding t R fun f => p f ∧ f.participants = .whole ps)
      (fun _ => Locked t) (@readParticipants μ) (Holding t R p) :=
  query_holding hI hR (fun _ => ⟨rfl, by simp⟩) fun _ _ h => Stored.eq_whole_of_read h

theorem readJsonLines_holding (hI : KeptQuietly I) (hR : Enduring t R)
    (p : RoomFiles → Prop) :
    LockSafe process I t (fun ms => Holding t R fun f => p f ∧ f.messages = .whole ms)
      (fun _ => Locked t) (@readJsonLines μ) (Holding t R p) :=
  query_holding hI hR (fun _ => ⟨rfl, by simp⟩) fun _ _ h => Stored.eq_whole_of_read h

/-- A write of the lock holder, whose effect on the invariant and on what is known of the
history is to be shown. -/
theorem write_ends (hI : KeptQuietly I) (hR : Enduring t R)
    {S : List (Event RoomStep) → Prop} {p q : RoomFiles → Prop} (l : RoomStep)
    (effect : RoomFiles → RoomFiles) {E : Snapshot (World μ) RoomStep → Prop}
    (hinv : ∀ x, I x → Holding t R p x →
      I (x.record (.ran t l) { x.world with files := effect x.world.files }))
    (hpast : ∀ es, R es → S (.ran t l :: es)) (hq : ∀ f, p f → q (effect f))
    (hfailed : ∀ x, I x → Holding t R p x → E (x.record (.failed t l) x.world)) :
    LockSafe process I t (fun _ => Holding t S q) (fun _ x => E x ∧ Locked t x)
      (Prog.update (fun _ => l) fun w : World μ => { w with files := effect w.files })
      (Holding t R p) := by
  refine Contract.Safe.action (holding_stable hR p) ?_ ?_ (fun _ _ _ _ _ _ h => nomatch h) ?_
  · intro x hx hp _ _
    exact keeps_of_holding hp.lock (hinv x hx hp)
  · rintro x _ _ ⟨hlock, hr, hp⟩ _ _ _
    exact ⟨hlock, hpast _ hr, hq _ hp⟩
  · rintro x e hx hp _ _
    exact ⟨keeps_failed hI hx t _, hfailed x hx hp, hp.lock⟩

/-- A write of the lock holder, whose effect on the invariant is to be shown. -/
theorem write_holding (hI : KeptQuietly I) (hR : Enduring t R)
    {p q : RoomFiles → Prop} (l : RoomStep) (effect : RoomFiles → RoomFiles)
    (hinv : ∀ x, I x → Holding t R p x →
      I (x.record (.ran t l) { x.world with files := effect x.world.files }))
    (hq : ∀ f, p f → q (effect f)) :
    LockSafe process I t (fun _ => Holding t anyPast q) (fun _ => Locked t)
      (Prog.update (fun _ => l) fun w : World μ => { w with files := effect w.files })
      (Holding t R p) :=
  (write_ends (E := fun _ => True) hI hR l effect hinv (fun _ _ => trivial) hq
    fun _ _ _ => trivial).conseq (fun _ _ h => h) (fun _ _ _ h => h) fun _ _ _ h => h.2

/-- The mode of a file is set. -/
theorem chmod_holding (hI : KeptQuietly I) (hR : Enduring t R) (p : RoomFiles → Prop)
    (file : RoomFile) :
    LockSafe process I t (fun _ => Holding t R p) (fun _ => Locked t)
      (Prog.update (fun _ => .chmod file) (id : World μ → World μ)) (Holding t R p) :=
  (step_keeps hI (holding_stable hR p) (holding_own hR p)
    (fun x hx _ _ => hI x _ _ hx ⟨rfl, rfl, rfl, le_refl _⟩) (fun _ => ⟨rfl, by simp⟩)
    (fun _ => rfl) fun _ => rfl).conseq (fun _ _ h => h) (fun _ _ _ h => h)
    fun _ _ _ h => h.lock

/-- Crashes keep the discipline: they only free the lock of the crashed process. -/
theorem lockContract_crashSafe (hI : KeptQuietly I) :
    (lockContract process I).CrashSafe (faultySystem μ process) := by
  rintro p damage ⟨⟩ x hx -
  refine keeps_quietly hI hx ⟨rfl, rfl, rfl, le_refl _⟩ fun u hf hu => ?_
  have hp : (process u == p) = false := beq_eq_false_iff_ne.mpr hf
  simp [hu, hp]

end AgentGather.Storage
