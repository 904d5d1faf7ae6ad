import AgentGather.Storage.WriterLock

/-!
# The writer lock is one value

The lock as everything else takes it: somebody has it or nobody, it is taken when nobody has it,
and a process that dies gives it back.  Its files say who has it, as long as every step is one that
the rule below permits: this module states the rule and proves that the steps it permits keep the
files true to the value.
-/

namespace AgentGather.Storage.WriterLock

open AgentGather.Library AgentGather.Protocol

/-! ## The abstract lock -/

inductive LockTurn where
  | takes
  | gives
  | neither
deriving DecidableEq, Repr

/-- Taking the lock ends with its `chmod`; whoever removes its file gives it back, if it is his. -/
def LockStep.turn : LockStep → LockTurn
  | .locked => .takes
  | .removed .lock => .gives
  | _ => .neither

/-- Who has the lock, the latest event first. -/
def holder (process : Nat → Nat) : List (Event LockStep) → Option Nat
  | [] => none
  | .ran t l :: es =>
      match l.turn with
      | .takes => some t
      | .gives => if holder process es = some t then none else holder process es
      | .neither => holder process es
  | .failed _ _ :: es => holder process es
  | .crashed p :: es =>
      if (holder process es).any fun t => process t == p then none else holder process es

/-- The lock is taken only when nobody has it. -/
def Atomic (process : Nat → Nat) : List (Event LockStep) → Prop
  | [] => True
  | .ran _ l :: es => (l.turn = .takes → holder process es = none) ∧ Atomic process es
  | _ :: es => Atomic process es

/-- The caller has taken the lock, has not released it, and its process is alive. -/
def inside (process : Nat → Nat) (t : Nat) : List (Event LockStep) → Bool
  | [] => false
  | .ran u l :: es =>
      match l.turn with
      | .takes => u == t || inside process t es
      | .gives => u != t && inside process t es
      | .neither => inside process t es
  | .failed _ _ :: es => inside process t es
  | .crashed p :: es => process t != p && inside process t es

/-- The step finds a file to be given up without knowing it: it has no readable record and is old,
or it is a reclaim lock. -/
def LockStep.guesses : LockStep → Bool
  | .probed .reclaim alive => !alive
  | .aged _ older => older
  | _ => false

/-- At most one caller is inside, and the lock has its record. -/
structure Exclusive (process : Nat → Nat) (x : Snapshot Disk LockStep) : Prop where
  atomic : Atomic process x.trace
  holds : ∀ t, inside process t x.trace = true → holder process x.trace = some t
  record : ∀ t, inside process t x.trace = true → ∃ file createdAt,
    x.world.names .lock = some file ∧
      (x.world.files file).raw = lockRecord (process t) createdAt

/-- Who is inside has the lock, where it is taken only when nobody has it. -/
theorem holder_of_inside {process : Nat → Nat} {es : List (Event LockStep)}
    (h : Atomic process es) {t : Nat} (ht : inside process t es = true) :
    holder process es = some t := by
  induction es with
  | nil => cases ht
  | cons e es ih =>
      cases e with
      | ran u l =>
          obtain ⟨hfree, hatomic⟩ := h
          rw [inside] at ht
          rw [holder]
          cases hturn : l.turn with
          | takes =>
              simp only [hturn, Bool.or_eq_true, beq_iff_eq] at ht ⊢
              rcases ht with rfl | hbefore
              · rfl
              · have hsome := ih hatomic hbefore
                rw [hfree hturn] at hsome
                cases hsome
          | gives =>
              simp only [hturn, Bool.and_eq_true, bne_iff_ne] at ht ⊢
              rw [ih hatomic ht.2, if_neg]
              intro heq
              exact ht.1 (Option.some.inj heq).symm
          | neither =>
              simp only [hturn] at ht ⊢
              exact ih hatomic ht
      | failed u l => exact ih h ht
      | crashed p =>
          rw [inside, Bool.and_eq_true, bne_iff_ne] at ht
          rw [holder, ih h ht.2, if_neg]
          rw [Option.any_some, beq_iff_eq]
          exact ht.1

/-! ## What is known of the files -/

/-- The file was made by this caller, under this path. -/
def Opened (t : Nat) (path : LockPath) (file : Nat) (x : Snapshot Disk LockStep) : Prop :=
  .ran t (.opened path file) ∈ x.trace

/-- The path stands for a file that this caller made there. -/
structure Owns (t : Nat) (path : LockPath) (file : Nat) (x : Snapshot Disk LockStep) : Prop where
  named : x.world.names path = some file
  opened : Opened t path file x

/-- A record of a process that is dead. -/
def Dead (w : Disk) (raw : List Char) : Prop :=
  ∃ pid, recordPid raw = some (.whole pid) ∧ w.alive pid = false

/-- A file of the caller stands for the lock, with nothing or with the caller's record in it. -/
structure Mine (process : Nat → Nat) (t file : Nat) (raw : List Char)
    (x : Snapshot Disk LockStep) : Prop where
  owns : Owns t .lock file x
  text : (x.world.files file).raw = raw
  record : raw = [] ∨ ∃ createdAt, raw = lockRecord (process t) createdAt
  alive : x.world.alive (process t) = true

structure Coherent (process : Nat → Nat) (x : Snapshot Disk LockStep) : Prop where
  fresh : ∀ path file, x.world.names path = some file → file < x.world.fresh
  openedFresh : ∀ t path file, Opened t path file x → file < x.world.fresh
  openedOnce : ∀ t u path path' file, Opened t path file x → Opened u path' file x →
    t = u ∧ path = path'
  written : ∀ t path file, Opened t path file x → (x.world.files file).raw = [] ∨
    ∃ createdAt, (x.world.files file).raw = lockRecord (process t) createdAt
  atomic : Atomic process x.trace
  held : ∀ t, holder process x.trace = some t → ∃ file createdAt,
    Mine process t file (lockRecord (process t) createdAt) x

/-- What a step may do. -/
def LockStep.Permitted (process : Nat → Nat) (t : Nat) (x : Snapshot Disk LockStep) :
    LockStep → Prop
  | .opened path file => x.world.names path = none ∧ file = x.world.fresh
  | .wrote file raw =>
      (∃ path, Opened t path file x) ∧ ∃ createdAt, raw = lockRecord (process t) createdAt
  | .locked => holder process x.trace ≠ some t ∧
      ∃ file createdAt, Mine process t file (lockRecord (process t) createdAt) x
  | .removed .lock => ∀ file, x.world.names .lock = some file → Opened t .lock file x ∨
      Dead x.world (x.world.files file).raw ∧ ∃ mine, Owns t .reclaim mine x
  | .removed .reclaim => ∀ file, x.world.names .reclaim = some file → Opened t .reclaim file x
  | .removed (.takeover _ _) => False
  | .renamed _ _ => False
  | .linked _ _ => False
  | _ => True

/-- What an event may do: only the living act. -/
def Respects (process : Nat → Nat) (e : Event LockStep) (x : Snapshot Disk LockStep)
    (w : Disk) : Prop :=
  match e with
  | .ran t l => w = l.apply x.world ∧ x.world.alive (process t) = true ∧ l.Permitted process t x
  | .failed _ _ => w = x.world
  | .crashed p => w = { x.world with alive := Function.update x.world.alive (p : Int) false }

/-! ### Records -/

theorem recordPid_nil : recordPid [] = none := by decide

theorem recordPid_lockRecord (pid createdAt : Nat) :
    recordPid (lockRecord pid createdAt) = some (.whole pid) := by
  unfold recordPid lockRecord
  rw [Json.parse_print]
  · rfl
  · exact ⟨trivial, trivial, trivial⟩

/-- The record of a living process is not that of a dead one, and an empty file is no record. -/
theorem Mine.not_dead {process : Nat → Nat} {t file : Nat} {raw : List Char}
    {x : Snapshot Disk LockStep} (h : Mine process t file raw x) : ¬ Dead x.world raw := by
  rintro ⟨pid, hpid, hdead⟩
  rcases h.record with rfl | ⟨createdAt, rfl⟩
  · rw [recordPid_nil] at hpid
    cases hpid
  · rw [recordPid_lockRecord] at hpid
    obtain rfl := Pid.whole.inj (Option.some.inj hpid)
    rw [h.alive] at hdead
    cases hdead

/-- Whoever made a file with the record of a dead process is dead. -/
theorem Coherent.dead_of_opened {process : Nat → Nat} {x : Snapshot Disk LockStep}
    (h : Coherent process x) {t : Nat} {path : LockPath} {file : Nat}
    (hopened : Opened t path file x) (hdead : Dead x.world (x.world.files file).raw) :
    x.world.alive (process t) = false := by
  obtain ⟨pid, hpid, hdead⟩ := hdead
  rcases h.written t path file hopened with hempty | ⟨createdAt, hrecord⟩
  · rw [hempty, recordPid_nil] at hpid
    cases hpid
  · rw [hrecord, recordPid_lockRecord] at hpid
    obtain rfl := Pid.whole.inj (Option.some.inj hpid)
    exact hdead

/-! ## What the steps keep -/

section Steps

variable {process : Nat → Nat} {x : Snapshot Disk LockStep} {e : Event LockStep} {w : Disk}

/-- A step that touches no file. -/
def LockStep.isQuiet : LockStep → Bool
  | .opened _ _ | .wrote _ _ | .locked | .removed _ | .renamed _ _ | .linked _ _ => false
  | _ => true

/-- The same files, and the same processes. -/
structure SameFiles (w w' : Disk) : Prop where
  names : w'.names = w.names
  files : w'.files = w.files
  fresh : w'.fresh = w.fresh
  alive : w'.alive = w.alive

theorem sameFiles_of_quiet {l : LockStep} (h : l.isQuiet = true) (w : Disk) :
    SameFiles w (l.apply w) := by
  cases l with
  | opened path file => cases h
  | wrote file raw => cases h
  | removed path => cases h
  | renamed source target => cases h
  | linked source target => cases h
  | _ => exact ⟨rfl, rfl, rfl, rfl⟩

theorem turn_of_quiet {l : LockStep} (h : l.isQuiet = true) : l.turn = .neither := by
  cases l with
  | locked => cases h
  | removed path => cases h
  | _ => rfl

theorem opened_record {t : Nat} {path : LockPath} {file : Nat} (h : Opened t path file x)
    (e : Event LockStep) (w : Disk) : Opened t path file (x.record e w) :=
  List.mem_cons_of_mem _ h

/-- What was opened was opened before, unless this is the step. -/
theorem opened_record_iff {t : Nat} {path : LockPath} {file : Nat} :
    Opened t path file (x.record e w) ↔
      e = .ran t (.opened path file) ∨ Opened t path file x := by
  unfold Opened
  rw [Snapshot.record_trace, List.mem_cons]
  exact or_congr_left eq_comm

theorem holder_ran_neither {t : Nat} {l : LockStep} (h : l.turn = .neither)
    (es : List (Event LockStep)) : holder process (.ran t l :: es) = holder process es := by
  rw [holder, h]

/-- A file of the caller that is left alone is still its own. -/
theorem Mine.kept {t file : Nat} {raw : List Char} (h : Mine process t file raw x)
    (hnames : w.names .lock = x.world.names .lock)
    (hfile : (w.files file).raw = (x.world.files file).raw)
    (halive : w.alive (process t) = x.world.alive (process t)) (e : Event LockStep) :
    Mine process t file raw (x.record e w) where
  owns := ⟨hnames.trans h.owns.named, opened_record h.owns.opened e w⟩
  text := hfile.trans h.text
  record := h.record
  alive := halive.trans h.alive

/-- An event that leaves the files, and opens none. -/
theorem Coherent.same (h : Coherent process x) (hsame : SameFiles x.world w)
    (hopened : ∀ t path file, e ≠ .ran t (.opened path file))
    (hatomic : Atomic process (e :: x.trace))
    (hholder : ∀ t, holder process (e :: x.trace) = some t → holder process x.trace = some t) :
    Coherent process (x.record e w) := by
  have hbefore {t : Nat} {path : LockPath} {file : Nat} (ho : Opened t path file (x.record e w)) :
      Opened t path file x := (opened_record_iff.mp ho).resolve_left (hopened t path file)
  constructor
  · intro path file hname
    rw [Snapshot.record_world, hsame.names] at hname
    rw [Snapshot.record_world, hsame.fresh]
    exact h.fresh path file hname
  · intro t path file ho
    rw [Snapshot.record_world, hsame.fresh]
    exact h.openedFresh t path file (hbefore ho)
  · intro t u path path' file ho ho'
    exact h.openedOnce t u path path' file (hbefore ho) (hbefore ho')
  · intro t path file ho
    rw [Snapshot.record_world, hsame.files]
    exact h.written t path file (hbefore ho)
  · exact hatomic
  · intro t ht
    obtain ⟨file, createdAt, hmine⟩ := h.held t (hholder t ht)
    exact ⟨file, createdAt, hmine.kept (congrFun hsame.names _) (by rw [hsame.files])
      (congrFun hsame.alive _) e⟩

theorem Coherent.failed (h : Coherent process x) (t : Nat) (l : LockStep) :
    Coherent process (x.record (.failed t l) x.world) :=
  h.same ⟨rfl, rfl, rfl, rfl⟩ (fun _ _ _ heq => by cases heq) h.atomic fun _ ht => ht

theorem Coherent.quiet (h : Coherent process x) {t : Nat} {l : LockStep}
    (hquiet : l.isQuiet = true) : Coherent process (x.record (.ran t l) (l.apply x.world)) := by
  have hturn := turn_of_quiet hquiet
  apply h.same (sameFiles_of_quiet hquiet x.world)
  · intro u path file heq
    obtain ⟨-, rfl⟩ := Event.ran.inj heq
    cases hquiet
  · refine ⟨fun htakes => ?_, h.atomic⟩
    rw [hturn] at htakes
    cases htakes
  · intro u hu
    rwa [holder_ran_neither hturn] at hu

theorem Coherent.crashed (h : Coherent process x) (p : Nat) :
    Coherent process (x.record (.crashed p)
      { x.world with alive := Function.update x.world.alive (p : Int) false }) := by
  have hbefore {t : Nat} {path : LockPath} {file : Nat}
      (ho : Opened t path file (x.record (.crashed p)
        { x.world with alive := Function.update x.world.alive (p : Int) false })) :
      Opened t path file x :=
    (opened_record_iff.mp ho).resolve_left fun heq => by cases heq
  constructor
  · exact h.fresh
  · exact fun t path file ho => h.openedFresh t path file (hbefore ho)
  · exact fun t u path path' file ho ho' =>
      h.openedOnce t u path path' file (hbefore ho) (hbefore ho')
  · exact fun t path file ho => h.written t path file (hbefore ho)
  · exact h.atomic
  · intro t ht
    rw [Snapshot.record_trace, holder] at ht
    split_ifs at ht with hgone
    obtain ⟨file, createdAt, hmine⟩ := h.held t ht
    rw [ht, Option.any_some, beq_iff_eq] at hgone
    refine ⟨file, createdAt, hmine.kept ?_ ?_ ?_ _⟩
    · rfl
    · rfl
    · exact Function.update_of_ne (fun heq => hgone (Int.ofNat_inj.mp heq)) _ _

theorem Coherent.opened (h : Coherent process x) {t : Nat} {path : LockPath}
    (hname : x.world.names path = none) :
    Coherent process (x.record (.ran t (.opened path x.world.fresh))
      ((LockStep.opened path x.world.fresh).apply x.world)) := by
  have hcases {u : Nat} {path' : LockPath} {file : Nat}
      (ho : Opened u path' file (x.record (.ran t (.opened path x.world.fresh))
        ((LockStep.opened path x.world.fresh).apply x.world))) :
      (t = u ∧ path = path' ∧ x.world.fresh = file) ∨
        Opened u path' file x ∧ file < x.world.fresh := by
    rcases opened_record_iff.mp ho with heq | hold
    · obtain ⟨rfl, hstep⟩ := Event.ran.inj heq
      obtain ⟨rfl, rfl⟩ := LockStep.opened.inj hstep
      exact .inl ⟨rfl, rfl, rfl⟩
    · exact .inr ⟨hold, h.openedFresh u path' file hold⟩
  have hfiles {file : Nat} (hlt : file < x.world.fresh) :
      ((LockStep.opened path x.world.fresh).apply x.world).files file = x.world.files file :=
    Function.update_of_ne (Nat.ne_of_lt hlt) _ _
  constructor
  · intro path' file hnamed
    change Function.update x.world.names path (some x.world.fresh) path' = some file at hnamed
    change file < x.world.fresh + 1
    by_cases hpath : path' = path
    · subst hpath
      rw [Function.update_self] at hnamed
      obtain rfl := Option.some.inj hnamed
      exact Nat.lt_succ_self _
    · rw [Function.update_of_ne hpath] at hnamed
      exact Nat.lt_succ_of_lt (h.fresh path' file hnamed)
  · intro u path' file ho
    change file < x.world.fresh + 1
    rcases hcases ho with ⟨-, -, rfl⟩ | ⟨-, hlt⟩
    · exact Nat.lt_succ_self _
    · exact Nat.lt_succ_of_lt hlt
  · intro u v path' path'' file ho ho'
    rcases hcases ho with ⟨rfl, rfl, rfl⟩ | ⟨hold, hlt⟩
    · rcases hcases ho' with ⟨rfl, rfl, -⟩ | ⟨-, hlt⟩
      · exact ⟨rfl, rfl⟩
      · exact absurd hlt (Nat.lt_irrefl _)
    · rcases hcases ho' with ⟨-, -, rfl⟩ | ⟨hold', -⟩
      · exact absurd hlt (Nat.lt_irrefl _)
      · exact h.openedOnce u v path' path'' file hold hold'
  · intro u path' file ho
    rcases hcases ho with ⟨-, -, rfl⟩ | ⟨hold, hlt⟩
    · left
      change (Function.update x.world.files x.world.fresh _ x.world.fresh).raw = []
      rw [Function.update_self]
    · rw [Snapshot.record_world, hfiles hlt]
      exact h.written u path' file hold
  · exact ⟨fun htakes => (by cases htakes), h.atomic⟩
  · intro u hu
    obtain ⟨file, createdAt, hmine⟩ := h.held u hu
    have hne : LockPath.lock ≠ path := by
      rintro rfl
      rw [hmine.owns.named] at hname
      cases hname
    have hlt := h.openedFresh u .lock file hmine.owns.opened
    exact ⟨file, createdAt, hmine.kept (Function.update_of_ne hne _ _)
      (congrArg LockFile.raw (hfiles hlt)) rfl _⟩

theorem Coherent.wrote (h : Coherent process x) {t : Nat} {path : LockPath} {file : Nat}
    (hopened : Opened t path file x) (createdAt : Nat) :
    Coherent process (x.record (.ran t (.wrote file (lockRecord (process t) createdAt)))
      ((LockStep.wrote file (lockRecord (process t) createdAt)).apply x.world)) := by
  have hbefore {u : Nat} {path' : LockPath} {file' : Nat}
      (ho : Opened u path' file' (x.record
        (.ran t (.wrote file (lockRecord (process t) createdAt)))
        ((LockStep.wrote file (lockRecord (process t) createdAt)).apply x.world))) :
      Opened u path' file' x :=
    (opened_record_iff.mp ho).resolve_left fun heq => by cases heq
  have hself : (((LockStep.wrote file (lockRecord (process t) createdAt)).apply x.world).files
      file).raw = lockRecord (process t) createdAt := by
    change (Function.update x.world.files file _ file).raw = _
    rw [Function.update_self]
  have hother {file' : Nat} (hne : file' ≠ file) :
      ((LockStep.wrote file (lockRecord (process t) createdAt)).apply x.world).files file' =
        x.world.files file' := Function.update_of_ne hne _ _
  constructor
  · exact h.fresh
  · exact fun u path' file' ho => h.openedFresh u path' file' (hbefore ho)
  · exact fun u v path' path'' file' ho ho' =>
      h.openedOnce u v path' path'' file' (hbefore ho) (hbefore ho')
  · intro u path' file' ho
    by_cases hfile : file' = file
    · subst hfile
      obtain ⟨rfl, -⟩ := h.openedOnce u t path' path file' (hbefore ho) hopened
      exact .inr ⟨createdAt, hself⟩
    · rw [Snapshot.record_world, hother hfile]
      exact h.written u path' file' (hbefore ho)
  · exact ⟨fun htakes => (by cases htakes), h.atomic⟩
  · intro u hu
    obtain ⟨file', createdAt', hmine⟩ := h.held u hu
    by_cases hfile : file' = file
    · subst hfile
      obtain ⟨rfl, -⟩ := h.openedOnce u t .lock path file' hmine.owns.opened hopened
      exact ⟨file', createdAt, ⟨hmine.owns.named, opened_record hmine.owns.opened _ _⟩, hself,
        .inr ⟨createdAt, rfl⟩, hmine.alive⟩
    · refine ⟨file', createdAt', hmine.kept ?_ ?_ ?_ _⟩
      · rfl
      · rw [hother hfile]
      · rfl

/-- Nobody else has the lock while its file is the caller's. -/
theorem Coherent.holder_eq (h : Coherent process x) {t u file : Nat} {raw : List Char}
    (hmine : Mine process t file raw x) (hu : holder process x.trace = some u) : u = t := by
  obtain ⟨file', createdAt, hother⟩ := h.held u hu
  have hnamed := hother.owns.named
  rw [hmine.owns.named] at hnamed
  obtain rfl := Option.some.inj hnamed
  exact (h.openedOnce u t .lock .lock file hother.owns.opened hmine.owns.opened).1

theorem Coherent.locked (h : Coherent process x) {t file createdAt : Nat}
    (hfree : holder process x.trace ≠ some t)
    (hmine : Mine process t file (lockRecord (process t) createdAt) x) :
    Coherent process (x.record (.ran t .locked) (LockStep.locked.apply x.world)) := by
  have hbefore {u : Nat} {path : LockPath} {file' : Nat}
      (ho : Opened u path file' (x.record (.ran t .locked) (LockStep.locked.apply x.world))) :
      Opened u path file' x :=
    (opened_record_iff.mp ho).resolve_left fun heq => by cases heq
  constructor
  · exact h.fresh
  · exact fun u path file' ho => h.openedFresh u path file' (hbefore ho)
  · exact fun u v path path' file' ho ho' =>
      h.openedOnce u v path path' file' (hbefore ho) (hbefore ho')
  · exact fun u path file' ho => h.written u path file' (hbefore ho)
  · refine ⟨fun _ => ?_, h.atomic⟩
    cases hholder : holder process x.trace with
    | none => rfl
    | some u =>
        rw [hholder, h.holder_eq hmine hholder] at hfree
        exact absurd rfl hfree
  · intro u hu
    obtain rfl : t = u := Option.some.inj hu
    exact ⟨file, createdAt, hmine.kept rfl rfl rfl _⟩

theorem Coherent.removed (h : Coherent process x) {t : Nat} {path : LockPath}
    (hpermitted : (LockStep.removed path).Permitted process t x) :
    Coherent process (x.record (.ran t (.removed path))
      ((LockStep.removed path).apply x.world)) := by
  have hbefore {u : Nat} {path' : LockPath} {file : Nat}
      (ho : Opened u path' file (x.record (.ran t (.removed path))
        ((LockStep.removed path).apply x.world))) : Opened u path' file x :=
    (opened_record_iff.mp ho).resolve_left fun heq => by cases heq
  constructor
  · intro path' file hnamed
    change Function.update x.world.names path none path' = some file at hnamed
    by_cases hpath : path' = path
    · rw [hpath, Function.update_self] at hnamed
      cases hnamed
    · rw [Function.update_of_ne hpath] at hnamed
      exact h.fresh path' file hnamed
  · exact fun u path' file ho => h.openedFresh u path' file (hbefore ho)
  · exact fun u v path' path'' file ho ho' =>
      h.openedOnce u v path' path'' file (hbefore ho) (hbefore ho')
  · exact fun u path' file ho => h.written u path' file (hbefore ho)
  · refine ⟨fun htakes => ?_, h.atomic⟩
    cases path <;> cases htakes
  · intro u hu
    cases path with
    | lock =>
        rw [Snapshot.record_trace, holder] at hu
        change (if holder process x.trace = some t then none else holder process x.trace) =
          some u at hu
        split_ifs at hu with hself
        obtain ⟨file, createdAt, hmine⟩ := h.held u hu
        rcases hpermitted file hmine.owns.named with hopened | ⟨hdead, -⟩
        · obtain ⟨rfl, -⟩ := h.openedOnce u t .lock .lock file hmine.owns.opened hopened
          exact absurd hu hself
        · rw [hmine.text] at hdead
          exact absurd hdead hmine.not_dead
    | reclaim =>
        obtain ⟨file, createdAt, hmine⟩ := h.held u hu
        refine ⟨file, createdAt, hmine.kept ?_ ?_ ?_ _⟩
        · have hne : LockPath.lock ≠ .reclaim := by decide
          exact Function.update_of_ne hne none x.world.names
        · rfl
        · rfl
    | takeover _ _ => exact absurd hpermitted id

/-- What respects the rule keeps the files coherent. -/
theorem Coherent.step (h : Coherent process x) (hrespects : Respects process e x w) :
    Coherent process (x.record e w) := by
  cases e with
  | ran t l =>
      obtain ⟨rfl, -, hpermitted⟩ := hrespects
      cases l with
      | opened path file =>
          obtain ⟨hname, rfl⟩ := hpermitted
          exact h.opened hname
      | wrote file raw =>
          obtain ⟨⟨path, hopened⟩, createdAt, rfl⟩ := hpermitted
          exact h.wrote hopened createdAt
      | locked =>
          obtain ⟨hfree, file, createdAt, hmine⟩ := hpermitted
          exact h.locked hfree hmine
      | removed path => exact h.removed hpermitted
      | renamed source target => exact absurd hpermitted id
      | linked source target => exact absurd hpermitted id
      | _ => exact h.quiet rfl
  | failed t l =>
      obtain rfl := hrespects
      exact h.failed t l
  | crashed p =>
      obtain rfl := hrespects
      exact h.crashed p

end Steps

end AgentGather.Storage.WriterLock
