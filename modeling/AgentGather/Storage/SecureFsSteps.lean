import AgentGather.Storage.SecureFs

/-!
# Steps on a file that is replaced

What every step of a writer may do, and an invariant of the disk and the history that such steps
keep: what the target stands for is not written to any more, and a name that a call has given to
its temporary file is no other's while both processes are alive.
-/

namespace AgentGather.Storage.SecureFs

open AgentGather.Library AgentGather.Protocol

variable {target : Name} {process pid : Nat → Nat} {calls : List Call} {w₀ : Disk}

/-- The thread has made the step. -/
def Did (t : Nat) (l : FileStep) (x : Snapshot Disk FileStep) : Prop := .ran t l ∈ x.trace

def Alive (process : Nat → Nat) (t : Nat) (x : Snapshot Disk FileStep) : Prop :=
  .crashed (process t) ∉ x.trace

def NoRename (t : Nat) (x : Snapshot Disk FileStep) : Prop :=
  ∀ temp file payload, ¬ Did t (.renamed temp file payload) x

/-- The file is one that the target stands or stood for, with these bytes. -/
def SealedAs (target : Name) (w₀ : Disk) (file : Nat) (bytes : List UInt8)
    (x : Snapshot Disk FileStep) : Prop :=
  (w₀.names target = some file ∧ w₀.contents file = bytes) ∨
    ∃ t temp, Did t (.renamed temp file bytes) x

/-! ## The contract -/

structure Consistent (target : Name) (process pid : Nat → Nat) (calls : List Call) (w₀ : Disk)
    (x : Snapshot Disk FileStep) : Prop where
  fresh_le : w₀.fresh ≤ x.world.fresh
  names_lt : ∀ name file, x.world.names name = some file → file < x.world.fresh
  opened_lt : ∀ t temp file, Did t (.opened temp file) x →
    w₀.fresh ≤ file ∧ file < x.world.fresh
  opened_unique : ∀ t u temp temp' file, Did t (.opened temp file) x →
    Did u (.opened temp' file) x → t = u
  renamed_opened : ∀ t temp file bytes, Did t (.renamed temp file bytes) x →
    Did t (.opened temp file) x
  renamed_call : ∀ t temp file bytes, Did t (.renamed temp file bytes) x →
    calls[t]? = some (.write bytes)
  whole : ∀ file bytes, SealedAs target w₀ file bytes x → x.world.contents file = bytes
  bound : ∀ file, x.world.names target = some file → ∃ bytes, SealedAs target w₀ file bytes x
  value : x.world.read target = lastPayload (w₀.read target) x.trace
  named_counter : ∀ t p temp, Did t (.named p temp) x →
    p = process t ∧ ∃ n < x.world.counters p, temp = tempName target (pid p) n
  named_apart : ∀ t u p q temp, Did t (.named p temp) x → Did u (.named q temp) x → t ≠ u →
    .crashed (process t) ∈ x.trace ∨ .crashed (process u) ∈ x.trace

/-- What a thread may do, by what it has done. -/
def Entitled (target : Name) (process pid : Nat → Nat) (calls : List Call) (t : Nat)
    (l : FileStep) (x : Snapshot Disk FileStep) : Prop :=
  match l with
  | .named p temp => p = process t ∧ temp = tempName target (pid p) (x.world.counters p)
  | .opened temp file =>
      Did t (.named (process t) temp) x ∧ x.world.names temp = none ∧ file = x.world.fresh
  | .wrote file _ => (∃ temp, Did t (.opened temp file) x) ∧ NoRename t x
  | .renamed temp file payload =>
      Did t (.named (process t) temp) x ∧ Did t (.opened temp file) x ∧
        x.world.names temp = some file ∧ x.world.contents file = payload ∧
        calls[t]? = some (.write payload)
  | .removed temp => Did t (.named (process t) temp) x
  | _ => True

/-- A step is its thread's, which is alive and entitled to it; nothing else changes the disk. -/
def contract (target : Name) (process pid : Nat → Nat) (calls : List Call) (w₀ : Disk) :
    Contract Disk FileStep where
  inv := Consistent target process pid calls w₀
  guar e x w :=
    match e with
    | .ran t l => Alive process t x ∧ Entitled target process pid calls t l x ∧
        w = l.apply target x.world
    | .failed _ _ => w = x.world
    | .crashed _ => w = x.world
  allow := PidsApart process pid

/-! ## Facts that last -/

theorem did_record {t : Nat} {l : FileStep} {x : Snapshot Disk FileStep} {e : Event FileStep}
    {w : Disk} : Did t l (x.record e w) ↔ e = .ran t l ∨ Did t l x := by
  rw [Did, Did, Snapshot.record_trace, List.mem_cons, eq_comm]

theorem Did.record {t : Nat} {l : FileStep} {x : Snapshot Disk FileStep} (h : Did t l x)
    (e : Event FileStep) (w : Disk) : Did t l (x.record e w) := did_record.mpr (.inr h)

theorem did_record_ne {t u : Nat} {l l' : FileStep} {x : Snapshot Disk FileStep} {w : Disk}
    (hl : l ≠ l') : Did u l' (x.record (.ran t l) w) ↔ Did u l' x := by
  rw [did_record]
  constructor
  · rintro (heq | hd)
    · exact absurd (Event.ran.inj heq).2 hl
    · exact hd
  · exact .inr

theorem SealedAs.record {file : Nat} {bytes : List UInt8} {x : Snapshot Disk FileStep}
    (h : SealedAs target w₀ file bytes x) (e : Event FileStep) (w : Disk) :
    SealedAs target w₀ file bytes (x.record e w) := by
  rcases h with h | ⟨t, temp, h⟩
  · exact .inl h
  · exact .inr ⟨t, temp, h.record e w⟩

/-- A label that leaves no trace in the invariant. -/
def FileStep.isQuiet : FileStep → Bool
  | .named _ _ => false
  | .opened _ _ => false
  | .renamed _ _ _ => false
  | _ => true

theorem lastPayload_cons_quiet {before : Option (List UInt8)} {e : Event FileStep}
    (he : ∀ t l, e = .ran t l → l.isQuiet = true) (es : List (Event FileStep)) :
    lastPayload before (e :: es) = lastPayload before es := by
  cases e with
  | ran t l =>
      have hquiet := he t l rfl
      cases l <;> first | rfl | cases hquiet
  | failed t l => rfl
  | crashed p => rfl

theorem did_record_quiet {t : Nat} {l : FileStep} {x : Snapshot Disk FileStep}
    {e : Event FileStep} {w : Disk} (he : ∀ t l, e = .ran t l → l.isQuiet = true)
    (hl : l.isQuiet = false) : Did t l (x.record e w) ↔ Did t l x := by
  rw [did_record]
  constructor
  · rintro (rfl | h)
    · rw [he t l rfl] at hl
      cases hl
    · exact h
  · exact .inr

theorem sealedAs_record_quiet {file : Nat} {bytes : List UInt8} {x : Snapshot Disk FileStep}
    {e : Event FileStep} {w : Disk} (he : ∀ t l, e = .ran t l → l.isQuiet = true) :
    SealedAs target w₀ file bytes (x.record e w) ↔ SealedAs target w₀ file bytes x := by
  have hrenamed (t : Nat) (temp : Name) :
      Did t (.renamed temp file bytes) (x.record e w) ↔ Did t (.renamed temp file bytes) x :=
    did_record_quiet he rfl
  simp only [SealedAs, hrenamed]

/-- What an event without a trace must leave of the disk. -/
structure Unmoved (target : Name) (w₀ : Disk) (x : Snapshot Disk FileStep) (w : Disk) : Prop where
  fresh : w.fresh = x.world.fresh
  names : ∀ name file, w.names name = some file → x.world.names name = some file
  bound : w.names target = x.world.names target
  contents : ∀ file bytes, SealedAs target w₀ file bytes x →
    w.contents file = x.world.contents file
  counters : ∀ p, x.world.counters p ≤ w.counters p

theorem Consistent.quiet {x : Snapshot Disk FileStep} {e : Event FileStep} {w : Disk}
    (h : Consistent target process pid calls w₀ x)
    (he : ∀ t l, e = .ran t l → l.isQuiet = true) (hw : Unmoved target w₀ x w) :
    Consistent target process pid calls w₀ (x.record e w) where
  fresh_le := by
    rw [Snapshot.record_world, hw.fresh]
    exact h.fresh_le
  names_lt name file hname := by
    rw [Snapshot.record_world, hw.fresh]
    exact h.names_lt name file (hw.names name file hname)
  opened_lt t temp file ho := by
    rw [Snapshot.record_world, hw.fresh]
    exact h.opened_lt t temp file ((did_record_quiet he rfl).mp ho)
  opened_unique t u temp temp' file ht hu :=
    h.opened_unique t u temp temp' file ((did_record_quiet he rfl).mp ht)
      ((did_record_quiet he rfl).mp hu)
  renamed_opened t temp file bytes hr :=
    (h.renamed_opened t temp file bytes ((did_record_quiet he rfl).mp hr)).record e w
  renamed_call t temp file bytes hr :=
    h.renamed_call t temp file bytes ((did_record_quiet he rfl).mp hr)
  whole file bytes hs := by
    have hsealed := (sealedAs_record_quiet he).mp hs
    exact (hw.contents file bytes hsealed).trans (h.whole file bytes hsealed)
  bound file hb := by
    rw [Snapshot.record_world, hw.bound] at hb
    obtain ⟨bytes, hs⟩ := h.bound file hb
    exact ⟨bytes, hs.record e w⟩
  value := by
    have hvalue := h.value
    rw [Snapshot.record_trace, lastPayload_cons_quiet he, ← hvalue, Snapshot.record_world,
      Disk.read, Disk.read, hw.bound]
    cases hb : x.world.names target with
    | none => rfl
    | some file =>
        obtain ⟨bytes, hs⟩ := h.bound file hb
        rw [Option.map_some, Option.map_some, hw.contents file bytes hs]
  named_counter t p temp hn := by
    obtain ⟨hp, n, hlt, htemp⟩ := h.named_counter t p temp ((did_record_quiet he rfl).mp hn)
    exact ⟨hp, n, Nat.lt_of_lt_of_le hlt (hw.counters p), htemp⟩
  named_apart t u p q temp ht hu hne := by
    have hcrash := h.named_apart t u p q temp ((did_record_quiet he rfl).mp ht)
      ((did_record_quiet he rfl).mp hu) hne
    exact hcrash.imp (List.mem_cons_of_mem _) (List.mem_cons_of_mem _)

theorem unmoved_self (x : Snapshot Disk FileStep) : Unmoved target w₀ x x.world :=
  ⟨rfl, fun _ _ h => h, rfl, fun _ _ _ => rfl, fun _ => Nat.le_refl _⟩

theorem target_ne_of_named {t p : Nat} {temp : Name} {x : Snapshot Disk FileStep}
    (h : Consistent target process pid calls w₀ x) (hn : Did t (.named p temp) x) :
    temp ≠ target := by
  obtain ⟨-, n, -, rfl⟩ := h.named_counter t p temp hn
  exact tempName_ne target (pid p) n

/-- What is written to has not been renamed. -/
theorem not_sealed_of_opened {t : Nat} {temp : Name} {file : Nat} {bytes : List UInt8}
    {x : Snapshot Disk FileStep} (h : Consistent target process pid calls w₀ x)
    (hw₀ : w₀.WellFormed) (ho : Did t (.opened temp file) x) (hn : NoRename t x) :
    ¬ SealedAs target w₀ file bytes x := by
  rintro (⟨hname, -⟩ | ⟨u, temp', hr⟩)
  · have hold := hw₀ target file hname
    have hnew := (h.opened_lt t temp file ho).1
    omega
  · have htu := h.opened_unique t u temp temp' file ho (h.renamed_opened u temp' file bytes hr)
    rw [← htu] at hr
    exact hn temp' file bytes hr

/-! ## Every step keeps the invariant -/

theorem Consistent.named {x : Snapshot Disk FileStep} {t p : Nat} {temp : Name}
    (h : Consistent target process pid calls w₀ x)
    (hallow : PidsApart process pid (.ran t (.named p temp)) x)
    (hent : Entitled target process pid calls t (.named p temp) x) :
    Consistent target process pid calls w₀
      (x.record (.ran t (.named p temp)) ((FileStep.named p temp).apply target x.world)) := by
  obtain ⟨rfl, rfl⟩ := hent
  have hother {u : Nat} {l : FileStep} {w : Disk} (hl : ∀ q n, FileStep.named q n ≠ l) :
      Did u l (x.record (.ran t (.named (process t)
        (tempName target (pid (process t)) (x.world.counters (process t))))) w) ↔ Did u l x :=
    did_record_ne (hl _ _)
  have hcounters : ∀ q, x.world.counters q ≤
      ((FileStep.named (process t) []).apply target x.world).counters q := by
    intro q
    simp only [FileStep.apply, Function.update_apply]
    split
    · rename_i hq
      rw [hq]
      omega
    · exact Nat.le_refl _
  -- A name that was given before is no other's, unless that one's process has stopped.
  have hfresh {u q : Nat} (hu : Did u (.named q
      (tempName target (pid (process t)) (x.world.counters (process t)))) x) (hne : u ≠ t) :
      .crashed (process u) ∈ x.trace := by
    obtain ⟨hq, n, hlt, hname⟩ := h.named_counter u q _ hu
    rw [hq] at hlt hname
    obtain ⟨hpid, hn⟩ := tempName_injective hname
    by_cases hp : process u = process t
    · rw [hp] at hlt
      omega
    · exact hallow t u (by simp [Event.isOf]) hp hpid.symm ⟨_, hu, by simp [Event.isOf]⟩
  constructor
  · exact h.fresh_le
  · exact h.names_lt
  · intro u temp file ho
    exact h.opened_lt u temp file ((hother (by simp)).mp ho)
  · intro u v temp temp' file hu hv
    exact h.opened_unique u v temp temp' file ((hother (by simp)).mp hu)
      ((hother (by simp)).mp hv)
  · intro u temp file bytes hr
    exact (h.renamed_opened u temp file bytes ((hother (by simp)).mp hr)).record _ _
  · intro u temp file bytes hr
    exact h.renamed_call u temp file bytes ((hother (by simp)).mp hr)
  · intro file bytes hs
    apply h.whole file bytes
    simpa only [SealedAs, hother (l := .renamed _ file bytes) (by simp)] using hs
  · intro file hb
    obtain ⟨bytes, hs⟩ := h.bound file hb
    exact ⟨bytes, hs.record _ _⟩
  · exact h.value
  · intro u p temp hn
    rcases did_record.mp hn with heq | hn
    · obtain ⟨rfl, hl⟩ := Event.ran.inj heq
      obtain ⟨rfl, rfl⟩ := FileStep.named.inj hl
      refine ⟨rfl, x.world.counters (process t), ?_, rfl⟩
      simp [FileStep.apply]
    · obtain ⟨hp, n, hlt, htemp⟩ := h.named_counter u p temp hn
      exact ⟨hp, n, Nat.lt_of_lt_of_le hlt (hcounters p), htemp⟩
  · intro u v p q temp hu hv hne
    rcases did_record.mp hu with heq | hu
    · obtain ⟨rfl, hl⟩ := Event.ran.inj heq
      obtain ⟨-, rfl⟩ := FileStep.named.inj hl
      rcases did_record.mp hv with heq' | hv
      · exact absurd (Event.ran.inj heq').1 hne
      · exact .inr (List.mem_cons_of_mem _ (hfresh hv (Ne.symm hne)))
    · rcases did_record.mp hv with heq | hv
      · obtain ⟨rfl, hl⟩ := Event.ran.inj heq
        obtain ⟨-, rfl⟩ := FileStep.named.inj hl
        exact .inl (List.mem_cons_of_mem _ (hfresh hu hne))
      · exact (h.named_apart u v p q temp hu hv hne).imp (List.mem_cons_of_mem _)
          (List.mem_cons_of_mem _)

/-- A file that the target stands or stood for was made before. -/
theorem SealedAs.lt_fresh {file : Nat} {bytes : List UInt8} {x : Snapshot Disk FileStep}
    (hs : SealedAs target w₀ file bytes x) (h : Consistent target process pid calls w₀ x)
    (hw₀ : w₀.WellFormed) : file < x.world.fresh := by
  rcases hs with ⟨hname, -⟩ | ⟨u, temp, hr⟩
  · exact Nat.lt_of_lt_of_le (hw₀ target file hname) h.fresh_le
  · exact (h.opened_lt u temp file (h.renamed_opened u temp file bytes hr)).2

theorem Consistent.opened {x : Snapshot Disk FileStep} {t : Nat} {temp : Name} {file : Nat}
    (h : Consistent target process pid calls w₀ x) (hw₀ : w₀.WellFormed)
    (hent : Entitled target process pid calls t (.opened temp file) x) :
    Consistent target process pid calls w₀
      (x.record (.ran t (.opened temp file)) ((FileStep.opened temp file).apply target x.world)) := by
  obtain ⟨hnamed, hfree, rfl⟩ := hent
  have hne : target ≠ temp := (target_ne_of_named h hnamed).symm
  have hrenamed {u : Nat} {temp' : Name} {file : Nat} {bytes : List UInt8} {w : Disk} :
      Did u (.renamed temp' file bytes) (x.record (.ran t (.opened temp x.world.fresh)) w) ↔
        Did u (.renamed temp' file bytes) x := did_record_ne (by simp)
  have hsealed {file : Nat} {bytes : List UInt8} {w : Disk} :
      SealedAs target w₀ file bytes (x.record (.ran t (.opened temp x.world.fresh)) w) ↔
        SealedAs target w₀ file bytes x := by
    simp only [SealedAs, hrenamed]
  have hcontents {file : Nat} {bytes : List UInt8} (hs : SealedAs target w₀ file bytes x) :
      Function.update x.world.contents x.world.fresh [] file = x.world.contents file :=
    Function.update_of_ne (hs.lt_fresh h hw₀).ne _ _
  constructor
  · exact Nat.le_succ_of_le h.fresh_le
  · intro name file hname
    simp only [Snapshot.record_world, FileStep.apply, Function.update_apply] at hname ⊢
    split at hname
    · rw [← Option.some.inj hname]
      exact Nat.lt_succ_self _
    · exact Nat.lt_succ_of_lt (h.names_lt name file hname)
  · intro u temp' file ho
    rcases did_record.mp ho with heq | ho
    · obtain ⟨-, hl⟩ := Event.ran.inj heq
      obtain ⟨-, rfl⟩ := FileStep.opened.inj hl
      exact ⟨h.fresh_le, Nat.lt_succ_self _⟩
    · obtain ⟨hle, hlt⟩ := h.opened_lt u temp' file ho
      exact ⟨hle, Nat.lt_succ_of_lt hlt⟩
  · intro u v temp₁ temp₂ file hu hv
    rcases did_record.mp hu with heq | hu <;> rcases did_record.mp hv with heq' | hv
    · exact (Event.ran.inj heq).1.symm.trans (Event.ran.inj heq').1
    · obtain ⟨-, hl⟩ := Event.ran.inj heq
      obtain ⟨-, rfl⟩ := FileStep.opened.inj hl
      exact absurd (h.opened_lt v temp₂ _ hv).2 (Nat.lt_irrefl _)
    · obtain ⟨-, hl⟩ := Event.ran.inj heq'
      obtain ⟨-, rfl⟩ := FileStep.opened.inj hl
      exact absurd (h.opened_lt u temp₁ _ hu).2 (Nat.lt_irrefl _)
    · exact h.opened_unique u v temp₁ temp₂ file hu hv
  · intro u temp' file bytes hr
    exact (h.renamed_opened u temp' file bytes (hrenamed.mp hr)).record _ _
  · intro u temp' file bytes hr
    exact h.renamed_call u temp' file bytes (hrenamed.mp hr)
  · intro file bytes hs
    have hs := hsealed.mp hs
    exact (hcontents hs).trans (h.whole file bytes hs)
  · intro file hb
    simp only [Snapshot.record_world, FileStep.apply, Function.update_of_ne hne] at hb
    obtain ⟨bytes, hs⟩ := h.bound file hb
    exact ⟨bytes, hs.record _ _⟩
  · refine Eq.trans ?_ h.value
    simp only [Snapshot.record_world, Disk.read, FileStep.apply, Function.update_of_ne hne]
    cases hb : x.world.names target with
    | none => rfl
    | some file =>
        obtain ⟨bytes, hs⟩ := h.bound file hb
        rw [Option.map_some, Option.map_some, hcontents hs]
  · intro u p temp' hn
    exact h.named_counter u p temp' ((did_record_ne (by simp)).mp hn)
  · intro u v p q temp' hu hv hne
    exact (h.named_apart u v p q temp' ((did_record_ne (by simp)).mp hu)
      ((did_record_ne (by simp)).mp hv) hne).imp (List.mem_cons_of_mem _) (List.mem_cons_of_mem _)

theorem Consistent.renamed {x : Snapshot Disk FileStep} {t : Nat} {temp : Name} {file : Nat}
    {payload : List UInt8} (h : Consistent target process pid calls w₀ x)
    (hent : Entitled target process pid calls t (.renamed temp file payload) x) :
    Consistent target process pid calls w₀
      (x.record (.ran t (.renamed temp file payload))
        ((FileStep.renamed temp file payload).apply target x.world)) := by
  obtain ⟨-, hopened, hname, hpayload, hcall⟩ := hent
  have hother {u : Nat} {l : FileStep} {w : Disk} (hl : ∀ n f b, FileStep.renamed n f b ≠ l) :
      Did u l (x.record (.ran t (.renamed temp file payload)) w) ↔ Did u l x :=
    did_record_ne (hl _ _ _)
  constructor
  · exact h.fresh_le
  · intro name file' hname'
    simp only [Snapshot.record_world, FileStep.apply, Function.update_apply] at hname' ⊢
    split at hname'
    · rw [← Option.some.inj hname']
      exact h.names_lt temp file hname
    · split at hname'
      · cases hname'
      · exact h.names_lt name file' hname'
  · intro u temp' file' ho
    exact h.opened_lt u temp' file' ((hother (by simp)).mp ho)
  · intro u v temp₁ temp₂ file' hu hv
    exact h.opened_unique u v temp₁ temp₂ file' ((hother (by simp)).mp hu)
      ((hother (by simp)).mp hv)
  · intro u temp' file' bytes hr
    rcases did_record.mp hr with heq | hr
    · obtain ⟨rfl, hl⟩ := Event.ran.inj heq
      obtain ⟨rfl, rfl, rfl⟩ := FileStep.renamed.inj hl
      exact hopened.record _ _
    · exact (h.renamed_opened u temp' file' bytes hr).record _ _
  · intro u temp' file' bytes hr
    rcases did_record.mp hr with heq | hr
    · obtain ⟨rfl, hl⟩ := Event.ran.inj heq
      obtain ⟨-, -, rfl⟩ := FileStep.renamed.inj hl
      exact hcall
    · exact h.renamed_call u temp' file' bytes hr
  · intro file' bytes hs
    rcases hs with hold | ⟨u, temp', hr⟩
    · exact h.whole file' bytes (.inl hold)
    · rcases did_record.mp hr with heq | hr
      · obtain ⟨-, hl⟩ := Event.ran.inj heq
        obtain ⟨-, rfl, rfl⟩ := FileStep.renamed.inj hl
        exact hpayload
      · exact h.whole file' bytes (.inr ⟨u, temp', hr⟩)
  · intro file' hb
    simp only [Snapshot.record_world, FileStep.apply, Function.update_self] at hb
    rw [← Option.some.inj hb]
    exact ⟨payload, .inr ⟨t, temp, did_record.mpr (.inl rfl)⟩⟩
  · simp only [Snapshot.record_world, Snapshot.record_trace, lastPayload, Disk.read,
      FileStep.apply, Function.update_self, Option.map_some, hpayload]
  · intro u p temp' hn
    exact h.named_counter u p temp' ((hother (by simp)).mp hn)
  · intro u v p q temp' hu hv hne
    exact (h.named_apart u v p q temp' ((hother (by simp)).mp hu)
      ((hother (by simp)).mp hv) hne).imp (List.mem_cons_of_mem _) (List.mem_cons_of_mem _)

/-- What the other steps leave as it was. -/
theorem unmoved_apply {x : Snapshot Disk FileStep} {t : Nat} {l : FileStep}
    (h : Consistent target process pid calls w₀ x) (hw₀ : w₀.WellFormed)
    (hent : Entitled target process pid calls t l x) (hl : l.isQuiet = true) :
    Unmoved target w₀ x (l.apply target x.world) := by
  cases l with
  | named p temp => cases hl
  | opened temp file => cases hl
  | renamed temp file payload => cases hl
  | counted p =>
      refine ⟨rfl, fun _ _ h => h, rfl, fun _ _ _ => rfl, fun q => ?_⟩
      simp only [FileStep.apply, Function.update_apply]
      split
      · rename_i hq
        rw [hq]
        omega
      · exact Nat.le_refl _
  | wrote file byte =>
      obtain ⟨⟨temp, hopened⟩, hrename⟩ := hent
      refine ⟨rfl, fun _ _ h => h, rfl, fun file' bytes hs => ?_, fun _ => Nat.le_refl _⟩
      have hne : file' ≠ file := by
        rintro rfl
        exact not_sealed_of_opened h hw₀ hopened hrename hs
      exact Function.update_of_ne hne _ _
  | removed temp =>
      have hne : target ≠ temp := (target_ne_of_named h hent).symm
      refine ⟨rfl, fun name file hname => ?_, Function.update_of_ne hne _ _,
        fun _ _ _ => rfl, fun _ => Nat.le_refl _⟩
      simp only [FileStep.apply, Function.update_apply] at hname
      split at hname
      · cases hname
      · exact hname
  | madeDirectory => exact ⟨rfl, fun _ _ h => h, rfl, fun _ _ _ => rfl, fun _ => Nat.le_refl _⟩
  | _ => exact unmoved_self x

theorem Consistent.step {x : Snapshot Disk FileStep} {t : Nat} {l : FileStep}
    (h : Consistent target process pid calls w₀ x) (hw₀ : w₀.WellFormed)
    (hallow : PidsApart process pid (.ran t l) x)
    (hent : Entitled target process pid calls t l x) :
    Consistent target process pid calls w₀ (x.record (.ran t l) (l.apply target x.world)) := by
  cases hquiet : l.isQuiet with
  | true =>
      refine h.quiet ?_ (unmoved_apply h hw₀ hent hquiet)
      intro u l' heq
      rw [← (Event.ran.inj heq).2]
      exact hquiet
  | false =>
      cases l with
      | named p temp => exact h.named hallow hent
      | opened temp file => exact h.opened hw₀ hent
      | renamed temp file payload => exact h.renamed hent
      | _ => cases hquiet

/-- A step that fails, and a process that stops, leave the disk alone. -/
theorem Consistent.still {x : Snapshot Disk FileStep} {e : Event FileStep}
    (h : Consistent target process pid calls w₀ x) (he : ∀ t l, e ≠ .ran t l) :
    Consistent target process pid calls w₀ (x.record e x.world) :=
  h.quiet (fun t l heq => absurd heq (he t l)) (unmoved_self x)

end AgentGather.Storage.SecureFs
