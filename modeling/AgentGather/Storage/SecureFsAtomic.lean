import AgentGather.Storage.SecureFsSteps

/-!
# The target is replaced as a whole

What a call knows at each of its steps, and that no other thread takes it from it.  Hence the
target is at every moment what the last rename gave it, a call that throws has renamed nothing, and
a reader gets what the target was when it was opened.
-/

namespace AgentGather.Storage.SecureFs

open AgentGather.Library AgentGather.Protocol

variable {target : Name} {process pid : Nat → Nat} {calls : List Call} {w₀ : Disk}

/-! ## What a writer knows -/

/-- A call that is under way and has renamed nothing. -/
structure Begun (process : Nat → Nat) (t : Nat) (x : Snapshot Disk FileStep) : Prop where
  alive : Alive process t x
  noRename : NoRename t x

/-- The call has the name of its temporary file. -/
structure Named (process : Nat → Nat) (t : Nat) (temp : Name) (x : Snapshot Disk FileStep) :
    Prop extends Begun process t x where
  named : Did t (.named (process t) temp) x

/-- The name stands for the file of the call, which has these bytes. -/
structure Filling (process : Nat → Nat) (t : Nat) (temp : Name) (file : Nat) (bytes : List UInt8)
    (x : Snapshot Disk FileStep) : Prop extends Named process t temp x where
  opened : Did t (.opened temp file) x
  bound : x.world.names temp = some file
  content : x.world.contents file = bytes

/-- The call has renamed its payload to the target, and made no step since. -/
def Replaced (t : Nat) (payload : List UInt8) (x : Snapshot Disk FileStep) : Prop :=
  ∃ temp file later earlier,
    x.trace = later ++ .ran t (.renamed temp file payload) :: earlier ∧
      ∀ e ∈ later, e.isOf t = false

/-- The reader has opened the target when it had these bytes. -/
def Seen (target : Name) (w₀ : Disk) (t : Nat) (bytes : List UInt8)
    (x : Snapshot Disk FileStep) : Prop :=
  ∃ later earlier, x.trace = later ++ .ran t .readerOpened :: earlier ∧
    lastPayload (w₀.read target) earlier = some bytes

/-- A reader that has opened the file. -/
structure Reading (target : Name) (process : Nat → Nat) (w₀ : Disk) (t file : Nat)
    (bytes : List UInt8) (x : Snapshot Disk FileStep) : Prop where
  alive : Alive process t x
  isSealed : SealedAs target w₀ file bytes x
  seen : Seen target w₀ t bytes x

variable {t : Nat} {temp : Name} {file : Nat} {bytes : List UInt8} {x : Snapshot Disk FileStep}

theorem Seen.record (h : Seen target w₀ t bytes x) (e : Event FileStep) (w : Disk) :
    Seen target w₀ t bytes (x.record e w) := by
  obtain ⟨later, earlier, htrace, hvalue⟩ := h
  refine ⟨e :: later, earlier, ?_, hvalue⟩
  rw [Snapshot.record_trace, htrace, List.cons_append]

/-- An event of the thread's own that renames nothing. -/
theorem Begun.own (h : Begun process t x) {e : Event FileStep}
    (he : ∀ p, e ≠ .crashed p) (hl : ∀ n f b, e ≠ .ran t (.renamed n f b)) (w : Disk) :
    Begun process t (x.record e w) := by
  constructor
  · intro hcrash
    rcases List.mem_cons.mp hcrash with heq | hcrash
    · exact he _ heq.symm
    · exact h.alive hcrash
  · intro n f b hr
    rcases did_record.mp hr with heq | hr
    · exact hl n f b heq
    · exact h.noRename n f b hr

theorem Named.own (h : Named process t temp x) {e : Event FileStep} (he : ∀ p, e ≠ .crashed p)
    (hl : ∀ n f b, e ≠ .ran t (.renamed n f b)) (w : Disk) :
    Named process t temp (x.record e w) :=
  ⟨h.toBegun.own he hl w, h.named.record e w⟩

/-- A step that only looks, or fails, leaves the file as it is. -/
theorem Filling.still (h : Filling process t temp file bytes x) {e : Event FileStep}
    (he : ∀ p, e ≠ .crashed p) (hl : ∀ n f b, e ≠ .ran t (.renamed n f b)) :
    Filling process t temp file bytes (x.record e x.world) :=
  ⟨h.toNamed.own he hl _, h.opened.record e _, h.bound, h.content⟩

section Stability

variable {e : Event FileStep} {w : Disk}

theorem Alive.foreign (h : Alive process t x) (hf : (fileSystem process).Foreign t e) :
    Alive process t (x.record e w) := by
  intro hcrash
  rcases List.mem_cons.mp hcrash with heq | hcrash
  · rw [← heq] at hf
    exact hf rfl
  · exact h hcrash

theorem isOf_of_foreign (hf : (fileSystem process).Foreign t e) : e.isOf t = false := by
  cases e with
  | ran u l => exact beq_false_of_ne hf
  | failed u l => exact beq_false_of_ne hf
  | crashed p => rfl

theorem NoRename.foreign (h : NoRename t x) (hf : (fileSystem process).Foreign t e) :
    NoRename t (x.record e w) := by
  intro n f b hr
  rcases did_record.mp hr with heq | hr
  · rw [heq] at hf
    exact hf rfl
  · exact h n f b hr

theorem Replaced.foreign (h : Replaced t bytes x) (hf : (fileSystem process).Foreign t e) :
    Replaced t bytes (x.record e w) := by
  obtain ⟨temp, file, later, earlier, htrace, hlater⟩ := h
  refine ⟨temp, file, e :: later, earlier, ?_, ?_⟩
  · rw [Snapshot.record_trace, htrace, List.cons_append]
  · intro e' he'
    rcases List.mem_cons.mp he' with rfl | he'
    · exact isOf_of_foreign hf
    · exact hlater e' he'

theorem Begun.foreign (h : Begun process t x) (hf : (fileSystem process).Foreign t e) :
    Begun process t (x.record e w) := ⟨h.alive.foreign hf, h.noRename.foreign hf⟩

/-- No other thread has this name, or it would have stopped. -/
theorem Named.ne (h : Named process t temp x) (hc : Consistent target process pid calls w₀ x)
    {u : Nat} {temp' : Name} (hne : u ≠ t) (halive : Alive process u x)
    (hu : Did u (.named (process u) temp') x) : temp ≠ temp' := by
  rintro rfl
  rcases hc.named_apart t u _ _ temp h.named hu hne.symm with hcrash | hcrash
  · exact h.alive hcrash
  · exact halive hcrash

/-- Nobody else touches the name of the call, or its file. -/
theorem Filling.foreign (h : Filling process t temp file bytes x)
    (hc : Consistent target process pid calls w₀ x) (hf : (fileSystem process).Foreign t e)
    (hg : (contract target process pid calls w₀).guar e x w) :
    Filling process t temp file bytes (x.record e w) := by
  have hkept : w.names temp = some file ∧ w.contents file = bytes := by
    cases e with
    | failed u l =>
        obtain rfl : w = x.world := hg
        exact ⟨h.bound, h.content⟩
    | crashed p =>
        obtain rfl : w = x.world := hg
        exact ⟨h.bound, h.content⟩
    | ran u l =>
        obtain ⟨halive, hent, rfl⟩ := hg
        have hne : u ≠ t := hf
        cases l with
        | opened temp' file' =>
            obtain ⟨-, hfree, rfl⟩ := hent
            have htemp : temp ≠ temp' := by
              rintro rfl
              rw [h.bound] at hfree
              cases hfree
            have hfile : file ≠ x.world.fresh := (hc.opened_lt t temp file h.opened).2.ne
            exact ⟨(Function.update_of_ne htemp _ _).trans h.bound,
              (Function.update_of_ne hfile _ _).trans h.content⟩
        | wrote file' byte =>
            obtain ⟨⟨temp', hopened⟩, -⟩ := hent
            have hfile : file ≠ file' := by
              rintro rfl
              exact hne (hc.opened_unique u t temp' temp file hopened h.opened)
            exact ⟨h.bound, (Function.update_of_ne hfile _ _).trans h.content⟩
        | renamed temp' file' payload =>
            have htemp := h.toNamed.ne hc hne halive hent.1
            have htarget := target_ne_of_named hc h.named
            refine ⟨?_, h.content⟩
            simp only [FileStep.apply, Function.update_of_ne htarget,
              Function.update_of_ne htemp, h.bound]
        | removed temp' =>
            have htemp := h.toNamed.ne hc hne halive hent
            exact ⟨(Function.update_of_ne htemp _ _).trans h.bound, h.content⟩
        | _ => exact ⟨h.bound, h.content⟩
  exact ⟨⟨h.toBegun.foreign hf, h.named.record e w⟩, h.opened.record e w, hkept.1, hkept.2⟩

end Stability

/-! ## The calls are safe -/

section Safety

variable (hw₀ : w₀.WellFormed)

theorem begun_stable (t : Nat) :
    (contract target process pid calls w₀).Stable (fileSystem process) t (Begun process t) :=
  fun _ _ _ hf _ _ _ h => h.foreign hf

theorem named_stable (t : Nat) (temp : Name) :
    (contract target process pid calls w₀).Stable (fileSystem process) t
      (Named process t temp) :=
  fun e _ w hf _ _ _ h => ⟨h.toBegun.foreign hf, h.named.record e w⟩

theorem filling_stable (t : Nat) (temp : Name) (file : Nat) (bytes : List UInt8) :
    (contract target process pid calls w₀).Stable (fileSystem process) t
      (Filling process t temp file bytes) :=
  fun _ _ _ hf hc _ hg h => h.foreign hc hf hg

theorem Reading.own (h : Reading target process w₀ t file bytes x) {e : Event FileStep}
    (he : ∀ p, e ≠ .crashed p) {w : Disk} :
    Reading target process w₀ t file bytes (x.record e w) := by
  refine ⟨?_, h.isSealed.record e w, h.seen.record e w⟩
  intro hcrash
  rcases List.mem_cons.mp hcrash with heq | hcrash
  · exact he _ heq.symm
  · exact h.alive hcrash

theorem reading_stable (t file : Nat) (bytes : List UInt8) :
    (contract target process pid calls w₀).Stable (fileSystem process) t
      (Reading target process w₀ t file bytes) :=
  fun e _ w hf _ _ _ h => ⟨h.alive.foreign hf, h.isSealed.record e w, h.seen.record e w⟩

include hw₀

/-- One step that its thread is entitled to. -/
theorem perform_safe {α : Type} {label : Disk → FileStep} {result : Disk → Except Failure α}
    {P : Snapshot Disk FileStep → Prop} {Q : α → Snapshot Disk FileStep → Prop}
    {E : Failure → Snapshot Disk FileStep → Prop}
    (hstable : (contract target process pid calls w₀).Stable (fileSystem process) t P)
    (hent : ∀ x, Consistent target process pid calls w₀ x → P x →
      Alive process t x ∧ Entitled target process pid calls t (label x.world) x)
    (hok : ∀ x a, Consistent target process pid calls w₀ x → P x → result x.world = .ok a →
      Q a (x.record (.ran t (label x.world)) ((label x.world).apply target x.world)))
    (herr : ∀ x e, P x → result x.world = .error e →
      E e (x.record (.ran t (label x.world)) ((label x.world).apply target x.world)))
    (hfail : ∀ x e, P x → E e (x.record (.failed t (label x.world)) x.world)) :
    (contract target process pid calls w₀).Safe (fileSystem process) t Q E
      (perform target label result) P := by
  refine Contract.Safe.action hstable ?_ ?_ ?_ ?_
  · intro x hc hp _ hallow
    obtain ⟨halive, hentitled⟩ := hent x hc hp
    exact ⟨Consistent.step hc hw₀ hallow hentitled, halive, hentitled, rfl⟩
  · intro x a hc hp _ _ hresult
    exact hok x a hc hp hresult
  · intro x e _ hp _ _ hresult
    exact herr x e hp hresult
  · intro x e hc hp _ _
    exact ⟨⟨Consistent.still hc (fun _ _ h => nomatch h), rfl⟩, hfail x e hp⟩

theorem ensureSecureDir_safe :
    (contract target process pid calls w₀).Safe (fileSystem process) t
      (fun _ => Begun process t) (fun _ => Begun process t) (ensureSecureDir target)
      (Begun process t) := by
  have hlook {l : FileStep} (hl : ∀ n f b, l ≠ .renamed n f b)
      (hent : ∀ x, Entitled target process pid calls t l x)
      (result : Disk → Except Failure Unit) :
      (contract target process pid calls w₀).Safe (fileSystem process) t
        (fun _ => Begun process t) (fun _ => Begun process t)
        (perform target (fun _ => l) result) (Begun process t) := by
    refine perform_safe hw₀ (begun_stable t) (fun x _ h => ⟨h.alive, hent x⟩) ?_ ?_ ?_
    · exact fun x _ _ h _ => h.own (by simp) (by simpa using hl) _
    · exact fun x _ h _ => h.own (by simp) (by simpa using hl) _
    · exact fun x _ h => h.own (by simp) (by simp) _
  refine Contract.Safe.bind (hlook (l := .madeDirectory) (by simp) (fun _ => trivial) _)
    fun _ => ?_
  refine Contract.Safe.catchErr (hlook (l := .chmodDirectory) (by simp) (fun _ => trivial) _)
    fun e => ?_
  split
  · exact Contract.Safe.done fun _ _ h => h
  · exact fun _ _ h => h

theorem nextTemp_safe :
    (contract target process pid calls w₀).Safe (fileSystem process) t
      (Named process t) (fun _ => Begun process t)
      (nextTemp target (process t) (pid (process t))) (Begun process t) := by
  refine perform_safe hw₀ (begun_stable t) (fun x _ h => ⟨h.alive, rfl, rfl⟩) ?_ ?_ ?_
  · intro x temp _ h hresult
    obtain rfl := Except.ok.inj hresult
    exact ⟨h.own (by simp) (by simp) _, did_record.mpr (.inl rfl)⟩
  · exact fun x _ h _ => h.own (by simp) (by simp) _
  · exact fun x _ h => h.own (by simp) (by simp) _

theorem openExclusive_safe :
    (contract target process pid calls w₀).Safe (fileSystem process) t
      (fun file => Filling process t temp file []) (fun _ => Named process t temp)
      (openExclusive target temp) (Named process t temp) := by
  have hlabel (w : Disk) (n : Name) (f : Nat) (b : List UInt8) :
      (if w.directory = false ∨ (w.names temp).isSome then FileStep.refused temp
        else .opened temp w.fresh) ≠ .renamed n f b := by
    split <;> simp
  refine perform_safe hw₀ (named_stable t temp) ?_ ?_ ?_ ?_
  · intro x _ h
    refine ⟨h.alive, ?_⟩
    split
    · trivial
    · rename_i hfree
      rw [not_or] at hfree
      exact ⟨h.named, by simpa using hfree.2, rfl⟩
  · intro x file _ h hresult
    split_ifs at hresult with hdirectory hpresent
    obtain rfl := Except.ok.inj hresult
    rw [if_neg (by rw [not_or]; exact ⟨hdirectory, hpresent⟩)]
    refine ⟨h.own (by simp) (by simp) _, did_record.mpr (.inl rfl), ?_, ?_⟩
    · exact Function.update_self _ _ _
    · exact Function.update_self _ _ _
  · exact fun x _ h _ => h.own (by simp) (by simpa using hlabel x.world) _
  · exact fun x _ h => h.own (by simp) (by simp) _

theorem writeBytes_safe (more : List UInt8) :
    (contract target process pid calls w₀).Safe (fileSystem process) t
      (fun _ => Filling process t temp file (bytes ++ more)) (fun _ => Named process t temp)
      (writeBytes target file more) (Filling process t temp file bytes) := by
  induction more generalizing bytes with
  | nil => exact Contract.Safe.done fun x _ h => by rwa [List.append_nil]
  | cons byte more ih =>
      refine Contract.Safe.bind (R := fun _ => Filling process t temp file (bytes ++ [byte]))
        ?_ fun _ => ?_
      · refine perform_safe hw₀ (filling_stable t temp file bytes)
          (fun x _ h => ⟨h.alive, ⟨temp, h.opened⟩, h.noRename⟩) ?_ ?_ ?_
        · intro x _ _ h _
          refine ⟨h.toNamed.own (by simp) (by simp) _, h.opened.record _ _, h.bound, ?_⟩
          simp only [Snapshot.record_world, FileStep.apply, Function.update_self, h.content]
        · exact fun x _ h _ => h.toNamed.own (by simp) (by simp) _
        · exact fun x _ h => h.toNamed.own (by simp) (by simp) _
      · rw [List.append_cons]
        exact ih

/-- A step that looks at the file of the call, and goes on. -/
theorem look_safe {label : Disk → FileStep} {result : Disk → Except Failure Unit}
    (hl : ∀ w n f b, label w ≠ .renamed n f b)
    (hent : ∀ x, Entitled target process pid calls t (label x.world) x)
    (happly : ∀ w, (label w).apply target w = w) :
    (contract target process pid calls w₀).Safe (fileSystem process) t
      (fun _ => Filling process t temp file bytes) (fun _ => Filling process t temp file bytes)
      (perform target label result) (Filling process t temp file bytes) := by
  refine perform_safe hw₀ (filling_stable t temp file bytes) (fun x _ h => ⟨h.alive, hent x⟩)
    ?_ ?_ ?_
  · intro x _ _ h _
    rw [happly]
    exact h.still (by simp) (by simpa using hl x.world)
  · intro x _ h _
    rw [happly]
    exact h.still (by simp) (by simpa using hl x.world)
  · exact fun x _ h => h.still (by simp) (by simp)

theorem fill_safe (payload : List UInt8) :
    (contract target process pid calls w₀).Safe (fileSystem process) t
      (fun _ => Filling process t temp file payload) (fun _ => Named process t temp)
      (fill target file payload) (Filling process t temp file []) := by
  have hsync : (contract target process pid calls w₀).Safe (fileSystem process) t
      (fun _ => Filling process t temp file payload)
      (fun _ => Filling process t temp file payload) (sync target)
      (Filling process t temp file payload) :=
    look_safe hw₀ (by simp) (fun _ => trivial) fun _ => rfl
  have hclose : (contract target process pid calls w₀).Safe (fileSystem process) t
      (fun _ => Filling process t temp file payload)
      (fun _ => Filling process t temp file payload) (close target)
      (Filling process t temp file payload) :=
    look_safe hw₀ (by simp) (fun _ => trivial) fun _ => rfl
  refine Contract.Safe.finallyDo (R := fun _ => Filling process t temp file payload)
    (F := fun _ => Named process t temp) ?_ (fun _ => ?_) fun _ => ?_
  · refine Contract.Safe.bind (writeBytes_safe hw₀ payload) fun _ => ?_
    rw [List.nil_append]
    exact hsync.conseq (fun _ _ h => h) (fun _ _ _ h => h) fun _ _ _ h => h.toNamed
  · exact hclose.conseq (fun _ _ h => h) (fun _ _ _ h => h) fun _ _ _ h => h.toNamed
  · refine perform_safe hw₀ (named_stable t temp) (fun x _ h => ⟨h.alive, trivial⟩) ?_ ?_ ?_
    · exact fun x _ _ h _ => h.own (by simp) (by simp) _
    · exact fun x _ h _ => h.own (by simp) (by simp) _
    · exact fun x _ h => h.own (by simp) (by simp) _

theorem chmodIfPresent_safe :
    (contract target process pid calls w₀).Safe (fileSystem process) t
      (fun _ => Filling process t temp file bytes) (fun _ => Named process t temp)
      (chmodIfPresent target temp) (Filling process t temp file bytes) := by
  refine Contract.Safe.catchErr
    (look_safe hw₀ (by simp) (fun _ => trivial) fun _ => rfl) fun e => ?_
  split
  · exact Contract.Safe.done fun _ _ h => h
  · exact fun _ _ h => h.toNamed

/-- The rename is the one step that changes the target, and the last of the call. -/
theorem rename_safe {payload : List UInt8} (hcall : calls[t]? = some (.write payload)) :
    (contract target process pid calls w₀).Safe (fileSystem process) t
      (fun _ => Replaced t payload) (fun _ => Named process t temp)
      (rename target temp payload) (Filling process t temp file payload) := by
  refine perform_safe hw₀ (filling_stable t temp file payload) ?_ ?_ ?_ ?_
  · intro x _ h
    rw [h.bound]
    exact ⟨h.alive, h.named, h.opened, h.bound, h.content, hcall⟩
  · intro x _ _ h _
    rw [h.bound]
    exact ⟨temp, file, [], x.trace, rfl, fun _ he => nomatch he⟩
  · intro x _ h hresult
    rw [h.bound] at hresult
    cases hresult
  · exact fun x _ h => h.toNamed.own (by simp) (by simp) _

theorem replaceVia_safe {payload : List UInt8} (hcall : calls[t]? = some (.write payload)) :
    (contract target process pid calls w₀).Safe (fileSystem process) t
      (fun _ => Replaced t payload) (fun _ => Named process t temp)
      (replaceVia target temp payload) (Named process t temp) := by
  refine Contract.Safe.bind (openExclusive_safe hw₀) fun file => ?_
  refine Contract.Safe.bind (fill_safe hw₀ payload) fun _ => ?_
  refine Contract.Safe.bind (chmodIfPresent_safe hw₀) fun _ => ?_
  exact rename_safe hw₀ hcall

theorem writeSecureFile_safe {payload : List UInt8} (hcall : calls[t]? = some (.write payload)) :
    (contract target process pid calls w₀).Safe (fileSystem process) t
      (fun _ => Replaced t payload) (fun _ => NoRename t)
      (writeSecureFile target (process t) (pid (process t)) payload) (Begun process t) := by
  refine Contract.Safe.bind ((ensureSecureDir_safe hw₀).conseq (fun _ _ h => h)
    (fun _ _ _ h => h) fun _ _ _ h => h.noRename) fun _ => ?_
  refine Contract.Safe.bind ((nextTemp_safe hw₀).conseq (fun _ _ h => h)
    (fun _ _ _ h => h) fun _ _ _ h => h.noRename) fun temp => ?_
  refine Contract.Safe.catchErr (replaceVia_safe hw₀ hcall) fun e => ?_
  refine Contract.Safe.bind (R := fun _ => NoRename t) ?_ fun _ => fun _ _ h => h
  refine perform_safe hw₀ (named_stable t temp) (fun x _ h => ⟨h.alive, h.named⟩) ?_ ?_ ?_
  · exact fun x _ _ h _ => (h.own (by simp) (by simp) _).noRename
  · exact fun x _ h _ => (h.own (by simp) (by simp) _).noRename
  · exact fun x _ h => (h.own (by simp) (by simp) _).noRename

theorem readBytes_safe {found : List UInt8} (hfound : found <+: bytes) (patience : Nat) :
    (contract target process pid calls w₀).Safe (fileSystem process) t
      (fun r x => r = bytes ∧ Seen target w₀ t bytes x) (fun _ _ => True)
      (readBytes target file patience found) (Reading target process w₀ t file bytes) := by
  induction patience generalizing found with
  | zero => exact fun _ _ _ => trivial
  | succ patience ih =>
      refine Contract.Safe.bind (R := fun next x => next = bytes[found.length]? ∧
        Reading target process w₀ t file bytes x) ?_ fun next => Contract.Safe.of_pure ?_
      · refine perform_safe hw₀ (reading_stable t file bytes)
          (fun x _ h => ⟨h.alive, trivial⟩) ?_ (fun _ _ _ _ => trivial) fun _ _ _ => trivial
        intro x next hc h hresult
        have hbytes := hc.whole file bytes h.isSealed
        rw [hbytes] at hresult
        exact ⟨(Except.ok.inj hresult).symm, h.own (by simp)⟩
      · intro hnext
        obtain ⟨rest, rfl⟩ := hfound
        cases rest with
        | nil =>
            rw [List.append_nil, List.getElem?_eq_none (Nat.le_refl _)] at hnext
            subst hnext
            exact Contract.Safe.done fun x _ h => ⟨(List.append_nil found).symm, h.seen⟩
        | cons byte rest =>
            have hbyte : (found ++ byte :: rest)[found.length]? = some byte := by simp
            rw [hbyte] at hnext
            subst hnext
            exact ih ⟨rest, by simp⟩

theorem readTarget_safe (patience : Nat) :
    (contract target process pid calls w₀).Safe (fileSystem process) t
      (fun r x => Seen target w₀ t r x) (fun _ _ => True) (readTarget target patience)
      (Alive process t) := by
  refine Contract.Safe.bind
    (R := fun file x => ∃ bytes, Reading target process w₀ t file bytes x) ?_ fun file =>
      Contract.Safe.of_exists fun bytes => ?_
  · refine perform_safe hw₀ (fun _ _ _ hf _ _ _ h => h.foreign hf)
      (fun x _ h => ⟨h, trivial⟩) ?_ (fun _ _ _ _ => trivial) fun _ _ _ => trivial
    intro x file hc h hresult
    cases hname : x.world.names target with
    | none =>
        rw [hname] at hresult
        cases hresult
    | some file' =>
        rw [hname] at hresult
        obtain rfl := Except.ok.inj hresult
        obtain ⟨bytes, hs⟩ := hc.bound file' hname
        have hvalue := hc.value
        rw [Disk.read, hname, Option.map_some, hc.whole file' bytes hs] at hvalue
        refine ⟨bytes, ?_, hs.record _ _, [], x.trace, rfl, hvalue.symm⟩
        intro hcrash
        rcases List.mem_cons.mp hcrash with heq | hcrash
        · cases heq
        · exact h hcrash
  · refine (readBytes_safe hw₀ List.nil_prefix patience).conseq (fun _ _ h => h) ?_
      fun _ _ _ h => h
    rintro r x - ⟨rfl, hseen⟩
    exact hseen

/-- What a call has done when it returns. -/
def Outcome (target : Name) (w₀ : Disk) (t : Nat) (r : Option (List UInt8)) (call : Call)
    (x : Snapshot Disk FileStep) : Prop :=
  match call with
  | .write payload => Replaced t payload x
  | .read _ => ∃ bytes, r = some bytes ∧ Seen target w₀ t bytes x
  | .elsewhere => True

theorem Call.run_safe {call : Call} (hcall : calls[t]? = some call) :
    (contract target process pid calls w₀).Safe (fileSystem process) t
      (fun r => Outcome target w₀ t r call)
      (fun _ x => ∀ payload, call = .write payload → NoRename t x)
      (call.run target (process t) (pid (process t))) (Begun process t) := by
  cases call with
  | write payload =>
      refine Contract.Safe.bind ((writeSecureFile_safe hw₀ hcall).conseq (fun _ _ h => h)
        (fun _ _ _ h => h) fun _ _ _ h _ _ => h) fun _ => ?_
      exact Contract.Safe.done fun _ _ h => h
  | read patience =>
      refine Contract.Safe.bind ((readTarget_safe hw₀ patience).conseq (fun _ _ h => h.alive)
        (fun _ _ _ h => h) fun _ _ _ _ _ h => nomatch h) fun bytes => ?_
      exact Contract.Safe.done fun _ _ h => ⟨bytes, rfl, h⟩
  | elsewhere =>
      refine Contract.Safe.bind (R := fun _ _ => True) ?_ fun _ => ?_
      · exact perform_safe hw₀ (begun_stable t) (fun x _ h => ⟨h.alive, trivial⟩)
          (fun _ _ _ _ _ => trivial) (fun _ _ _ _ _ h => nomatch h) fun _ _ _ _ h => nomatch h
      · exact Contract.Safe.done fun _ _ _ => trivial

end Safety

/-! ## Every run -/

theorem consistent_initial (hw₀ : w₀.WellFormed) :
    Consistent target process pid calls w₀ ⟨w₀, []⟩ where
  fresh_le := Nat.le_refl _
  names_lt := hw₀
  opened_lt _ _ _ h := nomatch h
  opened_unique _ _ _ _ _ h := nomatch h
  renamed_opened _ _ _ _ h := nomatch h
  renamed_call _ _ _ _ h := nomatch h
  whole file bytes h := by
    rcases h with ⟨-, h⟩ | ⟨_, _, h⟩
    · exact h
    · cases h
  bound file h := ⟨w₀.contents file, .inl ⟨h, rfl⟩⟩
  value := rfl
  named_counter _ _ _ h := nomatch h
  named_apart _ _ _ _ _ h := nomatch h

theorem crashSafe :
    (contract target process pid calls w₀).CrashSafe (fileSystem process) := by
  intro p damage hdamage x hc _
  obtain rfl := Option.some.inj hdamage
  exact ⟨Consistent.still hc (fun _ _ h => nomatch h), rfl⟩

theorem Outcome.foreign {r : Option (List UInt8)} {call : Call} {e : Event FileStep} {w : Disk}
    (h : Outcome target w₀ t r call x) (hf : (fileSystem process).Foreign t e) :
    Outcome target w₀ t r call (x.record e w) := by
  cases call with
  | write payload => exact Replaced.foreign h hf
  | read patience =>
      obtain ⟨bytes, hr, hseen⟩ := h
      exact ⟨bytes, hr, hseen.record e w⟩
  | elsewhere => trivial

/-- In every run the disk is consistent, and every call that is over has done what it says. -/
theorem holdsTo_of_run (hw₀ : w₀.WellFormed)
    {c : Config Disk FileStep Failure (Option (List UInt8))}
    (hrun : (fileSystem process).Run (PidsApart process pid)
      (initial target process pid w₀ calls) c) :
    (contract target process pid calls w₀).HoldsTo (fileSystem process)
      (fun t r x => ∀ call, calls[t]? = some call → Outcome target w₀ t r call x)
      (fun t _ x => ∀ payload, calls[t]? = some (.write payload) → NoRename t x) c := by
  have hends : ∀ t p, System.thread (initial target process pid w₀ calls) t = some p →
      (contract target process pid calls w₀).Ends (fileSystem process) t
        (fun r x => ∀ call, calls[t]? = some call → Outcome target w₀ t r call x)
        (fun _ x => ∀ payload, calls[t]? = some (.write payload) → NoRename t x) p ⟨w₀, []⟩ := by
    intro t p hp
    obtain ⟨call, hcall, rfl⟩ : ∃ call, calls[t]? = some call ∧
        p = call.run target (process t) (pid (process t)) := by
      rw [System.thread, initial, List.getElem?_mapIdx] at hp
      cases hcall : calls[t]? with
      | none =>
          rw [hcall] at hp
          cases hp
      | some call =>
          rw [hcall] at hp
          exact ⟨call, rfl, (Option.some.inj hp).symm⟩
    refine Contract.Ends.of_safe ((Call.run_safe hw₀ hcall).conseq (fun _ _ h => h) ?_ ?_)
      (consistent_initial hw₀) ⟨(fun h => (by cases h)), (fun _ _ _ h => (by cases h))⟩
    · intro r x _ h call' hcall'
      rw [hcall] at hcall'
      obtain rfl := Option.some.inj hcall'
      exact h
    · intro e x _ h payload hwrite
      rw [hcall] at hwrite
      exact h payload (Option.some.inj hwrite)
  have h₀ : (contract target process pid calls w₀).HoldsTo (fileSystem process)
      (fun t r x => ∀ call, calls[t]? = some call → Outcome target w₀ t r call x)
      (fun t _ x => ∀ payload, calls[t]? = some (.write payload) → NoRename t x)
      (initial target process pid w₀ calls) := ⟨consistent_initial hw₀, hends⟩
  refine Contract.ends_sound h₀ crashSafe ?_ ?_ hrun
  · exact fun t r e x w hf _ _ _ h call hcall => (h call hcall).foreign hf
  · exact fun t err e x w hf _ _ _ h payload hwrite => (h payload hwrite).foreign hf

theorem lastPayload_cases (before : Option (List UInt8)) (es : List (Event FileStep)) :
    lastPayload before es = before ∨ ∃ t temp file payload,
      .ran t (.renamed temp file payload) ∈ es ∧ lastPayload before es = some payload := by
  induction es with
  | nil => exact .inl rfl
  | cons e es ih =>
      have hrest : lastPayload before (e :: es) = lastPayload before es →
          lastPayload before (e :: es) = before ∨ ∃ t temp file payload,
            .ran t (.renamed temp file payload) ∈ e :: es ∧
              lastPayload before (e :: es) = some payload := by
        intro heq
        rw [heq]
        refine ih.imp id ?_
        rintro ⟨t, temp, file, payload, hmem, hvalue⟩
        exact ⟨t, temp, file, payload, List.mem_cons_of_mem _ hmem, hvalue⟩
      cases e with
      | ran t l =>
          cases l with
          | renamed temp file payload =>
              exact .inr ⟨t, temp, file, payload, List.mem_cons_self, rfl⟩
          | _ => exact hrest rfl
      | failed t l => exact hrest rfl
      | crashed p => exact hrest rfl

/-- In every run of calls of `writeSecureFile` on one target and readers of it, with any steps
failing and any processes stopping: the target is what the last rename gave it, which is its old
content or the payload of one of the calls; a call that has returned made its rename as its last
step, one that has thrown made none; a reader has the whole of what the target was when it was
opened; and no two calls of processes that are alive have one temporary file. -/
theorem writeSecureFile_atomic (hw₀ : w₀.WellFormed)
    {c : Config Disk FileStep Failure (Option (List UInt8))}
    (hrun : (fileSystem process).Run (PidsApart process pid)
      (initial target process pid w₀ calls) c) :
    (c.snap.world.read target = lastPayload (w₀.read target) c.snap.trace ∧
      (c.snap.world.read target = w₀.read target ∨ ∃ (t : Nat) (payload : List UInt8),
        calls[t]? = some (.write payload) ∧ c.snap.world.read target = some payload)) ∧
    (∀ (t : Nat) (payload : List UInt8), calls[t]? = some (.write payload) →
      (∀ r, System.returned c t = some r → Replaced t payload c.snap) ∧
      ∀ e, System.thread c t = some (.err e) → NoRename t c.snap) ∧
    (∀ (t patience : Nat) r, calls[t]? = some (.read patience) → System.returned c t = some r →
      ∃ bytes, r = some bytes ∧ Seen target w₀ t bytes c.snap) ∧
    ∀ t u temp, t ≠ u → Did t (.named (process t) temp) c.snap →
      Did u (.named (process u) temp) c.snap →
        ¬ Alive process t c.snap ∨ ¬ Alive process u c.snap := by
  obtain ⟨hc, hends⟩ := holdsTo_of_run hw₀ hrun
  have hreturned : ∀ t call r, calls[t]? = some call → System.returned c t = some r →
      Outcome target w₀ t r call c.snap := by
    intro t call r hcall hr
    exact hends t _ (System.thread_of_returned hr) call hcall
  refine ⟨⟨hc.value, ?_⟩, ?_, ?_, ?_⟩
  · rw [hc.value]
    refine (lastPayload_cases (w₀.read target) c.snap.trace).imp id ?_
    rintro ⟨t, temp, file, payload, hmem, hvalue⟩
    exact ⟨t, payload, hc.renamed_call t temp file payload hmem, hvalue⟩
  · intro t payload hcall
    constructor
    · intro r hr
      exact hreturned t _ r hcall hr
    · intro e he
      exact hends t _ he payload hcall
  · intro t patience r hcall hr
    exact hreturned t _ r hcall hr
  · intro t u temp hne ht hu
    refine (hc.named_apart t u _ _ temp ht hu hne).imp ?_ ?_
    · exact fun hcrash halive => halive hcrash
    · exact fun hcrash halive => halive hcrash

/-- Processes of different numbers are never taken for each other. -/
theorem pidsApart_of_injective {process pid : Nat → Nat} (hpid : Function.Injective pid)
    (e : Event FileStep) (x : Snapshot Disk FileStep) : PidsApart process pid e x :=
  fun _ _ _ hne heq => absurd (hpid heq) hne

/-- A disk on which `f` has one byte, and a file of an earlier process is left over. -/
def leftover : Disk where
  directory := true
  names := fun name =>
    if name = "f".toList then some 0
    else if name = tempName "f".toList 7 0 then some 1 else none
  contents := fun file => if file = 0 then [1] else []
  fresh := 2
  counters := fun _ => 0

theorem leftover_wellFormed : leftover.WellFormed := by
  intro name file h
  simp only [leftover] at h ⊢
  split at h
  · rw [← Option.some.inj h]
    decide
  · split at h
    · rw [← Option.some.inj h]
      decide
    · cases h

/-- The first writer of process 7 meets the file that is left over, the second replaces `f`. -/
theorem writeSecureFile_atomic_leftover :
    ∃ c : Config Disk FileStep Failure (Option (List UInt8)),
      System.returned c 1 = some none ∧ Replaced 1 [3] c.snap ∧
        (∀ e, System.thread c 0 = some (.err e) → NoRename 0 c.snap) := by
  have hreplay : (((fileSystem fun _ => 7).replay (initial "f".toList (fun _ => 7) id leftover
      [.write [2], .write [3]])
        ([0, 0, 0, 1, 1, 1, 0, 1, 1, 1, 1, 1, 0, 1].map Move.run)).map fun c =>
          System.returned c 1) = some (some none) := by
    decide +kernel
  obtain ⟨c, hreach, hret⟩ := System.exists_reachable_of_replay hreplay
  have hrun := hreach.mono fun e x _ =>
    @pidsApart_of_injective (fun _ => 7) id Function.injective_id e x
  obtain ⟨-, hwrite, -, -⟩ := writeSecureFile_atomic leftover_wellFormed hrun
  exact ⟨c, hret, (hwrite 1 [3] rfl).1 none hret, (hwrite 0 [2] rfl).2⟩

end AgentGather.Storage.SecureFs
