import AgentGather.Storage.Alone

/-!
# The creation of a room

`createRoom` opens its four files one after the other, each exclusively, and takes nothing back
when a step fails.  Whoever opens `room.json` owns the creation: nobody else gets past that
file.  So at most one call succeeds, and a call that is stopped behind it blocks every later one.
-/

namespace AgentGather.Storage

open AgentGather.Library AgentGather.Protocol

variable {μ : Type} {process : Nat → Nat} {calls : List CreateRoomOptions} {roomId : String}
  {t : Nat}

/-! ## What creation should do -/

/-- The calls, each by its own caller, where nobody has created the room. -/
def creating (clock : Nat) (memory : μ) (calls : List CreateRoomOptions) :
    Config (World μ) RoomStep Failure RoomState where
  snap := ⟨⟨.empty, none, clock, memory⟩, []⟩
  threads := calls.map fun options => some (createRoom options)

/-- The files of a room that was created at `now`. -/
def CreateRoomOptions.files (options : CreateRoomOptions) (now : Nat) : RoomFiles where
  state := .whole (options.state now)
  participants := .whole []
  brief := .whole (options.briefBody.getD "")
  messages := .whole []

/-- The caller that has opened `room.json`. -/
def stateCreator : List (Event RoomStep) → Option Nat
  | [] => none
  | .ran t (.created .state) :: _ => some t
  | _ :: es => stateCreator es

/-- The caller has got through the last step of its creation. -/
def Completed (t : Nat) (es : List (Event RoomStep)) : Prop := .ran t (.chmod .messages) ∈ es

instance (t : Nat) (es : List (Event RoomStep)) : Decidable (Completed t es) :=
  inferInstanceAs (Decidable (_ ∈ es))

/-- The options are for this room, and nothing is wrong with them. -/
structure Acceptable (roomId : String) (options : CreateRoomOptions) : Prop where
  room : options.roomId = roomId
  slug : assertSafeSlug roomId "room id" = .ok ()
  host : assertSafeSlug options.hostAlias "host alias" = .ok ()
  brief : assertBriefSize (options.briefBody.getD "") = .ok ()

/-- At most one call succeeds, and the room is the one it created; while no call is running
and none has succeeded, a later call with acceptable options succeeds. -/
structure AllOrNothing (calls : List CreateRoomOptions) (roomId : String)
    (c : Config (World μ) RoomStep Failure RoomState) : Prop where
  success : ∀ t state, System.returned c t = some state → Completed t c.snap.trace
  atMostOne : ∀ t u, Completed t c.snap.trace → Completed u c.snap.trace → t = u
  values : ∀ t, Completed t c.snap.trace → ∃ options now, calls[t]? = some options ∧
    (∀ given, options.now = some given → now = given) ∧
    c.snap.world.files = options.files now ∧
    ∀ state, System.returned c t = some state → state = options.state now
  again : System.Quiescent c → (∀ t, ¬ Completed t c.snap.trace) →
    ∀ options, Acceptable roomId options →
      ∃ w, (createRoom options).runAlone c.snap.world =
          (.ok (options.state (options.now.getD c.snap.world.clock)), w) ∧
        w.files = options.files (options.now.getD c.snap.world.clock)

/-- Once no call is running, whoever has opened `room.json` has got through its last step: no
call was stopped in between. -/
def Unspoiled (c : Config (World μ) RoomStep Failure RoomState) : Prop :=
  System.Quiescent c → ∀ t, stateCreator c.snap.trace = some t → Completed t c.snap.trace

/-! ## The owner of the creation -/

/-- The room is as the caller's options make it at some time. -/
def MadeBy (calls : List CreateRoomOptions) (t : Nat) (files : RoomFiles) (now : Nat) : Prop :=
  ∃ options, calls[t]? = some options ∧ (∀ given, options.now = some given → now = given) ∧
    files = options.files now

/-- What holds behind any steps: nothing is there before `room.json` is opened, it is there
from then on, and who has completed its creation has opened it. -/
structure Creation (calls : List CreateRoomOptions) (roomId : String)
    (x : Snapshot (World μ) RoomStep) : Prop where
  untouched : stateCreator x.trace = none → x.world.files = .empty
  begun : ∀ t, stateCreator x.trace = some t →
    x.world.files.state ≠ .absent ∧ assertSafeSlug roomId "room id" = .ok ()
  completed : ∀ t, Completed t x.trace →
    stateCreator x.trace = some t ∧ ∃ now, MadeBy calls t x.world.files now

/-- `room.json` is opened once, and only who has opened it changes a file. -/
structure CreationStep (e : Event RoomStep) (x : Snapshot (World μ) RoomStep) (w : World μ) :
    Prop where
  once : ∀ u, e = .ran u (.created .state) → stateCreator x.trace = none
  owned : w.files = x.world.files ∨ ∃ u l, e = .ran u l ∧
    (stateCreator x.trace = some u ∨ l = .created .state)

def creationContract (μ : Type) (calls : List CreateRoomOptions) (roomId : String) :
    Contract (World μ) RoomStep where
  inv := Creation calls roomId
  guar := CreationStep
  allow _ _ := True

abbrev CreationSafe {α : Type} (process : Nat → Nat) (calls : List CreateRoomOptions)
    (roomId : String) (t : Nat) (Q : α → Snapshot (World μ) RoomStep → Prop)
    (p : RoomProg μ α) (P : Snapshot (World μ) RoomStep → Prop) : Prop :=
  (creationContract μ calls roomId).Safe (faultySystem μ process) t Q (fun _ _ => True) p P

/-- The caller owns the creation, has not completed it, and the files are these. -/
structure Owns (t : Nat) (files : RoomFiles) (x : Snapshot (World μ) RoomStep) : Prop where
  creator : stateCreator x.trace = some t
  underway : ¬ Completed t x.trace
  files : x.world.files = files

/-- The caller has not opened `room.json`. -/
def Outside (t : Nat) (x : Snapshot (World μ) RoomStep) : Prop := stateCreator x.trace ≠ some t

/-- The caller has created the room as its options say. -/
def HasMade (calls : List CreateRoomOptions) (t : Nat) (state : RoomState)
    (x : Snapshot (World μ) RoomStep) : Prop :=
  Completed t x.trace ∧ stateCreator x.trace = some t ∧ ∃ options now,
    calls[t]? = some options ∧ (∀ given, options.now = some given → now = given) ∧
      x.world.files = options.files now ∧ state = options.state now

section Traces

variable {e : Event RoomStep} {es : List (Event RoomStep)} {x : Snapshot (World μ) RoomStep}
  {w : World μ}

theorem stateCreator_cons (h : ∀ u, e ≠ .ran u (.created .state)) :
    stateCreator (e :: es) = stateCreator es := by
  rw [stateCreator.eq_3]
  intro u he
  exact h u he

theorem stateCreator_of_step (h : CreationStep e x w) {u : Nat}
    (hu : stateCreator x.trace = some u) : stateCreator (e :: x.trace) = some u := by
  rw [stateCreator_cons, hu]
  intro v he
  have hnone := h.once v he
  rw [hnone] at hu
  cases hu

theorem completed_cons (h : ∀ u, e ≠ .ran u (.chmod .messages)) {u : Nat} :
    Completed u (e :: es) ↔ Completed u es := by
  rw [Completed, Completed, List.mem_cons]
  constructor
  · rintro (he | hmem)
    · exact (h u he.symm).elim
    · exact hmem
  · exact .inr

/-- Another caller's steps leave a caller's files alone. -/
theorem owns_stable (files : RoomFiles) :
    (creationContract μ calls roomId).Stable (faultySystem μ process) t (Owns t files) := by
  intro e x w hforeign _ _ hstep hx
  refine ⟨stateCreator_of_step hstep hx.creator, ?_, ?_⟩
  · rw [Snapshot.record_trace, Completed, List.mem_cons]
    rintro (rfl | hmem)
    · exact hforeign rfl
    · exact hx.underway hmem
  · rcases hstep.owned with hsame | ⟨u, l, rfl, howner⟩
    · exact hsame.trans hx.files
    · rcases howner with hcreator | rfl
      · rw [hx.creator] at hcreator
        exact (hforeign (Option.some.inj hcreator).symm).elim
      · have hnone := hstep.once u rfl
        rw [hx.creator] at hnone
        cases hnone

theorem outside_stable :
    (creationContract μ calls roomId).Stable (faultySystem μ process) t (Outside t) := by
  intro e x w hforeign _ _ hstep hx
  rw [Outside, Snapshot.record_trace]
  by_cases he : ∃ u, e = .ran u (.created .state)
  · obtain ⟨u, rfl⟩ := he
    intro hcreator
    exact hforeign (Option.some.inj hcreator)
  · rw [stateCreator_cons fun u hu => he ⟨u, hu⟩]
    exact hx

theorem hasMade_stable (state : RoomState) :
    (creationContract μ calls roomId).Stable (faultySystem μ process) t
      (HasMade calls t state) := by
  rintro e x w hforeign - - hstep ⟨hcompleted, hcreator, options, now, hcall, hgiven, hfiles,
    hstate⟩
  refine ⟨List.mem_cons_of_mem e hcompleted, stateCreator_of_step hstep hcreator, options, now,
    hcall, hgiven, ?_, hstate⟩
  rcases hstep.owned with hsame | ⟨u, l, rfl, howner⟩
  · exact hsame.trans hfiles
  · rcases howner with howner | rfl
    · rw [hcreator] at howner
      exact (hforeign (Option.some.inj howner).symm).elim
    · have hnone := hstep.once u rfl
      rw [hcreator] at hnone
      cases hnone

/-- A step that changes no file and is none of the two that are counted. -/
theorem keeps_of_same (hx : Creation calls roomId x) (hfiles : w.files = x.world.files)
    (hopen : ∀ u, e ≠ .ran u (.created .state)) (hlast : ∀ u, e ≠ .ran u (.chmod .messages)) :
    (creationContract μ calls roomId).Keeps e x w := by
  refine ⟨⟨?_, ?_, ?_⟩, ⟨fun u he => (hopen u he).elim, .inl hfiles⟩⟩
  · rw [Snapshot.record_trace, stateCreator_cons hopen, Snapshot.record_world, hfiles]
    exact hx.untouched
  · rw [Snapshot.record_trace, stateCreator_cons hopen, Snapshot.record_world, hfiles]
    exact hx.begun
  · intro u hu
    rw [Snapshot.record_trace, stateCreator_cons hopen, Snapshot.record_world, hfiles]
    exact hx.completed u ((completed_cons hlast).mp hu)

end Traces

/-! ## The steps of a creation -/

section Steps

variable {α : Type} {label : World μ → RoomStep} {effect : World μ → World μ}
  {result : World μ → Except Failure α} {files files' : RoomFiles}

/-- A step that is none of the two that are counted. -/
def Uncounted (l : RoomStep) : Prop := l ≠ .created .state ∧ l ≠ .chmod .messages

theorem Uncounted.ran_ne {l : RoomStep} (h : Uncounted l) :
    (∀ u, Event.ran t l ≠ .ran u (.created .state)) ∧
      ∀ u, Event.ran t l ≠ .ran u (.chmod .messages) := by
  constructor
  · intro u he
    exact h.1 (Event.ran.inj he).2
  · intro u he
    exact h.2 (Event.ran.inj he).2

/-- A step that fails is none of the two. -/
theorem failed_keeps {x : Snapshot (World μ) RoomStep} (hx : Creation calls roomId x)
    (l : RoomStep) : (creationContract μ calls roomId).Keeps (.failed t l) x x.world :=
  keeps_of_same hx rfl (fun _ he => nomatch he) fun _ he => nomatch he

/-- A caller that has not opened `room.json` looks around. -/
theorem outside_action (hfiles : ∀ w, (effect w).files = w.files)
    (hlabel : ∀ w, Uncounted (label w)) :
    CreationSafe process calls roomId t (fun _ => Outside t)
      (.action label (fun _ => true) effect result) (Outside t) := by
  have hafter : ∀ x : Snapshot (World μ) RoomStep, Outside t x →
      Outside t (x.record (.ran t (label x.world)) (effect x.world)) := by
    intro x hx
    rw [Outside, Snapshot.record_trace, stateCreator_cons (hlabel x.world).ran_ne.1]
    exact hx
  refine .action outside_stable (fun x hi _ _ _ => ?_) (fun x _ _ hx _ _ _ => hafter x hx)
    (fun _ _ _ _ _ _ _ => trivial) fun x _ hi _ _ _ => ⟨failed_keeps hi _, trivial⟩
  exact keeps_of_same hi (hfiles x.world) (hlabel x.world).ran_ne.1 (hlabel x.world).ran_ne.2

/-- A step of the owner takes the files on. -/
theorem owned_action (hlabel : ∀ w, w.files = files → Uncounted (label w))
    (heffect : ∀ w, w.files = files → (effect w).files = files')
    (hstate : files'.state ≠ .absent) :
    CreationSafe process calls roomId t (fun _ => Owns t files')
      (.action label (fun _ => true) effect result) (Owns t files) := by
  have hafter : ∀ x : Snapshot (World μ) RoomStep, Owns t files x →
      Owns t files' (x.record (.ran t (label x.world)) (effect x.world)) := by
    intro x hx
    have hcounted := hlabel x.world hx.files
    refine ⟨?_, ?_, heffect x.world hx.files⟩
    · rw [Snapshot.record_trace, stateCreator_cons hcounted.ran_ne.1]
      exact hx.creator
    · rw [Snapshot.record_trace, completed_cons hcounted.ran_ne.2]
      exact hx.underway
  refine .action (owns_stable files) (fun x hi hx _ _ => ?_) (fun x _ _ hx _ _ _ => hafter x hx)
    (fun _ _ _ _ _ _ _ => trivial) fun x _ hi _ _ _ => ⟨failed_keeps hi _, trivial⟩
  have hcounted := hlabel x.world hx.files
  have hnext := hafter x hx
  refine ⟨⟨fun hnone => ?_, fun u hu => ?_, fun u hu => ?_⟩,
    ⟨fun u he => (hcounted.ran_ne.1 u he).elim, .inr ⟨t, _, rfl, .inl hx.creator⟩⟩⟩
  · rw [hnext.creator] at hnone
    cases hnone
  · rw [hnext.files]
    exact ⟨hstate, (hi.begun t hx.creator).2⟩
  · rw [Snapshot.record_trace, completed_cons hcounted.ran_ne.2] at hu
    have howner := (hi.completed u hu).1
    rw [hx.creator] at howner
    rw [← Option.some.inj howner] at hu
    exact (hx.underway hu).elim

/-- The exclusive open of `room.json` makes its caller the owner. -/
theorem openState_safe (hslug : assertSafeSlug roomId "room id" = .ok ()) :
    CreationSafe process calls roomId t
      (fun _ => Owns t { RoomFiles.empty with state := .torn })
      (.action (fun w : World μ =>
          if w.files.state != .absent then .existed .state else .created .state)
        (fun _ => true)
        (fun w => if w.files.state != .absent then w
          else { w with files := { w.files with state := .torn } })
        fun w => if w.files.state != .absent then .error .fileExists else .ok ())
      (Outside t) := by
  have hfirst : ∀ x : Snapshot (World μ) RoomStep, Creation calls roomId x →
      (x.world.files.state != .absent) = false →
        stateCreator x.trace = none ∧ x.world.files = .empty := by
    intro x hi habsent
    have hnone : stateCreator x.trace = none := by
      cases hcreator : stateCreator x.trace with
      | none => rfl
      | some u => exact absurd (by simpa using habsent) (hi.begun u hcreator).1
    exact ⟨hnone, hi.untouched hnone⟩
  have hnever : ∀ x : Snapshot (World μ) RoomStep, Creation calls roomId x →
      stateCreator x.trace = none →
        ∀ u, ¬ Completed u (.ran t (.created .state) :: x.trace) := by
    intro x hi hnone u hu
    have hcompleted : Completed u x.trace :=
      (completed_cons (e := .ran t (.created .state)) fun _ he => nomatch he).mp hu
    have hcreator := (hi.completed u hcompleted).1
    rw [hnone] at hcreator
    cases hcreator
  refine .action outside_stable (fun x hi hx _ _ => ?_) (fun x _ hi hx _ _ hok => ?_)
    (fun _ _ _ _ _ _ _ => trivial) fun x _ hi _ _ _ => ⟨failed_keeps hi _, trivial⟩
  · cases habsent : (x.world.files.state != .absent) with
    | true =>
      simp only [↓reduceIte]
      exact keeps_of_same hi rfl (fun _ he => nomatch he) fun _ he => nomatch he
    | false =>
      simp only [Bool.false_eq_true, ↓reduceIte]
      obtain ⟨hnone, hempty⟩ := hfirst x hi habsent
      refine ⟨⟨fun h => ?_, fun u _ => ⟨?_, hslug⟩, fun u hu => ?_⟩,
        ⟨fun _ _ => hnone, .inr ⟨t, _, rfl, .inr rfl⟩⟩⟩
      · cases h
      · intro h
        cases h
      · exact (hnever x hi hnone u hu).elim
  · cases habsent : (x.world.files.state != .absent) with
    | true =>
      simp only [habsent, ↓reduceIte] at hok
      cases hok
    | false =>
      simp only [Bool.false_eq_true, ↓reduceIte]
      obtain ⟨hnone, hempty⟩ := hfirst x hi habsent
      refine ⟨rfl, hnever x hi hnone t, ?_⟩
      rw [Snapshot.record_world, hempty]

/-- The owner opens a further file, and nobody else has. -/
theorem openBehind_safe (file : RoomFile) (files : RoomFiles) (present : RoomFiles → Bool)
    (openedAs : RoomFiles → RoomFiles) (hfile : file ≠ .state) (habsent : present files = false)
    (hopened : (openedAs files).state ≠ .absent) :
    CreationSafe process calls roomId t (fun _ => Owns t (openedAs files))
      (.action (fun w : World μ => if present w.files then .existed file else .created file)
        (fun _ => true)
        (fun w => if present w.files then w else { w with files := openedAs w.files })
        fun w => if present w.files then .error .fileExists else .ok ())
      (Owns t files) := by
  refine owned_action ?_ ?_ hopened
  · intro w hw
    rw [hw, habsent]
    exact ⟨fun h => hfile (RoomStep.created.inj h), fun h => (nomatch h)⟩
  · intro w hw
    rw [hw, habsent]
    simp only [Bool.false_eq_true, ↓reduceIte]

theorem fill_safe (file : RoomFile) (files : RoomFiles) (filledAs : RoomFiles → RoomFiles)
    (hfilled : (filledAs files).state ≠ .absent) :
    CreationSafe process calls roomId t (fun _ => Owns t (filledAs files))
      (.update (fun _ => .filled file) fun w : World μ => { w with files := filledAs w.files })
      (Owns t files) := by
  refine owned_action ?_ ?_ hfilled
  · exact fun _ _ => ⟨fun h => (nomatch h), fun h => (nomatch h)⟩
  · intro w hw
    simp only [hw]

theorem chmod_safe {file : RoomFile} (hfile : file ≠ .messages) (hstate : files.state ≠ .absent) :
    CreationSafe process calls roomId t (fun _ => Owns t files)
      (.update (fun _ => .chmod file) (id : World μ → World μ)) (Owns t files) := by
  refine owned_action ?_ (fun _ hw => hw) hstate
  exact fun _ _ => ⟨fun h => (nomatch h), fun h => hfile (RoomStep.chmod.inj h)⟩

/-- The owner creates a file between `room.json` and the log. -/
theorem createBehind_safe (file : RoomFile) (files : RoomFiles) {present : RoomFiles → Bool}
    {openedAs filledAs : RoomFiles → RoomFiles} (hfirst : file ≠ .state)
    (hlast : file ≠ .messages) (habsent : present files = false)
    (hopened : (openedAs files).state ≠ .absent)
    (hfilled : (filledAs (openedAs files)).state ≠ .absent) :
    CreationSafe process calls roomId t (fun _ => Owns t (filledAs (openedAs files)))
      (@createSecureFile μ file present openedAs filledAs) (Owns t files) := by
  refine Contract.Safe.bind
    (openBehind_safe file files present openedAs hfirst habsent hopened) fun _ => ?_
  refine Contract.Safe.bind (fill_safe file (openedAs files) filledAs hfilled) fun _ => ?_
  exact chmod_safe hlast hfilled

/-- The last step completes the creation. -/
theorem complete_safe {options : CreateRoomOptions} {now : Nat} (hcall : calls[t]? = some options)
    (hgiven : ∀ given, options.now = some given → now = given)
    (hfiles : files = options.files now) :
    CreationSafe process calls roomId t (fun _ => HasMade calls t (options.state now))
      (.update (fun _ => .chmod .messages) (id : World μ → World μ)) (Owns t files) := by
  have hopen : ∀ u, Event.ran t (RoomStep.chmod .messages) ≠ .ran u (.created .state) := by
    intro u he
    cases he
  refine .action (owns_stable files) (fun x hi hx _ _ => ?_) (fun x _ hi hx _ _ _ => ?_)
    (fun _ _ _ _ _ _ _ => trivial) fun x _ hi _ _ _ => ⟨failed_keeps hi _, trivial⟩
  · refine ⟨⟨?_, ?_, fun u hu => ?_⟩, ⟨fun u he => (hopen u he).elim, .inl rfl⟩⟩
    · rw [Snapshot.record_trace, stateCreator_cons hopen]
      exact hi.untouched
    · rw [Snapshot.record_trace, stateCreator_cons hopen]
      exact hi.begun
    · rw [Snapshot.record_trace, stateCreator_cons hopen]
      rw [Snapshot.record_trace, Completed, List.mem_cons] at hu
      rcases hu with he | hmem
      · obtain rfl := (Event.ran.inj he).1
        exact ⟨hx.creator, now, options, hcall, hgiven, hx.files.trans hfiles⟩
      · exact hi.completed u hmem
  · refine ⟨List.mem_cons_self, ?_, options, now, hcall, hgiven, hx.files.trans hfiles, rfl⟩
    rw [Snapshot.record_trace, stateCreator_cons hopen]
    exact hx.creator

/-- A caller ends with the room made, or without a claim. -/
theorem createRoom_safe {options : CreateRoomOptions} (hcall : calls[t]? = some options)
    (hroom : options.roomId = roomId) :
    CreationSafe process calls roomId t (HasMade calls t) (@createRoom μ options)
      (Outside t) := by
  refine .bind_ofExcept (fun _ hslug => ?_) fun _ _ _ _ _ => trivial
  refine .bind_ofExcept (fun _ _ => ?_) fun _ _ _ _ _ => trivial
  rw [hroom] at hslug
  refine Contract.Safe.bind (R := fun now x => (∀ given, options.now = some given → now = given) ∧
    Outside t x) ?_ fun now => Contract.Safe.of_pure fun hgiven => ?_
  · rw [dateNow.eq_def]
    split
    · rename_i given hnow
      exact .done fun x _ hx => ⟨fun other hother => Option.some.inj (hnow.symm.trans hother), hx⟩
    · rename_i hnow
      refine Contract.Safe.conseq (Q := fun _ => Outside t)
        (outside_action (fun _ => rfl) fun _ => ⟨fun h => (nomatch h), fun h => (nomatch h)⟩)
        (fun _ _ hx => hx) (fun _ _ _ hx => ⟨fun given hgiven => ?_, hx⟩) fun _ _ _ he => he
      rw [hnow] at hgiven
      cases hgiven
  refine Contract.Safe.bind (R := fun _ => Outside t)
    (outside_action (fun _ => rfl) fun _ => ⟨fun h => (nomatch h), fun h => (nomatch h)⟩) fun _ => ?_
  refine .bind_ofExcept (fun _ _ => ?_) fun _ _ _ _ _ => trivial
  let state := Stored.whole (options.state now)
  let brief := Stored.whole (options.briefBody.getD "")
  have hwhole : state ≠ .absent := fun h => nomatch h
  refine Contract.Safe.bind (R := fun _ => Owns t ⟨state, .absent, .absent, .absent⟩)
    ?_ fun _ => ?_
  · refine Contract.Safe.bind (openState_safe hslug) fun _ => ?_
    refine Contract.Safe.bind (fill_safe .state ⟨.torn, .absent, .absent, .absent⟩
      (fun f => { f with state := state }) hwhole) fun _ => ?_
    exact chmod_safe (by decide) hwhole
  refine Contract.Safe.bind
    (createBehind_safe .participants ⟨state, .absent, .absent, .absent⟩ (by decide) (by decide)
      rfl hwhole hwhole) fun _ => ?_
  refine Contract.Safe.bind
    (createBehind_safe .brief ⟨state, .whole [], .absent, .absent⟩ (by decide) (by decide) rfl
      hwhole hwhole) fun _ => ?_
  refine Contract.Safe.bind (R := fun _ => HasMade calls t (options.state now)) ?_ fun _ => .ret
  refine Contract.Safe.bind (openBehind_safe .messages ⟨state, .whole [], brief, .absent⟩
    (fun f => f.messages != .absent) (fun f => { f with messages := .whole [] }) (by decide) rfl
    hwhole) fun _ => ?_
  refine Contract.Safe.bind (fill_safe .messages ⟨state, .whole [], brief, .whole []⟩ id hwhole)
    fun _ => ?_
  exact complete_safe hcall hgiven rfl

end Steps

/-! ## A later call -/

section Later

variable {options : CreateRoomOptions} {w : World μ}

/-- Where nothing is in the way, a creation succeeds. -/
theorem createRoom_alone (hoptions : Acceptable roomId options) (hw : w.files = .empty) :
    ∃ w', (createRoom options).runAlone w =
        (.ok (options.state (options.now.getD w.clock)), w') ∧
      w'.files = options.files (options.now.getD w.clock) := by
  obtain ⟨files, lock, clock, memory⟩ := w
  obtain rfl : files = .empty := hw
  obtain ⟨rfl, hslug, hhost, hbrief⟩ := hoptions
  refine ⟨⟨options.files (options.now.getD clock), lock, clock, memory⟩, ?_, rfl⟩
  simp only [createRoom, hslug, hhost, hbrief]
  cases hnow : options.now with
  | none => rfl
  | some now => rfl

/-- Where `room.json` is there, no creation succeeds. -/
theorem createRoom_alone_fails (hw : w.files.state ≠ .absent) (state : RoomState) (w' : World μ) :
    (createRoom options).runAlone w ≠ (.ok state, w') := by
  intro hrun
  obtain ⟨_, _, hroom, hrun⟩ := Prog.exists_of_runAlone_bind hrun
  obtain ⟨_, _, hhost, hrun⟩ := Prog.exists_of_runAlone_bind hrun
  obtain ⟨_, _, hnow, hrun⟩ := Prog.exists_of_runAlone_bind hrun
  obtain ⟨_, _, hdirectories, hrun⟩ := Prog.exists_of_runAlone_bind hrun
  obtain ⟨_, _, hbrief, hrun⟩ := Prog.exists_of_runAlone_bind hrun
  obtain ⟨_, _, hstate, -⟩ := Prog.exists_of_runAlone_bind hrun
  obtain ⟨_, _, hopened, -⟩ := Prog.exists_of_runAlone_bind hstate
  rw [runAlone_ofExcept] at hroom hhost hbrief
  rw [runAlone_dateNow] at hnow
  rw [ensureRoomDirectories, runAlone_update] at hdirectories
  -- none of the steps before has touched the files
  obtain rfl := (Prod.mk.inj hroom).2
  obtain rfl := (Prod.mk.inj hhost).2
  obtain rfl := (Prod.mk.inj hnow).2
  obtain rfl := (Prod.mk.inj hdirectories).2
  obtain rfl := (Prod.mk.inj hbrief).2
  rw [Prog.runAlone_action] at hopened
  simp [hw] at hopened

end Later

/-! ## Runs -/

section Runs

variable {clock : Nat} {memory : μ} {c : Config (World μ) RoomStep Failure RoomState}

theorem crashSafe_creation :
    (creationContract μ calls roomId).CrashSafe (faultySystem μ process) := by
  intro p damage hdamage x hx _
  obtain rfl := Option.some.inj hdamage
  exact keeps_of_same hx rfl (fun _ he => nomatch he) fun _ he => nomatch he

theorem thread_creating {p : RoomProg μ RoomState}
    (h : System.thread (creating clock memory calls) t = some p) :
    ∃ options, calls[t]? = some options ∧ p = createRoom options := by
  simp only [System.thread, creating, List.getElem?_map] at h
  cases hcall : calls[t]? with
  | none => simp [hcall] at h
  | some options => exact ⟨options, rfl, by simpa [hcall] using h.symm⟩

/-- What holds in every run: the creation has one owner, and who returns has made the room. -/
theorem creating_ends (hcalls : ∀ options ∈ calls, options.roomId = roomId)
    (h : (faultySystem μ process).Reachable (creating clock memory calls) c) :
    Creation calls roomId c.snap ∧
      ∀ t state, System.returned c t = some state → HasMade calls t state c.snap := by
  have hinv : Creation calls roomId (creating clock memory calls).snap :=
    ⟨fun _ => rfl, fun _ h => (nomatch h), fun _ h => (nomatch h)⟩
  have hstart : (creationContract μ calls roomId).HoldsTo (faultySystem μ process)
      (HasMade calls) (fun _ _ _ => True) (creating clock memory calls) := by
    refine ⟨hinv, fun t p hp => ?_⟩
    obtain ⟨options, hcall, rfl⟩ := thread_creating hp
    exact .of_safe (createRoom_safe hcall (hcalls options (List.mem_of_getElem? hcall))) hinv
      fun h => (nomatch h)
  have hends := Contract.ends_sound hstart crashSafe_creation (fun t => hasMade_stable)
    (fun _ _ => .of_const True) h
  refine ⟨hends.1, fun t state hreturned => ?_⟩
  exact hends.2 t _ (System.thread_of_returned hreturned)

/-- Creation is all or nothing in exactly the runs in which no call is stopped between its
opening of `room.json` and its last step. -/
theorem allOrNothing_iff (process : Nat → Nat) (clock : Nat) (memory : μ)
    (calls : List CreateRoomOptions) (roomId : String)
    (hcalls : ∀ options ∈ calls, options.roomId = roomId)
    {c : Config (World μ) RoomStep Failure RoomState}
    (h : (faultySystem μ process).Reachable (creating clock memory calls) c) :
    AllOrNothing calls roomId c ↔ Unspoiled c := by
  obtain ⟨hcreation, hmade⟩ := creating_ends hcalls h
  constructor
  · intro hall hquiet t hcreator
    by_contra hstopped
    have hnobody : ∀ u, ¬ Completed u c.snap.trace := by
      intro u hu
      have howner := (hcreation.completed u hu).1
      rw [hcreator] at howner
      exact hstopped (Option.some.inj howner ▸ hu)
    obtain ⟨hpresent, hslug⟩ := hcreation.begun t hcreator
    have hhost : assertSafeSlug "host" "host alias" = .ok () := by decide +kernel
    have hbrief : assertBriefSize "" = .ok () := by decide +kernel
    have hoptions : Acceptable roomId ⟨roomId, "host", none, none, none, none⟩ :=
      ⟨rfl, hslug, hhost, hbrief⟩
    obtain ⟨w, hrun, -⟩ := hall.again hquiet hnobody _ hoptions
    exact createRoom_alone_fails hpresent _ w hrun
  · intro hunspoiled
    refine ⟨fun t state hreturned => (hmade t state hreturned).1, fun t u ht hu => ?_,
      fun t ht => ?_, fun hquiet hnobody options hoptions => ?_⟩
    · have hboth := (hcreation.completed t ht).1.symm.trans (hcreation.completed u hu).1
      exact Option.some.inj hboth
    · obtain ⟨-, now, options, hcall, hgiven, hfiles⟩ := hcreation.completed t ht
      refine ⟨options, now, hcall, hgiven, hfiles, fun state hreturned => ?_⟩
      obtain ⟨-, -, options', now', hcall', -, hfiles', rfl⟩ := hmade t state hreturned
      obtain rfl := Option.some.inj (hcall.symm.trans hcall')
      have hwhole := congrArg RoomFiles.state (hfiles'.symm.trans hfiles)
      exact Stored.whole.inj hwhole
    · refine createRoom_alone hoptions (hcreation.untouched ?_)
      cases hcreator : stateCreator c.snap.trace with
      | none => rfl
      | some t => exact (hnobody t (hunspoiled hquiet t hcreator)).elim

end Runs

/-- Two hosts create a room with the same id. -/
def twoHosts : List CreateRoomOptions :=
  [⟨"r", "host", some 0, none, some "plan", none⟩, ⟨"r", "other", some 1, none, none, none⟩]

/-- The second host comes too late, by the general theorem. -/
theorem allOrNothing_iff_twoHosts :
    ∃ c, (faultySystem Unit id).Reachable (creating 0 () twoHosts) c ∧
      System.returned c 0 =
        some (CreateRoomOptions.state ⟨"r", "host", some 0, none, some "plan", none⟩ 0) ∧
      c.snap.trace.head? = some (.ran 1 (.existed .state)) ∧
      (AllOrNothing twoHosts "r" c ↔ Unspoiled c) := by
  have hrun : ((faultySystem Unit id).replay (creating 0 () twoHosts)
      (List.replicate 13 (.run 0) ++ [.run 1, .run 1])).map
      (fun c => (System.returned c 0, c.snap.trace.head?)) =
      some (some (CreateRoomOptions.state ⟨"r", "host", some 0, none, some "plan", none⟩ 0),
        some (.ran 1 (.existed .state))) := by decide +kernel
  obtain ⟨c, hc, hlast⟩ := System.exists_reachable_of_replay hrun
  exact ⟨c, hc, congrArg Prod.fst hlast, congrArg Prod.snd hlast,
    allOrNothing_iff id 0 () twoHosts "r" (by decide) hc⟩

/-- The write of `room.json` fails, and the room can never be created. -/
theorem createRoom_blocked :
    ∃ c, (faultySystem Unit id).Reachable (creating 0 () (twoHosts.take 1)) c ∧
      ¬ AllOrNothing (twoHosts.take 1) "r" c := by
  have hrun : ((faultySystem Unit id).replay (creating 0 () (twoHosts.take 1))
      [.run 0, .run 0, .fail 0 .os]).map
      (fun c => (c.snap.trace, c.snap.world.files, c.threads.all fun p => p.all Prog.isOver)) =
      some ([.failed 0 (.filled .state), .ran 0 (.created .state), .ran 0 .madeDirectories],
        { RoomFiles.empty with state := .torn }, true) := by decide +kernel
  obtain ⟨c, hc, hlast⟩ := System.exists_reachable_of_replay hrun
  have htrace := congrArg Prod.fst hlast
  have hfiles := congrArg (fun x => x.2.1) hlast
  have hover := congrArg (fun x => x.2.2) hlast
  dsimp only at htrace hfiles hover
  refine ⟨c, hc, fun hall => ?_⟩
  have hnobody : ∀ t, ¬ Completed t c.snap.trace := by
    intro t
    rw [htrace]
    simp [Completed]
  have hslug : assertSafeSlug "r" "room id" = .ok () := by decide +kernel
  have hhost : assertSafeSlug "host" "host alias" = .ok () := by decide +kernel
  have hbrief : assertBriefSize "" = .ok () := by decide +kernel
  obtain ⟨w, hlater, -⟩ := hall.again (System.quiescent_of_over hover) hnobody
    ⟨"r", "host", none, none, none, none⟩ ⟨rfl, hslug, hhost, hbrief⟩
  refine createRoom_alone_fails ?_ _ w hlater
  rw [hfiles]
  exact fun h => nomatch h

end AgentGather.Storage
