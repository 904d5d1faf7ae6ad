import AgentGather.Storage.RoomStore

/-!
# Message ids under failure

An append is two durable writes: the log line, then `room.json` with the next id.  Any
call of the store may fail at any step or be cut off by a crash, any calls may overlap
outside the writer lock.  The ids of the log are strictly increasing exactly as long as
no append wrote its line while an earlier line's id was still owed to `room.json`.
-/

namespace AgentGather.Storage

open AgentGather.Library AgentGather.Protocol

variable {μ : Type}

/-- The ids are strictly increasing in log order. -/
def Increasing (log : List Message) : Prop := log.Pairwise fun m m' => m.id < m'.id

instance (log : List Message) : Decidable (Increasing log) :=
  inferInstanceAs (Decidable (log.Pairwise _))

/-! ## What the history says -/

/-- The last log line has been followed neither by the `room.json` write of an append
nor by that of a recovery. -/
def owed : List (Event RoomStep) → Bool
  | [] => false
  | .ran _ (.appended _) :: _ => true
  | .ran _ (.wroteState .appended _) :: _ => false
  | .ran _ (.wroteState .recovered _) :: _ => false
  | _ :: es => owed es

/-- Some append wrote its line while the line before it was owed. -/
def appendedOwing : List (Event RoomStep) → Bool
  | [] => false
  | .ran _ (.appended _) :: es => owed es || appendedOwing es
  | _ :: es => appendedOwing es

/-- The caller that opened `room.json` for the first time. -/
def opener : List (Event RoomStep) → Option Nat
  | [] => none
  | .ran t (.created .state) :: _ => some t
  | _ :: es => opener es

/-- A step that says nothing about ids, nor about who creates `room.json`. -/
def RoomStep.quiet : RoomStep → Bool
  | .appended _ => false
  | .wroteState .appended _ => false
  | .wroteState .recovered _ => false
  | .created .state => false
  | _ => true

/-- An event that says nothing about ids. -/
def quietEvent : Event RoomStep → Bool
  | .ran _ l => l.quiet
  | _ => true

theorem owed_quiet {e : Event RoomStep} (h : quietEvent e = true)
    (es : List (Event RoomStep)) : owed (e :: es) = owed es := by
  rcases e with ⟨t, l⟩ | ⟨t, l⟩ | p
  · cases l with
    | wroteState purpose s => cases purpose <;> first | rfl | cases h
    | appended m => cases h
    | _ => rfl
  · rfl
  · rfl

theorem appendedOwing_quiet {e : Event RoomStep} (h : quietEvent e = true)
    (es : List (Event RoomStep)) : appendedOwing (e :: es) = appendedOwing es := by
  rcases e with ⟨t, l⟩ | ⟨t, l⟩ | p
  · cases l with
    | appended m => cases h
    | _ => rfl
  · rfl
  · rfl

theorem opener_quiet {e : Event RoomStep} (h : quietEvent e = true)
    (es : List (Event RoomStep)) : opener (e :: es) = opener es := by
  rcases e with ⟨t, l⟩ | ⟨t, l⟩ | p
  · cases l with
    | created file => cases file <;> first | rfl | cases h
    | _ => rfl
  · rfl
  · rfl

/-! ## The invariant -/

/-- What holds between any two steps. -/
structure IdInv (x : Snapshot (World μ) RoomStep) : Prop where
  /-- Without a readable `room.json` nothing was appended. -/
  unborn : (∀ s, x.world.files.state ≠ .whole s) →
    x.world.files.log = [] ∧ owed x.trace = false
  unopened : x.world.files.state = .absent → opener x.trace = none
  /-- The next id is above every id of the log, unless it is owed. -/
  paid : owed x.trace = false → ∀ s, x.world.files.state = .whole s →
    ∀ m ∈ x.world.files.log, m.id < s.nextMessageId
  /-- While it is owed, the next id is the last id of the log. -/
  due : owed x.trace = true → ∃ s init m, x.world.files.state = .whole s ∧
    x.world.files.log = init ++ [m] ∧ m.id = s.nextMessageId ∧ ∀ m' ∈ init, m'.id ≤ m.id
  increasing : Increasing x.world.files.log ↔ appendedOwing x.trace = false

/-- What an event must leave to the threads it is foreign to: the holder of the writer
lock keeps it and what it read, and the creator keeps the file it opened. -/
def idGuar (process : Nat → Nat) (e : Event RoomStep) (x : Snapshot (World μ) RoomStep)
    (w : World μ) : Prop :=
  ∀ t, (faultySystem μ process).Foreign t e →
    (x.world.lock = some t → w.lock = some t ∧ w.files.log = x.world.files.log ∧
      owed (e :: x.trace) = owed x.trace ∧
      ∀ s, x.world.files.state = .whole s → w.files.state = .whole s) ∧
    (opener x.trace = some t → x.world.files.state = .torn →
      w.files.state = .torn ∧ opener (e :: x.trace) = some t)

def idContract (μ : Type) (process : Nat → Nat) : Contract (World μ) RoomStep where
  inv := IdInv
  guar := idGuar process
  allow := fun _ _ => True

variable {process : Nat → Nat}

/-- An event that changes neither the ids' history nor, apart from the lock, the
files the invariant is about. -/
theorem IdInv.quiet {x : Snapshot (World μ) RoomStep} (h : IdInv x) {e : Event RoomStep}
    (he : quietEvent e = true) {w : World μ} (hlog : w.files.log = x.world.files.log)
    (hstate : w.files.state = x.world.files.state) : IdInv (x.record e w) where
  unborn hs := by
    simp only [Snapshot.record_world, Snapshot.record_trace, hlog, hstate,
      owed_quiet he] at hs ⊢
    exact h.unborn hs
  unopened hs := by
    simp only [Snapshot.record_world, Snapshot.record_trace, hstate, opener_quiet he] at hs ⊢
    exact h.unopened hs
  paid ho s hs := by
    simp only [Snapshot.record_world, Snapshot.record_trace, hlog, hstate,
      owed_quiet he] at ho hs ⊢
    exact h.paid ho s hs
  due ho := by
    simp only [Snapshot.record_world, Snapshot.record_trace, hlog, hstate,
      owed_quiet he] at ho ⊢
    exact h.due ho
  increasing := by
    simp only [Snapshot.record_world, Snapshot.record_trace, hlog, appendedOwing_quiet he]
    exact h.increasing

/-- Quiet events that leave the lock, or take or release it themselves, keep the
contract. -/
theorem keeps_quiet {x : Snapshot (World μ) RoomStep} (h : IdInv x) {e : Event RoomStep}
    (he : quietEvent e = true) {w : World μ} (hlog : w.files.log = x.world.files.log)
    (hstate : w.files.state = x.world.files.state)
    (hlock : ∀ t, (faultySystem μ process).Foreign t e → x.world.lock = some t →
      w.lock = some t) : (idContract μ process).Keeps e x w := by
  refine ⟨h.quiet he hlog hstate, fun t hf => ⟨fun hheld => ?_, fun ho ht => ?_⟩⟩
  · exact ⟨hlock t hf hheld, hlog, owed_quiet he _, fun s hs => hstate.trans hs⟩
  · exact ⟨hstate.trans ht, (opener_quiet he _).trans ho⟩

/-! ## What the lock holder may rely on -/

section Holder

variable {t : Nat}

/-- Caller `t` holds the writer lock, `room.json` reads as `s`, the log is `log`, and
whether an id is owed is `due`; each of the latter three only where known. -/
structure Holds (t : Nat) (s : Option RoomState) (log : Option (List Message))
    (due : Option Bool) (x : Snapshot (World μ) RoomStep) : Prop where
  lock : x.world.lock = some t
  state : ∀ r, s = some r → ∃ raw, x.world.files.state = .whole raw ∧
    r = withRoomDefaults raw
  log : ∀ l, log = some l → x.world.files.log = l
  due : ∀ b, due = some b → owed x.trace = b

theorem holds_stable (s : Option RoomState) (log : Option (List Message))
    (due : Option Bool) :
    (idContract μ process).Stable (faultySystem μ process) t (Holds t s log due) := by
  intro e x w hf _ _ hguar h
  obtain ⟨⟨hlock, hlog, howed, hstate⟩, -⟩ :=
    And.imp_left (fun k => k h.lock) (hguar t hf)
  refine ⟨hlock, fun r hr => ?_, fun l hl => hlog.trans (h.log l hl),
    fun b hb => howed.trans (h.due b hb)⟩
  obtain ⟨raw, hraw, hdef⟩ := h.state r hr
  exact ⟨raw, hstate raw hraw, hdef⟩

theorem Holds.weaken {s : Option RoomState} {log : Option (List Message)}
    {due : Option Bool} {x : Snapshot (World μ) RoomStep} (h : Holds t s log due x) :
    Holds t none none none x :=
  ⟨h.lock, fun _ hr => (nomatch hr), fun _ hl => (nomatch hl), fun _ hb => (nomatch hb)⟩

theorem Holds.quiet {s : Option RoomState} {log : Option (List Message)}
    {due : Option Bool} {x : Snapshot (World μ) RoomStep} (h : Holds t s log due x)
    {e : Event RoomStep} (he : quietEvent e = true) {w : World μ}
    (hlock : w.lock = x.world.lock) (hstate : w.files.state = x.world.files.state)
    (hlog : w.files.log = x.world.files.log) : Holds t s log due (x.record e w) where
  lock := hlock.trans h.lock
  state r hr := by
    obtain ⟨raw, hraw, hdef⟩ := h.state r hr
    exact ⟨raw, hstate.trans hraw, hdef⟩
  log l hl := hlog.trans (h.log l hl)
  due b hb := (owed_quiet he _).trans (h.due b hb)

/-- Safety of a program of caller `t`: what it ends with, and where it starts. -/
abbrev IdSafe (process : Nat → Nat) (t : Nat) {α : Type}
    (Q : α → Snapshot (World μ) RoomStep → Prop)
    (E : Failure → Snapshot (World μ) RoomStep → Prop) (p : RoomProg μ α)
    (P : Snapshot (World μ) RoomStep → Prop) : Prop :=
  (idContract μ process).Safe (faultySystem μ process) t Q E p P

/-- Holding the lock and nothing more. -/
abbrev LockHeld (t : Nat) : Snapshot (World μ) RoomStep → Prop := Holds t none none none

variable {s : Option RoomState} {log : Option (List Message)} {due : Option Bool}

/-- A step that touches neither `room.json` nor the log nor the lock. -/
theorem action_safe {α : Type} {label : World μ → RoomStep} {effect : World μ → World μ}
    {result : World μ → Except Failure α} (hquiet : ∀ w, (label w).quiet = true)
    (hlock : ∀ w, (effect w).lock = w.lock)
    (hstate : ∀ w, (effect w).files.state = w.files.state)
    (hlog : ∀ w, (effect w).files.log = w.files.log) :
    IdSafe process t
      (fun a y => Holds t s log due y ∧ ∃ w, y.world = effect w ∧ result w = .ok a)
      (fun _ y => Holds t s log due y)
      (Prog.action label (fun _ => true) effect result) (Holds t s log due) := by
  apply Contract.Safe.action (holds_stable s log due)
  · intro x hi _ _ _
    have hq : quietEvent (.ran t (label x.world)) = true := hquiet _
    exact keeps_quiet hi hq (hlog _) (hstate _) fun u _ hu => (hlock _).trans hu
  · intro x a _ h _ _ ha
    have hq : quietEvent (.ran t (label x.world)) = true := hquiet _
    exact ⟨h.quiet hq (hlock _) (hstate _) (hlog _), x.world, rfl, ha⟩
  · intro x e _ h _ _ _
    have hq : quietEvent (.ran t (label x.world)) = true := hquiet _
    exact h.quiet hq (hlock _) (hstate _) (hlog _)
  · intro x e hi h _ _
    exact ⟨keeps_quiet hi rfl rfl rfl fun u _ hu => hu, h.quiet rfl rfl rfl rfl⟩

theorem update_safe {label : World μ → RoomStep} {effect : World μ → World μ}
    (hquiet : ∀ w, (label w).quiet = true) (hlock : ∀ w, (effect w).lock = w.lock)
    (hstate : ∀ w, (effect w).files.state = w.files.state)
    (hlog : ∀ w, (effect w).files.log = w.files.log) :
    IdSafe process t (fun _ => Holds t s log due) (fun _ => Holds t s log due)
      (Prog.update label effect) (Holds t s log due) :=
  (action_safe hquiet hlock hstate hlog).conseq (fun _ _ h => h) (fun _ _ _ h => h.1)
    fun _ _ _ h => h

theorem writeBriefFile_safe (body : String) :
    IdSafe process t (fun _ => Holds t s log due) (fun _ => Holds t s log due)
      (@writeBriefFile μ body) (Holds t s log due) :=
  update_safe (fun _ => rfl) (fun _ => rfl) (fun _ => rfl) fun _ => rfl

theorem query_safe {α : Type} {label : World μ → RoomStep}
    {result : World μ → Except Failure α} (hquiet : ∀ w, (label w).quiet = true) :
    IdSafe process t (fun a y => Holds t s log due y ∧ result y.world = .ok a)
      (fun _ => Holds t s log due) (Prog.query label result) (Holds t s log due) := by
  refine (action_safe hquiet (fun _ => rfl) (fun _ => rfl) (fun _ => rfl)).conseq
    (fun _ _ h => h) ?_ fun _ _ _ h => h
  rintro a y - ⟨h, w, rfl, ha⟩
  exact ⟨h, ha⟩

theorem readRoomState_safe :
    IdSafe process t (fun r => Holds t (some r) log due) (fun _ => Holds t s log due)
      (@readRoomState μ) (Holds t s log due) := by
  refine (query_safe fun _ => rfl).conseq (fun _ _ h => h) ?_ fun _ _ _ h => h
  rintro r y - ⟨h, hr⟩
  refine ⟨h.lock, ?_, h.log, h.due⟩
  rintro _ ⟨⟩
  cases hstate : y.world.files.state with
  | absent => rw [hstate] at hr; cases hr
  | torn => rw [hstate] at hr; cases hr
  | whole raw =>
      rw [hstate] at hr
      exact ⟨raw, rfl, (Except.ok.inj hr).symm⟩

theorem readParticipants_safe :
    IdSafe process t (fun _ => Holds t s log due) (fun _ => Holds t s log due)
      (@readParticipants μ) (Holds t s log due) :=
  (query_safe fun _ => rfl).conseq (fun _ _ h => h) (fun _ _ _ h => h.1) fun _ _ _ h => h

theorem readJsonLines_safe :
    IdSafe process t (fun l => Holds t s (some l) due) (fun _ => Holds t s log due)
      (@readJsonLines μ) (Holds t s log due) := by
  refine (query_safe fun _ => rfl).conseq (fun _ _ h => h) ?_ fun _ _ _ h => h
  rintro l y - ⟨h, hl⟩
  refine ⟨h.lock, h.state, ?_, h.due⟩
  rintro _ ⟨⟩
  cases hlog : y.world.files.messages with
  | absent => rw [hlog] at hl; cases hl
  | torn => rw [hlog] at hl; cases hl
  | whole raw =>
      rw [hlog] at hl
      obtain rfl := Except.ok.inj hl
      simp [RoomFiles.log, hlog]

/-- A step that touches neither `room.json` nor the log nor the lock needs no lock. -/
theorem free_safe {α : Type} {label : World μ → RoomStep} {effect : World μ → World μ}
    {result : World μ → Except Failure α} (hquiet : ∀ w, (label w).quiet = true)
    (hlock : ∀ w, (effect w).lock = w.lock)
    (hstate : ∀ w, (effect w).files.state = w.files.state)
    (hlog : ∀ w, (effect w).files.log = w.files.log) :
    IdSafe process t (fun _ _ => True) (fun _ _ => True)
      (Prog.action label (fun _ => true) effect result) fun _ => True := by
  refine Contract.Safe.action (.of_const True) ?_ (fun _ _ _ _ _ _ _ => trivial)
    (fun _ _ _ _ _ _ _ => trivial) ?_
  · intro x hi _ _ _
    have hq : quietEvent (.ran t (label x.world)) = true := hquiet _
    exact keeps_quiet hi hq (hlog _) (hstate _) fun _ _ hu => (hlock _).trans hu
  · intro x e hi _ _ _
    exact ⟨keeps_quiet hi rfl rfl rfl fun _ _ hu => hu, trivial⟩

theorem dateNow_safe (given : Option Nat) :
    IdSafe process t (fun _ _ => True) (fun _ _ => True) (@dateNow μ given)
      fun _ => True := by
  cases given with
  | some now => exact fun _ _ h => h
  | none => exact free_safe (fun _ => rfl) (fun _ => rfl) (fun _ => rfl) fun _ => rfl

/-! ## Taking and releasing the lock -/

theorem acquireWriterLock_safe :
    IdSafe process t (fun _ => LockHeld t) (fun _ _ => True) (@acquireWriterLock μ t)
      fun _ => True := by
  refine Contract.Safe.action (.of_const True) ?_ ?_ (fun _ _ _ _ _ _ _ => trivial) ?_
  · intro x hi _ hfree _
    refine keeps_quiet hi rfl rfl rfl fun u _ hu => ?_
    rw [hu] at hfree
    cases hfree
  · intro x _ _ _ _ _ _
    exact ⟨rfl, fun _ hr => (nomatch hr), fun _ hl => (nomatch hl), fun _ hb => (nomatch hb)⟩
  · intro x e hi _ _ _
    exact ⟨keeps_quiet hi rfl rfl rfl fun _ _ hu => hu, trivial⟩

theorem releaseWriterLock_safe :
    IdSafe process t (fun _ _ => True) (fun _ _ => True) (@releaseWriterLock μ)
      (LockHeld t) := by
  refine Contract.Safe.action (holds_stable _ _ _) ?_ (fun _ _ _ _ _ _ _ => trivial)
    (fun _ _ _ _ _ _ _ => trivial) ?_
  · intro x hi h _ _
    refine keeps_quiet hi rfl rfl rfl fun u hf hu => ?_
    rw [h.lock] at hu
    exact absurd (Option.some.inj hu) hf
  · intro x e hi _ _ _
    exact ⟨keeps_quiet hi rfl rfl rfl fun _ _ hu => hu, trivial⟩

theorem withWriterLock_safe {α : Type} {body : RoomProg μ α}
    (h : IdSafe process t (fun _ => LockHeld t) (fun _ => LockHeld t) body (LockHeld t)) :
    IdSafe process t (fun _ _ => True) (fun _ _ => True) (withWriterLock t body)
      fun _ => True :=
  acquireWriterLock_safe.bind fun _ =>
    h.finallyDo (fun _ => releaseWriterLock_safe) fun _ => releaseWriterLock_safe

/-! ## Writing -/

/-- The lock holder writes a line with the next id. -/
theorem append_safe {r : RoomState} {message : Message}
    (hid : message.id = r.nextMessageId) :
    IdSafe process t (fun _ => Holds t (some r) none (some true)) (fun _ => LockHeld t)
      (@appendJsonLine μ message) (Holds t (some r) log none) := by
  refine Contract.Safe.bind (R := fun _ => Holds t (some r) none (some true)) ?_ fun _ =>
    (update_safe (fun _ => rfl) (fun _ => rfl) (fun _ => rfl) fun _ => rfl).conseq
      (fun _ _ h => h) (fun _ _ _ h => h) fun _ _ _ h => h.weaken
  refine Contract.Safe.action (holds_stable _ _ _) ?_ ?_ ?_ ?_
  · intro x hi h _ _
    obtain ⟨raw, hraw, rfl⟩ := h.state r rfl
    have hid' : message.id = raw.nextMessageId := hid
    have hle : ∀ m ∈ x.world.files.log, m.id ≤ message.id := by
      intro m hm
      cases ho : owed x.trace with
      | false => exact hid' ▸ Nat.le_of_lt (hi.paid ho raw hraw m hm)
      | true =>
          obtain ⟨r', init, last, hr', hlog, hlast, hinit⟩ := hi.due ho
          obtain rfl : r' = raw := by simpa [hr'] using hraw
          rw [hlog, List.mem_append, List.mem_singleton] at hm
          rw [hid', ← hlast]
          rcases hm with hm | rfl
          · exact hinit m hm
          · exact le_refl _
    refine ⟨⟨fun hs => absurd hraw (hs raw), fun hs => ?_, fun ho => (nomatch ho),
      fun _ => ⟨raw, x.world.files.log, message, hraw, rfl, hid', hle⟩, ?_⟩,
      fun u hf => ⟨fun hu => ?_, fun ho ht => ?_⟩⟩
    · rw [show x.world.files.state = .absent from hs] at hraw
      cases hraw
    · change Increasing (x.world.files.log ++ [message]) ↔
        (owed x.trace || appendedOwing x.trace) = false
      rw [Increasing, List.pairwise_append, ← Increasing, hi.increasing]
      cases ho : owed x.trace with
      | false =>
          have hlt := hi.paid ho raw hraw
          simp only [List.pairwise_singleton, List.mem_singleton, true_and, forall_eq,
            Bool.false_or, and_iff_left_iff_imp]
          exact fun _ m hm => hid' ▸ hlt m hm
      | true =>
          obtain ⟨r', init, last, hr', hlog, hlast, -⟩ := hi.due ho
          obtain rfl : r' = raw := by simpa [hr'] using hraw
          have hmem : last ∈ x.world.files.log := by rw [hlog]; simp
          simp only [Bool.true_or, Bool.true_eq_false, iff_false, not_and]
          intro _ _ hlt
          have := hlt last hmem message (List.mem_singleton.mpr rfl)
          omega
    · exact absurd (Option.some.inj (h.lock.symm.trans hu)) hf
    · rw [hraw] at ht
      cases ht
  · intro x a hi h _ _ _
    obtain ⟨raw, hraw, hdef⟩ := h.state r rfl
    refine ⟨h.lock, ?_, fun _ hl => (nomatch hl), ?_⟩
    · rintro _ ⟨⟩
      exact ⟨raw, hraw, hdef⟩
    · rintro _ ⟨⟩
      rfl
  · intro x e _ _ _ _ he
    cases he
  · intro x e hi h _ _
    exact ⟨keeps_quiet hi rfl rfl rfl fun _ _ hu => hu, (h.quiet rfl rfl rfl rfl).weaken⟩

/-- The lock holder replaces `room.json` by a state whose next id is above every id of
the log. -/
theorem writeState_above_safe {r r' : RoomState} {purpose : StateWrite}
    (hpurpose : purpose = .appended ∨ purpose = .recovered)
    (habove : ∀ x : Snapshot (World μ) RoomStep, IdInv x → Holds t (some r) log due x →
      ∀ m ∈ x.world.files.log, m.id < r'.nextMessageId) :
    IdSafe process t (fun _ => LockHeld t) (fun _ => LockHeld t) (@writeState μ purpose r')
      (Holds t (some r) log due) := by
  have howed (es) : owed (.ran t (.wroteState purpose r') :: es) = false := by
    rcases hpurpose with rfl | rfl <;> rfl
  refine Contract.Safe.action (holds_stable _ _ _) ?_ ?_ ?_ ?_
  · intro x hi h _ _
    obtain ⟨raw, hraw, -⟩ := h.state r rfl
    refine ⟨⟨fun hs => absurd rfl (hs r'), fun hs => (nomatch hs), fun _ s hs => ?_,
      fun ho => ?_, hi.increasing⟩, fun u hf => ⟨fun hu => ?_, fun _ ht => ?_⟩⟩
    · cases hs
      exact habove x hi h
    · rw [Snapshot.record_trace, howed] at ho
      cases ho
    · exact absurd (Option.some.inj (h.lock.symm.trans hu)) hf
    · rw [hraw] at ht
      cases ht
  · intro x _ _ h _ _ _
    exact ⟨h.lock, fun _ hr => (nomatch hr), fun _ hl => (nomatch hl),
      fun _ hb => (nomatch hb)⟩
  · intro x e _ _ _ _ he
    cases he
  · intro x e hi h _ _
    exact ⟨keeps_quiet hi rfl rfl rfl fun _ _ hu => hu, (h.quiet rfl rfl rfl rfl).weaken⟩

theorem writeState_appended_safe {r r' : RoomState}
    (hid : r'.nextMessageId = r.nextMessageId + 1) :
    IdSafe process t (fun _ => LockHeld t) (fun _ => LockHeld t) (@writeState μ .appended r')
      (Holds t (some r) none (some true)) := by
  refine writeState_above_safe (.inl rfl) fun x hi h m hm => ?_
  obtain ⟨raw, hraw, rfl⟩ := h.state r rfl
  obtain ⟨r₀, init, last, hr₀, hlog, hlast, hinit⟩ := hi.due (h.due true rfl)
  obtain rfl : r₀ = raw := by simpa [hr₀] using hraw
  have hnext : (withRoomDefaults r₀).nextMessageId = r₀.nextMessageId := rfl
  rw [hlog, List.mem_append, List.mem_singleton] at hm
  rcases hm with hm | rfl
  · have := hinit m hm
    omega
  · omega

theorem lt_recoverNextMessageId {messages : List Message} {m : Message}
    (h : m ∈ messages) : m.id < recoverNextMessageId messages := by
  have hfold : ∀ (l : List Message) (a : Nat),
      a ≤ l.foldl (fun highest message => max highest message.id) a ∧
      ∀ m ∈ l, m.id ≤ l.foldl (fun highest message => max highest message.id) a := by
    intro l
    induction l with
    | nil => exact fun a => ⟨le_refl a, fun _ hm => (nomatch hm)⟩
    | cons b l ih =>
        intro a
        obtain ⟨hle, hall⟩ := ih (max a b.id)
        refine ⟨le_trans (Nat.le_max_left ..) hle, fun m hm => ?_⟩
        rcases List.mem_cons.mp hm with rfl | hm
        · exact le_trans (Nat.le_max_right ..) hle
        · exact hall m hm
  exact Nat.lt_succ_of_le ((hfold messages 0).2 m h)

theorem writeState_recovered_safe {r r' : RoomState} {l : List Message}
    (hid : r'.nextMessageId = recoverNextMessageId l) :
    IdSafe process t (fun _ => LockHeld t) (fun _ => LockHeld t) (@writeState μ .recovered r')
      (Holds t (some r) (some l) due) := by
  refine writeState_above_safe (.inr rfl) fun x _ h m hm => ?_
  rw [h.log l rfl] at hm
  exact hid ▸ lt_recoverNextMessageId hm

/-- The lock holder replaces `room.json` by a state with the same next id. -/
theorem writeState_updated_safe {r r' : RoomState} {purpose : StateWrite}
    (hpurpose : purpose ≠ .appended ∧ purpose ≠ .recovered)
    (hid : r'.nextMessageId = r.nextMessageId) :
    IdSafe process t (fun _ => LockHeld t) (fun _ => LockHeld t) (@writeState μ purpose r')
      (Holds t (some r) none none) := by
  have howed (es) : owed (.ran t (.wroteState purpose r') :: es) = owed es := by
    cases purpose with
    | appended => exact absurd rfl hpurpose.1
    | recovered => exact absurd rfl hpurpose.2
    | _ => rfl
  refine Contract.Safe.action (holds_stable _ _ _) ?_ ?_ ?_ ?_
  · intro x hi h _ _
    obtain ⟨raw, hraw, rfl⟩ := h.state r rfl
    have hid' : r'.nextMessageId = raw.nextMessageId := hid
    refine ⟨⟨fun hs => absurd rfl (hs r'), fun hs => (nomatch hs), fun ho s hs => ?_,
      fun ho => ?_, hi.increasing⟩, fun u hf => ⟨fun hu => ?_, fun _ ht => ?_⟩⟩
    · cases hs
      rw [Snapshot.record_trace, howed] at ho
      exact hid' ▸ hi.paid ho raw hraw
    · rw [Snapshot.record_trace, howed] at ho
      obtain ⟨r₀, init, last, hr₀, hlog, hlast, hinit⟩ := hi.due ho
      obtain rfl : r₀ = raw := by simpa [hr₀] using hraw
      exact ⟨r', init, last, rfl, hlog, hlast.trans hid'.symm, hinit⟩
    · exact absurd (Option.some.inj (h.lock.symm.trans hu)) hf
    · rw [hraw] at ht
      cases ht
  · intro x _ _ h _ _ _
    exact ⟨h.lock, fun _ hr => (nomatch hr), fun _ hl => (nomatch hl),
      fun _ hb => (nomatch hb)⟩
  · intro x e _ _ _ _ he
    cases he
  · intro x e hi h _ _
    exact ⟨keeps_quiet hi rfl rfl rfl fun _ _ hu => hu, (h.quiet rfl rfl rfl rfl).weaken⟩

/-! ## Creating `room.json` -/

/-- Caller `t` opened `room.json`, which nobody filled yet. -/
def Opened (t : Nat) (x : Snapshot (World μ) RoomStep) : Prop :=
  opener x.trace = some t ∧ x.world.files.state = .torn

theorem opened_stable :
    (idContract μ process).Stable (faultySystem μ process) t (Opened t) := by
  rintro e x w hf _ _ hguar ⟨ho, ht⟩
  exact ((hguar t hf).2 ho ht).symm

theorem createState_safe (initial : RoomState) :
    IdSafe process t (fun _ _ => True) (fun _ _ => True)
      (@createSecureFile μ .state (fun f => f.state != .absent)
        (fun f => { f with state := .torn }) fun f => { f with state := .whole initial })
      fun _ => True := by
  refine Contract.Safe.bind (R := fun _ => Opened t) ?_ fun _ =>
    Contract.Safe.bind (R := fun _ _ => True) ?_ fun _ =>
      free_safe (fun _ => rfl) (fun _ => rfl) (fun _ => rfl) fun _ => rfl
  · refine Contract.Safe.action (.of_const True) ?_ ?_ (fun _ _ _ _ _ _ _ => trivial) ?_
    · intro x hi _ _ _
      by_cases habsent : x.world.files.state = .absent
      · simp only [habsent, bne_self_eq_false, Bool.false_eq_true, if_false]
        have hborn := hi.unborn fun s hs => by rw [habsent] at hs; cases hs
        refine ⟨⟨fun _ => hborn, fun hs => (nomatch hs), fun _ s hs => (nomatch hs),
          fun ho => ?_, hi.increasing⟩, fun u _ => ⟨fun hu => ⟨hu, rfl, rfl, ?_⟩,
          fun _ ht => ?_⟩⟩
        · exact absurd (hborn.2.symm.trans ho) (by decide)
        · intro s hs
          rw [habsent] at hs
          cases hs
        · rw [habsent] at ht
          cases ht
      · have hpresent : (x.world.files.state != .absent) = true := by simpa using habsent
        simp only [hpresent, if_true]
        exact keeps_quiet hi rfl rfl rfl fun _ _ hu => hu
    · intro x _ hi _ _ _ hr
      by_cases habsent : x.world.files.state = .absent
      · simp only [habsent, bne_self_eq_false, Bool.false_eq_true, if_false]
        exact ⟨rfl, rfl⟩
      · have hpresent : (x.world.files.state != .absent) = true := by simpa using habsent
        simp only [hpresent, if_true] at hr
        cases hr
    · intro x e hi _ _ _
      exact ⟨keeps_quiet hi rfl rfl rfl fun _ _ hu => hu, trivial⟩
  · refine Contract.Safe.action opened_stable ?_ (fun _ _ _ _ _ _ _ => trivial)
      (fun _ _ _ _ _ _ _ => trivial) ?_
    · rintro x hi ⟨hopener, htorn⟩ _ _
      have hborn := hi.unborn fun s hs => by rw [htorn] at hs; cases hs
      refine ⟨⟨fun hs => absurd rfl (hs initial), fun hs => (nomatch hs),
        fun _ s _ m (hm : m ∈ x.world.files.log) => ?_, fun ho => ?_, hi.increasing⟩,
        fun u hf => ⟨fun hu => ⟨hu, rfl, rfl, fun s hs => ?_⟩, fun ho _ => ?_⟩⟩
      · rw [hborn.1] at hm
        cases hm
      · exact absurd (hborn.2.symm.trans ho) (by decide)
      · rw [htorn] at hs
        cases hs
      · exact absurd (Option.some.inj (hopener.symm.trans ho)) hf
    · intro x e hi _ _ _
      exact ⟨keeps_quiet hi rfl rfl rfl fun _ _ hu => hu, trivial⟩

/-- Creating a file the ids do not depend on. -/
theorem createOther_safe {file : RoomFile} (hfile : file ≠ .state)
    {present : RoomFiles → Bool} {openedAs filledAs : RoomFiles → RoomFiles}
    (hopened : ∀ f, present f = false →
      (openedAs f).state = f.state ∧ (openedAs f).log = f.log)
    (hfilled : ∀ f, (filledAs f).state = f.state ∧ (filledAs f).log = f.log) :
    IdSafe process t (fun _ _ => True) (fun _ _ => True)
      (@createSecureFile μ file present openedAs filledAs) fun _ => True := by
  refine Contract.Safe.bind (R := fun _ _ => True) ?_ fun _ =>
    Contract.Safe.bind (R := fun _ _ => True)
      (free_safe (fun _ => rfl) (fun _ => rfl) (fun w => (hfilled w.files).1)
        fun w => (hfilled w.files).2) fun _ =>
      free_safe (fun _ => rfl) (fun _ => rfl) (fun _ => rfl) fun _ => rfl
  refine free_safe (fun w => ?_) (fun w => ?_) (fun w => ?_) (fun w => ?_) <;>
    cases hp : present w.files <;> simp only [Bool.false_eq_true, if_false, if_true]
  · cases file with
    | state => exact absurd rfl hfile
    | _ => rfl
  · rfl
  · exact (hopened w.files hp).1
  · exact (hopened w.files hp).2

/-! ## The operations -/

/-- The program needs nothing to start with, and leaves nothing behind. -/
abbrev Free (process : Nat → Nat) (t : Nat) {α : Type} (p : RoomProg μ α) : Prop :=
  IdSafe process t (fun _ _ => True) (fun _ _ => True) p fun _ => True

theorem Free.checked {α β : Type} {r : Except Failure α} {f : α → RoomProg μ β}
    (h : ∀ a, Free process t (f a)) : Free process t ((Prog.ofExcept r).bind f) :=
  .bind_ofExcept (fun a _ => h a) fun _ _ _ _ _ => trivial

theorem Free.timed {α : Type} {now : Option Nat} {f : Nat → RoomProg μ α}
    (h : ∀ now, Free process t (f now)) : Free process t ((dateNow now).bind f) :=
  (dateNow_safe now).bind h

theorem createRoom_free (options : CreateRoomOptions) :
    Free process t (@createRoom μ options) := by
  refine .checked fun _ => .checked fun _ => .timed fun now => ?_
  refine Contract.Safe.bind (R := fun _ _ => True)
    (free_safe (fun _ => rfl) (fun _ => rfl) (fun _ => rfl) fun _ => rfl) fun _ => ?_
  dsimp only
  refine Free.checked fun _ => (createState_safe _).bind fun _ => ?_
  refine Contract.Safe.bind (R := fun _ _ => True) ?_ fun _ =>
    Contract.Safe.bind (R := fun _ _ => True) ?_ fun _ =>
      Contract.Safe.bind (R := fun _ _ => True) ?_ fun _ => .done fun _ _ _ => trivial
  · exact createOther_safe (by decide) (fun _ _ => ⟨rfl, rfl⟩) fun _ => ⟨rfl, rfl⟩
  · exact createOther_safe (by decide) (fun _ _ => ⟨rfl, rfl⟩) fun _ => ⟨rfl, rfl⟩
  · refine createOther_safe (by decide) (fun f hf => ⟨rfl, ?_⟩) fun _ => ⟨rfl, rfl⟩
    have habsent : f.messages = .absent := by simpa using hf
    simp [RoomFiles.log, habsent]

/-- An operation that reads the state and goes on under the lock. -/
theorem stateful_free {α : Type} {body : RoomState → RoomProg μ α}
    (h : ∀ r, IdSafe process t (fun _ => LockHeld t) (fun _ => LockHeld t) (body r)
      (Holds t (some r) none none)) :
    Free process t (withWriterLock t (readRoomState.bind body)) :=
  withWriterLock_safe (readRoomState_safe.bind h)

/-- The end of an operation that keeps the next id. -/
theorem update_safe_then {α : Type} {r r' : RoomState} {purpose : StateWrite} {a : α}
    (hpurpose : purpose ≠ .appended ∧ purpose ≠ .recovered)
    (hid : r'.nextMessageId = r.nextMessageId) :
    IdSafe process t (fun _ => LockHeld t) (fun _ => LockHeld t)
      ((@writeState μ purpose r').bind fun _ => .ret a) (Holds t (some r) none none) :=
  (writeState_updated_safe hpurpose hid).bind fun _ => .done fun _ _ h => h

theorem updateAttendancePolicy_free (options : UpdateAttendancePolicyOptions) :
    Free process t (@updateAttendancePolicy μ t options) := by
  refine .checked fun _ => .checked fun _ => .timed fun _ => stateful_free fun r => ?_
  dsimp only
  exact update_safe_then (by decide) rfl

theorem updateLoopGuardPreference_free (options : UpdateLoopGuardPreferenceOptions) :
    Free process t (@updateLoopGuardPreference μ t options) := by
  refine .checked fun _ => .checked fun _ => ?_
  split_ifs
  · exact fun _ _ _ => trivial
  · refine Free.timed fun _ => stateful_free fun r => ?_
    dsimp only
    exact update_safe_then (by decide) rfl

theorem updateBrief_free (options : UpdateBriefOptions) :
    Free process t (@updateBrief μ t options) := by
  refine .checked fun _ => .checked fun _ => .checked fun _ => .timed fun _ =>
    stateful_free fun r => ?_
  dsimp only
  have hbrief : IdSafe process t (fun _ => Holds t (some r) none none) (fun _ => LockHeld t)
      (@writeBriefFile μ options.body) (Holds t (some r) none none) :=
    (writeBriefFile_safe options.body).conseq (fun _ _ h => h) (fun _ _ _ h => h)
      fun _ _ _ h => h.weaken
  exact hbrief.bind fun _ => update_safe_then (by decide) rfl

theorem closeRoom_free (now : Option Nat) : Free process t (@closeRoom μ t now) := by
  refine .timed fun _ => stateful_free fun r => ?_
  dsimp only
  exact update_safe_then (by decide) rfl

theorem startActiveSession_free (options : StartActiveSessionOptions) :
    Free process t (@startActiveSession μ t options) := by
  refine .checked fun _ => .checked fun _ => .timed fun _ => stateful_free fun r => ?_
  split_ifs
  · exact fun _ _ h => h.weaken
  · dsimp only
    exact update_safe_then (by decide) rfl

theorem endActiveSession_free (roomId : String) (now : Option Nat) :
    Free process t (@endActiveSession μ t roomId now) := by
  refine .checked fun _ => .timed fun _ => stateful_free fun r => ?_
  cases RoomState.runningSession r with
  | none => exact fun _ _ h => h.weaken
  | some session => exact update_safe_then (by decide) rfl

/-- The end of an append. -/
theorem append_safe_then {α : Type} {r r' : RoomState} {message : Message} {a : α}
    (hid : message.id = r.nextMessageId) (hid' : r'.nextMessageId = message.id + 1) :
    IdSafe process t (fun _ => LockHeld t) (fun _ => LockHeld t)
      ((@appendJsonLine μ message).bind fun _ =>
        (writeState .appended r').bind fun _ => .ret a) (Holds t (some r) log none) :=
  (append_safe hid).bind fun _ =>
    (writeState_appended_safe (hid'.trans (congrArg (· + 1) hid))).bind fun _ =>
      .done fun _ _ h => h

theorem appendMessageResult_free (options : AppendMessageOptions) :
    Free process t (@appendMessageResult μ t options) := by
  refine .checked fun _ => .checked fun _ => .checked fun input => .timed fun now =>
    stateful_free fun r => ?_
  refine (readParticipants_safe.conseq (fun _ _ h => h) (fun _ _ _ h => h)
    fun _ _ _ h => h.weaken).bind fun participants => ?_
  refine (readJsonLines_safe.conseq (fun _ _ h => h) (fun _ _ _ h => h)
    fun _ _ _ h => h.weaken).bind fun messages => ?_
  refine .bind_ofExcept (fun result hresult => ?_) fun _ _ _ _ h => h.weaken
  split_ifs with hidempotent
  · exact fun _ _ h => h.weaken
  · have hid : result.message.id = r.nextMessageId := by
      rcases decideAppend_cases hresult with ⟨hi, -⟩ | ⟨-, hmessage⟩
      · exact absurd hi hidempotent
      · rw [hmessage]
        rfl
    exact append_safe_then hid rfl

theorem appendServerMessage_free (options : AppendServerMessageOptions) :
    Free process t (@appendServerMessage μ t options) := by
  refine .checked fun _ => .checked fun _ => .timed fun now => stateful_free fun r => ?_
  refine (readParticipants_safe.conseq (fun _ _ h => h) (fun _ _ _ h => h)
    fun _ _ _ h => h.weaken).bind fun participants => ?_
  dsimp only
  exact append_safe_then rfl rfl

theorem recoverRoomState_free : Free process t (@recoverRoomState μ t) := by
  refine stateful_free fun r => ?_
  refine (readJsonLines_safe.conseq (fun _ _ h => h) (fun _ _ _ h => h)
    fun _ _ _ h => h.weaken).bind fun messages => ?_
  dsimp only
  split_ifs
  · exact fun _ _ h => h.weaken
  · refine Contract.Safe.bind (R := fun _ => LockHeld t) ?_ fun _ => .done fun _ _ h => h
    exact writeState_recovered_safe rfl

end Holder

/-! ## Runs -/

/-- The calls a run is made of; time passes in between. -/
inductive StorageCall where
  | createRoom (options : CreateRoomOptions)
  | appendMessageResult (options : AppendMessageOptions)
  | appendServerMessage (options : AppendServerMessageOptions)
  | updateBrief (options : UpdateBriefOptions)
  | updateAttendancePolicy (options : UpdateAttendancePolicyOptions)
  | updateLoopGuardPreference (options : UpdateLoopGuardPreferenceOptions)
  | startActiveSession (options : StartActiveSessionOptions)
  | endActiveSession (roomId : String) (now : Option Nat)
  | closeRoom (now : Option Nat)
  | recoverRoomState
  | timePasses (ms : Nat)

/-- The call as caller `t` makes it; its result is dropped. -/
def StorageCall.prog (t : Nat) : StorageCall → RoomProg μ Unit
  | .createRoom options => (Storage.createRoom options).bind fun _ => .ret ()
  | .appendMessageResult options =>
      (Storage.appendMessageResult t options).bind fun _ => .ret ()
  | .appendServerMessage options =>
      (Storage.appendServerMessage t options).bind fun _ => .ret ()
  | .updateBrief options => (Storage.updateBrief t options).bind fun _ => .ret ()
  | .updateAttendancePolicy options =>
      (Storage.updateAttendancePolicy t options).bind fun _ => .ret ()
  | .updateLoopGuardPreference options =>
      (Storage.updateLoopGuardPreference t options).bind fun _ => .ret ()
  | .startActiveSession options =>
      (Storage.startActiveSession t options).bind fun _ => .ret ()
  | .endActiveSession roomId now =>
      (Storage.endActiveSession t roomId now).bind fun _ => .ret ()
  | .closeRoom now => (Storage.closeRoom t now).bind fun _ => .ret ()
  | .recoverRoomState => (Storage.recoverRoomState t).bind fun _ => .ret ()
  | .timePasses ms => .update (fun _ => .memory) fun w => { w with clock := w.clock + ms }

/-- No room yet, and the calls about to be made, each by a caller of its own. -/
def noRoom (clock : Nat) (memory : μ) (calls : List StorageCall) :
    Config (World μ) RoomStep Failure Unit where
  snap := ⟨⟨.empty, none, clock, memory⟩, []⟩
  threads := calls.mapIdx fun t call => some (call.prog t)

theorem StorageCall.free (t : Nat) (call : StorageCall) :
    Free process t (call.prog (μ := μ) t) := by
  have hdrop {α : Type} {p : RoomProg μ α} (h : Free process t p) :
      Free process t (p.bind fun _ => .ret ()) := h.bind fun _ => .done fun _ _ _ => trivial
  cases call with
  | createRoom options => exact hdrop (createRoom_free options)
  | appendMessageResult options => exact hdrop (appendMessageResult_free options)
  | appendServerMessage options => exact hdrop (appendServerMessage_free options)
  | updateBrief options => exact hdrop (updateBrief_free options)
  | updateAttendancePolicy options => exact hdrop (updateAttendancePolicy_free options)
  | updateLoopGuardPreference options => exact hdrop (updateLoopGuardPreference_free options)
  | startActiveSession options => exact hdrop (startActiveSession_free options)
  | endActiveSession roomId now => exact hdrop (endActiveSession_free roomId now)
  | closeRoom now => exact hdrop (closeRoom_free now)
  | recoverRoomState => exact hdrop recoverRoomState_free
  | timePasses ms => exact free_safe (fun _ => rfl) (fun _ => rfl) (fun _ => rfl) fun _ => rfl

theorem idContract_crashSafe :
    (idContract μ process).CrashSafe (faultySystem μ process) := by
  rintro p damage ⟨⟩ x hi -
  refine keeps_quiet hi rfl rfl rfl fun t hf ht => ?_
  have hp : (process t == p) = false := beq_eq_false_iff_ne.mpr hf
  simp [ht, hp]

theorem noRoom_holds (clock : Nat) (memory : μ) (calls : List StorageCall) :
    (idContract μ process).Holds (faultySystem μ process) (noRoom clock memory calls) := by
  have hinv : IdInv (noRoom clock memory calls).snap :=
    { unborn := fun _ => ⟨rfl, rfl⟩
      unopened := fun _ => rfl
      paid := fun _ _ hs => nomatch hs
      due := fun ho => nomatch ho
      increasing := ⟨fun _ => rfl, fun _ => .nil⟩ }
  refine ⟨hinv, fun t p hp => ?_⟩
  simp only [System.thread, noRoom, List.getElem?_mapIdx] at hp
  cases hcall : calls[t]? with
  | none => simp [hcall] at hp
  | some call =>
      obtain rfl : call.prog t = p := by simpa [hcall] using hp
      exact .of_safe (StorageCall.free t call) hinv trivial

/-- In every run, the ids of the log are strictly increasing if and only if no append
wrote its line while the line before it had been followed neither by the `room.json`
write of its own append nor by that of a recovery. -/
theorem increasing_iff_not_appendedOwing (process : Nat → Nat) (clock : Nat) (memory : μ)
    (calls : List StorageCall) (c : Config (World μ) RoomStep Failure Unit)
    (h : (faultySystem μ process).Reachable (noRoom clock memory calls) c) :
    Increasing c.snap.world.files.log ↔ appendedOwing c.snap.trace = false :=
  (Contract.sound (noRoom_holds clock memory calls) idContract_crashSafe h).1.increasing

/-- The last step was the last write of an append. -/
def appendSucceeded : List (Event RoomStep) → Bool
  | .ran _ (.wroteState .appended _) :: _ => true
  | _ => false

/-- A room, and two system messages. -/
def twoAppends : List StorageCall :=
  [.createRoom ⟨"r", "host", some 0, none, none, none⟩,
   .appendServerMessage ⟨"r", "system", "a", some 1⟩,
   .appendServerMessage ⟨"r", "system", "b", some 2⟩]

/-- The first append's `chmod` fails behind its log line; the second one runs through. -/
def failingChmod : List (Move Failure) :=
  List.replicate 13 (.run 0) ++ List.replicate 4 (.run 1) ++ [.fail 1 .os, .run 1] ++
    List.replicate 6 (.run 2)

/-- Both appends run through. -/
def noFailure : List (Move Failure) :=
  List.replicate 13 (.run 0) ++ List.replicate 7 (.run 1) ++ List.replicate 6 (.run 2)

/-- The log of two appends that both ran through, by the general theorem. -/
theorem increasing_iff_not_appendedOwing_noFailure :
    ∃ c, (faultySystem Unit id).Reachable (noRoom 0 () twoAppends) c ∧
      c.snap.world.files.log.map (·.id) = [1, 2] ∧
      (Increasing c.snap.world.files.log ↔ appendedOwing c.snap.trace = false) := by
  have hrun : ((faultySystem Unit id).replay (noRoom 0 () twoAppends) noFailure).map
      (fun c => c.snap.world.files.log.map (·.id)) = some [1, 2] := by decide
  obtain ⟨c, hc, hids⟩ := System.exists_reachable_of_replay hrun
  exact ⟨c, hc, hids, increasing_iff_not_appendedOwing id 0 () twoAppends c hc⟩

/-- The ids are not always increasing after a successful append: behind an append that
failed after its log line, the next one uses its id again. -/
theorem append_repeats_id_of_failed_append :
    ¬ ∀ (calls : List StorageCall) (c : Config (World Unit) RoomStep Failure Unit),
      (faultySystem Unit id).Reachable (noRoom 0 () calls) c →
      appendSucceeded c.snap.trace = true → Increasing c.snap.world.files.log := by
  intro h
  have hrun : ((faultySystem Unit id).replay (noRoom 0 () twoAppends) failingChmod).map
      (fun c => (appendSucceeded c.snap.trace, decide (Increasing c.snap.world.files.log))) =
      some (true, false) := by decide
  obtain ⟨c, hc, hv⟩ := System.exists_reachable_of_replay hrun
  obtain ⟨hsucceeded, hlog⟩ := Prod.mk.inj hv
  exact of_decide_eq_false hlog (h twoAppends c hc hsucceeded)

end AgentGather.Storage
