import AgentGather.Server.AutoContinue
import AgentGather.Server.Sessions

/-!
# The preference for automatic continuation

The loop guard reads the preference and then opens a cycle; the host's request stores the
preference and then cancels.  The order of the two halves of each decides what is left: in
every run in which no cycle is opened behind the answer of a request that turned the
preference off while the guard held what it had read, none around the closing of the room,
and no such request is cut off between its halves, a quiescent server has a pending entry
only if the room is stored as open and the preference as on.
-/

namespace AgentGather.Server

open AgentGather.Library AgentGather.Protocol AgentGather.Storage

/-! ## What the history says -/

/-- Who stores the preference, and whether as on. -/
def storesPreference : Event RoomStep → Option (Nat × Bool)
  | .ran t (.wroteState .preferred r) => some (t, r.autoContinueEnabled == some true)
  | _ => none

/-- Who makes sure that nothing is pending. -/
def settles : Event RoomStep → Option Nat
  | .ran t .nothingPending => some t
  | .ran t (.pending _ none) => some t
  | _ => none

/-- Caller `t` reads the room's state. -/
def readsState (t : Nat) : Event RoomStep → Bool
  | .ran u (.readState _) => u == t
  | _ => false

/-- Caller `t` releases the writer lock. -/
def releases (t : Nat) : Event RoomStep → Bool
  | .ran u .released => u == t
  | _ => false

/-- The preference that was last stored is on. -/
def preferenceOn (state : Stored RoomState) : List (Event RoomStep) → Bool
  | [] =>
      match state with
      | .whole r => r.autoContinueEnabled == some true
      | _ => false
  | e :: es =>
      match storesPreference e with
      | some (_, on) => on
      | none => preferenceOn state es

/-- Caller `t` has stored the preference as off, and not made sure yet that nothing is
pending. -/
def owing (t : Nat) : List (Event RoomStep) → Bool
  | [] => false
  | e :: es =>
      match storesPreference e with
      | some (u, on) => if u = t then !on else owing t es
      | none => settles e != some t && owing t es

/-- A request that stored the preference as off settles it; nobody has stored it as on
since. -/
def answersOff (state : Stored RoomState) (e : Event RoomStep)
    (es : List (Event RoomStep)) : Bool :=
  (settles e).any fun t => owing t es && !preferenceOn state es

/-- A request that turned the preference off has answered, and nobody has stored it as on
since it stored it. -/
def turnedOff (state : Stored RoomState) : List (Event RoomStep) → Bool
  | [] => false
  | e :: es =>
      match storesPreference e with
      | some (_, on) => !on && turnedOff state es
      | none => answersOff state e es || turnedOff state es

/-- That happened since caller `t` last read the room's state. -/
def turnedOffSinceRead (state : Stored RoomState) (t : Nat) :
    List (Event RoomStep) → Bool
  | [] => false
  | e :: es =>
      if readsState t e then false
      else
        match storesPreference e with
        | some (_, on) => !on && turnedOffSinceRead state t es
        | none => answersOff state e es || turnedOffSinceRead state t es

/-- The room was closed since caller `t` last released the writer lock. -/
def closedSinceRelease (t : Nat) : List (Event RoomStep) → Bool
  | [] => false
  | e :: es => if releases t e then false else closes e || closedSinceRelease t es

/-- The room that was last stored is open. -/
def openNow (state : Stored RoomState) (es : List (Event RoomStep)) : Bool :=
  match storedState state es with
  | .whole r => r.status == .opened
  | _ => false

/-- A cycle was opened although, since its caller read the preference, a request has turned
it off and answered, or although, since its caller stored its record and so before it found
the room open, the room was closed. -/
def openedOutdated (state : Stored RoomState) : List (Event RoomStep) → Bool :=
  happened fun t l es =>
    match l with
    | .pending _ (some _) => turnedOffSinceRead state t es || closedSinceRelease t es
    | _ => false

/-- A room was closed while an entry was pending. -/
def closedWhilePending : List (Event RoomStep) → Bool :=
  happened fun _ l es =>
    match l with
    | .wroteState .closed _ => (pendingEntry es).isSome
    | _ => false

/-- A step of caller `t` failed, or its process crashed. -/
def cuts (process : Nat → Nat) (t : Nat) : Event RoomStep → Bool
  | .ran _ _ => false
  | .failed u _ => u == t
  | .crashed p => process t == p

/-- That happened after caller `t` had stored the preference as off and before it made sure
that nothing is pending. -/
def cutOff (process : Nat → Nat) (t : Nat) : List (Event RoomStep) → Bool
  | [] => false
  | e :: es => (cuts process t e && owing t es) || cutOff process t es

/-- A cycle was opened although a request that turned the preference off had answered, and
nobody had stored it as on since. -/
def openedTurnedOff (state : Stored RoomState) : List (Event RoomStep) → Bool :=
  happened fun _ l es =>
    match l with
    | .pending _ (some _) => turnedOff state es
    | _ => false

/-- Reading and opening, closing, and storing and cancelling have not come in between each
other. -/
structure Orderly (process : Nat → Nat) (state : Stored RoomState)
    (es : List (Event RoomStep)) : Prop where
  opened : openedOutdated state es = false
  closed : closedWhilePending es = false
  finished : ∀ t, cutOff process t es = false

theorem cutOff_tail {process : Nat → Nat} {t : Nat} {e : Event RoomStep}
    {es : List (Event RoomStep)} (h : cutOff process t (e :: es) = false) :
    cutOff process t es = false :=
  (Bool.or_eq_false_iff.mp h).2

theorem Orderly.tail {process : Nat → Nat} {state : Stored RoomState} {e : Event RoomStep}
    {es : List (Event RoomStep)} (h : Orderly process state (e :: es)) :
    Orderly process state es :=
  ⟨not_happened_tail h.opened, not_happened_tail h.closed, fun t => cutOff_tail (h.finished t)⟩

/-! ## Who owes what -/

theorem owing_of_stores {t u : Nat} {on : Bool} {e : Event RoomStep}
    (he : storesPreference e = some (u, on)) (es : List (Event RoomStep)) :
    owing t (e :: es) = if u = t then !on else owing t es := by
  rw [owing, he]

theorem owing_of_besides {t : Nat} {e : Event RoomStep} (he : storesPreference e = none)
    (es : List (Event RoomStep)) :
    owing t (e :: es) = (settles e != some t && owing t es) := by
  rw [owing, he]

/-- Only storing makes a caller owe. -/
theorem owing_tail {t : Nat} {e : Event RoomStep} {es : List (Event RoomStep)}
    (he : storesPreference e ≠ some (t, false)) (h : owing t (e :: es) = true) :
    owing t es = true := by
  cases hs : storesPreference e with
  | none =>
      rw [owing_of_besides hs] at h
      exact (Bool.and_eq_true_iff.mp h).2
  | some stored =>
      obtain ⟨u, on⟩ := stored
      rw [owing_of_stores hs] at h
      split at h
      · rename_i hu
        subst hu
        cases on with
        | false => exact absurd hs he
        | true => cases h
      · exact h

/-- Whoever has not begun owes nothing. -/
theorem not_owing_of_not_begun {t : Nat} {es : List (Event RoomStep)}
    (h : ∀ e ∈ es, e.isOf t = false) : owing t es = false := by
  induction es with
  | nil => rfl
  | cons e es ih =>
      have htail := ih fun e' he' => h e' (List.mem_cons_of_mem _ he')
      rw [← Bool.not_eq_true] at htail ⊢
      refine fun howing => htail (owing_tail (fun hs => ?_) howing)
      have hown := h e List.mem_cons_self
      rcases e with ⟨u, l⟩ | ⟨u, l⟩ | p
      · have hu : u = t := by
          cases l with
          | wroteState purpose r =>
              cases purpose <;> first | cases hs | exact (Prod.mk.inj (Option.some.inj hs)).1
          | _ => cases hs
        simp [Event.isOf, hu] at hown
      · cases hs
      · cases hs

/-- Where no step failed and nothing crashed, nobody is cut off. -/
theorem cutOff_of_ran {process : Nat → Nat} {es : List (Event RoomStep)}
    (h : es.all Event.isRan = true) (t : Nat) : cutOff process t es = false := by
  induction es with
  | nil => rfl
  | cons e es ih =>
      obtain ⟨he, hes⟩ := Bool.and_eq_true_iff.mp h
      rw [cutOff, ih hes, Bool.or_false]
      rcases e with ⟨u, l⟩ | ⟨u, l⟩ | p
      · rfl
      · cases he
      · cases he

/-- The caller is done with the preference, unless it was cut off. -/
def Settled (process : Nat → Nat) (t : Nat) (es : List (Event RoomStep)) : Prop :=
  cutOff process t es = false → owing t es = false

theorem Settled.cons {process : Nat → Nat} {t : Nat} {es : List (Event RoomStep)}
    (h : Settled process t es) {e : Event RoomStep}
    (he : storesPreference e ≠ some (t, false)) : Settled process t (e :: es) := by
  intro hcut
  rw [← Bool.not_eq_true]
  intro howing
  have hnot := h (cutOff_tail hcut)
  rw [owing_tail he howing] at hnot
  cases hnot

/-- Whatever happens to be cut off is not held against the caller. -/
theorem settled_of_cuts {process : Nat → Nat} {t : Nat} {e : Event RoomStep}
    (he : cuts process t e = true) (es : List (Event RoomStep)) :
    Settled process t (e :: es) := by
  intro hcut
  have howing : owing t es = false := by
    have hboth := (Bool.or_eq_false_iff.mp hcut).1
    rwa [he, Bool.true_and] at hboth
  rw [← Bool.not_eq_true]
  intro h
  have hs : storesPreference e ≠ some (t, false) := by
    rcases e with ⟨u, l⟩ | ⟨u, l⟩ | p
    · cases he
    · exact fun h => nomatch h
    · exact fun h => nomatch h
  rw [owing_tail hs h] at howing
  cases howing

/-- Whoever settles owes nothing. -/
theorem settled_of_settles {process : Nat → Nat} {t : Nat} {e : Event RoomStep}
    (he : settles e = some t) (es : List (Event RoomStep)) : Settled process t (e :: es) := by
  intro _
  have hs : storesPreference e = none := by
    rcases e with ⟨u, l⟩ | ⟨u, l⟩ | p
    · cases l <;> first | rfl | cases he
    · rfl
    · rfl
  rw [owing_of_besides hs, he]
  simp

theorem storesPreference_of_noWrite {e : Event RoomStep} (he : isWriteEvent e = false) :
    storesPreference e = none := by
  rcases e with ⟨t, l⟩ | ⟨t, l⟩ | p
  · cases l <;> first | rfl | cases he
  · rfl
  · rfl

/-! ## What a reader knows -/

/-- As long as a request has turned the preference off, it is off. -/
theorem preferenceOff_of_turnedOff {state : Stored RoomState} {es : List (Event RoomStep)}
    (h : turnedOff state es = true) : preferenceOn state es = false := by
  induction es with
  | nil => cases h
  | cons e es ih =>
      rw [turnedOff] at h
      rw [preferenceOn]
      cases hs : storesPreference e with
      | some stored =>
          simp only [hs, Bool.and_eq_true, Bool.not_eq_true'] at h
          exact h.1
      | none =>
          simp only [hs, Bool.or_eq_true] at h
          rcases h with h | h
          · rw [answersOff, Option.any_eq_true] at h
            obtain ⟨t, -, h⟩ := h
            simpa using (Bool.and_eq_true_iff.mp h).2
          · exact ih h

/-- Caller `t` read the preference as on: if it was turned off, that was later, and if it
is off, somebody still has to settle that or it was turned off. -/
structure ReadOn (state : Stored RoomState) (t : Nat) (es : List (Event RoomStep)) :
    Prop where
  later : turnedOff state es = true → turnedOffSinceRead state t es = true
  stillOn : turnedOffSinceRead state t es = false →
    preferenceOn state es = true ∨ ∃ u, owing u es = true

theorem ReadOn.cons {state : Stored RoomState} {t : Nat} {es : List (Event RoomStep)}
    (h : ReadOn state t es) {e : Event RoomStep} (he : readsState t e = false) :
    ReadOn state t (e :: es) := by
  cases hs : storesPreference e with
  | some stored =>
      obtain ⟨u, on⟩ := stored
      constructor
      · simp only [turnedOff, turnedOffSinceRead, hs, he, Bool.false_eq_true, if_false,
          Bool.and_eq_true]
        exact fun hoff => ⟨hoff.1, h.later hoff.2⟩
      · intro _
        cases on with
        | true =>
            left
            rw [preferenceOn, hs]
        | false =>
            right
            refine ⟨u, ?_⟩
            rw [owing_of_stores hs, if_pos rfl]
            rfl
  | none =>
      constructor
      · simp only [turnedOff, turnedOffSinceRead, hs, he, Bool.false_eq_true, if_false,
          Bool.or_eq_true]
        exact fun hoff => hoff.imp id h.later
      · intro hsince
        simp only [turnedOffSinceRead, hs, he, Bool.false_eq_true, if_false,
          Bool.or_eq_false_iff] at hsince
        obtain ⟨hanswers, hsince⟩ := hsince
        rw [preferenceOn, hs]
        rcases h.stillOn hsince with hon | ⟨u, hu⟩
        · exact .inl hon
        · by_cases hsettles : settles e = some u
          · left
            rw [answersOff, hsettles, Option.any_some, hu, Bool.true_and] at hanswers
            simpa using hanswers
          · right
            refine ⟨u, ?_⟩
            rw [owing_of_besides hs, hu]
            simpa using hsettles

/-- The reading itself. -/
theorem ReadOn.read {state : Stored RoomState} {t : Nat} {es : List (Event RoomStep)}
    {found : Stored RoomState} (h : preferenceOn state es = true) :
    ReadOn state t (.ran t (.readState found) :: es) := by
  have hoff : turnedOff state es = false := by
    rw [← Bool.not_eq_true]
    intro hoff
    rw [preferenceOff_of_turnedOff hoff] at h
    cases h
  constructor
  · intro hlater
    have hsame : turnedOff state (.ran t (.readState found) :: es) = turnedOff state es := rfl
    rw [hsame, hoff] at hlater
    cases hlater
  · exact fun _ => .inl h

/-- If caller `t` has found the room open since it last released the lock, it is open
unless it was closed since. -/
def StillOpen (state : Stored RoomState) (t : Nat) (es : List (Event RoomStep)) : Prop :=
  closedSinceRelease t es = false → openNow state es = true

/-- Only a closing keeps the stored room from being open. -/
theorem openNow_cons {state : Stored RoomState} {e : Event RoomStep}
    {es : List (Event RoomStep)} (h : openNow state es = true) :
    closes e = true ∨ openNow state (e :: es) = true := by
  rcases e with ⟨t, l⟩ | ⟨t, l⟩ | p
  · cases l with
    | wroteState purpose r =>
        cases hr : r.status with
        | opened =>
            right
            simp [openNow, storedState, hr]
        | closed =>
            left
            simp [closes, hr]
    | _ => exact .inr h
  · exact .inr h
  · exact .inr h

theorem StillOpen.cons {state : Stored RoomState} {t : Nat} {es : List (Event RoomStep)}
    (h : StillOpen state t es) {e : Event RoomStep} (he : releases t e = false) :
    StillOpen state t (e :: es) := by
  intro hsince
  rw [closedSinceRelease, if_neg (by simp [he])] at hsince
  obtain ⟨hnot, hsince⟩ := Bool.or_eq_false_iff.mp hsince
  rcases openNow_cons (h hsince) with hc | ho
  · rw [hc] at hnot
    cases hnot
  · exact ho

/-! ## The invariant -/

/-- The event is about the pending entry or the room's state. -/
def ofPreference : Event RoomStep → Bool
  | .ran _ (.pending _ _) => true
  | .ran _ .nothingPending => true
  | .ran _ (.wroteState _ _) => true
  | _ => false

section Besides

variable {e : Event RoomStep} (he : ofPreference e = false) (state : Stored RoomState)
  (es : List (Event RoomStep))

include he

theorem stores_besides : storesPreference e = none ∧ settles e = none := by
  rcases e with ⟨t, l⟩ | ⟨t, l⟩ | p
  · cases l <;> first | exact ⟨rfl, rfl⟩ | cases he
  · exact ⟨rfl, rfl⟩
  · exact ⟨rfl, rfl⟩

theorem entry_besides : pendingEntry (e :: es) = pendingEntry es := by
  rcases e with ⟨t, l⟩ | ⟨t, l⟩ | p
  · cases l <;> first | rfl | cases he
  · rfl
  · rfl

theorem storedState_besides : storedState state (e :: es) = storedState state es := by
  rcases e with ⟨t, l⟩ | ⟨t, l⟩ | p
  · cases l <;> first | rfl | cases he
  · rfl
  · rfl

theorem openedTurnedOff_besides :
    openedTurnedOff state (e :: es) = openedTurnedOff state es := by
  rcases e with ⟨t, l⟩ | ⟨t, l⟩ | p
  · cases l <;> first | rfl | cases he
  · rfl
  · rfl

theorem preferenceOn_besides : preferenceOn state (e :: es) = preferenceOn state es := by
  rw [preferenceOn, (stores_besides he).1]

theorem owing_besides (t : Nat) : owing t (e :: es) = owing t es := by
  rw [owing_of_besides (stores_besides he).1, (stores_besides he).2]
  rfl

end Besides

/-- Memory and files are as the history says; only requests for the preference owe
anything; and in an orderly run an entry is pending only in an open room with the
preference on, unless somebody still has to settle it, and none is opened while it is
turned off. -/
structure PreferenceInv (process : Nat → Nat) (calls : List ServerCall)
    (state : Stored RoomState) (x : Snapshot (World ServerMemory) RoomStep) : Prop where
  pending : x.world.memory.pendingAutoContinue = pendingEntry x.trace
  stored : x.world.files.state = storedState state x.trace
  preference : ∀ raw, x.world.files.state = .whole raw →
    (raw.autoContinueEnabled == some true) = preferenceOn state x.trace
  owed : ∀ t, owing t x.trace = true → ∃ req, calls[t]? = some (.request .postLoopGuard req)
  allowed : Orderly process state x.trace → (pendingEntry x.trace).isSome = true →
    openNow state x.trace = true ∧
      (preferenceOn state x.trace = true ∨ ∃ t, owing t x.trace = true)
  off : Orderly process state x.trace → openedTurnedOff state x.trace = false

section Invariant

variable {process : Nat → Nat} {calls : List ServerCall} {state : Stored RoomState}
  {x : Snapshot (World ServerMemory) RoomStep}

theorem PreferenceInv.besides (hx : PreferenceInv process calls state x)
    {e : Event RoomStep} (he : ofPreference e = false) {w : World ServerMemory}
    (hmemory : w.memory.pendingAutoContinue = x.world.memory.pendingAutoContinue)
    (hstate : w.files.state = x.world.files.state) :
    PreferenceInv process calls state (x.record e w) := by
  constructor
  all_goals simp only [Snapshot.record_trace, Snapshot.record_world, entry_besides he,
    storedState_besides he, openedTurnedOff_besides he, preferenceOn_besides he,
    owing_besides he, openNow, hmemory, hstate]
  · exact hx.pending
  · exact hx.stored
  · exact hx.preference
  · exact hx.owed
  · exact fun horderly => hx.allowed horderly.tail
  · exact fun horderly => hx.off horderly.tail

theorem preferenceInv_quiet : KeptQuietly (PreferenceInv process calls state) := by
  intro x e w hx hstep
  refine hx.besides ?_ (by rw [hstep.memory]) (by rw [hstep.files])
  have hevent := hstep.event
  rcases e with ⟨t, l⟩ | ⟨t, l⟩ | p
  · cases l <;> first | rfl | cases hevent
  · rfl
  · rfl

/-- Nothing is pending any more. -/
theorem PreferenceInv.settle (hx : PreferenceInv process calls state x)
    {e : Event RoomStep} {t : Nat} (he : settles e = some t) {m : ServerMemory}
    (hm : m.pendingAutoContinue = none) (hnone : pendingEntry (e :: x.trace) = none) :
    PreferenceInv process calls state (x.record e { x.world with memory := m }) := by
  have hcases : e = .ran t .nothingPending ∨ ∃ clock, e = .ran t (.pending clock none) := by
    rcases e with ⟨u, l⟩ | ⟨u, l⟩ | p
    · cases l with
      | nothingPending => exact .inl (congrArg (Event.ran · _) (Option.some.inj he))
      | pending clock entry =>
          cases entry with
          | none => exact .inr ⟨clock, congrArg (Event.ran · _) (Option.some.inj he)⟩
          | some p => cases he
      | _ => cases he
    · cases he
    · cases he
  have hstores : storesPreference e = none := by
    rcases hcases with rfl | ⟨clock, rfl⟩ <;> rfl
  have hstored : storedState state (e :: x.trace) = storedState state x.trace := by
    rcases hcases with rfl | ⟨clock, rfl⟩ <;> rfl
  have hopened : openedTurnedOff state (e :: x.trace) = openedTurnedOff state x.trace := by
    rcases hcases with rfl | ⟨clock, rfl⟩ <;> rfl
  constructor
  · exact hm.trans hnone.symm
  · rw [Snapshot.record_trace, hstored]
    exact hx.stored
  · intro raw hraw
    rw [Snapshot.record_trace, preferenceOn, hstores]
    exact hx.preference raw hraw
  · intro u hu
    refine hx.owed u (owing_tail (fun h => ?_) hu)
    rw [hstores] at h
    cases h
  · intro _ hsome
    rw [Snapshot.record_trace, hnone] at hsome
    cases hsome
  · intro horderly
    rw [Snapshot.record_trace, hopened]
    exact hx.off horderly.tail

/-- A new state of the room that leaves the preference. -/
theorem PreferenceInv.write (hx : PreferenceInv process calls state x) {t : Nat}
    {purpose : StateWrite} {raw r : RoomState} (hraw : x.world.files.state = .whole raw)
    (hpurpose : purpose ≠ .preferred)
    (hon : r.autoContinueEnabled = raw.autoContinueEnabled)
    (hstatus : r.status = raw.status ∨ purpose = .closed) :
    PreferenceInv process calls state (x.record (.ran t (.wroteState purpose r))
      { x.world with files := { x.world.files with state := .whole r } }) := by
  have hstores : storesPreference (.ran t (.wroteState purpose r)) = none := by
    cases purpose <;> first | rfl | exact absurd rfl hpurpose
  have hpreference (es : List (Event RoomStep)) :
      preferenceOn state (.ran t (.wroteState purpose r) :: es) = preferenceOn state es := by
    rw [preferenceOn, hstores]
  have howing (u : Nat) (es : List (Event RoomStep)) :
      owing u (.ran t (.wroteState purpose r) :: es) = owing u es := by
    rw [owing_of_besides hstores]
    rfl
  constructor
  · exact hx.pending
  · rfl
  · rintro r' ⟨⟩
    rw [Snapshot.record_trace, hpreference, hon]
    exact hx.preference raw hraw
  · intro u hu
    rw [Snapshot.record_trace, howing] at hu
    exact hx.owed u hu
  · intro horderly hsome
    have hsome' : (pendingEntry x.trace).isSome = true := hsome
    obtain ⟨hopen, hallowed⟩ := hx.allowed horderly.tail hsome'
    simp only [Snapshot.record_trace, hpreference, howing]
    refine ⟨?_, hallowed⟩
    rcases hstatus with hstatus | rfl
    · rw [openNow, ← hx.stored, hraw] at hopen
      change (r.status == .opened) = true
      rwa [hstatus]
    · have hclosed : ((pendingEntry x.trace).isSome || closedWhilePending x.trace) = false :=
        horderly.closed
      rw [(Bool.or_eq_false_iff.mp hclosed).1] at hsome'
      cases hsome'
  · exact fun horderly => hx.off horderly.tail

/-- A new preference. -/
theorem PreferenceInv.prefer (hx : PreferenceInv process calls state x) {t : Nat}
    {req : Request} (hcall : calls[t]? = some (.request .postLoopGuard req))
    {raw r : RoomState} (hraw : x.world.files.state = .whole raw)
    (hstatus : r.status = raw.status) :
    PreferenceInv process calls state (x.record (.ran t (.wroteState .preferred r))
      { x.world with files := { x.world.files with state := .whole r } }) := by
  have hstores : storesPreference (.ran t (.wroteState .preferred r)) =
      some (t, r.autoContinueEnabled == some true) := rfl
  constructor
  · exact hx.pending
  · rfl
  · rintro r' ⟨⟩
    rw [Snapshot.record_trace, preferenceOn, hstores]
  · intro u hu
    rw [Snapshot.record_trace, owing_of_stores hstores] at hu
    split at hu
    · rename_i htu
      exact ⟨req, htu ▸ hcall⟩
    · exact hx.owed u hu
  · intro horderly hsome
    obtain ⟨hopen, -⟩ := hx.allowed horderly.tail hsome
    constructor
    · rw [openNow, ← hx.stored, hraw] at hopen
      change (r.status == .opened) = true
      rwa [hstatus]
    · rw [Snapshot.record_trace, preferenceOn, hstores]
      cases hon : r.autoContinueEnabled == some true with
      | true => exact .inl rfl
      | false =>
          right
          refine ⟨t, ?_⟩
          rw [owing_of_stores hstores, if_pos rfl, hon]
          rfl
  · exact fun horderly => hx.off horderly.tail

/-- A cycle is opened by a caller that found the room open and the preference on. -/
theorem PreferenceInv.opens (hx : PreferenceInv process calls state x) {t clock : Nat}
    {m : ServerMemory} {p : PendingAutoContinue} (hm : m.pendingAutoContinue = some p)
    (hopen : StillOpen state t x.trace) (hon : ReadOn state t x.trace) :
    PreferenceInv process calls state
      (x.record (.ran t (.pending clock (some p))) { x.world with memory := m }) := by
  have hnot {es : List (Event RoomStep)}
      (horderly : Orderly process state (.ran t (.pending clock (some p)) :: es)) :
      turnedOffSinceRead state t es = false ∧ closedSinceRelease t es = false := by
    have hopened : ((turnedOffSinceRead state t es || closedSinceRelease t es) ||
        openedOutdated state es) = false := horderly.opened
    exact Bool.or_eq_false_iff.mp (Bool.or_eq_false_iff.mp hopened).1
  constructor
  · exact hm
  · exact hx.stored
  · exact hx.preference
  · exact hx.owed
  · intro horderly _
    obtain ⟨hsince, hclosed⟩ := hnot horderly
    refine ⟨hopen hclosed, (hon.stillOn hsince).imp id ?_⟩
    rintro ⟨u, hu⟩
    exact ⟨u, hu⟩
  · intro horderly
    have hoff : openedTurnedOff state (.ran t (.pending clock (some p)) :: x.trace) =
        (turnedOff state x.trace || openedTurnedOff state x.trace) := rfl
    rw [Snapshot.record_trace, hoff, hx.off horderly.tail, Bool.or_false, ← Bool.not_eq_true]
    intro hturned
    have hlater := hon.later hturned
    rw [(hnot horderly).1] at hlater
    cases hlater

theorem preferenceInv_room : KeptByRoom (PreferenceInv process calls state) where
  quiet := preferenceInv_quiet
  routine := by
    intro x t m hx hm
    rcases hm with hsame | ⟨p, hcancelled⟩
    · rw [pendingLabel_same hsame]
      exact hx.besides rfl hsame.pending rfl
    · rw [pendingLabel_cancelled hcancelled]
      exact hx.settle (t := t) rfl hcancelled.none rfl
  settled := by
    intro x t hx hnone
    refine hx.settle (t := t) rfl hnone ?_
    exact hx.pending.symm.trans hnone
  state := by
    intro x t purpose raw r hx _ hraw hwrite
    cases hwrite with
    | appended same =>
        exact hx.write hraw (by simp) same.autoContinueEnabled (.inl same.status)
    | closed same => exact hx.write hraw (by simp) same.autoContinueEnabled (.inr rfl)
  system := fun _ _ _ hx _ _ _ => hx.besides rfl rfl rfl

end Invariant

/-! ## Requests -/

section Calls

variable {process : Nat → Nat} {calls : List ServerCall} {state : Stored RoomState}
  {t : Nat} {o : ServerOptions}

theorem stillOpen_stable :
    LockStable process (PreferenceInv process calls state) t
      fun x => StillOpen state t x.trace := by
  intro e x w hf _ _ _ h
  refine h.cons ?_
  rcases e with ⟨u, l⟩ | ⟨u, l⟩ | p
  · have hu : u ≠ t := hf
    cases l <;> first | rfl | simp [releases, hu]
  · rfl
  · rfl

theorem stillOpen_own : KeptInMemory t fun x => StillOpen state t x.trace := by
  rintro x w l hl - h - -
  refine ⟨h.cons ?_, h.cons rfl⟩
  cases l <;> first | rfl | cases hl

/-- What the state tells that is read. -/
theorem stored_of_read {x : Snapshot (World ServerMemory) RoomStep}
    (hx : PreferenceInv process calls state x) {r : RoomState}
    (hr : (withRoomDefaults <$> x.world.files.state.read : Except Failure RoomState) = .ok r) :
    ∃ raw, storedState state x.trace = .whole raw ∧ SameRoom raw r ∧
      (raw.autoContinueEnabled == some true) = preferenceOn state x.trace := by
  cases hs : x.world.files.state.read with
  | error e => rw [hs] at hr; cases hr
  | ok raw =>
      rw [hs] at hr
      obtain rfl := Except.ok.inj hr
      have hraw := Stored.eq_whole_of_read hs
      exact ⟨raw, hx.stored.symm.trans hraw, sameRoom_withRoomDefaults raw,
        hx.preference raw hraw⟩

/-- Whoever reads that the room is open has found it open. -/
theorem readRoomState_opened :
    LockSafe process (PreferenceInv process calls state) t
      (fun r x => r.status = .opened → StillOpen state t x.trace) (fun _ _ => True)
      readRoomState fun _ => True := by
  refine (look_safe preferenceInv_quiet (.of_const True) (true_own fun _ => True)
    (fun _ => ⟨rfl, trivial⟩)).conseq (fun _ _ h => h) ?_ fun _ _ _ _ => trivial
  rintro r y - ⟨-, x, w, rfl, rfl, hx, -, hr⟩ hopen -
  obtain ⟨raw, hraw, hsame, -⟩ := stored_of_read hx hr
  change openNow state x.trace = true
  rw [openNow, hraw]
  simp [← hsame.status, hopen]

theorem requireRoomOpen_opened :
    LockSafe process (PreferenceInv process calls state) t
      (fun _ x => StillOpen state t x.trace) (fun _ _ => True) (requireRoomOpen t o)
      fun _ => True := by
  have hstable (r : RoomState) : LockStable process (PreferenceInv process calls state) t
      fun x => r.status = .opened → StillOpen state t x.trace :=
    fun e x w hf hi hi' hg h hopen => stillOpen_stable e x w hf hi hi' hg (h hopen)
  have hown (r : RoomState) :
      KeptInMemory t fun x => r.status = .opened → StillOpen state t x.trace :=
    fun x w l hl hw h hfiles hlock =>
      ⟨fun hopen => (stillOpen_own x w l hl hw (h hopen) hfiles hlock).1,
        fun hopen => (stillOpen_own x w l hl hw (h hopen) hfiles hlock).2⟩
  refine (closeExpiredRoomIfNeeded_safe preferenceInv_room readRoomState_opened hstable hown
    fun r x hclosed hopen => ?_).bind fun r => ?_
  · cases hclosed.symm.trans hopen
  · split
    · exact fun _ _ _ => trivial
    · rename_i hopen
      exact .done fun x _ h => h (not_not.mp hopen)

/-- The guard's reading of the preference. -/
theorem readRoomState_on :
    LockSafe process (PreferenceInv process calls state) t
      (fun r x => StillOpen state t x.trace ∧
        (r.autoContinueEnabled = some true → ReadOn state t x.trace))
      (fun _ _ => True) readRoomState fun x => StillOpen state t x.trace := by
  refine (look_safe preferenceInv_quiet stillOpen_stable
    (K := fun l => ∃ found, l = .readState found) ?_ fun w => ⟨rfl, _, rfl⟩).conseq
    (fun _ _ h => h) ?_ fun _ _ _ _ => trivial
  · rintro x w l ⟨found, rfl⟩ - h - -
    exact ⟨h.cons rfl, h.cons rfl⟩
  · rintro r y - ⟨hopen, x, w, rfl, rfl, hx, -, hr⟩
    refine ⟨hopen, fun hon => .read ?_⟩
    obtain ⟨raw, -, hsame, hpreference⟩ := stored_of_read hx hr
    rw [← hpreference, ← hsame.autoContinueEnabled, hon]
    rfl

theorem pauseLoop_preference (auth : Participant) :
    LockSafe process (PreferenceInv process calls state) t (fun _ _ => False)
      (fun _ _ => True) (pauseLoop auth) fun x => StillOpen state t x.trace := by
  refine pauseLoop_safe preferenceInv_room readRoomState_on (fun r => ?_)
    fun r x m hx hl henabled hopened => ?_
  · refine stillOpen_stable.and ?_
    intro e x w hf _ _ _ h hon
    refine (h hon).cons ?_
    rcases e with ⟨u, l⟩ | ⟨u, l⟩ | p
    · have hu : u ≠ t := hf
      cases l <;> first | rfl | simp [readsState, hu]
    · rfl
    · rfl
  · rw [hopened.pending]
    exact hx.opens hopened.pending hl.1 (hl.2 henabled)

theorem preferenceInv_requests :
    KeptByRequests process (PreferenceInv process calls state) t o (fun _ _ => True)
      fun x => StillOpen state t x.trace where
  room := preferenceInv_room
  roster := fun _ _ hx => hx.besides rfl rfl rfl
  stable := stillOpen_stable
  own := stillOpen_own
  opened := requireRoomOpen_opened
  pause auth := (pauseLoop_preference auth).pre fun _ _ h => h.1
  append options := (appendMessageResult_safe preferenceInv_room (.of_const True)
    (true_own _) (anyPast_enduring t) (fun _ _ _ => trivial)
    (fun _ _ hx _ _ => hx.besides rfl rfl rfl) options).pre fun _ _ _ => trivial
  start options := (startActiveSession_safe preferenceInv_quiet (.of_const True) (true_own _)
    (anyPast_enduring t) (fun _ _ _ => trivial) (fun _ _ _ _ hx _ _ hraw _ _ hsame =>
      hx.write hraw (by simp) hsame.autoContinueEnabled (.inl hsame.status)) options).pre
    fun _ _ _ => trivial
  finish := (endActiveSession_safe preferenceInv_quiet (.of_const True) (true_own _)
    (anyPast_enduring t) (fun _ _ _ => trivial) (fun _ _ _ hx _ _ hraw _ hsame =>
      hx.write hraw (by simp) hsame.autoContinueEnabled (.inl hsame.status)) _ _).pre
    fun _ _ _ => trivial

theorem completeAutoContinue_preference (cycle : Nat) :
    Kept process (PreferenceInv process calls state) t (completeAutoContinue t o cycle) := by
  refine completeAutoContinue_kept preferenceInv_room (fun cycle => ?_) (fun r => ?_)
    (appendApproval_any preferenceInv_room fun _ _ hx _ _ => hx.besides rfl rfl rfl) cycle
  · refine step_keeps preferenceInv_quiet (.of_const True) (true_own fun _ => True)
      (fun x hx _ _ => hx.besides ?_ rfl rfl) (fun w => ⟨?_, trivial⟩) (fun _ => rfl)
      fun _ => rfl
    · split <;> rfl
    · split <;> rfl
  · refine (synchronously_safe preferenceInv_quiet (.of_const True) (true_own _)
      fun x hx _ => ?_).conseq (fun _ _ h => h) (fun _ _ _ _ => trivial)
      fun _ _ _ _ => trivial
    unfold ranCode
    rcases recheckAutoContinue_cases r x.world.clock x.world.memory with
      ⟨-, ⟨p, hp⟩, -⟩ | ⟨-, hroutine⟩
    · rw [pendingLabel_approved hp]
      exact hx.settle (t := t) rfl hp.none rfl
    · exact preferenceInv_room.routine x t _ hx hroutine

/-! ## Turning off -/

theorem settled_stable :
    LockStable process (PreferenceInv process calls state) t
      fun x => Settled process t x.trace := by
  intro e x w hf _ _ _ h
  refine h.cons ?_
  rcases e with ⟨u, l⟩ | ⟨u, l⟩ | p
  · intro hs
    have hu : u = t := by
      cases l with
      | wroteState purpose r =>
          cases purpose <;> first | cases hs | exact (Prod.mk.inj (Option.some.inj hs)).1
      | _ => cases hs
    exact hf hu
  · exact fun hs => nomatch hs
  · exact fun hs => nomatch hs

theorem settled_own (K : RoomStep → Prop) :
    KeptByOwn t K fun x : Snapshot (World ServerMemory) RoomStep =>
      Settled process t x.trace := by
  rintro x w l - hw h - -
  refine ⟨h.cons ?_, h.cons fun hs => nomatch hs⟩
  have he : isWriteEvent (.ran t l) = false := hw
  rw [storesPreference_of_noWrite he]
  exact fun hs => nomatch hs

theorem settled_enduring (process : Nat → Nat) (t : Nat) : Enduring t (Settled process t) := by
  intro e es he _ h
  refine h.cons ?_
  rw [storesPreference_of_noWrite he]
  exact fun hs => nomatch hs

/-- Authentication stores nothing. -/
theorem requireParticipant_settled (req : Request) (allowRemoved : Bool) :
    LockSafe process (PreferenceInv process calls state) t
      (fun _ x => Settled process t x.trace) (fun _ x => Settled process t x.trace)
      (requireParticipant o req allowRemoved) fun x => Settled process t x.trace := by
  unfold requireParticipant
  split
  · exact fun _ _ h => h
  · refine Contract.Safe.bind (R := fun _ x => Settled process t x.trace) ?_
      fun participants => ?_
    · exact (look_safe preferenceInv_quiet settled_stable (settled_own fun _ => True)
        fun _ => ⟨rfl, trivial⟩).conseq (fun _ _ h => h) (fun _ _ _ h => h.1) fun _ _ _ h => h
    · split
      · exact fun _ _ h => h
      · dsimp only
        split
        · exact fun _ _ h => h
        · exact fun _ _ h => h

/-- Storing the preference leaves a caller settled that stored it as on or failed. -/
theorem updateLoopGuardPreference_settled {req : Request}
    (hcall : calls[t]? = some (.request .postLoopGuard req))
    (options : UpdateLoopGuardPreferenceOptions) :
    LockSafe process (PreferenceInv process calls state) t
      (fun _ x => options.enabled = true → Settled process t x.trace)
      (fun _ x => Settled process t x.trace) (updateLoopGuardPreference t options)
      fun x => Settled process t x.trace := by
  refine .bind_ofExcept (fun _ _ => ?_) fun _ _ _ _ h => h
  refine .bind_ofExcept (fun _ _ => ?_) fun _ _ _ _ h => h
  dsimp only
  split
  · exact fun _ _ h => h
  refine Contract.Safe.bind (R := fun _ x => Settled process t x.trace) ?_ fun now => ?_
  · exact dateNow_keeps preferenceInv_quiet settled_stable (settled_own _) _
  have hfailed (x : Snapshot (World ServerMemory) RoomStep) (l : RoomStep) :
      Settled process t (x.record (.failed t l) x.world).trace :=
    settled_of_cuts (e := .failed t l) (beq_self_eq_true t) _
  have hreleased {es : List (Event RoomStep)} (h : Settled process t es) :
      Settled process t (.ran t .released :: es) := h.cons fun hs => nomatch hs
  refine withWriterLock_ends (R := Settled process t) preferenceInv_quiet settled_stable
    (fun _ _ h => h.cons fun hs => nomatch hs)
    (fun _ e x w hf hi hi' hg h hon => settled_stable e x w hf hi hi' hg (h hon))
    settled_stable (fun _ _ _ h hon => hreleased (h hon)) (fun _ _ h => hreleased h)
    (fun x l _ _ => hfailed x l) (fun _ x l _ _ => hfailed x l)
    (fun x l _ _ => hfailed x l) ?_
  have hread : LockSafe process (PreferenceInv process calls state) t
      (fun r => Holding t (Settled process t) (StoresRoom r))
      (fun _ x => Settled process t x.trace ∧ Locked t x) readRoomState
      (Holding t (Settled process t) anyFiles) := by
    refine (look_safe preferenceInv_quiet (holding_stable (settled_enduring process t) _)
      (holding_own (settled_enduring process t) _) fun _ => ⟨rfl, by simp⟩).conseq
      (fun _ _ h => h) ?_ fun _ _ _ h => ⟨h.past, h.lock⟩
    rintro r y - ⟨h, x, w, rfl, rfl, -, -, hr⟩
    refine ⟨h.lock, h.past, ?_⟩
    cases hs : x.world.files.state.read with
    | error e => rw [hs] at hr; cases hr
    | ok raw =>
        rw [hs] at hr
        obtain rfl := Except.ok.inj hr
        exact ⟨raw, Stored.eq_whole_of_read hs, sameRoom_withRoomDefaults raw⟩
  refine hread.bind fun r => ?_
  refine Contract.Safe.bind (R := fun _ x =>
    (options.enabled = true → Settled process t x.trace) ∧ Locked t x) ?_ fun _ => .done
    fun _ _ h => h
  refine Contract.Safe.action (holding_stable (settled_enduring process t) _) ?_ ?_
    (fun _ _ _ _ _ _ h => nomatch h) ?_
  · rintro x hx ⟨hlock, -, raw, hraw, hsame⟩ - -
    exact keeps_of_holding hlock (hx.prefer hcall hraw hsame.status)
  · rintro x - - ⟨hlock, hpast, -⟩ - - -
    refine ⟨fun hon => hpast.cons ?_, hlock⟩
    simp [storesPreference, hon]
  · exact fun x e hx h _ _ => ⟨keeps_failed preferenceInv_quiet hx t _, hfailed x _, h.lock⟩

/-- A request for the preference ends settled. -/
theorem postLoopGuard_settled {req : Request}
    (hcall : calls[t]? = some (.request .postLoopGuard req)) :
    LockSafe process (PreferenceInv process calls state) t
      (fun _ x => Settled process t x.trace) (fun _ x => Settled process t x.trace)
      (postLoopGuard t o req) fun x => Settled process t x.trace := by
  refine (requireParticipant_settled req false).bind fun auth => ?_
  refine (synchronously_keeps preferenceInv_room settled_stable (settled_own _)
    (enforceWriteRateLimit_routine _ _ _)).bind fun _ => ?_
  refine .bind_ofExcept (fun _ _ => ?_) fun _ _ _ _ h => h
  refine Contract.Safe.bind (R := fun _ x => Settled process t x.trace) ?_ fun body => ?_
  · exact (look_safe preferenceInv_quiet settled_stable (settled_own fun _ => True)
      fun _ => ⟨rfl, trivial⟩).conseq (fun _ _ h => h) (fun _ _ _ h => h.1) fun _ _ _ h => h
  split
  · refine .bind_ofExcept (fun delaySeconds _ => ?_) fun _ _ _ _ h => h
    refine (updateLoopGuardPreference_settled hcall _).bind fun r => ?_
    split
    · refine Contract.Safe.bind (R := fun _ x => Settled process t x.trace) ?_
        fun _ => .done fun _ _ h => h
      refine Contract.Safe.action (P := fun _ => True) (.of_const True) ?_ ?_
        (fun _ _ _ _ _ _ h => nomatch h) ?_ |>.pre fun _ _ _ => trivial
      · exact fun x hx _ _ _ => keeps_of_noWrite
          (settling_step preferenceInv_room (settledProjection r) hx)
          (settledLabel_process _ _ _).1 rfl fun _ _ hu => hu
      · intro x a _ _ _ _ _
        refine settled_of_settles ?_ _
        rcases settledLabel_cases (settledProjection (o := o) r) x.world.clock
          x.world.memory with ⟨hlabel, -⟩ | ⟨hlabel, -⟩ <;> rw [hlabel] <;> rfl
      · exact fun x e hx _ _ _ => ⟨keeps_failed preferenceInv_quiet hx t _,
          settled_of_cuts (e := .failed t _) (beq_self_eq_true t) _⟩
    · rename_i enabled _ hon
      refine ((synchronously_keeps preferenceInv_room settled_stable (settled_own _)
        (loopGuardProjection_routine r)).pre fun x _ h => h ?_).bind
        fun _ => .done fun _ _ h => h
      simpa using hon
  · exact fun _ _ h => h

/-- A call ends settled if it was about the preference. -/
theorem call_settled {call : ServerCall} (hcall : calls[t]? = some call) :
    LockSafe process (PreferenceInv process calls state) t
      (fun _ x => ∀ req, calls[t]? = some (.request .postLoopGuard req) →
        Settled process t x.trace)
      (fun _ x => ∀ req, calls[t]? = some (.request .postLoopGuard req) →
        Settled process t x.trace)
      (call.prog o t) fun x => Settled process t x.trace := by
  by_cases hkind : ∃ req, call = .request .postLoopGuard req
  · obtain ⟨req, rfl⟩ := hkind
    refine Contract.Safe.bind (R := fun _ x => Settled process t x.trace) ?_
      fun _ => .done fun _ _ h _ _ => h
    exact (postLoopGuard_settled hcall).conseq (fun _ _ h => h) (fun _ _ _ h => h)
      fun _ _ _ h _ _ => h
  · have hnever : ∀ req, calls[t]? ≠ some (.request .postLoopGuard req) := by
      intro req hreq
      exact hkind ⟨req, Option.some.inj (hcall.symm.trans hreq)⟩
    have hrequests : KeptByRequests process (PreferenceInv process calls state) t o
        (fun _ _ => True) fun x => StillOpen state t x.trace := preferenceInv_requests
    have hsafe : Kept process (PreferenceInv process calls state) t (call.prog o t) := by
      refine call_safe hrequests (fun kind req hreq => ?_) completeAutoContinue_preference
      refine handler_safe hrequests (anyRecord_rules hrequests) fun hk => ?_
      exact absurd ⟨req, hk ▸ hreq⟩ hkind
    exact hsafe.conseq (fun _ _ _ => trivial) (fun _ _ _ _ req hreq => absurd hreq (hnever req))
      fun _ _ _ _ req hreq => absurd hreq (hnever req)

end Calls

/-! ## Runs -/

section Runs

variable {process : Nat → Nat} {o : ServerOptions} {files : RoomFiles} {clock : Nat}
  {calls : List ServerCall} {c : Config (World ServerMemory) RoomStep Failure (Option Reply)}

/-- What is gone was cut off or owes nothing. -/
theorem gone_settled (h : (faultySystem ServerMemory process).Reachable
      (serving o files clock .initial calls) c) {t : Nat}
    (ht : System.thread c t = none) : Settled process t c.snap.trace := by
  induction h with
  | start => exact fun _ => rfl
  | @step c c' e m _ hnext _ ih =>
      rw [System.next_trace hnext]
      rcases System.gone_cases hnext ht with ⟨hgone, hforeign⟩ | rfl
      · refine (ih hgone).cons fun hs => ?_
        rcases e with ⟨u, l⟩ | ⟨u, l⟩ | p
        · cases l with
          | wroteState purpose r =>
              cases purpose <;>
                first | cases hs | exact hforeign (Prod.mk.inj (Option.some.inj hs)).1
          | _ => cases hs
        · cases hs
        · cases hs
      · exact settled_of_cuts (beq_self_eq_true _) _

theorem serving_settled (h : (faultySystem ServerMemory process).Reachable
      (serving o files clock .initial calls) c) :
    (lockContract process (PreferenceInv process calls files.state)).HoldsTo
      (faultySystem ServerMemory process)
      (fun t _ x => ∀ req, calls[t]? = some (.request .postLoopGuard req) →
        Settled process t x.trace)
      (fun t _ x => ∀ req, calls[t]? = some (.request .postLoopGuard req) →
        Settled process t x.trace) c := by
  have hinv : PreferenceInv process calls files.state
      (serving o files clock .initial calls).snap := by
    constructor
    case pending => rfl
    case stored => rfl
    case preference =>
      intro raw hraw
      have hraw' : files.state = .whole raw := hraw
      change _ = preferenceOn files.state []
      rw [hraw']
      rfl
    case off => exact fun _ => rfl
    all_goals exact fun _ h => nomatch h
  have hstable (t : Nat) : LockStable process (PreferenceInv process calls files.state) t
      fun x => ∀ req, calls[t]? = some (.request .postLoopGuard req) →
        Settled process t x.trace :=
    fun e x w hf hi hi' hg h req hreq => settled_stable e x w hf hi hi' hg (h req hreq)
  refine Contract.ends_sound ⟨hinv, fun t p hp => ?_⟩
    (lockContract_crashSafe preferenceInv_quiet) (fun t _ => hstable t) (fun t _ => hstable t) h
  obtain ⟨call, hcall, rfl⟩ := thread_serving hp
  exact .of_safe (call_settled hcall) hinv fun _ => rfl

/-- Where no thread is under way and none was cut off, nobody owes anything. -/
theorem not_owing_of_quiescent (h : (faultySystem ServerMemory process).Reachable
      (serving o files clock .initial calls) c) (hquiet : System.Quiescent c) (t : Nat)
    (hcut : cutOff process t c.snap.trace = false) : owing t c.snap.trace = false := by
  obtain ⟨hinv, hends⟩ := serving_settled h
  rw [← Bool.not_eq_true]
  intro howing
  obtain ⟨req, hreq⟩ := hinv.owed t howing
  have hsettled : Settled process t c.snap.trace := by
    cases ht : System.thread c t with
    | none => exact gone_settled h ht
    | some p =>
        rcases hquiet t p ht with hover | hbegun
        · have hend := hends t p ht
          cases p with
          | ret a => exact hend req hreq
          | err e => exact hend req hreq
          | act label ready effect next failed => cases hover
        · exact fun _ => not_owing_of_not_begun hbegun
  rw [hsettled hcut] at howing
  cases howing

end Runs

/-- In every orderly run no entry becomes pending once a request that turned the preference
off has answered, until it is stored as on; and whenever no thread is under way, an entry is
pending only if the room is stored as open and the preference as on. -/
theorem pending_enabled (process : Nat → Nat) (o : ServerOptions) (files : RoomFiles)
    (clock : Nat) (calls : List ServerCall)
    (c : Config (World ServerMemory) RoomStep Failure (Option Reply))
    (h : (faultySystem ServerMemory process).Reachable
      (serving o files clock .initial calls) c)
    (horderly : Orderly process files.state c.snap.trace) :
    openedTurnedOff files.state c.snap.trace = false ∧
      (System.Quiescent c → c.snap.world.memory.pendingAutoContinue.isSome = true →
        ∃ raw, c.snap.world.files.state = .whole raw ∧ raw.status = .opened ∧
          raw.autoContinueEnabled = some true) := by
  have hinv := (serving_settled h).1
  refine ⟨hinv.off horderly, fun hquiet hsome => ?_⟩
  rw [hinv.pending] at hsome
  obtain ⟨hopen, hon⟩ := hinv.allowed horderly hsome
  have howed : preferenceOn files.state c.snap.trace = true := by
    rcases hon with hon | ⟨t, ht⟩
    · exact hon
    · rw [not_owing_of_quiescent h hquiet t (horderly.finished t)] at ht
      cases ht
  rw [openNow] at hopen
  split at hopen
  · rename_i raw hraw
    have hstored := hinv.stored.trans hraw
    refine ⟨raw, hstored, beq_iff_eq.mp hopen, ?_⟩
    rw [← hinv.preference raw hstored] at howed
    exact beq_iff_eq.mp howed
  · cases hopen

/-- The agent's message finds the preference on; the host turns it off. -/
def continueAndTurnOff : List ServerCall :=
  [.request .postMessage ⟨some "bb", .ok (.obj [("text", .str "on")]), []⟩,
   .request .postLoopGuard ⟨some "aa", .ok (.obj [("enabled", .bool false)]), []⟩]

/-- The host's request stores the preference before the agent's opens its cycle and cancels
behind it, by the general theorem. -/
theorem pending_enabled_settledBehind :
    ∃ c, (faultySystem ServerMemory id).Reachable
        (serving guardingServer guardedRoom 0 .initial continueAndTurnOff) c ∧
      (c.snap.world.memory.cycles = 1 ∧ System.Quiescent c) ∧
      (openedTurnedOff guardedRoom.state c.snap.trace = false ∧
        (System.Quiescent c → c.snap.world.memory.pendingAutoContinue.isSome = true →
          ∃ raw, c.snap.world.files.state = .whole raw ∧ raw.status = .opened ∧
            raw.autoContinueEnabled = some true)) := by
  have hrun : ((faultySystem ServerMemory id).replay
      (serving guardingServer guardedRoom 0 .initial continueAndTurnOff)
      (List.replicate 11 (.run 0) ++ List.replicate 8 (.run 1) ++ [.run 0, .run 1])).map
      (fun c => (c.snap.world.memory.cycles, c.threads.all fun p => p.all Prog.isOver,
        openedOutdated guardedRoom.state c.snap.trace, closedWhilePending c.snap.trace,
        c.snap.trace.all Event.isRan)) =
      some (1, true, false, false, true) := by decide +kernel
  obtain ⟨c, hc, hv⟩ := System.exists_reachable_of_replay hrun
  simp only [Prod.mk.injEq] at hv
  obtain ⟨hcycles, hover, hopened, hclosed, hran⟩ := hv
  have horderly : Orderly id guardedRoom.state c.snap.trace :=
    ⟨hopened, hclosed, fun t => cutOff_of_ran hran t⟩
  exact ⟨c, hc, ⟨hcycles, System.quiescent_of_over hover⟩,
    pending_enabled id guardingServer guardedRoom 0 continueAndTurnOff c hc horderly⟩

/-- An entry can be left pending although the preference is off: the host turns it off
between the guard's reading of it and its opening of a cycle. -/
theorem autoContinue_pending_turnedOff :
    ¬ ∀ (calls : List ServerCall)
        (c : Config (World ServerMemory) RoomStep Failure (Option Reply)),
      (faultySystem ServerMemory id).Reachable
        (serving guardingServer guardedRoom 0 .initial calls) c →
      openedTurnedOff guardedRoom.state c.snap.trace = false ∧
        (System.Quiescent c → c.snap.world.memory.pendingAutoContinue.isSome = true →
          ∃ raw, c.snap.world.files.state = .whole raw ∧ raw.status = .opened ∧
            raw.autoContinueEnabled = some true) := by
  intro h
  have hrun : ((faultySystem ServerMemory id).replay
      (serving guardingServer guardedRoom 0 .initial continueAndTurnOff)
      (List.replicate 11 (.run 0) ++ List.replicate 9 (.run 1) ++ [.run 0])).map
      (fun c => (c.threads.all fun p => p.all Prog.isOver,
        c.snap.world.memory.pendingAutoContinue.isSome,
        match c.snap.world.files.state with
          | .whole raw => raw.autoContinueEnabled
          | _ => none)) = some (true, true, some false) := by decide +kernel
  obtain ⟨c, hc, hv⟩ := System.exists_reachable_of_replay hrun
  simp only [Prod.mk.injEq] at hv
  obtain ⟨hover, hsome, hoff⟩ := hv
  obtain ⟨raw, hraw, -, hon⟩ :=
    (h continueAndTurnOff c hc).2 (System.quiescent_of_over hover) hsome
  rw [hraw] at hoff
  cases hon.symm.trans hoff

end AgentGather.Server
