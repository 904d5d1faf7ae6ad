import AgentGather.Storage.Boards

/-!
# The discipline of the boards

Boardroom and forum change only under the writer lock.  For any invariant that the quiet steps
keep, whatever the system lets fail, this module gives the rules to reason about one caller
among any others.
-/

namespace AgentGather.Storage.Boards

open AgentGather.Library AgentGather.Protocol

/-- The step only reads. -/
def BoardStep.isQuiet : BoardStep → Bool
  | .readRoom => true
  | .readBoardroom => true
  | .readDirectory _ => true
  | .readPost _ => true
  | .readComments _ => true
  | _ => false

/-- The event is no more than that, if it is a step at all. -/
def isQuietEvent : Event BoardStep → Bool
  | .ran _ l => l.isQuiet
  | _ => true

/-- Quiet events that leave the world keep the invariant. -/
def KeptQuietly (I : Snapshot BoardWorld BoardStep → Prop) : Prop :=
  ∀ x e w, I x → isQuietEvent e = true → w.files = x.world.files → w.lock = x.world.lock →
    I (x.record e w)

section Rules

variable {S : System BoardWorld BoardStep Failure} {I : Snapshot BoardWorld BoardStep → Prop}
  {t : Nat} {α : Type}

/-- What an event must leave to a lock holder it is foreign to. -/
def boardGuar (S : System BoardWorld BoardStep Failure) (e : Event BoardStep)
    (x : Snapshot BoardWorld BoardStep) (w : BoardWorld) : Prop :=
  ∀ t, S.Foreign t e → x.world.lock = some t →
    w.lock = some t ∧ w.files = x.world.files ∧ isQuietEvent e = true

/-- The discipline, with an invariant of one's own. -/
def boardContract (S : System BoardWorld BoardStep Failure)
    (I : Snapshot BoardWorld BoardStep → Prop) : Contract BoardWorld BoardStep where
  inv := I
  guar := boardGuar S
  allow _ _ := True

abbrev BoardSafe (S : System BoardWorld BoardStep Failure)
    (I : Snapshot BoardWorld BoardStep → Prop) (t : Nat)
    (Q : α → Snapshot BoardWorld BoardStep → Prop)
    (E : Failure → Snapshot BoardWorld BoardStep → Prop) (p : BoardProg α)
    (P : Snapshot BoardWorld BoardStep → Prop) : Prop :=
  (boardContract S I).Safe S t Q E p P

abbrev BoardStable (S : System BoardWorld BoardStep Failure)
    (I : Snapshot BoardWorld BoardStep → Prop) (t : Nat)
    (P : Snapshot BoardWorld BoardStep → Prop) : Prop :=
  (boardContract S I).Stable S t P

/-- Caller `t` holds the lock, the history is as `R` and the files are as `p` says. -/
structure Holding (t : Nat) (R : List (Event BoardStep) → Prop) (p : BoardFiles → Prop)
    (x : Snapshot BoardWorld BoardStep) : Prop where
  lock : x.world.lock = some t
  past : R x.trace
  files : p x.world.files

/-- What `R` says of a history survives every quiet event. -/
def Enduring (R : List (Event BoardStep) → Prop) : Prop :=
  ∀ e es, isQuietEvent e = true → R es → R (e :: es)

variable {R R' : List (Event BoardStep) → Prop} {p p' : BoardFiles → Prop}
  {P E : Snapshot BoardWorld BoardStep → Prop}

theorem holding_stable (hR : Enduring R) : BoardStable S I t (Holding t R p) := by
  intro e x w hforeign _ _ hguar hx
  obtain ⟨hlock, hfiles, hquiet⟩ := hguar t hforeign hx.lock
  refine ⟨hlock, hR e x.trace hquiet hx.past, ?_⟩
  rw [Snapshot.record_world, hfiles]
  exact hx.files

/-- A quiet event that leaves the world keeps the discipline. -/
theorem keeps_quiet (hI : KeptQuietly I) {x : Snapshot BoardWorld BoardStep} (hx : I x)
    {e : Event BoardStep} (he : isQuietEvent e = true) :
    (boardContract S I).Keeps e x x.world :=
  ⟨hI x e x.world hx he rfl rfl, fun _ _ hlock => ⟨hlock, rfl, he⟩⟩

/-- An event of the lock holder keeps the discipline if it keeps the invariant. -/
theorem keeps_of_holder {x : Snapshot BoardWorld BoardStep} {l : BoardStep} {w : BoardWorld}
    (hlock : x.world.lock = some t) (hI : I (x.record (.ran t l) w)) :
    (boardContract S I).Keeps (.ran t l) x w := by
  refine ⟨hI, fun u hforeign hu => ?_⟩
  rw [hlock] at hu
  exact absurd (Option.some.inj hu) hforeign

theorem holding_failed (hR : Enduring R) {x : Snapshot BoardWorld BoardStep}
    (hx : Holding t R p x) (l : BoardStep) :
    Holding t R p (x.record (.failed t l) x.world) :=
  ⟨hx.lock, hR _ _ rfl hx.past, hx.files⟩

/-! ## Rules for single steps -/

/-- Reading under the lock: what is read is what is there; an error is one of what is there
or of the system. -/
theorem look_safe (hI : KeptQuietly I) (hR : Enduring R) {label : BoardStep}
    (hlabel : label.isQuiet = true) (result : BoardFiles → Except Failure α) :
    BoardSafe S I t (fun a => Holding t R fun f => p f ∧ result f = .ok a)
      (fun e => Holding t R fun f => p f ∧ (result f = .error e ∨ S.faults label e = true))
      (look label result) (Holding t R p) := by
  refine .action (holding_stable hR) (fun x hx _ _ _ => keeps_quiet hI hx hlabel) ?_ ?_ ?_
  · intro x a _ hp _ _ ha
    exact ⟨hp.lock, hR _ _ hlabel hp.past, hp.files, ha⟩
  · intro x e _ hp _ _ he
    exact ⟨hp.lock, hR _ _ hlabel hp.past, hp.files, .inl he⟩
  · intro x e hx hp hfault _
    exact ⟨keeps_quiet hI hx rfl, hp.lock, hR _ _ rfl hp.past, hp.files, .inr hfault⟩

/-- Reading what stays the same, without the lock. -/
theorem look_known (hI : KeptQuietly I) (hS : ∀ l e, S.faults l e = false)
    (hP : BoardStable S I t P) {label : BoardStep} (hlabel : label.isQuiet = true)
    (hown : ∀ x, P x → P (x.record (.ran t label) x.world))
    {result : BoardFiles → Except Failure α} {v : Except Failure α}
    (hvalue : ∀ x, I x → result x.world.files = v) :
    BoardSafe S I t (fun a x => v = .ok a ∧ P x) (fun e x => v = .error e ∧ P x)
      (look label result) P := by
  refine .action hP (fun x hx _ _ _ => keeps_quiet hI hx hlabel) ?_ ?_ ?_
  · intro x a hx hp _ _ ha
    exact ⟨(hvalue x hx).symm.trans ha, hown x hp⟩
  · intro x e hx hp _ _ he
    exact ⟨(hvalue x hx).symm.trans he, hown x hp⟩
  · intro x e _ _ he _
    rw [hS] at he
    cases he

/-- Changing the files under the lock. -/
theorem change_safe (hI : KeptQuietly I) (hR : Enduring R) {label : BoardStep}
    {effect : BoardFiles → BoardFiles}
    (hstep : ∀ x, I x → Holding t R p x →
      I (x.record (.ran t label) { x.world with files := effect x.world.files }))
    (hpast : ∀ es, R es → R' (.ran t label :: es)) (hfiles : ∀ f, p f → p' (effect f)) :
    BoardSafe S I t (fun _ => Holding t R' p') (fun _ => Holding t R p) (change label effect)
      (Holding t R p) := by
  refine .action (holding_stable hR) (fun x hx hp _ _ => ?_) (fun x _ _ hp _ _ _ => ?_)
    (fun _ _ _ _ _ _ h => nomatch h) fun x _ hx hp _ _ => ?_
  · exact keeps_of_holder hp.lock (hstep x hx hp)
  · exact ⟨hp.lock, hpast _ hp.past, hfiles _ hp.files⟩
  · exact ⟨keeps_quiet hI hx rfl, holding_failed hR hp label⟩

/-- Changing the files under the lock, where nothing fails. -/
theorem change_always (hS : ∀ l e, S.faults l e = false) (hR : Enduring R)
    {E : Failure → Snapshot BoardWorld BoardStep → Prop} {label : BoardStep}
    {effect : BoardFiles → BoardFiles}
    (hstep : ∀ x, I x → Holding t R p x →
      I (x.record (.ran t label) { x.world with files := effect x.world.files }) ∧
        R' (.ran t label :: x.trace) ∧ p' (effect x.world.files)) :
    BoardSafe S I t (fun _ => Holding t R' p') E (change label effect) (Holding t R p) := by
  refine .action (holding_stable hR) (fun x hx hp _ _ => ?_) (fun x _ hx hp _ _ _ => ?_)
    (fun _ _ _ _ _ _ h => nomatch h) fun x e _ _ he _ => ?_
  · exact keeps_of_holder hp.lock (hstep x hx hp).1
  · obtain ⟨-, hpast, hfiles⟩ := hstep x hx hp
    exact ⟨hp.lock, hpast, hfiles⟩
  · rw [hS] at he
    cases he

/-! ## The lock -/

/-- The world with nobody at the lock. -/
def BoardWorld.unlocked (w : BoardWorld) : BoardWorld := { w with lock := none }

/-- A section under the lock: what holds on entering, what its body ends with, and what is
left of that behind the release, or where the release fails. -/
theorem withWriterLock_safe (hI : KeptQuietly I) {body : BoardProg α}
    {Q : α → Snapshot BoardWorld BoardStep → Prop} {RA : α → List (Event BoardStep) → Prop}
    {pA : α → BoardFiles → Prop} {RE : List (Event BoardStep) → Prop} {pE : BoardFiles → Prop}
    (hP : BoardStable S I t P) (hRA : ∀ a, Enduring (RA a)) (hRE : Enduring RE)
    (henter : ∀ x, I x → P x → x.world.lock = none →
      I (x.record (.ran t .acquired) { x.world with lock := some t }) ∧
        R (.ran t .acquired :: x.trace) ∧ p x.world.files)
    (henterFailed : ∀ x, I x → P x → E (x.record (.failed t .acquired) x.world))
    (hleave : ∀ a x, I x → Holding t (RA a) (pA a) x →
      I (x.record (.ran t .released) x.world.unlocked) ∧
        Q a (x.record (.ran t .released) x.world.unlocked))
    (hleaveFailed : ∀ a x e, S.faults .released e = true → I x → Holding t (RA a) (pA a) x →
      E (x.record (.failed t .released) x.world))
    (hgiveUp : ∀ x, I x → Holding t RE pE x →
      I (x.record (.ran t .released) x.world.unlocked) ∧
        E (x.record (.ran t .released) x.world.unlocked) ∧
        E (x.record (.failed t .released) x.world))
    (hbody : BoardSafe S I t (fun a => Holding t (RA a) (pA a)) (fun _ => Holding t RE pE) body
      (Holding t R p)) :
    BoardSafe S I t Q (fun _ => E) (withWriterLock t body) P := by
  refine Contract.Safe.bind (R := fun _ => Holding t R p) ?_ fun _ =>
    hbody.finallyDo (fun a => ?_) fun _ => ?_
  · refine .action hP (fun x hx hp hready _ => ?_) (fun x _ hx hp hready _ _ => ?_)
      (fun _ _ _ _ _ _ h => nomatch h) fun x _ hx hp _ _ => ?_
    · have hfree : x.world.lock = none := Option.isNone_iff_eq_none.mp hready
      refine ⟨(henter x hx hp hfree).1, fun u _ hu => ?_⟩
      rw [hfree] at hu
      cases hu
    · obtain ⟨-, hpast, hfiles⟩ := henter x hx hp (Option.isNone_iff_eq_none.mp hready)
      exact ⟨rfl, hpast, hfiles⟩
    · exact ⟨keeps_quiet hI hx rfl, henterFailed x hx hp⟩
  · refine .action (holding_stable (hRA a)) (fun x hx hp _ _ => ?_)
      (fun x _ hx hp _ _ _ => (hleave a x hx hp).2) (fun _ _ _ _ _ _ h => nomatch h)
      fun x e hx hp he _ => ⟨keeps_quiet hI hx rfl, hleaveFailed a x e he hx hp⟩
    exact keeps_of_holder hp.lock (hleave a x hx hp).1
  · refine .action (holding_stable hRE) (fun x hx hp _ _ => ?_)
      (fun x _ hx hp _ _ _ => (hgiveUp x hx hp).2.1) (fun _ _ _ _ _ _ h => nomatch h)
      fun x _ hx hp _ _ => ⟨keeps_quiet hI hx rfl, (hgiveUp x hx hp).2.2⟩
    exact keeps_of_holder hp.lock (hgiveUp x hx hp).1

/-! ## The boardroom that is read -/

/-- What `readBoardroomUnlocked` reads. -/
def BoardFiles.loaded (files : BoardFiles) : Except Failure Boardroom :=
  match files.readBoardroom with
  | .error .notFound => files.projectRoom
  | read => read

/-- Under the lock the boardroom that is there is read. -/
theorem readBoardroomUnlocked_safe (hI : KeptQuietly I) (hR : Enduring R)
    (hfaults : ∀ l, S.faults l .notFound = false) :
    BoardSafe S I t (fun current => Holding t R fun f => p f ∧ f.loaded = .ok current)
      (fun _ => Holding t R p) readBoardroomUnlocked (Holding t R p) := by
  refine Contract.Safe.catchErr (R := fun e => Holding t R fun f => p f ∧
    (f.readBoardroom = .error e ∨ S.faults .readBoardroom e = true)) ?_ fun e => ?_
  · refine (look_safe hI hR rfl BoardFiles.readBoardroom).conseq (fun _ _ h => h)
      (fun current x _ h => ⟨h.lock, h.past, h.files.1, ?_⟩) fun _ _ _ h => h
    rw [BoardFiles.loaded, h.files.2]
  · by_cases he : e = .notFound
    · subst he
      rw [if_pos rfl]
      refine (look_safe hI hR rfl BoardFiles.projectRoom).conseq (fun _ _ h => h)
        (fun current x _ h => ⟨h.lock, h.past, h.files.1.1, ?_⟩)
        fun _ x _ h => ⟨h.lock, h.past, h.files.1.1⟩
      obtain ⟨⟨-, hmissing⟩, hroom⟩ := h.files
      rw [hfaults] at hmissing
      rw [BoardFiles.loaded, hmissing.resolve_right Bool.false_ne_true]
      exact hroom
    · rw [if_neg he]
      exact fun x _ h => ⟨h.lock, h.past, h.files.1⟩

end Rules

end AgentGather.Storage.Boards
