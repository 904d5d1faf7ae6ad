import AgentGather.Library.Monitor

/-!
# Policies

A policy says what a thread may do next, given the steps it has made.  A program obeys a policy
if no step of it is against the policy, whatever the world is like.  Where all programs obey,
every thread of every run has done only what it might.
-/

namespace AgentGather.Library

/-! ## Labels -/

namespace Prog

variable {σ ℓ ε α β : Type} {X : ℓ → Prop} {F : α → Prop} {G : β → Prop}

/-- Whatever the program announces is in `X`, and whatever it returns is in `F`. -/
def Does (X : ℓ → Prop) (F : α → Prop) : Prog σ ℓ ε α → Prop
  | ret a => F a
  | err _ => True
  | act label _ _ next failed =>
      (∀ w, X (label w)) ∧ (∀ w, Does X F (next w)) ∧ ∀ e, Does X F (failed e)

/-- Whatever the program announces is in `X`. -/
abbrev Announces (X : ℓ → Prop) : Prog σ ℓ ε α → Prop := Does X fun _ => True

theorem Does.bind {p : Prog σ ℓ ε α} {f : α → Prog σ ℓ ε β} (hp : p.Does X F)
    (hf : ∀ a, F a → (f a).Does X G) : (p.bind f).Does X G := by
  induction p with
  | ret a => exact hf a hp
  | err e => trivial
  | act label ready effect next failed ihn ihf =>
      exact ⟨hp.1, fun w => ihn w (hp.2.1 w), fun e => ihf e (hp.2.2 e)⟩

/-- A first part of which no more is known. -/
theorem Does.andThen {p : Prog σ ℓ ε α} {f : α → Prog σ ℓ ε β} (hp : p.Announces X)
    (hf : ∀ a, (f a).Does X G) : (p.bind f).Does X G := hp.bind fun a _ => hf a

theorem Does.catchErr {p : Prog σ ℓ ε α} {h : ε → Prog σ ℓ ε α} (hp : p.Does X F)
    (hh : ∀ e, (h e).Does X F) : (p.catchErr h).Does X F := by
  induction p with
  | ret a => exact hp
  | err e => exact hh e
  | act label ready effect next failed ihn ihf =>
      exact ⟨hp.1, fun w => ihn w (hp.2.1 w), fun e => ihf e (hp.2.2 e)⟩

theorem Does.finallyDo {p : Prog σ ℓ ε α} {q : Prog σ ℓ ε Unit} (hp : p.Does X F)
    (hq : q.Announces X) : (p.finallyDo q).Does X F := by
  induction p with
  | ret a => exact hq.bind fun _ _ => hp
  | err e => exact hq.bind fun _ _ => trivial
  | act label ready effect next failed ihn ihf =>
      exact ⟨hp.1, fun w => ihn w (hp.2.1 w), fun e => ihf e (hp.2.2 e)⟩

theorem Does.ofExcept {r : Except ε α} (h : ∀ a, r = .ok a → F a) :
    (Prog.ofExcept r : Prog σ ℓ ε α).Does X F := by
  cases r with
  | ok a => exact h a rfl
  | error e => trivial

theorem Does.checked {r : Except ε α} {f : α → Prog σ ℓ ε β}
    (hf : ∀ a, r = .ok a → (f a).Does X G) : ((Prog.ofExcept r).bind f).Does X G :=
  (ofExcept fun _ h => h).bind hf

theorem Does.action {label : σ → ℓ} {ready : σ → Bool} {effect : σ → σ}
    {result : σ → Except ε α} (h : ∀ w, X (label w)) :
    (Prog.action label ready effect result).Announces X :=
  ⟨h, fun _ => .ofExcept fun _ _ => trivial, fun _ => trivial⟩

/-! ## At once -/

/-- Two programs at once: the schedule says whose step is next, `true` for the first, and the
first error is that of both. -/
def both : List Bool → Prog σ ℓ ε α → Prog σ ℓ ε β → Prog σ ℓ ε (α × β)
  | _, err e, _ => err e
  | _, ret a, q => q.bind fun b => ret (a, b)
  | _, _, err e => err e
  | _, p, ret b => p.bind fun a => ret (a, b)
  | [], p, q => p.bind fun a => q.bind fun b => ret (a, b)
  | true :: schedule, act label ready effect next failed, q =>
      act label ready effect (fun w => both schedule (next w) q) fun e => both schedule (failed e) q
  | false :: schedule, p, act label ready effect next failed =>
      act label ready effect (fun w => both schedule p (next w)) fun e => both schedule p (failed e)

theorem Does.both {p : Prog σ ℓ ε α} {q : Prog σ ℓ ε β} (hp : p.Announces X)
    (hq : q.Announces X) (schedule : List Bool) : (Prog.both schedule p q).Announces X := by
  induction schedule generalizing p q with
  | nil =>
      cases p with
      | err e => trivial
      | ret a => exact hq.andThen fun _ => trivial
      | act =>
          cases q with
          | err e => trivial
          | ret b => exact hp.andThen fun _ => trivial
          | act => exact hp.andThen fun _ => hq.andThen fun _ => trivial
  | cons first schedule ih =>
      cases p with
      | err e => trivial
      | ret a => exact hq.andThen fun _ => trivial
      | act label ready effect next failed =>
          cases q with
          | err e => trivial
          | ret b => exact hp.andThen fun _ => trivial
          | act label' ready' effect' next' failed' =>
              cases first with
              | true => exact ⟨hp.1, fun w => ih (hp.2.1 w) hq, fun e => ih (hp.2.2 e) hq⟩
              | false => exact ⟨hq.1, fun w => ih hp (hq.2.1 w), fun e => ih hp (hq.2.2 e)⟩

/-! ## Parts of a world -/

/-- How a part of a world is read and written. -/
structure Part (σ τ : Type) where
  read : σ → τ
  write : σ → τ → σ
  read_write : ∀ w v, read (write w v) = v

variable {τ κ : Type} (part : Part τ σ) (inj : ℓ → κ)

/-- The program in a world of which its own is a part. -/
def lift : Prog σ ℓ ε α → Prog τ κ ε α
  | ret a => ret a
  | err e => err e
  | act label ready effect next failed =>
      act (fun w => inj (label (part.read w))) (fun w => ready (part.read w))
        (fun w => part.write w (effect (part.read w))) (fun w => lift (next (part.read w)))
        fun e => lift (failed e)

variable {part : Part τ σ} {inj : ℓ → κ} {Z : κ → Prop}

/-- Alone, the program returns what it returns in its own world. -/
theorem runAlone_lift (p : Prog σ ℓ ε α) (w : τ) :
    ((p.lift part inj).runAlone w).1 = (p.runAlone (part.read w)).1 := by
  induction p generalizing w with
  | ret a => rfl
  | err e => rfl
  | act label ready effect next failed ihn ihf =>
      have hnext := ihn (part.read w) (part.write w (effect (part.read w)))
      rw [part.read_write] at hnext
      exact hnext

theorem Does.lift {p : Prog σ ℓ ε α} (h : p.Does (fun l => Z (inj l)) F) :
    (p.lift part inj).Does Z F := by
  induction p with
  | ret a => exact h
  | err e => trivial
  | act label ready effect next failed ihn ihf =>
      exact ⟨fun w => h.1 _, fun w => ihn _ (h.2.1 _), fun e => ihf e (h.2.2 e)⟩

end Prog

/-! ## Policies -/

/-- Whether the step may follow the steps made so far, the latest first. -/
abbrev Policy (ℓ : Type) := List ℓ → ℓ → Prop

/-- The steps that a thread has made, the latest first. -/
def stepsOf {ℓ : Type} (t : Nat) : List (Event ℓ) → List ℓ
  | [] => []
  | .ran u l :: es => if u = t then l :: stepsOf t es else stepsOf t es
  | _ :: es => stepsOf t es

namespace Policy

variable {σ ℓ ε α β : Type}

/-- No step was against the policy when it was made. -/
def Obeyed (P : Policy ℓ) : List ℓ → Prop
  | [] => True
  | l :: steps => P steps l ∧ Obeyed P steps

open Classical in
/-- The monitor that remembers the steps and refuses those that are against the policy. -/
noncomputable def monitor (P : Policy ℓ) : Monitor ℓ (List ℓ) where
  step steps l := if P steps l then some (l :: steps) else none
  fault := id

/-- From steps as `I` says the program does what it may, and it ends as `Q` or `E` says. -/
def Obeys (P : Policy ℓ) (I : List ℓ → Prop) (Q : α → List ℓ → Prop) (E : ε → List ℓ → Prop)
    (p : Prog σ ℓ ε α) : Prop :=
  ∀ steps, I steps → P.monitor.Follows (fun _ => True) Q E p steps

variable {P : Policy ℓ} {I J : List ℓ → Prop} {Q : α → List ℓ → Prop} {E : ε → List ℓ → Prop}

theorem monitor_step {steps : List ℓ} {l : ℓ} (h : P steps l) :
    P.monitor.step steps l = some (l :: steps) := if_pos h

theorem of_monitor_step {steps steps' : List ℓ} {l : ℓ}
    (h : P.monitor.step steps l = some steps') : P steps l ∧ steps' = l :: steps := by
  unfold monitor at h
  dsimp only at h
  split_ifs at h with hP
  exact ⟨hP, (Option.some.inj h).symm⟩

/-! ## Rules -/

theorem Obeys.conseq {Q' : α → List ℓ → Prop} {E' : ε → List ℓ → Prop} {p : Prog σ ℓ ε α}
    (h : P.Obeys I Q E p) (hI : ∀ steps, J steps → I steps)
    (hQ : ∀ a steps, Q a steps → Q' a steps) (hE : ∀ e steps, E e steps → E' e steps) :
    P.Obeys J Q' E' p := fun steps hJ => (h steps (hI steps hJ)).conseq hQ hE

theorem Obeys.pre {p : Prog σ ℓ ε α} (h : P.Obeys I Q E p) (hI : ∀ steps, J steps → I steps) :
    P.Obeys J Q E p := h.conseq hI (fun _ _ h => h) fun _ _ h => h

theorem Obeys.ret {a : α} (h : ∀ steps, I steps → Q a steps) :
    P.Obeys I Q E (.ret a : Prog σ ℓ ε α) := h

theorem Obeys.err {e : ε} (h : ∀ steps, I steps → E e steps) :
    P.Obeys I Q E (.err e : Prog σ ℓ ε α) := h

theorem Obeys.done {a : α} : P.Obeys I (fun _ => I) E (.ret a : Prog σ ℓ ε α) :=
  ret fun _ hI => hI

theorem Obeys.thrown {e : ε} : P.Obeys I Q (fun _ => I) (.err e : Prog σ ℓ ε α) :=
  err fun _ hI => hI

theorem Obeys.bind {R : β → List ℓ → Prop} {p : Prog σ ℓ ε α} {f : α → Prog σ ℓ ε β}
    (hp : P.Obeys I Q E p) (hf : ∀ a, P.Obeys (Q a) R E (f a)) : P.Obeys I R E (p.bind f) :=
  fun steps hI => (hp steps hI).bind hf

theorem Obeys.catchErr {E' : ε → List ℓ → Prop} {p : Prog σ ℓ ε α} {f : ε → Prog σ ℓ ε α}
    (hp : P.Obeys I Q E p) (hf : ∀ e, P.Obeys (E e) Q E' (f e)) :
    P.Obeys I Q E' (p.catchErr f) := fun steps hI => (hp steps hI).catchErr hf

/-- The final part is run on both exits. -/
theorem Obeys.finallyDo {p : Prog σ ℓ ε α} {q : Prog σ ℓ ε Unit} (hp : P.Obeys I Q E p)
    (hok : ∀ a, P.Obeys (Q a) (fun _ => Q a) E q)
    (herr : ∀ e, P.Obeys (E e) (fun _ => E e) E q) : P.Obeys I Q E (p.finallyDo q) :=
  fun steps hI => (hp steps hI).finallyDo hok herr

/-- The outcome of a pure computation on the way. -/
theorem Obeys.bind_ofExcept {r : Except ε α} {f : α → Prog σ ℓ ε β} {R : β → List ℓ → Prop}
    (hok : ∀ a, r = .ok a → P.Obeys I R E (f a))
    (herr : ∀ e, r = .error e → ∀ steps, I steps → E e steps) :
    P.Obeys I R E ((Prog.ofExcept r).bind f) := by
  cases hr : r with
  | ok a => exact hok a hr
  | error e => exact err (herr e hr)

theorem Obeys.checked {r : Except ε α} {f : α → Prog σ ℓ ε β} {R : β → List ℓ → Prop}
    (hf : ∀ a, r = .ok a → P.Obeys I R (fun _ => I) (f a)) :
    P.Obeys I R (fun _ => I) ((Prog.ofExcept r).bind f) :=
  bind_ofExcept hf fun _ _ _ hI => hI

/-- One step, with what it finds. -/
theorem Obeys.action {label : σ → ℓ} {ready : σ → Bool} {effect : σ → σ}
    {result : σ → Except ε α} (hstep : ∀ steps w, I steps → P steps (label w))
    (hok : ∀ steps w a, I steps → result w = .ok a → Q a (label w :: steps))
    (herr : ∀ steps w e, I steps → result w = .error e → E e (label w :: steps))
    (hfail : ∀ steps e, I steps → E e steps) :
    P.Obeys I Q E (Prog.action label ready effect result) := fun steps hI =>
  .action (fun w _ _ => ⟨_, monitor_step (hstep steps w hI), fun a ha => hok steps w a hI ha,
    fun e he => herr steps w e hI he⟩) fun e => hfail steps e hI

/-- A program whose steps may be made at any time. -/
theorem Obeys.of_does {X : ℓ → Prop} {F : α → Prop} {p : Prog σ ℓ ε α} (h : p.Does X F)
    (hX : ∀ steps l, I steps → X l → P steps l ∧ I (l :: steps)) :
    P.Obeys I (fun a steps => I steps ∧ F a) (fun _ => I) p := by
  induction p with
  | ret a => exact .ret fun _ hI => ⟨hI, h⟩
  | err e => exact .err fun _ hI => hI
  | act label ready effect next failed ihn ihf =>
      intro steps hI
      refine ⟨fun w _ _ => ?_, fun e => ihf e (h.2.2 e) steps hI⟩
      obtain ⟨hP, hI'⟩ := hX steps (label w) hI (h.1 w)
      exact ⟨_, monitor_step hP, ihn w (h.2.1 w) _ hI'⟩

theorem Obeys.trivially (p : Prog σ ℓ ε α) :
    Policy.Obeys (fun _ _ => True) I (fun _ _ => True) (fun _ _ => True) p := by
  induction p generalizing I with
  | ret a => exact .ret fun _ _ => trivial
  | err e => exact .err fun _ _ => trivial
  | act label ready effect next failed ihn ihf =>
      refine fun steps hI => ⟨fun w _ _ => ⟨_, monitor_step trivial, ?_⟩, fun e => ihf e steps hI⟩
      exact ihn w (I := fun _ => True) (label w :: steps) trivial

/-- Obedience in a larger world, under a policy on the steps that are the program's own. -/
theorem Obeys.lift {τ κ : Type} {part : Prog.Part τ σ} {inj : ℓ → κ} {P' : Policy κ}
    {own : List κ → List ℓ} (hown : ∀ steps l, own (inj l :: steps) = l :: own steps)
    (hP : ∀ steps l, P (own steps) l → P' steps (inj l)) {p : Prog σ ℓ ε α}
    (h : P.Obeys I Q E p) : P'.Obeys (fun steps => I (own steps)) (fun a steps => Q a (own steps))
      (fun e steps => E e (own steps)) (p.lift part inj) := by
  intro steps hI
  have hfollows := h (own steps) hI
  clear h hI
  induction p generalizing steps with
  | ret a => exact hfollows
  | err e => exact hfollows
  | act label ready effect next failed ihn ihf =>
      refine ⟨fun w _ hready => ?_, fun e => ihf e steps (hfollows.2 e)⟩
      obtain ⟨steps', hstep, hnext⟩ := hfollows.1 (part.read w) trivial hready
      obtain ⟨hallowed, rfl⟩ := of_monitor_step hstep
      refine ⟨_, monitor_step (hP steps _ hallowed), ihn _ _ ?_⟩
      rw [hown]
      exact hnext

/-! ## Runs -/

theorem state_monitor {steps : List ℓ} {t : Nat} {es : List (Event ℓ)}
    (h : P.monitor.state [] t es = some steps) :
    steps = stepsOf t es ∧ P.Obeyed (stepsOf t es) := by
  induction es generalizing steps with
  | nil => exact ⟨(Option.some.inj h).symm, trivial⟩
  | cons e es ih =>
      cases e with
      | ran u l =>
          rw [Monitor.state] at h
          by_cases hu : u = t
          · rw [if_pos hu] at h
            obtain ⟨earlier, hearlier, hstep⟩ := Option.bind_eq_some_iff.mp h
            obtain ⟨rfl, hobeyed⟩ := ih hearlier
            obtain ⟨hP, rfl⟩ := of_monitor_step hstep
            rw [stepsOf, if_pos hu]
            exact ⟨rfl, hP, hobeyed⟩
          · rw [if_neg hu] at h
            rw [stepsOf, if_neg hu]
            exact ih h
      | failed u l =>
          rw [Monitor.state] at h
          split_ifs at h
          · obtain ⟨earlier, hearlier, rfl⟩ := Option.map_eq_some_iff.mp h
            exact ih hearlier
          · exact ih h
      | crashed p => exact ih h

/-- In a run of programs that obey, every thread has done what it might, and what is left of its
program will. -/
theorem sound {T : System σ ℓ ε} {c₀ c : Config σ ℓ ε α} (P : Nat → Policy ℓ)
    {Q : Nat → α → List ℓ → Prop} {E : Nat → ε → List ℓ → Prop} (htrace : c₀.snap.trace = [])
    (hstart : ∀ t p, System.thread c₀ t = some p → (P t).Obeys (· = []) (Q t) (E t) p)
    (h : T.Reachable c₀ c) (t : Nat) :
    (P t).Obeyed (stepsOf t c.snap.trace) ∧ ∀ p, System.thread c t = some p →
      (P t).monitor.Follows (fun _ => True) (Q t) (E t) p (stepsOf t c.snap.trace) := by
  obtain ⟨steps, hstate, hfollows⟩ := Monitor.sound (fun t => (P t).monitor) htrace
    (fun _ _ => trivial) (fun t p hp => hstart t p hp [] rfl) h t
  obtain ⟨rfl, hobeyed⟩ := state_monitor hstate
  exact ⟨hobeyed, hfollows⟩

end Policy

end AgentGather.Library
