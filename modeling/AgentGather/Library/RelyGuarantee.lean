import AgentGather.Library.Interleaving

/-!
# Rely–guarantee reasoning about interleaved programs

A `Contract` fixes an invariant and what a single event may do to a snapshot.  A
program is `Safe` for a thread when each of its actions keeps the invariant and the
guarantee, using only assertions that the events of other threads cannot falsify.
`Contract.Safe` is proved along the structure of a program, by the rules for
sequencing, error handling and single actions below; `Contract.sound` then carries the
invariant through every interleaved run.
-/

namespace AgentGather.Library

/-- An invariant, what one event may do to a snapshot, and the run condition. -/
structure Contract (σ ℓ : Type) where
  inv : Snapshot σ ℓ → Prop
  guar : Event ℓ → Snapshot σ ℓ → σ → Prop
  allow : Event ℓ → Snapshot σ ℓ → Prop

namespace System

variable {σ ℓ ε : Type}

/-- Event `e` is not an event of thread `t`, nor the crash that takes it away. -/
def Foreign (S : System σ ℓ ε) (t : Nat) : Event ℓ → Prop
  | .ran u _ => u ≠ t
  | .failed u _ => u ≠ t
  | .crashed p => S.process t ≠ p

/-- A thread that is gone was gone before, or its process crashed. -/
theorem gone_cases {S : System σ ℓ ε} {α : Type} {c c' : Config σ ℓ ε α} {m : Move ε}
    {e : Event ℓ} (h : S.next c m = some (e, c')) {t : Nat} (ht : thread c' t = none) :
    (thread c t = none ∧ S.Foreign t e) ∨ e = .crashed (S.process t) := by
  have hset {u : Nat} {p : Prog σ ℓ ε α} {x : Snapshot σ ℓ} (hu : (thread c u).isSome)
      (hnone : thread ⟨x, c.threads.set u (some p)⟩ t = none) :
      thread c t = none ∧ u ≠ t := by
    by_cases htu : u = t
    · subst u
      rw [thread, List.getElem?_set_self'] at hnone
      obtain ⟨q, hq⟩ := Option.isSome_iff_exists.mp hu
      rw [Option.join_eq_some_iff.mp hq] at hnone
      cases hnone
    · rw [thread_set_ne (Ne.symm htu)] at hnone
      exact ⟨hnone, htu⟩
  obtain ⟨u, label, ready, effect, k, kf, hth, -, rfl, rfl⟩ |
    ⟨u, err, label, ready, effect, k, kf, hth, -, rfl, rfl⟩ | ⟨p, damage, -, rfl, rfl⟩ :=
    next_cases h
  · exact .inl (hset (by simp [hth]) ht)
  · exact .inl (hset (by simp [hth]) ht)
  · by_cases hp : S.process t = p
    · exact .inr (by rw [hp])
    · left
      refine ⟨?_, hp⟩
      simp only [thread, killed, List.getElem?_mapIdx] at ht ⊢
      cases hcase : c.threads[t]? with
      | none => rfl
      | some o => simpa [hcase, hp] using ht

/-- Where nothing crashed, no thread is gone. -/
theorem isSome_thread_of_noCrash {S : System σ ℓ ε} {α : Type} {c₀ c : Config σ ℓ ε α}
    (h : S.Reachable c₀ c) (hcrash : ∀ p, .crashed p ∉ c.snap.trace) {t : Nat}
    (ht : (thread c₀ t).isSome) : (thread c t).isSome := by
  induction h with
  | start => exact ht
  | step m _ hnext _ ih =>
      rw [next_trace hnext] at hcrash
      have hbefore := ih fun p hp => hcrash p (List.mem_cons_of_mem _ hp)
      by_contra hgone
      rw [Option.not_isSome_iff_eq_none] at hgone
      rcases gone_cases hnext hgone with ⟨hnone, -⟩ | rfl
      · rw [hnone] at hbefore
        cases hbefore
      · exact hcrash _ List.mem_cons_self

end System

namespace Contract

variable {σ ℓ ε α β : Type} (D : Contract σ ℓ) (S : System σ ℓ ε)

/-- Event `e`, leaving the world as `w`, keeps the invariant and the guarantee. -/
def Keeps (e : Event ℓ) (x : Snapshot σ ℓ) (w : σ) : Prop :=
  D.inv (x.record e w) ∧ D.guar e x w

/-- No event of another thread falsifies `P`. -/
def Stable (t : Nat) (P : Snapshot σ ℓ → Prop) : Prop :=
  ∀ e x w, S.Foreign t e → D.inv x → D.inv (x.record e w) → D.guar e x w → P x →
    P (x.record e w)

/-- Started by thread `t` where `P` holds, the program keeps the contract, ends with
`Q` when it returns and with `E` when it throws. -/
def Safe (t : Nat) (Q : α → Snapshot σ ℓ → Prop) (E : ε → Snapshot σ ℓ → Prop) :
    Prog σ ℓ ε α → (Snapshot σ ℓ → Prop) → Prop
  | .ret a, P => ∀ x, D.inv x → P x → Q a x
  | .err e, P => ∀ x, D.inv x → P x → E e x
  | .act label ready effect next failed, P =>
      ∃ P' : Snapshot σ ℓ → Prop, (∀ x, D.inv x → P x → P' x) ∧ D.Stable S t P' ∧
        (∀ x, D.inv x → P' x → ready x.world = true → D.allow (.ran t (label x.world)) x →
          D.Keeps (.ran t (label x.world)) x (effect x.world)) ∧
        (∀ w, Safe t Q E (next w) fun y =>
          ∃ x, D.inv x ∧ P' x ∧ x.world = w ∧ ready w = true ∧
            D.allow (.ran t (label w)) x ∧ y = x.record (.ran t (label w)) (effect w)) ∧
        (∀ l err, S.faults l err = true →
          (∀ x, D.inv x → P' x → label x.world = l → D.allow (.failed t l) x →
            D.Keeps (.failed t l) x x.world) ∧
          Safe t Q E (failed err) fun y =>
            ∃ x, D.inv x ∧ P' x ∧ label x.world = l ∧ D.allow (.failed t l) x ∧
              y = x.record (.failed t l) x.world)

variable {D S} {t : Nat}

/-- Consequence: weaker requirements, stronger starting assertion. -/
theorem Safe.conseq {Q Q' : α → Snapshot σ ℓ → Prop} {E E' : ε → Snapshot σ ℓ → Prop}
    {p : Prog σ ℓ ε α} {P P' : Snapshot σ ℓ → Prop} (h : D.Safe S t Q E p P)
    (hP : ∀ x, D.inv x → P' x → P x) (hQ : ∀ a x, D.inv x → Q a x → Q' a x)
    (hE : ∀ e x, D.inv x → E e x → E' e x) : D.Safe S t Q' E' p P' := by
  induction p generalizing P P' with
  | ret a => exact fun x hi hp => hQ a x hi (h x hi (hP x hi hp))
  | err e => exact fun x hi hp => hE e x hi (h x hi (hP x hi hp))
  | act label ready effect next failed ihn ihf =>
      obtain ⟨R, hpre, hstable, hkeep, hnext, hfail⟩ := h
      refine ⟨R, fun x hi hp => hpre x hi (hP x hi hp), hstable, hkeep,
        fun w => ihn w (hnext w) fun _ _ hx => hx, fun l err hl => ?_⟩
      exact ⟨(hfail l err hl).1, ihf err (hfail l err hl).2 fun _ _ hx => hx⟩

theorem Safe.pre {Q : α → Snapshot σ ℓ → Prop} {E : ε → Snapshot σ ℓ → Prop}
    {p : Prog σ ℓ ε α} {P P' : Snapshot σ ℓ → Prop} (h : D.Safe S t Q E p P)
    (hP : ∀ x, D.inv x → P' x → P x) : D.Safe S t Q E p P' :=
  h.conseq hP (fun _ _ _ hq => hq) fun _ _ _ he => he

/-- Sequencing: the continuation is safe from what the first part ends with. -/
theorem Safe.bind {R : α → Snapshot σ ℓ → Prop} {Q : β → Snapshot σ ℓ → Prop}
    {E : ε → Snapshot σ ℓ → Prop} {p : Prog σ ℓ ε α} {f : α → Prog σ ℓ ε β}
    {P : Snapshot σ ℓ → Prop} (hp : D.Safe S t R E p P)
    (hf : ∀ a, D.Safe S t Q E (f a) (R a)) : D.Safe S t Q E (p.bind f) P := by
  induction p generalizing P with
  | ret a => exact (hf a).pre hp
  | err e => exact hp
  | act label ready effect next failed ihn ihf =>
      obtain ⟨P', hpre, hstable, hkeep, hnext, hfail⟩ := hp
      exact ⟨P', hpre, hstable, hkeep, fun w => ihn w (hnext w),
        fun l err hl => ⟨(hfail l err hl).1, ihf err (hfail l err hl).2⟩⟩

/-- Handling errors: the handler is safe from what the body throws with. -/
theorem Safe.catchErr {Q : α → Snapshot σ ℓ → Prop} {R E : ε → Snapshot σ ℓ → Prop}
    {p : Prog σ ℓ ε α} {h : ε → Prog σ ℓ ε α} {P : Snapshot σ ℓ → Prop}
    (hp : D.Safe S t Q R p P) (hh : ∀ e, D.Safe S t Q E (h e) (R e)) :
    D.Safe S t Q E (p.catchErr h) P := by
  induction p generalizing P with
  | ret a => exact hp
  | err e => exact (hh e).pre hp
  | act label ready effect next failed ihn ihf =>
      obtain ⟨P', hpre, hstable, hkeep, hnext, hfail⟩ := hp
      exact ⟨P', hpre, hstable, hkeep, fun w => ihn w (hnext w),
        fun l err hl => ⟨(hfail l err hl).1, ihf err (hfail l err hl).2⟩⟩

/-- A final part is safe from either exit of the body. -/
theorem Safe.finallyDo {R Q : α → Snapshot σ ℓ → Prop} {F E : ε → Snapshot σ ℓ → Prop}
    {p : Prog σ ℓ ε α} {q : Prog σ ℓ ε Unit} {P : Snapshot σ ℓ → Prop}
    (hp : D.Safe S t R F p P) (hok : ∀ a, D.Safe S t (fun _ => Q a) E q (R a))
    (herr : ∀ e, D.Safe S t (fun _ => E e) E q (F e)) :
    D.Safe S t Q E (p.finallyDo q) P := by
  induction p generalizing P with
  | ret a => exact ((hok a).pre hp).bind fun _ _ _ hq => hq
  | err e => exact ((herr e).pre hp).bind fun _ _ _ he => he
  | act label ready effect next failed ihn ihf =>
      obtain ⟨P', hpre, hstable, hkeep, hnext, hfail⟩ := hp
      exact ⟨P', hpre, hstable, hkeep, fun w => ihn w (hnext w),
        fun l err hl => ⟨(hfail l err hl).1, ihf err (hfail l err hl).2⟩⟩

theorem Safe.ret {Q : α → Snapshot σ ℓ → Prop} {E : ε → Snapshot σ ℓ → Prop} {a : α} :
    D.Safe S t Q E (.ret a) (Q a) := fun _ _ hq => hq

theorem Safe.err {Q : α → Snapshot σ ℓ → Prop} {E : ε → Snapshot σ ℓ → Prop} {e : ε} :
    D.Safe S t Q E (.err e : Prog σ ℓ ε α) (E e) := fun _ _ he => he

/-- Returning where the postcondition holds already. -/
theorem Safe.done {Q : α → Snapshot σ ℓ → Prop} {E : ε → Snapshot σ ℓ → Prop} {a : α}
    {P : Snapshot σ ℓ → Prop} (h : ∀ x, D.inv x → P x → Q a x) :
    D.Safe S t Q E (.ret a : Prog σ ℓ ε α) P := h

theorem Safe.ofExcept {Q : α → Snapshot σ ℓ → Prop} {E : ε → Snapshot σ ℓ → Prop}
    {r : Except ε α} {P : Snapshot σ ℓ → Prop}
    (hok : ∀ a, r = .ok a → ∀ x, D.inv x → P x → Q a x)
    (herr : ∀ e, r = .error e → ∀ x, D.inv x → P x → E e x) :
    D.Safe S t Q E (Prog.ofExcept r) P := by
  cases r with
  | ok a => exact hok a rfl
  | error e => exact herr e rfl

/-- Going on with the outcome of a pure computation. -/
theorem Safe.bind_ofExcept {Q : β → Snapshot σ ℓ → Prop} {E : ε → Snapshot σ ℓ → Prop}
    {r : Except ε α} {f : α → Prog σ ℓ ε β} {P : Snapshot σ ℓ → Prop}
    (hok : ∀ a, r = .ok a → D.Safe S t Q E (f a) P)
    (herr : ∀ e, r = .error e → ∀ x, D.inv x → P x → E e x) :
    D.Safe S t Q E ((Prog.ofExcept r).bind f) P := by
  cases r with
  | ok a => exact hok a rfl
  | error e => exact herr e rfl

/-- One action from a stable assertion. -/
theorem Safe.action {Q : α → Snapshot σ ℓ → Prop} {E : ε → Snapshot σ ℓ → Prop}
    {label : σ → ℓ} {ready : σ → Bool} {effect : σ → σ} {result : σ → Except ε α}
    {P : Snapshot σ ℓ → Prop} (hstable : D.Stable S t P)
    (hkeep : ∀ x, D.inv x → P x → ready x.world = true →
      D.allow (.ran t (label x.world)) x →
      D.Keeps (.ran t (label x.world)) x (effect x.world))
    (hok : ∀ x a, D.inv x → P x → ready x.world = true →
      D.allow (.ran t (label x.world)) x → result x.world = .ok a →
      Q a (x.record (.ran t (label x.world)) (effect x.world)))
    (herr : ∀ x e, D.inv x → P x → ready x.world = true →
      D.allow (.ran t (label x.world)) x → result x.world = .error e →
      E e (x.record (.ran t (label x.world)) (effect x.world)))
    (hfail : ∀ x e, D.inv x → P x → S.faults (label x.world) e = true →
      D.allow (.failed t (label x.world)) x →
      D.Keeps (.failed t (label x.world)) x x.world ∧
        E e (x.record (.failed t (label x.world)) x.world)) :
    D.Safe S t Q E (Prog.action label ready effect result) P := by
  refine ⟨P, fun _ _ hp => hp, hstable, hkeep, fun w => ?_, fun l err hl => ⟨?_, ?_⟩⟩
  · apply Safe.ofExcept
    · rintro a ha _ - ⟨x, hi, hp, rfl, hr, hallow, rfl⟩
      exact hok x a hi hp hr hallow ha
    · rintro e he _ - ⟨x, hi, hp, rfl, hr, hallow, rfl⟩
      exact herr x e hi hp hr hallow he
  · rintro x hi hp rfl hallow
    exact (hfail x err hi hp hl hallow).1
  · rintro _ - ⟨x, hi, hp, rfl, hallow, rfl⟩
    exact (hfail x err hi hp hl hallow).2

/-- Assertions that mention only what foreign events leave alone are stable together. -/
theorem Stable.and {P Q : Snapshot σ ℓ → Prop} (hP : D.Stable S t P)
    (hQ : D.Stable S t Q) : D.Stable S t fun x => P x ∧ Q x :=
  fun e x w hf hi hi' hg hx => ⟨hP e x w hf hi hi' hg hx.1, hQ e x w hf hi hi' hg hx.2⟩

theorem Stable.of_const (P : Prop) : D.Stable S t fun _ => P :=
  fun _ _ _ _ _ _ _ hp => hp

/-- Nothing is owed where nothing is reached. -/
theorem Safe.vacuous {Q : α → Snapshot σ ℓ → Prop} {E : ε → Snapshot σ ℓ → Prop}
    (p : Prog σ ℓ ε α) : D.Safe S t Q E p fun _ => False := by
  induction p with
  | ret a => exact fun _ _ h => h.elim
  | err e => exact fun _ _ h => h.elim
  | act label ready effect next failed ihn ihf =>
      refine ⟨fun _ => False, fun _ _ h => h, fun _ _ _ _ _ _ _ h => h,
        fun _ _ h => h.elim, fun w => ?_, fun l err _ => ⟨fun _ _ h => h.elim, ?_⟩⟩
      · exact (ihn w).pre fun _ _ ⟨_, _, h, _⟩ => h
      · exact (ihf err).pre fun _ _ ⟨_, _, h, _⟩ => h

/-- A fact that is not about the snapshot may be used while proving safety. -/
theorem Safe.of_pure {Q : α → Snapshot σ ℓ → Prop} {E : ε → Snapshot σ ℓ → Prop}
    {p : Prog σ ℓ ε α} {P : Snapshot σ ℓ → Prop} {φ : Prop} (h : φ → D.Safe S t Q E p P) :
    D.Safe S t Q E p fun x => φ ∧ P x := by
  by_cases hφ : φ
  · exact (h hφ).pre fun _ _ hp => hp.2
  · exact (Safe.vacuous p).pre fun _ _ hp => hφ hp.1

/-- What holds of some value may be used for whichever it is. -/
theorem Safe.of_exists {Q : α → Snapshot σ ℓ → Prop} {E : ε → Snapshot σ ℓ → Prop}
    {p : Prog σ ℓ ε α} {γ : Type} {P : γ → Snapshot σ ℓ → Prop}
    (h : ∀ c, D.Safe S t Q E p (P c)) : D.Safe S t Q E p fun x => ∃ c, P c x := by
  induction p generalizing P with
  | ret a => exact fun x hi ⟨c, hp⟩ => h c x hi hp
  | err e => exact fun x hi ⟨c, hp⟩ => h c x hi hp
  | act label ready effect next failed ihn ihf =>
      choose P' hpre hstable hkeep hnext hfail using h
      refine ⟨fun x => ∃ c, P' c x, fun x hi ⟨c, hp⟩ => ⟨c, hpre c x hi hp⟩,
        fun e x w hf hi hi' hg ⟨c, hp⟩ => ⟨c, hstable c e x w hf hi hi' hg hp⟩,
        fun x hi ⟨c, hp⟩ => hkeep c x hi hp, fun w => ?_, fun l err hl => ⟨?_, ?_⟩⟩
      · refine (ihn w fun c => hnext c w).pre ?_
        rintro y - ⟨x, hi, ⟨c, hp⟩, hrest⟩
        exact ⟨c, x, hi, hp, hrest⟩
      · exact fun x hi ⟨c, hp⟩ => (hfail c l err hl).1 x hi hp
      · refine (ihf err fun c => (hfail c l err hl).2).pre ?_
        rintro y - ⟨x, hi, ⟨c, hp⟩, hrest⟩
        exact ⟨c, x, hi, hp, hrest⟩

/-- No event takes the fact back. -/
def Lasting (F : Snapshot σ ℓ → Prop) : Prop := ∀ x e w, F x → F (x.record e w)

/-- A lasting fact is carried through any safe program. -/
theorem Safe.frame {Q : α → Snapshot σ ℓ → Prop} {E : ε → Snapshot σ ℓ → Prop}
    {p : Prog σ ℓ ε α} {P F : Snapshot σ ℓ → Prop} (h : D.Safe S t Q E p P)
    (hF : Lasting F) :
    D.Safe S t (fun a x => Q a x ∧ F x) (fun e x => E e x ∧ F x) p fun x => P x ∧ F x := by
  induction p generalizing P with
  | ret a => exact fun x hi hp => ⟨h x hi hp.1, hp.2⟩
  | err e => exact fun x hi hp => ⟨h x hi hp.1, hp.2⟩
  | act label ready effect next failed ihn ihf =>
      obtain ⟨P', hpre, hstable, hkeep, hnext, hfail⟩ := h
      refine ⟨fun x => P' x ∧ F x, fun x hi hp => ⟨hpre x hi hp.1, hp.2⟩,
        hstable.and fun e x w _ _ _ _ hx => hF x e w hx,
        fun x hi hp => hkeep x hi hp.1, fun w => ?_, fun l err hl => ⟨?_, ?_⟩⟩
      · refine (ihn w (hnext w)).pre ?_
        rintro y - ⟨x, hi, ⟨hp, hf⟩, hw, hr, hallow, rfl⟩
        exact ⟨⟨x, hi, hp, hw, hr, hallow, rfl⟩, hF _ _ _ hf⟩
      · exact fun x hi hp => (hfail l err hl).1 x hi hp.1
      · refine (ihf err (hfail l err hl).2).pre ?_
        rintro y - ⟨x, hi, ⟨hp, hf⟩, hl', hallow, rfl⟩
        exact ⟨⟨x, hi, hp, hl', hallow, rfl⟩, hF _ _ _ hf⟩

/-- A thread that has ended as `Q` and `E` say, or will from a stable assertion that holds
now. -/
def Ends (D : Contract σ ℓ) (S : System σ ℓ ε) (t : Nat) (Q : α → Snapshot σ ℓ → Prop)
    (E : ε → Snapshot σ ℓ → Prop) (p : Prog σ ℓ ε α) (x : Snapshot σ ℓ) : Prop :=
  match p with
  | .ret a => Q a x
  | .err e => E e x
  | .act .. => ∃ P, D.Safe S t Q E p P ∧ D.Stable S t P ∧ P x

section Ends

variable {Q : α → Snapshot σ ℓ → Prop} {E : ε → Snapshot σ ℓ → Prop} {p : Prog σ ℓ ε α}
  {x : Snapshot σ ℓ}

theorem Ends.of_safe {P : Snapshot σ ℓ → Prop} (h : D.Safe S t Q E p P) (hi : D.inv x)
    (hp : P x) : D.Ends S t Q E p x := by
  cases p with
  | ret a => exact h x hi hp
  | err e => exact h x hi hp
  | act label ready effect next failed =>
      obtain ⟨P', hpre, hstable, hrest⟩ := h
      exact ⟨P', ⟨P', fun _ _ hx => hx, hstable, hrest⟩, hstable, hpre x hi hp⟩

/-- A foreign event that keeps the contract leaves a thread to its end. -/
theorem Ends.foreign {e : Event ℓ} {w : σ} (h : D.Ends S t Q E p x)
    (hQ : ∀ a, D.Stable S t (Q a)) (hE : ∀ err, D.Stable S t (E err)) (hf : S.Foreign t e)
    (hi : D.inv x) (hk : D.Keeps e x w) : D.Ends S t Q E p (x.record e w) := by
  cases p with
  | ret a => exact hQ a e x w hf hi hk.1 hk.2 h
  | err err => exact hE err e x w hf hi hk.1 hk.2 h
  | act label ready effect next failed =>
      obtain ⟨P, hsafe, hstable, hp⟩ := h
      exact ⟨P, hsafe, hstable, hstable e x w hf hi hk.1 hk.2 hp⟩

end Ends

/-- The invariant holds and every thread ends as is said of it. -/
def HoldsTo (D : Contract σ ℓ) (S : System σ ℓ ε) (Q : Nat → α → Snapshot σ ℓ → Prop)
    (E : Nat → ε → Snapshot σ ℓ → Prop) (c : Config σ ℓ ε α) : Prop :=
  D.inv c.snap ∧ ∀ t p, System.thread c t = some p → D.Ends S t (Q t) (E t) p c.snap

/-- A thread that is safe from a stable assertion that holds now. -/
def Live (D : Contract σ ℓ) (S : System σ ℓ ε) (t : Nat) (p : Prog σ ℓ ε α)
    (x : Snapshot σ ℓ) : Prop :=
  ∃ P Q E, D.Safe S t Q E p P ∧
    match p with
    | .act .. => D.Stable S t P ∧ P x
    | _ => True

theorem Live.of_safe {Q : α → Snapshot σ ℓ → Prop} {E : ε → Snapshot σ ℓ → Prop}
    {p : Prog σ ℓ ε α} {P : Snapshot σ ℓ → Prop} {x : Snapshot σ ℓ}
    (h : D.Safe S t Q E p P) (hi : D.inv x) (hp : P x) : D.Live S t p x := by
  cases p with
  | ret a => exact ⟨P, Q, E, h, trivial⟩
  | err e => exact ⟨P, Q, E, h, trivial⟩
  | act label ready effect next failed =>
      obtain ⟨P', hpre, hstable, hrest⟩ := h
      exact ⟨P', Q, E, ⟨P', fun _ _ hx => hx, hstable, hrest⟩, hstable, hpre x hi hp⟩

theorem live_iff_ends {p : Prog σ ℓ ε α} {x : Snapshot σ ℓ} :
    D.Live S t p x ↔ D.Ends S t (fun _ _ => True) (fun _ _ => True) p x := by
  cases p with
  | ret a =>
      exact ⟨fun _ => trivial, fun _ =>
        ⟨fun _ => True, fun _ _ => True, fun _ _ => True, fun _ _ h => h, trivial⟩⟩
  | err e =>
      exact ⟨fun _ => trivial, fun _ =>
        ⟨fun _ => True, fun _ _ => True, fun _ _ => True, fun _ _ h => h, trivial⟩⟩
  | act label ready effect next failed =>
      constructor
      · rintro ⟨P, Q, E, hsafe, hstable, hp⟩
        exact ⟨P, hsafe.conseq (fun _ _ h => h) (fun _ _ _ _ => trivial)
          fun _ _ _ _ => trivial, hstable, hp⟩
      · rintro ⟨P, hsafe, hstable, hp⟩
        exact ⟨P, _, _, hsafe, hstable, hp⟩

/-- The invariant holds and every thread is live. -/
def Holds (D : Contract σ ℓ) (S : System σ ℓ ε) (c : Config σ ℓ ε α) : Prop :=
  D.inv c.snap ∧ ∀ t p, System.thread c t = some p → D.Live S t p c.snap

theorem holds_iff_holdsTo {c : Config σ ℓ ε α} :
    D.Holds S c ↔ D.HoldsTo S (fun _ _ _ => True) (fun _ _ _ => True) c := by
  simp only [Holds, HoldsTo, live_iff_ends]

/-- A crash keeps the contract. -/
def CrashSafe (D : Contract σ ℓ) (S : System σ ℓ ε) : Prop :=
  ∀ p damage, S.crash p = some damage → ∀ x, D.inv x → D.allow (.crashed p) x →
    D.Keeps (.crashed p) x (damage x.world)

section Runs

variable {Q : Nat → α → Snapshot σ ℓ → Prop} {E : Nat → ε → Snapshot σ ℓ → Prop}

theorem HoldsTo.step {c c' : Config σ ℓ ε α} {m : Move ε} {e : Event ℓ}
    (h : D.HoldsTo S Q E c) (hcrash : D.CrashSafe S) (hQ : ∀ t a, D.Stable S t (Q t a))
    (hE : ∀ t err, D.Stable S t (E t err)) (hnext : S.next c m = some (e, c'))
    (hallow : D.allow e c.snap) : D.HoldsTo S Q E c' := by
  obtain ⟨hi, hends⟩ := h
  obtain ⟨t, label, ready, effect, k, kf, hth, hready, rfl, rfl⟩ |
    ⟨t, err, label, ready, effect, k, kf, hth, hfault, rfl, rfl⟩ |
    ⟨p, damage, hdamage, rfl, rfl⟩ := System.next_cases hnext
  · obtain ⟨P, hsafe, hstable, hp⟩ := hends t _ hth
    obtain ⟨P', hpre, -, hkeep, hk, -⟩ := hsafe
    have hP' := hpre _ hi hp
    have hkept := hkeep _ hi hP' hready hallow
    refine ⟨hkept.1, fun u q hu => ?_⟩
    by_cases htu : u = t
    · subst u
      obtain rfl := System.thread_set_self hu
      exact Ends.of_safe (hk c.snap.world) hkept.1
        ⟨c.snap, hi, hP', rfl, hready, hallow, rfl⟩
    · rw [System.thread_set_ne htu] at hu
      exact (hends u q hu).foreign (hQ u) (hE u) (Ne.symm htu) hi hkept
  · obtain ⟨P, hsafe, hstable, hp⟩ := hends t _ hth
    obtain ⟨P', hpre, -, -, -, hfail⟩ := hsafe
    have hP' := hpre _ hi hp
    obtain ⟨hkeep, hcont⟩ := hfail _ err hfault
    have hkept := hkeep _ hi hP' rfl hallow
    refine ⟨hkept.1, fun u q hu => ?_⟩
    by_cases htu : u = t
    · subst u
      obtain rfl := System.thread_set_self hu
      exact Ends.of_safe hcont hkept.1 ⟨c.snap, hi, hP', rfl, hallow, rfl⟩
    · rw [System.thread_set_ne htu] at hu
      exact (hends u q hu).foreign (hQ u) (hE u) (Ne.symm htu) hi hkept
  · have hkept := hcrash p damage hdamage _ hi hallow
    refine ⟨hkept.1, fun u q hu => ?_⟩
    obtain ⟨hne, hu'⟩ := System.thread_killed (x := c.snap) hu
    exact (hends u q hu').foreign (hQ u) (hE u) hne hi hkept

/-- Every move that the condition admits is as the guarantee says. -/
theorem HoldsTo.guarantee {c c' : Config σ ℓ ε α} {m : Move ε} {e : Event ℓ}
    (h : D.HoldsTo S Q E c) (hcrash : D.CrashSafe S) (hnext : S.next c m = some (e, c'))
    (hallow : D.allow e c.snap) : D.guar e c.snap c'.snap.world := by
  obtain ⟨hi, hends⟩ := h
  obtain ⟨t, label, ready, effect, k, kf, hth, hready, rfl, rfl⟩ |
    ⟨t, err, label, ready, effect, k, kf, hth, hfault, rfl, rfl⟩ |
    ⟨p, damage, hdamage, rfl, rfl⟩ := System.next_cases hnext
  · obtain ⟨P, hsafe, -, hp⟩ := hends t _ hth
    obtain ⟨P', hpre, -, hkeep, -, -⟩ := hsafe
    exact (hkeep _ hi (hpre _ hi hp) hready hallow).2
  · obtain ⟨P, hsafe, -, hp⟩ := hends t _ hth
    obtain ⟨P', hpre, -, -, -, hfail⟩ := hsafe
    exact ((hfail _ err hfault).1 _ hi (hpre _ hi hp) rfl hallow).2
  · exact (hcrash p damage hdamage _ hi hallow).2

/-- Soundness: in every run the condition admits, the invariant is kept and threads end
as is said of them. -/
theorem ends_sound {c₀ c : Config σ ℓ ε α} (h₀ : D.HoldsTo S Q E c₀) (hcrash : D.CrashSafe S)
    (hQ : ∀ t a, D.Stable S t (Q t a)) (hE : ∀ t err, D.Stable S t (E t err))
    (hrun : S.Run D.allow c₀ c) : D.HoldsTo S Q E c := by
  induction hrun with
  | start => exact h₀
  | step m _ hnext hallow ih => exact ih.step hcrash hQ hE hnext hallow

/-- Soundness for the invariant alone. -/
theorem sound {c₀ c : Config σ ℓ ε α} (h₀ : D.Holds S c₀) (hcrash : D.CrashSafe S)
    (hrun : S.Run D.allow c₀ c) : D.Holds S c :=
  holds_iff_holdsTo.mpr (ends_sound (holds_iff_holdsTo.mp h₀) hcrash
    (fun _ _ => .of_const True) (fun _ _ => .of_const True) hrun)

end Runs

end Contract

end AgentGather.Library
