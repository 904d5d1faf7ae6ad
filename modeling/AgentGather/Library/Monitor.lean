import AgentGather.Library.Interleaving
import Mathlib.Algebra.BigOperators.Group.Finset.Piecewise
import Mathlib.Algebra.Order.BigOperators.Group.Finset

/-!
# Monitors

A monitor follows what one thread announces, step by step, and may refuse a step.  `Follows`
says of a program that no step of it is refused, and with what the monitor ends; it is proved
along the structure of the program, for worlds of which something is known.  `sound` carries it
over to every thread of every interleaved run.  What all threads have done together is counted
thread by thread.
-/

namespace AgentGather.Library

/-! ## Counting by threads -/

/-- An event of a history that does what `p` says is of one thread. -/
theorem countP_eq_sum {ℓ : Type} {p : Event ℓ → Bool} (hp : ∀ e, p e = true → e.isRan = true)
    {es : List (Event ℓ)} {n : Nat} (hn : ∀ e ∈ es, ∀ t, e.isOf t = true → t < n) :
    es.countP p = ∑ t ∈ Finset.range n, es.countP fun e => p e && e.isOf t := by
  induction es with
  | nil => simp
  | cons e es ih =>
      have hrest := ih fun e' he' => hn e' (List.mem_cons_of_mem _ he')
      simp only [List.countP_cons, Finset.sum_add_distrib, ← hrest]
      congr 1
      cases hpe : p e with
      | false => simp
      | true =>
          cases e with
          | ran u l =>
              have hu : u < n := hn _ List.mem_cons_self u (beq_self_eq_true u)
              simp only [Event.isOf, Bool.true_and, beq_iff_eq, if_true]
              rw [Finset.sum_ite_eq, if_pos (Finset.mem_range.mpr hu)]
          | failed u l => cases hp _ hpe
          | crashed q => cases hp _ hpe

theorem exists_thread_bound {ℓ : Type} (es : List (Event ℓ)) :
    ∃ n, ∀ e ∈ es, ∀ t, e.isOf t = true → t < n := by
  induction es with
  | nil => exact ⟨0, fun _ h => nomatch h⟩
  | cons e es ih =>
      obtain ⟨n, hn⟩ := ih
      have hfirst : ∃ m, ∀ t, e.isOf t = true → t < m := by
        cases e with
        | ran u l => exact ⟨u + 1, fun t h => by simp [Event.isOf] at h; omega⟩
        | failed u l => exact ⟨u + 1, fun t h => by simp [Event.isOf] at h; omega⟩
        | crashed q => exact ⟨0, fun t h => by simp [Event.isOf] at h⟩
      obtain ⟨m, hm⟩ := hfirst
      refine ⟨max m n, List.forall_mem_cons.mpr ⟨fun t h => ?_, fun e' he' t h => ?_⟩⟩
      · exact lt_max_of_lt_left (hm t h)
      · exact lt_max_of_lt_right (hn e' he' t h)

/-- What no thread does more often than another thing, is not done more often. -/
theorem countP_le_of_threads {ℓ : Type} {p q : Event ℓ → Bool}
    (hp : ∀ e, p e = true → e.isRan = true) (hq : ∀ e, q e = true → e.isRan = true)
    {es : List (Event ℓ)}
    (h : ∀ t, (es.countP fun e => p e && e.isOf t) ≤ es.countP fun e => q e && e.isOf t) :
    es.countP p ≤ es.countP q := by
  obtain ⟨n, hn⟩ := exists_thread_bound es
  rw [countP_eq_sum hp hn, countP_eq_sum hq hn]
  exact Finset.sum_le_sum fun t _ => h t

theorem countP_eq_of_threads {ℓ : Type} {p q : Event ℓ → Bool}
    (hp : ∀ e, p e = true → e.isRan = true) (hq : ∀ e, q e = true → e.isRan = true)
    {es : List (Event ℓ)}
    (h : ∀ t, (es.countP fun e => p e && e.isOf t) = es.countP fun e => q e && e.isOf t) :
    es.countP p = es.countP q :=
  Nat.le_antisymm (countP_le_of_threads hp hq fun t => (h t).le)
    (countP_le_of_threads hq hp fun t => (h t).ge)

/-- A thread that is still there was there at the start. -/
theorem System.thread_start {σ ℓ ε α : Type} {T : System σ ℓ ε} {c₀ c : Config σ ℓ ε α}
    (h : T.Reachable c₀ c) {t : Nat} (hthere : ∃ p, System.thread c t = some p) :
    ∃ p, System.thread c₀ t = some p := by
  induction h with
  | start => exact hthere
  | @step c c' e m _ hnext _ ih =>
      have hset {x : Snapshot σ ℓ} {u : Nat} {q r : Prog σ ℓ ε α}
          (hu : System.thread c u = some q)
          (hset : ∃ p, System.thread ⟨x, c.threads.set u (some r)⟩ t = some p) :
          ∃ p, System.thread c t = some p := by
        by_cases htu : t = u
        · exact ⟨q, htu ▸ hu⟩
        · rwa [System.thread_set_ne htu] at hset
      obtain ⟨u, label, ready, effect, k, kf, hu, -, -, rfl⟩ |
        ⟨u, err, label, ready, effect, k, kf, hu, -, -, rfl⟩ | ⟨p, damage, -, -, rfl⟩ :=
        System.next_cases hnext
      · exact ih (hset hu hthere)
      · exact ih (hset hu hthere)
      · obtain ⟨q, hq⟩ := hthere
        exact ih ⟨q, (System.thread_killed (x := c.snap) hq).2⟩

/-- A thread that has made a step is still there, where nothing has crashed. -/
theorem System.thread_of_event {σ ℓ ε α : Type} {T : System σ ℓ ε} {c₀ c : Config σ ℓ ε α}
    (htrace : c₀.snap.trace = []) (h : T.Reachable c₀ c)
    (hran : ∀ e ∈ c.snap.trace, e.isRan = true) {t : Nat}
    (hsome : ∃ e ∈ c.snap.trace, e.isOf t = true) : ∃ p, System.thread c t = some p := by
  induction h with
  | start =>
      obtain ⟨e, he, -⟩ := hsome
      rw [htrace] at he
      cases he
  | @step c c' e m hrun hnext _ ih =>
      obtain ⟨u, label, ready, effect, k, kf, hthread, hready, rfl, rfl⟩ |
        ⟨u, err, label, ready, effect, k, kf, hthread, -, rfl, rfl⟩ | ⟨p, damage, -, rfl, rfl⟩ :=
        System.next_cases hnext
      · obtain ⟨-, hran⟩ := List.forall_mem_cons.mp hran
        by_cases hu : u = t
        · subst hu
          refine ⟨k c.snap.world, ?_⟩
          obtain ⟨hlen, -⟩ := List.getElem?_eq_some_iff.mp (Option.join_eq_some_iff.mp hthread)
          rw [System.thread, List.getElem?_set_self hlen]
          rfl
        · rw [System.thread_set_ne (Ne.symm hu)]
          refine ih hran ?_
          obtain ⟨e, he, hof⟩ := hsome
          rcases List.mem_cons.mp he with rfl | he
          · exact absurd (beq_iff_eq.mp hof) hu
          · exact ⟨e, he, hof⟩
      · cases hran _ List.mem_cons_self
      · cases hran _ List.mem_cons_self

/-! ## Monitors -/

/-- What a step of the thread does to the monitor's state, none where it is refused, and what
it does when the step fails. -/
structure Monitor (ℓ S : Type) where
  step : S → ℓ → Option S
  fault : S → S

namespace Monitor

variable {σ ℓ ε α β S : Type} (M : Monitor ℓ S)

/-- What the monitor of thread `t` has come to behind a history, the latest event first. -/
def state (s₀ : S) (t : Nat) : List (Event ℓ) → Option S
  | [] => some s₀
  | .ran u l :: es => if u = t then (state s₀ t es).bind (M.step · l) else state s₀ t es
  | .failed u _ :: es => if u = t then (state s₀ t es).map M.fault else state s₀ t es
  | .crashed _ :: es => state s₀ t es

/-- In worlds as `G` says, no step of the program is refused, and it ends as `Q` or `E` says. -/
def Follows (G : σ → Prop) (Q : α → S → Prop) (E : ε → S → Prop) : Prog σ ℓ ε α → S → Prop
  | .ret a, s => Q a s
  | .err e, s => E e s
  | .act label ready _ next failed, s =>
      (∀ w, G w → ready w = true →
        ∃ s', M.step s (label w) = some s' ∧ Follows G Q E (next w) s') ∧
      ∀ e, Follows G Q E (failed e) (M.fault s)

variable {M} {G : σ → Prop} {Q : α → S → Prop} {E : ε → S → Prop} {s : S}

/-! ## Rules -/

theorem Follows.conseq {Q' : α → S → Prop} {E' : ε → S → Prop} {p : Prog σ ℓ ε α}
    (h : M.Follows G Q E p s) (hQ : ∀ a s, Q a s → Q' a s) (hE : ∀ e s, E e s → E' e s) :
    M.Follows G Q' E' p s := by
  induction p generalizing s with
  | ret a => exact hQ a s h
  | err e => exact hE e s h
  | act label ready effect next failed ihn ihf =>
      refine ⟨fun w hw hr => ?_, fun e => ihf e (h.2 e)⟩
      obtain ⟨s', hs', hnext⟩ := h.1 w hw hr
      exact ⟨s', hs', ihn w hnext⟩

theorem Follows.bind {R : β → S → Prop} {p : Prog σ ℓ ε α} {f : α → Prog σ ℓ ε β}
    (hp : M.Follows G Q E p s) (hf : ∀ a s, Q a s → M.Follows G R E (f a) s) :
    M.Follows G R E (p.bind f) s := by
  induction p generalizing s with
  | ret a => exact hf a s hp
  | err e => exact hp
  | act label ready effect next failed ihn ihf =>
      refine ⟨fun w hw hr => ?_, fun e => ihf e (hp.2 e)⟩
      obtain ⟨s', hs', hnext⟩ := hp.1 w hw hr
      exact ⟨s', hs', ihn w hnext⟩

theorem Follows.catchErr {E' : ε → S → Prop} {p : Prog σ ℓ ε α} {f : ε → Prog σ ℓ ε α}
    (hp : M.Follows G Q E p s) (hf : ∀ e s, E e s → M.Follows G Q E' (f e) s) :
    M.Follows G Q E' (p.catchErr f) s := by
  induction p generalizing s with
  | ret a => exact hp
  | err e => exact hf e s hp
  | act label ready effect next failed ihn ihf =>
      refine ⟨fun w hw hr => ?_, fun e => ihf e (hp.2 e)⟩
      obtain ⟨s', hs', hnext⟩ := hp.1 w hw hr
      exact ⟨s', hs', ihn w hnext⟩

/-- The final part is run on both exits. -/
theorem Follows.finallyDo {Q' : α → S → Prop} {E' : ε → S → Prop} {p : Prog σ ℓ ε α}
    {q : Prog σ ℓ ε Unit} (hp : M.Follows G Q E p s)
    (hok : ∀ a s, Q a s → M.Follows G (fun _ => Q' a) E' q s)
    (herr : ∀ e s, E e s → M.Follows G (fun _ => E' e) E' q s) :
    M.Follows G Q' E' (p.finallyDo q) s := by
  induction p generalizing s with
  | ret a => exact (hok a s hp).bind fun _ _ h => h
  | err e => exact (herr e s hp).bind fun _ _ h => h
  | act label ready effect next failed ihn ihf =>
      refine ⟨fun w hw hr => ?_, fun e => ihf e (hp.2 e)⟩
      obtain ⟨s', hs', hnext⟩ := hp.1 w hw hr
      exact ⟨s', hs', ihn w hnext⟩

theorem Follows.ofExcept {r : Except ε α} (hok : ∀ a, r = .ok a → Q a s)
    (herr : ∀ e, r = .error e → E e s) : M.Follows G Q E (Prog.ofExcept r : Prog σ ℓ ε α) s := by
  cases r with
  | ok a => exact hok a rfl
  | error e => exact herr e rfl

/-- One action, with what it finds. -/
theorem Follows.action {label : σ → ℓ} {ready : σ → Bool} {effect : σ → σ}
    {result : σ → Except ε α}
    (hstep : ∀ w, G w → ready w = true → ∃ s', M.step s (label w) = some s' ∧
      (∀ a, result w = .ok a → Q a s') ∧ ∀ e, result w = .error e → E e s')
    (hfail : ∀ e, E e (M.fault s)) :
    M.Follows G Q E (Prog.action label ready effect result) s := by
  refine ⟨fun w hw hr => ?_, hfail⟩
  obtain ⟨s', hs', hok, herr⟩ := hstep w hw hr
  exact ⟨s', hs', Follows.ofExcept hok herr⟩

/-- A monitor that refuses nothing follows every program. -/
theorem Follows.total (hM : ∀ s l, ∃ s', M.step s l = some s') (hQ : ∀ a s, Q a s)
    (hE : ∀ e s, E e s) (p : Prog σ ℓ ε α) : M.Follows G Q E p s := by
  induction p generalizing s with
  | ret a => exact hQ a s
  | err e => exact hE e s
  | act label ready effect next failed ihn ihf =>
      refine ⟨fun w _ _ => ?_, fun e => ihf e⟩
      obtain ⟨s', hs'⟩ := hM s (label w)
      exact ⟨s', hs', ihn w⟩

/-! ## Runs -/

/-- Every thread of a run has been followed, and what is left of it will be. -/
theorem sound {T : System σ ℓ ε} {c₀ c : Config σ ℓ ε α} (M : Nat → Monitor ℓ S)
    {Q : Nat → α → S → Prop} {E : Nat → ε → S → Prop} {s₀ : S} (htrace : c₀.snap.trace = [])
    (hG : ∀ c, T.Reachable c₀ c → G c.snap.world)
    (hstart : ∀ t p, System.thread c₀ t = some p → (M t).Follows G (Q t) (E t) p s₀)
    (h : T.Reachable c₀ c) (t : Nat) :
    ∃ s, (M t).state s₀ t c.snap.trace = some s ∧
      ∀ p, System.thread c t = some p → (M t).Follows G (Q t) (E t) p s := by
  induction h with
  | start => exact ⟨s₀, by rw [htrace]; rfl, hstart t⟩
  | @step c c' e m hrun hnext _ ih =>
      obtain ⟨s, hs, hfollows⟩ := ih
      obtain ⟨u, label, ready, effect, k, kf, hthread, hready, rfl, rfl⟩ |
        ⟨u, err, label, ready, effect, k, kf, hthread, -, rfl, rfl⟩ | ⟨p, damage, -, rfl, rfl⟩ :=
        System.next_cases hnext
      · by_cases hu : u = t
        · subst hu
          obtain ⟨s', hs', hrest⟩ := (hfollows _ hthread).1 _ (hG c hrun) hready
          refine ⟨s', ?_, fun p hp => ?_⟩
          · simp only [Snapshot.record_trace, state, if_pos, hs, Option.bind_some, hs']
          · rw [System.thread_set_self hp]
            exact hrest
        · refine ⟨s, ?_, fun p hp => hfollows p ?_⟩
          · simp only [Snapshot.record_trace, state, if_neg hu, hs]
          · rwa [System.thread_set_ne (Ne.symm hu)] at hp
      · by_cases hu : u = t
        · subst hu
          refine ⟨(M u).fault s, ?_, fun p hp => ?_⟩
          · simp only [Snapshot.record_trace, state, if_pos, hs, Option.map_some]
          · rw [System.thread_set_self hp]
            exact (hfollows _ hthread).2 err
        · refine ⟨s, ?_, fun p hp => hfollows p ?_⟩
          · simp only [Snapshot.record_trace, state, if_neg hu, hs]
          · rwa [System.thread_set_ne (Ne.symm hu)] at hp
      · exact ⟨s, hs, fun p hp => hfollows p (System.thread_killed hp).2⟩

end Monitor

end AgentGather.Library
