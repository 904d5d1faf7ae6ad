import AgentGather.Library.Program

/-!
# Interleaved runs of programs

A configuration is a world, the events so far, and a list of threads, each a program
that has run up to its next action.  One move lets one thread perform its next
action, makes that action fail, or crashes a process together with all its threads.
`System.next` computes the effect of a move, so a schedule can be replayed, and
`System.Run` is the closure of the moves that a run condition admits.
-/

namespace AgentGather.Library

/-- What one move did. -/
inductive Event (ℓ : Type) where
  | ran (thread : Nat) (label : ℓ)
  | failed (thread : Nat) (label : ℓ)
  | crashed (process : Nat)
deriving DecidableEq, Repr

/-- The event is a step of this thread, or one that failed. -/
def Event.isOf {ℓ : Type} (t : Nat) : Event ℓ → Bool
  | .ran u _ => u == t
  | .failed u _ => u == t
  | .crashed _ => false

/-- The event is a step that was made. -/
def Event.isRan {ℓ : Type} : Event ℓ → Bool
  | .ran _ _ => true
  | _ => false

/-- Some step of the history, the latest event first, is as `judge` says of its thread, its
label and the history before it. -/
def happened {ℓ : Type} (judge : Nat → ℓ → List (Event ℓ) → Bool) : List (Event ℓ) → Bool
  | [] => false
  | .ran t l :: es => judge t l es || happened judge es
  | _ :: es => happened judge es

/-- What happened has happened. -/
theorem happened_cons {ℓ : Type} {judge : Nat → ℓ → List (Event ℓ) → Bool}
    {es : List (Event ℓ)} (h : happened judge es = true) (e : Event ℓ) :
    happened judge (e :: es) = true := by
  cases e with
  | ran t l => rw [happened, h, Bool.or_true]
  | failed t l => exact h
  | crashed p => exact h

/-- What has not happened had not happened before. -/
theorem not_happened_tail {ℓ : Type} {judge : Nat → ℓ → List (Event ℓ) → Bool}
    {es : List (Event ℓ)} {e : Event ℓ} (h : happened judge (e :: es) = false) :
    happened judge es = false := by
  rw [← Bool.not_eq_true] at h ⊢
  exact fun h' => h (happened_cons h' e)

/-- A world together with everything that happened, the latest event first. -/
structure Snapshot (σ ℓ : Type) where
  world : σ
  trace : List (Event ℓ)

namespace Snapshot

variable {σ ℓ : Type}

/-- The snapshot after event `e` has left the world as `w`. -/
def record (x : Snapshot σ ℓ) (e : Event ℓ) (w : σ) : Snapshot σ ℓ := ⟨w, e :: x.trace⟩

@[simp] theorem record_world (x : Snapshot σ ℓ) (e : Event ℓ) (w : σ) :
    (x.record e w).world = w := rfl

@[simp] theorem record_trace (x : Snapshot σ ℓ) (e : Event ℓ) (w : σ) :
    (x.record e w).trace = e :: x.trace := rfl

end Snapshot

/-- A scheduler's choice. -/
inductive Move (ε : Type) where
  | run (thread : Nat)
  | fail (thread : Nat) (error : ε)
  | crash (process : Nat)

/-- Which actions may fail with which errors, which process runs a thread, and what
a crash of a process does to the world (`none`: it does not crash). -/
structure System (σ ℓ ε : Type) where
  process : Nat → Nat
  faults : ℓ → ε → Bool
  crash : Nat → Option (σ → σ)

/-- The snapshot, and per thread its remaining program (`none` once crashed). -/
structure Config (σ ℓ ε α : Type) where
  snap : Snapshot σ ℓ
  threads : List (Option (Prog σ ℓ ε α))

namespace System

variable {σ ℓ ε α : Type} (S : System σ ℓ ε)

/-- A system in which nothing fails and nothing crashes. -/
def faultless (σ ℓ ε : Type) : System σ ℓ ε where
  process := id
  faults := fun _ _ => false
  crash := fun _ => none

/-- The program thread `t` still has to run. -/
def thread (c : Config σ ℓ ε α) (t : Nat) : Option (Prog σ ℓ ε α) :=
  (c.threads[t]?).join

/-- What thread `t` has returned. -/
def returned (c : Config σ ℓ ε α) (t : Nat) : Option α := (thread c t).bind Prog.value?

theorem thread_of_returned {c : Config σ ℓ ε α} {t : Nat} {a : α}
    (h : returned c t = some a) : thread c t = some (.ret a) := by
  obtain ⟨p, hp, hvalue⟩ := Option.bind_eq_some_iff.mp h
  cases p with
  | ret b => rw [hp, Option.some.inj hvalue]
  | err e => cases hvalue
  | act label ready effect next failed => cases hvalue

theorem thread_of_thrown {c : Config σ ℓ ε α} {t : Nat} {e : ε}
    (h : (thread c t).bind Prog.error? = some e) : thread c t = some (.err e) := by
  obtain ⟨p, hp, herror⟩ := Option.bind_eq_some_iff.mp h
  cases p with
  | ret a => cases herror
  | err e' => rw [hp, Option.some.inj herror]
  | act label ready effect next failed => cases herror

/-- No thread is under way: whatever is left of it is over or has not begun. -/
def Quiescent (c : Config σ ℓ ε α) : Prop :=
  ∀ t p, thread c t = some p → p.isOver = true ∨ ∀ e ∈ c.snap.trace, e.isOf t = false

/-- Threads that are all over are not under way. -/
theorem quiescent_of_over {c : Config σ ℓ ε α}
    (h : (c.threads.all fun p => p.all Prog.isOver) = true) : Quiescent c := by
  intro t p hp
  have hmem : some p ∈ c.threads := List.mem_of_getElem? (Option.join_eq_some_iff.mp hp)
  exact .inl (List.all_eq_true.mp h _ hmem)

/-- The threads left when process `p` is gone. -/
def killed (p : Nat) (threads : List (Option (Prog σ ℓ ε α))) :
    List (Option (Prog σ ℓ ε α)) :=
  threads.mapIdx fun t prog => if S.process t = p then none else prog

/-- The event and the configuration a move leads to, if the move is possible. -/
def next (c : Config σ ℓ ε α) : Move ε → Option (Event ℓ × Config σ ℓ ε α)
  | .run t =>
      match thread c t with
      | some (.act label ready effect k _) =>
          let w := c.snap.world
          if ready w then
            some (.ran t (label w),
              ⟨c.snap.record (.ran t (label w)) (effect w), c.threads.set t (some (k w))⟩)
          else none
      | _ => none
  | .fail t e =>
      match thread c t with
      | some (.act label _ _ _ failed) =>
          let w := c.snap.world
          if S.faults (label w) e then
            some (.failed t (label w),
              ⟨c.snap.record (.failed t (label w)) w, c.threads.set t (some (failed e))⟩)
          else none
      | _ => none
  | .crash p =>
      match S.crash p with
      | some damage =>
          some (.crashed p,
            ⟨c.snap.record (.crashed p) (damage c.snap.world), S.killed p c.threads⟩)
      | none => none

/-- Replay a schedule. -/
def replay (c : Config σ ℓ ε α) : List (Move ε) → Option (Config σ ℓ ε α)
  | [] => some c
  | m :: ms => (S.next c m).bind fun ec => replay ec.2 ms

/-- The configurations reached from `c₀` by moves that `allow` admits, where `allow`
judges an event by the snapshot it happens in. -/
inductive Run (allow : Event ℓ → Snapshot σ ℓ → Prop) (c₀ : Config σ ℓ ε α) :
    Config σ ℓ ε α → Prop
  | start : Run allow c₀ c₀
  | step {c c' : Config σ ℓ ε α} {e : Event ℓ} (m : Move ε) :
      Run allow c₀ c → S.next c m = some (e, c') → allow e c.snap → Run allow c₀ c'

/-- Every configuration that some schedule reaches. -/
def Reachable (c₀ : Config σ ℓ ε α) : Config σ ℓ ε α → Prop :=
  S.Run (fun _ _ => True) c₀

variable {S}

/-- Everything a move can do. -/
theorem next_cases {c c' : Config σ ℓ ε α} {m : Move ε} {e : Event ℓ}
    (h : S.next c m = some (e, c')) :
    (∃ t label ready effect k kf,
      thread c t = some (.act label ready effect k kf) ∧ ready c.snap.world = true ∧
      e = .ran t (label c.snap.world) ∧
      c' = ⟨c.snap.record e (effect c.snap.world),
        c.threads.set t (some (k c.snap.world))⟩) ∨
    (∃ t err label ready effect k kf,
      thread c t = some (.act label ready effect k kf) ∧
      S.faults (label c.snap.world) err = true ∧
      e = .failed t (label c.snap.world) ∧
      c' = ⟨c.snap.record e c.snap.world, c.threads.set t (some (kf err))⟩) ∨
    (∃ p damage, S.crash p = some damage ∧ e = .crashed p ∧
      c' = ⟨c.snap.record e (damage c.snap.world), S.killed p c.threads⟩) := by
  cases m with
  | run t =>
      left
      simp only [next] at h
      split at h
      · rename_i label ready effect k kf hthread
        split at h
        · rename_i hready
          obtain ⟨rfl, rfl⟩ := Prod.mk.inj (Option.some.inj h)
          exact ⟨t, label, ready, effect, k, kf, hthread, hready, rfl, rfl⟩
        · cases h
      · cases h
  | fail t err =>
      right; left
      simp only [next] at h
      split at h
      · rename_i label ready effect k kf hthread
        split at h
        · rename_i hfault
          obtain ⟨rfl, rfl⟩ := Prod.mk.inj (Option.some.inj h)
          exact ⟨t, err, label, ready, effect, k, kf, hthread, hfault, rfl, rfl⟩
        · cases h
      · cases h
  | crash p =>
      right; right
      simp only [next] at h
      split at h
      · rename_i damage hcrash
        obtain ⟨rfl, rfl⟩ := Prod.mk.inj (Option.some.inj h)
        exact ⟨p, damage, hcrash, rfl, rfl⟩
      · cases h

/-- A move adds exactly its event to the trace. -/
theorem next_trace {c c' : Config σ ℓ ε α} {m : Move ε} {e : Event ℓ}
    (h : S.next c m = some (e, c')) : c'.snap.trace = e :: c.snap.trace := by
  obtain ⟨t, label, ready, effect, k, kf, -, -, -, rfl⟩ |
    ⟨t, err, label, ready, effect, k, kf, -, -, -, rfl⟩ | ⟨p, damage, -, -, rfl⟩ :=
    next_cases h
  all_goals rfl

theorem thread_set_self {threads : List (Option (Prog σ ℓ ε α))} {x : Snapshot σ ℓ}
    {t : Nat} {p q : Prog σ ℓ ε α} (h : thread ⟨x, threads.set t (some p)⟩ t = some q) :
    q = p := by
  simp only [thread, List.getElem?_set, if_true] at h
  split_ifs at h with hlen
  · exact (Option.some.inj h).symm
  · cases h

theorem thread_set_ne {threads : List (Option (Prog σ ℓ ε α))} {x : Snapshot σ ℓ}
    {t u : Nat} {p : Prog σ ℓ ε α} (hne : u ≠ t) :
    thread ⟨x, threads.set t (some p)⟩ u = thread ⟨x, threads⟩ u := by
  simp only [thread, List.getElem?_set, if_neg hne.symm]

/-- Only the threads of other processes survive a crash, unchanged. -/
theorem thread_killed {threads : List (Option (Prog σ ℓ ε α))} {x y : Snapshot σ ℓ}
    {p t : Nat} {q : Prog σ ℓ ε α} (h : thread ⟨y, S.killed p threads⟩ t = some q) :
    S.process t ≠ p ∧ thread ⟨x, threads⟩ t = some q := by
  simp only [thread, killed, List.getElem?_mapIdx] at h ⊢
  cases hth : threads[t]? with
  | none => simp [hth] at h
  | some o =>
      by_cases hp : S.process t = p
      · simp [hth, hp] at h
      · simpa [hth, hp] using h

/-- A replayed schedule is a run of any condition all its moves meet. -/
theorem Run.trans {allow : Event ℓ → Snapshot σ ℓ → Prop} {c₀ c₁ c₂ : Config σ ℓ ε α}
    (h₁ : S.Run allow c₀ c₁) (h₂ : S.Run allow c₁ c₂) : S.Run allow c₀ c₂ := by
  induction h₂ with
  | start => exact h₁
  | step m _ hnext hallow ih => exact ih.step m hnext hallow

theorem Run.mono {allow allow' : Event ℓ → Snapshot σ ℓ → Prop}
    {c₀ c : Config σ ℓ ε α} (hle : ∀ e x, allow e x → allow' e x)
    (h : S.Run allow c₀ c) : S.Run allow' c₀ c := by
  induction h with
  | start => exact .start
  | step m _ hnext hallow ih => exact ih.step m hnext (hle _ _ hallow)

/-- A run whose events are all as `ok` says. -/
theorem run_of_trace {ok : Event ℓ → Prop} {c₀ c : Config σ ℓ ε α} (h : S.Reachable c₀ c)
    (hok : ∀ e ∈ c.snap.trace, ok e) : S.Run (fun e _ => ok e) c₀ c := by
  induction h with
  | start => exact .start
  | step m _ hnext _ ih =>
      rw [next_trace hnext] at hok
      exact (ih fun e he => hok e (List.mem_cons_of_mem _ he)).step m hnext
        (hok _ List.mem_cons_self)

theorem reachable_of_replay {c₀ c : Config σ ℓ ε α} {ms : List (Move ε)}
    (h : S.replay c₀ ms = some c) : S.Reachable c₀ c := by
  induction ms generalizing c₀ with
  | nil =>
      obtain rfl := Option.some.inj h
      exact .start
  | cons m ms ih =>
      obtain ⟨⟨e, c₁⟩, hnext, hrest⟩ := Option.bind_eq_some_iff.mp h
      exact Run.trans (.step m .start hnext trivial) (ih hrest)

/-- What a replayed schedule shows of its last configuration is reached. -/
theorem exists_reachable_of_replay {γ : Type} {c₀ : Config σ ℓ ε α} {ms : List (Move ε)}
    {f : Config σ ℓ ε α → γ} {v : γ} (h : (S.replay c₀ ms).map f = some v) :
    ∃ c, S.Reachable c₀ c ∧ f c = v := by
  obtain ⟨c, hc, hv⟩ := Option.map_eq_some_iff.mp h
  exact ⟨c, reachable_of_replay hc, hv⟩

end System

end AgentGather.Library
