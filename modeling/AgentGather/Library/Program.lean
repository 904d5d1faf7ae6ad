import Mathlib.Tactic.Common

/-!
# Programs of atomic actions

An asynchronous function runs without interruption from one suspension point to
the next.  `Prog` records exactly that: a program either has returned, has thrown,
or performs one atomic action on a shared world and goes on with what it read.
An action may have to wait (`ready`), is announced by a label that may mention the
data it sees, and may fail, in which case the error continues in the program.

Nothing here fixes the world, the labels or the errors.
-/

namespace AgentGather.Library

/-- A computation that returns, taken apart. -/
theorem exists_ok_of_bind {ε α β : Type} {x : Except ε α} {f : α → Except ε β} {b : β}
    (h : x >>= f = .ok b) : ∃ a, x = .ok a ∧ f a = .ok b := by
  cases x with
  | ok a => exact ⟨a, rfl, h⟩
  | error e => cases h

/-- A program over a shared world `σ`, announcing labels `ℓ`, throwing errors `ε`. -/
inductive Prog (σ ℓ ε α : Type) where
  | ret (value : α)
  | err (error : ε)
  | act (label : σ → ℓ) (ready : σ → Bool) (effect : σ → σ)
      (next : σ → Prog σ ℓ ε α) (failed : ε → Prog σ ℓ ε α)

namespace Prog

variable {σ ℓ ε α β : Type}

/-- Sequential composition: the continuation starts where the program returns. -/
def bind : Prog σ ℓ ε α → (α → Prog σ ℓ ε β) → Prog σ ℓ ε β
  | ret a, f => f a
  | err e, _ => err e
  | act l r u k kf, f => act l r u (fun s => (k s).bind f) (fun e => (kf e).bind f)

/-- `try p catch h`: an error of `p`, thrown or injected, continues in `h`. -/
def catchErr : Prog σ ℓ ε α → (ε → Prog σ ℓ ε α) → Prog σ ℓ ε α
  | ret a, _ => ret a
  | err e, h => h e
  | act l r u k kf, h =>
      act l r u (fun s => (k s).catchErr h) (fun e => (kf e).catchErr h)

/-- `try p finally q`: `q` runs on both exits of `p`, whose outcome it keeps. -/
def finallyDo : Prog σ ℓ ε α → Prog σ ℓ ε Unit → Prog σ ℓ ε α
  | ret a, q => q.bind fun _ => ret a
  | err e, q => q.bind fun _ => err e
  | act l r u k kf, q =>
      act l r u (fun s => (k s).finallyDo q) (fun e => (kf e).finallyDo q)

instance : Monad (Prog σ ℓ ε) where
  pure := ret
  bind := bind

instance : MonadExcept ε (Prog σ ℓ ε) where
  throw := err
  tryCatch := catchErr

/-- Go on with the outcome of a pure computation. -/
def ofExcept : Except ε α → Prog σ ℓ ε α
  | .ok a => ret a
  | .error e => err e

/-- One action that waits for `ready`, changes the world by `effect` and returns
what `result` makes of the world it found. -/
def action (label : σ → ℓ) (ready : σ → Bool) (effect : σ → σ)
    (result : σ → Except ε α) : Prog σ ℓ ε α :=
  act label ready effect (fun s => ofExcept (result s)) err

/-- An action that only reads. -/
def query (label : σ → ℓ) (result : σ → Except ε α) : Prog σ ℓ ε α :=
  action label (fun _ => true) id result

/-- An action that only writes. -/
def update (label : σ → ℓ) (effect : σ → σ) : Prog σ ℓ ε Unit :=
  action label (fun _ => true) effect fun _ => .ok ()

/-- The program has returned or thrown. -/
def isOver : Prog σ ℓ ε α → Bool
  | ret _ => true
  | err _ => true
  | act .. => false

/-- What the program has returned. -/
def value? : Prog σ ℓ ε α → Option α
  | ret a => some a
  | _ => none

/-- What the program has thrown. -/
def error? : Prog σ ℓ ε α → Option ε
  | err e => some e
  | _ => none

/-- The run of a program that nothing interleaves with: no action waits or fails. -/
def runAlone : Prog σ ℓ ε α → σ → Except ε α × σ
  | ret a, s => (.ok a, s)
  | err e, s => (.error e, s)
  | act _ _ u k _, s => (k s).runAlone (u s)

@[simp] theorem runAlone_ret (a : α) (s : σ) :
    (ret a : Prog σ ℓ ε α).runAlone s = (.ok a, s) := rfl

@[simp] theorem runAlone_err (e : ε) (s : σ) :
    (err e : Prog σ ℓ ε α).runAlone s = (.error e, s) := rfl

@[simp] theorem pure_eq_ret (a : α) : (pure a : Prog σ ℓ ε α) = ret a := rfl

@[simp] theorem bind_eq_bind (p : Prog σ ℓ ε α) (f : α → Prog σ ℓ ε β) :
    p >>= f = p.bind f := rfl

@[simp] theorem throw_eq_err (e : ε) : (throw e : Prog σ ℓ ε α) = err e := rfl

@[simp] theorem tryCatch_eq_catchErr (p : Prog σ ℓ ε α) (h : ε → Prog σ ℓ ε α) :
    tryCatch p h = p.catchErr h := rfl

/-- What a composition does alone: the second part starts where the first ended. -/
theorem runAlone_bind (p : Prog σ ℓ ε α) (f : α → Prog σ ℓ ε β) (s : σ) :
    (p.bind f).runAlone s =
      match p.runAlone s with
      | (.ok a, s') => (f a).runAlone s'
      | (.error e, s') => (.error e, s') := by
  induction p generalizing s with
  | ret a => rfl
  | err e => rfl
  | act l r u k kf ihk _ => exact ihk s (u s)

theorem runAlone_catchErr (p : Prog σ ℓ ε α) (h : ε → Prog σ ℓ ε α) (s : σ) :
    (p.catchErr h).runAlone s =
      match p.runAlone s with
      | (.ok a, s') => (.ok a, s')
      | (.error e, s') => (h e).runAlone s' := by
  induction p generalizing s with
  | ret a => rfl
  | err e => rfl
  | act l r u k kf ihk _ => exact ihk s (u s)

/-- A composition that returns, taken apart. -/
theorem exists_of_runAlone_bind {p : Prog σ ℓ ε α} {f : α → Prog σ ℓ ε β} {s s'' : σ} {b : β}
    (h : (p.bind f).runAlone s = (.ok b, s'')) :
    ∃ a s', p.runAlone s = (.ok a, s') ∧ (f a).runAlone s' = (.ok b, s'') := by
  rw [runAlone_bind] at h
  rcases hrun : p.runAlone s with ⟨r, s'⟩
  rw [hrun] at h
  cases r with
  | ok a => exact ⟨a, s', rfl, h⟩
  | error e => cases h

theorem runAlone_finallyDo (p : Prog σ ℓ ε α) (q : Prog σ ℓ ε Unit) (s : σ) :
    (p.finallyDo q).runAlone s =
      match q.runAlone (p.runAlone s).2 with
      | (.ok _, s') => ((p.runAlone s).1, s')
      | (.error e, s') => (.error e, s') := by
  induction p generalizing s with
  | ret a =>
      rw [finallyDo, runAlone_bind, runAlone_ret]
      rcases q.runAlone s with ⟨r, s'⟩
      cases r <;> rfl
  | err e =>
      rw [finallyDo, runAlone_bind, runAlone_err]
      rcases q.runAlone s with ⟨r, s'⟩
      cases r <;> rfl
  | act l r u k kf ihk _ => exact ihk s (u s)

theorem runAlone_action (label : σ → ℓ) (ready : σ → Bool) (effect : σ → σ)
    (result : σ → Except ε α) (s : σ) :
    (action label ready effect result).runAlone s = (result s, effect s) := by
  unfold action
  cases h : result s <;> simp [runAlone, ofExcept, h]

theorem runAlone_ofExcept (r : Except ε α) (s : σ) :
    (ofExcept r : Prog σ ℓ ε α).runAlone s = (r, s) := by
  cases r <;> rfl

theorem runAlone_query (label : σ → ℓ) (result : σ → Except ε α) (s : σ) :
    (query label result).runAlone s = (result s, s) :=
  runAlone_action _ _ _ _ s

/-- Going on from a program that has only looked at the world. -/
theorem runAlone_bind_of_reads {p : Prog σ ℓ ε α} {r : Except ε α} {s : σ}
    (h : p.runAlone s = (r, s)) {f : α → Prog σ ℓ ε β} {g : α → Except ε β}
    (hf : ∀ a, r = .ok a → (f a).runAlone s = (g a, s)) :
    (p.bind f).runAlone s = (r >>= g, s) := by
  rw [runAlone_bind, h]
  cases r with
  | ok a => exact hf a rfl
  | error e => rfl

end Prog

end AgentGather.Library
