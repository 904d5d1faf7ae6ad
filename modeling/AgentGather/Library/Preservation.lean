import AgentGather.Library.RelyGuarantee

/-!
# Programs that keep an invariant

Where every action keeps an invariant of world and history, whoever performs it, nothing has
to be known of the order of the actions: the contract asks for the invariant alone.
-/

namespace AgentGather.Library

/-- The contract that asks for an invariant and nothing else. -/
def Contract.invariant {σ ℓ : Type} (I : Snapshot σ ℓ → Prop) : Contract σ ℓ where
  inv := I
  guar _ _ _ := True
  allow _ _ := True

namespace Prog

variable {σ ℓ ε α β : Type} {S : System σ ℓ ε} {I : Snapshot σ ℓ → Prop} {t : Nat}

/-- Every action of the program keeps the invariant when thread `t` performs it. -/
def Preserves (S : System σ ℓ ε) (I : Snapshot σ ℓ → Prop) (t : Nat) (p : Prog σ ℓ ε α) :
    Prop :=
  (Contract.invariant I).Safe S t (fun _ _ => True) (fun _ _ => True) p fun _ => True

theorem Preserves.ret (a : α) : Preserves S I t (.ret a) := fun _ _ _ => trivial

theorem Preserves.err (e : ε) : Preserves S I t (.err e : Prog σ ℓ ε α) :=
  fun _ _ _ => trivial

theorem Preserves.bind {p : Prog σ ℓ ε α} {f : α → Prog σ ℓ ε β} (hp : Preserves S I t p)
    (hf : ∀ a, Preserves S I t (f a)) : Preserves S I t (p.bind f) :=
  Contract.Safe.bind hp hf

theorem Preserves.catchErr {p : Prog σ ℓ ε α} {h : ε → Prog σ ℓ ε α}
    (hp : Preserves S I t p) (hh : ∀ e, Preserves S I t (h e)) :
    Preserves S I t (p.catchErr h) := Contract.Safe.catchErr hp hh

theorem Preserves.action {label : σ → ℓ} {ready : σ → Bool} {effect : σ → σ}
    {result : σ → Except ε α}
    (hran : ∀ x, I x → ready x.world = true →
      I (x.record (.ran t (label x.world)) (effect x.world)))
    (hfailed : ∀ x e, I x → S.faults (label x.world) e = true →
      I (x.record (.failed t (label x.world)) x.world)) :
    Preserves S I t (Prog.action label ready effect result) :=
  Contract.Safe.action (.of_const True) (fun x hx _ hready _ => ⟨hran x hx hready, trivial⟩)
    (fun _ _ _ _ _ _ _ => trivial) (fun _ _ _ _ _ _ _ => trivial)
    fun x e hx _ hfault _ => ⟨⟨hfailed x e hx hfault, trivial⟩, trivial⟩

/-- An invariant that all threads keep holds in every run without crashes. -/
theorem preserved {c₀ c : Config σ ℓ ε α} (hinit : I c₀.snap)
    (hthreads : ∀ t p, System.thread c₀ t = some p → Preserves S I t p)
    (hcrash : ∀ p, S.crash p = none) (h : S.Reachable c₀ c) : I c.snap := by
  have hholds : (Contract.invariant I).Holds S c₀ :=
    ⟨hinit, fun t p hp => .of_safe (hthreads t p hp) hinit trivial⟩
  have hsafe : (Contract.invariant I).CrashSafe S := by
    intro p damage hdamage
    rw [hcrash p] at hdamage
    cases hdamage
  exact (Contract.sound hholds hsafe h).1

end Prog

end AgentGather.Library
