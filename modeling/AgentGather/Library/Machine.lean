import Mathlib.Data.List.Induction

/-!
# Machines that answer calls

A machine has one state and answers one call after the other.  A sequence of calls
determines the state it leads to and the history: every call with its answer, the latest
first.  An invariant of state and history is proved once per call; it may assume that
every call was admitted by a condition on the state the call was made in.
-/

namespace AgentGather.Library

/-- Answers to calls `ι` are `ο`. -/
structure Machine (σ ι ο : Type) where
  init : σ
  step : σ → ι → σ × ο

namespace Machine

variable {σ ι ο : Type} (M : Machine σ ι ο)

/-- One more call. -/
def extend (run : σ × List (ι × ο)) (call : ι) : σ × List (ι × ο) :=
  ((M.step run.1 call).1, (call, (M.step run.1 call).2) :: run.2)

/-- The state behind the calls, and their history. -/
def exec (calls : List ι) : σ × List (ι × ο) := calls.foldl M.extend (M.init, [])

/-- From this state on, every call is made in a state that admits it. -/
def ObeysFrom (allow : σ → ι → Prop) : σ → List ι → Prop
  | _, [] => True
  | s, call :: calls => allow s call ∧ ObeysFrom allow (M.step s call).1 calls

def Obeys (allow : σ → ι → Prop) (calls : List ι) : Prop := M.ObeysFrom allow M.init calls

instance decidableObeysFrom (allow : σ → ι → Prop) [∀ s c, Decidable (allow s c)] :
    (s : σ) → (calls : List ι) → Decidable (M.ObeysFrom allow s calls)
  | _, [] => isTrue trivial
  | s, call :: calls =>
      have := decidableObeysFrom allow (M.step s call).1 calls
      inferInstanceAs (Decidable (allow s call ∧ M.ObeysFrom allow (M.step s call).1 calls))

instance (allow : σ → ι → Prop) [∀ s c, Decidable (allow s c)] (calls : List ι) :
    Decidable (M.Obeys allow calls) :=
  inferInstanceAs (Decidable (M.ObeysFrom allow M.init calls))

variable {M}

@[simp] theorem exec_nil : M.exec [] = (M.init, []) := rfl

theorem exec_concat (calls : List ι) (call : ι) :
    M.exec (calls ++ [call]) = M.extend (M.exec calls) call := by
  simp [exec]

/-- Admitted calls, cut in two. -/
theorem obeysFrom_append {allow : σ → ι → Prop} (run : σ × List (ι × ο)) (before rest : List ι) :
    M.ObeysFrom allow run.1 (before ++ rest) ↔
      M.ObeysFrom allow run.1 before ∧
        M.ObeysFrom allow (before.foldl M.extend run).1 rest := by
  induction before generalizing run with
  | nil => simp [ObeysFrom]
  | cons c before ih =>
      simp only [List.cons_append, ObeysFrom, List.foldl_cons, and_assoc]
      rw [show (M.step run.1 c).1 = (M.extend run c).1 from rfl, ih]

theorem obeys_append {allow : σ → ι → Prop} (before rest : List ι) :
    M.Obeys allow (before ++ rest) ↔
      M.Obeys allow before ∧ M.ObeysFrom allow (M.exec before).1 rest :=
  obeysFrom_append (M.init, []) before rest

theorem obeys_concat {allow : σ → ι → Prop} (calls : List ι) (call : ι) :
    M.Obeys allow (calls ++ [call]) ↔ M.Obeys allow calls ∧ allow (M.exec calls).1 call := by
  rw [obeys_append]
  simp only [ObeysFrom, and_true]

theorem ObeysFrom.mono {allow allow' : σ → ι → Prop} {s : σ} {calls : List ι}
    (h : M.ObeysFrom allow s calls) (hle : ∀ s call, allow s call → allow' s call) :
    M.ObeysFrom allow' s calls := by
  induction calls generalizing s with
  | nil => trivial
  | cons call calls ih => exact ⟨hle s call h.1, ih h.2⟩

/-- What is known of every call may be added to the condition. -/
theorem ObeysFrom.and {allow : σ → ι → Prop} {P : ι → Prop} {s : σ} {calls : List ι}
    (h : M.ObeysFrom allow s calls) (hP : ∀ call ∈ calls, P call) :
    M.ObeysFrom (fun s call => P call ∧ allow s call) s calls := by
  induction calls generalizing s with
  | nil => trivial
  | cons call calls ih =>
      exact ⟨⟨hP call (.head _), h.1⟩, ih h.2 fun c hc => hP c (.tail _ hc)⟩

/-- What holds at first and is kept by every admitted call holds behind any admitted
calls. -/
theorem invariant_of_obeys {allow : σ → ι → Prop} {I : σ → List (ι × ο) → Prop}
    (hinit : I M.init [])
    (hstep : ∀ s es call, I s es → allow s call →
      I (M.step s call).1 ((call, (M.step s call).2) :: es))
    {calls : List ι} (h : M.Obeys allow calls) : I (M.exec calls).1 (M.exec calls).2 := by
  induction calls using List.reverseRecOn with
  | nil => exact hinit
  | append_singleton calls call ih =>
      obtain ⟨hearlier, hlast⟩ := (obeys_concat calls call).mp h
      rw [exec_concat]
      exact hstep _ _ call (ih hearlier) hlast

/-- What holds at first and is kept by every call holds behind any calls. -/
theorem invariant {I : σ → List (ι × ο) → Prop} (hinit : I M.init [])
    (hstep : ∀ s es call, I s es → I (M.step s call).1 ((call, (M.step s call).2) :: es))
    (calls : List ι) : I (M.exec calls).1 (M.exec calls).2 := by
  induction calls using List.reverseRecOn with
  | nil => exact hinit
  | append_singleton calls call ih =>
      rw [exec_concat]
      exact hstep _ _ call ih

/-- A property of histories that a call keeps exactly when it is admitted holds behind
exactly the calls that are all admitted. -/
theorem forall_iff_obeys {allow : σ → ι → Prop} {P : List (ι × ο) → Prop} (hinit : P [])
    (hstep : ∀ calls call, P ((M.exec (calls ++ [call])).2) ↔
      P (M.exec calls).2 ∧ allow (M.exec calls).1 call)
    (calls : List ι) : P (M.exec calls).2 ↔ M.Obeys allow calls := by
  induction calls using List.reverseRecOn with
  | nil => exact ⟨fun _ => trivial, fun _ => hinit⟩
  | append_singleton calls call ih => rw [hstep, ih, obeys_concat]

end Machine

end AgentGather.Library
