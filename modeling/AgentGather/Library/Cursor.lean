import Mathlib.Data.List.Pairwise
import Mathlib.Order.Lattice

/-!
# Reading a log with a cursor

A log whose keys increase, and what is left of it on one side of a key: where a page of the
rest begins or ends, the rest continues on the other side of the page.
-/

namespace AgentGather.Library.Cursor

variable {α κ : Type} [LinearOrder κ] (key : α → κ)

/-- The keys increase along the log. -/
def Increasing (log : List α) : Prop := log.Pairwise fun x y => key x < key y

/-- What is older than the key. -/
def before (log : List α) (k : κ) : List α := log.filter fun x => key x < k

/-- What is newer than the key. -/
def after (log : List α) (k : κ) : List α := log.filter fun x => k < key x

variable {key}

theorem mem_before {log : List α} {k : κ} {x : α} :
    x ∈ before key log k ↔ x ∈ log ∧ key x < k := by
  simp [before]

theorem mem_after {log : List α} {k : κ} {x : α} :
    x ∈ after key log k ↔ x ∈ log ∧ k < key x := by
  simp [after]

/-- A narrower filter of a log, given the parts of what a wider one leaves. -/
theorem filter_of_append {p q : α → Bool} {log u v : List α} (h : log.filter p = u ++ v)
    (hpq : ∀ y, q y = true → p y = true) : log.filter q = u.filter q ++ v.filter q := by
  rw [← List.filter_append, ← h, List.filter_filter]
  apply List.filter_congr
  intro y _
  cases hq : q y with
  | false => rfl
  | true => simp [hpq y hq]

/-- What is older than an entry stands before it. -/
theorem before_of_append {log u v : List α} {x : α} {k : κ} (h : Increasing key log)
    (hsplit : before key log k = u ++ x :: v) : before key log (key x) = u := by
  have hx : key x < k := (mem_before.mp (hsplit ▸ List.mem_append_right u List.mem_cons_self)).2
  have hinc : (u ++ x :: v).Pairwise fun x y => key x < key y := by
    rw [← hsplit]
    exact h.filter _
  obtain ⟨-, hxv, hcross⟩ := List.pairwise_append.mp hinc
  have hu : ∀ y ∈ u, key y < key x := fun y hy => hcross y hy x List.mem_cons_self
  have hv : ∀ y ∈ x :: v, ¬ key y < key x := by
    intro y hy
    rcases List.mem_cons.mp hy with rfl | hy
    · exact lt_irrefl _
    · exact not_lt_of_gt ((List.pairwise_cons.mp hxv).1 y hy)
  rw [before, filter_of_append hsplit fun y hy => by simpa using lt_trans (by simpa using hy) hx,
    List.filter_eq_self.mpr (by simpa using hu), List.filter_eq_nil_iff.mpr (by simpa using hv),
    List.append_nil]

/-- What is newer than an entry stands behind it. -/
theorem after_of_append {log u v : List α} {x : α} {k : κ} (h : Increasing key log)
    (hsplit : after key log k = u ++ x :: v) : after key log (key x) = v := by
  have hx : k < key x := (mem_after.mp (hsplit ▸ List.mem_append_right u List.mem_cons_self)).2
  have hinc : (u ++ x :: v).Pairwise fun x y => key x < key y := by
    rw [← hsplit]
    exact h.filter _
  obtain ⟨-, hxv, hcross⟩ := List.pairwise_append.mp hinc
  have hu : ∀ y ∈ u, ¬ key x < key y :=
    fun y hy => not_lt_of_gt (hcross y hy x List.mem_cons_self)
  have hv : ∀ y ∈ v, key x < key y := (List.pairwise_cons.mp hxv).1
  rw [after, filter_of_append hsplit fun y hy => by simpa using lt_trans hx (by simpa using hy),
    List.filter_eq_nil_iff.mpr (by simpa using hu), List.filter_cons_of_neg (by simp),
    List.filter_eq_self.mpr (by simpa using hv), List.nil_append]

end AgentGather.Library.Cursor
