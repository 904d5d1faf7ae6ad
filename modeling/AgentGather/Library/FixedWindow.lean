import Mathlib.Data.List.Induction
import Mathlib.Data.List.TakeWhile

/-!
# Fixed windows

A limiter that counts calls in windows.  A call opens a window if none is open, and belongs
to the open one otherwise; what it is told depends on its place in the window.  The calls of
a limiter fall into windows that are told by their times alone.
-/

namespace AgentGather.Library.FixedWindow

/-- The end of a window, and how many calls it has had. -/
structure Window where
  resetAt : Nat
  count : Nat
deriving DecidableEq, Repr

/-- The window, if it is not over. -/
def live (now : Nat) (window : Option Window) : Option Window :=
  window.filter fun w => now < w.resetAt

/-- The window a call belongs to, with the call counted. -/
def call (span now : Nat) (window : Option Window) : Window :=
  match live now window with
  | none => ⟨now + span, 1⟩
  | some w => { w with count := w.count + 1 }

/-- The first call of a window is let through, and so are others below the limit. -/
def admits (limit : Nat) (window : Window) : Bool := window.count ≤ max limit 1

/-- What calls at these times are told, from this window on. -/
def run (span limit : Nat) : Option Window → List Nat → List Bool
  | _, [] => []
  | window, now :: times =>
      admits limit (call span now window) :: run span limit (some (call span now window)) times

/-- The windows that calls fall into, told by their times. -/
def windows {α : Type} (span : Nat) (time : α → Nat) : List α → List (List α)
  | [] => []
  | c :: calls =>
      (c :: calls.takeWhile (time · < time c + span)) ::
        windows span time (calls.dropWhile (time · < time c + span))
termination_by calls => calls.length
decreasing_by exact Nat.lt_succ_of_le (List.length_dropWhile_le _ _)

/-- In a window of this many calls the first ones are let through. -/
def decisions (limit length : Nat) : List Bool :=
  (List.range length).map fun i => decide (i < max limit 1)

theorem live_some_of_lt {now : Nat} {w : Window} (h : now < w.resetAt) :
    live now (some w) = some w := by
  rw [live, Option.filter_some_pos (by simpa using h)]

theorem live_some_of_le {now : Nat} {w : Window} (h : w.resetAt ≤ now) :
    live now (some w) = none := by
  rw [live, Option.filter_some_neg (by simpa using h)]

/-- A window that is over is as good as none. -/
theorem run_congr {span limit : Nat} {window window' : Option Window} {times : List Nat}
    (h : ∀ now ∈ times.head?, live now window = live now window') :
    run span limit window times = run span limit window' times := by
  cases times with
  | nil => rfl
  | cons now times =>
      have hlive : live now window = live now window' := h now rfl
      simp only [run, call, hlive]

/-- The calls of an open window come first, then those behind its end. -/
theorem run_open (span limit : Nat) (w : Window) (times : List Nat) :
    run span limit (some w) times =
      (List.range (times.takeWhile (· < w.resetAt)).length).map
          (fun i => decide (w.count + i < max limit 1)) ++
        run span limit none (times.dropWhile (· < w.resetAt)) := by
  induction times generalizing w with
  | nil => rfl
  | cons now times ih =>
      by_cases hopen : now < w.resetAt
      · have hcall : call span now (some w) = { w with count := w.count + 1 } := by
          rw [call, live_some_of_lt hopen]
        rw [run, hcall, ih, List.takeWhile_cons_of_pos (by simpa using hopen),
          List.dropWhile_cons_of_pos (by simpa using hopen), List.length_cons,
          List.range_succ_eq_map, List.map_cons, List.map_map, List.cons_append]
        congr 1
        congr 1
        apply List.map_congr_left
        intro i _
        have hcount : w.count + 1 + i = w.count + (i + 1) := by omega
        simp only [Function.comp_apply, hcount]
      · rw [List.takeWhile_cons_of_neg (by simpa using hopen),
          List.dropWhile_cons_of_neg (by simpa using hopen)]
        apply run_congr
        rintro _ ⟨⟩
        rw [live_some_of_le (not_lt.mp hopen)]
        rfl

/-- In every window the first calls are let through, and no others. -/
theorem run_windows {α : Type} (span limit : Nat) (time : α → Nat) (calls : List α) :
    run span limit none (calls.map time) =
      (windows span time calls).flatMap fun window => decisions limit window.length := by
  induction calls using windows.induct span time with
  | case1 => simp [run, windows]
  | case2 c calls ih =>
      have hfirst : admits limit ⟨time c + span, 1⟩ = true := decide_eq_true (le_max_right _ _)
      rw [windows, List.flatMap_cons, ← ih, List.map_cons, run]
      change admits limit ⟨time c + span, 1⟩ ::
        run span limit (some ⟨time c + span, 1⟩) (calls.map time) = _
      rw [run_open, hfirst, decisions, List.length_cons, List.range_succ_eq_map, List.map_cons,
        List.map_map, List.cons_append, List.takeWhile_map, List.dropWhile_map, List.length_map]
      congr 1
      · exact (decide_eq_true (by omega)).symm
      · congr 1
        apply List.map_congr_left
        intro i _
        simp [Nat.add_comm]

/-- The window behind calls at these times. -/
def after (span : Nat) (times : List Nat) : Option Window :=
  times.foldl (fun window now => some (call span now window)) none

theorem after_concat (span now : Nat) (times : List Nat) :
    after span (times ++ [now]) = some (call span now (after span times)) := by
  rw [after, List.foldl_append]
  rfl

theorem count_pos_of_after {span : Nat} {times : List Nat} {w : Window}
    (h : after span times = some w) : 0 < w.count := by
  induction times using List.reverseRecOn with
  | nil => cases h
  | append_singleton times now _ =>
      rw [after_concat] at h
      rw [← Option.some.inj h, call]
      split
      · exact Nat.one_pos
      · exact Nat.succ_pos _

/-- One more call. -/
theorem run_concat (span limit now : Nat) (times : List Nat) :
    run span limit none (times ++ [now]) =
      run span limit none times ++ [admits limit (call span now (after span times))] := by
  have hgeneral (window : Option Window) : run span limit window (times ++ [now]) =
      run span limit window times ++ [admits limit (call span now
        (times.foldl (fun window now => some (call span now window)) window))] := by
    induction times generalizing window with
    | nil => rfl
    | cons t times ih => rw [List.cons_append, run, run, ih, List.cons_append, List.foldl_cons]
  exact hgeneral none

/-- The windows are the calls, in order. -/
theorem flatten_windows {α : Type} (span : Nat) (time : α → Nat) (calls : List α) :
    (windows span time calls).flatten = calls := by
  induction calls using windows.induct span time with
  | case1 => simp [windows]
  | case2 c calls ih =>
      rw [windows, List.flatten_cons, ih, List.cons_append, List.takeWhile_append_dropWhile]

theorem length_decisions (limit length : Nat) : (decisions limit length).length = length := by
  simp [decisions]

/-- A window has as many calls let through as it has calls, up to its limit, or one. -/
theorem countP_decisions (limit length : Nat) :
    (decisions limit length).countP id = min length (max limit 1) := by
  induction length with
  | zero => simp [decisions]
  | succ n ih =>
      have hsnoc : decisions limit (n + 1) =
          decisions limit n ++ [decide (n < max limit 1)] := by
        rw [decisions, List.range_succ, List.map_append, decisions]
        rfl
      rw [hsnoc, List.countP_append, ih]
      by_cases hlt : n < max limit 1
      · rw [decide_eq_true hlt]
        simp only [List.countP_singleton, id_eq, if_true]
        omega
      · rw [decide_eq_false hlt]
        simp only [List.countP_singleton, id_eq, Bool.false_eq_true, if_false]
        omega

/-- Blocks are told by their concatenation and their lengths. -/
theorem map_eq_of_flatMap_eq {α β : Type} {f g : α → List β} {blocks : List α}
    (hlength : ∀ b ∈ blocks, (f b).length = (g b).length)
    (h : blocks.flatMap f = blocks.flatMap g) : ∀ b ∈ blocks, f b = g b := by
  induction blocks with
  | nil => exact fun b hb => nomatch hb
  | cons b blocks ih =>
      rw [List.flatMap_cons, List.flatMap_cons] at h
      obtain ⟨hhead, htail⟩ := List.append_inj h (hlength b List.mem_cons_self)
      intro b' hb'
      rcases List.mem_cons.mp hb' with rfl | hb'
      · exact hhead
      · exact ih (fun b hb => hlength b (List.mem_cons_of_mem _ hb)) htail b' hb'

/-- Of calls that are told what a limiter tells them, no window has more let through. -/
theorem countP_window_le {α : Type} {span limit : Nat} {time : α → Nat} {told : α → Bool}
    {calls : List α} (h : calls.map told = run span limit none (calls.map time))
    {window : List α} (hwindow : window ∈ windows span time calls) :
    window.countP told ≤ max limit 1 := by
  have hblocks : (windows span time calls).flatMap (List.map told) =
      (windows span time calls).flatMap fun window => decisions limit window.length := by
    rw [← run_windows, ← h, List.flatMap_def, ← List.map_flatten, flatten_windows]
  have htold := map_eq_of_flatMap_eq
    (fun b _ => by rw [List.length_map, length_decisions]) hblocks window hwindow
  have hcount : window.countP told = (window.map told).countP id := by
    rw [List.countP_map]
    rfl
  rw [hcount, htold, countP_decisions]
  exact min_le_right _ _

end AgentGather.Library.FixedWindow
