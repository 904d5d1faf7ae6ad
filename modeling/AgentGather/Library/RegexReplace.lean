import AgentGather.Library.RegexSearch

/-!
# Global replacement

What replacing every match of a pattern makes of a text, character by character: one where
no match begins is copied, a match gives way to the replacement.  `Rewrites` says so of the
part of a text that stands before some other text, so that a replacement can be taken apart
and put together.
-/

namespace AgentGather.Library.Regex

variable {α : Type} {r s : Regex α}

/-! ## Patterns that do not look behind -/

/-- What precedes has no say in the match. -/
def isLocal : Regex α → Bool
  | start => false
  | seq r s => r.isLocal && s.isLocal
  | alt r s => r.isLocal && s.isLocal
  | star _ r => r.isLocal
  | group _ r => r.isLocal
  | ahead _ r => r.isLocal
  | _ => true

/-- The position with more text before it. -/
def Position.behind (before : List α) (p : Position α) : Position α :=
  { p with before := p.before ++ before }

theorem repetitions_behind {f : Position α → List (Position α)} {before : List α}
    (h : ∀ p, f (p.behind before) = (f p).map (Position.behind before)) (greedy : Bool) (n : Nat)
    (p : Position α) : repetitions f greedy n (p.behind before) =
      (repetitions f greedy n p).map (Position.behind before) := by
  induction n generalizing p with
  | zero => rfl
  | succ n ih =>
      have hmore : (((f (p.behind before)).filter fun q => q.rest.length < p.rest.length).flatMap
          (repetitions f greedy n)) =
          (((f p).filter fun q => q.rest.length < p.rest.length).flatMap
            (repetitions f greedy n)).map (Position.behind before) := by
        rw [h, List.filter_map, List.flatMap_map, List.map_flatMap]
        simp only [ih]
        rfl
      simp only [repetitions]
      cases greedy with
      | true =>
          simp only [if_true, List.map_append, List.map_cons, List.map_nil]
          exact congrArg (· ++ _) hmore
      | false =>
          simp only [Bool.false_eq_true, if_false, List.map_cons]
          exact congrArg (_ :: ·) hmore

theorem results_behind (h : r.isLocal = true) (before : List α) (p : Position α) :
    r.results (p.behind before) = (r.results p).map (Position.behind before) := by
  induction r generalizing p with
  | empty => rfl
  | char accepts =>
      simp only [results, Position.behind]
      cases p.rest with
      | nil => rfl
      | cons c cs =>
          dsimp only
          split <;> rfl
  | seq r s ihr ihs =>
      rw [isLocal, Bool.and_eq_true] at h
      simp only [results, ihr h.1, List.flatMap_map, List.map_flatMap, ihs h.2]
  | alt r s ihr ihs =>
      rw [isLocal, Bool.and_eq_true] at h
      simp only [results, ihr h.1, ihs h.2, List.map_append]
  | star greedy r ih => exact repetitions_behind (ih h) greedy _ p
  | group i r ih =>
      simp only [results, ih h, List.map_map]
      rfl
  | start => cases h
  | stop =>
      by_cases hrest : p.rest.isEmpty = true
      · simp [results, Position.behind, hrest]
      · simp [results, Position.behind, hrest]
  | ahead wanted r ih =>
      simp only [results, ih h, List.isEmpty_map]
      split <;> rfl

/-- The match that begins a text, and what follows it. -/
def hit (r : Regex α) (text : List α) : Option (List α × List α) :=
  (r.matchAt [] text).map fun m => (m.text, m.rest)

/-- Wherever it stands, a text begins with the same match. -/
theorem matchAt_map_eq_hit (h : r.isLocal = true) (before text : List α) :
    (r.matchAt before text).map (fun m => (m.text, m.rest)) = r.hit text := by
  have hresults := results_behind h before ⟨[], text, []⟩
  rw [hit, matchAt, matchAt, show (⟨before, text, []⟩ : Position α) =
    Position.behind before ⟨[], text, []⟩ from rfl, hresults]
  cases r.results ⟨[], text, []⟩ with
  | nil => rfl
  | cons q qs => rfl

theorem hit_eq_none_iff {text : List α} : r.hit text = none ↔ NoneAt r [] text := by
  rw [hit, Option.map_eq_none_iff, matchAt_eq_none_iff]

theorem hit_eq_some {text now after : List α} (h : r.hit text = some (now, after)) :
    text = now ++ after ∧ r.Denotes [] now after := by
  obtain ⟨m, hm, heq⟩ := Option.map_eq_some_iff.mp h
  obtain ⟨rfl, rfl⟩ := Prod.mk.inj heq
  obtain ⟨-, htext, hdenotes⟩ := matchAt_eq_some hm
  exact ⟨htext, hdenotes⟩

/-- A text does not pass the test if no match begins anywhere in it. -/
theorem test_eq_false_iff (h : r.isLocal = true) {text : List α} :
    r.test text = false ↔ ∀ v, v <:+ text → r.hit v = none := by
  rw [test, Option.isSome_eq_false_iff, Option.isNone_iff_eq_none, exec, search_eq_none_iff]
  have hhere (u v : List α) : NoneAt r (u.reverse ++ []) v ↔ r.hit v = none := by
    rw [← matchAt_map_eq_hit h (u.reverse ++ []), Option.map_eq_none_iff, matchAt_eq_none_iff]
  constructor
  · rintro hfree v ⟨u, rfl⟩
    exact (hhere u v).mp (hfree u v rfl)
  · rintro hnone u v rfl
    exact (hhere u v).mpr (hnone v (List.suffix_append u v))

/-- A match, if there is one and it can be no other. -/
theorem hit_eq_of_unique {now rest : List α} (hsome : r.hit (now ++ rest) ≠ none)
    (hunique : ∀ now' rest', now ++ rest = now' ++ rest' →
      r.hit (now' ++ rest') = some (now', rest') → now' = now) :
    r.hit (now ++ rest) = some (now, rest) := by
  cases hhit : r.hit (now ++ rest) with
  | none => exact absurd hhit hsome
  | some found =>
      obtain ⟨now', rest'⟩ := found
      have htext := (hit_eq_some hhit).1
      rw [htext] at hhit
      obtain rfl := hunique now' rest' htext hhit
      rw [List.append_cancel_left htext]

/-! ## Matches that go on as long as they can -/

/-- The preferred match ends where the text ends or `p` does not hold. -/
def EndsAt (r : Regex α) (p : α → Bool) : Prop :=
  ∀ o q, (r.results o).head? = some q → ∀ c ∈ q.rest.head?, p c = false

theorem head?_flatMap_eq_some {β : Type} {f : α → List β} {l : List α} {b : β}
    (h : (l.flatMap f).head? = some b) : ∃ a ∈ l, (f a).head? = some b := by
  induction l with
  | nil => cases h
  | cons a l ih =>
      rw [List.flatMap_cons, List.head?_append] at h
      rcases hhead : (f a).head? with _ | c
      · rw [hhead, Option.none_or] at h
        obtain ⟨a', ha', hb⟩ := ih h
        exact ⟨a', List.mem_cons_of_mem a ha', hb⟩
      · rw [hhead, Option.some_or] at h
        exact ⟨a, List.mem_cons_self, hhead.trans h⟩

theorem EndsAt.seq {p : α → Bool} (h : EndsAt s p) : EndsAt (.seq r s) p := by
  intro o q hq
  obtain ⟨o', -, hq'⟩ := head?_flatMap_eq_some hq
  exact h o' q hq'

theorem results_char_cons {p : α → Bool} {o : Position α} {c : α} {cs : List α}
    (hrest : o.rest = c :: cs) (hc : p c = true) :
    (Regex.char p).results o = [⟨c :: o.before, cs, o.groups⟩] := by
  simp only [results, hrest, hc, if_true]

theorem results_char_eq_nil {p : α → Bool} {o : Position α}
    (h : ∀ c ∈ o.rest.head?, p c = false) : (Regex.char p).results o = [] := by
  simp only [results]
  rcases hrest : o.rest with _ | ⟨c, cs⟩
  · rfl
  · have hc := h c (by rw [hrest]; rfl)
    simp only [hc, Bool.false_eq_true, if_false]

theorem endsAt_star_char (p : α → Bool) : EndsAt (.star true (.char p)) p := by
  have hrounds (n : Nat) (o q : Position α) (hn : o.rest.length ≤ n)
      (hq : (repetitions (Regex.char p).results true n o).head? = some q) :
      ∀ c ∈ q.rest.head?, p c = false := by
    induction n generalizing o with
    | zero =>
        obtain rfl : o = q := Option.some.inj hq
        intro c hc
        rw [List.length_eq_zero_iff.mp (Nat.le_zero.mp hn)] at hc
        cases hc
    | succ n ih =>
        by_cases hstop : ∀ c ∈ o.rest.head?, p c = false
        · rw [repetitions, results_char_eq_nil hstop] at hq
          obtain rfl : o = q := Option.some.inj hq
          exact hstop
        · obtain ⟨c, cs, hrest, hc⟩ : ∃ c cs, o.rest = c :: cs ∧ p c = true := by
            rcases hrest : o.rest with _ | ⟨c, cs⟩
            · rw [hrest] at hstop
              exact absurd (fun c hc => (by cases hc)) hstop
            · refine ⟨c, cs, rfl, ?_⟩
              by_contra hc
              rw [hrest] at hstop
              exact hstop fun d hd => by
                obtain rfl : c = d := Option.some.inj hd
                exact Bool.eq_false_iff.mpr hc
          have hshorter : cs.length < o.rest.length := by rw [hrest]; exact Nat.lt_succ_self _
          rw [repetitions, results_char_cons hrest hc, if_pos rfl, List.head?_append,
            List.filter_cons_of_pos (by simpa using hshorter), List.filter_nil,
            List.flatMap_cons, List.flatMap_nil, List.append_nil] at hq
          have hlater : cs.length ≤ n := by omega
          rcases hhead : (repetitions (Regex.char p).results true n
              ⟨c :: o.before, cs, o.groups⟩).head? with _ | q'
          · cases n with
            | zero => cases hhead
            | succ n =>
                rw [repetitions, if_pos rfl, List.head?_append, Option.or_eq_none_iff] at hhead
                cases hhead.2
          · rw [hhead, Option.some_or] at hq
            exact ih ⟨c :: o.before, cs, o.groups⟩ hlater (hhead.trans hq)
  exact fun o q hq => hrounds _ o q le_rfl hq

theorem endsAt_plus_char (p : α → Bool) : EndsAt (plus (.char p)) p :=
  EndsAt.seq (endsAt_star_char p)

/-- Behind the match stands no character with which it could go on. -/
theorem EndsAt.hit {p : α → Bool} (h : EndsAt r p) {text now after : List α}
    (hhit : r.hit text = some (now, after)) : ∀ c ∈ after.head?, p c = false := by
  obtain ⟨m, hm, heq⟩ := Option.map_eq_some_iff.mp hhit
  obtain ⟨q, hq, rfl⟩ := Option.map_eq_some_iff.mp hm
  obtain ⟨-, rfl⟩ := Prod.mk.inj heq
  exact h _ q hq

/-! ## Rewriting -/

/-- Every match of the pattern consumes something, and none looks behind. -/
structure Replaceable (r : Regex α) : Prop where
  isLocal : r.isLocal = true
  consumes : ∀ before after, ¬ r.Denotes before [] after

/-- Before `behind`, the first text becomes the second. -/
inductive Rewrites (r : Regex α) (w behind : List α) : List α → List α → Prop
  | nil : Rewrites r w behind [] []
  | copy {c : α} {text out : List α} : r.hit (c :: (text ++ behind)) = none →
      Rewrites r w behind text out → Rewrites r w behind (c :: text) (c :: out)
  | found {now text out : List α} : now ≠ [] →
      r.hit (now ++ (text ++ behind)) = some (now, text ++ behind) →
      Rewrites r w behind text out → Rewrites r w behind (now ++ text) (w ++ out)

/-- The whole text. -/
def Rewritten (r : Regex α) (w text out : List α) : Prop := Rewrites r w [] text out

theorem hit_of_search {before text : List α} {m : Match α} (h : r.isLocal = true)
    (hm : r.search before text = some m) :
    ∃ u, text = u ++ (m.text ++ m.rest) ∧ m.before = u.reverse ++ before ∧
      r.hit (m.text ++ m.rest) = some (m.text, m.rest) ∧
      ∀ x y, y ≠ [] → u = x ++ y → r.hit (y ++ (m.text ++ m.rest)) = none := by
  induction text generalizing before with
  | nil =>
      obtain ⟨hbefore, htext, -⟩ := matchAt_eq_some hm
      refine ⟨[], htext, hbefore, ?_, fun x y hy hxy => ?_⟩
      · rw [← htext, ← matchAt_map_eq_hit h before, show r.matchAt before [] = some m from hm]
        rfl
      · exact absurd (List.append_eq_nil_iff.mp hxy.symm).2 hy
  | cons c text ih =>
      rw [search, Option.or_eq_some_iff] at hm
      rcases hm with hm | ⟨hnone, hm⟩
      · obtain ⟨hbefore, htext, -⟩ := matchAt_eq_some hm
        refine ⟨[], htext, hbefore, ?_, fun x y hy hxy => ?_⟩
        · rw [← htext, ← matchAt_map_eq_hit h before, hm]
          rfl
        · exact absurd (List.append_eq_nil_iff.mp hxy.symm).2 hy
      · obtain ⟨u, htext, hbefore, hhit, hearlier⟩ := ih hm
        refine ⟨c :: u, by rw [htext, List.cons_append], ?_, hhit, fun x y hy hxy => ?_⟩
        · rw [hbefore, List.reverse_cons, List.append_assoc]
          rfl
        · cases x with
          | nil =>
              obtain rfl : c :: u = y := hxy
              rw [List.cons_append, ← htext, ← matchAt_map_eq_hit h before, hnone]
              rfl
          | cons d x => exact hearlier x y hy (List.cons.inj hxy).2

theorem Rewrites.copy_all {w behind u text out : List α}
    (h : ∀ x y, y ≠ [] → u = x ++ y → r.hit (y ++ (text ++ behind)) = none)
    (hrest : Rewrites r w behind text out) : Rewrites r w behind (u ++ text) (u ++ out) := by
  induction u with
  | nil => exact hrest
  | cons c u ih =>
      refine .copy ?_ (ih fun x y hy hxy => ?_)
      · have hhere := h [] (c :: u) (List.cons_ne_nil c u) rfl
        rwa [List.cons_append, ← List.append_assoc] at hhere
      · exact h (c :: x) y hy (by rw [hxy, List.cons_append])

theorem allFrom_succ {before text : List α} {m : Match α} {n : Nat}
    (hsearch : r.search before text = some m) (hne : m.text ≠ []) :
    r.allFrom (n + 1) before text =
      m :: r.allFrom n (m.text.reverse ++ m.before) m.rest := by
  obtain ⟨c, now, hnow⟩ := List.exists_cons_of_ne_nil hne
  rw [allFrom, hsearch]
  simp only [hnow]

/-- Replacing every match is rewriting the text. -/
theorem rewritten_replaceAll (h : Replaceable r) (w text : List α) :
    Rewritten r w text (r.replaceAll (fun _ => w) text) := by
  have hgo (n : Nat) (before text : List α) (hn : text.length < n) :
      Rewritten r w text
        (replaceAll.go (fun _ => w) (r.allFrom n before text) before.length text) := by
    induction n generalizing before text with
    | zero => exact absurd hn (Nat.not_lt_zero _)
    | succ n ih =>
        rcases hsearch : r.search before text with _ | m
        · rw [allFrom, hsearch]
          have hfree := search_eq_none_iff.mp hsearch
          have hcopy : Rewritten r w (text ++ []) (text ++ []) := by
            refine Rewrites.copy_all (fun x y _ hxy => ?_) .nil
            have hnone := matchAt_eq_none_iff.mpr (hfree x y hxy)
            rw [List.append_nil, List.append_nil,
              ← matchAt_map_eq_hit h.isLocal (x.reverse ++ before), hnone]
            rfl
          rwa [List.append_nil] at hcopy
        · obtain ⟨u, htext, hbefore, hhit, hearlier⟩ := hit_of_search h.isLocal hsearch
          have hne : m.text ≠ [] := by
            intro hnil
            have hdenotes := (hit_eq_some hhit).2
            rw [hnil] at hdenotes
            exact h.consumes _ _ hdenotes
          have hpos : 0 < m.text.length := List.length_pos_iff.mpr hne
          have hrest := ih (m.text.reverse ++ m.before) m.rest (by
            rw [htext, List.length_append, List.length_append] at hn
            omega)
          have hlength : (m.text.reverse ++ m.before).length = m.before.length + m.text.length := by
            rw [List.length_append, List.length_reverse, Nat.add_comm]
          have hgap : text.take (m.before.length - before.length) = u := by
            rw [hbefore, List.length_append, List.length_reverse, Nat.add_sub_cancel, htext,
              List.take_left]
          rw [allFrom_succ hsearch hne, replaceAll.go, hgap, List.append_assoc, ← hlength]
          rw [htext]
          refine Rewrites.copy_all (fun x y hy hxy => ?_) (.found hne ?_ hrest)
          · rw [List.append_nil]
            exact hearlier x y hy hxy
          · rw [List.append_nil]
            exact hhit
  exact hgo _ [] text (Nat.lt_succ_self _)

/-! ## Taking a rewriting apart -/

section Rewrites

variable {w y z : List α}

theorem Rewrites.nil_inv {out : List α} (h : Rewrites r w y [] out) : out = [] := by
  generalize hs : ([] : List α) = text at h
  cases h with
  | nil => rfl
  | copy => cases hs
  | found hne => exact absurd (List.append_eq_nil_iff.mp hs.symm).1 hne

theorem Rewrites.copy_inv {c : α} {text out : List α} (h : Rewrites r w y (c :: text) out)
    (hnone : r.hit (c :: (text ++ y)) = none) :
    ∃ out', out = c :: out' ∧ Rewrites r w y text out' := by
  generalize hs : c :: text = whole at h
  cases h with
  | nil => cases hs
  | copy _ hrest =>
      obtain ⟨rfl, rfl⟩ := List.cons.inj hs
      exact ⟨_, rfl, hrest⟩
  | found hne hhit =>
      rw [← List.append_assoc, ← hs, List.cons_append, hnone] at hhit
      cases hhit

theorem Rewrites.found_inv {now text out : List α} (hne : now ≠ [])
    (h : Rewrites r w y (now ++ text) out)
    (hhit : r.hit (now ++ (text ++ y)) = some (now, text ++ y)) :
    ∃ out', out = w ++ out' ∧ Rewrites r w y text out' := by
  generalize hs : now ++ text = whole at h
  cases h with
  | nil => exact absurd (List.append_eq_nil_iff.mp hs).1 hne
  | copy hnone =>
      rw [← List.cons_append, ← hs, List.append_assoc, hhit] at hnone
      cases hnone
  | found _ hhit' hrest =>
      rw [← List.append_assoc, ← hs, List.append_assoc, hhit] at hhit'
      obtain ⟨rfl, htext⟩ := Prod.mk.inj (Option.some.inj hhit')
      exact ⟨_, rfl, List.append_cancel_right htext ▸ hrest⟩

/-- What a text becomes is determined. -/
theorem Rewrites.unique {text out out' : List α} (h : Rewrites r w y text out)
    (h' : Rewrites r w y text out') : out = out' := by
  induction h generalizing out' with
  | nil => exact h'.nil_inv.symm
  | copy hnone _ ih =>
      obtain ⟨tail, rfl, htail⟩ := h'.copy_inv hnone
      rw [ih htail]
  | found hne hhit _ ih =>
      obtain ⟨tail, rfl, htail⟩ := h'.found_inv hne hhit
      rw [ih htail]

theorem Rewritten.eq_replaceAll (hr : Replaceable r) {text out : List α}
    (h : Rewritten r w text out) : r.replaceAll (fun _ => w) text = out :=
  (rewritten_replaceAll hr w text).unique h

/-- Two parts of a text, one behind the other. -/
theorem Rewrites.append {p a b : List α} (h : Rewrites r w (y ++ z) p a)
    (h' : Rewrites r w z y b) : Rewrites r w z (p ++ y) (a ++ b) := by
  induction h with
  | nil => exact h'
  | @copy c text out hnone _ ih =>
      have hsame : text ++ y ++ z = text ++ (y ++ z) := List.append_assoc _ _ _
      exact .copy (c := c) (hsame ▸ hnone) ih
  | @found now text out hne hhit _ ih =>
      have hsame : text ++ y ++ z = text ++ (y ++ z) := List.append_assoc _ _ _
      rw [List.append_assoc, List.append_assoc]
      exact .found hne (hsame ▸ hhit) ih

/-- What a part of the result comes from, unless the cut goes through a replacement. -/
theorem Rewrites.split {text a b : List α} (h : Rewrites r w z text (a ++ b)) :
    (∃ p y, text = p ++ y ∧ Rewrites r w (y ++ z) p a ∧ Rewrites r w z y b) ∨
      ∃ w₁ w₂, w = w₁ ++ w₂ ∧ w₁ ≠ [] ∧ w₂ ≠ [] ∧ w₁ <:+ a ∧ w₂ <+: b := by
  generalize hout : a ++ b = out at h
  induction h generalizing a with
  | nil =>
      obtain ⟨rfl, rfl⟩ := List.append_eq_nil_iff.mp hout
      exact .inl ⟨[], [], rfl, .nil, .nil⟩
  | @copy c text out hnone hrest ih =>
      cases a with
      | nil =>
          obtain rfl : b = c :: out := hout
          exact .inl ⟨[], c :: text, rfl, .nil, .copy hnone hrest⟩
      | cons d a =>
          obtain ⟨rfl, htail⟩ := List.cons.inj hout
          rcases ih htail with ⟨p, y, rfl, hp, hy⟩ | ⟨w₁, w₂, hw, h₁, h₂, hsuffix, hfront⟩
          · refine .inl ⟨d :: p, y, rfl, .copy ?_ hp, hy⟩
            rwa [← List.append_assoc]
          · exact .inr ⟨w₁, w₂, hw, h₁, h₂, hsuffix.trans (List.suffix_cons d a), hfront⟩
  | @found now text out hne hhit hrest ih =>
      rcases List.append_eq_append_iff.mp hout with ⟨w₂, rfl, hb⟩ | ⟨a', rfl, htail⟩
      · by_cases ha : a = []
        · subst ha
          refine .inl ⟨[], now ++ text, rfl, .nil, ?_⟩
          rw [hb]
          exact .found hne hhit hrest
        · by_cases hw₂ : w₂ = []
          · subst hw₂
            have hfound : Rewrites r (a ++ []) (text ++ z) (now ++ []) (a ++ [] ++ []) :=
              .found hne hhit .nil
            exact .inl ⟨now, text, rfl, by simpa using hfound, by rwa [hb]⟩
          · exact .inr ⟨a, w₂, rfl, ha, hw₂, List.suffix_rfl, hb ▸ List.prefix_append _ _⟩
      · rcases ih htail.symm with ⟨p, y, rfl, hp, hy⟩ | ⟨w₁, w₂, hw, h₁, h₂, hsuffix, hfront⟩
        · refine .inl ⟨now ++ p, y, by rw [List.append_assoc], .found hne ?_ hp, hy⟩
          rwa [← List.append_assoc p]
        · exact .inr ⟨w₁, w₂, hw, h₁, h₂, hsuffix.trans (List.suffix_append _ _), hfront⟩

/-- What the parts of a text become, unless a match goes across the cut. -/
theorem Rewrites.cut {a u out : List α} (h : Rewrites r w y (a ++ u) out) :
    (∃ o₁ o₂, out = o₁ ++ o₂ ∧ Rewrites r w (u ++ y) a o₁ ∧ Rewrites r w y u o₂) ∨
      ∃ p l m q o₁ o₂, a = p ++ l ∧ u = m ++ q ∧ l ≠ [] ∧ m ≠ [] ∧
        r.hit (l ++ (m ++ (q ++ y))) = some (l ++ m, q ++ y) ∧ out = o₁ ++ (w ++ o₂) ∧
        Rewrites r w (l ++ (u ++ y)) p o₁ ∧ Rewrites r w y q o₂ := by
  generalize htext : a ++ u = text at h
  induction h generalizing a with
  | nil =>
      obtain ⟨rfl, rfl⟩ := List.append_eq_nil_iff.mp htext
      exact .inl ⟨[], [], rfl, .nil, .nil⟩
  | @copy c text out hnone hrest ih =>
      cases a with
      | nil =>
          obtain rfl : u = c :: text := htext
          exact .inl ⟨[], c :: out, rfl, .nil, .copy hnone hrest⟩
      | cons d a =>
          obtain ⟨rfl, htail⟩ := List.cons.inj htext
          subst htail
          rcases ih rfl with ⟨o₁, o₂, rfl, h₁, h₂⟩ |
            ⟨p, l, m, q, o₁, o₂, rfl, rfl, hl, hm, hhit, rfl, h₁, h₂⟩
          · refine .inl ⟨d :: o₁, o₂, rfl, .copy ?_ h₁, h₂⟩
            rwa [← List.append_assoc]
          · refine .inr ⟨d :: p, l, m, q, d :: o₁, o₂, rfl, rfl, hl, hm, hhit, rfl, ?_, h₂⟩
            have hsame : (p ++ l) ++ (m ++ q) ++ y = p ++ (l ++ ((m ++ q) ++ y)) := by
              simp only [List.append_assoc]
            exact .copy (hsame ▸ hnone) h₁
  | @found now text out hne hhit hrest ih =>
      rcases List.append_eq_append_iff.mp htext with ⟨m, rfl, rfl⟩ | ⟨a', rfl, htail⟩
      · by_cases hm : m = []
        · subst hm
          refine .inl ⟨w, out, rfl, ?_, hrest⟩
          have hfound : Rewrites r w (text ++ y) (a ++ [] ++ []) (w ++ []) := .found hne hhit .nil
          simpa using hfound
        · by_cases ha : a = []
          · subst ha
            refine .inl ⟨[], w ++ out, rfl, .nil, ?_⟩
            exact .found hne hhit hrest
          · refine .inr ⟨[], a, m, text, [], out, rfl, rfl, ha, hm, ?_, rfl, .nil, hrest⟩
            rwa [List.append_assoc] at hhit
      · subst htail
        rcases ih rfl with ⟨o₁, o₂, rfl, h₁, h₂⟩ |
          ⟨p, l, m, q, o₁, o₂, rfl, rfl, hl, hm, hhit', rfl, h₁, h₂⟩
        · refine .inl ⟨w ++ o₁, o₂, by rw [List.append_assoc], .found hne ?_ h₁, h₂⟩
          rwa [← List.append_assoc a']
        · refine .inr ⟨now ++ p, l, m, q, w ++ o₁, o₂, by rw [List.append_assoc], rfl, hl, hm,
            hhit', by rw [List.append_assoc], .found hne ?_ h₁, h₂⟩
          simpa only [List.append_assoc] using hhit

/-- Before another text a part is rewritten to the same, if its matches are the same. -/
theorem Rewrites.change_of {text out : List α}
    (hnone : ∀ x o, x ≠ [] → x <:+ text → o <:+ out → Rewrites r w y x o →
      r.hit (x ++ y) = none → r.hit (x ++ z) = none)
    (hsome : ∀ now x, now ++ x <:+ text → r.hit (now ++ (x ++ y)) = some (now, x ++ y) →
      r.hit (now ++ (x ++ z)) = some (now, x ++ z))
    (h : Rewrites r w y text out) : Rewrites r w z text out := by
  induction h with
  | nil => exact .nil
  | @copy c text out hcopy hrest ih =>
      refine .copy (hnone (c :: text) (c :: out) (List.cons_ne_nil c text) List.suffix_rfl
        List.suffix_rfl (.copy hcopy hrest) hcopy) (ih ?_ ?_)
      · exact fun x o hx hsuffix ho => hnone x o hx (hsuffix.trans (List.suffix_cons c text))
          (ho.trans (List.suffix_cons c out))
      · exact fun now x hsuffix => hsome now x (hsuffix.trans (List.suffix_cons c text))
  | @found now text out hne hhit _ ih =>
      refine .found hne (hsome now text List.suffix_rfl hhit) (ih ?_ ?_)
      · exact fun x o hx hsuffix ho => hnone x o hx (hsuffix.trans (List.suffix_append now text))
          (ho.trans (List.suffix_append w out))
      · exact fun now' x hsuffix => hsome now' x (hsuffix.trans (List.suffix_append now text))

theorem Rewrites.change {text out : List α}
    (hnone : ∀ x, x ≠ [] → x <:+ text → r.hit (x ++ y) = none → r.hit (x ++ z) = none)
    (hsome : ∀ now x, now ++ x <:+ text → r.hit (now ++ (x ++ y)) = some (now, x ++ y) →
      r.hit (now ++ (x ++ z)) = some (now, x ++ z))
    (h : Rewrites r w y text out) : Rewrites r w z text out :=
  h.change_of (fun x _ hx hsuffix _ _ => hnone x hx hsuffix) hsome

/-- A part in which no match begins is copied. -/
theorem rewrites_self {text : List α}
    (h : ∀ v, v ≠ [] → v <:+ text → r.hit (v ++ y) = none) : Rewrites r w y text text := by
  induction text with
  | nil => exact .nil
  | cons c text ih =>
      refine .copy (h (c :: text) (List.cons_ne_nil c text) List.suffix_rfl) (ih ?_)
      exact fun v hv hsuffix => h v hv (hsuffix.trans (List.suffix_cons c text))

/-- A part that the replacement does not end or begin in was copied. -/
theorem Rewrites.eq_of_disjoint {text out : List α} {c : α} (hw : c ∈ w) (hout : c ∉ out)
    (h : Rewrites r w y text out) : text = out := by
  induction h with
  | nil => rfl
  | copy _ _ ih => rw [ih fun hmem => hout (List.mem_cons_of_mem _ hmem)]
  | found _ _ _ _ => exact absurd (List.mem_append_left _ hw) hout

/-- Where the result does not begin with the replacement no match begins. -/
theorem Rewrites.hit_eq_none {text out : List α} {c : α} (hw : c ∈ w) (hne : text ≠ [])
    (hout : c ∉ out) (h : Rewrites r w y text out) : r.hit (text ++ y) = none := by
  cases h with
  | nil => exact absurd rfl hne
  | copy hnone _ => exact hnone
  | found _ _ _ => exact absurd (List.mem_append_left _ hw) hout

/-- The result of a text with something in it begins with a character of the text, or with the
replacement of a match. -/
theorem Rewrites.cons_cases {text out : List α} {c : α} (h : Rewrites r w y text (c :: out)) :
    (∃ tail, text = c :: tail) ∨
      ∃ now rest, text = now ++ rest ∧ now ≠ [] ∧
        r.hit (now ++ (rest ++ y)) = some (now, rest ++ y) := by
  generalize hs : c :: out = whole at h
  cases h with
  | nil => cases hs
  | copy _ _ =>
      obtain ⟨rfl, -⟩ := List.cons.inj hs
      exact .inl ⟨_, rfl⟩
  | found hne hhit _ => exact .inr ⟨_, _, rfl, hne, hhit⟩

/-! ## What a rewriting leaves -/

/-- `At` holds nowhere in the text. -/
def Absent (At : List α → Prop) (text : List α) : Prop := ∀ v, v <:+ text → ¬ At v

theorem Absent.suffix {At : List α → Prop} {u text : List α} (h : Absent At text)
    (hsuffix : u <:+ text) : Absent At u := fun v hv => h v (hv.trans hsuffix)

/-- A replacement is no more than what it stands for. -/
def Collapses (r : Regex α) (w : List α) (At : List α → Prop) : Prop :=
  ∀ v now rest, r.hit (now ++ rest) = some (now, rest) → At (v ++ (w ++ rest)) →
    At (v ++ (now ++ rest))

theorem Rewrites.reflects {At : List α → Prop} (hcollapse : Collapses r w At)
    {text out : List α} (h : Rewrites r w y text out) (v : List α)
    (hat : At (v ++ (out ++ y))) : At (v ++ (text ++ y)) := by
  induction h generalizing v with
  | nil => exact hat
  | @copy c text out _ _ ih =>
      have hnext := ih (v ++ [c]) (by rwa [List.append_assoc])
      rwa [List.append_assoc] at hnext
  | @found now text out _ hhit _ ih =>
      have hnext := ih (v ++ w) (by rwa [List.append_assoc, ← List.append_assoc w])
      rw [List.append_assoc] at hnext
      rw [List.append_assoc]
      exact hcollapse v now (text ++ y) hhit hnext

/-- What begins nowhere that the rewriting copies, and not in a replacement, is not in the
result. -/
theorem Rewritten.absent {At : List α → Prop} (hcollapse : Collapses r w At)
    (hnil : ¬ At []) (hstart : ∀ w₂ v, w₂ ≠ [] → w₂ <:+ w → ¬ At (w₂ ++ v))
    {text out : List α}
    (hcopy : ∀ v, v ≠ [] → v <:+ text → r.hit v = none → ¬ At v)
    (h : Rewritten r w text out) : Absent At out := by
  unfold Rewritten at h
  induction h with
  | nil =>
      intro v hv
      rw [List.suffix_nil.mp hv]
      exact hnil
  | @copy c text out hnone hrest ih =>
      rw [List.append_nil] at hnone
      intro v hv hat
      rcases List.suffix_cons_iff.mp hv with rfl | hv
      · have hback := hrest.reflects hcollapse [c] (by rwa [List.append_nil])
        rw [List.append_nil] at hback
        exact hcopy (c :: text) (List.cons_ne_nil c text) List.suffix_rfl hnone hback
      · refine ih (fun v hne hv => hcopy v hne (hv.trans (List.suffix_cons c text))) v hv hat
  | @found now text out _ _ _ ih =>
      intro v hv hat
      have hlater := ih fun v hne hv => hcopy v hne (hv.trans (List.suffix_append now text))
      rcases le_or_gt v.length out.length with hle | hlt
      · exact hlater v (List.suffix_of_suffix_length_le hv (List.suffix_append w out) hle) hat
      · obtain ⟨w₂, rfl⟩ := List.suffix_of_suffix_length_le (List.suffix_append w out) hv hlt.le
        have hsuffix : w₂ <:+ w := by
          obtain ⟨t, ht⟩ := hv
          exact ⟨t, List.append_cancel_right ((List.append_assoc t w₂ out).trans ht)⟩
        refine hstart w₂ out (fun hw₂ => ?_) hsuffix hat
        rw [hw₂] at hlt
        exact absurd hlt (Nat.lt_irrefl _)

/-- A text without a match stays. -/
theorem rewritten_self {text : List α}
    (h : ∀ v, v ≠ [] → v <:+ text → r.hit v = none) : Rewritten r w text text :=
  rewrites_self fun v hv hsuffix => by
    rw [List.append_nil]
    exact h v hv hsuffix

/-- A character that no replacement brings does not get more. -/
theorem Rewrites.count_le [DecidableEq α] {c : α} (hw : c ∉ w) {text out : List α}
    (h : Rewrites r w y text out) : out.count c ≤ text.count c := by
  induction h with
  | nil => exact Nat.le_refl _
  | @copy d text out _ _ ih =>
      rw [List.count_cons, List.count_cons]
      exact Nat.add_le_add_right ih _
  | @found now text out _ _ _ ih =>
      rw [List.count_append, List.count_append, List.count_eq_zero_of_not_mem hw, Nat.zero_add]
      exact ih.trans (Nat.le_add_left _ _)

/-- Every character is one of the text, or one of the replacement. -/
theorem Rewrites.mem_of_mem {text out : List α} (h : Rewrites r w y text out) {c : α}
    (hc : c ∈ out) : c ∈ text ∨ c ∈ w := by
  induction h with
  | nil => exact .inl hc
  | copy _ _ ih =>
      rcases List.mem_cons.mp hc with rfl | hc
      · exact .inl List.mem_cons_self
      · exact (ih hc).imp_left (List.mem_cons_of_mem _)
  | found _ _ _ ih =>
      rcases List.mem_append.mp hc with hc | hc
      · exact .inr hc
      · exact (ih hc).imp_left (List.mem_append_right _)

theorem Rewrites.ne_nil (hw : w ≠ []) {text out : List α} (hne : text ≠ [])
    (h : Rewrites r w y text out) : out ≠ [] := by
  cases h with
  | nil => exact absurd rfl hne
  | copy _ _ => exact List.cons_ne_nil _ _
  | found _ _ _ => exact fun hnil => hw (List.append_eq_nil_iff.mp hnil).1

/-- A match does not know more of what follows it than the first character. -/
def HeadOnly (r : Regex α) : Prop :=
  ∀ now rest rest', rest.head? = rest'.head? → r.hit (now ++ rest) = some (now, rest) →
    r.hit (now ++ rest') = some (now, rest')

/-- A part is rewritten in the same way where the same text follows it, whatever follows that. -/
theorem Rewrites.of_behind (hr : HeadOnly r) {lit z z' p out : List α} (hne : lit ≠ [])
    (hnone : ∀ v, r.hit (v ++ (lit ++ z)) = none → r.hit (v ++ (lit ++ z')) = none)
    (l : List α) (h : Rewrites r w (l ++ (lit ++ z)) p out) :
    Rewrites r w (l ++ (lit ++ z')) p out := by
  obtain ⟨c, lit, rfl⟩ := List.exists_cons_of_ne_nil hne
  refine h.change (fun x _ _ hx => ?_) fun now x _ hhit => hr now _ _ ?_ hhit
  · rw [← List.append_assoc] at hx ⊢
    exact hnone _ hx
  · cases x with
    | nil => cases l <;> rfl
    | cons d x => rfl

/-- A text behind which no match ends before it is over is rewritten on its own, or taken in as
a whole by a match that begins before it. -/
theorem Rewrites.cut_whole {a u out : List α} (hends : ∀ now rest, rest <:+ u → rest ≠ [] →
      r.hit (now ++ rest) ≠ some (now, rest)) (h : Rewrites r w [] (a ++ u) out) :
    (∃ o₁ o₂, out = o₁ ++ o₂ ∧ Rewrites r w u a o₁ ∧ Rewrites r w [] u o₂) ∨
      ∃ p l o, a = p ++ l ∧ l ≠ [] ∧ out = o ++ w ∧ r.hit (l ++ u) = some (l ++ u, []) ∧
        Rewrites r w (l ++ u) p o := by
  rcases h.cut with ⟨o₁, o₂, rfl, h₁, h₂⟩ | ⟨p, l, m, q, o₁, o₂, rfl, rfl, hl, -, hhit, rfl, h₁, h₂⟩
  · rw [List.append_nil] at h₁
    exact .inl ⟨o₁, o₂, rfl, h₁, h₂⟩
  · right
    rw [List.append_nil] at hhit h₁
    rcases List.eq_nil_or_concat q with rfl | ⟨q', c, rfl⟩
    · rw [h₂.nil_inv, List.append_nil]
      rw [List.append_nil] at hhit h₁ ⊢
      exact ⟨p, l, o₁, rfl, hl, rfl, hhit, h₁⟩
    · rw [← List.append_assoc] at hhit
      exact absurd hhit (hends _ _ (List.suffix_append m _) (by simp))

end Rewrites

end AgentGather.Library.Regex
