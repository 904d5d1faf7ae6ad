import AgentGather.Library.Regex

/-!
# What a search finds

A search returns the leftmost stretch that the pattern denotes, and nothing exactly where
the pattern denotes nothing; and what the usual small patterns denote.
-/

namespace AgentGather.Library.Regex

variable {α : Type} {r : Regex α}

/-! ## Small patterns -/

theorem denotes_star_char_iff {p : α → Bool} {greedy : Bool} {before text after : List α} :
    (Regex.star greedy (.char p)).Denotes before text after ↔ ∀ c ∈ text, p c = true := by
  constructor
  · intro h
    change Rounds _ before text after at h
    induction h with
    | done => exact fun c hc => nomatch hc
    | round _ hnow _ ih =>
        obtain ⟨d, hd, rfl⟩ := hnow
        intro c hc
        rcases List.mem_cons.mp hc with rfl | hc
        · exact hd
        · exact ih c hc
  · intro h
    change Rounds _ before text after
    induction text generalizing before with
    | nil => exact .done _ _
    | cons c text ih =>
        have hround : Rounds _ before ([c] ++ text) after :=
          .round (List.cons_ne_nil c []) ⟨c, h c List.mem_cons_self, rfl⟩
            (ih fun d hd => h d (List.mem_cons_of_mem c hd))
        exact hround

theorem denotes_plus_char_iff {p : α → Bool} {before text after : List α} :
    (plus (.char p)).Denotes before text after ↔ text ≠ [] ∧ ∀ c ∈ text, p c = true := by
  constructor
  · rintro ⟨_, v, rfl, ⟨c, hc, rfl⟩, hv⟩
    refine ⟨List.cons_ne_nil c v, fun d hd => ?_⟩
    rcases List.mem_cons.mp hd with rfl | hd
    · exact hc
    · exact denotes_star_char_iff.mp hv d hd
  · rintro ⟨hne, h⟩
    obtain ⟨c, text, rfl⟩ := List.exists_cons_of_ne_nil hne
    refine ⟨[c], text, rfl, ⟨c, h c List.mem_cons_self, rfl⟩, ?_⟩
    exact denotes_star_char_iff.mpr fun d hd => h d (List.mem_cons_of_mem c hd)

/-! ## Searching -/

/-- The pattern denotes nothing that begins here. -/
def NoneAt (r : Regex α) (before rest : List α) : Prop :=
  ∀ text after, rest = text ++ after → ¬ r.Denotes before text after

/-- The pattern denotes nothing from here on. -/
def Free (r : Regex α) (before rest : List α) : Prop :=
  ∀ u v, rest = u ++ v → NoneAt r (u.reverse ++ before) v

theorem matchAt_eq_none_iff {before rest : List α} :
    r.matchAt before rest = none ↔ NoneAt r before rest := by
  have hlists := results_lists r
  rw [matchAt, Option.map_eq_none_iff, List.head?_eq_none_iff]
  constructor
  · intro hnone text after hrest hdenotes
    obtain ⟨q, hq, -⟩ := hlists.2 ⟨before, rest, []⟩ text after hrest hdenotes
    rw [hnone] at hq
    cases hq
  · intro hnone
    refine List.eq_nil_iff_forall_not_mem.mpr fun q hq => ?_
    obtain ⟨text, hreaches, hdenotes⟩ := hlists.1 _ q hq
    exact hnone text q.rest hreaches.1 hdenotes

theorem matchAt_eq_some {before rest : List α} {m : Match α}
    (h : r.matchAt before rest = some m) :
    m.before = before ∧ rest = m.text ++ m.rest ∧ r.Denotes before m.text m.rest := by
  obtain ⟨q, hq, rfl⟩ := Option.map_eq_some_iff.mp h
  obtain ⟨text, hreaches, hdenotes⟩ := (results_lists r).1 _ q (List.mem_of_head? hq)
  have hrest : rest = text ++ q.rest := hreaches.1
  have htext : rest.take (rest.length - q.rest.length) = text := by
    rw [hrest, List.length_append, Nat.add_sub_cancel, List.take_left]
  exact ⟨rfl, by rw [htext, hrest], by rw [htext]; exact hdenotes⟩

theorem free_cons_iff {before rest : List α} {c : α} :
    Free r before (c :: rest) ↔ NoneAt r before (c :: rest) ∧ Free r (c :: before) rest := by
  constructor
  · refine fun h => ⟨h [] _ rfl, fun u v huv => ?_⟩
    have hcons := h (c :: u) v (congrArg (c :: ·) huv)
    rwa [List.reverse_cons, List.append_assoc] at hcons
  · rintro ⟨hhere, hlater⟩ u v huv
    cases u with
    | nil =>
        obtain rfl : c :: rest = v := huv
        exact hhere
    | cons d u =>
        obtain ⟨rfl, hrest⟩ := List.cons.inj huv
        rw [List.reverse_cons, List.append_assoc]
        exact hlater u v hrest

/-- A search finds nothing exactly where nothing is denoted. -/
theorem search_eq_none_iff {before rest : List α} :
    r.search before rest = none ↔ Free r before rest := by
  induction rest generalizing before with
  | nil =>
      rw [search, matchAt_eq_none_iff]
      constructor
      · intro h u v huv
        obtain ⟨rfl, rfl⟩ := List.append_eq_nil_iff.mp huv.symm
        exact h
      · exact fun h => h [] [] rfl
  | cons c rest ih => rw [search, Option.or_eq_none_iff, matchAt_eq_none_iff, ih, free_cons_iff]

/-- What a search finds is denoted, and nothing is that begins earlier. -/
theorem search_eq_some {before rest : List α} {m : Match α}
    (h : r.search before rest = some m) :
    ∃ u, rest = u ++ (m.text ++ m.rest) ∧ m.before = u.reverse ++ before ∧
      r.Denotes m.before m.text m.rest ∧
      ∀ x y, y ≠ [] → u = x ++ y →
        NoneAt r (x.reverse ++ before) (y ++ (m.text ++ m.rest)) := by
  have hhere {before rest : List α} (h : r.matchAt before rest = some m) :
      ∃ u, rest = u ++ (m.text ++ m.rest) ∧ m.before = u.reverse ++ before ∧
        r.Denotes m.before m.text m.rest ∧
        ∀ x y, y ≠ [] → u = x ++ y →
          NoneAt r (x.reverse ++ before) (y ++ (m.text ++ m.rest)) := by
    obtain ⟨rfl, hrest, hdenotes⟩ := matchAt_eq_some h
    refine ⟨[], hrest, rfl, hdenotes, fun x y hy hxy => ?_⟩
    exact absurd (List.append_eq_nil_iff.mp hxy.symm).2 hy
  induction rest generalizing before with
  | nil => exact hhere h
  | cons c rest ih =>
      rw [search, Option.or_eq_some_iff] at h
      rcases h with h | ⟨hnone, h⟩
      · exact hhere h
      · obtain ⟨u, hrest, hbefore, hdenotes, hearlier⟩ := ih h
        refine ⟨c :: u, by rw [hrest, List.cons_append], ?_, hdenotes, fun x y hy hxy => ?_⟩
        · rw [hbefore, List.reverse_cons, List.append_assoc]
          rfl
        · cases x with
          | nil =>
              obtain rfl : c :: u = y := hxy
              rw [List.cons_append, ← hrest]
              exact matchAt_eq_none_iff.mp hnone
          | cons d x =>
              obtain ⟨rfl, hu⟩ := List.cons.inj hxy
              rw [List.reverse_cons, List.append_assoc]
              exact hearlier x y hy hu

/-- A text passes the test if some stretch of it is denoted. -/
theorem test_iff {text : List α} :
    r.test text = true ↔ ∃ u v w, text = u ++ (v ++ w) ∧ r.Denotes u.reverse v w := by
  rw [← Bool.not_eq_false, test, Option.isSome_eq_false_iff, Option.isNone_iff_eq_none, exec,
    search_eq_none_iff]
  simp only [Free, NoneAt, List.append_nil, not_forall, not_not]
  constructor
  · rintro ⟨u, _, hu, v, w, rfl, hdenotes⟩
    exact ⟨u, v, w, hu, hdenotes⟩
  · rintro ⟨u, v, w, hu, hdenotes⟩
    exact ⟨u, _, hu, v, w, rfl, hdenotes⟩

end AgentGather.Library.Regex
