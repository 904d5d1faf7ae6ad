import AgentGather.Library.RegexReplace

/-!
# Scanning a text

A global search as a walk over the text: a character where nothing begins is passed, and a
match is passed as a whole.  And the preferred matches of runs of characters.
-/

namespace AgentGather.Library.Regex

variable {α : Type} {r : Regex α}

/-! ## Preferred matches -/

/-- A greedy run takes all it can. -/
theorem head?_results_star_char (p : α → Bool) (o : Position α) :
    ((Regex.star true (.char p)).results o).head? =
      some ⟨(o.rest.takeWhile p).reverse ++ o.before, o.rest.dropWhile p, o.groups⟩ := by
  have hrounds (n : Nat) (o : Position α) (hn : o.rest.length ≤ n) :
      (repetitions (Regex.char p).results true n o).head? =
        some ⟨(o.rest.takeWhile p).reverse ++ o.before, o.rest.dropWhile p, o.groups⟩ := by
    induction n generalizing o with
    | zero =>
        obtain ⟨before, rest, groups⟩ := o
        obtain rfl : rest = [] := List.length_eq_zero_iff.mp (Nat.le_zero.mp hn)
        rfl
    | succ n ih =>
        obtain ⟨before, rest, groups⟩ := o
        cases rest with
        | nil => rfl
        | cons c cs =>
            by_cases hc : p c = true
            · have hlater := ih ⟨c :: before, cs, groups⟩ (Nat.le_of_succ_le_succ hn)
              rw [repetitions, results_char_cons rfl hc, if_pos rfl, List.head?_append,
                List.filter_cons_of_pos (by simp), List.filter_nil,
                List.flatMap_cons, List.flatMap_nil, List.append_nil, hlater,
                List.takeWhile_cons_of_pos hc, List.dropWhile_cons_of_pos hc,
                List.reverse_cons, List.append_assoc]
              rfl
            · have hstop : (Regex.char p).results ⟨before, c :: cs, groups⟩ = [] :=
                results_char_eq_nil fun d hd => by
                  rw [← Option.some.inj hd]
                  exact (Bool.not_eq_true _).mp hc
              rw [repetitions, hstop, List.takeWhile_cons_of_neg hc,
                List.dropWhile_cons_of_neg hc]
              rfl
  exact hrounds _ o le_rfl

theorem head?_results_plus_char (p : α → Bool) (o : Position α) :
    ((plus (.char p)).results o).head? =
      if o.rest.takeWhile p = [] then none
      else some ⟨(o.rest.takeWhile p).reverse ++ o.before, o.rest.dropWhile p, o.groups⟩ := by
  obtain ⟨before, rest, groups⟩ := o
  cases rest with
  | nil => rfl
  | cons c cs =>
      by_cases hc : p c = true
      · rw [plus, results, results_char_cons rfl hc, List.flatMap_singleton,
          head?_results_star_char, List.takeWhile_cons_of_pos hc,
          List.dropWhile_cons_of_pos hc, if_neg (List.cons_ne_nil _ _), List.reverse_cons,
          List.append_assoc]
        rfl
      · have hstop : (Regex.char p).results ⟨before, c :: cs, groups⟩ = [] :=
          results_char_eq_nil fun d hd => by
            rw [← Option.some.inj hd]
            exact (Bool.not_eq_true _).mp hc
        rw [plus, results, hstop, List.takeWhile_cons_of_neg hc, if_pos rfl]
        rfl

/-! ## The walk -/

theorem search_of_matchAt {before rest : List α} {m : Match α}
    (h : r.matchAt before rest = some m) : r.search before rest = some m := by
  cases rest with
  | nil => exact h
  | cons c cs => rw [search, h, Option.some_or]

/-- Where nothing begins, the search goes on behind the character. -/
theorem allFrom_of_none {before rest : List α} {c : α} (n : Nat)
    (h : r.matchAt before (c :: rest) = none) :
    r.allFrom n before (c :: rest) = r.allFrom n (c :: before) rest := by
  have hsearch : r.search before (c :: rest) = r.search (c :: before) rest := by
    rw [search, h, Option.none_or]
  cases n with
  | zero => rfl
  | succ n => rw [allFrom, allFrom, hsearch]

/-- Where a match begins, the search goes on behind it. -/
theorem allFrom_of_some {before rest : List α} {m : Match α} (n : Nat)
    (h : r.matchAt before rest = some m) (hne : m.text ≠ []) :
    r.allFrom (n + 1) before rest = m :: r.allFrom n (m.text.reverse ++ before) m.rest := by
  rw [allFrom_succ (search_of_matchAt h) hne, (matchAt_eq_some h).1]

theorem allFrom_nil {before : List α} (n : Nat) (h : r.matchAt before [] = none) :
    r.allFrom n before [] = [] := by
  cases n with
  | zero => rfl
  | succ n => rw [allFrom, search, h]

/-- The same, by the end of the preferred match. -/
theorem allFrom_of_head? {before rest : List α} {q : Position α} (n : Nat)
    (h : (r.results ⟨before, rest, []⟩).head? = some q) (hshorter : q.rest.length < rest.length) :
    ∃ m, r.allFrom (n + 1) before rest = m :: r.allFrom n q.before q.rest ∧
      m.groups = q.groups := by
  obtain ⟨text, hreaches, -⟩ := (results_lists r).1 _ q (List.mem_of_head? h)
  have hrest : rest = text ++ q.rest := hreaches.1
  have hbefore : q.before = text.reverse ++ before := hreaches.2
  have htake : rest.take (rest.length - q.rest.length) = text := by
    rw [hrest, List.length_append, Nat.add_sub_cancel, List.take_left]
  have hmatch : r.matchAt before rest = some ⟨before, text, q.rest, q.groups⟩ := by
    rw [matchAt, h, Option.map_some, htake]
  have hne : text ≠ [] := by
    rintro rfl
    rw [hrest] at hshorter
    exact lt_irrefl _ hshorter
  exact ⟨_, hbefore ▸ allFrom_of_some n hmatch hne, rfl⟩

theorem allFrom_of_head?_none {before rest : List α} {c : α} (n : Nat)
    (h : (r.results ⟨before, c :: rest, []⟩).head? = none) :
    r.allFrom n before (c :: rest) = r.allFrom n (c :: before) rest :=
  allFrom_of_none n (by rw [matchAt, h, Option.map_none])

/-! ## The pieces of a text -/

/-- A stretch between the matches, or a match. -/
inductive Piece (α : Type) where
  | between (text : List α)
  | found (text : List α)
deriving DecidableEq, Repr

def Piece.text : Piece α → List α
  | between text => text
  | found text => text

/-- The text between the matches and the matches, in turn; `passed` characters have been
passed. -/
def piecesFrom : List (Match α) → Nat → List α → List (Piece α)
  | [], _, rest => [.between rest]
  | m :: ms, passed, rest =>
      .between (rest.take (m.before.length - passed)) :: .found m.text ::
        piecesFrom ms (m.before.length + m.text.length) m.rest

/-- The text, cut at the successive matches of the pattern. -/
def pieces (r : Regex α) (text : List α) : List (Piece α) :=
  piecesFrom (r.matchAll text) 0 text

/-- Every match of the pattern consumes something. -/
def Consumes (r : Regex α) : Prop := ∀ before after, ¬ r.Denotes before [] after

/-- Nothing of the text is lost, and the matches are stretches of it that the pattern
denotes. -/
theorem piecesFrom_allFrom (h : r.Consumes) (n : Nat) (before rest : List α)
    (hn : rest.length < n) :
    (piecesFrom (r.allFrom n before rest) before.length rest).flatMap Piece.text = rest ∧
      ∀ v, .found v ∈ piecesFrom (r.allFrom n before rest) before.length rest →
        v ≠ [] ∧ v.length ≤ rest.length ∧ ∃ front back, r.Denotes front v back := by
  induction n generalizing before rest with
  | zero => exact absurd hn (Nat.not_lt_zero _)
  | succ n ih =>
      cases hsearch : r.search before rest with
      | none =>
          have hall : r.allFrom (n + 1) before rest = [] := by rw [allFrom, hsearch]
          rw [hall, piecesFrom]
          refine ⟨by simp [Piece.text], fun v hv => ?_⟩
          cases List.mem_singleton.mp hv
      | some m =>
          obtain ⟨u, hrest, hbefore, hdenotes, -⟩ := search_eq_some hsearch
          have hne : m.text ≠ [] := by
            intro hnil
            rw [hnil] at hdenotes
            exact h _ _ hdenotes
          have hpos := List.length_pos_iff.mpr hne
          have hlength : rest.length = u.length + (m.text.length + m.rest.length) := by
            rw [hrest, List.length_append, List.length_append]
          have hpassed : m.before.length - before.length = u.length := by
            rw [hbefore, List.length_append, List.length_reverse, Nat.add_sub_cancel]
          have hbehind : (m.text.reverse ++ m.before).length =
              m.before.length + m.text.length := by
            rw [List.length_append, List.length_reverse, Nat.add_comm]
          obtain ⟨htext, hfound⟩ := ih (m.text.reverse ++ m.before) m.rest (by omega)
          rw [hbehind] at htext hfound
          rw [allFrom_succ hsearch hne, piecesFrom, hpassed]
          constructor
          · rw [List.flatMap_cons, List.flatMap_cons, htext]
            conv_rhs => rw [hrest]
            rw [hrest]
            simp [Piece.text]
          · intro v hv
            rcases List.mem_cons.mp hv with hv | hv
            · cases hv
            rcases List.mem_cons.mp hv with hv | hv
            · cases hv
              exact ⟨hne, by omega, _, _, hdenotes⟩
            · obtain ⟨hne', hle, hdenotes'⟩ := hfound v hv
              exact ⟨hne', by omega, hdenotes'⟩

theorem flatMap_text_pieces (h : r.Consumes) (text : List α) :
    (r.pieces text).flatMap Piece.text = text :=
  (piecesFrom_allFrom h _ [] text (Nat.lt_succ_self _)).1

theorem found_of_mem_pieces (h : r.Consumes) {text v : List α}
    (hv : .found v ∈ r.pieces text) :
    v ≠ [] ∧ v.length ≤ text.length ∧ ∃ front back, r.Denotes front v back :=
  (piecesFrom_allFrom h _ [] text (Nat.lt_succ_self _)).2 v hv

/-! ## Matches step by step -/

/-- If the preferred way through the first part leads on, it is the way through both. -/
theorem head?_results_seq {s : Regex α} {o p q : Position α}
    (h : (r.results o).head? = some p) (h' : (s.results p).head? = some q) :
    ((Regex.seq r s).results o).head? = some q := by
  cases hr : r.results o with
  | nil =>
      rw [hr] at h
      cases h
  | cons p' later =>
      rw [hr, List.head?_cons, Option.some.injEq] at h
      rw [results, hr, List.flatMap_cons, List.head?_append, h, h', Option.some_or]

theorem take_length_sub_dropWhile (p : α → Bool) (cs : List α) :
    cs.take (cs.length - (cs.dropWhile p).length) = cs.takeWhile p := by
  have hlength : cs.length = (cs.takeWhile p).length + (cs.dropWhile p).length := by
    rw [← List.length_append, List.takeWhile_append_dropWhile]
  have htake : (cs.takeWhile p ++ cs.dropWhile p).take (cs.takeWhile p).length =
      cs.takeWhile p := List.take_left
  rw [List.takeWhile_append_dropWhile] at htake
  rw [hlength, Nat.add_sub_cancel, htake]

theorem results_lit [BEq α] [LawfulBEq α] (text before rest : List α)
    (groups : List (Nat × List α)) :
    (Regex.lit text).results ⟨before, text ++ rest, groups⟩ =
      [⟨text.reverse ++ before, rest, groups⟩] := by
  induction text generalizing before with
  | nil => rfl
  | cons c text ih =>
      have hfirst : (Regex.char (· == c)).results ⟨before, c :: (text ++ rest), groups⟩ =
          [⟨c :: before, text ++ rest, groups⟩] := results_char_cons rfl (beq_self_eq_true c)
      rw [lit, results, List.cons_append, hfirst, List.flatMap_singleton, ih, List.reverse_cons,
        List.append_assoc]
      rfl

/-- A group takes a run up to a character that ends it. -/
theorem head?_results_group_plus {p : α → Bool} {run : List α} (hne : run ≠ [])
    (hrun : ∀ c ∈ run, p c = true) (rest : List α) (hstop : ∀ c ∈ rest.head?, p c = false)
    (i : Nat) (before : List α) (groups : List (Nat × List α)) :
    ((Regex.group i (plus (.char p))).results ⟨before, run ++ rest, groups⟩).head? =
      some ⟨run.reverse ++ before, rest, (i, run) :: groups⟩ := by
  have htake : (run ++ rest).takeWhile p = run := by
    rw [List.takeWhile_append_of_pos hrun]
    cases rest with
    | nil => rw [List.takeWhile_nil, List.append_nil]
    | cons c rest => rw [List.takeWhile_cons_of_neg (by simpa using hstop c rfl), List.append_nil]
  have hdrop : (run ++ rest).dropWhile p = rest := by
    rw [List.dropWhile_append_of_pos hrun]
    cases rest with
    | nil => rfl
    | cons c rest => rw [List.dropWhile_cons_of_neg (by simpa using hstop c rfl)]
  have hkept := take_length_sub_dropWhile p (run ++ rest)
  rw [htake, hdrop] at hkept
  rw [results, List.head?_map, head?_results_plus_char, htake, hdrop, if_neg hne,
    Option.map_some, hkept]

/-- A match at the beginning of the text is the one that is found. -/
theorem exec_of_head? {text : List α} {q : Position α}
    (h : (r.results ⟨[], text, []⟩).head? = some q) :
    ∃ m, r.exec text = some m ∧ m.groups = q.groups := by
  refine ⟨⟨[], text.take (text.length - q.rest.length), q.rest, q.groups⟩, ?_, rfl⟩
  apply search_of_matchAt
  rw [matchAt, h, Option.map_some]

/-! ## How a match begins -/

/-- What the pattern matches begins with such a character. -/
def Starts (p : α → Bool) (r : Regex α) : Prop :=
  ∀ before text after, r.Denotes before text after → text.head?.any p = true

theorem starts_char (p : α → Bool) : Starts p (.char p) := by
  rintro before _ after ⟨c, hc, rfl⟩
  exact hc

theorem Starts.seq {p : α → Bool} (h : Starts p r) (s : Regex α) : Starts p (.seq r s) := by
  rintro before _ after ⟨u, v, rfl, hu, -⟩
  have hhead := h _ _ _ hu
  cases u with
  | nil => cases hhead
  | cons c u => exact hhead

theorem Starts.alt {p : α → Bool} {s : Regex α} (h : Starts p r) (h' : Starts p s) :
    Starts p (.alt r s) := by
  rintro before text after (hr | hs)
  · exact h _ _ _ hr
  · exact h' _ _ _ hs

theorem Starts.group {p : α → Bool} (h : Starts p r) (i : Nat) : Starts p (.group i r) := h

theorem starts_plus (p : α → Bool) : Starts p (plus (.char p)) := (starts_char p).seq _

theorem Starts.mono {p q : α → Bool} (h : Starts p r) (hpq : ∀ c, p c = true → q c = true) :
    Starts q r := by
  intro before text after hdenotes
  have hhead := h _ _ _ hdenotes
  cases text with
  | nil => cases hhead
  | cons c text => exact hpq c hhead

/-- A run in front may be empty. -/
theorem Starts.star_seq {p q : α → Bool} (h : Starts p r) (greedy : Bool) :
    Starts (fun c => q c || p c) (.seq (.star greedy (.char q)) r) := by
  rintro before _ after ⟨u, v, rfl, hu, hv⟩
  cases u with
  | nil => exact h.mono (fun c hc => by rw [hc, Bool.or_true]) _ _ _ hv
  | cons c u =>
      have hc := denotes_star_char_iff.mp hu c List.mem_cons_self
      simp only [List.cons_append, List.head?_cons, Option.any_some, hc, Bool.true_or]

/-- What an anchored pattern finds stands at the beginning of the text. -/
theorem test_start_iff {text : List α} :
    (Regex.seq .start r).test text = true ↔ ∃ u v, text = u ++ v ∧ r.Denotes [] u v := by
  rw [test_iff]
  constructor
  · rintro ⟨front, _, w, rfl, _, v, rfl, ⟨rfl, hfront⟩, hv⟩
    rw [List.reverse_eq_nil_iff.mp hfront] at hv ⊢
    exact ⟨v, w, rfl, hv⟩
  · rintro ⟨u, v, rfl, hu⟩
    exact ⟨[], u, v, rfl, [], u, rfl, ⟨rfl, rfl⟩, hu⟩

theorem Starts.head_of_test {p : α → Bool} (h : Starts p r) {text : List α}
    (htest : (Regex.seq .start r).test text = true) : text.head?.any p = true := by
  obtain ⟨u, v, rfl, hu⟩ := test_start_iff.mp htest
  have hhead := h _ _ _ hu
  cases u with
  | nil => cases hhead
  | cons c u => exact hhead

/-! ## Captured groups -/

/-- The groups that a match may capture. -/
def indices : Regex α → List Nat
  | seq r s => r.indices ++ s.indices
  | alt r s => r.indices ++ s.indices
  | star _ r => r.indices
  | group i r => i :: r.indices
  | _ => []

/-- The groups that have been captured on the way are groups of the pattern. -/
def Captures (r : Regex α) (p q : Position α) : Prop :=
  ∃ captured, q.groups = captured ++ p.groups ∧ ∀ g ∈ captured, g.1 ∈ r.indices

theorem Captures.refl (r : Regex α) (p : Position α) : Captures r p p :=
  ⟨[], rfl, fun _ h => nomatch h⟩

theorem Captures.trans {s t : Regex α} {p q o : Position α} (h : Captures r p q)
    (h' : Captures s q o) (hr : r.indices ⊆ t.indices) (hs : s.indices ⊆ t.indices) :
    Captures t p o := by
  obtain ⟨first, hfirst, hr'⟩ := h
  obtain ⟨second, hsecond, hs'⟩ := h'
  refine ⟨second ++ first, by rw [hsecond, hfirst, List.append_assoc], fun g hg => ?_⟩
  rcases List.mem_append.mp hg with hg | hg
  · exact hs (hs' g hg)
  · exact hr (hr' g hg)

theorem captures_of_mem_repetitions (h : ∀ p q, q ∈ r.results p → Captures r p q)
    (greedy : Bool) (n : Nat) (p q : Position α) (hq : q ∈ repetitions r.results greedy n p) :
    Captures r p q := by
  induction n generalizing p with
  | zero =>
      obtain rfl := List.mem_singleton.mp hq
      exact .refl r q
  | succ n ih =>
      have hcases : q = p ∨ ∃ o ∈ r.results p, q ∈ repetitions r.results greedy n o := by
        rw [repetitions] at hq
        cases greedy <;> simp at hq <;> grind
      obtain rfl | ⟨o, ho, hqo⟩ := hcases
      · exact .refl r q
      · exact (h p o ho).trans (ih o hqo) (List.Subset.refl _) (List.Subset.refl _)

theorem captures_of_mem_results {p q : Position α} (h : q ∈ r.results p) : Captures r p q := by
  induction r generalizing p q with
  | empty =>
      obtain rfl := List.mem_singleton.mp h
      exact .refl _ q
  | char accepts =>
      refine ⟨[], ?_, fun _ hg => nomatch hg⟩
      simp only [results] at h
      split at h
      · cases h
      · split at h
        · rw [List.mem_singleton.mp h]
          rfl
        · cases h
  | seq r s ihr ihs =>
      obtain ⟨o, ho, hq⟩ := List.mem_flatMap.mp h
      exact (ihr ho).trans (ihs hq) (List.subset_append_left _ _) (List.subset_append_right _ _)
  | alt r s ihr ihs =>
      rcases List.mem_append.mp h with h | h
      · obtain ⟨captured, hgroups, hall⟩ := ihr h
        exact ⟨captured, hgroups, fun g hg => List.mem_append_left _ (hall g hg)⟩
      · obtain ⟨captured, hgroups, hall⟩ := ihs h
        exact ⟨captured, hgroups, fun g hg => List.mem_append_right _ (hall g hg)⟩
  | star greedy r ih =>
      exact captures_of_mem_repetitions (fun p q hq => ih hq) greedy _ p q h
  | group i r ih =>
      obtain ⟨o, ho, rfl⟩ := List.mem_map.mp h
      obtain ⟨captured, hgroups, hall⟩ := ih ho
      refine ⟨(i, p.rest.take (p.rest.length - o.rest.length)) :: captured, ?_, fun g hg => ?_⟩
      · rw [hgroups]
        rfl
      · rcases List.mem_cons.mp hg with rfl | hg
        · exact List.mem_cons_self
        · exact List.mem_cons_of_mem _ (hall g hg)
  | start =>
      simp only [results] at h
      split at h
      · rw [List.mem_singleton.mp h]
        exact .refl _ p
      · cases h
  | stop =>
      simp only [results] at h
      split at h
      · rw [List.mem_singleton.mp h]
        exact .refl _ p
      · cases h
  | ahead wanted r ih =>
      simp only [results] at h
      split at h
      · cases h
      · rw [List.mem_singleton.mp h]
        exact .refl _ p

theorem matchAt_of_search {before rest : List α} {m : Match α}
    (h : r.search before rest = some m) : ∃ front back, r.matchAt front back = some m := by
  induction rest generalizing before with
  | nil => exact ⟨before, [], h⟩
  | cons c rest ih =>
      rw [search, Option.or_eq_some_iff] at h
      rcases h with h | ⟨-, h⟩
      · exact ⟨before, c :: rest, h⟩
      · exact ih h

/-- What the first group of an anchored pattern has captured, it denotes. -/
theorem group_of_exec {s : Regex α} {text : List α} {m : Match α} {i : Nat}
    (h : (Regex.seq .start (.seq (.group i r) s)).exec text = some m) (hi : i ∉ s.indices) :
    ∃ front u back, r.Denotes front u back ∧ m.group? i = some u := by
  obtain ⟨front, back, hmatch⟩ := matchAt_of_search h
  obtain ⟨q, hq, rfl⟩ := Option.map_eq_some_iff.mp hmatch
  obtain ⟨o, -, hq⟩ := List.mem_flatMap.mp (List.mem_of_head? hq)
  obtain ⟨_, hgroup, hq⟩ := List.mem_flatMap.mp hq
  obtain ⟨o', ho', rfl⟩ := List.mem_map.mp hgroup
  obtain ⟨u, hreaches, hdenotes⟩ := (results_lists r).1 o o' ho'
  have hu : o.rest.take (o.rest.length - o'.rest.length) = u := by
    rw [hreaches.1, List.length_append, Nat.add_sub_cancel, List.take_left]
  obtain ⟨captured, hgroups, hall⟩ := captures_of_mem_results hq
  refine ⟨o.before, u, o'.rest, hdenotes, ?_⟩
  have hnone : captured.lookup i = none := by
    rw [List.lookup_eq_none_iff]
    intro g hg
    have hne : i ≠ g.1 := fun heq => hi (heq ▸ hall g hg)
    simpa using hne
  rw [Match.group?, hgroups, List.lookup_append, hnone, Option.none_or, hu,
    List.lookup_cons_self]

end AgentGather.Library.Regex
