import AgentGather.Library.Text

/-!
# Backtracking regular expressions

The regular expressions of ECMAScript over an arbitrary alphabet: greedy and lazy
repetition, capturing groups, the anchors of the whole text, and lookahead.  `results`
lists the ways a pattern can match, in the order backtracking tries them, so the first
one is the match.  `Denotes` says without any order which stretches of a text a pattern
matches, and `results_iff` connects the two.
-/

namespace AgentGather.Library

/-- A pattern over characters `α`. -/
inductive Regex (α : Type) where
  | empty
  | char (accepts : α → Bool)
  | seq (first second : Regex α)
  | alt (left right : Regex α)
  | star (greedy : Bool) (body : Regex α)
  | group (index : Nat) (body : Regex α)
  | start
  | stop
  | ahead (wanted : Bool) (body : Regex α)

namespace Regex

variable {α : Type}

/-- One or more. -/
def plus (body : Regex α) : Regex α := .seq body (.star true body)

/-- None or one, preferring one. -/
def opt (body : Regex α) : Regex α := .alt body .empty

/-- `body{n}`. -/
def times (body : Regex α) : Nat → Regex α
  | 0 => .empty
  | n + 1 => .seq body (body.times n)

/-- `body{n,}`. -/
def atLeast (body : Regex α) (n : Nat) : Regex α := .seq (body.times n) (.star true body)

/-- `body{n,n+k}`. -/
def between (body : Regex α) (n : Nat) : Nat → Regex α
  | 0 => body.times n
  | k + 1 => .alt (.seq body (body.between n k)) (body.times n)

/-- A literal text. -/
def lit [BEq α] : List α → Regex α
  | [] => .empty
  | c :: cs => .seq (.char (· == c)) (lit cs)

/-- Where a match attempt stands: what precedes, nearest first, what follows, and the
groups captured so far, the latest first. -/
structure Position (α : Type) where
  before : List α
  rest : List α
  groups : List (Nat × List α)

/-- All ways to repeat `step`, each round consuming something, at most `n` rounds. -/
def repetitions (step : Position α → List (Position α)) (greedy : Bool) :
    Nat → Position α → List (Position α)
  | 0, p => [p]
  | n + 1, p =>
      let more := ((step p).filter fun q => q.rest.length < p.rest.length).flatMap
        (repetitions step greedy n)
      if greedy then more ++ [p] else p :: more

/-- The positions a match of the pattern from `p` can end in, in order of preference. -/
def results : Regex α → Position α → List (Position α)
  | empty, p => [p]
  | char accepts, p =>
      match p.rest with
      | [] => []
      | c :: cs => if accepts c then [⟨c :: p.before, cs, p.groups⟩] else []
  | seq r s, p => (r.results p).flatMap s.results
  | alt r s, p => r.results p ++ s.results p
  | star greedy r, p => repetitions r.results greedy p.rest.length p
  | group i r, p => (r.results p).map fun q =>
      { q with groups := (i, p.rest.take (p.rest.length - q.rest.length)) :: q.groups }
  | start, p => if p.before.isEmpty then [p] else []
  | stop, p => if p.rest.isEmpty then [p] else []
  | ahead wanted r, p => if (r.results p).isEmpty = wanted then [] else [p]

/-- A match: what precedes it in the text, nearest first, the matched stretch, what
follows, and the captured groups. -/
structure Match (α : Type) where
  before : List α
  text : List α
  rest : List α
  groups : List (Nat × List α)

/-- The text a group captured last. -/
def Match.group? (m : Match α) (i : Nat) : Option (List α) := m.groups.lookup i

/-- The preferred match that begins right here. -/
def matchAt (r : Regex α) (before rest : List α) : Option (Match α) :=
  (r.results ⟨before, rest, []⟩).head?.map fun q =>
    ⟨before, rest.take (rest.length - q.rest.length), q.rest, q.groups⟩

/-- The leftmost match from here on. -/
def search (r : Regex α) (before : List α) : List α → Option (Match α)
  | [] => r.matchAt before []
  | c :: cs => (r.matchAt before (c :: cs)).or (search r (c :: before) cs)

/-- `r.exec(text)`. -/
def exec (r : Regex α) (text : List α) : Option (Match α) := r.search [] text

/-- `r.test(text)`. -/
def test (r : Regex α) (text : List α) : Bool := (r.exec text).isSome

/-- The successive matches of a global search, at most `n`; an empty match moves on by
one character. -/
def allFrom (r : Regex α) : Nat → List α → List α → List (Match α)
  | 0, _, _ => []
  | n + 1, before, rest =>
      match r.search before rest with
      | none => []
      | some m =>
          match m.text, m.rest with
          | [], [] => [m]
          | [], c :: cs => m :: r.allFrom n (c :: m.before) cs
          | _ :: _, _ => m :: r.allFrom n (m.text.reverse ++ m.before) m.rest

/-- `text.matchAll(r)`, for a global `r`. -/
def matchAll (r : Regex α) (text : List α) : List (Match α) :=
  r.allFrom (text.length + 1) [] text

/-- `text.replace(r, replacement)`: only the first match is replaced. -/
def replaceFirst (r : Regex α) (replacement : Match α → List α) (text : List α) : List α :=
  match r.exec text with
  | none => text
  | some m => m.before.reverse ++ replacement m ++ m.rest

/-- `text.replace(r, replacement)`, for a global `r`. -/
def replaceAll (r : Regex α) (replacement : Match α → List α) (text : List α) : List α :=
  go (r.matchAll text) 0 text
where
  /-- Copy the text between the matches; `at` characters have been passed. -/
  go : List (Match α) → Nat → List α → List α
    | [], _, rest => rest
    | m :: ms, passed, rest =>
        rest.take (m.before.length - passed) ++ replacement m ++
          go ms (m.before.length + m.text.length) m.rest

/-! ## What a pattern matches -/

/-- Rounds of `R`, each consuming something, side by side. -/
inductive Rounds (R : List α → List α → List α → Prop) : List α → List α → List α → Prop
  | done (before after : List α) : Rounds R before [] after
  | round {before now later after : List α} (hne : now ≠ []) :
      R before now (later ++ after) → Rounds R (now.reverse ++ before) later after →
      Rounds R before (now ++ later) after

/-- Between `before` (nearest first) and `after`, the pattern matches `text`. -/
def Denotes : Regex α → List α → List α → List α → Prop
  | empty, _, text, _ => text = []
  | char accepts, _, text, _ => ∃ c, accepts c = true ∧ text = [c]
  | seq r s, before, text, after => ∃ u v, text = u ++ v ∧
      r.Denotes before u (v ++ after) ∧ s.Denotes (u.reverse ++ before) v after
  | alt r s, before, text, after => r.Denotes before text after ∨ s.Denotes before text after
  | star _ r, before, text, after => Rounds r.Denotes before text after
  | group _ r, before, text, after => r.Denotes before text after
  | start, before, text, _ => text = [] ∧ before = []
  | stop, _, text, after => text = [] ∧ after = []
  | ahead wanted r, before, text, after => text = [] ∧
      ((∃ u v, after = u ++ v ∧ r.Denotes before u v) ↔ wanted = true)

/-- `q` is where a match of `text` from `p` ends. -/
def Position.Reaches (p : Position α) (text : List α) (q : Position α) : Prop :=
  p.rest = text ++ q.rest ∧ q.before = text.reverse ++ p.before

theorem Position.Reaches.refl (p : Position α) : p.Reaches [] p := ⟨rfl, rfl⟩

theorem Position.Reaches.trans {p q o : Position α} {u v : List α}
    (h : p.Reaches u q) (h' : q.Reaches v o) : p.Reaches (u ++ v) o := by
  obtain ⟨hr, hb⟩ := h
  obtain ⟨hr', hb'⟩ := h'
  exact ⟨by rw [hr, hr', List.append_assoc],
    by rw [hb', hb, List.reverse_append, List.append_assoc]⟩

/-- Two positions apart from their captures. -/
def Position.Same (p q : Position α) : Prop := p.before = q.before ∧ p.rest = q.rest

/-- `f` lists exactly the ends of the stretches `R` admits. -/
def Lists (f : Position α → List (Position α)) (R : List α → List α → List α → Prop) :
    Prop :=
  (∀ p q, q ∈ f p → ∃ text, p.Reaches text q ∧ R p.before text q.rest) ∧
  (∀ p text after, p.rest = text ++ after → R p.before text after →
    ∃ q ∈ f p, p.Reaches text q ∧ q.rest = after)

theorem repetitions_sound {f : Position α → List (Position α)}
    {R : List α → List α → List α → Prop} (hf : Lists f R) (greedy : Bool) (n : Nat)
    (p q : Position α) (hq : q ∈ repetitions f greedy n p) :
    ∃ text, p.Reaches text q ∧ Rounds R p.before text q.rest := by
  induction n generalizing p with
  | zero =>
      obtain rfl := List.mem_singleton.mp hq
      exact ⟨[], .refl _, .done _ _⟩
  | succ n ih =>
      have hcases : q = p ∨ ∃ o ∈ f p, o.rest.length < p.rest.length ∧
          q ∈ repetitions f greedy n o := by
        rw [repetitions] at hq
        cases greedy <;> simp at hq <;> grind
      obtain rfl | ⟨o, ho, hlt, hqo⟩ := hcases
      · exact ⟨[], .refl _, .done _ _⟩
      · obtain ⟨u, hu, hR⟩ := hf.1 p o ho
        obtain ⟨v, hv, hrounds⟩ := ih o hqo
        have hne : u ≠ [] := by
          rintro rfl
          rw [hu.1] at hlt
          exact absurd hlt (lt_irrefl _)
        refine ⟨u ++ v, hu.trans hv, .round hne ?_ ?_⟩
        · rwa [← hv.1]
        · rwa [← hu.2]

theorem repetitions_complete {f : Position α → List (Position α)}
    {R : List α → List α → List α → Prop} (hf : Lists f R) (greedy : Bool)
    {before text after : List α} (h : Rounds R before text after) (p : Position α)
    (n : Nat) (hb : p.before = before) (hr : p.rest = text ++ after)
    (hn : text.length ≤ n) :
    ∃ q ∈ repetitions f greedy n p, p.Reaches text q ∧ q.rest = after := by
  induction h generalizing p n with
  | done before after =>
      refine ⟨p, ?_, .refl _, hr⟩
      cases n with
      | zero => exact List.mem_singleton.mpr rfl
      | succ n => cases greedy <;> simp [repetitions]
  | @round before now later after hne hR _ ih =>
      subst hb
      have hpos : 0 < now.length := List.length_pos_iff.mpr hne
      obtain ⟨o, ho, hreach, hrest⟩ :=
        hf.2 p now (later ++ after) (by rw [hr, List.append_assoc]) hR
      cases n with
      | zero =>
          rw [List.length_append] at hn
          omega
      | succ n =>
          rw [List.length_append] at hn
          obtain ⟨q, hq, hreach', hafter⟩ := ih o n hreach.2 hrest (by omega)
          refine ⟨q, ?_, hreach.trans hreach', hafter⟩
          have hlt : o.rest.length < p.rest.length := by
            rw [hreach.1, List.length_append]
            omega
          have hmem : q ∈ ((f p).filter fun q => q.rest.length < p.rest.length).flatMap
              (repetitions f greedy n) :=
            List.mem_flatMap.mpr ⟨o, List.mem_filter.mpr ⟨ho, by simpa using hlt⟩, hq⟩
          rw [repetitions]
          cases greedy
          · exact List.mem_cons_of_mem _ hmem
          · exact List.mem_append_left _ hmem

/-- Backtracking finds exactly the matches: `results` lists the ends of the stretches
the pattern denotes. -/
theorem results_lists (r : Regex α) : Lists r.results r.Denotes := by
  induction r with
  | empty =>
      constructor
      · intro p q hq
        obtain rfl := List.mem_singleton.mp hq
        exact ⟨[], .refl _, rfl⟩
      · rintro p _ after hr rfl
        exact ⟨p, List.mem_singleton.mpr rfl, .refl _, hr⟩
  | char accepts =>
      constructor
      · intro p q hq
        cases hp : p.rest with
        | nil => simp [results, hp] at hq
        | cons c cs =>
            by_cases hc : accepts c = true
            · simp only [results, hp, hc, if_true, List.mem_singleton] at hq
              subst hq
              exact ⟨[c], ⟨hp, rfl⟩, c, hc, rfl⟩
            · simp [results, hp, hc] at hq
      · rintro p _ after hr ⟨c, hc, rfl⟩
        have hr' : p.rest = c :: after := hr
        exact ⟨⟨c :: p.before, after, p.groups⟩, by simp [results, hr', hc], ⟨hr, rfl⟩, rfl⟩
  | seq r s ihr ihs =>
      constructor
      · intro p q hq
        obtain ⟨o, ho, hqo⟩ := List.mem_flatMap.mp hq
        obtain ⟨u, hu, hru⟩ := ihr.1 p o ho
        obtain ⟨v, hv, hsv⟩ := ihs.1 o q hqo
        exact ⟨u ++ v, hu.trans hv, u, v, rfl, hv.1 ▸ hru, hu.2 ▸ hsv⟩
      · rintro p _ after hr ⟨u, v, rfl, hru, hsv⟩
        obtain ⟨o, ho, hu, ho'⟩ := ihr.2 p u (v ++ after) (by rw [hr, List.append_assoc]) hru
        obtain ⟨q, hq, hv, hq'⟩ := ihs.2 o v after ho' (hu.2 ▸ hsv)
        exact ⟨q, List.mem_flatMap.mpr ⟨o, ho, hq⟩, hu.trans hv, hq'⟩
  | alt r s ihr ihs =>
      constructor
      · intro p q hq
        rcases List.mem_append.mp hq with h | h
        · obtain ⟨u, hu, hd⟩ := ihr.1 p q h
          exact ⟨u, hu, .inl hd⟩
        · obtain ⟨u, hu, hd⟩ := ihs.1 p q h
          exact ⟨u, hu, .inr hd⟩
      · rintro p text after hr (hd | hd)
        · obtain ⟨q, hq, h⟩ := ihr.2 p text after hr hd
          exact ⟨q, List.mem_append_left _ hq, h⟩
        · obtain ⟨q, hq, h⟩ := ihs.2 p text after hr hd
          exact ⟨q, List.mem_append_right _ hq, h⟩
  | star greedy r ih =>
      constructor
      · exact fun p q hq => repetitions_sound ih greedy _ p q hq
      · intro p text after hr hd
        exact repetitions_complete ih greedy hd p _ rfl hr (by rw [hr, List.length_append]; omega)
  | group i r ih =>
      constructor
      · intro p q hq
        obtain ⟨o, ho, rfl⟩ := List.mem_map.mp hq
        exact ih.1 p o ho
      · intro p text after hr hd
        obtain ⟨q, hq, h⟩ := ih.2 p text after hr hd
        exact ⟨_, List.mem_map.mpr ⟨q, hq, rfl⟩, h⟩
  | start =>
      constructor
      · intro p q hq
        by_cases hb : p.before = []
        · simp only [results, hb, List.isEmpty_nil, if_true, List.mem_singleton] at hq
          subst hq
          exact ⟨[], .refl _, rfl, hb⟩
        · simp [results, hb] at hq
      · rintro p _ after hr ⟨rfl, hb⟩
        exact ⟨p, by simp [results, hb], .refl _, hr⟩
  | stop =>
      constructor
      · intro p q hq
        by_cases hb : p.rest = []
        · simp only [results, hb, List.isEmpty_nil, if_true, List.mem_singleton] at hq
          subst hq
          exact ⟨[], .refl _, rfl, hb⟩
        · simp [results, hb] at hq
      · rintro p _ after hr ⟨rfl, rfl⟩
        exact ⟨p, by simp [results, hr], .refl _, hr⟩
  | ahead wanted r ih =>
      have hsome (p : Position α) : (r.results p).isEmpty = false ↔
          ∃ u v, p.rest = u ++ v ∧ r.Denotes p.before u v := by
        rw [List.isEmpty_eq_false_iff_exists_mem]
        constructor
        · rintro ⟨q, hq⟩
          obtain ⟨u, hu, hd⟩ := ih.1 p q hq
          exact ⟨u, q.rest, hu.1, hd⟩
        · rintro ⟨u, v, hr, hd⟩
          obtain ⟨q, hq, -⟩ := ih.2 p u v hr hd
          exact ⟨q, hq⟩
      constructor
      · intro p q hq
        rw [results] at hq
        split at hq
        · cases hq
        · rename_i hw
          obtain rfl := List.mem_singleton.mp hq
          refine ⟨[], .refl _, rfl, ?_⟩
          rw [← hsome]
          revert hw
          cases (r.results q).isEmpty <;> cases wanted <;> simp
      · rintro p _ after hr ⟨rfl, hw⟩
        refine ⟨p, ?_, .refl _, hr⟩
        have hr' : p.rest = after := hr
        rw [← hr', ← hsome] at hw
        revert hw
        rw [results]
        cases (r.results p).isEmpty <;> cases wanted <;> simp

end Regex

end AgentGather.Library
