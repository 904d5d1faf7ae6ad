import AgentGather.Library.Json

/-!
# Torn and glued JSON texts

A scanner that only follows brackets, string literals and the places where a value may
begin accepts every text the parser accepts.  It therefore rejects, on behalf of the
parser, an object's text that was cut short, and an object's text that was appended to
another text, cut short or not.
-/

namespace AgentGather.Library.Json

/-- What the next character is part of: a value may begin, a value has ended, or the
scan is inside a string literal, behind its backslash, or inside an atom. -/
inductive Mode where
  | value
  | after
  | string
  | escape
  | atom
deriving DecidableEq, Repr

/-- One character outside string literals. -/
def scanOutside (m : Mode) (depth : Nat) (c : Char) : Option (Mode × Nat) :=
  if isSpace c then some (if m = .value then .value else .after, depth)
  else if c = ',' ∨ c = ':' then some (.value, depth)
  else if c = '}' ∨ c = ']' then
    match depth with
    | 0 => none
    | depth + 1 => some (.after, depth)
  else if c = '{' ∨ c = '[' then if m = .value then some (.value, depth + 1) else none
  else if c = '"' then if m = .value then some (.string, depth) else none
  else if isAtomChar c then if m = .after then none else some (.atom, depth)
  else none

def scanChar (s : Mode × Nat) (c : Char) : Option (Mode × Nat) :=
  match s.1 with
  | .string =>
      if c = '"' then some (.after, s.2)
      else if c = '\\' then some (.escape, s.2)
      else some (.string, s.2)
  | .escape => some (.string, s.2)
  | m => scanOutside m s.2 c

/-- Follow a text; `none` once it cannot be JSON. -/
def scan : Mode × Nat → List Char → Option (Mode × Nat)
  | s, [] => some s
  | s, c :: cs => (scanChar s c).bind fun s' => scan s' cs

/-- A value has ended here. -/
def Mode.Ended (m : Mode) : Prop := m = .after ∨ m = .atom

@[simp] theorem scan_nil (s : Mode × Nat) : scan s [] = some s := rfl

theorem scan_cons (s : Mode × Nat) (c : Char) (cs : List Char) :
    scan s (c :: cs) = (scanChar s c).bind fun s' => scan s' cs := rfl

theorem scan_append (s : Mode × Nat) (u v : List Char) :
    scan s (u ++ v) = (scan s u).bind fun s' => scan s' v := by
  induction u generalizing s with
  | nil => rfl
  | cons c u ih =>
      rw [List.cons_append, scan_cons, scan_cons]
      cases scanChar s c with
      | none => rfl
      | some s' => exact ih s'

/-! ## What the parser accepts, the scanner accepts -/

theorem scan_spaces {u : List Char} (hu : ∀ c ∈ u, isSpace c = true) (d : Nat) :
    scan (.value, d) u = some (.value, d) := by
  induction u with
  | nil => rfl
  | cons c u ih =>
      rw [scan_cons]
      simp only [scanChar, scanOutside, hu c (List.mem_cons_self ..), if_true]
      exact ih fun e he => hu e (List.mem_cons_of_mem _ he)

theorem scan_spaces_ended {u : List Char} (hu : ∀ c ∈ u, isSpace c = true) {m : Mode}
    (hm : m.Ended) (d : Nat) : ∃ m', m'.Ended ∧ scan (m, d) u = some (m', d) := by
  induction u generalizing m with
  | nil => exact ⟨m, hm, rfl⟩
  | cons c u ih =>
      have hc := hu c (List.mem_cons_self ..)
      obtain ⟨m', hm', hscan⟩ := ih (fun e he => hu e (List.mem_cons_of_mem _ he)) (.inl rfl)
      refine ⟨m', hm', ?_⟩
      rw [scan_cons]
      rcases hm with rfl | rfl <;>
        simpa only [scanChar, scanOutside, hc, if_true, reduceCtorEq, if_false,
          Option.bind_some] using hscan

theorem exists_skipSpace (s : List Char) :
    ∃ u, s = u ++ skipSpace s ∧ ∀ c ∈ u, isSpace c = true :=
  ⟨s.takeWhile isSpace, (List.takeWhile_append_dropWhile ..).symm,
    fun _ hc => List.mem_takeWhile_imp hc⟩

theorem scan_ordinary {c : Char} (h₁ : c ≠ '"') (h₂ : c ≠ '\\') (d : Nat) (t : List Char) :
    scan (.string, d) (c :: t) = scan (.string, d) t := by
  rw [scan_cons]
  simp only [scanChar, if_neg h₁, if_neg h₂]
  rfl

theorem hexValue_ordinary {c : Char} {n : Nat} (h : hexValue c = some n) :
    c ≠ '"' ∧ c ≠ '\\' := by
  constructor <;> rintro rfl <;> cases h

theorem parseUnits_scan : ∀ (s : List Char) (us : List Nat) (rest : List Char),
    parseUnits s = some (us, rest) →
    ∃ used, s = used ++ rest ∧ ∀ d, scan (.string, d) used = some (.after, d) := by
  intro s
  induction s using parseUnits.induct with
  | case1 => intro us rest h; cases h
  | case2 s =>
      intro us rest h
      obtain ⟨-, rfl⟩ := Prod.mk.inj (Option.some.inj h)
      exact ⟨['"'], rfl, fun d => rfl⟩
  | case3 a b x y s ih =>
      intro us rest h
      rw [parseUnits.eq_3] at h
      obtain ⟨u, hu, h⟩ := Option.bind_eq_some_iff.mp h
      obtain ⟨⟨us', rest'⟩, hrec, h⟩ := Option.bind_eq_some_iff.mp h
      obtain ⟨-, rfl⟩ := Prod.mk.inj (Option.some.inj h)
      obtain ⟨used, rfl, hscan⟩ := ih us' rest' hrec
      refine ⟨'\\' :: 'u' :: a :: b :: x :: y :: used, rfl, fun d => ?_⟩
      obtain ⟨_, ha, hu⟩ := Option.bind_eq_some_iff.mp hu
      obtain ⟨_, hb, hu⟩ := Option.bind_eq_some_iff.mp hu
      obtain ⟨_, hx, hu⟩ := Option.bind_eq_some_iff.mp hu
      obtain ⟨_, hy, -⟩ := Option.bind_eq_some_iff.mp hu
      have hesc : scan (.string, d) ('\\' :: 'u' :: a :: b :: x :: y :: used) =
          scan (.string, d) (a :: b :: x :: y :: used) := rfl
      rw [hesc, scan_ordinary (hexValue_ordinary ha).1 (hexValue_ordinary ha).2,
        scan_ordinary (hexValue_ordinary hb).1 (hexValue_ordinary hb).2,
        scan_ordinary (hexValue_ordinary hx).1 (hexValue_ordinary hx).2,
        scan_ordinary (hexValue_ordinary hy).1 (hexValue_ordinary hy).2]
      exact hscan d
  | case4 e s hne ih =>
      intro us rest h
      rw [parseUnits.eq_4 _ _ hne] at h
      obtain ⟨u, hu, h⟩ := Option.bind_eq_some_iff.mp h
      obtain ⟨⟨us', rest'⟩, hrec, h⟩ := Option.bind_eq_some_iff.mp h
      obtain ⟨-, rfl⟩ := Prod.mk.inj (Option.some.inj h)
      obtain ⟨used, rfl, hscan⟩ := ih us' rest' hrec
      exact ⟨'\\' :: e :: used, rfl, fun d => hscan d⟩
  | case5 c s hq hu he hc =>
      intro us rest h
      rw [parseUnits.eq_5 _ _ hq hu he, if_pos hc] at h
      cases h
  | case6 c s hq hu he hc ih =>
      intro us rest h
      rw [parseUnits.eq_5 _ _ hq hu he, if_neg hc] at h
      obtain ⟨⟨us', rest'⟩, hrec, h⟩ := Option.bind_eq_some_iff.mp h
      obtain ⟨-, rfl⟩ := Prod.mk.inj (Option.some.inj h)
      obtain ⟨used, rfl, hscan⟩ := ih us' rest' hrec
      refine ⟨c :: used, rfl, fun d => ?_⟩
      rw [scan_ordinary (fun h => hq h) (fun h => hc (.inl h))]
      exact hscan d

/-- Where a value may begin, the text reads as something whole, at any depth. -/
def Whole (u : List Char) : Prop :=
  ∀ d, ∃ m : Mode, m.Ended ∧ scan (.value, d) u = some (m, d)

namespace Whole

theorem spaces_left {u v : List Char} (hu : ∀ c ∈ u, isSpace c = true) (hv : Whole v) :
    Whole (u ++ v) := by
  intro d
  rw [scan_append, scan_spaces hu]
  exact hv d

theorem spaces_right {u v : List Char} (hu : Whole u) (hv : ∀ c ∈ v, isSpace c = true) :
    Whole (u ++ v) := by
  intro d
  obtain ⟨m, hm, hscan⟩ := hu d
  rw [scan_append, hscan]
  exact scan_spaces_ended hv hm d

/-- A separator after a whole text lets another one follow. -/
theorem separated {u v : List Char} {c : Char} (hc : c = ',' ∨ c = ':') (hu : Whole u)
    (hv : Whole v) : Whole (u ++ c :: v) := by
  intro d
  obtain ⟨m, hm, hscan⟩ := hu d
  obtain ⟨m', hm', hscan'⟩ := hv d
  refine ⟨m', hm', ?_⟩
  have hstep : scanChar (m, d) c = some (.value, d) := by
    rcases hm with rfl | rfl <;> rcases hc with rfl | rfl <;> rfl
  rw [scan_append, hscan, Option.bind_some, scan_cons, hstep]
  exact hscan'

theorem enclosed {u : List Char} {o c : Char} (ho : o = '{' ∨ o = '[')
    (hc : c = '}' ∨ c = ']') (hu : Whole u) : Whole (o :: (u ++ [c])) := by
  intro d
  obtain ⟨m, hm, hscan⟩ := hu (d + 1)
  have hopen : scanChar (.value, d) o = some (.value, d + 1) := by
    rcases ho with rfl | rfl <;> rfl
  have hclose : scanChar (m, d + 1) c = some (.after, d) := by
    rcases hm with rfl | rfl <;> rcases hc with rfl | rfl <;> rfl
  refine ⟨.after, .inl rfl, ?_⟩
  rw [scan_cons, hopen, Option.bind_some, scan_append, hscan, Option.bind_some, scan_cons,
    hclose]
  rfl

/-- An empty container, spaces inside included. -/
theorem empty {u : List Char} {o c : Char} (ho : o = '{' ∨ o = '[')
    (hc : c = '}' ∨ c = ']') (hu : ∀ x ∈ u, isSpace x = true) : Whole (o :: (u ++ [c])) := by
  intro d
  have hopen : scanChar (.value, d) o = some (.value, d + 1) := by
    rcases ho with rfl | rfl <;> rfl
  have hclose : scanChar (.value, d + 1) c = some (.after, d) := by
    rcases hc with rfl | rfl <;> rfl
  refine ⟨.after, .inl rfl, ?_⟩
  rw [scan_cons, hopen, Option.bind_some, scan_append, scan_spaces hu, Option.bind_some,
    scan_cons, hclose]
  rfl

theorem quoted {u : List Char} (hu : ∀ d, scan (.string, d) u = some (.after, d)) :
    Whole ('"' :: u) := fun d => ⟨.after, .inl rfl, hu d⟩

theorem atom {u : List Char} (hu : ∀ c ∈ u, isAtomChar c = true) (hne : u ≠ []) :
    Whole u := by
  have hstep (m : Mode) (hm : m = .value ∨ m = .atom) (d : Nat) (c : Char)
      (hc : isAtomChar c = true) : scanChar (m, d) c = some (.atom, d) := by
    have hspace : isSpace c = false := by
      cases h : isSpace c with
      | false => rfl
      | true =>
          simp only [isSpace, Bool.or_eq_true, beq_iff_eq] at h
          rcases h with ((rfl | rfl) | rfl) | rfl <;> cases hc
    have hne : ¬ (c = ',' ∨ c = ':') ∧ ¬ (c = '}' ∨ c = ']') ∧ ¬ (c = '{' ∨ c = '[') ∧
        c ≠ '"' := by
      refine ⟨?_, ?_, ?_, ?_⟩
      · rintro (rfl | rfl) <;> cases hc
      · rintro (rfl | rfl) <;> cases hc
      · rintro (rfl | rfl) <;> cases hc
      · rintro rfl; cases hc
    rcases hm with rfl | rfl <;>
      simp [scanChar, scanOutside, hspace, hne.1, hne.2.1, hne.2.2.1, hne.2.2.2, hc]
  have hrest (v : List Char) (hv : ∀ c ∈ v, isAtomChar c = true) (d : Nat) :
      scan (.atom, d) v = some (.atom, d) := by
    induction v with
    | nil => rfl
    | cons c v ih =>
        rw [scan_cons, hstep _ (.inr rfl) d c (hv c (List.mem_cons_self ..)),
          Option.bind_some]
        exact ih fun e he => hv e (List.mem_cons_of_mem _ he)
  obtain ⟨c, v, rfl⟩ := List.exists_cons_of_ne_nil hne
  intro d
  refine ⟨.atom, .inr rfl, ?_⟩
  rw [scan_cons, hstep _ (.inl rfl) d c (hu c (List.mem_cons_self ..)), Option.bind_some]
  exact hrest v (fun e he => hu e (List.mem_cons_of_mem _ he)) d

end Whole

theorem parseString_scan {s rest : List Char} {v : String}
    (h : parseString s = some (v, rest)) : ∃ used, s = used ++ rest ∧ Whole ('"' :: used) := by
  obtain ⟨⟨us, rest'⟩, hunits, h⟩ := Option.bind_eq_some_iff.mp h
  obtain ⟨-, rfl⟩ := Prod.mk.inj (Option.some.inj h)
  obtain ⟨used, hused, hscan⟩ := parseUnits_scan s us rest' hunits
  exact ⟨used, hused, .quoted hscan⟩

theorem readAtom_ne_nil {token : List Char} {j : Json} (h : readAtom token = some j) :
    token ≠ [] := by
  rintro rfl
  cases h

mutual

theorem parseValue_scan : ∀ (n : Nat) (s : List Char) (j : Json) (rest : List Char),
    parseValue n s = some (j, rest) → ∃ used, s = used ++ rest ∧ Whole used
  | 0, _, _, _, h => nomatch h
  | n + 1, s, j, rest, h => by
    obtain ⟨u, hs, hu⟩ := exists_skipSpace s
    suffices hmain : ∃ used, skipSpace s = used ++ rest ∧ Whole used by
      obtain ⟨used, hused, hwhole⟩ := hmain
      exact ⟨u ++ used, by rw [List.append_assoc, ← hused, ← hs], .spaces_left hu hwhole⟩
    rw [parseValue] at h
    cases hskip : skipSpace s with
    | nil =>
        rw [hskip] at h
        cases h
    | cons c t =>
        simp only [hskip] at h
        obtain ⟨v, ht, hv⟩ := exists_skipSpace t
        split_ifs at h with h₁ h₂ h₃
        · cases hskip' : skipSpace t with
          | nil => simp only [hskip', reduceCtorEq] at h
          | cons d t' =>
              simp only [hskip'] at h
              split_ifs at h with h₄
              · obtain ⟨-, rfl⟩ := Prod.mk.inj (Option.some.inj h)
                refine ⟨c :: (v ++ [d]), ?_, .empty (.inl h₁) (.inl h₄) hv⟩
                rw [ht, hskip']
                simp
              · obtain ⟨⟨fields, rest'⟩, hmembers, h⟩ := Option.bind_eq_some_iff.mp h
                obtain ⟨-, rfl⟩ := Prod.mk.inj (Option.some.inj h)
                obtain ⟨body, hbody, hwhole⟩ := parseMembers_scan n _ _ _ hmembers
                refine ⟨c :: ((v ++ body) ++ ['}']), ?_,
                  .enclosed (.inl h₁) (.inl rfl) (.spaces_left hv hwhole)⟩
                rw [ht, hskip', hbody]
                simp
        · cases hskip' : skipSpace t with
          | nil => simp only [hskip', reduceCtorEq] at h
          | cons d t' =>
              simp only [hskip'] at h
              split_ifs at h with h₄
              · obtain ⟨-, rfl⟩ := Prod.mk.inj (Option.some.inj h)
                refine ⟨c :: (v ++ [d]), ?_, .empty (.inr h₂) (.inr h₄) hv⟩
                rw [ht, hskip']
                simp
              · obtain ⟨⟨items, rest'⟩, hitems, h⟩ := Option.bind_eq_some_iff.mp h
                obtain ⟨-, rfl⟩ := Prod.mk.inj (Option.some.inj h)
                obtain ⟨body, hbody, hwhole⟩ := parseItems_scan n _ _ _ hitems
                refine ⟨c :: ((v ++ body) ++ [']']), ?_,
                  .enclosed (.inr h₂) (.inr rfl) (.spaces_left hv hwhole)⟩
                rw [ht, hskip', hbody]
                simp
        · obtain ⟨⟨w, rest'⟩, hstring, h⟩ := Option.bind_eq_some_iff.mp h
          obtain ⟨-, rfl⟩ := Prod.mk.inj (Option.some.inj h)
          obtain ⟨used, rfl, hwhole⟩ := parseString_scan hstring
          exact ⟨c :: used, rfl, h₃ ▸ hwhole⟩
        · obtain ⟨w, hatom, h⟩ := Option.bind_eq_some_iff.mp h
          obtain ⟨-, rfl⟩ := Prod.mk.inj (Option.some.inj h)
          exact ⟨_, (List.takeWhile_append_dropWhile ..).symm,
            .atom (fun _ hx => List.mem_takeWhile_imp hx) (readAtom_ne_nil hatom)⟩

theorem parseItems_scan : ∀ (n : Nat) (s : List Char) (xs : List Json) (rest : List Char),
    parseItems n s = some (xs, rest) → ∃ body, s = body ++ ']' :: rest ∧ Whole body
  | 0, _, _, _, h => nomatch h
  | n + 1, s, xs, rest, h => by
    obtain ⟨⟨x, t⟩, hvalue, hmore⟩ := Option.bind_eq_some_iff.mp h
    obtain ⟨used, rfl, hused⟩ := parseValue_scan n s x t hvalue
    obtain ⟨u, ht, hu⟩ := exists_skipSpace t
    dsimp only at hmore
    cases hskip : skipSpace t with
    | nil => rw [hskip] at hmore; cases hmore
    | cons c t' =>
        rw [hskip] at ht hmore
        dsimp only at hmore
        split_ifs at hmore with h₁ h₂
        · obtain ⟨⟨ys, rest'⟩, hitems, hlast⟩ := Option.bind_eq_some_iff.mp hmore
          obtain ⟨-, rfl⟩ := Prod.mk.inj (Option.some.inj hlast)
          obtain ⟨body, rfl, hbody⟩ := parseItems_scan n _ _ _ hitems
          refine ⟨(used ++ u) ++ c :: body, ?_,
            .separated (.inl h₁) (hused.spaces_right hu) hbody⟩
          rw [ht]
          simp
        · obtain ⟨-, rfl⟩ := Prod.mk.inj (Option.some.inj hmore)
          refine ⟨used ++ u, ?_, hused.spaces_right hu⟩
          rw [ht, h₂]
          simp

theorem parseMembers_scan : ∀ (n : Nat) (s : List Char) (fs : List (String × Json))
    (rest : List Char), parseMembers n s = some (fs, rest) →
    ∃ body, s = body ++ '}' :: rest ∧ Whole body
  | 0, _, _, _, h => nomatch h
  | n + 1, s, fs, rest, h => by
    obtain ⟨u, hs, hu⟩ := exists_skipSpace s
    rw [parseMembers] at h
    cases hskip : skipSpace s with
    | nil => simp only [hskip, reduceCtorEq] at h
    | cons q t =>
        rw [hskip] at hs
        simp only [hskip] at h
        split_ifs at h with h₁
        obtain ⟨⟨k, t₂⟩, hkey, hafter⟩ := Option.bind_eq_some_iff.mp h
        obtain ⟨key, rfl, hkeyWhole⟩ := parseString_scan hkey
        obtain ⟨u₂, ht₂, hu₂⟩ := exists_skipSpace t₂
        dsimp only at hafter
        cases hskip₂ : skipSpace t₂ with
        | nil => rw [hskip₂] at hafter; cases hafter
        | cons c t₃ =>
            rw [hskip₂] at ht₂ hafter
            dsimp only at hafter
            split_ifs at hafter with h₂
            obtain ⟨⟨v, t₄⟩, hvalue, hmore⟩ := Option.bind_eq_some_iff.mp hafter
            obtain ⟨used, rfl, hused⟩ := parseValue_scan n t₃ v t₄ hvalue
            obtain ⟨u₄, ht₄, hu₄⟩ := exists_skipSpace t₄
            have hmember : Whole ((u ++ ('"' :: key ++ u₂)) ++ c :: (used ++ u₄)) :=
              .separated (.inr h₂) (.spaces_left hu (hkeyWhole.spaces_right hu₂))
                (hused.spaces_right hu₄)
            dsimp only at hmore
            cases hskip₄ : skipSpace t₄ with
            | nil => rw [hskip₄] at hmore; cases hmore
            | cons e t₅ =>
                rw [hskip₄] at ht₄ hmore
                dsimp only at hmore
                split_ifs at hmore with h₃ h₄
                · obtain ⟨⟨gs, rest'⟩, hmembers, hlast⟩ := Option.bind_eq_some_iff.mp hmore
                  obtain ⟨-, rfl⟩ := Prod.mk.inj (Option.some.inj hlast)
                  obtain ⟨body, rfl, hbody⟩ := parseMembers_scan n _ _ _ hmembers
                  refine ⟨_ ++ e :: body, ?_, .separated (.inl h₃) hmember hbody⟩
                  rw [hs, ht₂, ht₄, h₁]
                  simp
                · obtain ⟨-, rfl⟩ := Prod.mk.inj (Option.some.inj hmore)
                  refine ⟨_, ?_, hmember⟩
                  rw [hs, ht₂, ht₄, h₁, h₄]
                  simp

end

/-- A text the parser accepts is scanned to its end, all brackets closed. -/
theorem parse_scan {s : List Char} {j : Json} (h : parse s = some j) : Whole s := by
  rw [parse] at h
  split at h
  · rename_i value rest hvalue
    split_ifs at h with hrest
    obtain ⟨used, rfl, hused⟩ := parseValue_scan _ _ _ _ hvalue
    obtain ⟨u, hu, hspaces⟩ := exists_skipSpace rest
    rw [List.isEmpty_iff.mp hrest, List.append_nil] at hu
    exact hused.spaces_right (hu ▸ hspaces)
  · cases h

/-! ## Torn and glued texts -/

theorem scanChar_shift {m m' : Mode} {d d' : Nat} {c : Char}
    (h : scanChar (m, d) c = some (m', d')) (k : Nat) :
    scanChar (m, d + k) c = some (m', d' + k) := by
  have houtside (h : scanOutside m d c = some (m', d')) :
      scanOutside m (d + k) c = some (m', d' + k) := by
    unfold scanOutside at h ⊢
    split_ifs at h ⊢ with h₁ h₂ h₃
    all_goals first
      | cases h; rfl
      | (cases h; simp only [Nat.add_right_comm])
      | skip
    cases d with
    | zero => cases h
    | succ d =>
        cases h
        rw [Nat.add_right_comm]
  cases m with
  | string =>
      simp only [scanChar] at h ⊢
      split_ifs at h ⊢ <;> cases h <;> rfl
  | escape => cases h; rfl
  | value => exact houtside h
  | after => exact houtside h
  | atom => exact houtside h

/-- What is scanned at one depth is scanned at any greater depth. -/
theorem scan_shift {m m' : Mode} {d d' : Nat} {u : List Char}
    (h : scan (m, d) u = some (m', d')) (k : Nat) :
    scan (m, d + k) u = some (m', d' + k) := by
  induction u generalizing m d with
  | nil => cases h; rfl
  | cons c u ih =>
      obtain ⟨⟨m₁, d₁⟩, hc, hu⟩ := Option.bind_eq_some_iff.mp h
      rw [scan_cons, scanChar_shift hc k]
      exact ih hu

/-- Characters that close no bracket leave the scan at least as deep. -/
theorem scan_depth_le {m m' : Mode} {d d' : Nat} {u : List Char}
    (hu : ∀ c ∈ u, c ≠ '}' ∧ c ≠ ']') (h : scan (m, d) u = some (m', d')) : d ≤ d' := by
  induction u generalizing m d with
  | nil => cases h; exact le_refl _
  | cons c u ih =>
      obtain ⟨⟨m₁, d₁⟩, hc, hrest⟩ := Option.bind_eq_some_iff.mp h
      have hd := ih (fun e he => hu e (List.mem_cons_of_mem _ he)) hrest
      have hclose : ¬ (c = '}' ∨ c = ']') := by
        have := hu c (List.mem_cons_self ..)
        tauto
      have houtside (h : scanOutside m d c = some (m₁, d₁)) : d ≤ d₁ := by
        unfold scanOutside at h
        rw [if_neg hclose] at h
        split_ifs at h <;> cases h <;> omega
      refine le_trans ?_ hd
      cases m with
      | string =>
          simp only [scanChar] at hc
          split_ifs at hc <;> cases hc <;> exact le_refl _
      | escape => cases hc; exact le_refl _
      | value => exact houtside hc
      | after => exact houtside hc
      | atom => exact houtside hc

/-- The text of a nonempty object: whole members between two braces. -/
theorem exists_body (k : String) (v : Json) (fs : List (String × Json))
    (h : (obj ((k, v) :: fs)).Valid) :
    ∃ body, print (obj ((k, v) :: fs)) = '{' :: (body ++ ['}']) ∧ Whole body := by
  rw [Valid, ValidFields] at h
  obtain ⟨body, hbody, hwhole⟩ := parseMembers_scan _ _ _ _
    (parseMembers_print k v h.1 fs h.2 _ [] (le_refl _))
  refine ⟨body, ?_, hwhole⟩
  rw [print, ← hbody, List.append_nil]

/-- Whole members between two braces, cut short anywhere, leave the brace open. -/
theorem scan_take_enclosed {body : List Char} (hwhole : Whole body) {n : Nat} (hpos : 0 < n)
    (hlt : n < ('{' :: (body ++ ['}'])).length) :
    ∃ m d, scan (.value, 0) (('{' :: (body ++ ['}'])).take n) = some (m, d + 1) := by
  obtain ⟨n, rfl⟩ := Nat.exists_eq_succ_of_ne_zero (Nat.pos_iff_ne_zero.mp hpos)
  have hn : n ≤ body.length := by
    simp only [List.length_cons, List.length_append, List.length_nil] at hlt
    omega
  obtain ⟨m, -, hscan⟩ := hwhole 0
  rw [← List.take_append_drop n body, scan_append] at hscan
  obtain ⟨⟨m₁, d₁⟩, htake, -⟩ := Option.bind_eq_some_iff.mp hscan
  refine ⟨m₁, d₁, ?_⟩
  rw [List.take_succ_cons, List.take_append_of_le_length hn, scan_cons]
  exact scan_shift htake 1

/-- Cut short anywhere, an object's text leaves its brace open. -/
theorem scan_take {k : String} {v : Json} {fs : List (String × Json)}
    (h : (obj ((k, v) :: fs)).Valid) {n : Nat} (hpos : 0 < n)
    (hlt : n < (print (obj ((k, v) :: fs))).length) :
    ∃ m d, scan (.value, 0) ((print (obj ((k, v) :: fs))).take n) = some (m, d + 1) := by
  obtain ⟨body, hprint, hwhole⟩ := exists_body k v fs h
  rw [hprint] at hlt ⊢
  exact scan_take_enclosed hwhole hpos hlt

/-- A text whose brackets are still open after some characters of it, and that closes
none afterwards, is not JSON. -/
theorem parse_open {u junk : List Char} {m : Mode} {d : Nat}
    (hu : scan (.value, 0) u = some (m, d + 1)) (hjunk : ∀ c ∈ junk, c ≠ '}' ∧ c ≠ ']') :
    parse (u ++ junk) = none := by
  cases hparse : parse (u ++ junk) with
  | none => rfl
  | some j =>
      obtain ⟨m', -, hscan⟩ := parse_scan hparse 0
      rw [scan_append, hu, Option.bind_some] at hscan
      exact absurd (scan_depth_le hjunk hscan) (Nat.not_succ_le_zero d)

/-- An object's text cut short is not JSON, whatever its last character was replaced by. -/
theorem parse_torn {k : String} {v : Json} {fs : List (String × Json)}
    (h : (obj ((k, v) :: fs)).Valid) {n : Nat} (hpos : 0 < n)
    (hlt : n < (print (obj ((k, v) :: fs))).length) {junk : List Char}
    (hjunk : ∀ c ∈ junk, c ≠ '}' ∧ c ≠ ']') :
    parse ((print (obj ((k, v) :: fs))).take n ++ junk) = none := by
  obtain ⟨m, d, hscan⟩ := scan_take h hpos hlt
  exact parse_open hscan hjunk

/-- The text begins with the brace of an object and the first key's first letter. -/
def OpensObject (u : List Char) : Prop :=
  ∃ a t, u = '{' :: '"' :: a :: t ∧ Text.isLower a = true

theorem opensObject_print {k : String} {v : Json} {fs : List (String × Json)}
    (hk : ∃ a t, k.toList = a :: t ∧ Text.isLower a = true) :
    OpensObject (print (obj ((k, v) :: fs))) := by
  obtain ⟨a, t, hk, ha⟩ := hk
  have hquote : quoteChar a = [a] := by
    have hbounds : 97 ≤ a.toNat ∧ a.toNat ≤ 122 := by
      simpa [Text.isLower] using ha
    have hne (c : Char) (hc : c.toNat < 97) : a ≠ c := by
      rintro rfl
      omega
    simp only [quoteChar, if_neg (hne '"' (by decide)), if_neg (hne '\x08' (by decide)),
      if_neg (hne '\x0c' (by decide)), if_neg (hne '\n' (by decide)),
      if_neg (hne '\r' (by decide)), if_neg (hne '\t' (by decide)),
      if_neg (hne '\\' (by decide)), if_neg (show ¬ a.toNat < 0x20 by omega)]
  refine ⟨a, t.flatMap quoteChar ++ '"' :: ':' :: (print v ++ printFields fs), ?_, ha⟩
  rw [print, printString, hk, List.flatMap_cons, hquote]
  simp

/-- Behind an ended value no object begins. -/
theorem scan_ended_opens {m : Mode} (hm : m.Ended) (d : Nat) {u : List Char}
    (hu : OpensObject u) : scan (m, d) u = none := by
  obtain ⟨a, t, rfl, -⟩ := hu
  rcases hm with rfl | rfl <;> rfl

/-- An object begun inside an open bracket leaves it open, or is not scanned at all. -/
theorem scan_opens_depth {m m' : Mode} {d d' : Nat} {u : List Char} (hu : OpensObject u)
    (hwhole : Whole u) (h : scan (m, d) u = some (m', d')) : d' = d := by
  have hstring : scan (.string, d) u = none := by
    obtain ⟨a, t, rfl, ha⟩ := hu
    have hstep : scanChar (.after, d) a = none := by
      have hbounds : 97 ≤ a.toNat ∧ a.toNat ≤ 122 := by
        simpa [Text.isLower] using ha
      have hne (c : Char) (hc : c.toNat < 97 ∨ 122 < c.toNat) : a ≠ c := by
        rintro rfl
        omega
      have hspace : isSpace a = false := by
        simp [isSpace, hne ' ' (by decide), hne '\t' (by decide), hne '\n' (by decide),
          hne '\r' (by decide)]
      simp [scanChar, scanOutside, hspace, hne ',' (by decide), hne ':' (by decide),
        hne '}' (by decide), hne ']' (by decide), hne '{' (by decide), hne '[' (by decide),
        hne '"' (by decide)]
    calc scan (.string, d) ('{' :: '"' :: a :: t)
        = scan (.after, d) (a :: t) := rfl
      _ = none := by rw [scan_cons, hstep]; rfl
  cases m with
  | value =>
      obtain ⟨m₁, -, hscan⟩ := hwhole d
      rw [hscan] at h
      cases h
      rfl
  | after => rw [scan_ended_opens (.inl rfl) d hu] at h; cases h
  | atom => rw [scan_ended_opens (.inr rfl) d hu] at h; cases h
  | string => rw [hstring] at h; cases h
  | escape =>
      have hesc : scan (.escape, d) u = scan (.string, d) u := by
        obtain ⟨a, t, rfl, -⟩ := hu
        rfl
      rw [hesc, hstring] at h
      cases h

/-- An object's text appended to another one that was cut short is not JSON. -/
theorem parse_glued {k : String} {v : Json} {fs : List (String × Json)}
    (h : (obj ((k, v) :: fs)).Valid) {n : Nat} (hpos : 0 < n)
    (hlt : n < (print (obj ((k, v) :: fs))).length) {junk next : List Char}
    (hjunk : ∀ c ∈ junk, c ≠ '}' ∧ c ≠ ']') (hopens : OpensObject next)
    (hwhole : Whole next) :
    parse ((print (obj ((k, v) :: fs))).take n ++ (junk ++ next)) = none := by
  obtain ⟨m, d, hscan⟩ := scan_take h hpos hlt
  cases hparse : parse ((print (obj ((k, v) :: fs))).take n ++ (junk ++ next)) with
  | none => rfl
  | some j =>
      obtain ⟨m', -, hall⟩ := parse_scan hparse 0
      rw [scan_append, hscan, Option.bind_some, scan_append] at hall
      obtain ⟨⟨m₁, d₁⟩, hjunkScan, hnext⟩ := Option.bind_eq_some_iff.mp hall
      have hle := scan_depth_le hjunk hjunkScan
      have heq := scan_opens_depth hopens hwhole hnext
      omega

/-- Two objects' texts side by side are not JSON. -/
theorem parse_joined {u next : List Char} (hu : Whole u) (hopens : OpensObject next) :
    parse (u ++ next) = none := by
  cases hparse : parse (u ++ next) with
  | none => rfl
  | some j =>
      obtain ⟨m, -, hall⟩ := parse_scan hparse 0
      obtain ⟨m₁, hm₁, hscan⟩ := hu 0
      rw [scan_append, hscan, Option.bind_some, scan_ended_opens hm₁ 0 hopens] at hall
      cases hall

end AgentGather.Library.Json
