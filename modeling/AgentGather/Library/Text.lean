import Mathlib.Algebra.GroupWithZero.Nat
import Mathlib.Data.Bool.AllAny
import Mathlib.Tactic.Common
import Mathlib.Data.List.DropRight
import Mathlib.Data.List.TakeWhile

/-!
# Text as lists of characters

The string operations of ECMAScript on which text processing rests: its white space,
trimming, and lengths counted in UTF-16 code units.
-/

namespace AgentGather.Library.Text

/-- A line terminator: what the dot of a regular expression does not match. -/
def isLineTerminator (c : Char) : Bool :=
  c == '\n' || c == '\r' || c == '\u2028' || c == '\u2029'

/-- White space as trimming and `\s` see it: Unicode spaces, the byte order mark and
the line terminators. -/
def isSpace (c : Char) : Bool :=
  isLineTerminator c || c == '\t' || c == '\x0b' || c == '\x0c' || c == ' ' ||
    c == '\u00a0' || c == '\u1680' || (0x2000 ≤ c.toNat && c.toNat ≤ 0x200a) ||
    c == '\u202f' || c == '\u205f' || c == '\u3000' || c == '\ufeff'

def isLower (c : Char) : Bool := 'a'.toNat ≤ c.toNat && c.toNat ≤ 'z'.toNat

def isUpper (c : Char) : Bool := 'A'.toNat ≤ c.toNat && c.toNat ≤ 'Z'.toNat

def isDigit (c : Char) : Bool := '0'.toNat ≤ c.toNat && c.toNat ≤ '9'.toNat

/-- `\w`. -/
def isWord (c : Char) : Bool := isLower c || isUpper c || isDigit c || c == '_'

def trimStart (s : List Char) : List Char := s.dropWhile isSpace

def trimEnd (s : List Char) : List Char := s.rdropWhile isSpace

def trim (s : List Char) : List Char := trimEnd (trimStart s)

/-- The UTF-16 code units of one character. -/
def codeUnits (c : Char) : Nat := if c.toNat < 0x10000 then 1 else 2

/-- The length of a string as ECMAScript counts it. -/
def utf16Length (s : List Char) : Nat := (s.map codeUnits).sum

/-- `text.slice(0, n)`.  Half of a character that is cut is the replacement character. -/
def sliceTo : Nat → List Char → List Char
  | _, [] => []
  | 0, _ => []
  | 1, c :: _ => if codeUnits c = 1 then [c] else ['\uFFFD']
  | n + 2, c :: cs => c :: if codeUnits c = 1 then sliceTo (n + 1) cs else sliceTo n cs

/-- Trimming leaves nothing exactly of blank text. -/
theorem trim_eq_nil_iff (s : List Char) : trim s = [] ↔ ∀ c ∈ s, isSpace c = true := by
  rw [trim, trimEnd, List.rdropWhile_eq_nil_iff]
  constructor
  · intro h
    refine List.dropWhile_eq_nil_iff.mp (by_contra fun hne => ?_)
    have hhead := List.head_dropWhile_not isSpace hne
    rw [h _ (List.head_mem hne)] at hhead
    cases hhead
  · intro h c hc
    exact h c ((List.dropWhile_suffix isSpace).subset hc)

/-- What is trimmed begins and ends with no space. -/
theorem trim_trim (s : List Char) : trim (trim s) = trim s := by
  have hstart : trimStart (trim s) = trim s := by
    cases htrim : trim s with
    | nil => rfl
    | cons c t =>
        have hprefix : c :: t <+: trimStart s := htrim ▸ List.rdropWhile_prefix isSpace _
        obtain ⟨rest, hrest⟩ := hprefix
        have hne : s.dropWhile isSpace ≠ [] := by
          change trimStart s ≠ []
          rw [← hrest]
          exact List.cons_ne_nil _ _
        have hhead := List.head_dropWhile_not isSpace hne
        have hc : (s.dropWhile isSpace).head hne = c := by
          simp only [show s.dropWhile isSpace = c :: t ++ rest from hrest.symm]
          rfl
        rw [hc] at hhead
        rw [trimStart, List.dropWhile_cons_of_neg (by simp [hhead])]
  rw [trim, hstart, trimEnd, trim, trimEnd, List.rdropWhile_idempotent]

/-! ## Text behind its length -/

/-- A text behind its length and a colon. -/
def lengthPrefixed (s : List Char) : List Char :=
  Nat.toDigits 10 (utf16Length s) ++ ':' :: s

theorem codeUnits_pos (c : Char) : 0 < codeUnits c := by
  unfold codeUnits
  split
  · exact Nat.one_pos
  · exact Nat.two_pos

theorem colon_not_mem_toDigits (n : Nat) : ':' ∉ Nat.toDigits 10 n := by
  intro h
  have hdigit : ':'.isDigit = true := Nat.isDigit_of_mem_toDigits (by decide) (by decide) h
  cases hdigit

/-- No piece of a text that is split has a separator. -/
theorem mem_splitOnP {α : Type} {p : α → Bool} {s piece : List α} (h : piece ∈ s.splitOnP p) :
    ∀ a ∈ piece, p a = false := by
  induction s generalizing piece with
  | nil =>
      rw [List.splitOnP_nil] at h
      rw [List.mem_singleton.mp h]
      exact fun _ h => nomatch h
  | cons a s ih =>
      rw [List.splitOnP_cons_eq_if_modifyHead] at h
      split at h
      · rcases List.mem_cons.mp h with rfl | h
        · exact fun _ h => nomatch h
        · exact ih h
      · cases hs : s.splitOnP p with
        | nil => exact absurd hs (List.splitOnP_ne_nil p s)
        | cons first rest =>
            rw [hs, List.modifyHead_cons] at h
            rw [hs] at ih
            rcases List.mem_cons.mp h with rfl | h
            · intro b hb
              rcases List.mem_cons.mp hb with rfl | hb
              · simpa using ‹¬p b = true›
              · exact ih List.mem_cons_self b hb
            · exact ih (List.mem_cons_of_mem _ h)

/-- A text begins with its first piece. -/
theorem splitOnP_prefixed {α : Type} {p : α → Bool} {s first : List α} {rest : List (List α)}
    (h : s.splitOnP p = first :: rest) : first <+: s := by
  induction s generalizing first rest with
  | nil =>
      rw [List.splitOnP_nil] at h
      have hfirst := (List.cons.inj h).1
      subst hfirst
      exact List.prefix_rfl
  | cons a s ih =>
      rw [List.splitOnP_cons_eq_if_modifyHead] at h
      split at h
      · rw [← (List.cons.inj h).1]
        exact List.nil_prefix
      · cases hs : s.splitOnP p with
        | nil => exact absurd hs (List.splitOnP_ne_nil p s)
        | cons next more =>
            rw [hs, List.modifyHead_cons] at h
            rw [← (List.cons.inj h).1, List.prefix_cons_inj]
            exact ih hs

/-- Every piece of a text that is split stands in it. -/
theorem infix_of_mem_splitOnP {α : Type} {p : α → Bool} {s piece : List α}
    (h : piece ∈ s.splitOnP p) : piece <:+: s := by
  induction s generalizing piece with
  | nil =>
      rw [List.splitOnP_nil] at h
      have hpiece := List.mem_singleton.mp h
      subst hpiece
      exact List.infix_rfl
  | cons a s ih =>
      have hall : ∀ piece ∈ s.splitOnP p, piece <:+: a :: s := fun piece hpiece =>
        (ih hpiece).trans (List.suffix_cons a s).isInfix
      rw [List.splitOnP_cons_eq_if_modifyHead] at h
      split at h
      · rcases List.mem_cons.mp h with rfl | h
        · exact List.nil_infix
        · exact hall piece h
      · cases hs : s.splitOnP p with
        | nil => exact absurd hs (List.splitOnP_ne_nil p s)
        | cons first rest =>
            rw [hs, List.modifyHead_cons] at h
            rcases List.mem_cons.mp h with rfl | h
            · exact ((List.prefix_cons_inj a).mpr (splitOnP_prefixed hs)).isInfix
            · exact hall piece (hs ▸ List.mem_cons_of_mem first h)

/-- What stands before the first separator, and what behind it. -/
theorem append_separator_inj {sep : Char} {s t x y : List Char} (hs : sep ∉ s) (ht : sep ∉ t)
    (h : s ++ sep :: x = t ++ sep :: y) : s = t ∧ x = y := by
  induction s generalizing t with
  | nil =>
      cases t with
      | nil => exact ⟨rfl, (List.cons.inj h).2⟩
      | cons d t => exact absurd ((List.cons.inj h).1 ▸ List.mem_cons_self) ht
  | cons c s ih =>
      cases t with
      | nil => exact absurd ((List.cons.inj h).1 ▸ List.mem_cons_self) hs
      | cons d t =>
          rw [List.mem_cons, not_or] at hs ht
          rw [List.cons_append, List.cons_append] at h
          obtain ⟨rfl, htails⟩ := List.cons.inj h
          obtain ⟨rfl, hxy⟩ := ih hs.2 ht.2 htails
          exact ⟨rfl, hxy⟩

/-- Of two beginnings of one text, those of the same length are the same. -/
theorem append_inj_of_utf16Length {s t x y : List Char} (h : s ++ x = t ++ y)
    (hlength : utf16Length s = utf16Length t) : s = t ∧ x = y := by
  induction s generalizing t with
  | nil =>
      cases t with
      | nil => exact ⟨rfl, h⟩
      | cons c t =>
          have hpos := codeUnits_pos c
          simp [utf16Length] at hlength
          omega
  | cons c s ih =>
      cases t with
      | nil =>
          have hpos := codeUnits_pos c
          simp [utf16Length] at hlength
          omega
      | cons d t =>
          rw [List.cons_append, List.cons_append] at h
          obtain ⟨rfl, htails⟩ := List.cons.inj h
          have htail : utf16Length s = utf16Length t := by
            simpa [utf16Length] using hlength
          obtain ⟨rfl, hxy⟩ := ih htails htail
          exact ⟨rfl, hxy⟩

/-- What stands behind its length is read back, whatever follows. -/
theorem lengthPrefixed_append_inj {s t x y : List Char}
    (h : lengthPrefixed s ++ x = lengthPrefixed t ++ y) : s = t ∧ x = y := by
  simp only [lengthPrefixed, List.append_assoc, List.cons_append] at h
  obtain ⟨hdigits, hrest⟩ :=
    append_separator_inj (colon_not_mem_toDigits _) (colon_not_mem_toDigits _) h
  have hlength : utf16Length s = utf16Length t := by
    rw [← Nat.ofDigitChars_ten_toDigits (n := utf16Length s), hdigits,
      Nat.ofDigitChars_ten_toDigits]
  exact append_inj_of_utf16Length hrest hlength

/-! ## Cut texts -/

theorem utf16Length_cons (c : Char) (s : List Char) :
    utf16Length (c :: s) = codeUnits c + utf16Length s := by
  rw [utf16Length, utf16Length, List.map_cons, List.sum_cons]

/-- A text is cut to the length. -/
theorem utf16Length_sliceTo_le (n : Nat) (s : List Char) :
    utf16Length (sliceTo n s) ≤ n := by
  induction n, s using sliceTo.induct with
  | case1 n => simp [sliceTo, utf16Length]
  | case2 s => simp [sliceTo, utf16Length]
  | case3 c cs h => rw [sliceTo, if_pos h, utf16Length_cons, h]; decide
  | case4 c cs h => rw [sliceTo, if_neg h]; decide
  | case5 n c cs ih₁ ih₂ =>
      rw [sliceTo, utf16Length_cons]
      split
      · rename_i h
        rw [h]
        omega
      · have hunits : codeUnits c ≤ 2 := by
          unfold codeUnits
          split_ifs <;> omega
        omega

/-- A text that is short enough stays. -/
theorem sliceTo_of_le {n : Nat} {s : List Char} (h : utf16Length s ≤ n) : sliceTo n s = s := by
  induction n, s using sliceTo.induct with
  | case1 n => rw [sliceTo]
  | case2 s hne =>
      cases s with
      | nil => rw [sliceTo]
      | cons c s =>
          have hpos := codeUnits_pos c
          rw [utf16Length_cons] at h
          omega
  | case3 c cs hone =>
      cases cs with
      | nil => rw [sliceTo, if_pos hone]
      | cons d cs =>
          have hpos := codeUnits_pos d
          rw [utf16Length_cons, utf16Length_cons] at h
          omega
  | case4 c cs hone =>
      have hpos := codeUnits_pos c
      rw [utf16Length_cons] at h
      omega
  | case5 n c cs ih₁ ih₂ =>
      have hunits : codeUnits c = 1 ∨ codeUnits c = 2 := by
        unfold codeUnits
        split_ifs
        · exact .inl rfl
        · exact .inr rfl
      rw [utf16Length_cons] at h
      rw [sliceTo]
      split
      · rw [ih₁ (by omega)]
      · rw [ih₂ (by omega)]

theorem append_eq_singleton_cons {a z : List Char} {c e : Char} (h : a ++ c :: z = [e]) :
    a = [] ∧ c = e ∧ z = [] := by
  cases a with
  | nil =>
      obtain ⟨hc, hz⟩ := List.cons.inj h
      exact ⟨rfl, hc, hz⟩
  | cons f a =>
      obtain ⟨-, hnil⟩ := List.cons.inj h
      exact absurd (List.append_eq_nil_iff.mp hnil).2 (List.cons_ne_nil c z)

/-- What stands before a character of a cut text stands in the text. -/
theorem sliceTo_eq_append_cons {n : Nat} {s a z : List Char} {c : Char}
    (h : sliceTo n s = a ++ c :: z) :
    ∃ d t, s = a ++ d :: t ∧ utf16Length a < n ∧ (d = c ∨ codeUnits d ≠ 1) := by
  induction n, s using sliceTo.induct generalizing a with
  | case1 n =>
      rw [sliceTo] at h
      exact absurd (List.append_eq_nil_iff.mp h.symm).2 (List.cons_ne_nil c z)
  | case2 s hne =>
      rw [sliceTo] at h
      · exact absurd (List.append_eq_nil_iff.mp h.symm).2 (List.cons_ne_nil c z)
      · exact hne
  | case3 e cs hone =>
      rw [sliceTo, if_pos hone] at h
      obtain ⟨rfl, rfl, -⟩ := append_eq_singleton_cons h.symm
      exact ⟨c, cs, rfl, Nat.one_pos, .inl rfl⟩
  | case4 e cs hone =>
      rw [sliceTo, if_neg hone] at h
      obtain ⟨rfl, -, -⟩ := append_eq_singleton_cons h.symm
      exact ⟨e, cs, rfl, Nat.one_pos, .inr hone⟩
  | case5 n e cs ih₁ ih₂ =>
      rw [sliceTo] at h
      cases a with
      | nil => exact ⟨e, cs, rfl, Nat.succ_pos _, .inl (List.cons.inj h).1⟩
      | cons f a =>
          obtain ⟨rfl, htail⟩ := List.cons.inj h
          rw [utf16Length_cons]
          split at htail
          · rename_i hone
            obtain ⟨d, t, rfl, hlt, hd⟩ := ih₁ htail
            exact ⟨d, t, rfl, by omega, hd⟩
          · obtain ⟨d, t, rfl, hlt, hd⟩ := ih₂ htail
            have hunits : codeUnits e ≤ 2 := by
              unfold codeUnits
              split_ifs <;> omega
            exact ⟨d, t, rfl, by omega, hd⟩

/-- A character of one unit is kept where what stands before it fits. -/
theorem sliceTo_append_cons {n : Nat} {a t : List Char} {c : Char} (ha : utf16Length a < n)
    (hc : codeUnits c = 1) : ∃ z, sliceTo n (a ++ c :: t) = a ++ c :: z := by
  induction a generalizing n with
  | nil =>
      rcases n with _ | _ | n
      · cases ha
      · exact ⟨[], by rw [List.nil_append, sliceTo, if_pos hc]; rfl⟩
      · have hslice : sliceTo (n + 2) (c :: t) =
            c :: if codeUnits c = 1 then sliceTo (n + 1) t else sliceTo n t := by
          rw [sliceTo]
        exact ⟨_, hslice⟩
  | cons d a ih =>
      have hpos := codeUnits_pos d
      rw [utf16Length_cons] at ha
      rcases n with _ | _ | n
      · cases ha
      · omega
      · rw [List.cons_append, sliceTo]
        split
        · rename_i hone
          obtain ⟨z, hz⟩ := ih (n := n + 1) (by omega)
          exact ⟨z, by rw [hz]; rfl⟩
        · rename_i htwo
          have hunits : codeUnits d = 2 := by
            unfold codeUnits at htwo ⊢
            split_ifs at htwo ⊢ <;> omega
          obtain ⟨z, hz⟩ := ih (n := n) (by omega)
          exact ⟨z, by rw [hz]; rfl⟩

/-- What stands behind enough text does not matter. -/
theorem sliceTo_append_of_le {n : Nat} {s : List Char} (h : n ≤ utf16Length s)
    (x y : List Char) : sliceTo n (s ++ x) = sliceTo n (s ++ y) := by
  have hzero (t : List Char) : sliceTo 0 t = [] := by cases t <;> rfl
  induction s generalizing n with
  | nil =>
      obtain rfl := Nat.le_zero.mp h
      rw [hzero, hzero]
  | cons c s ih =>
      rw [utf16Length_cons] at h
      rcases n with _ | _ | n
      · rw [hzero, hzero]
      · rw [List.cons_append, List.cons_append, sliceTo, sliceTo]
      · rw [List.cons_append, List.cons_append, sliceTo, sliceTo]
        split
        · rw [ih (by omega)]
        · have hunits : codeUnits c ≤ 2 := by
            unfold codeUnits
            split_ifs <;> omega
          rw [ih (by omega)]

/-- What stands before the cut stays. -/
theorem sliceTo_append {n : Nat} {s : List Char} (h : utf16Length s ≤ n) (x : List Char) :
    sliceTo n (s ++ x) = s ++ sliceTo (n - utf16Length s) x := by
  induction s generalizing n with
  | nil => rfl
  | cons c s ih =>
      rw [utf16Length_cons] at h ⊢
      have hpos := codeUnits_pos c
      rcases n with _ | _ | n
      · omega
      · have hone : codeUnits c = 1 := by omega
        have hempty : s = [] := by
          cases s with
          | nil => rfl
          | cons d s =>
              have hd := codeUnits_pos d
              rw [utf16Length_cons] at h
              omega
        subst hempty
        rw [hone]
        have hzero : sliceTo 0 x = [] := by cases x <;> rfl
        rw [List.singleton_append, sliceTo, if_pos hone, show utf16Length [] = 0 from rfl]
        exact congrArg (c :: ·) hzero.symm
      · rw [List.cons_append, sliceTo, List.cons_append]
        refine congrArg (c :: ·) ?_
        split
        · rename_i hone
          rw [ih (by omega), hone]
          exact congrArg (fun k => s ++ sliceTo k x) (by omega)
        · rename_i hone
          have htwo : codeUnits c = 2 := by
            unfold codeUnits at hone hpos ⊢
            split_ifs at hone ⊢ <;> first | rfl | exact absurd rfl hone
          rw [ih (by omega), htwo]
          exact congrArg (fun k => s ++ sliceTo k x) (by omega)

/-! ## Fragments -/

section Fragments

variable {α : Type} {lit name : List α} {o c : α}

/-- A fragment without a character does not reach it. -/
theorem eq_append_of_not_mem {t v q : List α} (ho : o ∉ lit) (h : lit ++ t = v ++ o :: q) :
    ∃ u, v = lit ++ u ∧ t = u ++ o :: q := by
  rcases List.append_eq_append_iff.mp h with ⟨u, hv, ht⟩ | ⟨u, hlit, hq⟩
  · exact ⟨u, hv, ht⟩
  · cases u with
    | nil => exact ⟨[], by rw [hlit, List.append_nil, List.append_nil], hq.symm⟩
    | cons d u =>
        obtain ⟨rfl, -⟩ := List.cons.inj hq
        exact absurd (hlit ▸ List.mem_append_right v List.mem_cons_self) ho

/-- A fragment with a character that a bracketed name does not have stands before the name or
behind it. -/
theorem fragment_cases {u t v rest : List α} (ho : o ∉ lit) (hc : c ∉ lit)
    (hkey : ∃ d ∈ lit, d ∉ name)
    (h : u ++ (lit ++ t) = v ++ (o :: (name ++ [c]) ++ rest)) :
    (∃ q, v = u ++ (lit ++ q) ∧ t = q ++ (o :: (name ++ [c]) ++ rest)) ∨
      ∃ q, u = v ++ (o :: (name ++ [c]) ++ q) ∧ rest = q ++ (lit ++ t) := by
  obtain ⟨d, hd, hdname⟩ := hkey
  rcases List.append_eq_append_iff.mp h with ⟨v', rfl, hlit⟩ | ⟨u', rfl, hlit⟩
  · obtain ⟨q, rfl, ht⟩ := eq_append_of_not_mem ho hlit
    exact .inl ⟨q, rfl, ht⟩
  · cases u' with
    | nil =>
        obtain ⟨q, hq, ht⟩ := eq_append_of_not_mem (v := []) ho hlit.symm
        rw [(List.append_eq_nil_iff.mp hq.symm).1] at hd
        cases hd
    | cons e u' =>
        rw [List.cons_append, List.cons_append] at hlit
        obtain ⟨rfl, htail⟩ := List.cons.inj hlit
        rw [List.append_assoc] at htail
        rcases List.append_eq_append_iff.mp htail with ⟨q, hu', hq⟩ | ⟨q, hname, hq⟩
        · cases q with
          | nil =>
              obtain ⟨x, hx, -⟩ := eq_append_of_not_mem (v := []) hc hq.symm
              rw [(List.append_eq_nil_iff.mp hx.symm).1] at hd
              cases hd
          | cons e q =>
              obtain ⟨rfl, hrest⟩ := List.cons.inj hq
              refine .inr ⟨q, ?_, hrest⟩
              rw [hu']
              simp
        · obtain ⟨x, hx, -⟩ := eq_append_of_not_mem hc hq
          rw [hname, hx] at hdname
          exact absurd (List.mem_append_right u' (List.mem_append_left x hd)) hdname

/-- It does not begin in the name. -/
theorem not_fragment_of_suffix {w₂ t rest : List α} (hc : c ∉ lit) (ho : o ∉ lit)
    (hkey : ∃ d ∈ lit, d ∉ name) (hne : w₂ ≠ []) (hsuffix : w₂ <:+ o :: (name ++ [c])) :
    lit ++ t ≠ w₂ ++ rest := by
  intro h
  obtain ⟨d, hd, hdname⟩ := hkey
  obtain ⟨w₁, hw⟩ := hsuffix
  obtain ⟨q, hq, -⟩ : ∃ q, w₂.dropLast = lit ++ q ∧ t = q ++ c :: rest := by
    apply eq_append_of_not_mem hc
    have hlast : w₂ = w₂.dropLast ++ [c] := by
      have hgetLast : w₂.getLast hne = c := by
        have h' : (w₁ ++ w₂).getLast (by simp [hne]) = c := by simp [hw]
        rwa [List.getLast_append_of_ne_nil _ hne] at h'
      rw [← hgetLast, List.dropLast_append_getLast]
    rw [h, List.append_cons, ← hlast]
  have hmem : d ∈ o :: (name ++ [c]) := by
    rw [← hw]
    exact List.mem_append_right w₁ (List.dropLast_subset w₂ (hq ▸ List.mem_append_left q hd))
  rcases List.mem_cons.mp hmem with rfl | hmem
  · exact ho hd
  · rcases List.mem_append.mp hmem with hmem | hmem
    · exact hdname hmem
    · exact hc (List.mem_singleton.mp hmem ▸ hd)

end Fragments

end AgentGather.Library.Text
