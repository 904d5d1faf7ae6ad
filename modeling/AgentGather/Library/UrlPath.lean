import Mathlib.Data.List.DropRight
import AgentGather.Library.Url

/-!
# Paths that are read again

What the path of a special URL is made of, and that a path which was read and serialized is
read as itself.
-/

namespace AgentGather.Library.Url

/-! ## What percent-encoding leaves -/

/-- The characters percent-encoding writes are not in the set. -/
def Escapes (set : Char → Bool) : Prop :=
  ∀ c ∈ '%' :: percentDigits, set c = false

theorem escapes_pathSet : Escapes pathSet := by
  unfold Escapes
  exact List.all_iff_forall_prop.mp (by decide)

theorem escapes_specialQuerySet : Escapes specialQuerySet := by
  unfold Escapes
  exact List.all_iff_forall_prop.mp (by decide)

theorem escapes_userinfoSet : Escapes userinfoSet := by
  unfold Escapes
  exact List.all_iff_forall_prop.mp (by decide)

theorem percentDigit_mem (n : Nat) : percentDigit n ∈ percentDigits := by
  have hlt : n % 16 < percentDigits.length := Nat.mod_lt n (by decide)
  rw [percentDigit, List.getD_eq_getElem?_getD, List.getElem?_eq_getElem hlt]
  exact List.getElem_mem hlt

theorem mem_percentByte {b : Nat} {c : Char} (h : c ∈ percentByte b) :
    c ∈ '%' :: percentDigits := by
  simp only [percentByte, List.mem_cons, List.not_mem_nil, or_false] at h
  rcases h with rfl | rfl | rfl
  · exact List.mem_cons_self
  · exact List.mem_cons_of_mem _ (percentDigit_mem _)
  · exact List.mem_cons_of_mem _ (percentDigit_mem _)

/-- What is encoded is outside of the set, and each character is one of the text or of an
escape. -/
theorem mem_percentEncode {set : Char → Bool} {s : List Char} {c : Char}
    (h : c ∈ percentEncode set s) :
    c ∈ s ∧ set c = false ∨ c ∈ '%' :: percentDigits := by
  obtain ⟨d, hd, hc⟩ := List.mem_flatMap.mp h
  rw [percentChar] at hc
  split at hc
  · obtain ⟨b, -, hb⟩ := List.mem_flatMap.mp hc
    exact .inr (mem_percentByte hb)
  · obtain rfl := List.mem_singleton.mp hc
    exact .inl ⟨hd, by simpa using ‹¬set c = true›⟩

theorem not_set_of_mem_percentEncode {set : Char → Bool} (hset : Escapes set) {s : List Char}
    {c : Char} (h : c ∈ percentEncode set s) : set c = false := by
  rcases mem_percentEncode h with hc | hc
  · exact hc.2
  · exact hset c hc

theorem percentEncode_eq_self {set : Char → Bool} {s : List Char}
    (h : ∀ c ∈ s, set c = false) : percentEncode set s = s := by
  induction s with
  | nil => rfl
  | cons c s ih =>
      rw [percentEncode, List.flatMap_cons, percentChar, h c List.mem_cons_self]
      simp only [Bool.false_eq_true, if_false, List.singleton_append]
      exact congrArg _ (ih fun d hd => h d (List.mem_cons_of_mem _ hd))

/-! ## Normal segments -/

/-- A character of a segment. -/
def isSegmentChar (c : Char) : Bool := !pathSet c && !isSlash true c

/-- What the parser makes of a segment: nothing is left to encode or to resolve. -/
structure Normal (segment : List Char) : Prop where
  chars : ∀ c ∈ segment, isSegmentChar c = true
  singleDot : isSingleDot segment = false
  doubleDot : isDoubleDot segment = false

theorem normal_nil : Normal [] := ⟨fun _ h => (nomatch h), by decide, by decide⟩

theorem Normal.not_slash {segment : List Char} (h : Normal segment) (special : Bool) :
    ∀ c ∈ segment, isSlash special c = false := by
  intro c hc
  have hchar := h.chars c hc
  simp only [isSegmentChar, isSlash, Bool.and_eq_true, Bool.not_eq_true', Bool.true_and,
    Bool.or_eq_false_iff] at hchar
  simp [isSlash, hchar.2.1, hchar.2.2]

theorem Normal.not_pathSet {segment : List Char} (h : Normal segment) :
    ∀ c ∈ segment, pathSet c = false := by
  intro c hc
  have hchar := h.chars c hc
  simp only [isSegmentChar, Bool.and_eq_true, Bool.not_eq_true'] at hchar
  exact hchar.1

/-- A segment of the input is made normal, or is a dot. -/
theorem normal_percentEncode {input : List Char} (h : ∀ c ∈ input, isSlash true c = false)
    (hsingle : isSingleDot (percentEncode pathSet input) = false)
    (hdouble : isDoubleDot (percentEncode pathSet input) = false) :
    Normal (percentEncode pathSet input) := by
  refine ⟨fun c hc => ?_, hsingle, hdouble⟩
  have hescape : ∀ c ∈ '%' :: percentDigits, isSlash true c = false :=
    List.all_iff_forall_prop.mp (by decide)
  have hslash : isSlash true c = false := by
    rcases mem_percentEncode hc with hmem | hmem
    · exact h c hmem.1
    · exact hescape c hmem
  rw [isSegmentChar, not_set_of_mem_percentEncode escapes_pathSet hc, hslash]
  rfl

theorem normal_shorten {path : List (List Char)} (h : ∀ x ∈ path, Normal x) :
    ∀ x ∈ shorten false path, Normal x :=
  fun x hx => h x (List.dropLast_subset path hx)

/-- A segment that is added leaves normal segments. -/
theorem normal_addSegment {path : List (List Char)} (hpath : ∀ x ∈ path, Normal x)
    {input : List Char} (hinput : ∀ c ∈ input, isSlash true c = false) (last : Bool) :
    ∀ x ∈ addSegment false path input last, Normal x := by
  have hend : ∀ x ∈ (if last then [[]] else [] : List (List Char)), Normal x := by
    intro x hx
    split at hx
    · rw [List.mem_singleton.mp hx]
      exact normal_nil
    · cases hx
  intro x hx
  rw [addSegment] at hx
  cases hdouble : isDoubleDot (percentEncode pathSet input) with
  | true =>
      simp only [hdouble, if_true] at hx
      rcases List.mem_append.mp hx with hx | hx
      · exact normal_shorten hpath x hx
      · exact hend x hx
  | false =>
      cases hsingle : isSingleDot (percentEncode pathSet input) with
      | true =>
          simp only [hdouble, hsingle, Bool.false_eq_true, if_true, if_false] at hx
          rcases List.mem_append.mp hx with hx | hx
          · exact hpath x hx
          · exact hend x hx
      | false =>
          simp only [hdouble, hsingle, Bool.false_eq_true, if_false] at hx
          rcases List.mem_append.mp hx with hx | hx
          · exact hpath x hx
          · rw [List.mem_singleton.mp hx]
            exact normal_percentEncode hinput hsingle hdouble

theorem addSegment_last_ne_nil (path : List (List Char)) (input : List Char) :
    addSegment false path input true ≠ [] := by
  unfold addSegment
  simp only
  split_ifs <;> simp

/-- Reading segments gives at least one, and only normal ones. -/
theorem normal_addSegments {path inputs : List (List Char)} (hpath : ∀ x ∈ path, Normal x)
    (hinputs : ∀ input ∈ inputs, ∀ c ∈ input, isSlash true c = false) (hne : inputs ≠ []) :
    (∀ x ∈ addSegments false path inputs, Normal x) ∧ addSegments false path inputs ≠ [] := by
  induction inputs generalizing path with
  | nil => exact absurd rfl hne
  | cons input inputs ih =>
      have hinput := hinputs input List.mem_cons_self
      cases inputs with
      | nil =>
          exact ⟨normal_addSegment hpath hinput true, addSegment_last_ne_nil path input⟩
      | cons next inputs =>
          exact ih (normal_addSegment hpath hinput false)
            (fun i hi => hinputs i (List.mem_cons_of_mem _ hi)) (List.cons_ne_nil _ _)

/-- A normal segment is added as it is. -/
theorem addSegment_of_normal (path : List (List Char)) {input : List Char} (h : Normal input)
    (last : Bool) : addSegment false path input last = path ++ [input] := by
  rw [addSegment]
  simp only [percentEncode_eq_self h.not_pathSet, h.doubleDot, h.singleDot]
  rfl

theorem addSegments_of_normal {path inputs : List (List Char)}
    (h : ∀ input ∈ inputs, Normal input) :
    addSegments false path inputs = path ++ inputs := by
  induction inputs generalizing path with
  | nil => exact (List.append_nil path).symm
  | cons input inputs ih =>
      have hinput := h input List.mem_cons_self
      cases inputs with
      | nil => exact addSegment_of_normal path hinput true
      | cons next inputs =>
          change addSegments false (addSegment false path input false) (next :: inputs) = _
          rw [addSegment_of_normal path hinput,
            ih fun i hi => h i (List.mem_cons_of_mem _ hi), List.append_assoc]
          rfl

/-! ## Reading and serializing -/

/-- Segments with a slash before each. -/
def joinSegments (path : List (List Char)) : List Char := path.flatMap ('/' :: ·)

theorem splitOnP_joinSegments {slash : Char → Bool} (hslash : slash '/' = true)
    {segment : List Char} {path : List (List Char)}
    (h : ∀ x ∈ segment :: path, ∀ c ∈ x, slash c = false) :
    (segment ++ joinSegments path).splitOnP slash = segment :: path := by
  induction path generalizing segment with
  | nil =>
      rw [joinSegments, List.flatMap_nil, List.append_nil]
      exact List.splitOnP_eq_singleton (h segment List.mem_cons_self)
  | cons next path ih =>
      rw [joinSegments, List.flatMap_cons, List.cons_append,
        List.splitOnP_append_cons_of_forall_mem (h segment List.mem_cons_self) '/' hslash]
      exact congrArg _ (ih fun x hx => h x (List.mem_cons_of_mem _ hx))

/-- A scheme whose paths are read as web paths are. -/
structure IsWeb (scheme : List Char) : Prop where
  special : isSpecial scheme = true
  notFile : isFile scheme = false

theorem isWeb_http : IsWeb "http".toList := ⟨by decide, by decide⟩

theorem isWeb_https : IsWeb "https".toList := ⟨by decide, by decide⟩

/-- What is read is normal. -/
theorem normal_readSegments {scheme : List Char} (h : IsWeb scheme)
    {path : List (List Char)} (hpath : ∀ x ∈ path, Normal x) (s : List Char) :
    (∀ x ∈ readSegments scheme path s, Normal x) ∧ readSegments scheme path s ≠ [] := by
  rw [readSegments, h.notFile, h.special]
  exact normal_addSegments hpath (fun _ hi => Text.mem_splitOnP hi) (List.splitOnP_ne_nil _ s)

theorem normal_readPath {scheme : List Char} (h : IsWeb scheme) (s : List Char) :
    (∀ x ∈ readPath scheme [] s, Normal x) ∧ readPath scheme [] s ≠ [] := by
  have hnil : ∀ x ∈ ([] : List (List Char)), Normal x := fun _ h => nomatch h
  cases s with
  | nil =>
      rw [readPath, h.special]
      exact normal_readSegments h hnil []
  | cons c s => exact normal_readSegments h hnil _

/-- What is normal is read as itself. -/
theorem readSegments_of_normal {scheme : List Char} (h : IsWeb scheme) {segment : List Char}
    {path : List (List Char)} (hpath : ∀ x ∈ segment :: path, Normal x) :
    readSegments scheme [] (segment ++ joinSegments path) = segment :: path := by
  rw [readSegments, h.notFile, h.special,
    splitOnP_joinSegments rfl fun x hx => (hpath x hx).not_slash true,
    addSegments_of_normal hpath]
  rfl

theorem readPath_of_normal {scheme : List Char} (h : IsWeb scheme) {path : List (List Char)}
    (hpath : ∀ x ∈ path, Normal x) (hne : path ≠ []) :
    readPath scheme [] (joinSegments path) = path := by
  cases path with
  | nil => exact absurd rfl hne
  | cons segment path =>
      rw [joinSegments, List.flatMap_cons, List.cons_append, readPath, h.special]
      exact readSegments_of_normal h hpath

/-- Without the slashes at its end, a path is without its last empty segments. -/
theorem rdropWhile_joinSegments {path : List (List Char)}
    (h : ∀ x ∈ path, ∀ c ∈ x, c ≠ '/') :
    (joinSegments path).rdropWhile (· == '/') = joinSegments (path.rdropWhile (· == [])) := by
  induction path using List.reverseRecOn with
  | nil => rfl
  | append_singleton path x ih =>
      have hpath := ih fun y hy => h y (List.mem_append_left _ hy)
      have hjoin : joinSegments (path ++ [x]) = joinSegments path ++ '/' :: x := by
        simp [joinSegments]
      by_cases hx : x = []
      · subst hx
        rw [hjoin, List.rdropWhile_concat_pos _ _ _ rfl, List.rdropWhile_concat_pos _ _ _ rfl]
        exact hpath
      · obtain ⟨y, c, rfl⟩ : ∃ y c, x = y ++ [c] :=
          ⟨_, _, (List.dropLast_concat_getLast hx).symm⟩
        have hc : c ≠ '/' := by
          apply h (y ++ [c]) (List.mem_append_right _ List.mem_cons_self)
          exact List.mem_append_right _ List.mem_cons_self
        have hkeep : (path ++ [y ++ [c]]).rdropWhile (· == []) = path ++ [y ++ [c]] :=
          List.rdropWhile_concat_neg _ _ _ (by simp)
        rw [hkeep, hjoin]
        have hassoc : joinSegments path ++ '/' :: (y ++ [c]) =
            (joinSegments path ++ '/' :: y) ++ [c] := by simp
        rw [hassoc, List.rdropWhile_concat_neg _ _ _ (by simpa using hc)]

/-- Web schemes read paths alike. -/
theorem readPath_congr {scheme other : List Char} (h : IsWeb scheme) (h' : IsWeb other)
    (s : List Char) : readPath scheme [] s = readPath other [] s := by
  unfold readPath readSegments
  rw [h.special, h'.special, h.notFile, h'.notFile]

/-! ## The path beside the query and the fragment -/

theorem path_withQuery {u : Url} {path : List (List Char)} (h : u.path = .segments path)
    (query : Option (List Char)) : (u.withQuery query).path = .segments path := by
  cases query with
  | none => exact h
  | some q => simp [withQuery, encodeLastSpace, h]

theorem path_withFragment {u : Url} {path : List (List Char)} (h : u.path = .segments path)
    (query fragment : Option (List Char)) :
    (u.withFragment query fragment).path = .segments path := by
  cases fragment with
  | none => exact h
  | some f => simp [withFragment, encodeLastSpace, h]

@[simp] theorem query_withFragment (u : Url) (query fragment : Option (List Char)) :
    (u.withFragment query fragment).query = u.query := by
  cases fragment with
  | none => rfl
  | some f => rfl

theorem query_withQuery {u : Url} (h : u.query = none) (hspecial : isSpecial u.scheme = true)
    (query : Option (List Char)) :
    (u.withQuery query).query = query.map (percentEncode specialQuerySet) := by
  cases query with
  | none => exact h
  | some q => simp [withQuery, hspecial]

theorem pathname_segments {u : Url} {path : List (List Char)} (h : u.path = .segments path) :
    u.pathname = joinSegments path := by
  rw [pathname, h]
  rfl

end AgentGather.Library.Url
