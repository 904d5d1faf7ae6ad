import AgentGather.Browser.Rendered

/-!
# Ordered lists keep their numbers

The items that stand in a text, grouped by what stands between them, against the items of the
rendered lists with the numbers that they show.
-/

namespace AgentGather.Browser

open AgentGather.Library AgentGather.Library.Dom AgentGather.Library.Regex
open AgentGather.Library.Number

/-! ## The items of a text -/

/-- A line outside of fenced code, as far as ordered lists are concerned. -/
inductive Mark where
  | item (ordinal : Nat) (content : Line)
  | blank
  | other
deriving DecidableEq, Repr

/-- The number and the content of an ordered item. -/
def itemOf (m : Match Char) : Nat × Line :=
  (Nat.ofDigitChars 10 ((m.group? 1).getD []) 0, (m.group? 2).getD [])

def markOf (line : Line) : Mark :=
  match orderedItem.exec line with
  | some m => .item (itemOf m).1 (itemOf m).2
  | none => if isBlank line then .blank else .other

def lineMark : Line × Bool → Mark
  | (line, false) => markOf line
  | (_, true) => .other

def marksOf (lines : List Line) : List Mark := (fenced false lines).map lineMark

def Mark.item? : Mark → Option (Nat × Line)
  | .item ordinal content => some (ordinal, content)
  | _ => none

/-- The items, grouped: two are in the same group if only blank lines stand between them. -/
def itemGroups (marks : List Mark) : List (List (Nat × Line)) :=
  (((marks.filter (· ≠ .blank)).splitOnP (· = .other)).filter (· ≠ [])).map
    (·.filterMap Mark.item?)

/-! ## Groups -/

theorem itemGroups_other (marks : List Mark) :
    itemGroups (.other :: marks) = itemGroups marks := by
  rw [itemGroups, List.filter_cons_of_pos (by decide), List.splitOnP_cons_eq_if_modifyHead,
    if_pos (by decide), List.filter_cons_of_neg (by decide)]
  rfl

/-- What is no item does not matter in front. -/
theorem itemGroups_append {taken : List Mark} (h : ∀ mark ∈ taken, mark.item? = none)
    (marks : List Mark) : itemGroups (taken ++ marks) = itemGroups marks := by
  induction taken with
  | nil => rfl
  | cons mark taken ih =>
      have htaken := ih fun m hm => h m (List.mem_cons_of_mem _ hm)
      cases mark with
      | item ordinal content => exact nomatch h (.item ordinal content) List.mem_cons_self
      | blank => exact htaken
      | other => exact (itemGroups_other (taken ++ marks)).trans htaken

def Mark.ofItem (i : Nat × Line) : Mark := .item i.1 i.2

/-- A group ends where something else than a blank line follows. -/
theorem itemGroups_items {items : List (Nat × Line)} (hne : items ≠ []) {taken marks : List Mark}
    (htaken : taken.filter (· ≠ .blank) = items.map Mark.ofItem)
    (hmarks : ∀ mark ∈ (marks.filter (· ≠ .blank)).head?, mark = .other) :
    itemGroups (taken ++ marks) = items :: itemGroups marks := by
  have hkept : ∀ mark ∈ items.map Mark.ofItem, decide (mark = .other) = false := by
    intro mark hmark
    obtain ⟨i, -, rfl⟩ := List.mem_map.mp hmark
    rfl
  have hread : (items.map Mark.ofItem).filterMap Mark.item? = items := by
    rw [List.filterMap_map]
    exact List.filterMap_some
  have hgroup (groups : List (List Mark)) :
      (items.map Mark.ofItem :: groups).filter (· ≠ []) =
        items.map Mark.ofItem :: groups.filter (· ≠ []) :=
    List.filter_cons_of_pos (by simpa using hne)
  rw [itemGroups, itemGroups, List.filter_append, htaken]
  cases hrest : marks.filter (· ≠ .blank) with
  | nil =>
      rw [List.append_nil, List.splitOnP_eq_singleton hkept, hgroup,
        List.map_cons, hread]
      rfl
  | cons mark rest =>
      rw [hrest] at hmarks
      obtain rfl := hmarks mark rfl
      rw [List.splitOnP_append_cons_of_forall_mem hkept _ (by decide),
        hgroup, List.map_cons, hread,
        List.splitOnP_cons_eq_if_modifyHead, if_pos (by decide),
        List.filter_cons_of_neg (by decide)]

theorem flatten_splitOnP {α : Type} (p : α → Bool) (l : List α) :
    (l.splitOnP p).flatten = l.filter fun a => !p a := by
  induction l with
  | nil => rfl
  | cons a l ih =>
      rw [List.splitOnP_cons_eq_if_modifyHead]
      split
      · rename_i ha
        rw [List.flatten_cons, List.nil_append, ih, List.filter_cons_of_neg (by simp [ha])]
      · rename_i ha
        rw [List.filter_cons_of_pos (by simp [ha]), ← ih]
        cases hl : l.splitOnP p with
        | nil => exact absurd hl (List.splitOnP_ne_nil p l)
        | cons first rest => rfl

/-- The groups have every item once and in order. -/
theorem flatten_itemGroups (marks : List Mark) :
    (itemGroups marks).flatten = marks.filterMap Mark.item? := by
  have hempty (groups : List (List Mark)) :
      (groups.filter (· ≠ [])).flatten = groups.flatten := by
    induction groups with
    | nil => rfl
    | cons group groups ih =>
        cases group with
        | nil => exact ih
        | cons mark group =>
            rw [List.filter_cons_of_pos (by simp), List.flatten_cons, ih, List.flatten_cons]
  rw [itemGroups, ← List.filterMap_flatten, hempty, flatten_splitOnP, List.filterMap_filter,
    List.filterMap_filter]
  apply List.filterMap_congr
  intro mark _
  cases mark with
  | item ordinal content => rfl
  | blank => rfl
  | other => rfl

/-! ## Items and other lines -/

/-- A line that begins with anything but a digit is no item. -/
theorem exec_orderedItem_of_head {p : Char → Bool} {line : Line} (h : line.head?.any p = true)
    (hp : ∀ c, p c = true → Text.isDigit c = false) : orderedItem.exec line = none := by
  by_contra hitem
  have htest : orderedItem.test line = true := Option.isSome_iff_ne_none.mpr hitem
  have hdigit := head_of_orderedItem htest
  cases line with
  | nil => cases h
  | cons c line =>
      have hno := hp c h
      rw [List.head?_cons, Option.any_some, hno] at hdigit
      cases hdigit

theorem isDigit_of_isSpace {c : Char} (h : Text.isSpace c = true) : Text.isDigit c = false := by
  by_contra hdigit
  rw [Bool.not_eq_false] at hdigit
  have hne {d : Char} (hd : Text.isDigit d = false) : (c == d) = false := by
    refine beq_eq_false_iff_ne.mpr ?_
    rintro rfl
    rw [hd] at hdigit
    cases hdigit
  have hrange : decide (0x2000 ≤ c.toNat) = false := by
    simp only [Text.isDigit, Bool.and_eq_true, decide_eq_true_eq] at hdigit
    rw [decide_eq_false_iff_not]
    have hnine : '9'.toNat < 0x2000 := by decide
    omega
  have hnone : Text.isSpace c = false := by
    simp only [Text.isSpace, Text.isLineTerminator, hrange, Bool.false_and, Bool.or_false]
    simp only [hne (show Text.isDigit '\n' = false by decide),
      hne (show Text.isDigit '\r' = false by decide),
      hne (show Text.isDigit '\u2028' = false by decide),
      hne (show Text.isDigit '\u2029' = false by decide),
      hne (show Text.isDigit '\t' = false by decide),
      hne (show Text.isDigit '\x0b' = false by decide),
      hne (show Text.isDigit '\x0c' = false by decide),
      hne (show Text.isDigit ' ' = false by decide),
      hne (show Text.isDigit '\u00a0' = false by decide),
      hne (show Text.isDigit '\u1680' = false by decide),
      hne (show Text.isDigit '\u202f' = false by decide),
      hne (show Text.isDigit '\u205f' = false by decide),
      hne (show Text.isDigit '\u3000' = false by decide),
      hne (show Text.isDigit '\ufeff' = false by decide), Bool.or_false]
  rw [hnone] at h
  cases h

theorem exec_orderedItem_of_isBlank {line : Line} (h : isBlank line = true) :
    orderedItem.exec line = none := by
  cases line with
  | nil => rfl
  | cons c line =>
      rw [isBlank, List.isEmpty_iff, Text.trim_eq_nil_iff] at h
      have hhead : (c :: line).head?.any Text.isSpace = true := h c List.mem_cons_self
      exact exec_orderedItem_of_head hhead fun _ => isDigit_of_isSpace

/-- An item begins a block. -/
theorem isMarkdownBlockStart_of_orderedItem {line : Line} (h : orderedItem.test line = true) :
    isMarkdownBlockStart line = true := by
  obtain ⟨_, v, rfl, digits, _, rfl, hdigits, dot, _, rfl, hdot, spaces, rest, rfl, hspaces, -⟩ :=
    test_start_iff.mp h
  have hstart : ordinalStart.test (digits ++ (dot ++ (spaces ++ rest)) ++ v) = true := by
    refine test_start_iff.mpr ⟨digits ++ (dot ++ spaces), rest ++ v, by simp, digits, _, rfl, ?_,
      dot, spaces, rfl, ?_, ?_⟩
    · exact denotes_plus_char_iff.mpr (denotes_plus_char_iff.mp hdigits)
    · exact denotes_lit_iff.mpr (denotes_lit_iff.mp hdot)
    · exact denotes_plus_char_iff.mpr (denotes_plus_char_iff.mp hspaces)
  rw [isMarkdownBlockStart, hstart, Bool.or_true]

/-- What no items are, are no items among the marks. -/
theorem item?_lineMark {line : Line} {code : Bool}
    (h : code = true ∨ orderedItem.exec line = none) : (lineMark (line, code)).item? = none := by
  cases code with
  | true => rfl
  | false =>
      have hline := h.resolve_left Bool.false_ne_true
      rw [lineMark, markOf, hline]
      dsimp only
      split
      · rfl
      · rfl

theorem markOf_item {line : Line} {m : Match Char} (h : orderedItem.exec line = some m) :
    markOf line = Mark.ofItem (itemOf m) := by
  rw [markOf, h]
  rfl

theorem markOf_blank {line : Line} (h : isBlank line = true) : markOf line = .blank := by
  rw [markOf, exec_orderedItem_of_isBlank h]
  dsimp only
  rw [if_pos h]

theorem filter_markOf_blanks {blanks : List Line} (h : ∀ l ∈ blanks, isBlank l = true) :
    (blanks.map markOf).filter (· ≠ .blank) = [] := by
  rw [List.filter_eq_nil_iff]
  intro mark hmark
  obtain ⟨l, hl, rfl⟩ := List.mem_map.mp hmark
  rw [markOf_blank (h l hl)]
  decide

theorem marksOf_append {taken : List Line} (h : ∀ l ∈ taken, isFence l = false)
    (rest : List Line) : marksOf (taken ++ rest) = taken.map markOf ++ marksOf rest := by
  rw [marksOf, fenced_append h, List.map_append, List.map_map]
  rfl

/-! ## The items of a list -/

/-- The lines of an ordered list are its items, and blank lines. -/
theorem ItemRun.marks {lines later : List Line} {ms : List (Match Char)}
    (h : ItemRun true lines ms later) :
    ∃ taken, lines = taken ++ later ∧ (∀ l ∈ taken, isFence l = false) ∧
      (taken.map markOf).filter (· ≠ .blank) = (ms.map itemOf).map Mark.ofItem := by
  induction h with
  | done => exact ⟨[], rfl, fun _ hl => (nomatch hl), rfl⟩
  | item hnext _ ih =>
      obtain ⟨blanks, line, rfl, hblanks, hm⟩ := nextItem_eq_some hnext
      obtain ⟨taken, rfl, hfence, hmarks⟩ := ih
      have htest : (itemPattern true).test line = true := Option.isSome_iff_exists.mpr ⟨_, hm⟩
      refine ⟨blanks ++ line :: taken, by rw [List.append_assoc, List.cons_append], ?_, ?_⟩
      · intro l hl
        rcases List.mem_append.mp hl with hl | hl
        · exact isFence_of_isBlank (hblanks l hl)
        rcases List.mem_cons.mp hl with rfl | hl
        · exact isFence_of_item htest
        · exact hfence l hl
      · rw [List.map_append, List.filter_append, filter_markOf_blanks hblanks, List.nil_append,
          List.map_cons, markOf_item hm, List.filter_cons_of_pos (by rfl), hmarks]
        rfl

theorem ItemRun.nextItem_eq_none {ordered : Bool} {lines later : List Line}
    {ms : List (Match Char)} (h : ItemRun ordered lines ms later) :
    nextItem ordered later = none := by
  induction h with
  | done hnone => exact hnone
  | item _ _ ih => exact ih

/-- Where an ordered list ends, the next line that is not blank is no item of it. -/
theorem exec_of_nextItem_eq_none {lines behind : List Line} {line : Line}
    (h : nextItem true lines = none) (hdrop : lines.dropWhile isBlank = line :: behind) :
    orderedItem.exec line = none := by
  cases lines with
  | nil => cases hdrop
  | cons first lines =>
      simp only [nextItem] at h
      split at h
      · cases h
      · rename_i hfirst
        split at h
        · rename_i hblank
          rw [List.dropWhile_cons_of_neg (by simpa using hblank)] at hdrop
          obtain ⟨rfl, -⟩ := List.cons.inj hdrop
          exact hfirst
        · rw [hdrop] at h
          exact Option.map_eq_none_iff.mp h

/-- Behind an ordered list, the next mark that is not blank is no item. -/
theorem marksOf_of_nextItem_eq_none {lines : List Line} (h : nextItem true lines = none) :
    ∀ mark ∈ ((marksOf lines).filter (· ≠ .blank)).head?, mark = .other := by
  have hblanks : ∀ l ∈ lines.takeWhile isBlank, isBlank l = true :=
    fun l hl => List.mem_takeWhile_imp hl
  have hsplit := marksOf_append (fun l hl => isFence_of_isBlank (hblanks l hl))
    (lines.dropWhile isBlank)
  rw [List.takeWhile_append_dropWhile] at hsplit
  rw [hsplit, List.filter_append, filter_markOf_blanks hblanks, List.nil_append]
  intro mark hmark
  cases hdrop : lines.dropWhile isBlank with
  | nil =>
      rw [hdrop] at hmark
      cases hmark
  | cons line behind =>
      have hline := exec_of_nextItem_eq_none h hdrop
      have hnotBlank : isBlank line = false := by
        have hne : lines.dropWhile isBlank ≠ [] := by
          rw [hdrop]
          exact List.cons_ne_nil _ _
        have hhead := List.head_dropWhile_not isBlank hne
        simpa [hdrop] using hhead
      have hfirst : lineMark (line, isFence line) = .other := by
        cases isFence line with
        | true => rfl
        | false =>
            rw [lineMark, markOf, hline]
            dsimp only
            rw [hnotBlank, if_neg Bool.false_ne_true]
      rw [hdrop, marksOf, fenced, Bool.false_or, List.map_cons, hfirst,
        List.filter_cons_of_pos (by decide)] at hmark
      exact (Option.some.inj hmark).symm

/-! ## Lists in the tree -/

section Lists

variable {page : Page} {mentions : Mentions}

theorem elementsOf_ol_inlineNodes (text : List Char) :
    elementsOf "ol" (inlineNodes page mentions text) = [] := by
  refine elementsOf_eq_nil fun node hnode => (all_inlineNodes text node hnode).elements_eq_nil ?_
  rintro attributes (h | ⟨h, -⟩)
  · simp at h
  · exact absurd h (by decide)

theorem elementsOf_ol_block {tag : String} (h : tag ≠ "ol") (attributes : Attributes)
    (text : List Char) :
    elementsOf "ol" [.element tag attributes (inlineNodes page mentions text)] = [] := by
  rw [elementsOf_element, if_neg h, elementsOf_ol_inlineNodes]
  rfl

theorem elementsOf_ol_itemNodes (ordered : Bool) (expected : Option WholeDouble)
    (ms : List (Match Char)) :
    elementsOf "ol" (itemNodes page mentions ordered expected ms) = [] := by
  have hcons (attributes : Attributes) (text : List Char) (nodes : List Node) :
      elementsOf "ol" (.element "li" attributes (inlineNodes page mentions text) :: nodes) =
        elementsOf "ol" nodes := by
    have hblock : elementsOf "ol" [.element "li" attributes (inlineNodes page mentions text)] =
        [] := elementsOf_ol_block (by decide) attributes text
    rw [← List.singleton_append, elementsOf_append, hblock, List.nil_append]
  induction ms generalizing expected with
  | nil => rfl
  | cons m ms ih =>
      cases ordered with
      | true => exact (hcons _ _ _).trans (ih _)
      | false => exact (hcons _ _ _).trans (ih _)

theorem elementsOf_ol_codeBlock (text lang : List Char) :
    elementsOf "ol" (appendCodeBlock page text lang) = [] := by
  unfold appendCodeBlock
  cases page.clipboard with
  | true => simp [elementsOf, Node.elements]
  | false => simp [elementsOf, Node.elements]

theorem headingTag_ne (n : Nat) : headingTag n ≠ "ol" := by
  unfold headingTag
  split
  · decide
  · decide
  · decide
  · decide

theorem isDigit_of_ruleChar {c : Char}
    (h : (Text.isSpace c || (c == '-' || c == '*' || c == '_')) = true) :
    Text.isDigit c = false := by
  simp only [Bool.or_eq_true, beq_iff_eq] at h
  rcases h with h | (rfl | rfl) | rfl
  · exact isDigit_of_isSpace h
  · decide
  · decide
  · decide

/-- What a round makes of the items: an ordered list of one group, or nothing of none. -/
theorem Round.itemGroups_eq {lines rest : List Line} {nodes : List Node}
    (h : Round page mentions lines nodes rest) :
    (elementsOf "ol" nodes = [] ∧
        itemGroups (marksOf lines) = itemGroups (marksOf rest)) ∨
      ∃ m ms, elementsOf "ol" nodes =
          [(listAttributes true none (m :: ms), itemNodes page mentions true none (m :: ms))] ∧
        itemGroups (marksOf lines) = (m :: ms).map itemOf :: itemGroups (marksOf rest) := by
  -- Lines that are no items and begin no fence.
  have hplain (taken : List Line) (hfence : ∀ l ∈ taken, isFence l = false)
      (hitem : ∀ l ∈ taken, orderedItem.exec l = none) :
      itemGroups (marksOf (taken ++ rest)) = itemGroups (marksOf rest) := by
    rw [marksOf_append hfence]
    refine itemGroups_append (fun mark hmark => ?_) _
    obtain ⟨l, hl, rfl⟩ := List.mem_map.mp hmark
    have hmark : (lineMark (l, false)).item? = none := item?_lineMark (.inr (hitem l hl))
    exact hmark
  have hsingle {line : Line} (hfence : isFence line = false)
      (hitem : orderedItem.exec line = none) :
      itemGroups (marksOf (line :: rest)) = itemGroups (marksOf rest) :=
    hplain [line] (fun l hl => by rw [List.mem_singleton.mp hl, hfence])
      fun l hl => by rw [List.mem_singleton.mp hl, hitem]
  cases h with
  | blank hblank =>
      exact .inl ⟨rfl, hsingle (isFence_of_isBlank hblank) (exec_orderedItem_of_isBlank hblank)⟩
  | @code line body close _ _ _ hfence hbody hclose =>
      refine .inl ⟨elementsOf_ol_codeBlock _ _, ?_⟩
      rw [marksOf, fenced, hfence, Bool.or_true, Bool.false_xor, fenced_code hbody hclose,
        List.map_cons, List.map_append, ← List.cons_append]
      refine itemGroups_append (fun mark hmark => ?_) _
      rcases List.mem_cons.mp hmark with rfl | hmark
      · rfl
      · obtain ⟨l, hl, rfl⟩ := List.mem_map.mp hmark
        obtain ⟨l', -, rfl⟩ := List.mem_map.mp hl
        rfl
  | @heading line _ m hfence hm =>
      have htest : headingPattern.test line = true := by rw [test, hm, Option.isSome_some]
      refine .inl ⟨elementsOf_ol_block ?_ _ _, hsingle hfence ?_⟩
      · exact headingTag_ne _
      · refine exec_orderedItem_of_head (head_of_headingPattern htest) fun c hc => ?_
        rw [eq_of_beq hc]
        decide
  | rule hfence hrule =>
      refine .inl ⟨rfl, hsingle hfence ?_⟩
      exact exec_orderedItem_of_head (head_of_rulePattern hrule) fun _ => isDigit_of_ruleChar
  | @quote taken _ _ hne hquote =>
      refine .inl ⟨elementsOf_ol_block (by decide) _ _, hplain taken (fun l hl => ?_) ?_⟩
      · exact isFence_of_head (head_of_quotePattern (hquote l hl)) (by decide)
      · intro l hl
        refine exec_orderedItem_of_head (head_of_quotePattern (hquote l hl)) fun c hc => ?_
        rw [eq_of_beq hc]
        decide
  | @list ordered line lines _ ms hitem hrun =>
      cases ordered with
      | false =>
          obtain ⟨taken, htaken, hlines⟩ := hrun.taken
          rw [htaken]
          refine .inl ⟨?_, hplain taken (fun l hl => ?_) fun l hl => ?_⟩
          · rw [if_neg Bool.false_ne_true, elementsOf_element, if_neg (by decide),
              elementsOf_ol_itemNodes]
            rfl
          · rcases hlines l hl with hblank | hline
            · exact isFence_of_isBlank hblank
            · exact isFence_of_item hline
          · rcases hlines l hl with hblank | hline
            · exact exec_orderedItem_of_isBlank hblank
            · refine exec_orderedItem_of_head (head_of_unorderedItem hline) fun c hc => ?_
              exact isDigit_of_ruleChar (by rw [hc, Bool.true_or, Bool.or_true])
      | true =>
          obtain ⟨taken, htaken, hfence, hmarks⟩ := hrun.marks
          have hnext := hrun.nextItem_eq_none
          cases hrun with
          | done hnone =>
              obtain ⟨m, hm⟩ := nextItem_of_test hitem lines
              rw [hm] at hnone
              cases hnone
          | @item _ _ _ m ms _ _ =>
              refine .inr ⟨m, ms, ?_, ?_⟩
              · rw [if_pos rfl, elementsOf_element, if_pos rfl, elementsOf_ol_itemNodes,
                  List.append_nil]
              · rw [htaken, marksOf_append hfence]
                exact itemGroups_items (List.cons_ne_nil _ _) hmarks
                  (marksOf_of_nextItem_eq_none hnext)
  | @paragraph taken _ _ hlines hstuck =>
      refine .inl ⟨elementsOf_ol_block (by decide) _ _, hplain taken (fun l hl => ?_) ?_⟩
      · exact isFence_of_not_isMarkdownBlockStart (hlines l hl).2
      · intro l hl
        by_contra hitem
        have hstart := isMarkdownBlockStart_of_orderedItem (Option.isSome_iff_ne_none.mpr hitem)
        rw [(hlines l hl).2] at hstart
        cases hstart

/-! ## Numbers -/

/-- The largest number that an item may have for the next one to have room. -/
def maxOrdinal : Nat := 2 ^ 31 - 2

theorem ordinalOf_eq {m : Match Char} (h : (itemOf m).1 ≤ maxOrdinal) :
    ordinalOf m = some (itemOf m).1 := by
  have hlt : (itemOf m).1 < 2 ^ 53 := by
    unfold maxOrdinal at h
    omega
  exact toDouble_of_lt hlt

theorem succ_of_le {n : Nat} (h : n ≤ maxOrdinal) : WholeDouble.succ (some n) = some (n + 1) := by
  have hlt : n + 1 < 2 ^ 53 := by
    unfold maxOrdinal at h
    omega
  rw [WholeDouble.succ, Option.bind_some, toDouble_of_lt hlt]

theorem toInt32_of_le {n : Nat} (h : n ≤ maxOrdinal) : toInt32 (some n) = n := by
  unfold maxOrdinal at h
  exact toInt32_of_lt (by omega)

/-- The items of a list that counts on show the numbers that were written. -/
theorem numbered_itemNodes {ms : List (Match Char)} (h : ∀ m ∈ ms, (itemOf m).1 ≤ maxOrdinal)
    (next : Nat) :
    numbered next (itemNodes page mentions true (some (some next)) ms) =
      ms.map fun m => (((itemOf m).1 : Int), inlineNodes page mentions (itemOf m).2) := by
  induction ms generalizing next with
  | nil => rfl
  | cons m ms ih =>
      have hm := h m List.mem_cons_self
      have hlater := ih (fun m' hm' => h m' (List.mem_cons_of_mem _ hm')) ((itemOf m).1 + 1)
      have hnumber : (number? "value" (itemValue (some (some next)) (some (itemOf m).1))).getD
          (next : Int) = (itemOf m).1 := by
        rw [itemValue]
        by_cases heq : some (itemOf m).1 = some next
        · rw [if_pos heq, Option.some.inj heq]
          rfl
        · rw [if_neg heq, toInt32_of_le hm]
          rfl
      rw [itemNodes, if_pos rfl, ordinalOf_eq hm, succ_of_le hm, numbered, if_pos rfl, hnumber]
      dsimp only
      rw [List.map_cons, ← hlater, Nat.cast_add, Nat.cast_one]
      rfl

/-- The items of a list show the numbers that were written. -/
theorem orderedItems_list {m : Match Char} {ms : List (Match Char)}
    (h : ∀ m' ∈ m :: ms, (itemOf m').1 ≤ maxOrdinal) :
    orderedItems (listAttributes true none (m :: ms),
        itemNodes page mentions true none (m :: ms)) =
      (m :: ms).map fun m => (((itemOf m).1 : Int), inlineNodes page mentions (itemOf m).2) := by
  have hm := h m List.mem_cons_self
  have hrest : ∀ m' ∈ ms, (itemOf m').1 ≤ maxOrdinal :=
    fun m' hm' => h m' (List.mem_cons_of_mem _ hm')
  have hstart : listAttributes true none (m :: ms) = [("start", .number (itemOf m).1)] := by
    rw [listAttributes, if_pos rfl, List.head?_cons, Option.map_some, Option.getD_some,
      ordinalOf_eq hm, listStart, toInt32_of_le hm]
  rw [orderedItems, hstart, itemNodes, if_pos rfl, ordinalOf_eq hm, succ_of_le hm]
  dsimp only
  rw [numbered, if_pos rfl, List.map_cons, ← numbered_itemNodes hrest ((itemOf m).1 + 1),
    Nat.cast_add, Nat.cast_one]
  rfl

/-- The lists of rendered lines are the groups of their items. -/
theorem orderedItems_renderLines {rounds : Nat} {lines : List Line} {nodes : List Node}
    (h : renderLines page mentions rounds lines = some nodes)
    (hbound : ∀ group ∈ itemGroups (marksOf lines), ∀ i ∈ group, i.1 ≤ maxOrdinal) :
    (elementsOf "ol" nodes).map orderedItems = (itemGroups (marksOf lines)).map
      (List.map fun i => ((i.1 : Int), inlineNodes page mentions i.2)) := by
  induction rounds generalizing lines nodes with
  | zero =>
      cases lines with
      | nil =>
          obtain rfl := Option.some.inj h
          rfl
      | cons line lines => cases h
  | succ rounds ih =>
      cases lines with
      | nil =>
          obtain rfl := Option.some.inj h
          rfl
      | cons line lines =>
          obtain ⟨later, hlater, rfl⟩ := Option.map_eq_some_iff.mp h
          rw [elementsOf_append, List.map_append]
          rcases (round_nextBlock page mentions line lines).itemGroups_eq with
            ⟨hnone, hgroups⟩ | ⟨m, ms, hlist, hgroups⟩
          · rw [hgroups] at hbound ⊢
            rw [hnone, ih hlater hbound]
            rfl
          · rw [hgroups] at hbound ⊢
            have hwritten : ((m :: ms).map itemOf).map
                (fun i => ((i.1 : Int), inlineNodes page mentions i.2)) =
                (m :: ms).map fun m =>
                  (((itemOf m).1 : Int), inlineNodes page mentions (itemOf m).2) := List.map_map
            have hshown : ∀ m' ∈ m :: ms, (itemOf m').1 ≤ maxOrdinal :=
              fun m' hm' => hbound _ List.mem_cons_self _ (List.mem_map_of_mem hm')
            rw [hlist, List.map_singleton, orderedItems_list hshown, ← hwritten,
              ih hlater fun group hgroup => hbound group (List.mem_cons_of_mem _ hgroup)]
            rfl

end Lists

theorem mem_of_mem_itemGroups {marks : List Mark} {group : List (Nat × Line)}
    (hgroup : group ∈ itemGroups marks) {i : Nat × Line} (hi : i ∈ group) :
    Mark.ofItem i ∈ marks := by
  have hmem : i ∈ marks.filterMap Mark.item? := by
    rw [← flatten_itemGroups]
    exact List.mem_flatten_of_mem hgroup hi
  obtain ⟨mark, hmark, hitem⟩ := List.mem_filterMap.mp hmem
  cases mark with
  | item ordinal content =>
      obtain rfl := Option.some.inj hitem
      exact hmark
  | blank => cases hitem
  | other => cases hitem

/-- Every ordered item outside of fenced code is one item of a rendered list, in order and with
the number that was written, and two that follow each other are in one list exactly when only
blank lines stand between them. -/
theorem renderSafeMarkdown_keepsNumbers (page : Page) (mentions : Mentions) (markdown : List Char)
    (nodes : List Node) (h : Renders page markdown ⟨mentions, false⟩ nodes)
    (hbound : ∀ ordinal content, .item ordinal content ∈ marksOf (linesOf markdown) →
      ordinal ≤ 2 ^ 31 - 2) :
    (elementsOf "ol" nodes).map orderedItems =
        (itemGroups (marksOf (linesOf markdown))).map
          (List.map fun i => ((i.1 : Int), inlineNodes page mentions i.2)) ∧
      (elementsOf "ol" nodes).flatMap orderedItems =
        ((marksOf (linesOf markdown)).filterMap Mark.item?).map
          fun i => ((i.1 : Int), inlineNodes page mentions i.2) := by
  obtain ⟨rounds, h⟩ := h
  have hgroups := orderedItems_renderLines h fun group hgroup i hi =>
    hbound i.1 i.2 (mem_of_mem_itemGroups hgroup hi)
  refine ⟨hgroups, ?_⟩
  rw [List.flatMap_def, hgroups, ← List.map_flatten, flatten_itemGroups]

theorem renderSafeMarkdown_keepsNumbers_gap :
    ∃ nodes, Renders roomPage "1. a\n\n3. b\nc".toList ⟨none, false⟩ nodes ∧
      (elementsOf "ol" nodes).map orderedItems =
        [[(1, inlineNodes roomPage none ['a']), (3, inlineNodes roomPage none ['b'])]] := by
  have hsome : (renderSafeMarkdown 2 roomPage "1. a\n\n3. b\nc".toList
      ⟨none, false⟩).isSome = true := by decide +kernel
  have hmarks : marksOf (linesOf "1. a\n\n3. b\nc".toList) =
      [.item 1 ['a'], .blank, .item 3 ['b'], .other] := by decide +kernel
  obtain ⟨nodes, hnodes⟩ := Option.isSome_iff_exists.mp hsome
  have hkeeps := (renderSafeMarkdown_keepsNumbers roomPage none _ nodes ⟨2, hnodes⟩
    fun ordinal content hitem => by
      rw [hmarks] at hitem
      simp only [List.mem_cons, List.not_mem_nil, or_false, Mark.item.injEq, reduceCtorEq,
        false_or] at hitem
      omega).1
  rw [hmarks] at hkeeps
  exact ⟨nodes, ⟨2, hnodes⟩, hkeeps⟩

end AgentGather.Browser
