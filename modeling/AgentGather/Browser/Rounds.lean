import AgentGather.Browser.Links
import AgentGather.Browser.Markdown

/-!
# The rounds of the loop

What a round of the renderer's loop takes of the lines, and when the loop ends: a line that
begins a block, but that no branch takes, stops it for good.
-/

namespace AgentGather.Browser

open AgentGather.Library AgentGather.Library.Dom AgentGather.Library.Regex
open AgentGather.Library.Number

/-! ## How lines begin -/

theorem head_of_orderedItem {line : Line} (h : orderedItem.test line = true) :
    line.head?.any Text.isDigit = true :=
  (((starts_plus Text.isDigit).group 1).seq _).head_of_test h

theorem head_of_unorderedItem {line : Line} (h : unorderedItem.test line = true) :
    line.head?.any (fun c => c == '-' || c == '*') = true :=
  ((starts_char _).seq _).head_of_test h

theorem head_of_quotePattern {line : Line} (h : quotePattern.test line = true) :
    line.head?.any (· == '>') = true :=
  (((starts_char _).seq _).seq _).head_of_test h

theorem starts_headingMarks : Starts (· == '#') (.between (.lit ['#']) 1 2) := by
  have hmark : Starts (· == '#') (.lit ['#']) := (starts_char _).seq _
  exact (hmark.seq _).alt (hmark.seq _)

theorem head_of_headingPattern {line : Line} (h : headingPattern.test line = true) :
    line.head?.any (· == '#') = true :=
  ((starts_headingMarks.group 1).seq _).head_of_test h

theorem head_of_rulePattern {line : Line} (h : rulePattern.test line = true) :
    line.head?.any (fun c => Text.isSpace c || (c == '-' || c == '*' || c == '_')) = true := by
  have hmark : Starts (fun c => c == '-' || c == '*' || c == '_')
      (.group 1 (.seq ruleChar (.star true spaceChar))) := ((starts_char _).seq _).group 1
  exact ((((hmark.seq _).seq _).seq _).star_seq true).head_of_test h

/-- A line that begins with one character does not begin with another. -/
theorem isFence_of_head {p : Char → Bool} {line : Line} (h : line.head?.any p = true)
    (hp : p '\x60' = false) : isFence line = false := by
  cases line with
  | nil => cases h
  | cons c line =>
      have hne : '\x60' ≠ c := by
        rintro rfl
        rw [List.head?_cons, Option.any_some, hp] at h
        cases h
      rw [isFence, List.replicate, List.isPrefixOf, beq_false_of_ne hne, Bool.false_and]

theorem isFence_of_item {ordered : Bool} {line : Line}
    (h : (itemPattern ordered).test line = true) : isFence line = false := by
  cases ordered with
  | true => exact isFence_of_head (head_of_orderedItem h) (by decide)
  | false => exact isFence_of_head (head_of_unorderedItem h) (by decide)

/-! ## Fenced code -/

/-- The lines, and whether each belongs to fenced code; `inCode` tells whether a fence is
open. -/
def fenced (inCode : Bool) : List Line → List (Line × Bool)
  | [] => []
  | line :: lines => (line, inCode || isFence line) :: fenced (inCode ^^ isFence line) lines

/-- Lines that do not begin with a fence. -/
theorem fenced_append {taken : List Line} (h : ∀ l ∈ taken, isFence l = false) (inCode : Bool)
    (rest : List Line) :
    fenced inCode (taken ++ rest) = taken.map (·, inCode) ++ fenced inCode rest := by
  induction taken with
  | nil => rfl
  | cons line taken ih =>
      rw [List.cons_append, fenced, h line List.mem_cons_self, Bool.or_false, Bool.xor_false,
        ih fun l hl => h l (List.mem_cons_of_mem _ hl)]
      rfl

theorem isFence_of_isBlank {line : Line} (h : isBlank line = true) : isFence line = false := by
  cases line with
  | nil => rfl
  | cons c line =>
      rw [isBlank, List.isEmpty_iff, Text.trim_eq_nil_iff] at h
      have hhead : (c :: line).head?.any Text.isSpace = true := h c List.mem_cons_self
      exact isFence_of_head hhead (by decide)

theorem isFence_of_not_isMarkdownBlockStart {line : Line}
    (h : isMarkdownBlockStart line = false) : isFence line = false := by
  cases hfence : isFence line with
  | false => rfl
  | true =>
      rw [isMarkdownBlockStart, hfence] at h
      cases h

/-- The code behind an open fence, and the fence that closes it. -/
theorem fenced_code {body close rest : List Line} (hbody : ∀ l ∈ body, isFence l = false)
    (hclose : close = [] ∧ rest = [] ∨ ∃ l, close = [l] ∧ isFence l = true) :
    fenced true (body ++ (close ++ rest)) =
      (body ++ close).map (·, true) ++ fenced false rest := by
  rw [fenced_append hbody, List.map_append, List.append_assoc]
  rcases hclose with ⟨rfl, rfl⟩ | ⟨l, rfl, hl⟩
  · rfl
  · rw [List.singleton_append, fenced, hl]
    rfl

/-! ## Lists -/

/-- The items of a list, one behind the other, and the lines behind it. -/
inductive ItemRun (ordered : Bool) : List Line → List (Match Char) → List Line → Prop
  | done {lines : List Line} : nextItem ordered lines = none → ItemRun ordered lines [] lines
  | item {lines rest later : List Line} {m : Match Char} {ms : List (Match Char)} :
      nextItem ordered lines = some (m, rest) → ItemRun ordered rest ms later →
      ItemRun ordered lines (m :: ms) later

/-- The nodes of the items. -/
def itemNodes (page : Page) (mentions : Mentions) (ordered : Bool) :
    Option WholeDouble → List (Match Char) → List Node
  | _, [] => []
  | expected, m :: ms =>
      if ordered then
        .element "li" (itemValue expected (ordinalOf m))
          (inlineNodes page mentions ((m.group? 2).getD [])) ::
            itemNodes page mentions ordered (some (ordinalOf m).succ) ms
      else
        .element "li" [] (inlineNodes page mentions ((m.group? 1).getD [])) ::
          itemNodes page mentions ordered expected ms

/-- The attributes that the items give their list. -/
def listAttributes (ordered : Bool) (expected : Option WholeDouble) (ms : List (Match Char)) :
    Attributes :=
  if ordered then (ms.head?.map fun m => listStart expected (ordinalOf m)).getD [] else []

theorem listItems_spec (page : Page) (mentions : Mentions) (ordered : Bool)
    (expected : Option WholeDouble) (lines : List Line) :
    ∃ ms, ItemRun ordered lines ms (listItems page mentions ordered expected lines).rest ∧
      (listItems page mentions ordered expected lines).attributes =
        listAttributes ordered expected ms ∧
      (listItems page mentions ordered expected lines).items =
        itemNodes page mentions ordered expected ms := by
  induction hlength : lines.length using Nat.strong_induction_on generalizing expected lines with
  | _ length ih =>
      subst hlength
      rw [listItems]
      split
      · rename_i hnext
        refine ⟨[], .done hnext, ?_, rfl⟩
        cases ordered with
        | true => rfl
        | false => rfl
      · rename_i m rest hnext
        cases ordered with
        | true =>
            obtain ⟨ms, hrun, hattributes, hitems⟩ := ih rest.length (nextItem_length hnext)
              (some (ordinalOf m).succ) rest rfl
            refine ⟨m :: ms, .item hnext hrun, ?_, ?_⟩
            · have hnone : listAttributes true (some (ordinalOf m).succ) ms = [] := by
                cases ms with
                | nil => rfl
                | cons m ms => rfl
              simp only [if_true, hattributes, hnone, List.append_nil]
              rfl
            · simp only [if_true, hitems]
              rfl
        | false =>
            obtain ⟨ms, hrun, hattributes, hitems⟩ := ih rest.length (nextItem_length hnext)
              expected rest rfl
            refine ⟨m :: ms, .item hnext hrun, ?_, ?_⟩
            · simp only [Bool.false_eq_true, if_false, hattributes]
              rfl
            · simp only [Bool.false_eq_true, if_false, hitems]
              rfl

/-- Where an item is found: behind blank lines, which an ordered list skips. -/
theorem nextItem_eq_some {ordered : Bool} {lines rest : List Line} {m : Match Char}
    (h : nextItem ordered lines = some (m, rest)) :
    ∃ blanks line, lines = blanks ++ line :: rest ∧ (∀ l ∈ blanks, isBlank l = true) ∧
      (itemPattern ordered).exec line = some m := by
  cases lines with
  | nil => cases h
  | cons line lines =>
      simp only [nextItem] at h
      split at h
      · rename_i m' hm
        cases h
        exact ⟨[], line, rfl, fun _ hl => (nomatch hl), hm⟩
      · split at h
        · cases h
        · split at h
          · cases h
          · rename_i next behind hdrop
            obtain ⟨m', hm, heq⟩ := Option.map_eq_some_iff.mp h
            cases heq
            refine ⟨(line :: lines).takeWhile isBlank, next, ?_,
              fun l hl => List.mem_takeWhile_imp hl, hm⟩
            rw [← hdrop, List.takeWhile_append_dropWhile]

theorem nextItem_of_test {ordered : Bool} {line : Line}
    (h : (itemPattern ordered).test line = true) (lines : List Line) :
    ∃ m, nextItem ordered (line :: lines) = some (m, lines) := by
  obtain ⟨m, hm⟩ := Option.isSome_iff_exists.mp h
  exact ⟨m, by simp only [nextItem, hm]⟩

/-- The lines of a list are its items and blank lines. -/
theorem ItemRun.taken {ordered : Bool} {lines later : List Line} {ms : List (Match Char)}
    (h : ItemRun ordered lines ms later) :
    ∃ taken, lines = taken ++ later ∧
      ∀ l ∈ taken, isBlank l = true ∨ (itemPattern ordered).test l = true := by
  induction h with
  | done => exact ⟨[], rfl, fun _ hl => nomatch hl⟩
  | item hnext _ ih =>
      obtain ⟨blanks, line, rfl, hblanks, hm⟩ := nextItem_eq_some hnext
      obtain ⟨taken, rfl, htaken⟩ := ih
      refine ⟨blanks ++ line :: taken, by rw [List.append_assoc, List.cons_append], ?_⟩
      intro l hl
      rcases List.mem_append.mp hl with hl | hl
      · exact .inl (hblanks l hl)
      rcases List.mem_cons.mp hl with rfl | hl
      · exact .inr (by rw [test, hm, Option.isSome_some])
      · exact htaken l hl

theorem ItemRun.length_le {ordered : Bool} {lines later : List Line} {ms : List (Match Char)}
    (h : ItemRun ordered lines ms later) : later.length ≤ lines.length := by
  induction h with
  | done => exact le_rfl
  | item hnext _ ih => exact le_trans ih (Nat.le_of_lt (nextItem_length hnext))

/-- A list that begins with an item takes it. -/
theorem ItemRun.length_lt {ordered : Bool} {line : Line} {lines later : List Line}
    {ms : List (Match Char)} (h : ItemRun ordered (line :: lines) ms later)
    (hitem : (itemPattern ordered).test line = true) :
    later.length < (line :: lines).length := by
  cases h with
  | done hnone =>
      obtain ⟨m, hm⟩ := nextItem_of_test hitem lines
      rw [hm] at hnone
      cases hnone
  | item hnext hrun => exact lt_of_le_of_lt hrun.length_le (nextItem_length hnext)

/-! ## A round -/

/-- A branch of the loop other than the paragraph takes the line. -/
def isTaken (line : Line) : Bool :=
  isBlank line || isFence line || headingPattern.test line || rulePattern.test line ||
    quotePattern.test line || unorderedItem.test line || orderedItem.test line

/-- What a round of the loop does: the lines before it, the nodes it adds, and the lines
behind. -/
inductive Round (page : Page) (mentions : Mentions) : List Line → List Node → List Line → Prop
  | blank {line : Line} {rest : List Line} : isBlank line = true →
      Round page mentions (line :: rest) [] rest
  | code {line : Line} {body close rest : List Line} {text lang : List Char} :
      isFence line = true → (∀ l ∈ body, isFence l = false) →
      (close = [] ∧ rest = [] ∨ ∃ l, close = [l] ∧ isFence l = true) →
      Round page mentions (line :: (body ++ (close ++ rest)))
        (appendCodeBlock page text lang) rest
  | heading {line : Line} {rest : List Line} {m : Match Char} : isFence line = false →
      headingPattern.exec line = some m →
      Round page mentions (line :: rest) [.element (headingTag ((m.group? 1).getD []).length) []
        (inlineNodes page mentions ((m.group? 2).getD []))] rest
  | rule {line : Line} {rest : List Line} : isFence line = false → rulePattern.test line = true →
      Round page mentions (line :: rest) [.element "hr" [] []] rest
  | quote {taken rest : List Line} {text : List Char} : taken ≠ [] →
      (∀ l ∈ taken, quotePattern.test l = true) →
      Round page mentions (taken ++ rest)
        [.element "blockquote" [] (inlineNodes page mentions text)] rest
  | list {ordered : Bool} {line : Line} {lines rest : List Line} {ms : List (Match Char)} :
      (itemPattern ordered).test line = true → ItemRun ordered (line :: lines) ms rest →
      Round page mentions (line :: lines) [.element (if ordered then "ol" else "ul")
        (listAttributes ordered none ms) (itemNodes page mentions ordered none ms)] rest
  | paragraph {taken rest : List Line} {text : List Char} :
      (∀ l ∈ taken, isBlank l = false ∧ isMarkdownBlockStart l = false) →
      (taken = [] → ∃ line lines, rest = line :: lines ∧ isMarkdownBlockStart line = true ∧
        isTaken line = false) →
      Round page mentions (taken ++ rest) [.element "p" [] (inlineNodes page mentions text)] rest

theorem round_nextBlock (page : Page) (mentions : Mentions) (line : Line) (lines : List Line) :
    Round page mentions (line :: lines) (nextBlock page mentions line lines).1
      (nextBlock page mentions line lines).2 := by
  by_cases hblank : isBlank line = true
  · rw [nextBlock, if_pos hblank]
    exact .blank hblank
  by_cases hfence : isFence line = true
  · rw [nextBlock, if_neg hblank, if_pos hfence]
    have hbody : ∀ l ∈ lines.takeWhile fun l => !isFence l, isFence l = false := by
      intro l hl
      simpa using List.mem_takeWhile_imp hl
    have hlines : (lines.takeWhile fun l => !isFence l) ++ (lines.dropWhile fun l => !isFence l) =
        lines := List.takeWhile_append_dropWhile
    cases hdrop : lines.dropWhile fun l => !isFence l with
    | nil =>
        have hround (text lang : List Char) : Round page mentions
            (line :: ((lines.takeWhile fun l => !isFence l) ++ ([] ++ [])))
            (appendCodeBlock page text lang) [] := .code hfence hbody (.inl ⟨rfl, rfl⟩)
        rw [List.nil_append, ← hdrop, hlines, hdrop] at hround
        exact hround _ _
    | cons close rest =>
        have hclose : isFence close = true := by
          have hne : (lines.dropWhile fun l => !isFence l) ≠ [] := by
            rw [hdrop]
            exact List.cons_ne_nil _ _
          have hhead := List.head_dropWhile_not (fun l => !isFence l) hne
          simpa [hdrop] using hhead
        have hround (text lang : List Char) : Round page mentions
            (line :: ((lines.takeWhile fun l => !isFence l) ++ ([close] ++ rest)))
            (appendCodeBlock page text lang) rest :=
          .code hfence hbody (.inr ⟨close, rfl, hclose⟩)
        rw [List.singleton_append, ← hdrop, hlines] at hround
        exact hround _ _
  rw [nextBlock, if_neg hblank, if_neg hfence]
  rw [Bool.not_eq_true] at hblank hfence
  cases hheading : headingPattern.exec line with
  | some m => exact .heading hfence hheading
  | none =>
      dsimp only
      by_cases hrule : rulePattern.test line = true
      · rw [if_pos hrule]
        exact .rule hfence hrule
      rw [if_neg hrule]
      by_cases hquote : quotePattern.test line = true
      · rw [if_pos hquote]
        have hround (text : List Char) : Round page mentions
            ((line :: lines).takeWhile quotePattern.test ++
              (line :: lines).dropWhile quotePattern.test)
            [.element "blockquote" [] (inlineNodes page mentions text)]
            ((line :: lines).dropWhile quotePattern.test) := by
          refine .quote ?_ fun l hl => List.mem_takeWhile_imp hl
          rw [List.takeWhile_cons_of_pos hquote]
          exact List.cons_ne_nil _ _
        rw [List.takeWhile_append_dropWhile] at hround
        exact hround _
      rw [if_neg hquote]
      by_cases hitem : (unorderedItem.test line || orderedItem.test line) = true
      · rw [if_pos hitem]
        dsimp only
        obtain ⟨ms, hrun, hattributes, hitems⟩ :=
          listItems_spec page mentions (orderedItem.test line) none (line :: lines)
        rw [hattributes, hitems]
        refine .list ?_ hrun
        cases hordered : orderedItem.test line with
        | true => exact hordered
        | false =>
            rw [hordered, Bool.or_false] at hitem
            exact hitem
      · rw [if_neg hitem]
        dsimp only
        have hround (text : List Char) : Round page mentions
            (((line :: lines).takeWhile fun l => !isBlank l && !isMarkdownBlockStart l) ++
              (line :: lines).dropWhile fun l => !isBlank l && !isMarkdownBlockStart l)
            [.element "p" [] (inlineNodes page mentions text)]
            ((line :: lines).dropWhile fun l => !isBlank l && !isMarkdownBlockStart l) := by
          refine .paragraph (fun l hl => by simpa using List.mem_takeWhile_imp hl) fun hnone => ?_
          -- Nothing is taken where the line begins a block that no branch has taken.
          have hstart : isMarkdownBlockStart line = true := by
            by_contra hstart
            rw [List.takeWhile_cons_of_pos (by simp [hblank, hstart])] at hnone
            cases hnone
          refine ⟨line, lines, ?_, hstart, ?_⟩
          · rw [List.dropWhile_cons_of_neg (by simp [hstart])]
          · rw [Bool.not_eq_true] at hrule hquote hitem
            rw [isTaken, Bool.or_assoc, hitem, hblank, hfence, hrule, hquote, test, hheading]
            rfl
        rw [List.takeWhile_append_dropWhile] at hround
        exact hround _

/-! ## When the loop ends -/

/-- Outside of fenced code, some branch takes every line that begins a block. -/
def BlocksTaken (lines : List Line) : Prop :=
  ∀ line, (line, false) ∈ fenced false lines → isMarkdownBlockStart line = true →
    isTaken line = true

/-- The lines that a round starts from. -/
inductive Reached (page : Page) (mentions : Mentions) (lines : List Line) : List Line → Prop
  | start : Reached page mentions lines lines
  | round {line : Line} {rest : List Line} : Reached page mentions lines (line :: rest) →
      Reached page mentions lines (nextBlock page mentions line rest).2

/-- Every round takes a line. -/
def Advances (page : Page) (mentions : Mentions) (lines : List Line) : Prop :=
  ∀ line rest, Reached page mentions lines (line :: rest) →
    (nextBlock page mentions line rest).2.length < (line :: rest).length

section Ending

variable {page : Page} {mentions : Mentions}

theorem isTaken_of_isFence {line : Line} (h : isFence line = true) : isTaken line = true := by
  simp [isTaken, h]

/-- The lines that a round takes, and that it takes one unless it is stuck. -/
theorem Round.taken {lines rest : List Line} {nodes : List Node}
    (h : Round page mentions lines nodes rest) :
    (∃ taken, fenced false lines = taken ++ fenced false rest ∧
      ∀ line, (line, false) ∈ taken → isMarkdownBlockStart line = true → isTaken line = true) ∧
    (rest.length < lines.length ∨ lines = rest ∧ ¬ BlocksTaken lines) := by
  -- Lines outside of code, which begin no fence.
  have hplain (taken : List Line) (hfence : ∀ l ∈ taken, isFence l = false)
      (htaken : ∀ l ∈ taken, isMarkdownBlockStart l = true → isTaken l = true) :
      ∃ lines, fenced false (taken ++ rest) = lines ++ fenced false rest ∧
        ∀ line, (line, false) ∈ lines → isMarkdownBlockStart line = true →
          isTaken line = true := by
    refine ⟨_, fenced_append hfence false rest, fun line hline => ?_⟩
    obtain ⟨l, hl, heq⟩ := List.mem_map.mp hline
    cases heq
    exact htaken line hl
  have hsingle {line : Line} (hfence : isFence line = false) (htaken : isTaken line = true) :
      ∃ lines, fenced false (line :: rest) = lines ++ fenced false rest ∧
        ∀ line, (line, false) ∈ lines → isMarkdownBlockStart line = true →
          isTaken line = true :=
    hplain [line] (fun l hl => by rw [List.mem_singleton.mp hl, hfence])
      fun l hl _ => by rw [List.mem_singleton.mp hl, htaken]
  cases h with
  | blank hblank =>
      exact ⟨hsingle (isFence_of_isBlank hblank) (by simp [isTaken, hblank]),
        .inl (Nat.lt_succ_self _)⟩
  | @code line body close _ _ _ hfence hbody hclose =>
      refine ⟨⟨(line :: (body ++ close)).map (·, true), ?_, fun l hl => ?_⟩, .inl ?_⟩
      · rw [fenced, hfence, Bool.or_true, Bool.false_xor, fenced_code hbody hclose]
        rfl
      · obtain ⟨l', -, heq⟩ := List.mem_map.mp hl
        cases heq
      · simp only [List.length_cons, List.length_append]
        omega
  | @heading line _ m hfence hm =>
      refine ⟨hsingle hfence ?_, .inl (Nat.lt_succ_self _)⟩
      have htest : headingPattern.test line = true := by rw [test, hm, Option.isSome_some]
      simp [isTaken, htest]
  | rule hfence hrule =>
      exact ⟨hsingle hfence (by simp [isTaken, hrule]), .inl (Nat.lt_succ_self _)⟩
  | @quote taken _ _ hne hquote =>
      refine ⟨hplain taken (fun l hl => ?_) fun l hl _ => ?_, .inl ?_⟩
      · exact isFence_of_head (head_of_quotePattern (hquote l hl)) (by decide)
      · simp [isTaken, hquote l hl]
      · have hpos := List.length_pos_iff.mpr hne
        rw [List.length_append]
        omega
  | @list ordered line lines _ ms hitem hrun =>
      have hshorter := hrun.length_lt hitem
      obtain ⟨taken, htaken, hlines⟩ := hrun.taken
      rw [htaken] at hshorter ⊢
      refine ⟨hplain taken (fun l hl => ?_) fun l hl _ => ?_, .inl hshorter⟩
      · rcases hlines l hl with hblank | hline
        · exact isFence_of_isBlank hblank
        · exact isFence_of_item hline
      · rcases hlines l hl with hblank | hline
        · simp [isTaken, hblank]
        · cases ordered with
          | true => simp [isTaken, show orderedItem.test l = true from hline]
          | false => simp [isTaken, show unorderedItem.test l = true from hline]
  | @paragraph taken _ _ hplainLines hstuck =>
      refine ⟨hplain taken (fun l hl => isFence_of_not_isMarkdownBlockStart (hplainLines l hl).2)
        fun l hl hstart => ?_, ?_⟩
      · rw [(hplainLines l hl).2] at hstart
        cases hstart
      · cases taken with
        | nil =>
            obtain ⟨line, lines, rfl, hstart, hnone⟩ := hstuck rfl
            refine .inr ⟨rfl, fun hall => ?_⟩
            have hfence : isFence line = false := by
              by_contra hfence
              rw [isTaken_of_isFence (by simpa using hfence)] at hnone
              cases hnone
            have htaken := hall line (by simp [fenced, hfence]) hstart
            rw [hnone] at htaken
            cases htaken
        | cons line taken =>
            refine .inl ?_
            simp only [List.length_cons, List.length_append]
            omega

/-- What is left is taken if all is, and the other way round if the loop goes on. -/
theorem Round.blocksTaken_iff {lines rest : List Line} {nodes : List Node}
    (h : Round page mentions lines nodes rest) :
    BlocksTaken lines ↔ rest.length < lines.length ∧ BlocksTaken rest := by
  obtain ⟨⟨taken, hlines, htaken⟩, hprogress⟩ := h.taken
  constructor
  · intro hall
    refine ⟨hprogress.resolve_right fun hstuck => hstuck.2 hall, fun line hline => hall line ?_⟩
    rw [hlines]
    exact List.mem_append_right _ hline
  · rintro ⟨-, hrest⟩ line hline hstart
    rw [hlines] at hline
    rcases List.mem_append.mp hline with hline | hline
    · exact htaken line hline hstart
    · exact hrest line hline hstart

theorem blocksTaken_nil : BlocksTaken [] := fun _ h => nomatch h

/-- If the loop ends, all lines were taken. -/
theorem blocksTaken_of_renderLines {rounds : Nat} {lines : List Line} {nodes : List Node}
    (h : renderLines page mentions rounds lines = some nodes) : BlocksTaken lines := by
  induction rounds generalizing lines nodes with
  | zero =>
      cases lines with
      | nil => exact blocksTaken_nil
      | cons line lines => cases h
  | succ rounds ih =>
      cases lines with
      | nil => exact blocksTaken_nil
      | cons line lines =>
          obtain ⟨later, hlater, -⟩ := Option.map_eq_some_iff.mp h
          have hrest := ih hlater
          have hround := round_nextBlock page mentions line lines
          refine hround.blocksTaken_iff.mpr ⟨?_, hrest⟩
          -- A round that is stuck leaves its lines.
          refine hround.taken.2.resolve_right fun hstuck => ?_
          exact hstuck.2 (hstuck.1 ▸ hrest)

/-- If every round takes a line, the loop ends. -/
theorem renderLines_of_advances {lines : List Line} (h : Advances page mentions lines)
    {rounds : Nat} {rest : List Line} (hrest : Reached page mentions lines rest)
    (hrounds : rest.length ≤ rounds) :
    ∃ nodes, renderLines page mentions rounds rest = some nodes := by
  induction rounds generalizing rest with
  | zero =>
      obtain rfl := List.length_eq_zero_iff.mp (Nat.le_zero.mp hrounds)
      exact ⟨[], rfl⟩
  | succ rounds ih =>
      cases rest with
      | nil => exact ⟨[], rfl⟩
      | cons line rest =>
          have hlt := h line rest hrest
          obtain ⟨later, hlater⟩ := ih (.round hrest) (by omega)
          exact ⟨(nextBlock page mentions line rest).1 ++ later, by
            rw [renderLines]
            exact Option.map_eq_some_iff.mpr ⟨later, hlater, rfl⟩⟩

theorem advances_of_blocksTaken {lines : List Line} (h : BlocksTaken lines) :
    Advances page mentions lines := by
  have hreached {rest : List Line} (hrest : Reached page mentions lines rest) :
      BlocksTaken rest := by
    induction hrest with
    | start => exact h
    | round _ ih => exact ((round_nextBlock page mentions _ _).blocksTaken_iff.mp ih).2
  exact fun line rest hrest =>
    ((round_nextBlock page mentions line rest).blocksTaken_iff.mp (hreached hrest)).1

/-- The renderer returns, and every round of its loop takes a line, exactly when some branch takes
every line that begins a block. -/
theorem renderSafeMarkdown_ends_iff (page : Page) (markdown : List Char) (options : Options) :
    ((∃ nodes, Renders page markdown options nodes) ∧
        (options.compact = false → Advances page options.mentions (linesOf markdown))) ↔
      options.compact = true ∨ BlocksTaken (linesOf markdown) := by
  cases hcompact : options.compact with
  | true =>
      simp only [Bool.true_eq_false, false_implies, and_true, true_or, iff_true]
      exact ⟨_, 0, by rw [renderSafeMarkdown, hcompact]; rfl⟩
  | false =>
      simp only [forall_const, Bool.false_eq_true, false_or]
      constructor
      · rintro ⟨⟨nodes, rounds, h⟩, -⟩
        rw [renderSafeMarkdown, hcompact] at h
        exact blocksTaken_of_renderLines h
      · intro h
        have hadvances : Advances page options.mentions (linesOf markdown) :=
          advances_of_blocksTaken h
        obtain ⟨nodes, hnodes⟩ := renderLines_of_advances hadvances .start le_rfl
        refine ⟨⟨nodes, (linesOf markdown).length, ?_⟩, hadvances⟩
        rw [renderSafeMarkdown, hcompact]
        exact hnodes

/-- A line that a round leaves is left by every round. -/
theorem renderLines_of_stuck {line : Line} {lines : List Line}
    (h : (nextBlock page mentions line lines).2 = line :: lines) (rounds : Nat) :
    renderLines page mentions rounds (line :: lines) = none := by
  induction rounds with
  | zero => rfl
  | succ rounds ih => rw [renderLines, h, ih, Option.map_none]

/-- The renderer does not return from a number with nothing behind it. -/
theorem renderSafeMarkdown_loops :
    ¬ ∃ nodes, Renders roomPage "1. ".toList ⟨none, false⟩ nodes := by
  rintro ⟨nodes, rounds, h⟩
  have hlines : linesOf "1. ".toList = ["1. ".toList] := by decide +kernel
  have hstuck : (nextBlock roomPage none "1. ".toList []).2 = ["1. ".toList] := by decide +kernel
  rw [renderSafeMarkdown, hlines, if_neg (by decide), renderLines_of_stuck hstuck] at h
  cases h

end Ending

end AgentGather.Browser
