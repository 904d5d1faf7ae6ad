import AgentGather.Browser.Inline
import AgentGather.Library.Number

/-!
# Markdown in the browser

The renderer of messages and briefs.  It goes over the lines block by block, and the loop ends
only if every block takes a line.
-/

namespace AgentGather.Browser

open AgentGather.Library AgentGather.Library.Dom AgentGather.Library.Regex
open AgentGather.Library.Number

abbrev Line := List Char

/-! ## Patterns of lines -/

def spaceChar : Regex Char := .char Text.isSpace

/-- `.`. -/
def dotChar : Regex Char := .char fun c => !Text.isLineTerminator c

def digitChar : Regex Char := .char Text.isDigit

/-- `/^(\d+)\.\s+(.+)$/`. -/
def orderedItem : Regex Char :=
  .seq .start (.seq (.group 1 (.plus digitChar)) (.seq (.lit ['.'])
    (.seq (.plus spaceChar) (.seq (.group 2 (.plus dotChar)) .stop))))

def bulletChar : Regex Char := .char fun c => c == '-' || c == '*'

/-- `/^[-*]\s+(.+)$/`. -/
def unorderedItem : Regex Char :=
  .seq .start (.seq bulletChar
    (.seq (.plus spaceChar) (.seq (.group 1 (.plus dotChar)) .stop)))

/-- `/^(#{1,3})\s+(.+)$/`. -/
def headingPattern : Regex Char :=
  .seq .start (.seq (.group 1 (.between (.lit ['#']) 1 2))
    (.seq (.plus spaceChar) (.seq (.group 2 (.plus dotChar)) .stop)))

def ruleChar : Regex Char := .char fun c => c == '-' || c == '*' || c == '_'

/-- `/^\s*([-*_]\s*){3,}$/`. -/
def rulePattern : Regex Char :=
  .seq .start (.seq (.star true spaceChar)
    (.seq (.atLeast (.group 1 (.seq ruleChar (.star true spaceChar))) 3) .stop))

/-- `/^>\s?/`. -/
def quotePattern : Regex Char := .seq .start (.seq (.lit ['>']) (.opt spaceChar))

/-- `/^(#{1,3})\s+/`. -/
def headingStart : Regex Char :=
  .seq .start (.seq (.group 1 (.between (.lit ['#']) 1 2)) (.plus spaceChar))

/-- `/^[-*]\s+/`. -/
def bulletStart : Regex Char := .seq .start (.seq bulletChar (.plus spaceChar))

/-- `/^\d+\.\s+/`. -/
def ordinalStart : Regex Char :=
  .seq .start (.seq (.plus digitChar) (.seq (.lit ['.']) (.plus spaceChar)))

/-- Three backticks begin the line. -/
def isFence (line : Line) : Bool := (List.replicate 3 '\x60').isPrefixOf line

def isBlank (line : Line) : Bool := (Text.trim line).isEmpty

def isMarkdownBlockStart (line : Line) : Bool :=
  isFence line || headingStart.test line || rulePattern.test line || quotePattern.test line ||
    bulletStart.test line || ordinalStart.test line

def stripMarkdownBlockPrefix (line : Line) : Line :=
  Text.trim (ordinalStart.replaceFirst (fun _ => []) (bulletStart.replaceFirst (fun _ => [])
    (quotePattern.replaceFirst (fun _ => []) (headingStart.replaceFirst (fun _ => []) line))))

/-! ## Code -/

def textAttribute (name value : String) : String × Value := (name, .text value.toList)

def appendCodeBlock (page : Page) (text lang : List Char) : List Node :=
  let dot := .element "span"
    [textAttribute "class" "code-dot", textAttribute "aria-hidden" "true"] []
  let label := .element "span" [textAttribute "class" "code-lang"]
    (textNodes (if lang = [] then "code".toList else lang))
  let copy :=
    if page.clipboard then
      [.element "button" [textAttribute "type" "button", textAttribute "class" "code-copy"]
        (textNodes "copy".toList)]
    else []
  [.element "div" [textAttribute "class" "code-block"]
    [.element "div" [textAttribute "class" "code-head"] (dot :: label :: copy),
      .element "pre" [] [.element "code" [] (textNodes (Text.trim text))]]]

/-! ## Lists -/

def itemPattern (ordered : Bool) : Regex Char := if ordered then orderedItem else unorderedItem

/-- The next item of a list and the lines behind it.  Blank lines keep an ordered list open if
another ordered item follows them. -/
def nextItem (ordered : Bool) (lines : List Line) : Option (Match Char × List Line) :=
  match lines with
  | [] => none
  | line :: rest =>
      match (itemPattern ordered).exec line with
      | some m => some (m, rest)
      | none =>
          if !ordered || !isBlank line then none
          else
            match lines.dropWhile isBlank with
            | [] => none
            | next :: behind => ((itemPattern ordered).exec next).map fun m => (m, behind)

theorem nextItem_length {ordered : Bool} {lines rest : List Line} {m : Match Char}
    (h : nextItem ordered lines = some (m, rest)) : rest.length < lines.length := by
  unfold nextItem at h
  cases lines with
  | nil => cases h
  | cons line lines =>
      dsimp only at h
      split at h
      · cases h
        exact Nat.lt_succ_self _
      · split at h
        · cases h
        · have hle := List.length_dropWhile_le isBlank (line :: lines)
          split at h
          · cases h
          · rename_i next behind hdrop
            obtain ⟨m', -, heq⟩ := Option.map_eq_some_iff.mp h
            obtain ⟨-, rfl⟩ := Prod.mk.inj heq
            rw [hdrop, List.length_cons] at hle
            omega

/-- `Number(match[1])`. -/
def ordinalOf (m : Match Char) : WholeDouble :=
  toDouble (Nat.ofDigitChars 10 ((m.group? 1).getD []) 0)

/-- What an ordered item sets on itself: its number, if it is not the expected one. -/
def itemValue (expected : Option WholeDouble) (ordinal : WholeDouble) : Attributes :=
  match expected with
  | none => []
  | some e => if ordinal = e then [] else [("value", .number (toInt32 ordinal))]

/-- What an item sets on its list: the first ordered one, where the list starts. -/
def listStart (expected : Option WholeDouble) (ordinal : WholeDouble) : Attributes :=
  match expected with
  | none => [("start", .number (toInt32 ordinal))]
  | some _ => []

/-- A list that has been read: its attributes, its items and the lines behind it. -/
structure ListRun where
  attributes : Attributes
  items : List Node
  rest : List Line

section Blocks

variable (page : Page) (mentions : Mentions)

/-- The items of a list; `expected` is the ordinal the next one has if the author counts on. -/
def listItems (ordered : Bool) (expected : Option WholeDouble) (lines : List Line) : ListRun :=
  match _h : nextItem ordered lines with
  | none => ⟨[], [], lines⟩
  | some (m, rest) =>
      if ordered then
        let ordinal := ordinalOf m
        let later := listItems ordered (some ordinal.succ) rest
        ⟨listStart expected ordinal ++ later.attributes,
          .element "li" (itemValue expected ordinal)
            (inlineNodes page mentions ((m.group? 2).getD [])) :: later.items,
          later.rest⟩
      else
        let later := listItems ordered expected rest
        ⟨later.attributes,
          .element "li" [] (inlineNodes page mentions ((m.group? 1).getD [])) :: later.items,
          later.rest⟩
termination_by lines.length
decreasing_by all_goals exact nextItem_length ‹_›

/-! ## Blocks -/

/-- The lines, one behind the other. -/
def joinLines (separator : Char) (lines : List Line) : List Char :=
  [separator].intercalate lines

def headingTag (marks : Nat) : String :=
  match marks with
  | 0 => "h0"
  | 1 => "h1"
  | 2 => "h2"
  | _ => "h3"

/-- One round of the loop: the nodes of the block that begins with the line, and the lines
behind it. -/
def nextBlock (line : Line) (lines : List Line) : List Node × List Line :=
  if isBlank line then ([], lines)
  else if isFence line then
    (appendCodeBlock page (joinLines '\n' (lines.takeWhile fun l => !isFence l))
      (Text.trim (line.drop 3)), (lines.dropWhile fun l => !isFence l).tail)
  else
    match headingPattern.exec line with
    | some m =>
        ([.element (headingTag ((m.group? 1).getD []).length) []
          (inlineNodes page mentions ((m.group? 2).getD []))], lines)
    | none =>
        if rulePattern.test line then ([.element "hr" [] []], lines)
        else if quotePattern.test line then
          let quoteLines := ((line :: lines).takeWhile quotePattern.test).map
            (quotePattern.replaceFirst fun _ => [])
          ([.element "blockquote" [] (inlineNodes page mentions (joinLines '\n' quoteLines))],
            (line :: lines).dropWhile quotePattern.test)
        else if unorderedItem.test line || orderedItem.test line then
          let ordered := orderedItem.test line
          let run := listItems page mentions ordered none (line :: lines)
          ([.element (if ordered then "ol" else "ul") run.attributes run.items], run.rest)
        else
          let continues (l : Line) : Bool := !isBlank l && !isMarkdownBlockStart l
          -- The loop is not reached in compact mode, so the paragraph is an element.
          ([.element "p" []
            (inlineNodes page mentions (joinLines '\n' ((line :: lines).takeWhile continues)))],
            (line :: lines).dropWhile continues)

/-- The loop, for at most so many rounds. -/
def renderLines : Nat → List Line → Option (List Node)
  | _, [] => some []
  | 0, _ :: _ => none
  | rounds + 1, line :: lines =>
      let block := nextBlock page mentions line lines
      (renderLines rounds block.2).map (block.1 ++ ·)

end Blocks

/-! ## The renderer -/

structure Options where
  mentions : Mentions
  compact : Bool

/-- `/\r\n?/g`. -/
def lineEnd : Regex Char := .seq (.lit ['\r']) (.opt (.lit ['\n']))

def linesOf (markdown : List Char) : List Line :=
  (lineEnd.replaceAll (fun _ => ['\n']) markdown).splitOn '\n'

/-- The children that the renderer gives the parent, where it needs at most so many rounds. -/
def renderSafeMarkdown (rounds : Nat) (page : Page) (markdown : List Char) (options : Options) :
    Option (List Node) :=
  let lines := linesOf markdown
  if options.compact then
    some (inlineNodes page options.mentions
      (joinLines ' ' (lines.map stripMarkdownBlockPrefix)))
  else renderLines page options.mentions rounds lines

/-- The renderer returns, and these are the children. -/
def Renders (page : Page) (markdown : List Char) (options : Options) (nodes : List Node) : Prop :=
  ∃ rounds, renderSafeMarkdown rounds page markdown options = some nodes

/-! ## More rounds -/

theorem renderLines_of_le {page : Page} {mentions : Mentions} {m n : Nat} (hle : m ≤ n)
    {lines : List Line} {nodes : List Node}
    (h : renderLines page mentions m lines = some nodes) :
    renderLines page mentions n lines = some nodes := by
  induction m generalizing n lines nodes with
  | zero =>
      cases lines with
      | nil =>
          rw [renderLines] at h ⊢
          exact h
      | cons line lines => cases h
  | succ m ih =>
      cases lines with
      | nil =>
          rw [renderLines] at h ⊢
          exact h
      | cons line lines =>
          obtain ⟨n, rfl⟩ : ∃ k, n = k + 1 := Nat.exists_eq_succ_of_ne_zero (by omega)
          rw [renderLines, Option.map_eq_some_iff] at h ⊢
          obtain ⟨later, hlater, hnodes⟩ := h
          exact ⟨later, ih (by omega) hlater, hnodes⟩

theorem renderSafeMarkdown_of_le {page : Page} {markdown : List Char} {options : Options}
    {m n : Nat} (hle : m ≤ n) {nodes : List Node}
    (h : renderSafeMarkdown m page markdown options = some nodes) :
    renderSafeMarkdown n page markdown options = some nodes := by
  unfold renderSafeMarkdown at h ⊢
  cases hcompact : options.compact with
  | true =>
      rw [hcompact, if_pos rfl] at h
      exact h
  | false =>
      rw [hcompact, if_neg Bool.false_ne_true] at h
      exact renderLines_of_le hle h

/-- A text has one rendering at most. -/
theorem Renders.unique {page : Page} {markdown : List Char} {options : Options}
    {nodes nodes' : List Node} (h : Renders page markdown options nodes)
    (h' : Renders page markdown options nodes') : nodes = nodes' := by
  obtain ⟨m, hm⟩ := h
  obtain ⟨n, hn⟩ := h'
  have hm := renderSafeMarkdown_of_le (Nat.le_max_left m n) hm
  have hn := renderSafeMarkdown_of_le (Nat.le_max_right m n) hn
  exact Option.some.inj (hm.symm.trans hn)

end AgentGather.Browser
