import AgentGather.Browser.Inline

/-!
# The syntax of inline Markdown

What the renderer reads into a text, apart from what it makes of it: written out with its
delimiters it is the text again, and without them it is what a reader sees.
-/

namespace AgentGather.Browser

open AgentGather.Library AgentGather.Library.Dom AgentGather.Library.Regex

inductive Inline where
  | plain (text : List Char)
  | strong (content : List Inline)
  | code (text : List Char)
  | link (label target : List Char)
  | bare (token : List Char)

/-! ## With and without delimiters -/

mutual

/-- As it is written. -/
def Inline.source : Inline → List Char
  | .plain text => text
  | .strong content => "**".toList ++ (sourceOf content ++ "**".toList)
  | .code text => '\x60' :: (text ++ ['\x60'])
  | .link label target => '[' :: (label ++ ("](".toList ++ (target ++ [')'])))
  | .bare token => token

def sourceOf : List Inline → List Char
  | [] => []
  | piece :: pieces => piece.source ++ sourceOf pieces

end

mutual

/-- Without the asterisks, the backticks, the brackets and the targets of links. -/
def Inline.shown : Inline → List Char
  | .plain text => text
  | .strong content => shownOf content
  | .code text => text
  | .link label _ => label
  | .bare token => token

def shownOf : List Inline → List Char
  | [] => []
  | piece :: pieces => piece.shown ++ shownOf pieces

end

mutual

/-- What stands in a text outside of strong text, and in it. -/
def Inline.leaves : Inline → List Inline
  | .plain text => [.plain text]
  | .strong content => leavesOf content
  | .code text => [.code text]
  | .link label target => [.link label target]
  | .bare token => [.bare token]

def leavesOf : List Inline → List Inline
  | [] => []
  | piece :: pieces => piece.leaves ++ leavesOf pieces

end

theorem sourceOf_eq (pieces : List Inline) : sourceOf pieces = pieces.flatMap Inline.source := by
  induction pieces with
  | nil => rfl
  | cons piece pieces ih => rw [sourceOf, ih, List.flatMap_cons]

theorem leavesOf_eq (pieces : List Inline) : leavesOf pieces = pieces.flatMap Inline.leaves := by
  induction pieces with
  | nil => rfl
  | cons piece pieces ih => rw [leavesOf, ih, List.flatMap_cons]

mutual

/-- What holds of the leaves, and of strong text if it holds in it, holds. -/
theorem Inline.induct {p : Inline → Prop} (hplain : ∀ text, p (.plain text))
    (hstrong : ∀ content, (∀ piece ∈ content, p piece) → p (.strong content))
    (hcode : ∀ text, p (.code text)) (hlink : ∀ label target, p (.link label target))
    (hbare : ∀ token, p (.bare token)) : ∀ piece : Inline, p piece
  | .plain text => hplain text
  | .strong content =>
      hstrong content (Inline.induct_list hplain hstrong hcode hlink hbare content)
  | .code text => hcode text
  | .link label target => hlink label target
  | .bare token => hbare token

theorem Inline.induct_list {p : Inline → Prop} (hplain : ∀ text, p (.plain text))
    (hstrong : ∀ content, (∀ piece ∈ content, p piece) → p (.strong content))
    (hcode : ∀ text, p (.code text)) (hlink : ∀ label target, p (.link label target))
    (hbare : ∀ token, p (.bare token)) : ∀ pieces : List Inline, ∀ piece ∈ pieces, p piece
  | [], _, h => nomatch h
  | first :: rest, piece, h => by
      rcases List.mem_cons.mp h with h | h
      · rw [h]
        exact Inline.induct hplain hstrong hcode hlink hbare first
      · exact Inline.induct_list hplain hstrong hcode hlink hbare rest piece h

end

/-! ## Reading and rendering -/

/-- A token that is no strong text. -/
def readLeaf (value : List Char) : Inline :=
  if isCode value then .code (inner 1 value)
  else if isLink value then
    match linkPattern.exec value with
    | none => .plain value
    | some m => .link ((m.group? 1).getD []) ((m.group? 2).getD [])
  else .bare value

/-- What stands in a text. -/
def readInline (text : List Char) : List Inline :=
  (tokenPattern.pieces text).attach.map fun
    | ⟨.between between, _⟩ => .plain between
    | ⟨.found value, _⟩ =>
        if isStrong value then .strong (readInline (inner 2 value)) else readLeaf value
termination_by text.length
decreasing_by exact length_inner_lt Nat.two_pos ‹_›

def readPiece : Piece Char → Inline
  | .between between => .plain between
  | .found value =>
      if isStrong value then .strong (readInline (inner 2 value)) else readLeaf value

theorem readInline_eq (text : List Char) :
    readInline text = (tokenPattern.pieces text).map readPiece := by
  rw [readInline]
  conv_rhs => rw [← List.attach_map_subtype_val (tokenPattern.pieces text), List.map_map]
  apply List.map_congr_left
  rintro ⟨piece, hpiece⟩ -
  cases piece with
  | between between => rfl
  | found value => rfl

section Rendering

variable (page : Page) (mentions : Mentions)

mutual

/-- The nodes of a piece. -/
def Inline.render : Inline → List Node
  | .plain text => appendText text
  | .strong content => [.element "strong" [] (renderOf content)]
  | .code text => [.element "code" [] (textNodes text)]
  | .link label target =>
      if isSafeHref page target then [anchor target label] else appendText label
  | .bare token =>
      if isMention mentions token then
        [.element "span" [("class", .text "mention".toList)] (textNodes token)]
      else if isSafeHref page token then [anchor token token]
      else appendText token

def renderOf : List Inline → List Node
  | [] => []
  | piece :: pieces => piece.render ++ renderOf pieces

end

theorem renderOf_eq (pieces : List Inline) :
    renderOf page mentions pieces = pieces.flatMap (Inline.render page mentions) := by
  induction pieces with
  | nil => rfl
  | cons piece pieces ih => rw [renderOf, ih, List.flatMap_cons]

end Rendering

/-! ## Tokens -/

theorem isAddress_head {value : List Char} (h : isAddress value = true) :
    ∃ c rest, value = c :: rest ∧ c ∉ ['*', '\x60', '[', '@'] := by
  obtain ⟨start, hstart, hbegins⟩ := List.any_eq_true.mp h
  obtain ⟨behind, hbehind⟩ := List.isPrefixOf_iff_prefix.mp hbegins
  have hhead : ∃ s later, start = s :: later ∧ s ∉ ['*', '\x60', '[', '@'].map Char.toLower := by
    simp only [addressStarts, List.mem_cons, List.not_mem_nil, or_false] at hstart
    rcases hstart with rfl | rfl | rfl
    · exact ⟨'h', "ttp://".toList, rfl, by decide⟩
    · exact ⟨'h', "ttps://".toList, rfl, by decide⟩
    · exact ⟨'m', "ailto:".toList, rfl, by decide⟩
  obtain ⟨s, later, rfl, hs⟩ := hhead
  cases value with
  | nil => cases hbehind
  | cons c rest =>
      refine ⟨c, rest, rfl, fun hc => hs ?_⟩
      obtain ⟨hlower, -⟩ := List.cons.inj hbehind
      rw [hlower]
      exact List.mem_map_of_mem hc

theorem startsAndEndsWith_eq_false {c d : Char} {delimiter rest : List Char} (h : d ≠ c) :
    startsAndEndsWith (d :: delimiter) (c :: rest) = false := by
  rw [startsAndEndsWith, List.isPrefixOf, beq_false_of_ne h]
  rfl

theorem startsAndEndsWith_append (delimiter content : List Char) :
    startsAndEndsWith delimiter (delimiter ++ (content ++ delimiter)) = true := by
  rw [startsAndEndsWith, Bool.and_eq_true, List.isPrefixOf_iff_prefix,
    List.isSuffixOf_iff_suffix]
  exact ⟨List.prefix_append _ _, ⟨delimiter ++ content, by rw [List.append_assoc]⟩⟩

theorem inner_append (delimiter content : List Char) :
    inner delimiter.length (delimiter ++ (content ++ delimiter)) = content := by
  have hlength : (delimiter ++ (content ++ delimiter)).length - delimiter.length =
      (delimiter ++ content).length := by
    simp only [List.length_append]
    omega
  rw [inner, hlength, ← List.append_assoc, List.take_left, List.drop_left]

theorem inner_strong (content : List Char) :
    inner 2 ("**".toList ++ (content ++ "**".toList)) = content :=
  inner_append "**".toList content

theorem isLink_token (label target : List Char) :
    isLink ('[' :: (label ++ ("](".toList ++ (target ++ [')'])))) = true := by
  have hinfix : "](".toList <:+: '[' :: (label ++ ("](".toList ++ (target ++ [')']))) :=
    ⟨'[' :: label, target ++ [')'], by simp⟩
  have hlast : ('[' :: (label ++ ("](".toList ++ (target ++ [')'])))).getLast? = some ')' := by
    have hsplit : '[' :: (label ++ ("](".toList ++ (target ++ [')']))) =
        ('[' :: (label ++ ("](".toList ++ target))) ++ [')'] := by simp
    rw [hsplit, List.getLast?_concat]
  rw [isLink, hlast, decide_eq_true hinfix]
  rfl

theorem exec_linkPattern {label target : List Char} (hlabel : label ≠ [])
    (hlabelAll : ∀ c ∈ label, isLabelChar c = true) (htarget : target ≠ [])
    (htargetAll : ∀ c ∈ target, isTargetChar c = true) :
    ∃ m, linkPattern.exec ('[' :: (label ++ ("](".toList ++ (target ++ [')'])))) = some m ∧
      m.group? 1 = some label ∧ m.group? 2 = some target := by
  have hlabelStop : ∀ c ∈ ("](".toList ++ (target ++ [')'])).head?, isLabelChar c = false := by
    intro c hc
    obtain rfl := Option.some.inj hc
    rfl
  have htargetStop : ∀ c ∈ ([')'] : List Char).head?, isTargetChar c = false := by
    intro c hc
    obtain rfl := Option.some.inj hc
    rfl
  obtain ⟨q, hq, hgroups⟩ : ∃ q,
      (linkPattern.results ⟨[], '[' :: (label ++ ("](".toList ++ (target ++ [')']))), []⟩).head? =
        some q ∧ q.groups = [(2, target), (1, label)] :=
    ⟨_, head?_results_seq rfl
      (head?_results_seq (congrArg List.head? (results_lit ['['] _ _ _))
      (head?_results_seq (head?_results_group_plus hlabel hlabelAll _ hlabelStop 1 _ _)
      (head?_results_seq (congrArg List.head? (results_lit "](".toList _ _ _))
      (head?_results_seq (head?_results_group_plus htarget htargetAll _ htargetStop 2 _ _)
      (head?_results_seq (congrArg List.head? (results_lit [')'] _ [] _)) rfl))))), rfl⟩
  obtain ⟨m, hm, hcaptured⟩ := exec_of_head? hq
  refine ⟨m, hm, ?_, ?_⟩
  · rw [Match.group?, hcaptured, hgroups]
    rfl
  · rw [Match.group?, hcaptured, hgroups]
    rfl

theorem readPiece_strong (content : List Char) :
    readPiece (.found ("**".toList ++ (content ++ "**".toList))) =
      .strong (readInline content) := by
  rw [readPiece, isStrong, startsAndEndsWith_append, if_pos rfl, inner_strong]

theorem readPiece_leaf {c : Char} {rest : List Char} (h : c ≠ '*') :
    readPiece (.found (c :: rest)) = readLeaf (c :: rest) := by
  have hstrong : isStrong (c :: rest) = false := startsAndEndsWith_eq_false h.symm
  rw [readPiece, hstrong, if_neg Bool.false_ne_true]

theorem readPiece_code (content : List Char) :
    readPiece (.found ('\x60' :: (content ++ ['\x60']))) = .code content := by
  have hcode : isCode ('\x60' :: (content ++ ['\x60'])) = true :=
    startsAndEndsWith_append ['\x60'] content
  have hinner : inner 1 ('\x60' :: (content ++ ['\x60'])) = content :=
    inner_append ['\x60'] content
  rw [readPiece_leaf (by decide), readLeaf, hcode, if_pos rfl, hinner]

theorem readPiece_link {label target : List Char} (hlabel : label ≠ [])
    (hlabelAll : ∀ c ∈ label, isLabelChar c = true) (htarget : target ≠ [])
    (htargetAll : ∀ c ∈ target, isTargetChar c = true) :
    readPiece (.found ('[' :: (label ++ ("](".toList ++ (target ++ [')']))))) =
      .link label target := by
  have hcode : isCode ('[' :: (label ++ ("](".toList ++ (target ++ [')'])))) = false :=
    startsAndEndsWith_eq_false (by decide)
  obtain ⟨m, hm, hfirst, hsecond⟩ := exec_linkPattern hlabel hlabelAll htarget htargetAll
  rw [readPiece_leaf (by decide), readLeaf, hcode, if_neg Bool.false_ne_true, isLink_token,
    if_pos rfl, hm]
  dsimp only
  rw [hfirst, hsecond]
  rfl

/-- A token that begins like none of these stays as it is. -/
theorem readPiece_bare {c : Char} {rest : List Char} (h : c ∉ ['*', '\x60', '[']) :
    readPiece (.found (c :: rest)) = .bare (c :: rest) := by
  simp only [List.mem_cons, List.not_mem_nil, or_false, not_or] at h
  obtain ⟨hstar, htick, hbracket⟩ := h
  have hcode : isCode (c :: rest) = false := startsAndEndsWith_eq_false (Ne.symm htick)
  have hlink : isLink (c :: rest) = false := by
    rw [isLink, List.head?_cons, show (some c == some '[') = false by simpa using hbracket]
    rfl
  rw [readPiece_leaf hstar, readLeaf, hcode, if_neg Bool.false_ne_true, hlink,
    if_neg Bool.false_ne_true]

theorem readPiece_address {value : List Char} (h : isAddress value = true) :
    readPiece (.found value) = .bare value := by
  obtain ⟨c, rest, rfl, hc⟩ := isAddress_head h
  refine readPiece_bare fun hmem => hc ?_
  exact List.mem_append_left ['@'] hmem

theorem readPiece_mention (name : List Char) :
    readPiece (.found ('@' :: name)) = .bare ('@' :: name) := readPiece_bare (by decide)

/-! ## What is read and what is rendered -/

/-- What holds of a text if it holds in its strong texts, holds of every text. -/
theorem text_induct {p : List Char → Prop}
    (h : ∀ text, (∀ value, .found value ∈ tokenPattern.pieces text → p (inner 2 value)) → p text)
    (text : List Char) : p text := by
  induction hlength : text.length using Nat.strong_induction_on generalizing text with
  | _ length ih =>
      subst hlength
      exact h text fun value hvalue => ih _ (length_inner_lt Nat.two_pos hvalue) _ rfl

/-- What is read of a text is the text. -/
theorem sourceOf_readInline (text : List Char) : sourceOf (readInline text) = text := by
  induction text using text_induct with
  | h text ih =>
      rw [readInline_eq, sourceOf_eq, List.flatMap_map]
      conv_rhs => rw [← flatMap_text_pieces consumes_tokenPattern text]
      apply List.flatMap_congr
      intro piece hpiece
      cases piece with
      | between between => rfl
      | found value =>
          cases token_of_mem_pieces hpiece with
          | strong hne =>
              have hcontent := ih _ hpiece
              rw [inner_strong] at hcontent
              rw [readPiece_strong, Inline.source, hcontent, Piece.text]
          | code hne hall =>
              rw [readPiece_code]
              rfl
          | link hlabel hlabelAll htarget htargetAll =>
              rw [readPiece_link hlabel hlabelAll htarget htargetAll]
              rfl
          | address h =>
              rw [readPiece_address h]
              rfl
          | mention hne hall =>
              rw [readPiece_mention]
              rfl

theorem leafNodes_eq_render (page : Page) (mentions : Mentions) (value : List Char) :
    leafNodes page mentions value = (readLeaf value).render page mentions := by
  unfold leafNodes readLeaf
  by_cases hcode : isCode value = true
  · rw [if_pos hcode, if_pos hcode]
    rfl
  · rw [if_neg hcode, if_neg hcode]
    by_cases hlink : isLink value = true
    · rw [if_pos hlink, if_pos hlink, appendMarkdownLink]
      cases linkPattern.exec value with
      | none => rfl
      | some m => rfl
    · rw [if_neg hlink, if_neg hlink]
      rfl

/-- The renderer renders what is read. -/
theorem inlineNodes_eq_renderOf (page : Page) (mentions : Mentions) (text : List Char) :
    inlineNodes page mentions text = renderOf page mentions (readInline text) := by
  induction text using text_induct with
  | h text ih =>
      rw [inlineNodes_eq, readInline_eq, renderOf_eq, List.flatMap_map]
      apply List.flatMap_congr
      intro piece hpiece
      cases piece with
      | between between => rfl
      | found value =>
          rw [pieceNodes, readPiece]
          split
          · rw [ih value hpiece, Inline.render]
          · exact leafNodes_eq_render page mentions value

theorem shownOf_eq (pieces : List Inline) : shownOf pieces = pieces.flatMap Inline.shown := by
  induction pieces with
  | nil => rfl
  | cons piece pieces ih => rw [shownOf, ih, List.flatMap_cons]

theorem textOf_anchor (href label : List Char) : textOf [anchor href label] = label := by
  rw [anchor, textOf_element, textOf_textNodes]

/-- Rendering a piece removes its delimiters. -/
theorem textOf_render (page : Page) (mentions : Mentions) (piece : Inline) :
    textOf (piece.render page mentions) = piece.shown := by
  induction piece using Inline.induct with
  | hplain text => exact textOf_textNodes text
  | hstrong content ih =>
      rw [Inline.render, textOf_element, renderOf_eq, textOf_flatMap, Inline.shown, shownOf_eq]
      exact List.flatMap_congr ih
  | hcode text => rw [Inline.render, textOf_element, textOf_textNodes, Inline.shown]
  | hlink label target =>
      rw [Inline.render, Inline.shown]
      split
      · exact textOf_anchor target label
      · exact textOf_textNodes label
  | hbare token =>
      rw [Inline.render, Inline.shown]
      split_ifs
      · rw [textOf_element, textOf_textNodes]
      · exact textOf_anchor token token
      · exact textOf_textNodes token

/-- What a reader sees of a text is the text without its delimiters. -/
theorem textOf_inlineNodes (page : Page) (mentions : Mentions) (text : List Char) :
    textOf (inlineNodes page mentions text) = shownOf (readInline text) := by
  rw [inlineNodes_eq_renderOf, renderOf_eq, textOf_flatMap, shownOf_eq]
  exact List.flatMap_congr fun piece _ => textOf_render page mentions piece

end AgentGather.Browser
