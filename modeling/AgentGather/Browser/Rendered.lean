import AgentGather.Browser.Rounds

/-!
# What the renderer creates

The elements of a rendered text and their attributes: all are fixed, but for the addresses of
links, which are safe, and the numbers of lists.
-/

namespace AgentGather.Browser

open AgentGather.Library AgentGather.Library.Dom AgentGather.Library.Regex
open AgentGather.Library.Number

/-! ## Elements -/

/-- The schemes of a safe address. -/
def safeSchemes : List (List Char) := ["http".toList, "https".toList, "mailto".toList]

theorem isSafeHref_iff (page : Page) (href : List Char) :
    isSafeHref page href = true ↔
      ∃ url, Url.resolve page.hosts href page.href = some url ∧ url.scheme ∈ safeSchemes := by
  rw [isSafeHref]
  cases Url.resolve page.hosts href page.href with
  | none => simp
  | some url => simp [safeSchemes]

/-- The elements of a line of text.  An anchor has a safe address. -/
def CreatedInline (page : Page) (tag : String) (attributes : Attributes) : Prop :=
  (tag, attributes) ∈
      [("strong", []), ("code", []), ("span", [("class", .text "mention".toList)])] ∨
    tag = "a" ∧ ∃ href, isSafeHref page href = true ∧
      attributes = [("href", .text href), ("rel", .text "noreferrer".toList),
        ("target", .text "_blank".toList)]

/-- The elements around the text of a block, all of them fixed. -/
def blockElements : List (String × Attributes) :=
  [("p", []), ("h1", []), ("h2", []), ("h3", []), ("hr", []), ("blockquote", []), ("ul", []),
    ("li", []), ("pre", []), ("div", [textAttribute "class" "code-block"]),
    ("div", [textAttribute "class" "code-head"]),
    ("span", [textAttribute "class" "code-dot", textAttribute "aria-hidden" "true"]),
    ("span", [textAttribute "class" "code-lang"]),
    ("button", [textAttribute "type" "button", textAttribute "class" "code-copy"])]

/-- The elements that the renderer creates.  A list has the number it starts with, and an item may
have one. -/
def Created (page : Page) (tag : String) (attributes : Attributes) : Prop :=
  CreatedInline page tag attributes ∨ (tag, attributes) ∈ blockElements ∨
    tag = "ol" ∧ (∃ n, attributes = [("start", .number n)]) ∨
    tag = "li" ∧ ∃ n, attributes = [("value", .number n)]

section Elements

variable {page : Page} {mentions : Mentions}

theorem created_block {tag : String} {attributes : Attributes}
    (h : (tag, attributes) ∈ blockElements) : Created page tag attributes := .inr (.inl h)

/-! ## Text -/

theorem all_anchor {href label : List Char} (h : isSafeHref page href = true) :
    (anchor href label).All (CreatedInline page) :=
  .element (.inr ⟨rfl, href, h, rfl⟩) all_textNodes

theorem all_render (piece : Inline) :
    ∀ node ∈ piece.render page mentions, node.All (CreatedInline page) := by
  induction piece using Inline.induct with
  | hplain text => exact all_textNodes
  | hstrong content ih =>
      intro node hnode
      rw [List.mem_singleton.mp hnode]
      refine .element (.inl (by simp)) fun child hchild => ?_
      rw [renderOf_eq] at hchild
      obtain ⟨piece, hpiece, hmem⟩ := List.mem_flatMap.mp hchild
      exact ih piece hpiece child hmem
  | hcode text =>
      intro node hnode
      rw [List.mem_singleton.mp hnode]
      exact .element (.inl (by simp)) all_textNodes
  | hlink label target =>
      intro node hnode
      rw [Inline.render] at hnode
      split at hnode
      · rename_i hsafe
        rw [List.mem_singleton.mp hnode]
        exact all_anchor hsafe
      · exact all_textNodes node hnode
  | hbare token =>
      intro node hnode
      rw [Inline.render] at hnode
      split_ifs at hnode with hmention hsafe
      · rw [List.mem_singleton.mp hnode]
        exact .element (.inl (by simp)) all_textNodes
      · rw [List.mem_singleton.mp hnode]
        exact all_anchor hsafe
      · exact all_textNodes node hnode

theorem all_inlineNodes (text : List Char) :
    ∀ node ∈ inlineNodes page mentions text, node.All (CreatedInline page) := by
  intro node hnode
  rw [inlineNodes_eq_renderOf, renderOf_eq] at hnode
  obtain ⟨piece, -, hmem⟩ := List.mem_flatMap.mp hnode
  exact all_render piece node hmem

theorem created_inlineNodes (text : List Char) :
    ∀ node ∈ inlineNodes page mentions text, node.All (Created page) :=
  fun node hnode => (all_inlineNodes text node hnode).mono fun _ _ h => .inl h

/-! ## Blocks -/

theorem created_itemNodes (ordered : Bool) (expected : Option WholeDouble)
    (ms : List (Match Char)) :
    ∀ node ∈ itemNodes page mentions ordered expected ms, node.All (Created page) := by
  induction ms generalizing expected with
  | nil => exact fun _ h => nomatch h
  | cons m ms ih =>
      intro node hnode
      have hplain : Created page "li" [] := created_block (by decide)
      cases ordered with
      | false =>
          rcases List.mem_cons.mp hnode with rfl | hnode
          · exact .element hplain (created_inlineNodes _)
          · exact ih expected node hnode
      | true =>
          rcases List.mem_cons.mp hnode with rfl | hnode
          · refine .element ?_ (created_inlineNodes _)
            cases expected with
            | none => exact hplain
            | some e =>
                rw [itemValue]
                split
                · exact hplain
                · exact .inr (.inr (.inr ⟨rfl, _, rfl⟩))
          · exact ih _ node hnode

theorem created_heading {line : Line} {m : Match Char} (h : headingPattern.exec line = some m) :
    Created page (headingTag ((m.group? 1).getD []).length) [] := by
  obtain ⟨front, marks, back, hmarks, hgroup⟩ := group_of_exec h (by decide)
  have hhead := starts_headingMarks _ _ _ hmarks
  have hone : ("h1", []) ∈ blockElements := by decide
  have htwo : ("h2", []) ∈ blockElements := by decide
  have hthree : ("h3", []) ∈ blockElements := by decide
  rw [hgroup, Option.getD_some]
  rcases marks with _ | ⟨c, _ | ⟨d, _ | ⟨e, marks⟩⟩⟩
  · cases hhead
  · exact created_block hone
  · exact created_block htwo
  · exact created_block hthree

theorem created_listAttributes {ordered : Bool} {line : Line} {lines rest : List Line}
    {ms : List (Match Char)} (hitem : (itemPattern ordered).test line = true)
    (hrun : ItemRun ordered (line :: lines) ms rest) :
    Created page (if ordered then "ol" else "ul") (listAttributes ordered none ms) := by
  cases ordered with
  | false =>
      have hlist : ("ul", []) ∈ blockElements := by decide
      exact created_block hlist
  | true =>
      cases hrun with
      | done hnone =>
          obtain ⟨m, hm⟩ := nextItem_of_test hitem lines
          rw [hm] at hnone
          cases hnone
      | item hnext hlater => exact .inr (.inr (.inl ⟨rfl, _, rfl⟩))

theorem created_codeBlock (text lang : List Char) :
    ∀ node ∈ appendCodeBlock page text lang, node.All (Created page) := by
  have hdot : (Node.element "span"
      [textAttribute "class" "code-dot", textAttribute "aria-hidden" "true"] []).All
        (Created page) := .element (created_block (by decide)) fun _ h => nomatch h
  have hlabel (label : List Char) : (Node.element "span" [textAttribute "class" "code-lang"]
      (textNodes label)).All (Created page) :=
    .element (created_block (by decide)) all_textNodes
  have hcopy (label : List Char) : (Node.element "button"
      [textAttribute "type" "button", textAttribute "class" "code-copy"] (textNodes label)).All
        (Created page) := .element (created_block (by decide)) all_textNodes
  have hcode (body : List Char) : (Node.element "code" [] (textNodes body)).All (Created page) :=
    .element (.inl (.inl (by decide))) all_textNodes
  intro node hnode
  rw [List.mem_singleton.mp hnode]
  refine .element (created_block (by decide)) fun child hchild => ?_
  rcases List.mem_cons.mp hchild with rfl | hchild
  · refine .element (created_block (by decide)) fun part hpart => ?_
    rcases List.mem_cons.mp hpart with rfl | hpart
    · exact hdot
    rcases List.mem_cons.mp hpart with rfl | hpart
    · exact hlabel _
    split at hpart
    · rw [List.mem_singleton.mp hpart]
      exact hcopy _
    · cases hpart
  · rw [List.mem_singleton.mp hchild]
    refine .element (created_block (by decide)) fun part hpart => ?_
    rw [List.mem_singleton.mp hpart]
    exact hcode _

/-- What a round adds is made of these elements. -/
theorem Round.created {lines rest : List Line} {nodes : List Node}
    (h : Round page mentions lines nodes rest) : ∀ node ∈ nodes, node.All (Created page) := by
  have hblock {tag : String} (htag : (tag, []) ∈ blockElements) (text : List Char) :
      ∀ node ∈ [Node.element tag [] (inlineNodes page mentions text)],
        node.All (Created page) := by
    intro node hnode
    rw [List.mem_singleton.mp hnode]
    exact .element (created_block htag) (created_inlineNodes text)
  cases h with
  | blank => exact fun _ h => nomatch h
  | code => exact created_codeBlock _ _
  | heading _ hm =>
      intro node hnode
      rw [List.mem_singleton.mp hnode]
      exact .element (created_heading hm) (created_inlineNodes _)
  | rule =>
      intro node hnode
      rw [List.mem_singleton.mp hnode]
      exact .element (created_block (by decide)) fun _ h => nomatch h
  | quote => exact hblock (by decide) _
  | list hitem hrun =>
      intro node hnode
      rw [List.mem_singleton.mp hnode]
      exact .element (created_listAttributes hitem hrun) (created_itemNodes _ _ _)
  | paragraph => exact hblock (by decide) _

theorem created_renderLines {rounds : Nat} {lines : List Line} {nodes : List Node}
    (h : renderLines page mentions rounds lines = some nodes) :
    ∀ node ∈ nodes, node.All (Created page) := by
  induction rounds generalizing lines nodes with
  | zero =>
      cases lines with
      | nil =>
          obtain rfl := Option.some.inj h
          exact fun _ h => nomatch h
      | cons line lines => cases h
  | succ rounds ih =>
      cases lines with
      | nil =>
          obtain rfl := Option.some.inj h
          exact fun _ h => nomatch h
      | cons line lines =>
          obtain ⟨later, hlater, rfl⟩ := Option.map_eq_some_iff.mp h
          intro node hnode
          rcases List.mem_append.mp hnode with hnode | hnode
          · exact (round_nextBlock page mentions line lines).created node hnode
          · exact ih hlater node hnode

theorem created_of_renders {markdown : List Char} {options : Options} {nodes : List Node}
    (h : Renders page markdown options nodes) : ∀ node ∈ nodes, node.All (Created page) := by
  obtain ⟨rounds, h⟩ := h
  rw [renderSafeMarkdown] at h
  split at h
  · obtain rfl := Option.some.inj h
    exact created_inlineNodes _
  · exact created_renderLines h

end Elements

/-! ## Safety and text -/

/-- Whatever is rendered is made of the elements of the renderer, and its anchors have safe
addresses.  The text of a line is the line without the delimiters of what is read in it, and
strong text is shorter than the text around it. -/
theorem renderSafeMarkdown_safe (page : Page) :
    (∀ markdown options nodes, Renders page markdown options nodes →
      ∀ node ∈ nodes, node.All (Created page)) ∧
    (∀ href, isSafeHref page href = true ↔
      ∃ url, Url.resolve page.hosts href page.href = some url ∧ url.scheme ∈ safeSchemes) ∧
    (∀ mentions text, sourceOf (readInline text) = text ∧
      inlineNodes page mentions text = renderOf page mentions (readInline text) ∧
      textOf (inlineNodes page mentions text) = shownOf (readInline text)) ∧
    ∀ text value, .found value ∈ tokenPattern.pieces text →
      (inner 2 value).length < text.length :=
  ⟨fun _ _ _ h => created_of_renders h, isSafeHref_iff page,
    fun mentions text => ⟨sourceOf_readInline text, inlineNodes_eq_renderOf page mentions text,
      textOf_inlineNodes page mentions text⟩,
    fun _ _ h => length_inner_lt Nat.two_pos h⟩

theorem renderSafeMarkdown_safe_room :
    ∃ nodes, Renders roomPage "**hi** [x](http://room.example/)".toList ⟨none, false⟩ nodes ∧
      ∀ node ∈ nodes, node.All (Created roomPage) := by
  have hsome : (renderSafeMarkdown 1 roomPage "**hi** [x](http://room.example/)".toList
      ⟨none, false⟩).isSome = true := by decide +kernel
  obtain ⟨nodes, hnodes⟩ := Option.isSome_iff_exists.mp hsome
  exact ⟨nodes, ⟨1, hnodes⟩, (renderSafeMarkdown_safe roomPage).1 _ _ nodes ⟨1, hnodes⟩⟩

end AgentGather.Browser
