import Mathlib.Data.List.Flatten
import AgentGather.Browser.InlineSyntax

/-!
# Where anchors come from

Links and bare addresses become anchors, and so does every `@name` that is no known alias: at a
web page it is read as a path.
-/

namespace AgentGather.Browser

open AgentGather.Library AgentGather.Library.Dom AgentGather.Library.Regex

variable (page : Page) (mentions : Mentions)

/-- The page has an `http:` or `https:` address. -/
def Page.isWeb : Bool := (Url.parse page.hosts none page.href).any Url.isHttp

/-- The anchors of what may become one: a link, or a bare token that begins with an address
scheme. -/
def linkAnchors : Inline → List (Attributes × List Node)
  | .link label target =>
      if isSafeHref page target then elementsOf "a" [anchor target label] else []
  | .bare token =>
      if isAddress token && isSafeHref page token then elementsOf "a" [anchor token token]
      else []
  | _ => []

/-- Every anchor comes from a link or from a bare address, and an `@name` that is no known alias
is text. -/
def OnlyLinks (text : List Char) : Prop :=
  (elementsOf "a" (inlineNodes page mentions text)).Sublist
      ((leavesOf (readInline text)).flatMap (linkAnchors page)) ∧
    ∀ name, .bare ('@' :: name) ∈ leavesOf (readInline text) →
      isMention mentions ('@' :: name) = false →
      leafNodes page mentions ('@' :: name) = appendText ('@' :: name)

/-! ## Bare tokens -/

/-- Strong text is no leaf. -/
theorem strong_not_mem_leaves (content : List Inline) (piece : Inline) :
    .strong content ∉ piece.leaves := by
  induction piece using Inline.induct with
  | hplain text => exact fun h => nomatch List.mem_singleton.mp h
  | hstrong inside ih =>
      intro h
      rw [Inline.leaves, leavesOf_eq] at h
      obtain ⟨piece, hpiece, hleaf⟩ := List.mem_flatMap.mp h
      exact ih piece hpiece hleaf
  | hcode text => exact fun h => nomatch List.mem_singleton.mp h
  | hlink label target => exact fun h => nomatch List.mem_singleton.mp h
  | hbare token => exact fun h => nomatch List.mem_singleton.mp h

/-- A bare token is an address or an `@name`. -/
theorem bare_of_mem_leaves {text token : List Char}
    (h : .bare token ∈ leavesOf (readInline text)) :
    isAddress token = true ∨
      ∃ name, token = '@' :: name ∧ ∀ c ∈ name, isAliasChar c = true := by
  induction text using text_induct with
  | h text ih =>
      rw [leavesOf_eq, readInline_eq, List.flatMap_map] at h
      obtain ⟨piece, hpiece, hleaf⟩ := List.mem_flatMap.mp h
      cases piece with
      | between between => cases List.mem_singleton.mp hleaf
      | found value =>
          cases token_of_mem_pieces hpiece with
          | strong hne =>
              have hcontent := ih _ hpiece
              rw [inner_strong] at hcontent
              rw [readPiece_strong] at hleaf
              exact hcontent hleaf
          | code hne hall =>
              rw [readPiece_code] at hleaf
              cases List.mem_singleton.mp hleaf
          | link hlabel hlabelAll htarget htargetAll =>
              rw [readPiece_link hlabel hlabelAll htarget htargetAll] at hleaf
              cases List.mem_singleton.mp hleaf
          | address haddress =>
              rw [readPiece_address haddress] at hleaf
              cases List.mem_singleton.mp hleaf
              exact .inl haddress
          | mention hne hall =>
              rw [readPiece_mention] at hleaf
              cases List.mem_singleton.mp hleaf
              exact .inr ⟨_, rfl, hall⟩

theorem isAddress_at (name : List Char) : isAddress ('@' :: name) = false := by
  rw [Bool.eq_false_iff]
  intro h
  obtain ⟨c, rest, heq, hc⟩ := isAddress_head h
  obtain ⟨rfl, -⟩ := List.cons.inj heq
  exact hc (by decide)

theorem isMention_of_isAddress {token : List Char} (h : isAddress token = true) :
    isMention mentions token = false := by
  obtain ⟨c, rest, rfl, hc⟩ := isAddress_head h
  have hne : c ≠ '@' := by
    rintro rfl
    exact hc (by decide)
  simp [isMention, hne]

theorem isAliasChar_plain {c : Char} (h : isAliasChar c = true) :
    Url.isControlOrSpace c = false ∧ c ≠ '?' ∧ c ≠ '#' := by
  have hne (d : Char) (hd : isAliasChar d = false) : c ≠ d := by
    rintro rfl
    rw [h] at hd
    cases hd
  refine ⟨?_, hne '?' (by decide), hne '#' (by decide)⟩
  have hcode : 0x1f < c.toNat := by
    simp only [isAliasChar, Text.isLower, Text.isUpper, Text.isDigit, Bool.or_eq_true,
      Bool.and_eq_true, decide_eq_true_eq, beq_iff_eq] at h
    rcases h with ((h | h) | h) | rfl
    · exact lt_of_lt_of_le (by decide) h.1
    · exact lt_of_lt_of_le (by decide) h.1
    · exact lt_of_lt_of_le (by decide) h.1
    · decide
  simp [Url.isControlOrSpace, Url.isControl, hne ' ' (by decide), hcode]

/-- At a web page every `@name` has a safe address. -/
theorem isSafeHref_at (hpage : page.isWeb = true) {name : List Char}
    (hname : ∀ c ∈ name, isAliasChar c = true) : isSafeHref page ('@' :: name) = true := by
  obtain ⟨base, hbase, hhttp⟩ : ∃ base, Url.parse page.hosts none page.href = some base ∧
      base.isHttp = true := by
    cases hparse : Url.parse page.hosts none page.href with
    | none =>
        rw [Page.isWeb, hparse] at hpage
        cases hpage
    | some base =>
        rw [Page.isWeb, hparse] at hpage
        exact ⟨base, rfl, hpage⟩
  have hplain : ∀ c ∈ '@' :: name, Url.isControlOrSpace c = false ∧ c ≠ '?' ∧ c ≠ '#' := by
    intro c hc
    rcases List.mem_cons.mp hc with rfl | hc
    · decide
    · exact isAliasChar_plain (hname c hc)
  obtain ⟨url, hurl, hscheme⟩ := Url.parse_relative_of_plain
    (Url.isWebUrl_of_parse hbase hhttp) (fun c hc => (hplain c hc).1)
    (fun hmem => (hplain _ hmem).2.1 rfl) (fun hmem => (hplain _ hmem).2.2 rfl)
    (by decide) (by decide)
  have hresolve : Url.resolve page.hosts ('@' :: name) page.href = some url := by
    rw [Url.resolve, hbase, Option.bind_some, hurl]
  rw [isSafeHref, hresolve]
  dsimp only
  rw [hscheme, List.any_eq_true]
  rcases (Url.isHttp_iff base).mp hhttp with h | h
  · exact ⟨"http", by decide, beq_iff_eq.mpr h⟩
  · exact ⟨"https", by decide, beq_iff_eq.mpr h⟩

/-! ## The anchors of a text -/

/-- The anchors of a piece are those of its leaves. -/
theorem elementsOf_render (piece : Inline) :
    elementsOf "a" (piece.render page mentions) =
      piece.leaves.flatMap fun leaf => elementsOf "a" (leaf.render page mentions) := by
  induction piece using Inline.induct with
  | hplain text => rw [Inline.leaves, List.flatMap_singleton]
  | hstrong content ih =>
      rw [Inline.render, elementsOf_element, if_neg (by decide), List.nil_append, renderOf_eq,
        elementsOf_flatMap, Inline.leaves, leavesOf_eq, List.flatMap_assoc]
      exact List.flatMap_congr ih
  | hcode text => rw [Inline.leaves, List.flatMap_singleton]
  | hlink label target => rw [Inline.leaves, List.flatMap_singleton]
  | hbare token => rw [Inline.leaves, List.flatMap_singleton]

theorem elementsOf_inlineNodes (text : List Char) :
    elementsOf "a" (inlineNodes page mentions text) =
      (leavesOf (readInline text)).flatMap fun leaf =>
        elementsOf "a" (leaf.render page mentions) := by
  rw [inlineNodes_eq_renderOf, renderOf_eq, elementsOf_flatMap, leavesOf_eq, List.flatMap_assoc]
  exact List.flatMap_congr fun piece _ => elementsOf_render page mentions piece

/-- Where each part of one list is within the part of the other, the lists are within each other
only if the parts are the same. -/
theorem flatMap_sublist_iff {α β : Type} {f g : α → List β} {l : List α}
    (h : ∀ a ∈ l, (g a).Sublist (f a)) :
    (l.flatMap f).Sublist (l.flatMap g) ↔ ∀ a ∈ l, f a = g a := by
  constructor
  · induction l with
    | nil => exact fun _ a ha => nomatch ha
    | cons a l ih =>
        intro hsub
        have hhere := h a List.mem_cons_self
        have hrest := (List.Sublist.flatMap_right l
          fun b hb => h b (List.mem_cons_of_mem a hb)).length_le
        rw [List.flatMap_cons, List.flatMap_cons] at hsub
        have hlength := hsub.length_le
        rw [List.length_append, List.length_append] at hlength
        have hsame : g a = f a := hhere.eq_of_length_le (by omega)
        rw [hsame, List.append_sublist_append_left] at hsub
        intro b hb
        rcases List.mem_cons.mp hb with rfl | hb
        · exact hsame.symm
        · exact ih (fun c hc => h c (List.mem_cons_of_mem a hc)) hsub b hb
  · intro hall
    rw [List.flatMap_congr hall]

theorem elementsOf_bare (token : List Char) :
    elementsOf "a" ((Inline.bare token).render page mentions) =
      if isMention mentions token = false ∧ isSafeHref page token = true then
        elementsOf "a" [anchor token token]
      else [] := by
  rw [Inline.render]
  cases isMention mentions token with
  | true =>
      rw [if_pos rfl, if_neg (by simp), elementsOf_element, if_neg (by decide),
        elementsOf_textNodes, List.nil_append]
  | false =>
      cases isSafeHref page token with
      | true => rfl
      | false => exact elementsOf_textNodes "a" token

/-- What a leaf may become is what it becomes, but for the `@names` that are no known aliases. -/
theorem linkAnchors_leaf (hpage : page.isWeb = true) {text : List Char} {leaf : Inline}
    (hleaf : leaf ∈ leavesOf (readInline text)) :
    (linkAnchors page leaf).Sublist (elementsOf "a" (leaf.render page mentions)) ∧
      (elementsOf "a" (leaf.render page mentions) = linkAnchors page leaf ↔
        ∀ name, leaf = .bare ('@' :: name) → isMention mentions ('@' :: name) = true) := by
  -- Only a bare token can be an `@name`.
  have hsame (h : elementsOf "a" (leaf.render page mentions) = linkAnchors page leaf)
      (hbare : ∀ token, leaf ≠ .bare token) :
      (linkAnchors page leaf).Sublist (elementsOf "a" (leaf.render page mentions)) ∧
        (elementsOf "a" (leaf.render page mentions) = linkAnchors page leaf ↔
          ∀ name, leaf = .bare ('@' :: name) → isMention mentions ('@' :: name) = true) :=
    ⟨h ▸ List.Sublist.refl _, fun _ name hname => absurd hname (hbare _), fun _ => h⟩
  cases leaf with
  | plain text => exact hsame (elementsOf_textNodes "a" text) fun token h => (by cases h)
  | strong content =>
      rw [leavesOf_eq] at hleaf
      obtain ⟨piece, -, hpiece⟩ := List.mem_flatMap.mp hleaf
      exact absurd hpiece (strong_not_mem_leaves content piece)
  | code text =>
      refine hsame ?_ fun token h => (by cases h)
      rw [Inline.render, elementsOf_element, if_neg (by decide), elementsOf_textNodes]
      rfl
  | link label target =>
      refine hsame ?_ fun token h => (by cases h)
      rw [Inline.render, linkAnchors]
      split
      · rfl
      · exact elementsOf_textNodes "a" label
  | bare token =>
      rcases bare_of_mem_leaves hleaf with haddress | ⟨name, rfl, hname⟩
      · have hequal : elementsOf "a" ((Inline.bare token).render page mentions) =
            linkAnchors page (.bare token) := by
          rw [elementsOf_bare, linkAnchors, haddress, isMention_of_isAddress mentions haddress]
          simp only [true_and, Bool.true_and]
        refine ⟨hequal ▸ List.Sublist.refl _, fun _ name heq => ?_, fun _ => hequal⟩
        cases heq
        rw [isAddress_at] at haddress
        cases haddress
      · have hnone : linkAnchors page (.bare ('@' :: name)) = [] := by
          rw [linkAnchors, isAddress_at, Bool.false_and, if_neg Bool.false_ne_true]
        rw [hnone, elementsOf_bare, isSafeHref_at page hpage hname]
        refine ⟨List.nil_sublist _, fun hnil other heq => ?_, fun hknown => ?_⟩
        · cases heq
          by_contra hunknown
          rw [if_pos ⟨(Bool.not_eq_true _).mp hunknown, rfl⟩] at hnil
          cases hnil
        · rw [if_neg]
          rintro ⟨hunknown, -⟩
          rw [hknown name rfl] at hunknown
          cases hunknown

/-- At a web page, anchors come from links alone exactly when every `@name` of the text is a known
alias. -/
theorem onlyLinks_iff (hpage : page.isWeb = true) (text : List Char) :
    OnlyLinks page mentions text ↔
      ∀ name, .bare ('@' :: name) ∈ leavesOf (readInline text) →
        isMention mentions ('@' :: name) = true := by
  have hanchors : (elementsOf "a" (inlineNodes page mentions text)).Sublist
      ((leavesOf (readInline text)).flatMap (linkAnchors page)) ↔
        ∀ name, .bare ('@' :: name) ∈ leavesOf (readInline text) →
          isMention mentions ('@' :: name) = true := by
    rw [elementsOf_inlineNodes, flatMap_sublist_iff fun leaf hleaf =>
      (linkAnchors_leaf page mentions hpage hleaf).1]
    constructor
    · intro hsame name hname
      exact (linkAnchors_leaf page mentions hpage hname).2.mp (hsame _ hname) name rfl
    · intro hknown leaf hleaf
      refine (linkAnchors_leaf page mentions hpage hleaf).2.mpr ?_
      rintro name rfl
      exact hknown name hleaf
  rw [OnlyLinks, hanchors]
  constructor
  · exact fun h => h.1
  · refine fun h => ⟨h, fun name hname hunknown => ?_⟩
    rw [h name hname] at hunknown
    cases hunknown

/-- A page of a room, with a clipboard. -/
def roomPage : Page := ⟨HostParser.plain, "http://room.example/r/demo".toList, true⟩

theorem onlyLinks_iff_known : roomPage.isWeb = true ∧
    (OnlyLinks roomPage (some ["bob".toList]) "ask @bob".toList ↔
      ∀ name, .bare ('@' :: name) ∈ leavesOf (readInline "ask @bob".toList) →
        isMention (some ["bob".toList]) ('@' :: name) = true) :=
  ⟨by decide +kernel, onlyLinks_iff roomPage (some ["bob".toList]) (by decide +kernel) _⟩

/-- The name in an address becomes an anchor. -/
theorem onlyLinks_fails :
    roomPage.isWeb = true ∧ ¬ OnlyLinks roomPage (some ["bob".toList]) "ann@host".toList := by
  refine ⟨by decide +kernel, fun h => ?_⟩
  have hlength := h.1.length_le
  revert hlength
  decide +kernel

end AgentGather.Browser
