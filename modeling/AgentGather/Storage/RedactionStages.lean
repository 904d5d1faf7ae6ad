import AgentGather.Storage.Credentials

/-!
# The stages of the redaction

The four replacements one after the other, what is left of a credential after each, and how
each treats the parts of a text: a part keeps its matches when what follows it is cut off, or
when something follows with which no match can go on.
-/

namespace AgentGather.Storage

open AgentGather.Library AgentGather.Library.Regex

/-! ## Which text a match is -/

theorem run_unique {p : Char → Bool} {run run' rest rest' : List Char}
    (hrun : ∀ c ∈ run, p c = true) (hrun' : ∀ c ∈ run', p c = true)
    (hrest : ∀ c ∈ rest.head?, p c = false) (hrest' : ∀ c ∈ rest'.head?, p c = false)
    (h : run ++ rest = run' ++ rest') : run = run' := by
  have htake {run rest : List Char} (hrun : ∀ c ∈ run, p c = true)
      (hrest : ∀ c ∈ rest.head?, p c = false) : (run ++ rest).takeWhile p = run := by
    rw [List.takeWhile_append_of_pos hrun]
    cases rest with
    | nil => rw [List.takeWhile_nil, List.append_nil]
    | cons c rest => rw [List.takeWhile_cons_of_neg (by simp [hrest c rfl]), List.append_nil]
  rw [← htake hrun hrest, h, htake hrun' hrest']

/-- Of two texts at the start of one, the same in lower case, or neither a part of the other. -/
theorem lowers_unique {t t' : String} {s s' x x' : List Char} (h : Lowers t s)
    (h' : Lowers t' s') (hdiffer : t = t' ∨ ¬ t.toList <+: t'.toList ∧ ¬ t'.toList <+: t.toList)
    (heq : s ++ x = s' ++ x') : t = t' ∧ s = s' ∧ x = x' := by
  have hlower {u v : List Char} (hp : u <+: v) : u.map Char.toLower <+: v.map Char.toLower :=
    hp.map _
  rcases hdiffer with rfl | ⟨hno, hno'⟩
  · have hlength : s.length = s'.length := by
      rw [← List.length_map (f := Char.toLower), h, ← h', List.length_map]
    exact ⟨rfl, List.append_inj heq hlength⟩
  · rcases List.append_eq_append_iff.mp heq with ⟨u, hs', -⟩ | ⟨u, hs, -⟩
    · have hpart := hlower (hs' ▸ List.prefix_append s u)
      rw [h, h'] at hpart
      exact absurd hpart hno
    · have hpart := hlower (hs ▸ List.prefix_append s' u)
      rw [h, h'] at hpart
      exact absurd hpart hno'

theorem IsMarker.all {mark : List Char} {p : Char → Bool} (h : IsMarker mark)
    (hp : ∀ n < 128, p (Char.ofNat n).toLower = p (Char.ofNat n))
    (hall : "token=snapshot".toList.all p = true) : ∀ c ∈ mark, p c = true := by
  obtain ⟨word, rfl, hword⟩ := h
  rw [show "token=snapshot".toList = "token".toList ++ '=' :: "snapshot".toList by decide,
    List.all_append, List.all_cons, Bool.and_eq_true, Bool.and_eq_true] at hall
  intro c hc
  rcases List.mem_append.mp hc with hc | hc
  · rcases hword with hword | hword
    · exact hword.all hp hall.1 c hc
    · exact hword.all hp hall.2.2 c hc
  · rw [List.mem_singleton.mp hc]
    exact hall.2.1

set_option maxRecDepth 2000 in
theorem IsMarker.isParameterChar {mark : List Char} (h : IsMarker mark) :
    ∀ c ∈ mark, isParameterChar c = true := h.all (by decide) (by decide)

theorem IsMarker.isParameterStart {mark : List Char} (h : IsMarker mark) :
    ∀ c ∈ mark, isParameterStart c = false := by
  have hall := h.all (p := fun c => !AgentGather.Storage.isParameterStart c) (by decide)
    (by decide)
  exact fun c hc => by simpa using hall c hc

theorem IsMarker.unique {mark mark' x x' : List Char} (h : IsMarker mark) (h' : IsMarker mark')
    (heq : mark ++ x = mark' ++ x') : mark = mark' := by
  obtain ⟨word, rfl, hword⟩ := h
  obtain ⟨word', rfl, hword'⟩ := h'
  rw [List.append_assoc, List.append_assoc] at heq
  rcases hword with hword | hword
  · rcases hword' with hword' | hword'
    · rw [(lowers_unique hword hword' (.inl rfl) heq).2.1]
    · exact absurd (lowers_unique hword hword' (.inr (by decide)) heq).1 (by decide)
  · rcases hword' with hword' | hword'
    · exact absurd (lowers_unique hword hword' (.inr (by decide)) heq).1 (by decide)
    · rw [(lowers_unique hword hword' (.inl rfl) heq).2.1]

/-- What stands before the name of a parameter. -/
def IsStart (start : List Char) : Prop :=
  start = [] ∨ ∃ d, start = [d] ∧ isParameterStart d = true

theorem IsStart.unique {start start' mark mark' x x' : List Char} (h : IsStart start)
    (h' : IsStart start') (hmark : IsMarker mark) (hmark' : IsMarker mark')
    (heq : start ++ (mark ++ x) = start' ++ (mark' ++ x')) : start = start' := by
  have hno {mark x y : List Char} {d : Char} (hmark : IsMarker mark)
      (hd : isParameterStart d = true) : mark ++ x ≠ [d] ++ y := by
    intro heq
    obtain ⟨c, tail, rfl⟩ := List.exists_cons_of_ne_nil hmark.isForeign.ne_nil
    obtain ⟨rfl, -⟩ := List.cons.inj heq
    rw [hmark.isParameterStart c List.mem_cons_self] at hd
    cases hd
  rcases h with rfl | ⟨d, rfl, hd⟩
  · rcases h' with rfl | ⟨d', rfl, hd'⟩
    · rfl
    · exact (hno hmark hd' heq).elim
  · rcases h' with rfl | ⟨d', rfl, hd'⟩
    · exact (hno hmark' hd heq.symm).elim
    · rw [(List.cons.inj heq).1]

/-- The match that begins here, told by its parts. -/
theorem token_hit_of {start mark run rest : List Char} (hstart : IsStart start)
    (hmark : IsMarker mark) (hne : run ≠ []) (hrun : ∀ c ∈ run, isParameterChar c = true)
    (hrest : ∀ c ∈ rest.head?, isParameterChar c = false) :
    tokenParameterPattern.hit (start ++ (mark ++ run) ++ rest) =
      some (start ++ (mark ++ run), rest) := by
  apply hit_eq_of_unique
  · intro hnone
    obtain ⟨hhere, hnext⟩ := token_hit_eq_none_iff.mp hnone
    obtain ⟨c, run, rfl⟩ := List.exists_cons_of_ne_nil hne
    have hat : TokenAt (mark ++ (c :: run) ++ rest) :=
      ⟨mark, c, run ++ rest, by simp, hmark, hrun c List.mem_cons_self⟩
    rcases hstart with rfl | ⟨d, rfl, hd⟩
    · exact hhere hat
    · exact hnext d _ rfl hd hat
  · intro now rest' htext hhit
    obtain ⟨⟨start', mark', run', rfl, hstart', hmark', -, hrun'⟩, hrest'⟩ := token_hit hhit
    simp only [List.append_assoc] at htext
    obtain rfl := IsStart.unique hstart hstart' hmark hmark' htext
    have htail := List.append_cancel_left htext
    obtain rfl := hmark.unique hmark' htail
    rw [run_unique hrun hrun' hrest hrest' (List.append_cancel_left htail)]

theorem link_hit_of {run rest : List Char} (hne : run ≠ [])
    (hrun : ∀ c ∈ run, isLinkChar c = true) (hrest : ∀ c ∈ rest.head?, isLinkChar c = false) :
    linkTokenPattern.hit ("tgl_".toList ++ run ++ rest) = some ("tgl_".toList ++ run, rest) := by
  apply hit_eq_of_unique
  · obtain ⟨c, run, rfl⟩ := List.exists_cons_of_ne_nil hne
    refine fun hnone => link_hit_eq_none_iff.mp hnone ⟨c, run ++ rest, ?_, ?_⟩
    · rw [List.append_assoc]
      rfl
    · exact hrun c List.mem_cons_self
  · intro now rest' htext hhit
    obtain ⟨⟨run', rfl, -, hrun'⟩, hrest'⟩ := link_hit hhit
    rw [List.append_assoc, List.append_assoc] at htext
    rw [run_unique hrun hrun' hrest hrest' (List.append_cancel_left htext)]

theorem url_hit_of {scheme v mark run rest : List Char} (hscheme : IsScheme scheme)
    (hmark : IsUrlMark mark) (hv : ∀ c ∈ v, Text.isSpace c = false)
    (hrun : ∀ c ∈ run, Text.isSpace c = false)
    (hrest : ∀ c ∈ rest.head?, Text.isSpace c = true) :
    credentialUrlPattern.hit (scheme ++ (v ++ (mark ++ run)) ++ rest) =
      some (scheme ++ (v ++ (mark ++ run)), rest) := by
  have hword : ∀ c ∈ v ++ (mark ++ run), (!Text.isSpace c) = true := by
    intro c hc
    rw [Bool.not_eq_true']
    rcases List.mem_append.mp hc with hc | hc
    · exact hv c hc
    · rcases List.mem_append.mp hc with hc | hc
      · exact hmark.isSpace c hc
      · exact hrun c hc
  apply hit_eq_of_unique
  · refine fun hnone => url_hit_eq_none_iff.mp hnone ⟨scheme, v, mark, run ++ rest, ?_⟩
    exact ⟨by simp, hscheme, hv, hmark⟩
  · intro now rest' htext hhit
    obtain ⟨scheme', run', rfl, hscheme', -, hrun', -⟩ :=
      denotes_credentialUrl_iff.mp (hit_eq_some hhit).2
    have hrest' := (url_hit hhit).2.2
    rw [List.append_assoc, List.append_assoc scheme'] at htext
    have hsame : scheme = scheme' := by
      rcases hscheme with h | h
      · rcases hscheme' with h' | h'
        · exact (lowers_unique h h' (.inl rfl) htext).2.1
        · exact absurd (lowers_unique h h' (.inr (by decide)) htext).1 (by decide)
      · rcases hscheme' with h' | h'
        · exact absurd (lowers_unique h h' (.inr (by decide)) htext).1 (by decide)
        · exact (lowers_unique h h' (.inl rfl) htext).2.1
    subst hsame
    have hstops {rest : List Char} (h : ∀ c ∈ rest.head?, Text.isSpace c = true) :
        ∀ c ∈ rest.head?, (!Text.isSpace c) = false := fun c hc => by rw [h c hc]; rfl
    rw [run_unique hword (fun c hc => by rw [hrun' c hc]; rfl) (hstops hrest) (hstops hrest')
      (List.append_cancel_left htext)]

theorem bearer_hit_of {word spaces run rest : List Char} (hword : Lowers "bearer" word)
    (hne : spaces ≠ []) (hspaces : ∀ c ∈ spaces, Text.isSpace c = true) (hne' : run ≠ [])
    (hrun : ∀ c ∈ run, Text.isSpace c = false)
    (hrest : ∀ c ∈ rest.head?, Text.isSpace c = true) :
    bearerPattern.hit (word ++ (spaces ++ run) ++ rest) =
      some (word ++ (spaces ++ run), rest) := by
  have hhead {run rest : List Char} (hne : run ≠ []) (h : ∀ c ∈ run, Text.isSpace c = false) :
      ∀ c ∈ (run ++ rest).head?, Text.isSpace c = false := by
    obtain ⟨c, run, rfl⟩ := List.exists_cons_of_ne_nil hne
    intro d hd
    obtain rfl : c = d := Option.some.inj hd
    exact h c List.mem_cons_self
  apply hit_eq_of_unique
  · obtain ⟨c, run, rfl⟩ := List.exists_cons_of_ne_nil hne'
    refine fun hnone => bearer_hit_eq_none_iff.mp hnone ⟨word, spaces, c, run ++ rest, ?_⟩
    exact ⟨by simp, hword, hne, hspaces, hrun c List.mem_cons_self⟩
  · intro now rest' htext hhit
    obtain ⟨⟨word', spaces', run', rfl, hword', -, hspaces', hne'', hrun'⟩, hrest'⟩ :=
      bearer_hit hhit
    simp only [List.append_assoc] at htext
    obtain ⟨-, rfl, htail⟩ := lowers_unique hword hword' (.inl rfl) htext
    obtain rfl := run_unique hspaces hspaces' (hhead hne' hrun) (hhead hne'' hrun') htail
    have hstops {rest : List Char} (h : ∀ c ∈ rest.head?, Text.isSpace c = true) :
        ∀ c ∈ rest.head?, (!Text.isSpace c) = false := fun c hc => by rw [h c hc]; rfl
    rw [run_unique (p := fun c => !Text.isSpace c) (fun c hc => by rw [hrun c hc]; rfl)
      (fun c hc => by rw [hrun' c hc]; rfl) (hstops hrest) (hstops hrest')
      (List.append_cancel_left htail)]

/-! ## Parts of a text -/

theorem tokenAt_append {x : List Char} (y : List Char) (h : TokenAt x) : TokenAt (x ++ y) := by
  obtain ⟨mark, c, rest, rfl, hmark, hc⟩ := h
  exact ⟨mark, c, rest ++ y, by simp, hmark, hc⟩

theorem linkAt_append {x : List Char} (y : List Char) (h : LinkAt x) : LinkAt (x ++ y) := by
  obtain ⟨c, rest, rfl, hc⟩ := h
  exact ⟨c, rest ++ y, by simp, hc⟩

theorem urlAt_append {x : List Char} (y : List Char) (h : UrlAt x) : UrlAt (x ++ y) := by
  obtain ⟨scheme, v, mark, rest, rfl, hscheme, hv, hmark⟩ := h
  exact ⟨scheme, v, mark, rest ++ y, by simp, hscheme, hv, hmark⟩

theorem bearerAt_append {x : List Char} (y : List Char) (h : BearerAt x) :
    BearerAt (x ++ y) := by
  obtain ⟨word, spaces, c, rest, rfl, hword, hne, hspaces, hc⟩ := h
  exact ⟨word, spaces, c, rest ++ y, by simp, hword, hne, hspaces, hc⟩

section Parts

variable {w p o y : List Char}

/-- The first character of what is left when the rest is cut off. -/
theorem head?_of_append {x : List Char} {q : Char → Prop} (h : ∀ c ∈ (x ++ y).head?, q c) :
    ∀ c ∈ x.head?, q c := by
  cases x with
  | nil => exact fun c hc => nomatch hc
  | cons c x => exact h

theorem rewritten_of_token (h : Rewrites tokenParameterPattern w y p o) :
    Rewritten tokenParameterPattern w p o := by
  refine h.change (fun x hx _ hnone => ?_) (fun now x _ hhit => ?_)
  · rw [List.append_nil]
    obtain ⟨hhere, hnext⟩ := token_hit_eq_none_iff.mp hnone
    refine token_hit_eq_none_iff.mpr ⟨fun hat => hhere (tokenAt_append y hat), ?_⟩
    rintro d s' rfl hd hat
    exact hnext d (s' ++ y) rfl hd (tokenAt_append y hat)
  · rw [List.append_nil]
    obtain ⟨⟨start, mark, run, rfl, hstart, hmark, hne, hrun⟩, hrest⟩ := token_hit hhit
    exact token_hit_of hstart hmark hne hrun (head?_of_append hrest)

theorem rewritten_of_link (h : Rewrites linkTokenPattern w y p o) :
    Rewritten linkTokenPattern w p o := by
  refine h.change (fun x hx _ hnone => ?_) (fun now x _ hhit => ?_)
  · rw [List.append_nil]
    exact link_hit_eq_none_iff.mpr fun hat =>
      link_hit_eq_none_iff.mp hnone (linkAt_append y hat)
  · rw [List.append_nil]
    obtain ⟨⟨run, rfl, hne, hrun⟩, hrest⟩ := link_hit hhit
    exact link_hit_of hne hrun (head?_of_append hrest)

theorem head?_append_of_neg {q : Char → Bool} {x : List Char} {d : Char}
    (h : ∀ c ∈ x.head?, q c = false) (hd : q d = false) :
    ∀ c ∈ (x ++ d :: y).head?, q c = false := by
  cases x with
  | nil =>
      intro c hc
      obtain rfl : d = c := Option.some.inj hc
      exact hd
  | cons c x => exact h

/-- No parameter goes through a character that is not in one. -/
theorem tokenAt_of_append {x : List Char} {d : Char} (hd : isParameterChar d = false)
    (h : TokenAt (x ++ d :: y)) : TokenAt x := by
  obtain ⟨mark, c, rest, heq, hmark, hc⟩ := h
  have hnot : d ∉ mark := fun hmem => by
    rw [hmark.isParameterChar d hmem] at hd
    cases hd
  obtain ⟨u, rfl, hu⟩ := Text.eq_append_of_not_mem hnot heq.symm
  cases u with
  | nil =>
      obtain ⟨rfl, -⟩ := List.cons.inj hu
      rw [hc] at hd
      cases hd
  | cons e u =>
      obtain ⟨rfl, -⟩ := List.cons.inj hu
      exact ⟨mark, c, u, rfl, hmark, hc⟩

theorem rewrites_token_of_stop {d : Char} (hd : isParameterChar d = false)
    (h : Rewritten tokenParameterPattern w p o) :
    Rewrites tokenParameterPattern w (d :: y) p o := by
  refine h.change (fun x hx _ hnone => ?_) (fun now x _ hhit => ?_)
  · rw [List.append_nil] at hnone
    obtain ⟨hhere, hnext⟩ := token_hit_eq_none_iff.mp hnone
    refine token_hit_eq_none_iff.mpr ⟨fun hat => hhere (tokenAt_of_append hd hat), ?_⟩
    intro e s' heq he hat
    obtain ⟨c, x, rfl⟩ := List.exists_cons_of_ne_nil hx
    obtain ⟨rfl, rfl⟩ := List.cons.inj heq
    exact hnext c x rfl he (tokenAt_of_append hd hat)
  · rw [List.append_nil] at hhit
    obtain ⟨⟨start, mark, run, rfl, hstart, hmark, hne, hrun⟩, hrest⟩ := token_hit hhit
    exact token_hit_of hstart hmark hne hrun (head?_append_of_neg hrest hd)

theorem linkAt_of_append {x : List Char} {d : Char} (hd : isLinkChar d = false)
    (h : LinkAt (x ++ d :: y)) : LinkAt x := by
  obtain ⟨c, rest, heq, hc⟩ := h
  have hnot : d ∉ "tgl_".toList := fun hmem => by
    have hall : ∀ e ∈ "tgl_".toList, isLinkChar e = true :=
      List.all_iff_forall_prop.mp (by decide)
    rw [hall d hmem] at hd
    cases hd
  obtain ⟨u, rfl, hu⟩ := Text.eq_append_of_not_mem hnot heq.symm
  cases u with
  | nil =>
      obtain ⟨rfl, -⟩ := List.cons.inj hu
      rw [hc] at hd
      cases hd
  | cons e u =>
      obtain ⟨rfl, -⟩ := List.cons.inj hu
      exact ⟨c, u, rfl, hc⟩

theorem rewrites_link_of_stop {d : Char} (hd : isLinkChar d = false)
    (h : Rewritten linkTokenPattern w p o) : Rewrites linkTokenPattern w (d :: y) p o := by
  refine h.change (fun x hx _ hnone => ?_) (fun now x _ hhit => ?_)
  · rw [List.append_nil] at hnone
    exact link_hit_eq_none_iff.mpr fun hat =>
      link_hit_eq_none_iff.mp hnone (linkAt_of_append hd hat)
  · rw [List.append_nil] at hhit
    obtain ⟨⟨run, rfl, hne, hrun⟩, hrest⟩ := link_hit hhit
    exact link_hit_of hne hrun (head?_append_of_neg hrest hd)

end Parts

/-! ## Fragments of the result -/

section Fragments

variable {r : Regex Char} {w z text a b lit : List Char}

theorem IsReplacement.mem (hw : IsReplacement w) : '[' ∈ w := by
  obtain ⟨tail, rfl⟩ := hw.cons
  exact List.mem_cons_self

theorem IsReplacement.closing_mem {w₁ w₂ : List Char} (hw : IsReplacement (w₁ ++ w₂))
    (hne : w₂ ≠ []) : ']' ∈ w₂ := by
  obtain ⟨name, -, heq⟩ := hw
  have hlast : (w₁ ++ w₂).getLast (by simp [hne]) = ']' := by simp [heq]
  rw [List.getLast_append_of_ne_nil _ hne] at hlast
  exact hlast ▸ List.getLast_mem hne

theorem IsReplacement.opening_mem {w₁ w₂ : List Char} (hw : IsReplacement (w₁ ++ w₂))
    (hne : w₁ ≠ []) : '[' ∈ w₁ := by
  obtain ⟨name, -, heq⟩ := hw
  obtain ⟨c, w₁, rfl⟩ := List.exists_cons_of_ne_nil hne
  rw [← (List.cons.inj heq).1]
  exact List.mem_cons_self

theorem IsForeign.not_subset (hlit : IsForeign lit) (hw : IsReplacement w) : ¬ lit ⊆ w := by
  intro hsub
  obtain ⟨name, hname, rfl⟩ := hw
  obtain ⟨d, hd, hnot⟩ := hlit.key name hname
  rcases List.mem_cons.mp (hsub hd) with rfl | hmem
  · exact hlit.opening hd
  · rcases List.mem_append.mp hmem with hmem | hmem
    · exact hnot hmem
    · exact hlit.closing (List.mem_singleton.mp hmem ▸ hd)

/-- A foreign fragment in the result was copied. -/
theorem split_foreign (hw : IsReplacement w) (hlit : IsForeign lit)
    (h : Rewrites r w z text ((a ++ lit) ++ b)) :
    ∃ p y, text = (p ++ lit) ++ y ∧ Rewrites r w (lit ++ (y ++ z)) p a ∧
      Rewrites r w (y ++ z) lit lit ∧ Rewrites r w z y b := by
  rcases h.split with ⟨q, y, rfl, hq, hy⟩ | ⟨w₁, w₂, rfl, h₁, -, hsuffix, -⟩
  · rcases hq.split with ⟨p, m, rfl, hp, hm⟩ | ⟨w₁, w₂, rfl, -, h₂, -, hfront⟩
    · obtain rfl := hm.eq_of_disjoint hw.mem hlit.opening
      exact ⟨p, y, rfl, hp, hm, hy⟩
    · exact absurd (hfront.subset (hw.closing_mem h₂)) hlit.closing
  · rcases List.suffix_or_suffix_of_suffix hsuffix (List.suffix_append a lit) with hin | hin
    · exact absurd (hin.subset (hw.opening_mem h₁)) hlit.opening
    · exact absurd (List.Subset.trans hin.subset (List.subset_append_left w₁ w₂))
        (hlit.not_subset hw)

end Fragments

/-! ## The stages -/

section Stages

def redactUrls (text : List Char) : List Char :=
  credentialUrlPattern.replaceAll (fun _ => "[redacted-url]".toList) text

def redactBearers (text : List Char) : List Char :=
  bearerPattern.replaceAll (fun _ => "[redacted-credential]".toList) text

def redactParameters (text : List Char) : List Char :=
  tokenParameterPattern.replaceAll (fun _ => "[redacted-token]".toList) text

def redactLinks (text : List Char) : List Char :=
  linkTokenPattern.replaceAll (fun _ => "[redacted-token]".toList) text

theorem redactCredentials_eq (text : List Char) : redactCredentials text =
    redactLinks (redactParameters (redactBearers (redactUrls text))) := rfl

theorem rewritten_redactUrls (text : List Char) :
    Rewritten credentialUrlPattern "[redacted-url]".toList text (redactUrls text) :=
  rewritten_replaceAll replaceable_url _ text

theorem rewritten_redactBearers (text : List Char) :
    Rewritten bearerPattern "[redacted-credential]".toList text (redactBearers text) :=
  rewritten_replaceAll replaceable_bearer _ text

theorem rewritten_redactParameters (text : List Char) :
    Rewritten tokenParameterPattern "[redacted-token]".toList text (redactParameters text) :=
  rewritten_replaceAll replaceable_token _ text

theorem rewritten_redactLinks (text : List Char) :
    Rewritten linkTokenPattern "[redacted-token]".toList text (redactLinks text) :=
  rewritten_replaceAll replaceable_link _ text

/-! ### No URL is left -/

theorem absent_urlAt_redactUrls (text : List Char) : Absent UrlAt (redactUrls text) :=
  (rewritten_redactUrls text).absent (collapses_url_urlAt isReplacement_url) not_urlAt_nil
    (fun _ _ => not_urlAt_in isReplacement_url)
    fun _ _ _ => url_hit_eq_none_iff.mp

theorem absent_urlAt_redactBearers {text : List Char} (h : Absent UrlAt text) :
    Absent UrlAt (redactBearers text) :=
  (rewritten_redactBearers text).absent (collapses_bearer_urlAt isReplacement_credential)
    not_urlAt_nil (fun _ _ => not_urlAt_in isReplacement_credential) fun v _ hv _ => h v hv

theorem absent_urlAt_redactParameters {text : List Char} (h : Absent UrlAt text) :
    Absent UrlAt (redactParameters text) :=
  (rewritten_redactParameters text).absent (collapses_token_urlAt isReplacement_token)
    not_urlAt_nil (fun _ _ => not_urlAt_in isReplacement_token) fun v _ hv _ => h v hv

theorem absent_urlAt_redactLinks {text : List Char} (h : Absent UrlAt text) :
    Absent UrlAt (redactLinks text) :=
  (rewritten_redactLinks text).absent (collapses_link_urlAt isReplacement_token)
    not_urlAt_nil (fun _ _ => not_urlAt_in isReplacement_token) fun v _ hv _ => h v hv

theorem absent_urlAt_redactCredentials (text : List Char) :
    Absent UrlAt (redactCredentials text) :=
  absent_urlAt_redactLinks (absent_urlAt_redactParameters (absent_urlAt_redactBearers
    (absent_urlAt_redactUrls text)))

/-! ### Nor a bearer credential, nor a link token -/

theorem absent_bearerAt_redactBearers (text : List Char) :
    Absent BearerAt (redactBearers text) :=
  (rewritten_redactBearers text).absent (collapses_bearer_bearerAt isReplacement_credential)
    not_bearerAt_nil (fun _ _ => not_bearerAt_in isReplacement_credential)
    fun _ _ _ => bearer_hit_eq_none_iff.mp

theorem absent_bearerAt_redactParameters {text : List Char} (h : Absent BearerAt text) :
    Absent BearerAt (redactParameters text) :=
  (rewritten_redactParameters text).absent (collapses_token_bearerAt isReplacement_token)
    not_bearerAt_nil (fun _ _ => not_bearerAt_in isReplacement_token) fun v _ hv _ => h v hv

theorem absent_bearerAt_redactLinks {text : List Char} (h : Absent BearerAt text) :
    Absent BearerAt (redactLinks text) :=
  (rewritten_redactLinks text).absent (collapses_link_bearerAt isReplacement_token)
    not_bearerAt_nil (fun _ _ => not_bearerAt_in isReplacement_token) fun v _ hv _ => h v hv

theorem absent_bearerAt_redactCredentials (text : List Char) :
    Absent BearerAt (redactCredentials text) :=
  absent_bearerAt_redactLinks (absent_bearerAt_redactParameters
    (absent_bearerAt_redactBearers _))

theorem absent_linkAt_redactCredentials (text : List Char) :
    Absent LinkAt (redactCredentials text) :=
  (rewritten_redactLinks _).absent (collapses_link_linkAt isReplacement_token) not_linkAt_nil
    (fun _ _ => not_linkAt_in isReplacement_token) fun _ _ _ => link_hit_eq_none_iff.mp

end Stages

/-! ## Cutting the text -/

section Cutting

/-- What a text cut short has at a place, the whole has, whatever the cut makes of the last
character. -/
structure Cuttable (At : List Char → Prop) : Prop where
  append : ∀ x y, At x → At (x ++ y)
  cut : ∀ v c y, Text.codeUnits c ≠ 1 → At (v ++ ['\uFFFD']) → At (v ++ c :: y)

theorem Cuttable.of_sliceTo {At : List Char → Prop} (h : Cuttable At) (n : Nat)
    (s v : List Char) (hat : At (v ++ Text.sliceTo n s)) : At (v ++ s) := by
  induction n, s using Text.sliceTo.induct generalizing v with
  | case1 n => rwa [Text.sliceTo] at hat
  | case2 s hne =>
      rw [Text.sliceTo, List.append_nil] at hat
      · exact h.append v s hat
      · exact hne
  | case3 c cs hone =>
      rw [Text.sliceTo, if_pos hone] at hat
      have hlonger := h.append _ cs hat
      rwa [List.append_assoc] at hlonger
  | case4 c cs hone =>
      rw [Text.sliceTo, if_neg hone] at hat
      exact h.cut v c cs hone hat
  | case5 n c cs ih₁ ih₂ =>
      rw [Text.sliceTo] at hat
      have hassoc (t : List Char) : v ++ c :: t = (v ++ [c]) ++ t := by simp
      rw [hassoc] at hat ⊢
      split at hat
      · exact ih₁ _ hat
      · exact ih₂ _ hat

/-- What begins inside a cut text is a later part of it, cut. -/
theorem suffix_sliceTo {n : Nat} {s v : List Char} (h : v <:+ Text.sliceTo n s) :
    ∃ m t, t <:+ s ∧ v = Text.sliceTo m t := by
  have hempty {s : List Char} (h : v <:+ []) : ∃ m t, t <:+ s ∧ v = Text.sliceTo m t :=
    ⟨0, [], List.nil_suffix, by rw [List.suffix_nil.mp h, Text.sliceTo]⟩
  induction n, s using Text.sliceTo.induct with
  | case1 n =>
      rw [Text.sliceTo] at h
      exact hempty h
  | case2 s hne =>
      rw [Text.sliceTo] at h
      · exact hempty h
      · exact hne
  | case3 c cs hone =>
      have hslice : Text.sliceTo 1 (c :: cs) = [c] := by rw [Text.sliceTo, if_pos hone]
      rw [hslice] at h
      rcases List.suffix_cons_iff.mp h with rfl | h
      · exact ⟨1, c :: cs, List.suffix_rfl, hslice.symm⟩
      · exact hempty h
  | case4 c cs hone =>
      have hslice : Text.sliceTo 1 (c :: cs) = ['\uFFFD'] := by rw [Text.sliceTo, if_neg hone]
      rw [hslice] at h
      rcases List.suffix_cons_iff.mp h with rfl | h
      · exact ⟨1, c :: cs, List.suffix_rfl, hslice.symm⟩
      · exact hempty h
  | case5 n c cs ih₁ ih₂ =>
      have hlater (ih : ∃ m t, t <:+ cs ∧ v = Text.sliceTo m t) :
          ∃ m t, t <:+ c :: cs ∧ v = Text.sliceTo m t := by
        obtain ⟨m, t, ht, hv⟩ := ih
        exact ⟨m, t, ht.trans (List.suffix_cons c cs), hv⟩
      have hslice : Text.sliceTo (n + 2) (c :: cs) =
          c :: if Text.codeUnits c = 1 then Text.sliceTo (n + 1) cs else Text.sliceTo n cs := by
        rw [Text.sliceTo]
      rw [hslice] at h
      rcases List.suffix_cons_iff.mp h with rfl | h
      · exact ⟨n + 2, c :: cs, List.suffix_rfl, hslice.symm⟩
      · split at h
        · exact hlater (ih₁ h)
        · exact hlater (ih₂ h)

theorem Cuttable.absent_sliceTo {At : List Char → Prop} (h : Cuttable At) {s : List Char}
    (hs : Absent At s) (n : Nat) : Absent At (Text.sliceTo n s) := by
  intro v hv hat
  obtain ⟨m, t, ht, rfl⟩ := suffix_sliceTo hv
  exact hs t ht (h.of_sliceTo m t [] hat)

theorem isSpace_of_codeUnits {c : Char} (h : Text.codeUnits c ≠ 1) :
    Text.isSpace c = false := by
  have hlarge : ¬ c.toNat < 0x10000 := fun hlt => h (if_pos hlt)
  have hne {d : Char} (hd : d.toNat < 0x10000) : (c == d) = false := by
    refine beq_eq_false_iff_ne.mpr ?_
    rintro rfl
    exact hlarge hd
  have hrange : decide (c.toNat ≤ 0x200a) = false := by
    rw [decide_eq_false_iff_not]
    omega
  simp only [Text.isSpace, Text.isLineTerminator, hne (d := '\n') (by decide),
    hne (d := '\r') (by decide), hne (d := '\u2028') (by decide),
    hne (d := '\u2029') (by decide), hne (d := '\t') (by decide),
    hne (d := '\x0b') (by decide), hne (d := '\x0c') (by decide), hne (d := ' ') (by decide),
    hne (d := '\u00a0') (by decide), hne (d := '\u1680') (by decide),
    hne (d := '\u202f') (by decide), hne (d := '\u205f') (by decide),
    hne (d := '\u3000') (by decide), hne (d := '\ufeff') (by decide), hrange, Bool.or_false,
    Bool.and_false]

theorem isParameterChar_of_codeUnits {c : Char} (h : Text.codeUnits c ≠ 1) :
    isParameterChar c = true := by
  have hlarge : ¬ c.toNat < 0x10000 := fun hlt => h (if_pos hlt)
  have hne {d : Char} (hd : d.toNat < 0x10000) : (c == d) = false := by
    refine beq_eq_false_iff_ne.mpr ?_
    rintro rfl
    exact hlarge hd
  have hquote : (c.toNat == 0x27) = false := by
    rw [beq_eq_false_iff_ne]
    omega
  rw [isParameterChar, isSpace_of_codeUnits h, hne (d := '&') (by decide),
    hne (d := '#') (by decide), hne (d := '"') (by decide), hquote]
  rfl

/-- The replacement character at the end is the last of what follows a fragment without it. -/
theorem eq_of_append_singleton {u tail v : List Char} {f : Char}
    (h : u ++ tail = v ++ [f]) (hf : f ∉ u) :
    ∃ tail', tail = tail' ++ [f] ∧ v = u ++ tail' := by
  rcases List.eq_nil_or_concat tail with rfl | ⟨tail', d, rfl⟩
  · rw [List.append_nil] at h
    exact absurd (h ▸ List.mem_append_right v (List.mem_singleton_self f)) hf
  · rw [List.concat_eq_append, ← List.append_assoc] at h
    obtain ⟨rfl, hd⟩ := List.append_inj' h rfl
    obtain rfl := (List.cons.inj hd).1
    exact ⟨tail', List.concat_eq_append, rfl⟩

theorem cuttable_tokenAt : Cuttable TokenAt where
  append _ y h := tokenAt_append y h
  cut := by
    rintro v c y hc ⟨mark, d, tail, heq, hmark, hd⟩
    have hcut : '\uFFFD' ∉ mark := by
      have hall := hmark.all (p := fun c => c != '\uFFFD') (by decide) (by decide)
      exact fun hmem => absurd (hall _ hmem) (by decide)
    obtain ⟨tail', htail, rfl⟩ := eq_of_append_singleton heq.symm hcut
    cases tail' with
    | nil =>
        rw [List.append_nil]
        exact ⟨mark, c, y, rfl, hmark, isParameterChar_of_codeUnits hc⟩
    | cons e tail' =>
        obtain ⟨rfl, -⟩ := List.cons.inj htail
        exact ⟨mark, d, tail' ++ c :: y, by simp, hmark, hd⟩

theorem cuttable_linkAt : Cuttable LinkAt where
  append _ y h := linkAt_append y h
  cut := by
    rintro v c y hc ⟨d, tail, heq, hd⟩
    obtain ⟨tail', htail, rfl⟩ := eq_of_append_singleton heq.symm (by decide)
    cases tail' with
    | nil =>
        obtain ⟨rfl, -⟩ := List.cons.inj htail
        exact absurd hd (by decide)
    | cons e tail' =>
        obtain ⟨rfl, -⟩ := List.cons.inj htail
        exact ⟨d, tail' ++ c :: y, by simp, hd⟩

theorem cuttable_bearerAt : Cuttable BearerAt where
  append _ y h := bearerAt_append y h
  cut := by
    rintro v c y hc ⟨word, spaces, d, tail, heq, hword, hne, hspaces, hd⟩
    have hcut : '\uFFFD' ∉ word ++ spaces := by
      intro hmem
      rcases List.mem_append.mp hmem with hmem | hmem
      · exact not_mem_of_lowers hword (by decide) hmem
      · exact absurd (hspaces _ hmem) (by decide)
    rw [← List.append_assoc] at heq
    obtain ⟨tail', htail, rfl⟩ := eq_of_append_singleton heq.symm hcut
    cases tail' with
    | nil => exact ⟨word, spaces, c, y, by simp, hword, hne, hspaces, isSpace_of_codeUnits hc⟩
    | cons e tail' =>
        obtain ⟨rfl, -⟩ := List.cons.inj htail
        exact ⟨word, spaces, d, tail' ++ c :: y, by simp, hword, hne, hspaces, hd⟩

theorem cuttable_urlAt : Cuttable UrlAt where
  append _ y h := urlAt_append y h
  cut := by
    rintro v c y hc ⟨scheme, run, mark, tail, heq, hscheme, hrun, hmark⟩
    rcases List.eq_nil_or_concat tail with rfl | ⟨tail', d, rfl⟩
    · exfalso
      rw [List.append_nil, ← List.append_assoc] at heq
      have hcut : '\uFFFD' ∉ mark := by
        rcases hmark with h | h | h | h
        all_goals exact not_mem_of_lowers h (by decide)
      obtain ⟨mark', e, hconcat⟩ :=
        (List.eq_nil_or_concat mark).resolve_left hmark.isForeign.ne_nil
      rw [hconcat, List.concat_eq_append, ← List.append_assoc] at heq
      obtain ⟨-, he⟩ := List.append_inj' heq rfl
      apply hcut
      rw [hconcat, List.concat_eq_append, ← (List.cons.inj he).1]
      simp
    · rw [List.concat_eq_append] at heq
      simp only [← List.append_assoc] at heq
      obtain ⟨rfl, -⟩ := List.append_inj' heq rfl
      exact ⟨scheme, run, mark, tail' ++ c :: y, by simp, hscheme, hrun, hmark⟩

end Cutting

end AgentGather.Storage
