import AgentGather.Storage.RedactionStages

/-!
# Redacting twice

When the redaction of a text has no credential left, and so stays when it is redacted again.
Of the four patterns only the one for parameters can leave a match: what it puts in the place
of a parameter is itself a value for the name of a parameter that stands right before it.
-/

namespace AgentGather.Storage

open AgentGather.Library AgentGather.Library.Regex

/-- The four patterns. -/
def credentialPatterns : List (Regex Char) :=
  [credentialUrlPattern, bearerPattern, tokenParameterPattern, linkTokenPattern]

/-- A stored text: within its cap, without a credential, and redacted to itself. -/
structure IsSettled (s : String) : Prop where
  short : Text.utf16Length s.toList ≤ snapshotMaxTextChars
  clean : ∀ pattern ∈ credentialPatterns, pattern.test s.toList = false
  fixed : redactSnapshotText (some (.str s)) = s

/-- A parameter behind `#` or `&`. -/
def SeparatedTokenAt (text : List Char) : Prop :=
  ∃ d rest, text = d :: rest ∧ (d = '#' ∨ d = '&') ∧ TokenAt rest

def EndsWithMarker (text : List Char) : Prop := ∃ mark, IsMarker mark ∧ mark <:+ text

/-- Where a parameter begins behind `#` or `&`, what is left of the text before it does not
end with the name of a parameter, as far as the text is kept. -/
def NoBareMarker (text : List Char) : Prop :=
  ∀ p y, redactBearers (redactUrls text) = p ++ y → SeparatedTokenAt y →
    EndsWithMarker (redactLinks (redactParameters p)) →
      snapshotMaxTextChars ≤ Text.utf16Length (redactLinks (redactParameters p))

/-! ## Texts without a credential -/

theorem redactText_toList (text : String) : (redactText text).toList =
    Text.sliceTo snapshotMaxTextChars (redactCredentials text.toList) := by
  rw [redactText, String.toList_ofList]

theorem redactSnapshotText_str (s : String) : redactSnapshotText (some (.str s)) = redactText s := by
  have htext : textOf (some (.str s)) = .ofList (Json.str s).toText := rfl
  rw [redactSnapshotText, htext, Json.toText_str, String.ofList_toList]

theorem token_hit_eq_none_of_absent {text : List Char} (h : Absent TokenAt text) :
    ∀ v, v <:+ text → tokenParameterPattern.hit v = none := by
  intro v hv
  refine token_hit_eq_none_iff.mpr ⟨h v hv, ?_⟩
  rintro d s' rfl - hat
  exact h s' ((List.suffix_cons d s').trans hv) hat

/-- A short text without a credential is redacted to itself. -/
theorem redactText_of_absent {text : String}
    (hshort : Text.utf16Length text.toList ≤ snapshotMaxTextChars)
    (hurl : Absent UrlAt text.toList) (hbearer : Absent BearerAt text.toList)
    (htoken : Absent TokenAt text.toList) (hlink : Absent LinkAt text.toList) :
    redactText text = text := by
  have hurls : redactUrls text.toList = text.toList :=
    Rewritten.eq_replaceAll replaceable_url
      (rewritten_self fun v _ hv => url_hit_eq_none_iff.mpr (hurl v hv))
  have hbearers : redactBearers text.toList = text.toList :=
    Rewritten.eq_replaceAll replaceable_bearer
      (rewritten_self fun v _ hv => bearer_hit_eq_none_iff.mpr (hbearer v hv))
  have hparameters : redactParameters text.toList = text.toList :=
    Rewritten.eq_replaceAll replaceable_token
      (rewritten_self fun v _ hv => token_hit_eq_none_of_absent htoken v hv)
  have hlinks : redactLinks text.toList = text.toList :=
    Rewritten.eq_replaceAll replaceable_link
      (rewritten_self fun v _ hv => link_hit_eq_none_iff.mpr (hlink v hv))
  rw [redactText, redactCredentials_eq, hurls, hbearers, hparameters, hlinks,
    Text.sliceTo_of_le hshort, String.ofList_toList]

theorem absent_redactText (text : String) :
    Absent UrlAt (redactText text).toList ∧ Absent BearerAt (redactText text).toList ∧
      Absent LinkAt (redactText text).toList := by
  rw [redactText_toList]
  exact ⟨cuttable_urlAt.absent_sliceTo (absent_urlAt_redactCredentials _) _,
    cuttable_bearerAt.absent_sliceTo (absent_bearerAt_redactCredentials _) _,
    cuttable_linkAt.absent_sliceTo (absent_linkAt_redactCredentials _) _⟩

theorem utf16Length_redactText_le (text : String) :
    Text.utf16Length (redactText text).toList ≤ snapshotMaxTextChars := by
  rw [redactText_toList]
  exact Text.utf16Length_sliceTo_le _ _

/-- Only a parameter can be left. -/
theorem redactText_redactText {text : String} (h : Absent TokenAt (redactText text).toList) :
    redactText (redactText text) = redactText text := by
  obtain ⟨hurl, hbearer, hlink⟩ := absent_redactText text
  exact redactText_of_absent (utf16Length_redactText_le text) hurl hbearer h hlink

theorem isSettled_redactText_iff (text : String) :
    IsSettled (redactText text) ↔ Absent TokenAt (redactText text).toList := by
  constructor
  · intro h v hv
    have hclean := (test_eq_false_iff replaceable_token.isLocal).mp
      (h.clean tokenParameterPattern (by simp [credentialPatterns])) v hv
    exact (token_hit_eq_none_iff.mp hclean).1
  · intro h
    obtain ⟨hurl, hbearer, hlink⟩ := absent_redactText text
    refine ⟨utf16Length_redactText_le text, fun pattern hpattern => ?_,
      (redactSnapshotText_str _).trans (redactText_redactText h)⟩
    simp only [credentialPatterns, List.mem_cons, List.not_mem_nil, or_false] at hpattern
    rcases hpattern with rfl | rfl | rfl | rfl
    · exact (test_eq_false_iff replaceable_url.isLocal).mpr fun v hv =>
        url_hit_eq_none_iff.mpr (hurl v hv)
    · exact (test_eq_false_iff replaceable_bearer.isLocal).mpr fun v hv =>
        bearer_hit_eq_none_iff.mpr (hbearer v hv)
    · exact (test_eq_false_iff replaceable_token.isLocal).mpr (token_hit_eq_none_of_absent h)
    · exact (test_eq_false_iff replaceable_link.isLocal).mpr fun v hv =>
        link_hit_eq_none_iff.mpr (hlink v hv)

/-! ## Where a parameter is left -/

section Left

variable {text a b mark : List Char}

/-- A parameter in what the last stage leaves was left by the stage before. -/
theorem token_of_redactLinks {c : Char} (hmark : IsMarker mark) (hc : isParameterChar c = true)
    (h : redactLinks text = (a ++ mark) ++ c :: b) :
    ∃ p d y, text = (p ++ mark) ++ d :: y ∧ isParameterChar d = true ∧
      redactLinks (p ++ mark) = a ++ mark := by
  have hrewritten := rewritten_redactLinks text
  rw [h] at hrewritten
  obtain ⟨p, y, rfl, hp, hm, hy⟩ := split_foreign isReplacement_token hmark.isForeign hrewritten
  have hhead : ∃ d y', y = d :: y' ∧ isParameterChar d = true := by
    rcases hy.cons_cases with ⟨tail, rfl⟩ | ⟨now, rest, rfl, -, hhit⟩
    · exact ⟨c, tail, rfl, hc⟩
    · obtain ⟨tail, rfl⟩ := link_hit_head hhit
      exact ⟨'t', tail ++ rest, rfl, by decide⟩
  obtain ⟨d, y, rfl, hd⟩ := hhead
  exact ⟨p, d, y, rfl, hd,
    Rewritten.eq_replaceAll replaceable_link (rewritten_of_link (hp.append hm))⟩

/-- It was left before another parameter, which a separator keeps apart from it. -/
theorem token_of_redactParameters {d : Char} (hmark : IsMarker mark)
    (hd : isParameterChar d = true)
    (h : redactParameters text = (a ++ mark) ++ d :: b) :
    ∃ p y, text = (p ++ mark) ++ y ∧ SeparatedTokenAt y ∧
      redactParameters (p ++ mark) = a ++ mark := by
  have hrewritten := rewritten_redactParameters text
  rw [h] at hrewritten
  obtain ⟨p, y, rfl, hp, hm, hy⟩ := split_foreign isReplacement_token hmark.isForeign hrewritten
  refine ⟨p, y, rfl, ?_, 
    Rewritten.eq_replaceAll replaceable_token (rewritten_of_token (hp.append hm))⟩
  have hnone := hm.hit_eq_none isReplacement_token.mem hmark.isForeign.ne_nil
    hmark.isForeign.opening
  have hnot : ∀ e tail, y = e :: tail → isParameterChar e = false := by
    rintro e tail rfl
    by_contra he
    rw [List.append_nil] at hnone
    exact (token_hit_eq_none_iff.mp hnone).1
      ⟨mark, e, tail, rfl, hmark, (Bool.not_eq_false _).mp he⟩
  rcases hy.cons_cases with ⟨tail, rfl⟩ | ⟨now, rest, rfl, -, hhit⟩
  · rw [hnot d tail rfl] at hd
    cases hd
  · rw [List.append_nil] at hhit
    obtain ⟨⟨start, mark', run, rfl, hstart, hmark', hne, hrun⟩, -⟩ := token_hit hhit
    obtain ⟨c, run, rfl⟩ := List.exists_cons_of_ne_nil hne
    rcases hstart with rfl | ⟨e, rfl, he⟩
    · obtain ⟨f, tail, rfl⟩ := List.exists_cons_of_ne_nil hmark'.isForeign.ne_nil
      have hf := hnot f _ rfl
      rw [hmark'.isParameterChar f List.mem_cons_self] at hf
      cases hf
    · refine ⟨e, mark' ++ c :: run ++ rest, by simp, ?_, mark', c, run ++ rest, by simp, hmark',
        hrun c List.mem_cons_self⟩
      have hparameter := hnot e _ rfl
      simp only [isParameterStart, Bool.or_eq_true, beq_iff_eq] at he
      rcases he with (rfl | rfl) | rfl
      · exact .inl rfl
      · exact absurd hparameter (by decide)
      · exact .inr rfl

/-- Before a parameter with a separator, the stages treat the rest of the text on its own. -/
theorem redactLinks_redactParameters_append {p y : List Char} (hy : SeparatedTokenAt y) :
    ∃ tail, redactLinks (redactParameters (p ++ y)) =
      redactLinks (redactParameters p) ++ '[' :: tail := by
  obtain ⟨d, rest, rfl, hd, htoken⟩ := hy
  have hstop : isParameterChar d = false := by
    rcases hd with rfl | rfl <;> decide
  have hstart : isParameterStart d = true := by
    rcases hd with rfl | rfl <;> decide
  obtain ⟨tail, htail⟩ : ∃ tail, redactParameters (d :: rest) = '[' :: tail := by
    have hrewritten := rewritten_redactParameters (d :: rest)
    have hsome : tokenParameterPattern.hit (d :: rest) ≠ none := fun hnone =>
      (token_hit_eq_none_iff.mp hnone).2 d rest rfl hstart htoken
    generalize redactParameters (d :: rest) = out at hrewritten
    unfold Rewritten at hrewritten
    generalize hs : d :: rest = whole at hrewritten
    cases hrewritten with
    | nil => cases hs
    | copy hnone _ =>
        rw [List.append_nil, ← hs] at hnone
        exact absurd hnone hsome
    | found _ _ _ => exact ⟨_, rfl⟩
  have hparameters : redactParameters (p ++ d :: rest) = redactParameters p ++ '[' :: tail := by
    rw [← htail]
    apply Rewritten.eq_replaceAll replaceable_token
    refine Rewrites.append ?_ (rewritten_redactParameters _)
    rw [List.append_nil]
    exact rewrites_token_of_stop hstop (rewritten_redactParameters p)
  refine ⟨redactLinks tail, ?_⟩
  rw [hparameters]
  apply Rewritten.eq_replaceAll replaceable_link
  refine Rewrites.append ?_ (.copy ?_ (rewritten_redactLinks tail))
  · rw [List.append_nil]
    exact rewrites_link_of_stop (by decide) (rewritten_redactLinks _)
  · rw [List.append_nil]
    refine link_hit_eq_none_iff.mpr ?_
    rintro ⟨c, rest, heq, -⟩
    exact absurd (List.cons.inj heq).1 (by decide)

end Left

/-- A parameter is left exactly where the name of one stands bare within what is kept. -/
theorem absent_tokenAt_iff (text : String) :
    Absent TokenAt (redactText text).toList ↔ NoBareMarker text.toList := by
  rw [redactText_toList]
  constructor
  · rintro habsent p y hsplit hy ⟨mark, hmark, a, ha⟩
    by_contra hlong
    obtain ⟨tail, htail⟩ := redactLinks_redactParameters_append (p := p) hy
    have hwhole : redactCredentials text.toList =
        redactLinks (redactParameters p) ++ '[' :: tail := by
      rw [redactCredentials_eq, hsplit, htail]
    obtain ⟨kept, hkept⟩ := Text.sliceTo_append_cons (c := '[') (t := tail)
      (Nat.lt_of_not_le hlong) (by decide)
    rw [hwhole, hkept, ← ha, List.append_assoc] at habsent
    exact habsent (mark ++ '[' :: kept) (List.suffix_append a _)
      ⟨mark, '[', kept, rfl, hmark, by decide⟩
  · rintro hbare v ⟨u, hu⟩ ⟨mark, c, rest, rfl, hmark, hc⟩
    rw [← List.append_assoc] at hu
    obtain ⟨d, t, hwhole, hlength, hd⟩ := Text.sliceTo_eq_append_cons hu.symm
    have hparameter : isParameterChar d = true := by
      rcases hd with rfl | hd
      · exact hc
      · exact isParameterChar_of_codeUnits hd
    rw [redactCredentials_eq] at hwhole
    obtain ⟨p₃, e, y₃, h₃, he, hp₃⟩ := token_of_redactLinks hmark hparameter hwhole
    obtain ⟨p, y, hsplit, hy, hp⟩ := token_of_redactParameters hmark he h₃
    have hkept := hbare (p ++ mark) y hsplit hy (by
      rw [hp, hp₃]
      exact ⟨mark, hmark, List.suffix_append u mark⟩)
    rw [hp, hp₃] at hkept
    exact absurd hlength (Nat.not_lt.mpr hkept)

/-- The redaction is settled except where it leaves the name of a parameter right before what
it puts for another one. -/
theorem isSettled_iff (value : Option Json) :
    IsSettled (redactSnapshotText value) ↔ NoBareMarker (textOf value).toList := by
  rw [redactSnapshotText, isSettled_redactText_iff, absent_tokenAt_iff]

/-- What the pattern makes of `token=#token=a1` is a parameter again. -/
theorem redactSnapshotText_not_settled :
    redactSnapshotText (some (.str "token=#token=a1")) = "token=[redacted-token]" ∧
      redactSnapshotText (some (.str "token=[redacted-token]")) = "[redacted-token]" ∧
      ¬ IsSettled (redactSnapshotText (some (.str "token=#token=a1"))) := by
  have honce : redactSnapshotText (some (.str "token=#token=a1")) = "token=[redacted-token]" := by
    decide +kernel
  have htwice : redactSnapshotText (some (.str "token=[redacted-token]")) =
      "[redacted-token]" := by
    decide +kernel
  refine ⟨honce, htwice, fun h => ?_⟩
  have hfixed := h.fixed
  rw [honce, htwice] at hfixed
  exact absurd hfixed (by decide)

end AgentGather.Storage
