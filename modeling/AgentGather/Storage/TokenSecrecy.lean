import Mathlib.Data.List.Infix
import AgentGather.Storage.RedactionSecrecy

/-!
# What is stored of a token

The secret behind `token=` is taken in by whichever stage takes the marker in.  One way is left
in which it is told: a secret that ends with the word `bearer` makes a credential of the word
behind it.
-/

namespace AgentGather.Storage

open AgentGather.Library AgentGather.Library.Regex

def tokenMarker : List Char := "token=".toList

theorem isMarker_tokenMarker : IsMarker tokenMarker :=
  ⟨"token".toList, by decide, .inl (by decide)⟩

theorem isForeign_tokenMarker : IsForeign tokenMarker := isMarker_tokenMarker.isForeign

theorem isSpace_tokenMarker : ∀ c ∈ tokenMarker, Text.isSpace c = false :=
  isMarker_tokenMarker.isSpace

/-! ## The marker decides -/

section Marker

variable {v z : List Char}

/-- A scheme does not reach into the marker. -/
theorem IsScheme.before_token {scheme u : List Char} (h : IsScheme scheme)
    (heq : scheme ++ u = v ++ "token".toList) :
    ∃ x, v = scheme ++ x ∧ u = x ++ "token".toList := by
  rcases List.append_eq_append_iff.mp heq with ⟨x, hv, hu⟩ | ⟨x, hscheme, htoken⟩
  · exact ⟨x, hv, hu⟩
  · have hnot : ∀ t ∈ ["http://", "https://"], ∀ y ∈ "token".toList.inits, y ≠ [] →
        ¬ y.map Char.toLower <:+ t.toList := by decide
    have hsuffix : ∃ t ∈ ["http://", "https://"], x.map Char.toLower <:+ t.toList := by
      rcases h with h | h
      · exact ⟨"http://", by simp, v.map Char.toLower, by
          rw [← List.map_append, ← hscheme, h]⟩
      · exact ⟨"https://", by simp, v.map Char.toLower, by
          rw [← List.map_append, ← hscheme, h]⟩
    obtain ⟨t, ht, hsuffix⟩ := hsuffix
    have hbegins : x ∈ "token".toList.inits := (List.mem_inits _ _).mpr ⟨u, htoken.symm⟩
    obtain rfl : x = [] := by
      by_contra hne
      exact hnot t ht x hbegins hne hsuffix
    exact ⟨[], by rw [hscheme, List.append_nil, List.append_nil], htoken.symm⟩

/-- Nothing behind the marker makes a credential of a URL that reaches it. -/
theorem urlAt_of_marker (h : UrlAt (v ++ (tokenMarker ++ z))) : UrlAt (v ++ tokenMarker) := by
  obtain ⟨scheme, x, mark, rest, heq, hscheme, hx, hmark⟩ := h
  have hequals : '=' ∉ scheme := by
    rcases hscheme with hscheme | hscheme
    · exact not_mem_of_lowers hscheme (by decide)
    · exact not_mem_of_lowers hscheme (by decide)
  obtain ⟨u, hu, hrest⟩ := Text.eq_append_of_not_mem (v := v ++ "token".toList) hequals
    (heq.symm.trans (List.append_assoc v "token".toList ('=' :: z)).symm)
  obtain ⟨y, rfl, rfl⟩ := hscheme.before_token hu.symm
  by_cases hblank : ∀ c ∈ y, Text.isSpace c = false
  · exact ⟨scheme, y, tokenMarker, [], by simp, hscheme, hblank, .inl (by decide)⟩
  · push Not at hblank
    obtain ⟨c, hc, hspace⟩ := hblank
    obtain ⟨front, back, rfl⟩ := List.append_of_mem hc
    have hat : UrlAt ((scheme ++ front) ++ c :: (back ++ (tokenMarker ++ z))) :=
      ⟨scheme, x, mark, rest, by rw [← heq]; simp, hscheme, hx, hmark⟩
    have hfront := urlAt_of_append ((Bool.not_eq_false _).mp hspace) hat
    have hsplit : scheme ++ (front ++ c :: back) ++ tokenMarker =
        (scheme ++ front) ++ (c :: back ++ tokenMarker) := by simp
    rw [hsplit]
    exact urlAt_append _ hfront

theorem bearerAt_of_marker (h : BearerAt (v ++ (tokenMarker ++ z))) :
    BearerAt (v ++ tokenMarker) := by
  obtain ⟨word, spaces, c, rest, heq, hword, hne, hspaces, hc⟩ := h
  have hequals : '=' ∉ spaces := fun hmem => absurd (hspaces _ hmem) (by decide)
  obtain ⟨u, hu, hrest⟩ := Text.eq_append_of_not_mem (v := v ++ "token".toList)
    (not_mem_of_lowers hword (by decide))
    (heq.symm.trans (List.append_assoc v "token".toList ('=' :: z)).symm)
  obtain ⟨x, rfl, hx⟩ := Text.eq_append_of_not_mem hequals hrest
  have hmarker : v ++ tokenMarker = word ++ (spaces ++ (x ++ ['='])) := by
    rw [← List.append_assoc spaces, ← List.append_assoc, ← hu, List.append_assoc]
    rfl
  rw [hmarker]
  cases x with
  | nil =>
      obtain ⟨rfl, -⟩ := List.cons.inj hx
      exact ⟨word, spaces, '=', [], rfl, hword, hne, hspaces, hc⟩
  | cons d x =>
      obtain ⟨rfl, -⟩ := List.cons.inj hx
      exact ⟨word, spaces, c, x ++ ['='], rfl, hword, hne, hspaces, hc⟩

theorem tokenAt_of_marker (h : TokenAt (v ++ (tokenMarker ++ z))) :
    TokenAt (v ++ (tokenMarker ++ ['x'])) := by
  obtain ⟨mark, c, rest, heq, ⟨word, rfl, hword⟩, hc⟩ := h
  have hequals : '=' ∉ word := by
    rcases hword with hword | hword
    · exact not_mem_of_lowers hword (by decide)
    · exact not_mem_of_lowers hword (by decide)
  rw [List.append_assoc] at heq
  obtain ⟨u, hu, hrest⟩ := Text.eq_append_of_not_mem (v := v ++ "token".toList) hequals
    (heq.symm.trans (List.append_assoc v "token".toList ('=' :: z)).symm)
  have hmarker : v ++ (tokenMarker ++ ['x']) = word ++ (u ++ ['=', 'x']) := by
    rw [← List.append_assoc word, ← hu, List.append_assoc]
    rfl
  rw [hmarker]
  cases u with
  | nil => exact ⟨word ++ ['='], 'x', [], by simp, ⟨word, rfl, hword⟩, by decide⟩
  | cons d u =>
      obtain ⟨rfl, hu'⟩ := List.cons.inj hrest
      cases u with
      | nil => exact ⟨word ++ ['='], '=', ['x'], by simp, ⟨word, rfl, hword⟩, by decide⟩
      | cons e u =>
          obtain ⟨rfl, -⟩ := List.cons.inj hu'
          exact ⟨word ++ ['='], c, u ++ ['=', 'x'], by simp, ⟨word, rfl, hword⟩, hc⟩

end Marker

/-! ## What stands behind a match -/

theorem headOnly_url : HeadOnly credentialUrlPattern := by
  intro now rest rest' hhead h
  have hblank := (url_hit h).2.2
  obtain ⟨scheme, v, mark, run, rfl, hscheme, hmark, hv, hrun⟩ := url_hit_parts h
  exact url_hit_of hscheme hmark hv hrun (hhead ▸ hblank)

theorem headOnly_bearer : HeadOnly bearerPattern := by
  intro now rest rest' hhead h
  obtain ⟨⟨word, spaces, run, rfl, hword, hne, hspaces, hne', hrun⟩, hblank⟩ := bearer_hit h
  exact bearer_hit_of hword hne hspaces hne' hrun (hhead ▸ hblank)

theorem headOnly_token : HeadOnly tokenParameterPattern := by
  intro now rest rest' hhead h
  obtain ⟨⟨start, mark, run, rfl, hstart, hmark, hne, hrun⟩, hstop⟩ := token_hit h
  exact token_hit_of hstart hmark hne hrun (hhead ▸ hstop)

theorem url_hit_of_marker {v z : List Char}
    (h : credentialUrlPattern.hit (v ++ (tokenMarker ++ [])) = none) :
    credentialUrlPattern.hit (v ++ (tokenMarker ++ z)) = none := by
  rw [List.append_nil] at h
  exact url_hit_eq_none_iff.mpr fun hat => url_hit_eq_none_iff.mp h (urlAt_of_marker hat)

theorem bearer_hit_of_marker {v z : List Char}
    (h : bearerPattern.hit (v ++ (tokenMarker ++ [])) = none) :
    bearerPattern.hit (v ++ (tokenMarker ++ z)) = none := by
  rw [List.append_nil] at h
  exact bearer_hit_eq_none_iff.mpr fun hat =>
    bearer_hit_eq_none_iff.mp h (bearerAt_of_marker hat)

theorem token_hit_of_marker {v z : List Char}
    (h : tokenParameterPattern.hit (v ++ (tokenMarker ++ ['x'])) = none) :
    tokenParameterPattern.hit (v ++ (tokenMarker ++ z)) = none := by
  obtain ⟨hhere, hnext⟩ := token_hit_eq_none_iff.mp h
  refine token_hit_eq_none_iff.mpr ⟨fun hat => hhere (tokenAt_of_marker hat), ?_⟩
  intro d s hs hd hat
  cases v with
  | nil =>
      obtain ⟨rfl, -⟩ := List.cons.inj hs
      cases hd
  | cons e v =>
      obtain ⟨rfl, rfl⟩ := List.cons.inj hs
      exact hnext e _ rfl hd (tokenAt_of_marker hat)

/-! ## The stages at the marker -/

section Stages

variable {a b k : List Char}

theorem isSpace_of_suffix_marker {c : Char} {rest : List Char} (h : c :: rest <:+ tokenMarker) :
    Text.isSpace c = false := isSpace_tokenMarker c (h.subset List.mem_cons_self)

theorem IsSecret.parameter (h : IsSecret k) : ∀ c ∈ k, isParameterChar c = true := by
  intro c hc
  have hlink := h.all c hc
  have hne {d : Char} (hd : isLinkChar d = false) : (c == d) = false := by
    refine beq_eq_false_iff_ne.mpr ?_
    rintro rfl
    rw [hd] at hlink
    cases hlink
  have hquote : (c.toNat == 0x27) = false := by
    refine beq_eq_false_iff_ne.mpr fun hnat => ?_
    rw [← Char.ofNat_toNat c, hnat] at hlink
    revert hlink
    decide
  rw [isParameterChar, isSpace_of_isLinkChar hlink, hne (d := '&') (by decide),
    hne (d := '#') (by decide), hne (d := '"') (by decide), hquote]
  rfl

/-- The marker stays behind the URLs, or stands in one that takes the secret in. -/
theorem redactUrls_token (a : List Char) :
    (∃ o, redactUrls (a ++ tokenMarker) = o ++ tokenMarker ∧
      ∀ k b, IsSecret k → StartsBlank b → redactUrls (a ++ (tokenMarker ++ (k ++ b))) =
        o ++ (tokenMarker ++ (k ++ redactUrls b))) ∨
    ∃ o, redactUrls (a ++ tokenMarker) = o ++ "[redacted-url]".toList ∧
      ∀ k b, IsSecret k → StartsBlank b → redactUrls (a ++ (tokenMarker ++ (k ++ b))) =
        redactUrls (a ++ tokenMarker) ++ redactUrls b := by
  have hends : ∀ now rest, rest <:+ tokenMarker → rest ≠ [] →
      credentialUrlPattern.hit (now ++ rest) ≠ some (now, rest) := by
    intro now rest hsuffix hne hhit
    obtain ⟨c, rest, rfl⟩ := List.exists_cons_of_ne_nil hne
    have hblank := (url_hit hhit).2.2 c rfl
    rw [isSpace_of_suffix_marker hsuffix] at hblank
    cases hblank
  have hbehind {l p o : List Char} (z : List Char)
      (h : Rewrites credentialUrlPattern "[redacted-url]".toList (l ++ tokenMarker) p o) :
      Rewrites credentialUrlPattern "[redacted-url]".toList (l ++ (tokenMarker ++ z)) p o := by
    rw [← List.append_nil tokenMarker] at h
    exact h.of_behind headOnly_url isForeign_tokenMarker.ne_nil (fun _ => url_hit_of_marker) l
  rcases (rewritten_redactUrls (a ++ tokenMarker)).cut_whole hends with
    ⟨o, o', hout, ho, ho'⟩ | ⟨p, l, o, rfl, -, hout, hhit, ho⟩
  · left
    have hself : o' = tokenMarker :=
      Rewrites.unique ho' ((redactUrls_word (x := tokenMarker) (by decide)) ▸
        rewritten_redactUrls tokenMarker)
    refine ⟨o, by rw [hout, hself], fun k b hk hb => ?_⟩
    apply Rewritten.eq_replaceAll replaceable_url
    refine Rewrites.append ?_ ?_
    · rw [List.append_nil]
      exact hbehind (l := []) (k ++ b) ho
    · have hcolon : ':' ∉ tokenMarker ++ k := by
        have hnot := hk.not_mem (c := ':') (by decide)
        simp only [List.mem_append, hnot, or_false]
        decide
      have hword : redactUrls ((tokenMarker ++ k) ++ b) =
          (tokenMarker ++ k) ++ redactUrls b := by
        rw [redactUrls_append hb, redactUrls_word hcolon]
      rw [← List.append_assoc, ← List.append_assoc, ← hword]
      exact rewritten_redactUrls _
  · right
    refine ⟨o, hout, fun k b hk hb => ?_⟩
    have hat : credentialUrlPattern.hit ((l ++ tokenMarker) ++ []) =
        some (l ++ tokenMarker, []) := by rwa [List.append_nil]
    obtain ⟨scheme, v, mark, run, hparts, hscheme, hmark, hv, hrun⟩ := url_hit_parts hat
    have hlonger : credentialUrlPattern.hit ((l ++ (tokenMarker ++ k)) ++ b) =
        some (l ++ (tokenMarker ++ k), b) := by
      have hparts' : l ++ (tokenMarker ++ k) = scheme ++ (v ++ (mark ++ (run ++ k))) := by
        rw [← List.append_assoc l, hparts]
        simp
      rw [hparts']
      refine url_hit_of hscheme hmark hv (fun c hc => ?_) hb
      rcases List.mem_append.mp hc with hc | hc
      · exact hrun c hc
      · exact hk.isSpace c hc
    rw [hout]
    apply Rewritten.eq_replaceAll replaceable_url
    have hwhole : p ++ l ++ (tokenMarker ++ (k ++ b)) =
        p ++ ((l ++ (tokenMarker ++ k)) ++ b) := by simp
    rw [hwhole, List.append_assoc o]
    refine Rewrites.append ?_ (.found ?_ (by rwa [List.append_nil]) (rewritten_redactUrls b))
    · rw [List.append_nil]
      have hcontext := hbehind (k ++ b) ho
      simpa using hcontext
    · simp [isForeign_tokenMarker.ne_nil]

/-- The marker stays behind the bearer credentials, or one of them takes the secret in. -/
theorem redactBearers_token (a : List Char) :
    (∃ o, redactBearers (a ++ tokenMarker) = o ++ tokenMarker ∧
      ∀ z, redactBearers (a ++ (tokenMarker ++ z)) = o ++ redactBearers (tokenMarker ++ z)) ∨
    ∃ o, redactBearers (a ++ tokenMarker) = o ++ "[redacted-credential]".toList ∧
      ∀ k b, IsSecret k → StartsBlank b → redactBearers (a ++ (tokenMarker ++ (k ++ b))) =
        redactBearers (a ++ tokenMarker) ++ redactBearers b := by
  have hends : ∀ now rest, rest <:+ tokenMarker → rest ≠ [] →
      bearerPattern.hit (now ++ rest) ≠ some (now, rest) := by
    intro now rest hsuffix hne hhit
    obtain ⟨c, rest, rfl⟩ := List.exists_cons_of_ne_nil hne
    have hblank := (bearer_hit hhit).2 c rfl
    rw [isSpace_of_suffix_marker hsuffix] at hblank
    cases hblank
  have hbehind {l p o : List Char} (z : List Char)
      (h : Rewrites bearerPattern "[redacted-credential]".toList (l ++ tokenMarker) p o) :
      Rewrites bearerPattern "[redacted-credential]".toList (l ++ (tokenMarker ++ z)) p o := by
    rw [← List.append_nil tokenMarker] at h
    exact h.of_behind headOnly_bearer isForeign_tokenMarker.ne_nil
      (fun _ => bearer_hit_of_marker) l
  rcases (rewritten_redactBearers (a ++ tokenMarker)).cut_whole hends with
    ⟨o, o', hout, ho, ho'⟩ | ⟨p, l, o, rfl, -, hout, hhit, ho⟩
  · left
    have hself : o' = tokenMarker := by
      refine Rewrites.unique ho' (rewritten_self fun v _ hv => bearer_hit_eq_none_iff.mpr ?_)
      intro hat
      have hspace : ∀ c ∈ v, Text.isSpace c = false :=
        fun c hc => isSpace_tokenMarker c (hv.subset hc)
      have hword := bearer_of_bearerAt (b := []) (x := v) startsBlank_nil hspace
        (by rwa [List.append_nil])
      have hnot : ∀ v ∈ tokenMarker.tails, ¬ Lowers "bearer" v := by decide
      exact hnot v ((List.mem_tails v _).mpr hv) hword
    refine ⟨o, by rw [hout, hself], fun z => ?_⟩
    apply Rewritten.eq_replaceAll replaceable_bearer
    refine Rewrites.append ?_ (rewritten_redactBearers _)
    rw [List.append_nil]
    exact hbehind (l := []) z ho
  · right
    refine ⟨o, hout, fun k b hk hb => ?_⟩
    have hat : bearerPattern.hit ((l ++ tokenMarker) ++ []) = some (l ++ tokenMarker, []) := by
      rwa [List.append_nil]
    obtain ⟨⟨word, spaces, run, hparts, hword, hne, hspaces, hne', hrun⟩, -⟩ := bearer_hit hat
    have hlonger : bearerPattern.hit ((l ++ (tokenMarker ++ k)) ++ b) =
        some (l ++ (tokenMarker ++ k), b) := by
      have hparts' : l ++ (tokenMarker ++ k) = word ++ (spaces ++ (run ++ k)) := by
        rw [← List.append_assoc l, hparts]
        simp
      rw [hparts']
      refine bearer_hit_of hword hne hspaces (fun hnil => hne' (List.append_eq_nil_iff.mp hnil).1)
        (fun c hc => ?_) hb
      rcases List.mem_append.mp hc with hc | hc
      · exact hrun c hc
      · exact hk.isSpace c hc
    rw [hout]
    apply Rewritten.eq_replaceAll replaceable_bearer
    have hwhole : p ++ l ++ (tokenMarker ++ (k ++ b)) =
        p ++ ((l ++ (tokenMarker ++ k)) ++ b) := by simp
    rw [hwhole, List.append_assoc o]
    refine Rewrites.append ?_ (.found ?_ (by rwa [List.append_nil]) (rewritten_redactBearers b))
    · rw [List.append_nil]
      have hcontext := hbehind (k ++ b) ho
      simpa using hcontext
    · simp [isForeign_tokenMarker.ne_nil]

/-- The parameter is replaced with the secret, whatever the secret is. -/
theorem redactParameters_token (a : List Char) :
    ∀ run b, run ≠ [] → (∀ c ∈ run, isParameterChar c = true) → StartsBlank b →
      redactParameters (a ++ (tokenMarker ++ (run ++ b))) =
        redactParameters (a ++ (tokenMarker ++ ['x'])) ++ redactParameters b := by
  intro run b hne hrun hb
  have hends : ∀ now rest, rest <:+ tokenMarker ++ ['x'] → rest ≠ [] →
      tokenParameterPattern.hit (now ++ rest) ≠ some (now, rest) := by
    intro now rest hsuffix hne hhit
    obtain ⟨c, rest, rfl⟩ := List.exists_cons_of_ne_nil hne
    have hall : ∀ c ∈ tokenMarker ++ ['x'], isParameterChar c = true :=
      List.all_iff_forall_prop.mp (by decide)
    have hstop := (token_hit hhit).2 c rfl
    rw [hall c (hsuffix.subset List.mem_cons_self)] at hstop
    cases hstop
  have hstop : ∀ c ∈ b.head?, isParameterChar c = false := by
    intro c hc
    rw [isParameterChar, hb c hc]
    rfl
  -- Wherever the match begins, it ends with the secret.
  have hlast : ∃ p l o, a = p ++ l ∧
      redactParameters (a ++ (tokenMarker ++ ['x'])) = o ++ "[redacted-token]".toList ∧
      tokenParameterPattern.hit (l ++ (tokenMarker ++ ['x'])) =
        some (l ++ (tokenMarker ++ ['x']), []) ∧
      Rewrites tokenParameterPattern "[redacted-token]".toList (l ++ (tokenMarker ++ ['x'])) p
        o := by
    rcases (rewritten_redactParameters (a ++ (tokenMarker ++ ['x']))).cut_whole hends with
      ⟨o, o', hout, ho, ho'⟩ | ⟨p, l, o, rfl, -, hout, hhit, ho⟩
    · have hhit : tokenParameterPattern.hit ((tokenMarker ++ ['x']) ++ []) =
          some (tokenMarker ++ ['x'], []) := by
        have hx : ∀ c ∈ ['x'], isParameterChar c = true :=
          List.all_iff_forall_prop.mp (by decide)
        have hnil : ∀ c ∈ ([] : List Char).head?, isParameterChar c = false :=
          fun _ hc => (by cases hc)
        have hstart : IsStart [] := .inl rfl
        exact token_hit_of hstart isMarker_tokenMarker (List.cons_ne_nil _ _) hx hnil
      refine ⟨a, [], o, (List.append_nil a).symm, ?_, by rwa [List.append_nil] at hhit, ho⟩
      have hself : Rewritten tokenParameterPattern "[redacted-token]".toList
          ((tokenMarker ++ ['x']) ++ []) o' := by rwa [List.append_nil]
      obtain ⟨o'', rfl, hnil⟩ := Rewrites.found_inv (List.cons_ne_nil _ _) hself hhit
      rw [hout, hnil.nil_inv, List.append_nil]
    · exact ⟨p, l, o, rfl, hout, hhit, ho⟩
  obtain ⟨p, l, o, rfl, hout, hhit, ho⟩ := hlast
  have hat : tokenParameterPattern.hit ((l ++ (tokenMarker ++ ['x'])) ++ []) =
      some (l ++ (tokenMarker ++ ['x']), []) := by rwa [List.append_nil]
  obtain ⟨⟨start, mark, r, hparts, hstart, hmark, hr, hrall⟩, -⟩ := token_hit hat
  obtain ⟨r', e, rfl⟩ : ∃ r' e, r = r' ++ [e] := by
    rcases List.eq_nil_or_concat r with rfl | ⟨r', e, rfl⟩
    · exact absurd rfl hr
    · exact ⟨r', e, List.concat_eq_append⟩
  have hfront : l ++ tokenMarker = start ++ (mark ++ r') := by
    have heq : (l ++ tokenMarker) ++ ['x'] = (start ++ (mark ++ r')) ++ [e] := by
      simpa using hparts
    exact (List.append_inj' heq rfl).1
  have hlonger : tokenParameterPattern.hit ((l ++ (tokenMarker ++ run)) ++ b) =
      some (l ++ (tokenMarker ++ run), b) := by
    have hparts' : l ++ (tokenMarker ++ run) = start ++ (mark ++ (r' ++ run)) := by
      rw [← List.append_assoc l, hfront]
      simp
    rw [hparts']
    refine token_hit_of hstart hmark (fun hnil => hne (List.append_eq_nil_iff.mp hnil).2)
      (fun c hc => ?_) hstop
    rcases List.mem_append.mp hc with hc | hc
    · exact hrall c (List.mem_append_left _ hc)
    · exact hrun c hc
  rw [hout]
  apply Rewritten.eq_replaceAll replaceable_token
  have hwhole : p ++ l ++ (tokenMarker ++ (run ++ b)) =
      p ++ ((l ++ (tokenMarker ++ run)) ++ b) := by simp
  rw [hwhole, List.append_assoc o]
  refine Rewrites.append ?_ (.found ?_ (by rwa [List.append_nil]) (rewritten_redactParameters b))
  · rw [List.append_nil]
    have hcontext := ho.of_behind headOnly_token isForeign_tokenMarker.ne_nil
      (fun _ => token_hit_of_marker (z := run ++ b)) l
    simpa using hcontext
  · simp [isForeign_tokenMarker.ne_nil]

end Stages

/-! ## Behind the marker -/

section Behind

variable {b k : List Char}

/-- What stands behind the first word of a text that begins with white space. -/
def behindWord (b : List Char) : List Char :=
  (b.dropWhile Text.isSpace).dropWhile fun c => !Text.isSpace c

theorem startsBlank_behindWord (b : List Char) : StartsBlank (behindWord b) := by
  intro c hc
  have hstop := List.head?_dropWhile_not (fun c => !Text.isSpace c) (b.dropWhile Text.isSpace)
  rw [behindWord] at hc
  rw [Option.mem_def.mp hc] at hstop
  simpa using hstop

/-- White space, a word, and what stands behind it. -/
theorem behindWord_parts (hb : StartsBlank b) (hword : ∃ c ∈ b, Text.isSpace c = false) :
    ∃ spaces word, b = spaces ++ (word ++ behindWord b) ∧ spaces ≠ [] ∧ word ≠ [] ∧
      (∀ c ∈ spaces, Text.isSpace c = true) ∧ ∀ c ∈ word, Text.isSpace c = false := by
  refine ⟨b.takeWhile Text.isSpace, (b.dropWhile Text.isSpace).takeWhile fun c => !Text.isSpace c,
    ?_, ?_, ?_, fun c hc => List.mem_takeWhile_imp hc, fun c hc => ?_⟩
  · rw [behindWord, List.takeWhile_append_dropWhile, List.takeWhile_append_dropWhile]
  · obtain ⟨c, hc, hspace⟩ := hword
    obtain ⟨d, b, rfl⟩ := List.exists_cons_of_ne_nil (List.ne_nil_of_mem hc)
    rw [List.takeWhile_cons_of_pos (hb d rfl)]
    exact List.cons_ne_nil _ _
  · obtain ⟨c, hc, hspace⟩ := hword
    cases hdrop : b.dropWhile Text.isSpace with
    | nil =>
        rw [List.dropWhile_eq_nil_iff] at hdrop
        rw [hdrop c hc] at hspace
        cases hspace
    | cons d rest =>
        have hstop := List.head?_dropWhile_not Text.isSpace b
        rw [hdrop] at hstop
        have hd : Text.isSpace d = false := by simpa using hstop
        rw [List.takeWhile_cons_of_pos (by rw [hd]; rfl)]
        exact List.cons_ne_nil _ _
  · have hc := List.mem_takeWhile_imp hc
    simpa using hc

/-- The secret ends with the word that makes a credential of what follows. -/
def EndsInBearer (k : List Char) : Prop := ∃ word, Lowers "bearer" word ∧ word <:+ k

theorem isSpace_of_marker_secret (hk : IsSecret k) :
    ∀ c ∈ tokenMarker ++ k, Text.isSpace c = false := by
  intro c hc
  rcases List.mem_append.mp hc with hc | hc
  · exact isSpace_tokenMarker c hc
  · exact hk.isSpace c hc

theorem suffix_of_marker {v : List Char} (hequals : '=' ∉ v) (hv : v <:+ tokenMarker ++ k) :
    v <:+ k := by
  rcases List.suffix_or_suffix_of_suffix hv (List.suffix_append tokenMarker k) with hin | hin
  · exact hin
  · obtain ⟨u, rfl⟩ := hin
    obtain ⟨t, ht⟩ := hv
    rw [← List.append_assoc] at ht
    have hmarker := List.append_cancel_right ht
    rcases List.eq_nil_or_concat u with rfl | ⟨u, e, rfl⟩
    · exact List.suffix_rfl
    · rw [List.concat_eq_append, ← List.append_assoc] at hmarker
      obtain ⟨-, he⟩ := List.append_inj' (hmarker.trans
        (show tokenMarker = "token".toList ++ ['='] from rfl)) rfl
      obtain ⟨rfl, -⟩ := List.cons.inj he
      exact absurd (by simp) hequals

/-- A secret without the word, or before nothing, is left to the next stage. -/
theorem redactBearers_secret (hk : IsSecret k) (hb : StartsBlank b)
    (hsafe : ¬ EndsInBearer k ∨ ∀ c ∈ b, Text.isSpace c = true) :
    redactBearers (tokenMarker ++ (k ++ b)) = tokenMarker ++ (k ++ redactBearers b) := by
  apply Rewritten.eq_replaceAll replaceable_bearer
  rw [← List.append_assoc, ← List.append_assoc]
  refine Rewrites.append (rewrites_self fun v hne hv => ?_) (rewritten_redactBearers b)
  rw [List.append_nil]
  refine bearer_hit_eq_none_iff.mpr fun hat => ?_
  have hspace : ∀ c ∈ v, Text.isSpace c = false :=
    fun c hc => isSpace_of_marker_secret hk c (hv.subset hc)
  rcases hsafe with hsafe | hblank
  · have hword := bearer_of_bearerAt hb hspace hat
    exact hsafe ⟨v, hword, suffix_of_marker (not_mem_of_lowers hword (by decide)) hv⟩
  · obtain ⟨word, spaces, c, rest, heq, hword, hne', hspaces, hc⟩ := hat
    obtain ⟨u, rfl, hu⟩ := hb.before (isSpace_of_bearer hword) heq.symm
    obtain ⟨e, spaces, rfl⟩ := List.exists_cons_of_ne_nil hne'
    have hfirst := hspaces e List.mem_cons_self
    cases u with
    | nil =>
        rw [List.nil_append] at hu
        have hmem : c ∈ b := hu ▸ List.mem_append_right _ List.mem_cons_self
        rw [hblank c hmem] at hc
        cases hc
    | cons d u =>
        obtain ⟨rfl, -⟩ := List.cons.inj hu
        rw [hspace e (by simp)] at hfirst
        cases hfirst

/-- A secret with the word takes the next one in. -/
theorem redactBearers_secret_word {word spaces run : List Char} (hk : IsSecret (k ++ word))
    (hword : Lowers "bearer" word) (hne : spaces ≠ [])
    (hspaces : ∀ c ∈ spaces, Text.isSpace c = true) (hne' : run ≠ [])
    (hrun : ∀ c ∈ run, Text.isSpace c = false) (hb : StartsBlank b) :
    redactBearers (tokenMarker ++ ((k ++ word) ++ (spaces ++ (run ++ b)))) =
      tokenMarker ++ ((k ++ "[redacted-credential]".toList) ++ redactBearers b) := by
  apply Rewritten.eq_replaceAll replaceable_bearer
  have hblank : StartsBlank (spaces ++ (run ++ b)) := by
    obtain ⟨e, spaces, rfl⟩ := List.exists_cons_of_ne_nil hne
    exact startsBlank_cons (hspaces e List.mem_cons_self) _
  have hhit := bearer_hit_of hword hne hspaces hne' hrun hb
  have hwhole : tokenMarker ++ ((k ++ word) ++ (spaces ++ (run ++ b))) =
      (tokenMarker ++ k) ++ ((word ++ (spaces ++ run)) ++ b) := by simp
  have hout : tokenMarker ++ ((k ++ "[redacted-credential]".toList) ++ redactBearers b) =
      (tokenMarker ++ k) ++ ("[redacted-credential]".toList ++ redactBearers b) := by simp
  rw [hwhole, hout]
  refine Rewrites.append (rewrites_self fun v hne'' hv => ?_)
    (.found (by simp [hne]) (by rwa [List.append_nil]) (rewritten_redactBearers b))
  refine bearer_hit_eq_none_iff.mpr fun hat => ?_
  have hspace : ∀ c ∈ v ++ word, Text.isSpace c = false := by
    intro c hc
    rcases List.mem_append.mp hc with hc | hc
    · rcases List.mem_append.mp (hv.subset hc) with hc | hc
      · exact isSpace_tokenMarker c hc
      · exact hk.isSpace c (List.mem_append_left _ hc)
    · exact isSpace_of_bearer hword c hc
  have hlong := bearer_of_bearerAt (x := v ++ word) hblank hspace (by simpa using hat)
  have hlength : (v ++ word).length = word.length := by
    have hsame := congrArg List.length (hlong.trans hword.symm)
    rwa [List.length_map, List.length_map] at hsame
  have hpos := List.length_pos_iff.mpr hne''
  rw [List.length_append] at hlength
  omega

/-- The URLs of a word are replaced on their own. -/
theorem redactUrls_parts {spaces word : List Char} (hspaces : ∀ c ∈ spaces, Text.isSpace c = true)
    (hne : word ≠ []) (hword : ∀ c ∈ word, Text.isSpace c = false) (hb : StartsBlank b) :
    ∃ run, redactUrls (spaces ++ (word ++ b)) = spaces ++ (run ++ redactUrls b) ∧ run ≠ [] ∧
      ∀ c ∈ run, Text.isSpace c = false := by
  refine ⟨redactUrls word, ?_, ?_, fun c hc => ?_⟩
  · rw [← redactUrls_append hb]
    apply Rewritten.eq_replaceAll replaceable_url
    refine Rewrites.append (rewrites_self fun v hne hv => ?_) (rewritten_redactUrls _)
    obtain ⟨d, v, rfl⟩ := List.exists_cons_of_ne_nil hne
    have hd := hspaces d (hv.subset List.mem_cons_self)
    refine url_hit_eq_none_iff.mpr ?_
    exact not_urlAt_word (x := []) (startsBlank_cons hd _) List.not_mem_nil
  · exact (rewritten_redactUrls word).ne_nil (by decide) hne
  · rcases (rewritten_redactUrls word).mem_of_mem hc with hc | hc
    · exact hword c hc
    · have hall : ∀ c ∈ "[redacted-url]".toList, Text.isSpace c = false :=
        List.all_iff_forall_prop.mp (by decide)
      exact hall c hc

end Behind

/-! ## A secret behind `token=` -/

section Token

variable {a b k : List Char}

/-- The marker is left standing by the first two stages. -/
def MarkerStands (a : List Char) : Prop :=
  tokenMarker <:+ redactBearers (redactUrls (a ++ tokenMarker))

theorem not_marker_suffix (o : List Char) : ¬ tokenMarker <:+ o ++ [']'] := by
  rintro ⟨o', ho⟩
  rw [show tokenMarker = "token".toList ++ ['='] from rfl, ← List.append_assoc] at ho
  obtain ⟨-, hlast⟩ := List.append_inj' ho rfl
  cases hlast

/-- A stage that takes the marker in takes the secret in. -/
theorem redactCredentials_covered (h : ¬ MarkerStands a) {k₁ k₂ : List Char} (h₁ : IsSecret k₁)
    (h₂ : IsSecret k₂) (hb : StartsBlank b) :
    redactCredentials (a ++ (tokenMarker ++ (k₁ ++ b))) =
      redactCredentials (a ++ (tokenMarker ++ (k₂ ++ b))) := by
  rw [redactCredentials_eq, redactCredentials_eq]
  rcases redactUrls_token a with ⟨o, ho, hurls⟩ | ⟨o, -, hurls⟩
  · rw [hurls k₁ b h₁ hb, hurls k₂ b h₂ hb]
    rcases redactBearers_token o with ⟨o', ho', -⟩ | ⟨o', -, hbearers⟩
    · rw [MarkerStands, ho, ho'] at h
      exact absurd (List.suffix_append o' tokenMarker) h
    · have hblank := startsBlank_redactUrls hb
      rw [hbearers k₁ _ h₁ hblank, hbearers k₂ _ h₂ hblank]
  · rw [hurls k₁ b h₁ hb, hurls k₂ b h₂ hb]

theorem bearers_of_marker (h : MarkerStands a) : ∃ o, ∀ k b, IsSecret k → StartsBlank b →
    redactBearers (redactUrls (a ++ (tokenMarker ++ (k ++ b)))) =
      o ++ redactBearers (tokenMarker ++ (k ++ redactUrls b)) := by
  rcases redactUrls_token a with ⟨o, ho, hurls⟩ | ⟨o, ho, -⟩
  · rcases redactBearers_token o with ⟨o', -, hbearers⟩ | ⟨o', ho', -⟩
    · exact ⟨o', fun k b hk hb => by rw [hurls k b hk hb, hbearers]⟩
    · rw [MarkerStands, ho, ho'] at h
      have hlast : o' ++ "[redacted-credential]".toList =
          (o' ++ "[redacted-credential".toList) ++ [']'] := by simp
      rw [hlast] at h
      exact absurd h (not_marker_suffix _)
  · have hlast : o ++ "[redacted-url]".toList = (o ++ "[redacted-url".toList) ++ [']'] := by simp
    rw [MarkerStands, ho, hlast] at h
    obtain ⟨o', d, ho', hd⟩ := last_of_rewritten isReplacement_credential
      (rewritten_redactBearers ((o ++ "[redacted-url".toList) ++ [']']))
    have hbracket : d = ']' := hd.elim id id
    rw [ho', hbracket] at h
    exact absurd h (not_marker_suffix o')

/-- Where the marker stands, the secret is replaced, with the word behind it if it ends with
`bearer`. -/
theorem redactCredentials_standing (h : MarkerStands a) : ∃ o, ∀ k b, IsSecret k →
    StartsBlank b →
    ((¬ EndsInBearer k ∨ ∀ c ∈ b, Text.isSpace c = true) →
      redactCredentials (a ++ (tokenMarker ++ (k ++ b))) = o ++ redactCredentials b) ∧
    (EndsInBearer k → (∃ c ∈ b, Text.isSpace c = false) →
      redactCredentials (a ++ (tokenMarker ++ (k ++ b))) =
        o ++ redactCredentials (behindWord b)) := by
  obtain ⟨o, ho⟩ := bearers_of_marker h
  refine ⟨redactLinks (redactParameters (o ++ (tokenMarker ++ ['x']))), fun k b hk hb => ⟨?_, ?_⟩⟩
  · intro hsafe
    have hblank := startsBlank_redactUrls hb
    have hsafe' : ¬ EndsInBearer k ∨ ∀ c ∈ redactUrls b, Text.isSpace c = true := by
      refine hsafe.imp_right fun hall => ?_
      have hcolon : ':' ∉ b := fun hmem => absurd (hall _ hmem) (by decide)
      rwa [redactUrls_word hcolon]
    rw [redactCredentials_eq, ho k b hk hb, redactBearers_secret hk hblank hsafe',
      redactParameters_token o k _ hk.ne_nil hk.parameter (startsBlank_redactBearers hblank),
      redactLinks_append (startsBlank_redactParameters (startsBlank_redactBearers hblank))]
    rfl
  · rintro ⟨word, hword, k, rfl⟩ hwords
    obtain ⟨spaces, run, hparts, hne, hne', hspaces, hrun⟩ := behindWord_parts hb hwords
    have hbehind := startsBlank_behindWord b
    obtain ⟨run', hurls, hrun', hall⟩ := redactUrls_parts hspaces hne' hrun hbehind
    rw [← hparts] at hurls
    have hblank := startsBlank_redactUrls hbehind
    have hall' : ∀ c ∈ k ++ "[redacted-credential]".toList, isParameterChar c = true := by
      intro c hc
      rcases List.mem_append.mp hc with hc | hc
      · exact hk.parameter c (List.mem_append_left _ hc)
      · have hname : ∀ c ∈ "[redacted-credential]".toList, isParameterChar c = true :=
          List.all_iff_forall_prop.mp (by decide)
        exact hname c hc
    rw [redactCredentials_eq, ho _ b hk hb, hurls,
      redactBearers_secret_word hk hword hne hspaces hrun' hall hblank,
      redactParameters_token o _ _ (by simp) hall' (startsBlank_redactBearers hblank),
      redactLinks_append (startsBlank_redactParameters (startsBlank_redactBearers hblank))]
    rfl

/-- How much is stored behind the parameter. -/
def roomBehind (a : List Char) : Nat :=
  snapshotMaxTextChars - Text.utf16Length (redactCredentials (a ++ (tokenMarker ++ ['x'])))

/-- What is stored of a text is the same without its first word. -/
def StoredAlike (room : Nat) (b : List Char) : Prop :=
  Text.sliceTo room (redactCredentials b) = Text.sliceTo room (redactCredentials (behindWord b))

theorem sliceTo_append_inj {n : Nat} {o x y : List Char} :
    Text.sliceTo n (o ++ x) = Text.sliceTo n (o ++ y) ↔
      Text.sliceTo (n - Text.utf16Length o) x = Text.sliceTo (n - Text.utf16Length o) y := by
  rcases Nat.le_total (Text.utf16Length o) n with hle | hle
  · rw [Text.sliceTo_append hle, Text.sliceTo_append hle, List.append_cancel_left_eq]
  · have hzero (t : List Char) : Text.sliceTo 0 t = [] := by cases t <;> rfl
    rw [Nat.sub_eq_zero_of_le hle, hzero, hzero, Text.sliceTo_append_of_le hle x y]
    simp

/-- The secret is hidden where an earlier stage takes the marker in, where no word follows the
secret, and where that word makes no difference to what is stored. -/
theorem hides_token_iff (hb : StartsBlank b) : Hides redactText "token=" a b ↔
    ¬ MarkerStands a ∨ (∀ c ∈ b, Text.isSpace c = true) ∨ StoredAlike (roomBehind a) b := by
  by_cases hstands : MarkerStands a
  · obtain ⟨o, ho⟩ := redactCredentials_standing hstands
    have hx : IsSecret ['x'] := ⟨List.cons_ne_nil _ _, List.all_iff_forall_prop.mp (by decide)⟩
    have hroom : roomBehind a = snapshotMaxTextChars - Text.utf16Length o := by
      have hshort := (ho ['x'] [] hx startsBlank_nil).1 (.inr fun _ h => nomatch h)
      rw [List.append_nil, show redactCredentials [] = [] by decide, List.append_nil] at hshort
      rw [roomBehind, hshort]
    rw [or_iff_right (not_not.mpr hstands), StoredAlike, hroom, ← sliceTo_append_inj]
    constructor
    · intro hhides
      by_contra hnot
      obtain ⟨hblank, hdiffer⟩ := not_or.mp hnot
      push Not at hblank
      obtain ⟨c, hc, hspace⟩ := hblank
      have hword : IsSecret "bearer".toList :=
        ⟨List.cons_ne_nil _ _, List.all_iff_forall_prop.mp (by decide)⟩
      have hplain : IsSecret "aaaaaa".toList :=
        ⟨List.cons_ne_nil _ _, List.all_iff_forall_prop.mp (by decide)⟩
      have hnone : ¬ EndsInBearer "aaaaaa".toList := by
        rintro ⟨word, hlower, hsuffix⟩
        have hnot : ∀ v ∈ "aaaaaa".toList.tails, ¬ Lowers "bearer" v := by decide
        exact hnot word ((List.mem_tails word _).mpr hsuffix) hlower
      have heq := hhides _ _ hword hplain rfl
      rw [redactText_ofList, redactText_ofList] at heq
      have heq := String.ofList_injective heq
      rw [show "token=".toList = tokenMarker from rfl,
        (ho _ b hword hb).2 ⟨"bearer".toList, by decide, List.suffix_rfl⟩
          ⟨c, hc, (Bool.not_eq_true _).mp hspace⟩,
        (ho _ b hplain hb).1 (.inl hnone)] at heq
      exact hdiffer heq.symm
    · intro hsafe k₁ k₂ h₁ h₂ _
      have hsame {k : List Char} (hk : IsSecret k) :
          Text.sliceTo snapshotMaxTextChars
            (redactCredentials (a ++ (tokenMarker ++ (k ++ b)))) =
          Text.sliceTo snapshotMaxTextChars (o ++ redactCredentials b) := by
        by_cases hplain : ¬ EndsInBearer k ∨ ∀ c ∈ b, Text.isSpace c = true
        · rw [(ho k b hk hb).1 hplain]
        · obtain ⟨hbearer, hblank⟩ := not_or.mp hplain
          push Not at hblank
          obtain ⟨c, hc, hspace⟩ := hblank
          rw [(ho k b hk hb).2 (not_not.mp hbearer) ⟨c, hc, (Bool.not_eq_true _).mp hspace⟩]
          rcases hsafe with hall | halike
          · exact absurd (hall c hc) hspace
          · exact halike.symm
      rw [redactText_ofList, redactText_ofList, show "token=".toList = tokenMarker from rfl,
        hsame h₁, hsame h₂]
  · refine iff_of_true (fun k₁ k₂ h₁ h₂ _ => ?_) (.inl hstands)
    rw [redactText_ofList, redactText_ofList, show "token=".toList = tokenMarker from rfl,
      redactCredentials_covered hstands h₁ h₂ hb]

end Token

end AgentGather.Storage
