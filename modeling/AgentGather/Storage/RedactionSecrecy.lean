import AgentGather.Storage.RedactionStages

/-!
# What is stored of a secret

When the redaction of a text is the same whatever the secret behind a marker is.  A stage may
take the marker of a secret into a match of its own, and the secret is then left standing; and
a secret may end with the word that makes a credential of what follows it.
-/

namespace AgentGather.Storage

open AgentGather.Library AgentGather.Library.Regex

/-! ## Texts that begin with white space -/

def StartsBlank (b : List Char) : Prop := ∀ c ∈ b.head?, Text.isSpace c = true

theorem startsBlank_nil : StartsBlank [] := fun _ hc => nomatch hc

theorem startsBlank_cons {c : Char} (hc : Text.isSpace c = true) (b : List Char) :
    StartsBlank (c :: b) := by
  intro d hd
  obtain rfl : c = d := Option.some.inj hd
  exact hc

section Blank

variable {b lit t x : List Char}

/-- A fragment without white space stands before it. -/
theorem StartsBlank.before (hb : StartsBlank b) (hlit : ∀ c ∈ lit, Text.isSpace c = false)
    (h : lit ++ t = x ++ b) : ∃ u, x = lit ++ u ∧ t = u ++ b := by
  cases b with
  | nil =>
      rw [List.append_nil] at h
      exact ⟨t, h.symm, (List.append_nil t).symm⟩
  | cons c b =>
      refine Text.eq_append_of_not_mem (fun hmem => ?_) h
      have hc := hb c rfl
      rw [hlit c hmem] at hc
      cases hc

theorem mem_of_lowers {s : String} {c : Char} (h : Lowers s lit) (hc : c ∈ s.toList)
    (hself : ∀ n < 128, (Char.ofNat n).toLower = c → Char.ofNat n = c) : c ∈ lit := by
  rw [← h] at hc
  obtain ⟨d, hd, hlower⟩ := List.mem_map.mp hc
  by_cases hascii : d.toNat < 128
  · have hn := hself d.toNat hascii
    rw [Char.ofNat_toNat] at hn
    exact hn hlower ▸ hd
  · rw [toLower_of_not_ascii hascii] at hlower
    exact hlower ▸ hd

theorem IsScheme.colon_mem {scheme : List Char} (h : IsScheme scheme) : ':' ∈ scheme := by
  rcases h with h | h
  · exact mem_of_lowers h (by decide) (by decide)
  · exact mem_of_lowers h (by decide) (by decide)

theorem not_urlAt_word (hb : StartsBlank b) (hx : ':' ∉ x) : ¬ UrlAt (x ++ b) := by
  rintro ⟨scheme, v, mark, rest, heq, hscheme, -⟩
  obtain ⟨u, rfl, -⟩ := hb.before hscheme.isSpace heq.symm
  exact hx (List.mem_append_left u hscheme.colon_mem)

theorem IsMarker.isSpace {mark : List Char} (h : IsMarker mark) :
    ∀ c ∈ mark, Text.isSpace c = false := by
  have hall := h.all (p := fun c => !Text.isSpace c) (by decide) (by decide)
  exact fun c hc => mem_notSpace (hall c hc)

theorem not_tokenAt_word (hb : StartsBlank b) (hx : '=' ∉ x) : ¬ TokenAt (x ++ b) := by
  rintro ⟨mark, c, rest, heq, hmark, -⟩
  obtain ⟨u, rfl, -⟩ := hb.before hmark.isSpace heq.symm
  obtain ⟨word, rfl, -⟩ := hmark
  exact hx (by simp)

theorem not_linkAt_word (hb : StartsBlank b) (hx : '_' ∉ x) : ¬ LinkAt (x ++ b) := by
  rintro ⟨c, rest, heq, -⟩
  have hspace : ∀ c ∈ "tgl_".toList, Text.isSpace c = false :=
    isSpace_of_lowers (show Lowers "tgl_" "tgl_".toList by decide) (by decide)
  obtain ⟨u, rfl, -⟩ := hb.before hspace heq.symm
  exact hx (List.mem_append_left u (by decide))

theorem isSpace_of_bearer {word : List Char} (h : Lowers "bearer" word) :
    ∀ c ∈ word, Text.isSpace c = false := isSpace_of_lowers h (by decide)

/-- Before white space, only the word itself begins a bearer credential. -/
theorem bearer_of_bearerAt (hb : StartsBlank b) (hx : ∀ c ∈ x, Text.isSpace c = false)
    (h : BearerAt (x ++ b)) : Lowers "bearer" x := by
  obtain ⟨word, spaces, c, rest, heq, hword, hne, hspaces, -⟩ := h
  obtain ⟨u, rfl, hu⟩ := hb.before (isSpace_of_bearer hword) heq.symm
  cases u with
  | nil => rwa [List.append_nil]
  | cons d u =>
      obtain ⟨e, spaces, rfl⟩ := List.exists_cons_of_ne_nil hne
      obtain ⟨rfl, -⟩ := List.cons.inj hu
      have hspace := hspaces e List.mem_cons_self
      rw [hx e (by simp)] at hspace
      cases hspace

end Blank

/-! ## Stages before white space -/

section Stages

variable {b p : List Char}

theorem urlAt_of_append {x y : List Char} {d : Char} (hd : Text.isSpace d = true)
    (h : UrlAt (x ++ d :: y)) : UrlAt x := by
  obtain ⟨scheme, v, mark, rest, heq, hscheme, hv, hmark⟩ := h
  have hspace : ∀ c ∈ scheme ++ (v ++ mark), Text.isSpace c = false := by
    intro c hc
    simp only [List.mem_append] at hc
    rcases hc with hc | hc | hc
    · exact hscheme.isSpace c hc
    · exact hv c hc
    · exact hmark.isSpace c hc
  obtain ⟨u, rfl, -⟩ := (startsBlank_cons hd y).before hspace (by simpa using heq.symm)
  exact ⟨scheme, v, mark, u, by simp, hscheme, hv, hmark⟩

/-- A match of the URL pattern, with the mark that makes it a credential. -/
theorem url_hit_parts {now rest : List Char}
    (h : credentialUrlPattern.hit (now ++ rest) = some (now, rest)) :
    ∃ scheme v mark run, now = scheme ++ (v ++ (mark ++ run)) ∧ IsScheme scheme ∧
      IsUrlMark mark ∧ (∀ c ∈ v, Text.isSpace c = false) ∧
      ∀ c ∈ run, Text.isSpace c = false := by
  obtain ⟨scheme, run, rfl, hscheme, -, hrun, v, mark, rest', heq, hv, hmark⟩ :=
    denotes_credentialUrl_iff.mp (hit_eq_some h).2
  have hspace : ∀ c ∈ v ++ mark, Text.isSpace c = false := by
    intro c hc
    rcases List.mem_append.mp hc with hc | hc
    · exact hv c hc
    · exact hmark.isSpace c hc
  have hsplit : (v ++ mark) ++ rest' = run ++ rest := by
    rw [List.append_assoc]
    exact heq.symm
  obtain ⟨u, rfl, -⟩ := StartsBlank.before (url_hit h).2.2 hspace hsplit
  exact ⟨scheme, v, mark, u, by simp, hscheme, hmark, hv,
    fun c hc => hrun c (List.mem_append_right _ hc)⟩

theorem redactUrls_append (hb : StartsBlank b) :
    redactUrls (p ++ b) = redactUrls p ++ redactUrls b := by
  apply Rewritten.eq_replaceAll replaceable_url
  refine Rewrites.append ?_ (rewritten_redactUrls b)
  rw [List.append_nil]
  refine (rewritten_redactUrls p).change (fun x hx _ hnone => ?_) (fun now x _ hhit => ?_)
  · rw [List.append_nil] at hnone
    refine url_hit_eq_none_iff.mpr fun hat => url_hit_eq_none_iff.mp hnone ?_
    cases b with
    | nil => rwa [List.append_nil] at hat
    | cons d b => exact urlAt_of_append (hb d rfl) hat
  · rw [List.append_nil] at hhit
    obtain ⟨scheme, v, mark, run, rfl, hscheme, hmark, hv, hrun⟩ := url_hit_parts hhit
    refine url_hit_of hscheme hmark hv hrun ?_
    cases x with
    | nil => exact hb
    | cons c x => exact (url_hit hhit).2.2

theorem redactParameters_append (hb : StartsBlank b) :
    redactParameters (p ++ b) = redactParameters p ++ redactParameters b := by
  apply Rewritten.eq_replaceAll replaceable_token
  refine Rewrites.append ?_ (rewritten_redactParameters b)
  rw [List.append_nil]
  cases b with
  | nil => exact rewritten_redactParameters p
  | cons d b =>
      refine rewrites_token_of_stop ?_ (rewritten_redactParameters p)
      rw [isParameterChar, hb d rfl]
      rfl

theorem redactLinks_append (hb : StartsBlank b) :
    redactLinks (p ++ b) = redactLinks p ++ redactLinks b := by
  apply Rewritten.eq_replaceAll replaceable_link
  refine Rewrites.append ?_ (rewritten_redactLinks b)
  rw [List.append_nil]
  cases b with
  | nil => exact rewritten_redactLinks p
  | cons d b =>
      refine rewrites_link_of_stop ?_ (rewritten_redactLinks p)
      by_contra hd
      have hspace := isSpace_of_isLinkChar ((Bool.not_eq_false _).mp hd)
      rw [hb d rfl] at hspace
      cases hspace

theorem redactUrls_word {x : List Char} (hx : ':' ∉ x) : redactUrls x = x := by
  apply Rewritten.eq_replaceAll replaceable_url
  refine rewritten_self fun v _ hv => url_hit_eq_none_iff.mpr ?_
  have hnot := not_urlAt_word (x := v) startsBlank_nil fun hmem => hx (hv.subset hmem)
  rwa [List.append_nil] at hnot

theorem redactParameters_word {x : List Char} (hx : '=' ∉ x) : redactParameters x = x := by
  apply Rewritten.eq_replaceAll replaceable_token
  have hnone {v : List Char} (hv : '=' ∉ v) : ¬ TokenAt v := by
    have hnot := not_tokenAt_word startsBlank_nil hv
    rwa [List.append_nil] at hnot
  refine rewritten_self fun v _ hv => token_hit_eq_none_iff.mpr ⟨?_, ?_⟩
  · exact hnone fun hmem => hx (hv.subset hmem)
  · rintro d s rfl -
    exact hnone fun hmem => hx (hv.subset (List.mem_cons_of_mem d hmem))

theorem redactLinks_word {x : List Char} (hx : '_' ∉ x) : redactLinks x = x := by
  apply Rewritten.eq_replaceAll replaceable_link
  refine rewritten_self fun v _ hv => link_hit_eq_none_iff.mpr ?_
  have hnot := not_linkAt_word (x := v) startsBlank_nil fun hmem => hx (hv.subset hmem)
  rwa [List.append_nil] at hnot

/-! ### Bearer credentials before white space -/

def EndsWithBearer (text : List Char) : Prop := ∃ word, Lowers "bearer" word ∧ word <:+ text

theorem head?_of_bearer {word : List Char} (h : Lowers "bearer" word) :
    ∃ c tail, word = c :: tail ∧ c.toLower = 'b' ∧ Text.isSpace c = false := by
  obtain ⟨c, tail, rfl, hc, -⟩ := List.map_eq_cons_iff.mp (show List.map Char.toLower word =
    'b' :: "earer".toList from h)
  exact ⟨c, tail, rfl, hc, isSpace_of_bearer h c List.mem_cons_self⟩

/-- The word does not overlap itself. -/
theorem bearer_not_overlap {x word word' t y : List Char} (hx : x ≠ [])
    (hword : Lowers "bearer" word) (hword' : Lowers "bearer" word')
    (h : word' ++ t = x ++ (word ++ y)) : ∃ u, x = word' ++ u ∧ t = u ++ (word ++ y) := by
  rcases List.append_eq_append_iff.mp h with ⟨u, hu, ht⟩ | ⟨u, hu, ht⟩
  · exact ⟨u, hu, ht⟩
  · cases u with
    | nil => exact ⟨[], by rw [hu, List.append_nil, List.append_nil], ht.symm⟩
    | cons d u =>
        exfalso
        obtain ⟨c, tail, rfl, hc, -⟩ := head?_of_bearer hword
        obtain ⟨rfl, -⟩ := List.cons.inj ht
        obtain ⟨e, x, rfl⟩ := List.exists_cons_of_ne_nil hx
        rw [Lowers, hu, List.cons_append, List.map_cons] at hword'
        have htail : (x ++ c :: u).map Char.toLower = "earer".toList :=
          (List.cons.inj (show _ = 'b' :: "earer".toList from hword')).2
        have hmem : 'b' ∈ "earer".toList := by
          rw [← htail, ← hc]
          exact List.mem_map_of_mem (List.mem_append_right x List.mem_cons_self)
        revert hmem
        decide

/-- Where white space or a word follows it, the credentials before it stay the same. -/
theorem bearerAt_of_bearer {x word y y' : List Char} (hx : x ≠ []) (hword : Lowers "bearer" word)
    (h : BearerAt (x ++ (word ++ y))) : BearerAt (x ++ (word ++ y')) := by
  obtain ⟨word', spaces, c, rest, heq, hword', hne, hspaces, hc⟩ := h
  obtain ⟨u, rfl, hu⟩ := bearer_not_overlap hx hword hword' heq.symm
  obtain ⟨e, tail, rfl, -, he⟩ := head?_of_bearer hword
  have hnot : e ∉ spaces := fun hmem => by
    rw [hspaces e hmem] at he
    cases he
  obtain ⟨v, rfl, hv⟩ := Text.eq_append_of_not_mem hnot hu
  cases v with
  | nil => exact ⟨word', spaces, e, tail ++ y', by simp, hword', hne, hspaces, he⟩
  | cons d v =>
      obtain ⟨rfl, -⟩ := List.cons.inj hv
      exact ⟨word', spaces, c, v ++ (e :: tail ++ y'), by simp, hword', hne, hspaces, hc⟩

/-- A word that is left standing makes a credential of the secret behind it. -/
theorem redactBearers_standing {text : List Char} (h : EndsWithBearer (redactBearers text)) :
    ∃ o, ∀ k b, k ≠ [] → (∀ c ∈ k, Text.isSpace c = false) → StartsBlank b →
      redactBearers (text ++ ' ' :: (k ++ b)) =
        o ++ ("[redacted-credential]".toList ++ redactBearers b) := by
  obtain ⟨word, hword, o, ho⟩ := h
  have hrewritten := rewritten_redactBearers text
  rw [← ho, ← List.append_nil (o ++ word)] at hrewritten
  obtain ⟨p, y, rfl, hp, -, hy⟩ :=
    split_foreign isReplacement_credential (isForeign_bearer hword) hrewritten
  obtain rfl := hy.eq_of_disjoint isReplacement_credential.mem List.not_mem_nil
  refine ⟨o, fun k b hne hk hb => Rewritten.eq_replaceAll replaceable_bearer ?_⟩
  rw [List.append_nil, List.append_assoc]
  have hhit : bearerPattern.hit (word ++ ([' '] ++ k) ++ b) = some (word ++ ([' '] ++ k), b) := by
    refine bearer_hit_of hword (List.cons_ne_nil _ _) ?_ hne hk hb
    intro c hc
    rw [List.mem_singleton.mp hc]
    rfl
  have hfound : Rewritten bearerPattern "[redacted-credential]".toList
      (word ++ ([' '] ++ k) ++ b) ("[redacted-credential]".toList ++ redactBearers b) := by
    refine .found ?_ (by rwa [List.append_nil]) (rewritten_redactBearers b)
    exact fun hnil => (isForeign_bearer hword).ne_nil (List.append_eq_nil_iff.mp hnil).1
  have hwhole : word ++ ' ' :: (k ++ b) = word ++ ([' '] ++ k) ++ b := by simp
  rw [hwhole]
  refine Rewrites.append (hp.change (fun x hx _ hnone => ?_) (fun now x _ hx => ?_)) hfound
  · refine bearer_hit_eq_none_iff.mpr fun hat => bearer_hit_eq_none_iff.mp hnone ?_
    rw [List.append_assoc, List.append_assoc] at hat
    exact bearerAt_of_bearer hx hword hat
  · obtain ⟨⟨word', spaces, run, rfl, hword', hne', hspaces, hne'', hrun⟩, hrest⟩ :=
      bearer_hit hx
    refine bearer_hit_of hword' hne' hspaces hne'' hrun ?_
    obtain ⟨c, tail, rfl, -, hc⟩ := head?_of_bearer hword
    cases x with
    | nil =>
        rw [hrest c rfl] at hc
        cases hc
    | cons d x => exact hrest

/-- Without such a word, the secret is left as it is. -/
theorem redactBearers_consumed {text : List Char} (h : ¬ EndsWithBearer (redactBearers text))
    (hlast : ∀ p u, text = p ++ u → (∀ c ∈ u, Text.isSpace c = true) → u = [])
    (rest : List Char) : redactBearers (text ++ ' ' :: rest) =
      redactBearers text ++ ' ' :: redactBearers rest := by
  have hblank : StartsBlank (' ' :: rest) := startsBlank_cons rfl rest
  apply Rewritten.eq_replaceAll replaceable_bearer
  refine Rewrites.append ?_ (.copy ?_ (rewritten_redactBearers rest))
  · rw [List.append_nil]
    refine (rewritten_redactBearers text).change_of (fun x o hx hsuffix ho hxo hnone => ?_)
      (fun now x _ hhit => ?_)
    · rw [List.append_nil] at hnone
      refine bearer_hit_eq_none_iff.mpr fun hat => ?_
      obtain ⟨word, spaces, c, tail, heq, hword, hne, hspaces, hc⟩ := hat
      obtain ⟨u, rfl, hu⟩ := hblank.before (isSpace_of_bearer hword) heq.symm
      have hcut : ∀ c ∈ u, Text.isSpace c = true := by
        rcases List.append_eq_append_iff.mp hu with ⟨v, rfl, hv⟩ | ⟨v, hv, -⟩
        · cases v with
          | nil => rwa [List.append_nil]
          | cons d v =>
              obtain ⟨rfl, -⟩ := List.cons.inj hv
              exact absurd ⟨word, spaces, c, v, rfl, hword, hne, hspaces, hc⟩
                (bearer_hit_eq_none_iff.mp hnone)
        · exact fun d hd => hspaces d (hv ▸ List.mem_append_left v hd)
      obtain ⟨p, hp⟩ := hsuffix
      obtain rfl := hlast (p ++ word) u (by rw [← hp, List.append_assoc]) hcut
      rw [List.append_nil] at hxo
      have hself : Rewritten bearerPattern "[redacted-credential]".toList word word := by
        refine rewritten_self fun v _ hv => bearer_hit_eq_none_iff.mpr ?_
        rintro ⟨word', spaces', c', tail', rfl, -, hne', hspaces', -⟩
        obtain ⟨e, spaces', rfl⟩ := List.exists_cons_of_ne_nil hne'
        have hspace := isSpace_of_bearer hword e (hv.subset (by simp))
        rw [hspaces' e List.mem_cons_self] at hspace
        cases hspace
      exact h ⟨word, hword, (hxo.unique hself) ▸ ho⟩
    · rw [List.append_nil] at hhit
      obtain ⟨⟨word, spaces, run, rfl, hword, hne, hspaces, hne', hrun⟩, hrest⟩ := bearer_hit hhit
      refine bearer_hit_of hword hne hspaces hne' hrun ?_
      cases x with
      | nil => exact hblank
      | cons c x => exact hrest
  · rw [List.append_nil]
    refine bearer_hit_eq_none_iff.mpr ?_
    rintro ⟨word, spaces, c, tail, heq, hword, -⟩
    obtain ⟨d, word, rfl, -, hd⟩ := head?_of_bearer hword
    obtain ⟨rfl, -⟩ := List.cons.inj heq
    cases hd

/-- The last character of a rewritten text, if it was not replaced. -/
theorem last_of_rewritten {r : Regex Char} {w text out : List Char} {c : Char}
    (hw : IsReplacement w) (h : Rewritten r w (text ++ [c]) out) :
    ∃ o d, out = o ++ [d] ∧ (d = c ∨ d = ']') := by
  have hreplacement (o : List Char) : ∃ o' d, o ++ w = o' ++ [d] ∧ (d = c ∨ d = ']') := by
    obtain ⟨name, -, rfl⟩ := hw
    exact ⟨o ++ '[' :: name, ']', by simp, .inr rfl⟩
  have hnil {q o : List Char} (hq : q = []) (h : Rewrites r w [] q o) : o = [] := by
    subst hq
    exact h.nil_inv
  rcases Rewrites.cut h with ⟨o₁, o₂, rfl, -, hc⟩ | ⟨p, l, m, q, o₁, o₂, -, hm, -, hne, -, rfl, -, hq⟩
  · generalize hs : [c] = whole at hc
    cases hc with
    | nil => cases hs
    | copy _ hrest =>
        obtain ⟨rfl, hrest'⟩ := List.cons.inj hs
        rw [hnil hrest'.symm hrest]
        exact ⟨o₁, c, rfl, .inl rfl⟩
    | @found now q o hne _ hrest =>
        have hq : q = [] := by
          have hlength := congrArg List.length hs
          have hpos := List.length_pos_iff.mpr hne
          rw [List.length_append, List.length_singleton] at hlength
          exact List.length_eq_zero_iff.mp (by omega)
        rw [hnil hq hrest, List.append_nil]
        exact hreplacement o₁
  · have hq' : q = [] := by
      have hlength := congrArg List.length hm
      have hpos := List.length_pos_iff.mpr hne
      rw [List.length_append, List.length_singleton] at hlength
      exact List.length_eq_zero_iff.mp (by omega)
    rw [hnil hq' hq, List.append_nil]
    exact hreplacement o₁

end Stages

/-! ## A secret behind `Bearer` -/

/-- A secret: letters, digits, underscores and hyphens. -/
structure IsSecret (k : List Char) : Prop where
  ne_nil : k ≠ []
  all : ∀ c ∈ k, isLinkChar c = true

/-- What is stored does not tell which of two secrets of one length stands behind the marker. -/
def Hides (redact : String → String) (marker : String) (a b : List Char) : Prop :=
  ∀ k₁ k₂, IsSecret k₁ → IsSecret k₂ → k₁.length = k₂.length →
    redact (.ofList (a ++ (marker.toList ++ (k₁ ++ b)))) =
      redact (.ofList (a ++ (marker.toList ++ (k₂ ++ b))))

section Bearer

variable {a b k : List Char}

theorem IsSecret.not_mem {c : Char} (h : IsSecret k) (hc : isLinkChar c = false) : c ∉ k :=
  fun hmem => by
    rw [h.all c hmem] at hc
    cases hc

theorem IsSecret.isSpace (h : IsSecret k) : ∀ c ∈ k, Text.isSpace c = false :=
  fun c hc => isSpace_of_isLinkChar (h.all c hc)

/-- The URLs before the secret are replaced on their own. -/
theorem redactUrls_bearer (hk : IsSecret k) (hb : StartsBlank b) :
    redactUrls (a ++ ("Bearer ".toList ++ (k ++ b))) =
      redactUrls (a ++ "Bearer".toList) ++ ' ' :: (k ++ redactUrls b) := by
  have htext : a ++ ("Bearer ".toList ++ (k ++ b)) =
      (a ++ "Bearer".toList) ++ (([' '] ++ k) ++ b) := by
    rw [show "Bearer ".toList = "Bearer".toList ++ [' '] by decide]
    simp
  have hcolon : ':' ∉ [' '] ++ k := by
    have hnot := hk.not_mem (c := ':') (by decide)
    simp [hnot]
  have hsecret : redactUrls (([' '] ++ k) ++ b) = ([' '] ++ k) ++ redactUrls b := by
    rw [redactUrls_append hb, redactUrls_word hcolon]
  have hblank : StartsBlank (([' '] ++ k) ++ b) := startsBlank_cons rfl (k ++ b)
  rw [htext, redactUrls_append hblank, hsecret]
  simp

/-- A stage that no white space begins a match of leaves the white space where it is. -/
theorem startsBlank_of_rewritten {r : Regex Char} {w o : List Char}
    (hnone : ∀ c t, Text.isSpace c = true → r.hit (c :: t) = none) (hb : StartsBlank b)
    (h : Rewritten r w b o) : StartsBlank o := by
  cases b with
  | nil =>
      rw [Rewrites.nil_inv h]
      exact startsBlank_nil
  | cons d b =>
      obtain ⟨o', rfl, -⟩ := Rewrites.copy_inv h (hnone d _ (hb d rfl))
      exact startsBlank_cons (hb d rfl) o'

theorem startsBlank_redactUrls (hb : StartsBlank b) : StartsBlank (redactUrls b) := by
  refine startsBlank_of_rewritten (fun c t hc => ?_) hb (rewritten_redactUrls b)
  refine url_hit_eq_none_iff.mpr ?_
  have hnot := not_urlAt_word (x := []) (startsBlank_cons hc t) List.not_mem_nil
  rwa [List.nil_append] at hnot

theorem startsBlank_redactBearers (hb : StartsBlank b) : StartsBlank (redactBearers b) := by
  refine startsBlank_of_rewritten (fun c t hc => ?_) hb (rewritten_redactBearers b)
  refine bearer_hit_eq_none_iff.mpr fun hat => ?_
  have hword := bearer_of_bearerAt (x := []) (startsBlank_cons hc t)
    (fun _ h => nomatch h) hat
  cases hword

theorem token_hit_space (t : List Char) : tokenParameterPattern.hit (' ' :: t) = none := by
  refine token_hit_eq_none_iff.mpr ⟨?_, ?_⟩
  · have hnot := not_tokenAt_word (x := []) (b := ' ' :: t) (startsBlank_cons rfl t)
      List.not_mem_nil
    rwa [List.nil_append] at hnot
  · intro d s hs hd
    rw [← (List.cons.inj hs).1] at hd
    cases hd

theorem redactParameters_space (t : List Char) :
    redactParameters (' ' :: t) = ' ' :: redactParameters t := by
  apply Rewritten.eq_replaceAll replaceable_token
  refine .copy ?_ (rewritten_redactParameters t)
  exact token_hit_space _

theorem redactLinks_space (t : List Char) : redactLinks (' ' :: t) = ' ' :: redactLinks t := by
  apply Rewritten.eq_replaceAll replaceable_link
  refine .copy (link_hit_eq_none_iff.mpr ?_) (rewritten_redactLinks t)
  have hnot := not_linkAt_word (x := []) (b := ' ' :: (t ++ [])) (startsBlank_cons rfl _)
    List.not_mem_nil
  rwa [List.nil_append] at hnot

theorem startsBlank_redactParameters (hb : StartsBlank b) :
    StartsBlank (redactParameters b) := by
  refine startsBlank_of_rewritten (fun c t hc => ?_) hb (rewritten_redactParameters b)
  refine token_hit_eq_none_iff.mpr ⟨?_, ?_⟩
  · have hnot := not_tokenAt_word (x := []) (startsBlank_cons hc t) List.not_mem_nil
    rwa [List.nil_append] at hnot
  · rintro d s heq hd
    obtain ⟨rfl, -⟩ := List.cons.inj heq
    simp only [isParameterStart, Bool.or_eq_true, beq_iff_eq] at hd
    rcases hd with (rfl | rfl) | rfl <;> cases hc

/-- One letter is no credential. -/
theorem stages_letter {c : Char} (hc : c = 'a' ∨ c = 'b') (hb : StartsBlank b) :
    redactLinks (redactParameters (redactBearers (c :: b))) =
      c :: redactLinks (redactParameters (redactBearers b)) := by
  have hbearers : redactBearers (c :: b) = c :: redactBearers b := by
    apply Rewritten.eq_replaceAll replaceable_bearer
    refine .copy (bearer_hit_eq_none_iff.mpr fun hat => ?_) (rewritten_redactBearers b)
    rw [List.append_nil] at hat
    have hword := bearer_of_bearerAt (x := [c]) hb (by rcases hc with rfl | rfl <;> simp <;> rfl)
      hat
    rcases hc with rfl | rfl <;> exact absurd hword (by decide)
  have hequals : '=' ∉ [c] := by rcases hc with rfl | rfl <;> decide
  have hunderscore : '_' ∉ [c] := by rcases hc with rfl | rfl <;> decide
  have hblank := startsBlank_redactBearers hb
  have hparameters : redactParameters (c :: redactBearers b) =
      c :: redactParameters (redactBearers b) := by
    rw [← List.singleton_append, redactParameters_append hblank, redactParameters_word hequals,
      List.singleton_append]
  rw [hbearers, hparameters, ← List.singleton_append,
    redactLinks_append (startsBlank_redactParameters hblank), redactLinks_word hunderscore,
    List.singleton_append]

theorem last_redactUrls_bearer (a p u : List Char)
    (h : redactUrls (a ++ "Bearer".toList) = p ++ u) (hu : ∀ c ∈ u, Text.isSpace c = true) :
    u = [] := by
  have htext : a ++ "Bearer".toList = (a ++ "Beare".toList) ++ ['r'] := by
    rw [show "Bearer".toList = "Beare".toList ++ ['r'] by decide, List.append_assoc]
  obtain ⟨o, d, ho, hd⟩ := last_of_rewritten isReplacement_url
    (htext ▸ rewritten_redactUrls (a ++ "Bearer".toList))
  rcases List.eq_nil_or_concat u with rfl | ⟨u', e, rfl⟩
  · rfl
  · rw [List.concat_eq_append] at hu h
    have hspace := hu e (by simp)
    rw [← htext, h, ← List.append_assoc] at ho
    obtain ⟨-, he⟩ := List.append_inj' ho rfl
    rw [(List.cons.inj he).1] at hspace
    rcases hd with rfl | rfl <;> cases hspace

theorem redactText_ofList (s : List Char) : redactText (.ofList s) =
    .ofList (Text.sliceTo snapshotMaxTextChars (redactCredentials s)) := by
  rw [redactText, String.toList_ofList]

/-- The secret is hidden where the word before it is left standing by the first stages, or where
what stands before it fills the text. -/
theorem hides_bearer_iff (hb : StartsBlank b) : Hides redactText "Bearer " a b ↔
    EndsWithBearer (redactBearers (redactUrls (a ++ "Bearer".toList))) ∨
      snapshotMaxTextChars ≤
        Text.utf16Length (redactCredentials (a ++ "Bearer".toList)) + 1 := by
  have hblank := startsBlank_redactUrls hb
  by_cases hstanding : EndsWithBearer (redactBearers (redactUrls (a ++ "Bearer".toList)))
  · refine iff_of_true (fun k₁ k₂ h₁ h₂ _ => ?_) (.inl hstanding)
    obtain ⟨o, ho⟩ := redactBearers_standing hstanding
    have hsame {k : List Char} (hk : IsSecret k) :
        redactCredentials (a ++ ("Bearer ".toList ++ (k ++ b))) =
          redactLinks (redactParameters (o ++ ("[redacted-credential]".toList ++
            redactBearers (redactUrls b)))) := by
      rw [redactCredentials_eq, redactUrls_bearer hk hb, ho k _ hk.ne_nil hk.isSpace hblank]
    rw [redactText_ofList, redactText_ofList, hsame h₁, hsame h₂]
  · have hwhole {k : List Char} (hk : IsSecret k) :
        redactCredentials (a ++ ("Bearer ".toList ++ (k ++ b))) =
          (redactCredentials (a ++ "Bearer".toList) ++ [' ']) ++
            redactLinks (redactParameters (redactBearers (k ++ redactUrls b))) := by
      rw [redactCredentials_eq, redactUrls_bearer hk hb,
        redactBearers_consumed hstanding (last_redactUrls_bearer a),
        redactParameters_append (startsBlank_cons rfl _), redactParameters_space,
        redactLinks_append (startsBlank_cons rfl _), redactLinks_space, redactCredentials_eq,
        List.append_assoc]
      rfl
    have hlength : Text.utf16Length (redactCredentials (a ++ "Bearer".toList) ++ [' ']) =
        Text.utf16Length (redactCredentials (a ++ "Bearer".toList)) + 1 := by
      rw [Text.utf16Length, List.map_append, List.sum_append]
      rfl
    rw [or_iff_right hstanding, ← hlength]
    constructor
    · intro hhides
      by_contra hshort
      have ha : IsSecret ['a'] := ⟨List.cons_ne_nil _ _, by simp; decide⟩
      have hb' : IsSecret ['b'] := ⟨List.cons_ne_nil _ _, by simp; decide⟩
      have heq := hhides ['a'] ['b'] ha hb' rfl
      rw [redactText_ofList, redactText_ofList, hwhole ha, hwhole hb'] at heq
      have heq := String.ofList_injective heq
      rw [List.singleton_append, List.singleton_append, stages_letter (.inl rfl) hblank,
        stages_letter (.inr rfl) hblank] at heq
      obtain ⟨x, hx⟩ := Text.sliceTo_append_cons (c := 'a') (Nat.lt_of_not_le hshort)
        (by decide)
      obtain ⟨y, hy⟩ := Text.sliceTo_append_cons (c := 'b') (Nat.lt_of_not_le hshort)
        (by decide)
      rw [hx, hy] at heq
      exact absurd (List.cons.inj (List.append_cancel_left heq)).1 (by decide)
    · intro hlong k₁ k₂ h₁ h₂ _
      rw [redactText_ofList, redactText_ofList, hwhole h₁, hwhole h₂,
        Text.sliceTo_append_of_le hlong]

end Bearer

end AgentGather.Storage
