import AgentGather.Library.RegexReplace
import AgentGather.Storage.Redaction

/-!
# Credentials in a text

Where each of the four patterns of the redaction begins a match, what the match is, and that
a replacement is no credential and makes none of what stands beside it.
-/

namespace AgentGather.Storage

open AgentGather.Library

/-! ## Texts in either case -/

/-- The text in lower case. -/
def Lowers (t : String) (s : List Char) : Prop := s.map Char.toLower = t.toList

instance (t : String) (s : List Char) : Decidable (Lowers t s) :=
  inferInstanceAs (Decidable (_ = _))

theorem denotes_litIgnoreCase_iff {t : String} {before text after : List Char} :
    (litIgnoreCase t).Denotes before text after ↔ Lowers t text := by
  rw [litIgnoreCase, Lowers]
  induction t.toList generalizing before text with
  | nil =>
      rw [List.foldr_nil, List.map_eq_nil_iff]
      rfl
  | cons c cs ih =>
      rw [List.foldr_cons]
      constructor
      · rintro ⟨_, v, rfl, ⟨d, hd, rfl⟩, hv⟩
        rw [List.singleton_append, List.map_cons, ih.mp hv, beq_iff_eq.mp hd]
      · intro h
        obtain ⟨d, v, rfl, hd, hv⟩ := List.map_eq_cons_iff.mp h
        exact ⟨[d], v, rfl, ⟨d, beq_iff_eq.mpr hd, rfl⟩, ih.mpr hv⟩

theorem not_mem_of_lowers {t : String} {s : List Char} {d : Char} (h : Lowers t s)
    (hd : d.toLower ∉ t.toList) : d ∉ s := by
  intro hmem
  rw [← h] at hd
  exact hd (List.mem_map_of_mem hmem)

theorem toLower_of_not_ascii {c : Char} (h : ¬ c.toNat < 128) : c.toLower = c := by
  unfold Char.toLower
  split
  · rename_i hupper
    have hle : c.toNat ≤ 'Z'.toNat := UInt32.le_iff_toNat_le.mp hupper.2
    exact absurd (Nat.lt_of_le_of_lt hle (by decide)) h
  · rfl

/-- What holds of the text in lower case, and of a character exactly if of its lower case. -/
theorem Lowers.all {t : String} {s : List Char} {p : Char → Bool} (h : Lowers t s)
    (hp : ∀ n < 128, p (Char.ofNat n).toLower = p (Char.ofNat n))
    (ht : t.toList.all p = true) : ∀ c ∈ s, p c = true := by
  intro c hc
  have hlower : p c.toLower = p c := by
    by_cases hascii : c.toNat < 128
    · have hn := hp c.toNat hascii
      rwa [Char.ofNat_toNat] at hn
    · rw [toLower_of_not_ascii hascii]
  rw [← hlower]
  apply List.all_eq_true.mp ht
  rw [← h]
  exact List.mem_map_of_mem hc

/-! ## What a replacement is -/

/-- The names of what was there, without the brackets. -/
def replacementNames : List (List Char) :=
  ["redacted-url".toList, "redacted-credential".toList, "redacted-token".toList]

/-- A replacement: a name in brackets. -/
def IsReplacement (w : List Char) : Prop :=
  ∃ name ∈ replacementNames, w = '[' :: (name ++ [']'])

theorem isReplacement_url : IsReplacement "[redacted-url]".toList :=
  ⟨"redacted-url".toList, by decide, by decide⟩

theorem isReplacement_credential : IsReplacement "[redacted-credential]".toList :=
  ⟨"redacted-credential".toList, by decide, by decide⟩

theorem isReplacement_token : IsReplacement "[redacted-token]".toList :=
  ⟨"redacted-token".toList, by decide, by decide⟩

/-- A fragment that no replacement has, not even in part beside other text. -/
structure IsForeign (lit : List Char) : Prop where
  opening : '[' ∉ lit
  closing : ']' ∉ lit
  key : ∀ name ∈ replacementNames, ∃ d ∈ lit, d ∉ name

theorem IsForeign.ne_nil {lit : List Char} (h : IsForeign lit) : lit ≠ [] := by
  obtain ⟨d, hd, -⟩ := h.key "redacted-url".toList (by decide)
  exact List.ne_nil_of_mem hd

theorem isForeign_of_lowers {t : String} {s : List Char} (h : Lowers t s)
    (hbrackets : '[' ∉ t.toList ∧ ']' ∉ t.toList)
    (hkey : ∃ k ∈ t.toList, replacementNames.flatten.all (fun d => d.toLower != k) = true) :
    IsForeign s where
  opening := not_mem_of_lowers h hbrackets.1
  closing := not_mem_of_lowers h hbrackets.2
  key name hname := by
    obtain ⟨k, hk, hnone⟩ := hkey
    rw [← h] at hk
    obtain ⟨d, hd, hlower⟩ := List.mem_map.mp hk
    have hall := List.all_eq_true.mp hnone
    exact ⟨d, hd, fun hmem =>
      (bne_iff_ne.mp (hall d (List.mem_flatten_of_mem hname hmem))) hlower⟩

section Foreign

variable {lit t v w rest : List Char}

/-- At the start, it stands before the replacement. -/
theorem IsForeign.before (hw : IsReplacement w) (hlit : IsForeign lit)
    (h : lit ++ t = v ++ (w ++ rest)) : ∃ u, v = lit ++ u ∧ t = u ++ (w ++ rest) := by
  obtain ⟨name, -, rfl⟩ := hw
  exact Text.eq_append_of_not_mem hlit.opening h

theorem IsForeign.cases {u : List Char} (hw : IsReplacement w) (hlit : IsForeign lit)
    (h : u ++ (lit ++ t) = v ++ (w ++ rest)) :
    (∃ q, v = u ++ (lit ++ q) ∧ t = q ++ (w ++ rest)) ∨
      ∃ q, u = v ++ (w ++ q) ∧ rest = q ++ (lit ++ t) := by
  obtain ⟨name, hname, rfl⟩ := hw
  exact Text.fragment_cases hlit.opening hlit.closing (hlit.key name hname) h

theorem IsForeign.not_in {w₂ : List Char} (hw : IsReplacement w) (hlit : IsForeign lit)
    (hne : w₂ ≠ []) (hsuffix : w₂ <:+ w) : lit ++ t ≠ w₂ ++ rest := by
  obtain ⟨name, hname, rfl⟩ := hw
  exact Text.not_fragment_of_suffix hlit.closing hlit.opening (hlit.key name hname) hne hsuffix

end Foreign

/-! ## Where a match begins -/

def IsScheme (s : List Char) : Prop := Lowers "http://" s ∨ Lowers "https://" s

/-- What makes a URL a credential. -/
def IsUrlMark (s : List Char) : Prop :=
  Lowers "token=" s ∨ Lowers "snapshot=" s ∨ Lowers "tgl_" s ∨ Lowers "/card" s

/-- The name of a token parameter. -/
def IsMarker (s : List Char) : Prop :=
  ∃ word, s = word ++ ['='] ∧ (Lowers "token" word ∨ Lowers "snapshot" word)

def isLinkChar (c : Char) : Bool := Text.isWord c || c == '-'

def UrlAt (s : List Char) : Prop :=
  ∃ scheme v mark rest, s = scheme ++ (v ++ (mark ++ rest)) ∧ IsScheme scheme ∧
    (∀ c ∈ v, Text.isSpace c = false) ∧ IsUrlMark mark

def BearerAt (s : List Char) : Prop :=
  ∃ word spaces c rest, s = word ++ (spaces ++ c :: rest) ∧ Lowers "bearer" word ∧
    spaces ≠ [] ∧ (∀ d ∈ spaces, Text.isSpace d = true) ∧ Text.isSpace c = false

def TokenAt (s : List Char) : Prop :=
  ∃ mark c rest, s = mark ++ c :: rest ∧ IsMarker mark ∧ isParameterChar c = true

def LinkAt (s : List Char) : Prop :=
  ∃ c rest, s = "tgl_".toList ++ c :: rest ∧ isLinkChar c = true

theorem IsScheme.isForeign {s : List Char} (h : IsScheme s) : IsForeign s := by
  rcases h with h | h
  · exact isForeign_of_lowers h (by decide) ⟨':', by decide, by decide⟩
  · exact isForeign_of_lowers h (by decide) ⟨':', by decide, by decide⟩

theorem IsUrlMark.isForeign {s : List Char} (h : IsUrlMark s) : IsForeign s := by
  rcases h with h | h | h | h
  · exact isForeign_of_lowers h (by decide) ⟨'=', by decide, by decide⟩
  · exact isForeign_of_lowers h (by decide) ⟨'=', by decide, by decide⟩
  · exact isForeign_of_lowers h (by decide) ⟨'_', by decide, by decide⟩
  · exact isForeign_of_lowers h (by decide) ⟨'/', by decide, by decide⟩

theorem isForeign_bearer {s : List Char} (h : Lowers "bearer" s) : IsForeign s :=
  isForeign_of_lowers h (by decide) ⟨'b', by decide, by decide⟩

theorem isForeign_link : IsForeign "tgl_".toList :=
  isForeign_of_lowers (show Lowers "tgl_" "tgl_".toList by decide) (by decide)
    ⟨'_', by decide, by decide⟩

theorem IsMarker.isForeign {s : List Char} (h : IsMarker s) : IsForeign s := by
  obtain ⟨word, rfl, hword⟩ := h
  have hbracket {d : Char} (hd : d.toLower ∉ "token".toList ∧ d.toLower ∉ "snapshot".toList)
      (hequals : d ≠ '=') : d ∉ word ++ ['='] := by
    have hnot : d ∉ word := by
      rcases hword with h | h
      · exact not_mem_of_lowers h hd.1
      · exact not_mem_of_lowers h hd.2
    simp [hnot, hequals]
  refine ⟨hbracket (by decide) (by decide), hbracket (by decide) (by decide), ?_⟩
  intro name hname
  have hequals : ∀ name ∈ replacementNames, '=' ∉ name := by decide
  exact ⟨'=', by simp, hequals name hname⟩

/-! ## The matches -/

section Matches

open Regex

theorem replaceable_url : Replaceable credentialUrlPattern where
  isLocal := by decide
  consumes before after h := by
    obtain ⟨u, v, huv, hhttp, -⟩ := h
    rw [(List.append_eq_nil_iff.mp huv.symm).1, denotes_litIgnoreCase_iff] at hhttp
    cases hhttp

theorem replaceable_bearer : Replaceable bearerPattern where
  isLocal := by decide
  consumes before after h := by
    obtain ⟨u, v, huv, hword, -⟩ := h
    rw [(List.append_eq_nil_iff.mp huv.symm).1, denotes_litIgnoreCase_iff] at hword
    cases hword

theorem replaceable_token : Replaceable tokenParameterPattern where
  isLocal := by decide
  consumes before after h := by
    obtain ⟨u, v, huv, -, word, v', hv, hword, -⟩ := h
    rw [(List.append_eq_nil_iff.mp huv.symm).2] at hv
    rw [(List.append_eq_nil_iff.mp hv.symm).1] at hword
    rcases hword with hword | hword
    · rw [denotes_litIgnoreCase_iff] at hword
      cases hword
    · rw [denotes_litIgnoreCase_iff] at hword
      cases hword

theorem denotes_lit_iff {lit before text after : List Char} :
    (Regex.lit lit).Denotes before text after ↔ text = lit := by
  induction lit generalizing before text with
  | nil => exact Iff.rfl
  | cons c cs ih =>
      constructor
      · rintro ⟨_, v, rfl, ⟨d, hd, rfl⟩, hv⟩
        rw [ih.mp hv, beq_iff_eq.mp hd, List.singleton_append]
      · rintro rfl
        exact ⟨[c], cs, rfl, ⟨c, beq_self_eq_true c, rfl⟩, ih.mpr rfl⟩

theorem replaceable_link : Replaceable linkTokenPattern where
  isLocal := by decide
  consumes before after h := by
    obtain ⟨u, v, huv, hword, -⟩ := h
    rw [(List.append_eq_nil_iff.mp huv.symm).1, denotes_lit_iff] at hword
    cases hword

/-! ### URLs -/

theorem mem_notSpace {c : Char} (h : (!Text.isSpace c) = true) : Text.isSpace c = false := by
  simpa using h

theorem denotes_credentialUrl_iff {before text after : List Char} :
    credentialUrlPattern.Denotes before text after ↔
      ∃ scheme run, text = scheme ++ run ∧ IsScheme scheme ∧ run ≠ [] ∧
        (∀ c ∈ run, Text.isSpace c = false) ∧
        ∃ v mark rest, run ++ after = v ++ (mark ++ rest) ∧
          (∀ c ∈ v, Text.isSpace c = false) ∧ IsUrlMark mark := by
  have hmark {before mark after : List Char} :
      (Regex.alt (litIgnoreCase "token=") (.alt (litIgnoreCase "snapshot=")
        (.alt (litIgnoreCase "tgl_") (litIgnoreCase "/card")))).Denotes before mark after ↔
        IsUrlMark mark := by
    simp only [Denotes, denotes_litIgnoreCase_iff, IsUrlMark]
  have hspace {v : List Char} : (∀ c ∈ v, (!Text.isSpace c) = true) ↔
      ∀ c ∈ v, Text.isSpace c = false := by
    simp only [Bool.not_eq_true']
  constructor
  · rintro ⟨http, _, rfl, hhttp, s, _, rfl, hs, slashes, _, rfl, hslashes, look, run, rfl,
      ⟨rfl, hlook⟩, hrun⟩
    obtain ⟨hne, hrun⟩ := denotes_plus_char_iff.mp hrun
    obtain ⟨u, w, hafter, v, mark, rfl, hv, hm⟩ := hlook.mpr rfl
    rw [denotes_litIgnoreCase_iff] at hhttp hslashes
    refine ⟨http ++ (s ++ slashes), run, by simp, ?_, hne, hspace.mp hrun, v, mark, w, ?_,
      hspace.mp (denotes_star_char_iff.mp hv), hmark.mp hm⟩
    · rcases hs with hs | rfl
      · rw [denotes_litIgnoreCase_iff] at hs
        right
        rw [Lowers, List.map_append, List.map_append, hhttp, hs, hslashes]
        decide
      · left
        rw [Lowers, List.map_append, List.nil_append, hhttp, hslashes]
        decide
    · rw [← List.append_assoc]
      exact hafter
  · rintro ⟨scheme, run, rfl, hscheme, hne, hrun, v, mark, rest, hafter, hv, hm⟩
    have hlook {before : List Char} : (Regex.ahead true (.seq (.star true notSpace)
        (.alt (litIgnoreCase "token=") (.alt (litIgnoreCase "snapshot=")
          (.alt (litIgnoreCase "tgl_") (litIgnoreCase "/card")))))).Denotes before []
            (run ++ after) := by
      refine ⟨rfl, iff_of_true ?_ rfl⟩
      exact ⟨v ++ mark, rest, by rw [hafter, List.append_assoc], v, mark, rfl,
        denotes_star_char_iff.mpr (hspace.mpr hv), hmark.mpr hm⟩
    have hplus {before : List Char} : (Regex.plus notSpace).Denotes before run after :=
      denotes_plus_char_iff.mpr ⟨hne, hspace.mpr hrun⟩
    rcases hscheme with h | h
    · obtain ⟨http, slashes, rfl, hhttp, hslashes⟩ :=
        List.map_eq_append_iff.mp (show List.map Char.toLower scheme =
          "http".toList ++ "://".toList from h)
      refine ⟨http, slashes ++ run, List.append_assoc _ _ _, denotes_litIgnoreCase_iff.mpr hhttp,
        [], slashes ++ run, rfl, .inr rfl, slashes, run, rfl,
        denotes_litIgnoreCase_iff.mpr hslashes, [], run, rfl, hlook, hplus⟩
    · obtain ⟨http, tail, rfl, hhttp, htail⟩ :=
        List.map_eq_append_iff.mp (show List.map Char.toLower scheme =
          "http".toList ++ ("s".toList ++ "://".toList) from h)
      obtain ⟨s, slashes, rfl, hs, hslashes⟩ := List.map_eq_append_iff.mp htail
      refine ⟨http, s ++ (slashes ++ run), by simp, denotes_litIgnoreCase_iff.mpr hhttp,
        s, slashes ++ run, rfl, .inl (denotes_litIgnoreCase_iff.mpr hs), slashes, run, rfl,
        denotes_litIgnoreCase_iff.mpr hslashes, [], run, rfl, hlook, hplus⟩

theorem isSpace_of_lowers {t : String} {s : List Char} (h : Lowers t s)
    (ht : t.toList.all (fun c => !Text.isSpace c) = true) : ∀ c ∈ s, Text.isSpace c = false := by
  have hall := h.all (p := fun c => !Text.isSpace c) (by decide) ht
  exact fun c hc => mem_notSpace (hall c hc)

theorem IsUrlMark.isSpace {mark : List Char} (h : IsUrlMark mark) :
    ∀ c ∈ mark, Text.isSpace c = false := by
  rcases h with h | h | h | h
  · exact isSpace_of_lowers h (by decide)
  · exact isSpace_of_lowers h (by decide)
  · exact isSpace_of_lowers h (by decide)
  · exact isSpace_of_lowers h (by decide)

theorem IsScheme.isSpace {scheme : List Char} (h : IsScheme scheme) :
    ∀ c ∈ scheme, Text.isSpace c = false := by
  rcases h with h | h
  · exact isSpace_of_lowers h (by decide)
  · exact isSpace_of_lowers h (by decide)

theorem url_hit_eq_none_iff {s : List Char} : credentialUrlPattern.hit s = none ↔ ¬ UrlAt s := by
  rw [hit_eq_none_iff]
  constructor
  · rintro hnone ⟨scheme, v, mark, rest, rfl, hscheme, hv, hmark⟩
    refine hnone (scheme ++ (v ++ mark)) rest (by simp) ?_
    refine denotes_credentialUrl_iff.mpr ⟨scheme, v ++ mark, rfl, hscheme, ?_, ?_, v, mark, rest,
      List.append_assoc _ _ _, hv, hmark⟩
    · exact fun h => hmark.isForeign.ne_nil (List.append_eq_nil_iff.mp h).2
    · intro c hc
      rcases List.mem_append.mp hc with hc | hc
      · exact hv c hc
      · exact hmark.isSpace c hc
  · intro hnone text after hs hdenotes
    obtain ⟨scheme, run, rfl, hscheme, -, -, v, mark, rest, hafter, hv, hmark⟩ :=
      denotes_credentialUrl_iff.mp hdenotes
    exact hnone ⟨scheme, v, mark, rest, by rw [hs, List.append_assoc, hafter], hscheme, hv, hmark⟩

theorem endsAt_url : EndsAt credentialUrlPattern (fun c => !Text.isSpace c) :=
  .seq (.seq (.seq (.seq (endsAt_plus_char _))))

/-- The match goes on to the end of the word. -/
theorem url_hit {now rest : List Char}
    (h : credentialUrlPattern.hit (now ++ rest) = some (now, rest)) :
    (∃ scheme run, now = scheme ++ run ∧ IsScheme scheme) ∧
      (∀ c ∈ now, Text.isSpace c = false) ∧ ∀ c ∈ rest.head?, Text.isSpace c = true := by
  obtain ⟨scheme, run, rfl, hscheme, -, hrun, -⟩ :=
    denotes_credentialUrl_iff.mp (hit_eq_some h).2
  refine ⟨⟨scheme, run, rfl, hscheme⟩, fun c hc => ?_, fun c hc => ?_⟩
  · rcases List.mem_append.mp hc with hc | hc
    · exact hscheme.isSpace c hc
    · exact hrun c hc
  · simpa using endsAt_url.hit h c hc

/-! ### Bearer credentials -/

theorem denotes_bearer_iff {before text after : List Char} :
    bearerPattern.Denotes before text after ↔
      ∃ word spaces run, text = word ++ (spaces ++ run) ∧ Lowers "bearer" word ∧ spaces ≠ [] ∧
        (∀ c ∈ spaces, Text.isSpace c = true) ∧ run ≠ [] ∧
          ∀ c ∈ run, Text.isSpace c = false := by
  constructor
  · rintro ⟨word, _, rfl, hword, spaces, run, rfl, hspaces, hrun⟩
    obtain ⟨hne, hspaces⟩ := denotes_plus_char_iff.mp hspaces
    obtain ⟨hne', hrun⟩ := denotes_plus_char_iff.mp hrun
    exact ⟨word, spaces, run, rfl, denotes_litIgnoreCase_iff.mp hword, hne, hspaces, hne',
      fun c hc => mem_notSpace (hrun c hc)⟩
  · rintro ⟨word, spaces, run, rfl, hword, hne, hspaces, hne', hrun⟩
    exact ⟨word, spaces ++ run, rfl, denotes_litIgnoreCase_iff.mpr hword, spaces, run, rfl,
      denotes_plus_char_iff.mpr ⟨hne, hspaces⟩,
      denotes_plus_char_iff.mpr ⟨hne', fun c hc => by simp [hrun c hc]⟩⟩

theorem bearer_hit_eq_none_iff {s : List Char} : bearerPattern.hit s = none ↔ ¬ BearerAt s := by
  rw [hit_eq_none_iff]
  constructor
  · rintro hnone ⟨word, spaces, c, rest, rfl, hword, hne, hspaces, hc⟩
    refine hnone (word ++ (spaces ++ [c])) rest (by simp) (denotes_bearer_iff.mpr ?_)
    exact ⟨word, spaces, [c], rfl, hword, hne, hspaces, List.cons_ne_nil c [], by simpa using hc⟩
  · intro hnone text after hs hdenotes
    obtain ⟨word, spaces, run, rfl, hword, hne, hspaces, hne', hrun⟩ :=
      denotes_bearer_iff.mp hdenotes
    obtain ⟨c, run, rfl⟩ := List.exists_cons_of_ne_nil hne'
    refine hnone ⟨word, spaces, c, run ++ after, ?_, hword, hne, hspaces,
      hrun c List.mem_cons_self⟩
    rw [hs]
    simp

theorem endsAt_bearer : EndsAt bearerPattern (fun c => !Text.isSpace c) :=
  .seq (.seq (endsAt_plus_char _))

theorem bearer_hit {now rest : List Char}
    (h : bearerPattern.hit (now ++ rest) = some (now, rest)) :
    (∃ word spaces run, now = word ++ (spaces ++ run) ∧ Lowers "bearer" word ∧ spaces ≠ [] ∧
      (∀ c ∈ spaces, Text.isSpace c = true) ∧ run ≠ [] ∧ ∀ c ∈ run, Text.isSpace c = false) ∧
      ∀ c ∈ rest.head?, Text.isSpace c = true := by
  refine ⟨denotes_bearer_iff.mp (hit_eq_some h).2, fun c hc => ?_⟩
  simpa using endsAt_bearer.hit h c hc

/-! ### Token parameters -/

/-- What may stand before the name of a parameter. -/
def isParameterStart (c : Char) : Bool := c == '#' || c == '?' || c == '&'

theorem denotes_token_iff {before text after : List Char} :
    tokenParameterPattern.Denotes before text after ↔
      ∃ start mark run, text = start ++ (mark ++ run) ∧
        (start = [] ∨ ∃ d, start = [d] ∧ isParameterStart d = true) ∧ IsMarker mark ∧
        run ≠ [] ∧ ∀ c ∈ run, isParameterChar c = true := by
  constructor
  · rintro ⟨start, _, rfl, hstart, word, _, rfl, hword, _, run, rfl, ⟨e, he, rfl⟩, hrun⟩
    obtain ⟨hne, hchars⟩ := denotes_plus_char_iff.mp hrun
    obtain rfl := beq_iff_eq.mp he
    refine ⟨start, word ++ ['='], run, by simp, ?_, ⟨word, rfl, ?_⟩, hne, hchars⟩
    · rcases hstart with ⟨d, hd, rfl⟩ | rfl
      · exact .inr ⟨d, rfl, hd⟩
      · exact .inl rfl
    · rcases hword with hword | hword
      · exact .inl (denotes_litIgnoreCase_iff.mp hword)
      · exact .inr (denotes_litIgnoreCase_iff.mp hword)
  · rintro ⟨start, mark, run, rfl, hstart, ⟨word, rfl, hword⟩, hne, hrun⟩
    refine ⟨start, word ++ ['='] ++ run, rfl, ?_, word, ['='] ++ run, by simp, ?_, ['='], run,
      rfl, ⟨'=', rfl, rfl⟩, denotes_plus_char_iff.mpr ⟨hne, hrun⟩⟩
    · rcases hstart with rfl | ⟨d, rfl, hd⟩
      · exact .inr rfl
      · exact .inl ⟨d, hd, rfl⟩
    · rcases hword with hword | hword
      · exact .inl (denotes_litIgnoreCase_iff.mpr hword)
      · exact .inr (denotes_litIgnoreCase_iff.mpr hword)

theorem token_hit_eq_none_iff {s : List Char} : tokenParameterPattern.hit s = none ↔
    ¬ TokenAt s ∧ ∀ d s', s = d :: s' → isParameterStart d = true → ¬ TokenAt s' := by
  rw [hit_eq_none_iff]
  have hdenotes {start mark : List Char} {c : Char} (rest : List Char)
      (hstart : start = [] ∨ ∃ d, start = [d] ∧ isParameterStart d = true)
      (hmark : IsMarker mark) (hc : isParameterChar c = true) :
      tokenParameterPattern.Denotes [] (start ++ (mark ++ [c])) rest :=
    denotes_token_iff.mpr ⟨start, mark, [c], rfl, hstart, hmark, List.cons_ne_nil c [],
      by simpa using hc⟩
  constructor
  · intro hnone
    constructor
    · rintro ⟨mark, c, rest, rfl, hmark, hc⟩
      exact hnone (mark ++ [c]) rest (by simp) (hdenotes rest (.inl rfl) hmark hc)
    · rintro d _ rfl hd ⟨mark, c, rest, rfl, hmark, hc⟩
      exact hnone ([d] ++ (mark ++ [c])) rest (by simp)
        (hdenotes rest (.inr ⟨d, rfl, hd⟩) hmark hc)
  · rintro ⟨hhere, hnext⟩ text after hs hden
    obtain ⟨start, mark, run, rfl, hstart, hmark, hne, hrun⟩ := denotes_token_iff.mp hden
    obtain ⟨c, run, rfl⟩ := List.exists_cons_of_ne_nil hne
    have hat : TokenAt (mark ++ (c :: run) ++ after) :=
      ⟨mark, c, run ++ after, by simp, hmark, hrun c List.mem_cons_self⟩
    rcases hstart with rfl | ⟨d, rfl, hd⟩
    · exact hhere (hs ▸ hat)
    · exact hnext d _ (by rw [hs]; simp) hd hat

theorem endsAt_token : EndsAt tokenParameterPattern isParameterChar :=
  .seq (.seq (.seq (endsAt_plus_char _)))

theorem token_hit {now rest : List Char}
    (h : tokenParameterPattern.hit (now ++ rest) = some (now, rest)) :
    (∃ start mark run, now = start ++ (mark ++ run) ∧
      (start = [] ∨ ∃ d, start = [d] ∧ isParameterStart d = true) ∧ IsMarker mark ∧
      run ≠ [] ∧ ∀ c ∈ run, isParameterChar c = true) ∧
      ∀ c ∈ rest.head?, isParameterChar c = false :=
  ⟨denotes_token_iff.mp (hit_eq_some h).2, endsAt_token.hit h⟩

/-! ### Link tokens -/

theorem denotes_link_iff {before text after : List Char} :
    linkTokenPattern.Denotes before text after ↔
      ∃ run, text = "tgl_".toList ++ run ∧ run ≠ [] ∧ ∀ c ∈ run, isLinkChar c = true := by
  constructor
  · rintro ⟨u, run, rfl, hu, hrun⟩
    obtain ⟨hne, hrun⟩ := denotes_plus_char_iff.mp hrun
    exact ⟨run, by rw [denotes_lit_iff.mp hu], hne, hrun⟩
  · rintro ⟨run, rfl, hne, hrun⟩
    exact ⟨_, run, rfl, denotes_lit_iff.mpr rfl, denotes_plus_char_iff.mpr ⟨hne, hrun⟩⟩

theorem link_hit_eq_none_iff {s : List Char} : linkTokenPattern.hit s = none ↔ ¬ LinkAt s := by
  rw [hit_eq_none_iff]
  constructor
  · rintro hnone ⟨c, rest, rfl, hc⟩
    refine hnone ("tgl_".toList ++ [c]) rest (by simp) (denotes_link_iff.mpr ?_)
    exact ⟨[c], rfl, List.cons_ne_nil c [], by simpa using hc⟩
  · intro hnone text after hs hdenotes
    obtain ⟨run, rfl, hne, hrun⟩ := denotes_link_iff.mp hdenotes
    obtain ⟨c, run, rfl⟩ := List.exists_cons_of_ne_nil hne
    refine hnone ⟨c, run ++ after, ?_, hrun c List.mem_cons_self⟩
    rw [hs, List.append_assoc]
    rfl

theorem endsAt_link : EndsAt linkTokenPattern isLinkChar := .seq (endsAt_plus_char _)

theorem link_hit {now rest : List Char}
    (h : linkTokenPattern.hit (now ++ rest) = some (now, rest)) :
    (∃ run, now = "tgl_".toList ++ run ∧ run ≠ [] ∧ ∀ c ∈ run, isLinkChar c = true) ∧
      ∀ c ∈ rest.head?, isLinkChar c = false :=
  ⟨denotes_link_iff.mp (hit_eq_some h).2, endsAt_link.hit h⟩

end Matches

/-! ## Replacements beside other text -/

section Replacements

variable {w v now rest : List Char}

/-- A replacement begins with a character that no class of the patterns but the widest has. -/
theorem IsReplacement.cons (hw : IsReplacement w) : ∃ tail, w = '[' :: tail := by
  obtain ⟨name, -, rfl⟩ := hw
  exact ⟨_, rfl⟩

/-- No URL goes through a replacement that does not go through what was replaced. -/
theorem urlAt_of_replacement (hw : IsReplacement w)
    (hnow : (∀ c ∈ now, Text.isSpace c = false) ∨ ∀ c ∈ rest.head?, Text.isSpace c = true)
    (h : UrlAt (v ++ (w ++ rest))) : UrlAt (v ++ (now ++ rest)) := by
  obtain ⟨scheme, run, mark, tail, heq, hscheme, hrun, hmark⟩ := h
  obtain ⟨u, rfl, hu⟩ := hscheme.isForeign.before hw heq.symm
  rcases hmark.isForeign.cases hw hu with ⟨q, rfl, -⟩ | ⟨q, rfl, rfl⟩
  · exact ⟨scheme, run, mark, q ++ (now ++ rest), by simp, hscheme, hrun, hmark⟩
  · rcases hnow with hnow | hrest
    · refine ⟨scheme, u ++ (now ++ q), mark, tail, by simp, hscheme, fun c hc => ?_, hmark⟩
      rcases List.mem_append.mp hc with hc | hc
      · exact hrun c (List.mem_append_left _ hc)
      · rcases List.mem_append.mp hc with hc | hc
        · exact hnow c hc
        · exact hrun c (List.mem_append_right _ (List.mem_append_right _ hc))
    · exfalso
      cases q with
      | nil =>
          obtain ⟨d, mark', hcons⟩ := List.exists_cons_of_ne_nil hmark.isForeign.ne_nil
          have hspace := hrest d (by rw [List.nil_append, hcons]; rfl)
          rw [hmark.isSpace d (by rw [hcons]; exact List.mem_cons_self)] at hspace
          cases hspace
      | cons d q =>
          have hspace := hrest d rfl
          rw [hrun d (List.mem_append_right _ (List.mem_append_right _ List.mem_cons_self))]
            at hspace
          cases hspace

theorem bearerAt_of_replacement (hw : IsReplacement w)
    (hnow : ∃ c tail, now = c :: tail ∧ Text.isSpace c = false)
    (h : BearerAt (v ++ (w ++ rest))) : BearerAt (v ++ (now ++ rest)) := by
  obtain ⟨word, spaces, c, tail, heq, hword, hne, hspaces, hc⟩ := h
  obtain ⟨u, rfl, hu⟩ := (isForeign_bearer hword).before hw heq.symm
  obtain ⟨w', rfl⟩ := hw.cons
  have hbracket : '[' ∉ spaces := fun hmem => by
    have hspace := hspaces _ hmem
    revert hspace
    decide
  obtain ⟨q, rfl, hq⟩ := Text.eq_append_of_not_mem hbracket hu
  cases q with
  | nil =>
      obtain ⟨d, now', rfl, hd⟩ := hnow
      exact ⟨word, spaces, d, now' ++ rest, by simp, hword, hne, hspaces, hd⟩
  | cons d q =>
      obtain ⟨rfl, -⟩ := List.cons.inj hq
      exact ⟨word, spaces, c, q ++ (now ++ rest), by simp, hword, hne, hspaces, hc⟩

theorem tokenAt_of_replacement (hw : IsReplacement w)
    (hnow : ∃ c tail, now = c :: tail ∧ isParameterChar c = true)
    (h : TokenAt (v ++ (w ++ rest))) : TokenAt (v ++ (now ++ rest)) := by
  obtain ⟨mark, c, tail, heq, hmark, hc⟩ := h
  obtain ⟨u, rfl, hu⟩ := hmark.isForeign.before hw heq.symm
  cases u with
  | nil =>
      obtain ⟨d, now', rfl, hd⟩ := hnow
      exact ⟨mark, d, now' ++ rest, by simp, hmark, hd⟩
  | cons d u =>
      obtain ⟨rfl, -⟩ := List.cons.inj hu
      exact ⟨mark, c, u ++ (now ++ rest), by simp, hmark, hc⟩

theorem linkAt_of_replacement (hw : IsReplacement w) (h : LinkAt (v ++ (w ++ rest))) :
    LinkAt (v ++ (now ++ rest)) := by
  obtain ⟨c, tail, heq, hc⟩ := h
  obtain ⟨u, rfl, hu⟩ := isForeign_link.before hw heq.symm
  cases u with
  | nil =>
      obtain ⟨w', rfl⟩ := hw.cons
      obtain ⟨rfl, -⟩ := List.cons.inj hu
      cases hc
  | cons d u =>
      obtain ⟨rfl, -⟩ := List.cons.inj hu
      exact ⟨c, u ++ (now ++ rest), by simp, hc⟩

variable {w₂ : List Char}

theorem not_urlAt_in (hw : IsReplacement w) (hne : w₂ ≠ []) (hsuffix : w₂ <:+ w) :
    ¬ UrlAt (w₂ ++ rest) := by
  rintro ⟨scheme, run, mark, tail, heq, hscheme, -⟩
  exact hscheme.isForeign.not_in hw hne hsuffix heq.symm

theorem not_bearerAt_in (hw : IsReplacement w) (hne : w₂ ≠ []) (hsuffix : w₂ <:+ w) :
    ¬ BearerAt (w₂ ++ rest) := by
  rintro ⟨word, spaces, c, tail, heq, hword, -⟩
  exact (isForeign_bearer hword).not_in hw hne hsuffix heq.symm

theorem not_tokenAt_in (hw : IsReplacement w) (hne : w₂ ≠ []) (hsuffix : w₂ <:+ w) :
    ¬ TokenAt (w₂ ++ rest) := by
  rintro ⟨mark, c, tail, heq, hmark, -⟩
  exact hmark.isForeign.not_in hw hne hsuffix heq.symm

theorem not_linkAt_in (hw : IsReplacement w) (hne : w₂ ≠ []) (hsuffix : w₂ <:+ w) :
    ¬ LinkAt (w₂ ++ rest) := by
  rintro ⟨c, tail, heq, -⟩
  exact isForeign_link.not_in hw hne hsuffix heq.symm

end Replacements

/-! ## Nothing in an empty text -/

theorem not_urlAt_nil : ¬ UrlAt [] := by
  rintro ⟨scheme, run, mark, tail, heq, hscheme, -⟩
  exact hscheme.isForeign.ne_nil (List.append_eq_nil_iff.mp heq.symm).1

theorem not_bearerAt_nil : ¬ BearerAt [] := by
  rintro ⟨word, spaces, c, tail, heq, hword, -⟩
  exact (isForeign_bearer hword).ne_nil (List.append_eq_nil_iff.mp heq.symm).1

theorem not_tokenAt_nil : ¬ TokenAt [] := by
  rintro ⟨mark, c, tail, heq, hmark, -⟩
  exact hmark.isForeign.ne_nil (List.append_eq_nil_iff.mp heq.symm).1

theorem not_linkAt_nil : ¬ LinkAt [] := by
  rintro ⟨c, tail, heq, -⟩
  cases heq

/-! ## The matches are replaced by less -/

section Collapses

open Regex

variable {w : List Char}

theorem nonspace_of_lowers {t : String} {word tail : List Char} (h : Lowers t word)
    (hne : word ≠ []) (ht : t.toList.all (fun c => !Text.isSpace c) = true) :
    ∃ c tail', word ++ tail = c :: tail' ∧ Text.isSpace c = false := by
  obtain ⟨c, word, rfl⟩ := List.exists_cons_of_ne_nil hne
  exact ⟨c, word ++ tail, rfl, isSpace_of_lowers h ht c List.mem_cons_self⟩

/-- A match of the token pattern is within a word. -/
theorem token_hit_isSpace {now rest : List Char}
    (h : tokenParameterPattern.hit (now ++ rest) = some (now, rest)) :
    ∀ c ∈ now, Text.isSpace c = false := by
  obtain ⟨⟨start, mark, run, rfl, hstart, ⟨word, rfl, hword⟩, -, hrun⟩, -⟩ := token_hit h
  have hparameter : ∀ c, isParameterChar c = true → Text.isSpace c = false := by
    intro c hc
    cases hspace : Text.isSpace c with
    | false => rfl
    | true => simp [isParameterChar, hspace] at hc
  have hwordSpace : ∀ c ∈ word, Text.isSpace c = false := by
    rcases hword with hword | hword
    · exact isSpace_of_lowers hword (by decide)
    · exact isSpace_of_lowers hword (by decide)
  intro c hc
  simp only [List.mem_append, List.mem_singleton] at hc
  rcases hc with hc | (hc | rfl) | hc
  · rcases hstart with rfl | ⟨d, rfl, hd⟩
    · cases hc
    · obtain rfl := List.mem_singleton.mp hc
      simp only [isParameterStart, Bool.or_eq_true, beq_iff_eq] at hd
      rcases hd with (rfl | rfl) | rfl <;> decide
  · exact hwordSpace c hc
  · decide
  · exact hparameter c (hrun c hc)

theorem isSpace_of_isLinkChar {c : Char} (h : isLinkChar c = true) :
    Text.isSpace c = false := by
  have hascii : ∀ n < 128, isLinkChar (Char.ofNat n) = true →
      Text.isSpace (Char.ofNat n) = false := by decide
  have hsmall : c.toNat < 128 := by
    simp only [isLinkChar, Text.isWord, Text.isLower, Text.isUpper, Text.isDigit,
      Bool.or_eq_true, Bool.and_eq_true, decide_eq_true_eq, beq_iff_eq] at h
    have hletters : 'z'.toNat = 122 ∧ 'Z'.toNat = 90 ∧ '9'.toNat = 57 := ⟨rfl, rfl, rfl⟩
    rcases h with (((h | h) | h) | rfl) | rfl
    · omega
    · omega
    · omega
    · decide
    · decide
  have hn := hascii c.toNat hsmall
  rw [Char.ofNat_toNat] at hn
  exact hn h

/-- So is a match of the link pattern. -/
theorem link_hit_isSpace {now rest : List Char}
    (h : linkTokenPattern.hit (now ++ rest) = some (now, rest)) :
    ∀ c ∈ now, Text.isSpace c = false := by
  obtain ⟨⟨run, rfl, -, hrun⟩, -⟩ := link_hit h
  intro c hc
  rcases List.mem_append.mp hc with hc | hc
  · exact isSpace_of_lowers (show Lowers "tgl_" "tgl_".toList by decide) (by decide) c hc
  · exact isSpace_of_isLinkChar (hrun c hc)

theorem url_hit_head {now rest : List Char}
    (h : credentialUrlPattern.hit (now ++ rest) = some (now, rest)) :
    ∃ c tail, now = c :: tail ∧ Text.isSpace c = false := by
  obtain ⟨⟨scheme, run, rfl, hscheme⟩, hspace, -⟩ := url_hit h
  obtain ⟨c, tail, hcons⟩ := List.exists_cons_of_ne_nil hscheme.isForeign.ne_nil
  refine ⟨c, tail ++ run, by rw [hcons]; rfl, hspace c ?_⟩
  rw [hcons]
  exact List.mem_cons_self

theorem bearer_hit_head {now rest : List Char}
    (h : bearerPattern.hit (now ++ rest) = some (now, rest)) :
    ∃ c tail, now = c :: tail ∧ Text.isSpace c = false := by
  obtain ⟨⟨word, spaces, run, rfl, hword, -⟩, -⟩ := bearer_hit h
  exact nonspace_of_lowers hword (isForeign_bearer hword).ne_nil (by decide)

theorem token_hit_head {now rest : List Char}
    (h : tokenParameterPattern.hit (now ++ rest) = some (now, rest)) :
    ∃ c tail, now = c :: tail ∧ Text.isSpace c = false := by
  have hspace := token_hit_isSpace h
  obtain ⟨⟨start, mark, run, rfl, -, hmark, -⟩, -⟩ := token_hit h
  obtain ⟨c, tail, hcons⟩ := List.exists_cons_of_ne_nil (l := start ++ (mark ++ run)) fun hnil =>
    hmark.isForeign.ne_nil (List.append_eq_nil_iff.mp (List.append_eq_nil_iff.mp hnil).2).1
  refine ⟨c, tail, hcons, hspace c ?_⟩
  rw [hcons]
  exact List.mem_cons_self

theorem link_hit_head {now rest : List Char}
    (h : linkTokenPattern.hit (now ++ rest) = some (now, rest)) :
    ∃ tail, now = 't' :: tail := by
  obtain ⟨⟨run, rfl, -⟩, -⟩ := link_hit h
  exact ⟨_, rfl⟩

variable (hw : IsReplacement w)

include hw

theorem collapses_url_urlAt : Collapses credentialUrlPattern w UrlAt :=
  fun _ _ _ hhit => urlAt_of_replacement hw (.inl (url_hit hhit).2.1)

theorem collapses_bearer_urlAt : Collapses bearerPattern w UrlAt :=
  fun _ _ _ hhit => urlAt_of_replacement hw (.inr (bearer_hit hhit).2)

theorem collapses_token_urlAt : Collapses tokenParameterPattern w UrlAt :=
  fun _ _ _ hhit => urlAt_of_replacement hw (.inl (token_hit_isSpace hhit))

theorem collapses_link_urlAt : Collapses linkTokenPattern w UrlAt :=
  fun _ _ _ hhit => urlAt_of_replacement hw (.inl (link_hit_isSpace hhit))

theorem collapses_bearer_bearerAt : Collapses bearerPattern w BearerAt :=
  fun _ _ _ hhit => bearerAt_of_replacement hw (bearer_hit_head hhit)

theorem collapses_token_bearerAt : Collapses tokenParameterPattern w BearerAt :=
  fun _ _ _ hhit => bearerAt_of_replacement hw (token_hit_head hhit)

theorem collapses_link_bearerAt : Collapses linkTokenPattern w BearerAt := by
  intro v now rest hhit
  obtain ⟨tail, rfl⟩ := link_hit_head hhit
  exact bearerAt_of_replacement hw ⟨'t', tail, rfl, rfl⟩

theorem collapses_link_tokenAt : Collapses linkTokenPattern w TokenAt := by
  intro v now rest hhit
  obtain ⟨tail, rfl⟩ := link_hit_head hhit
  exact tokenAt_of_replacement hw ⟨'t', tail, rfl, rfl⟩

theorem collapses_link_linkAt : Collapses linkTokenPattern w LinkAt :=
  fun _ _ _ _ => linkAt_of_replacement hw

end Collapses

end AgentGather.Storage
