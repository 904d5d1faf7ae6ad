import AgentGather.Library.UrlOrigin

/-!
# Addresses that differ in their secrets

A text that is meant as a URL, with its userinfo, its query and its fragment told apart from the
rest.  Reading two texts that differ in nothing else gives, but for these parts, the same.
-/

namespace AgentGather.Library.Url

variable {H : HostParser}

/-- A URL without its credentials, its query and its fragment. -/
def withoutSecrets (u : Url) : Url :=
  { u with query := none, fragment := none, username := [], password := [] }

/-- What stands before the two slashes: nothing, or a scheme with its colon. -/
def SchemeOrNone (scheme : List Char) : Prop :=
  scheme = [] ∨ ∃ name, ':' ∉ name ∧ scheme = name ++ [':']

/-- A text, as it is cut into its parts.  A userinfo stands behind the two slashes that begin an
authority, with a scheme before them or without. -/
structure Address where
  front : List Char
  userinfo : Option (List Char)
  rest : List Char
  query : Option (List Char)
  fragment : Option (List Char)
  front_plain : '?' ∉ front ∧ '#' ∉ front
  rest_plain : '?' ∉ rest ∧ '#' ∉ rest
  query_plain : ∀ q ∈ query, '#' ∉ q
  userinfo_plain : ∀ u ∈ userinfo, ∀ c ∈ u, c ≠ '/' ∧ c ≠ '\\' ∧ c ≠ '?' ∧ c ≠ '#'
  front_slashes : ∀ u ∈ userinfo, ∃ scheme, front = scheme ++ "//".toList ∧ SchemeOrNone scheme

namespace Address

/-- The userinfo with the `@` behind it. -/
def written (userinfo : Option (List Char)) : List Char :=
  match userinfo with
  | none => []
  | some u => u ++ ['@']

/-- What stands before the query and the fragment. -/
def head (a : Address) : List Char := a.front ++ (written a.userinfo ++ a.rest)

def text (a : Address) : List Char := a.head ++ (marked '?' a.query ++ marked '#' a.fragment)

/-- The two differ only in the text of their userinfo, their query and their fragment. -/
structure SameBut (a b : Address) : Prop where
  front : a.front = b.front
  userinfo : a.userinfo.isSome = b.userinfo.isSome
  rest : a.rest = b.rest
  query : a.query.isSome = b.query.isSome
  fragment : a.fragment.isSome = b.fragment.isSome

end Address

/-! ## Cleaning around a mark -/

/-- What cleaning keeps in the middle of a text. -/
def cleanMiddle (s : List Char) : List Char :=
  s.filter fun c => c != '\t' && c != '\n' && c != '\r'

def cleanStart (s : List Char) : List Char := cleanMiddle (s.dropWhile isControlOrSpace)

theorem cleanMiddle_append (s t : List Char) :
    cleanMiddle (s ++ t) = cleanMiddle s ++ cleanMiddle t := List.filter_append ..

theorem cleanMiddle_cons {m : Char} (hm : isControlOrSpace m = false) (t : List Char) :
    cleanMiddle (m :: t) = m :: cleanMiddle t := by
  have hsingle := filter_lineBreaks_of_plain (s := [m]) (by simpa using hm)
  rw [← List.singleton_append, cleanMiddle_append, cleanMiddle, hsingle]
  rfl

theorem cleanEnd_mark {m : Char} (hm : isControlOrSpace m = false) (s t : List Char) :
    cleanEnd (s ++ m :: t) = cleanMiddle s ++ m :: cleanEnd t := by
  have hlast : isControlOrSpace ((s ++ [m]).getLast (by simp)) = false := by
    rw [List.getLast_append_singleton]
    exact hm
  rw [cleanEnd, List.append_cons, rdropWhile_append (by simp) hlast, ← List.append_cons]
  have hfilter := cleanMiddle_append s (m :: t.rdropWhile isControlOrSpace)
  rw [cleanMiddle_cons hm] at hfilter
  exact hfilter

theorem dropWhile_mark {m : Char} (hm : isControlOrSpace m = false) (s t : List Char) :
    (s ++ m :: t).dropWhile isControlOrSpace = s.dropWhile isControlOrSpace ++ m :: t := by
  induction s with
  | nil => rw [List.nil_append, List.dropWhile_cons, hm]; rfl
  | cons c s ih =>
      rw [List.cons_append, List.dropWhile_cons, List.dropWhile_cons]
      cases isControlOrSpace c with
      | true => simpa using ih
      | false => rfl

theorem clean_mark {m : Char} (hm : isControlOrSpace m = false) (s t : List Char) :
    clean (s ++ m :: t) = cleanStart s ++ m :: cleanEnd t := by
  rw [clean, dropWhile_mark hm]
  exact cleanEnd_mark hm _ t

theorem cleanStart_mark {m : Char} (hm : isControlOrSpace m = false) (s t : List Char) :
    cleanStart (s ++ m :: t) = cleanStart s ++ m :: cleanMiddle t := by
  rw [cleanStart, dropWhile_mark hm, cleanMiddle_append, cleanMiddle_cons hm]
  rfl

theorem mem_of_mem_cleanMiddle {c : Char} {s : List Char} (h : c ∈ cleanMiddle s) : c ∈ s :=
  List.mem_of_mem_filter h

theorem mem_of_mem_cleanEnd {c : Char} {s : List Char} (h : c ∈ cleanEnd s) : c ∈ s :=
  (List.rdropWhile_prefix _ s).subset (mem_of_mem_cleanMiddle h)

theorem mem_of_mem_cleanStart {c : Char} {s : List Char} (h : c ∈ cleanStart s) : c ∈ s :=
  (List.dropWhile_suffix _).subset (mem_of_mem_cleanMiddle h)

theorem mem_of_mem_clean {c : Char} {s : List Char} (h : c ∈ clean s) : c ∈ s :=
  (List.dropWhile_suffix _).subset (mem_of_mem_cleanEnd h)

/-! ## The parts after cleaning -/

/-- What is left of the head, with marks behind it or without. -/
def cleanHead (behind : Bool) (s : List Char) : List Char :=
  if behind then cleanStart s else clean s

theorem cut_clean {s : List Char} (hs : '?' ∉ s ∧ '#' ∉ s) {query : Option (List Char)}
    (hquery : ∀ q ∈ query, '#' ∉ q) (fragment : Option (List Char)) :
    (cut (clean (s ++ (marked '?' query ++ marked '#' fragment)))).front =
        cleanHead (query.isSome || fragment.isSome) s ∧
      (cut (clean (s ++ (marked '?' query ++ marked '#' fragment)))).query.isSome =
        query.isSome ∧
      (cut (clean (s ++ (marked '?' query ++ marked '#' fragment)))).fragment.isSome =
        fragment.isSome := by
  have hmark : isControlOrSpace '?' = false ∧ isControlOrSpace '#' = false := by decide
  have hstart : '?' ∉ cleanStart s ∧ '#' ∉ cleanStart s :=
    ⟨fun h => hs.1 (mem_of_mem_cleanStart h), fun h => hs.2 (mem_of_mem_cleanStart h)⟩
  cases query with
  | none =>
      cases fragment with
      | none =>
          have hclean : '?' ∉ clean s ∧ '#' ∉ clean s :=
            ⟨fun h => hs.1 (mem_of_mem_clean h), fun h => hs.2 (mem_of_mem_clean h)⟩
          have hcut := cut_append hclean.1 hclean.2 []
          rw [List.append_nil] at hcut
          rw [marked, marked, List.append_nil, List.append_nil, hcut]
          exact ⟨List.append_nil _, rfl, rfl⟩
      | some f =>
          rw [marked, marked, List.nil_append, clean_mark hmark.2,
            cut_append hstart.1 hstart.2]
          simp [cut, splitAtFirst, cleanHead]
  | some q =>
      have hq : '#' ∉ q := hquery q rfl
      cases fragment with
      | none =>
          have hend : '#' ∉ '?' :: cleanEnd q := by
            rw [List.mem_cons, not_or]
            exact ⟨by decide, fun h => hq (mem_of_mem_cleanEnd h)⟩
          rw [marked, marked, List.append_nil, clean_mark hmark.1, cut_append hstart.1 hstart.2,
            cut, splitAtFirst_of_not_mem hend]
          simp [splitAtFirst, cleanHead]
      | some f =>
          have hmiddle : '#' ∉ '?' :: cleanMiddle q := by
            rw [List.mem_cons, not_or]
            exact ⟨by decide, fun h => hq (mem_of_mem_cleanMiddle h)⟩
          rw [marked, marked, List.cons_append, clean_mark hmark.1, cleanEnd_mark hmark.2,
            cut_append hstart.1 hstart.2, ← List.cons_append, cut, splitAtFirst_append hmiddle]
          simp [splitAtFirst, cleanHead]

/-- The mark before a query or a fragment is all that its text leaves of it. -/
theorem withoutSecrets_withFragment (u : Url) (query fragment : Option (List Char)) :
    ((u.withQuery query).withFragment query fragment).withoutSecrets =
      { u.withoutSecrets with
        path := if query.isSome || fragment.isSome then encodeLastSpace u.path else u.path } := by
  cases query <;> cases fragment <;> rfl

/-! ## Reading behind a userinfo -/

theorem rtakeWhile_at (u x : List Char) :
    (u ++ '@' :: x).rtakeWhile (· != '@') = x.rtakeWhile (· != '@') := by
  induction x using List.reverseRecOn with
  | nil => rw [List.rtakeWhile_concat_neg _ _ _ (by decide), List.rtakeWhile_nil]
  | append_singleton x c ih =>
      rw [← List.cons_append, ← List.append_assoc]
      by_cases hc : (c != '@') = true
      · rw [List.rtakeWhile_concat_pos (fun x => x != '@') _ _ hc,
          List.rtakeWhile_concat_pos (fun x => x != '@') _ _ hc, ih]
      · rw [List.rtakeWhile_concat_neg (fun x => x != '@') _ _ hc,
          List.rtakeWhile_concat_neg (fun x => x != '@') _ _ hc]

/-- The host does not depend on the credentials before it. -/
theorem splitCredentials_at (u x : List Char) :
    ∃ credentials, splitCredentials (u ++ '@' :: x) =
      (some credentials, x.rtakeWhile (· != '@')) := by
  have hne : (u ++ '@' :: x).rdropWhile (· != '@') ≠ [] := by
    intro h
    have hall := List.rdropWhile_eq_nil_iff.mp h '@' (by simp)
    exact absurd hall (by decide)
  obtain ⟨c, hc⟩ := Option.isSome_iff_exists.mp (List.getLast?_isSome.mpr hne)
  refine ⟨((u ++ '@' :: x).rdropWhile (· != '@')).dropLast, ?_⟩
  rw [splitCredentials, hc, rtakeWhile_at]

theorem readAuthority_at (scheme u v x : List Char) :
    (readAuthority H scheme (u ++ '@' :: x)).map (fun a => (a.host, a.port)) =
      (readAuthority H scheme (v ++ '@' :: x)).map (fun a => (a.host, a.port)) := by
  obtain ⟨cu, hu⟩ := splitCredentials_at u x
  obtain ⟨cv, hv⟩ := splitCredentials_at v x
  rw [readAuthority, readAuthority, hu, hv]
  simp only [Option.isSome_some, Bool.true_or, Bool.and_true]
  split
  · rfl
  · cases readPort scheme ((splitPort false (x.rtakeWhile (· != '@'))).2.getD []) with
    | none => rfl
    | some port =>
        cases readHost H scheme (splitPort false (x.rtakeWhile (· != '@'))).1 <;> rfl

/-- No slash of either kind. -/
def Slashless (u : List Char) : Prop := ∀ c ∈ u, c ≠ '/' ∧ c ≠ '\\'

theorem isSlash_of_slashless {u : List Char} (h : Slashless u) (special : Bool) :
    ∀ c ∈ u ++ ['@'], isSlash special c = false := by
  intro c hc
  rcases List.mem_append.mp hc with hc | hc
  · simp [isSlash, h c hc]
  · rw [List.mem_singleton.mp hc]
    cases special <;> rfl

theorem takeWhile_dropWhile_at {u : List Char} (h : Slashless u) (special : Bool)
    (r : List Char) :
    (u ++ '@' :: r).takeWhile (fun c => !isSlash special c) =
        u ++ '@' :: r.takeWhile (fun c => !isSlash special c) ∧
      (u ++ '@' :: r).dropWhile (fun c => !isSlash special c) =
        r.dropWhile (fun c => !isSlash special c) := by
  have hkeep : ∀ c ∈ u ++ ['@'], (!isSlash special c) = true := by
    intro c hc
    rw [isSlash_of_slashless h special c hc]
    rfl
  rw [List.append_cons, List.takeWhile_append_of_pos hkeep, List.dropWhile_append_of_pos hkeep,
    List.append_assoc]
  exact ⟨rfl, rfl⟩

theorem readHostAndPath_at {u v : List Char} (hu : Slashless u) (hv : Slashless v)
    (scheme r : List Char) :
    (readHostAndPath H scheme (u ++ '@' :: r)).map withoutSecrets =
      (readHostAndPath H scheme (v ++ '@' :: r)).map withoutSecrets := by
  rw [readHostAndPath, readHostAndPath,
    (takeWhile_dropWhile_at hu _ r).1, (takeWhile_dropWhile_at hu _ r).2,
    (takeWhile_dropWhile_at hv _ r).1, (takeWhile_dropWhile_at hv _ r).2]
  have hauthority := readAuthority_at (H := H) scheme u v
    (r.takeWhile fun c => !isSlash (isSpecial scheme) c)
  generalize readAuthority H scheme (u ++ '@' :: _) = au at hauthority ⊢
  generalize readAuthority H scheme (v ++ '@' :: _) = av at hauthority ⊢
  cases au with
  | none =>
      cases av with
      | none => rfl
      | some b => cases hauthority
  | some a =>
      cases av with
      | none => cases hauthority
      | some b =>
          simp only [Option.map_some, Option.some.injEq, Prod.mk.injEq] at hauthority
          simp [withoutSecrets, hauthority]

/-- The host parser takes no `@`, which is forbidden in every host. -/
def RefusesAt (H : HostParser) : Prop := ∀ s, '@' ∈ s → H.special s = none

theorem plain_refusesAt : RefusesAt HostParser.plain := by
  intro s hs
  simp only [HostParser.plain]
  rw [if_neg]
  intro h
  have hall : ∀ c ∈ s, HostParser.isPlainChar c = true := by
    simpa using (Bool.and_eq_true_iff.mp h).2
  exact absurd (hall '@' hs) (by decide)

theorem readFile_at (hat : RefusesAt H) {u : List Char} (hu : Slashless u)
    (r : List Char) : readFile H none ('/' :: '/' :: (u ++ '@' :: r)) = none := by
  have hslash : isSlash true '/' = true := by decide
  have hhost := (takeWhile_dropWhile_at hu true r).1
  have hmem : '@' ∈ u ++ '@' :: r.takeWhile fun c => !isSlash true c := by simp
  have hdrive : isDriveLetter (u ++ '@' :: r.takeWhile fun c => !isSlash true c) = false := by
    cases u with
    | nil => cases hx : r.takeWhile fun c => !isSlash true c with
      | nil => rfl
      | cons d x => cases x <;> rfl
    | cons c u =>
        cases u with
        | nil => cases r.takeWhile fun c => !isSlash true c <;> simp [isDriveLetter]
        | cons d u => cases u <;> rfl
  have hempty : (u ++ '@' :: r.takeWhile fun c => !isSlash true c).isEmpty = false := by
    cases u <;> rfl
  rw [readFile]
  simp only [List.head?_cons, Option.any_some, hslash, if_true, List.tail_cons, readFileSlash,
    readFileHost, hhost, hdrive, hempty, Bool.false_eq_true, if_false, hat _ hmem,
    Option.bind_eq_bind, Option.bind_none]

theorem readAbsolute_at (hat : RefusesAt H) {u v : List Char} (hu : Slashless u)
    (hv : Slashless v) (scheme r : List Char) :
    (readAbsolute H none scheme ('/' :: '/' :: (u ++ '@' :: r))).map withoutSecrets =
      (readAbsolute H none scheme ('/' :: '/' :: (v ++ '@' :: r))).map withoutSecrets := by
  have hdrop : ∀ {w : List Char}, Slashless w →
      ('/' :: '/' :: (w ++ '@' :: r)).dropWhile (isSlash true) = w ++ '@' :: r := by
    intro w hw
    have hslash : isSlash true '/' = true := by decide
    have hfirst := isSlash_of_slashless hw true
    rw [List.dropWhile_cons, hslash, if_pos rfl, List.dropWhile_cons, hslash, if_pos rfl]
    cases w with
    | nil => rfl
    | cons c w =>
        rw [List.cons_append, List.dropWhile_cons, hfirst c (by simp)]
        rfl
  rw [readAbsolute, readAbsolute]
  cases isFile scheme with
  | true =>
      rw [if_pos rfl, if_pos rfl, Option.filter_none, readFile_at hat hu, readFile_at hat hv]
  | false =>
      rw [if_neg Bool.false_ne_true, if_neg Bool.false_ne_true]
      cases isSpecial scheme with
      | true =>
          rw [if_pos rfl, if_pos rfl, Option.filter_none]
          dsimp only
          rw [readSpecial, readSpecial, hdrop hu, hdrop hv]
          exact readHostAndPath_at hu hv scheme r
      | false =>
          rw [if_neg Bool.false_ne_true, if_neg Bool.false_ne_true]
          exact readHostAndPath_at hu hv scheme r

/-! ## The scheme before the slashes -/

theorem SchemeOrNone.cleanStart {scheme : List Char} (h : SchemeOrNone scheme) :
    SchemeOrNone (cleanStart scheme) := by
  rcases h with rfl | ⟨name, hname, rfl⟩
  · exact .inl rfl
  · refine .inr ⟨Url.cleanStart name, fun h => hname (mem_of_mem_cleanStart h), ?_⟩
    rw [cleanStart_mark (by decide)]
    rfl

theorem dropWhile_isSchemeChar_mark {m : Char} (hm : isSchemeChar m = false) (s t : List Char) :
    (s ++ m :: t).dropWhile isSchemeChar = s.dropWhile isSchemeChar ++ m :: t := by
  induction s with
  | nil => rw [List.nil_append, List.dropWhile_cons, hm]; rfl
  | cons c s ih =>
      rw [List.cons_append, List.dropWhile_cons, List.dropWhile_cons]
      cases isSchemeChar c with
      | true => simpa using ih
      | false => rfl

/-- Whether there is a scheme, and which, does not depend on what stands behind the slashes. -/
theorem splitScheme_slash {scheme : List Char} (h : SchemeOrNone scheme) :
    (∀ t, splitScheme (scheme ++ '/' :: t) = none) ∨
      ∃ name, ∀ t, splitScheme (scheme ++ '/' :: t) = some (name, '/' :: t) := by
  rcases h with rfl | ⟨name, hname, rfl⟩
  · refine .inl fun t => ?_
    rw [splitScheme, List.nil_append, List.head?_cons]
    rfl
  · have hcolon : isSchemeChar ':' = false := by decide
    have htext : ∀ t, name ++ [':'] ++ '/' :: t = name ++ ':' :: '/' :: t := by simp
    have hhead : ∀ t, (name ++ ':' :: '/' :: t).head? = (name ++ [':']).head? := by
      intro t
      cases name <;> rfl
    cases hrest : name.dropWhile isSchemeChar with
    | nil =>
        have hall : ∀ c ∈ name, isSchemeChar c = true := List.dropWhile_eq_nil_iff.mp hrest
        have htake : ∀ t, (name ++ ':' :: '/' :: t).takeWhile isSchemeChar = name := by
          intro t
          rw [List.takeWhile_append_of_pos hall, List.takeWhile_cons, hcolon]
          exact List.append_nil name
        cases hfirst : (name ++ [':']).head?.any isAlpha with
        | true =>
            refine .inr ⟨name.map Char.toLower, fun t => ?_⟩
            rw [htext, splitScheme, hhead, hfirst, dropWhile_isSchemeChar_mark hcolon, hrest,
              htake]
            rfl
        | false =>
            refine .inl fun t => ?_
            rw [htext, splitScheme, hhead, hfirst]
    | cons c rest =>
        have hc : c ≠ ':' := by
          rintro rfl
          have hmem : ':' ∈ name.dropWhile isSchemeChar := by
            rw [hrest]
            exact List.mem_cons_self
          exact hname ((List.dropWhile_suffix _).subset hmem)
        refine .inl fun t => ?_
        rw [htext, splitScheme, dropWhile_isSchemeChar_mark hcolon, hrest]
        split
        · rename_i heq
          exact absurd (List.cons.inj heq).1 hc
        · rfl

/-! ## Two addresses -/

/-- Reading two fronts that differ in a userinfo. -/
theorem readFront_at (hat : RefusesAt H) {scheme u v : List Char} (hscheme : SchemeOrNone scheme)
    (hu : Slashless u) (hv : Slashless v) (r : List Char) (x y : Bool) :
    (readFront H none (scheme ++ '/' :: '/' :: (u ++ '@' :: r)) x).map withoutSecrets =
      (readFront H none (scheme ++ '/' :: '/' :: (v ++ '@' :: r)) y).map withoutSecrets := by
  unfold readFront
  rcases splitScheme_slash hscheme with h | ⟨name, h⟩
  · rw [h, h]
  · rw [h, h]
    exact readAbsolute_at hat hu hv name r

/-- Without a base it does not matter whether a query follows. -/
theorem readFront_bare (s : List Char) (x y : Bool) :
    readFront H none s x = readFront H none s y := by
  unfold readFront
  cases splitScheme s <;> rfl

/-- Cleaning leaves a userinfo between what it makes of both sides. -/
theorem cleanHead_at (behind : Bool) (scheme rest : List Char) :
    ∃ r, ∀ u, cleanHead behind (scheme ++ '/' :: '/' :: (u ++ '@' :: rest)) =
      cleanStart scheme ++ '/' :: '/' :: (cleanMiddle u ++ '@' :: r) := by
  have hslash : isControlOrSpace '/' = false := by decide
  have hat : isControlOrSpace '@' = false := by decide
  cases behind with
  | true =>
      refine ⟨cleanMiddle rest, fun u => ?_⟩
      rw [cleanHead, if_pos rfl, cleanStart_mark hslash, cleanMiddle_cons hslash,
        cleanMiddle_append, cleanMiddle_cons hat]
  | false =>
      refine ⟨cleanEnd rest, fun u => ?_⟩
      have hend := cleanEnd_mark hslash [] (u ++ '@' :: rest)
      rw [List.nil_append, cleanEnd_mark hat] at hend
      rw [cleanHead, if_neg Bool.false_ne_true, clean_mark hslash, hend]
      rfl

theorem slashless_cleanMiddle {u : List Char} (h : Slashless u) : Slashless (cleanMiddle u) :=
  fun c hc => h c (mem_of_mem_cleanMiddle hc)

/-- What is read of the heads of two addresses that differ in their userinfo. -/
theorem readFront_sameBut (hat : RefusesAt H) {a b : Address} (h : a.SameBut b) (behind : Bool)
    (x y : Bool) :
    (readFront H none (cleanHead behind a.head) x).map withoutSecrets =
      (readFront H none (cleanHead behind b.head) y).map withoutSecrets := by
  have huserinfo := h.userinfo
  cases hu : a.userinfo with
  | none =>
      rw [hu] at huserinfo
      have hv : b.userinfo = none := by simpa using huserinfo.symm
      rw [Address.head, Address.head, h.front, h.rest, hu, hv, readFront_bare _ x y]
  | some u =>
      rw [hu, Option.isSome_some] at huserinfo
      obtain ⟨v, hv⟩ := Option.isSome_iff_exists.mp huserinfo.symm
      obtain ⟨scheme, hfront, hscheme⟩ := a.front_slashes u hu
      obtain ⟨r, hr⟩ := cleanHead_at behind scheme a.rest
      have hhead : ∀ w, scheme ++ "//".toList ++ (Address.written (some w) ++ a.rest) =
          scheme ++ '/' :: '/' :: (w ++ '@' :: a.rest) := by
        intro w
        simp [Address.written]
      have hplain : ∀ {c : Address} {w}, c.userinfo = some w → Slashless (cleanMiddle w) :=
        fun hw => slashless_cleanMiddle fun d hd =>
          ⟨(Address.userinfo_plain _ _ hw d hd).1, (Address.userinfo_plain _ _ hw d hd).2.1⟩
      have hb : b.head = scheme ++ '/' :: '/' :: (v ++ '@' :: a.rest) := by
        rw [Address.head, ← h.front, ← h.rest, hfront, hv, hhead]
      have ha : a.head = scheme ++ '/' :: '/' :: (u ++ '@' :: a.rest) := by
        rw [Address.head, hfront, hu, hhead]
      rw [ha, hb, hr, hr]
      exact readFront_at hat (SchemeOrNone.cleanStart hscheme) (hplain hu) (hplain hv) r x y

theorem Address.head_plain (a : Address) : '?' ∉ a.head ∧ '#' ∉ a.head := by
  have hwritten : '?' ∉ written a.userinfo ∧ '#' ∉ written a.userinfo := by
    cases hu : a.userinfo with
    | none => exact ⟨List.not_mem_nil, List.not_mem_nil⟩
    | some u =>
        have hplain := a.userinfo_plain u hu
        constructor
        · intro h
          rcases List.mem_append.mp h with h | h
          · exact (hplain _ h).2.2.1 rfl
          · exact absurd (List.mem_singleton.mp h) (by decide)
        · intro h
          rcases List.mem_append.mp h with h | h
          · exact (hplain _ h).2.2.2 rfl
          · exact absurd (List.mem_singleton.mp h) (by decide)
  simp only [head, List.mem_append, not_or]
  exact ⟨⟨a.front_plain.1, hwritten.1, a.rest_plain.1⟩,
    ⟨a.front_plain.2, hwritten.2, a.rest_plain.2⟩⟩

/-- Two addresses that differ only in their secrets are read as the same but for them, or both
cannot be read. -/
theorem parse_sameBut (hat : RefusesAt H) {a b : Address} (h : a.SameBut b) :
    (parse H none a.text).map withoutSecrets = (parse H none b.text).map withoutSecrets := by
  have hread : ∀ c : Address, (parse H none c.text).map withoutSecrets =
      ((readFront H none (cleanHead (c.query.isSome || c.fragment.isSome) c.head) true).map
        withoutSecrets).map fun u =>
          { u with
            path := if c.query.isSome || c.fragment.isSome then encodeLastSpace u.path
              else u.path } := by
    intro c
    obtain ⟨hfront, hquery, hfragment⟩ := cut_clean c.head_plain c.query_plain c.fragment
    rw [parse, Address.text, hfront, Option.map_map, Option.map_map, ← hquery, ← hfragment,
      readFront_bare _ _ true]
    apply congrFun
    apply congrArg
    funext u
    exact withoutSecrets_withFragment u _ _
  rw [hread, hread, h.query, h.fragment, readFront_sameBut hat h _ true true]

end AgentGather.Library.Url
