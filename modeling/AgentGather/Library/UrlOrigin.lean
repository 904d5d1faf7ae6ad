import AgentGather.Library.UrlPath

/-!
# URLs at an origin

Reading a text that begins with the origin of a web server, and reading a path that was
serialized against such an origin.
-/

namespace AgentGather.Library.Url

variable {H : HostParser}

/-! ## Cutting and cleaning -/

theorem splitAtFirst_append {sep : Char} {s : List Char} (h : sep ∉ s) (t : List Char) :
    splitAtFirst sep (s ++ t) = (s ++ (splitAtFirst sep t).1, (splitAtFirst sep t).2) := by
  have hkeep : ∀ c ∈ s, (c != sep) = true := by
    intro c hc
    simpa using fun heq : c = sep => h (heq ▸ hc)
  rw [splitAtFirst, List.takeWhile_append_of_pos hkeep, List.dropWhile_append_of_pos hkeep]
  rfl

theorem splitAtFirst_of_not_mem {sep : Char} {s : List Char} (h : sep ∉ s) :
    splitAtFirst sep s = (s, none) := by
  have happend := splitAtFirst_append h []
  rwa [List.append_nil, show splitAtFirst sep [] = ([], none) from rfl,
    List.append_nil] at happend

theorem cut_append {s : List Char} (hquery : '?' ∉ s) (hfragment : '#' ∉ s) (t : List Char) :
    cut (s ++ t) = ⟨s ++ (cut t).front, (cut t).query, (cut t).fragment⟩ := by
  rw [cut, splitAtFirst_append hfragment, splitAtFirst_append hquery]
  rfl

theorem splitAtFirst_mark {sep mark : Char} {part : Option (List Char)} (hmark : mark ≠ sep)
    (hpart : ∀ text, part = some text → sep ∉ text) : sep ∉ marked mark part := by
  cases part with
  | none => exact List.not_mem_nil
  | some text =>
      rw [marked, List.mem_cons, not_or]
      exact ⟨hmark.symm, hpart text rfl⟩

theorem rdropWhile_append {α : Type} {p : α → Bool} {s : List α} (hne : s ≠ [])
    (hlast : p (s.getLast hne) = false) (t : List α) :
    (s ++ t).rdropWhile p = s ++ t.rdropWhile p := by
  induction t using List.reverseRecOn with
  | nil =>
      rw [List.append_nil, List.rdropWhile_nil, List.append_nil]
      exact List.rdropWhile_eq_self_iff.mpr fun _ => by simp [hlast]
  | append_singleton t a ih =>
      rw [← List.append_assoc]
      by_cases ha : p a = true
      · rw [List.rdropWhile_concat_pos _ _ _ ha, List.rdropWhile_concat_pos _ _ _ ha, ih]
      · rw [List.rdropWhile_concat_neg _ _ _ ha, List.rdropWhile_concat_neg _ _ _ ha,
          List.append_assoc]

/-- What cleaning makes of the text behind one that needs none. -/
def cleanEnd (s : List Char) : List Char :=
  (s.rdropWhile isControlOrSpace).filter fun c => c != '\t' && c != '\n' && c != '\r'

theorem filter_lineBreaks_of_plain {s : List Char}
    (h : ∀ c ∈ s, isControlOrSpace c = false) :
    (s.filter fun c => c != '\t' && c != '\n' && c != '\r') = s := by
  apply List.filter_eq_self.mpr
  intro c hc
  have hplain := h c hc
  have htab : c ≠ '\t' := fun heq => by rw [heq] at hplain; cases hplain
  have hline : c ≠ '\n' := fun heq => by rw [heq] at hplain; cases hplain
  have hreturn : c ≠ '\r' := fun heq => by rw [heq] at hplain; cases hplain
  simp [htab, hline, hreturn]

theorem clean_append {s : List Char} (hne : s ≠ [])
    (h : ∀ c ∈ s, isControlOrSpace c = false) (t : List Char) :
    clean (s ++ t) = s ++ cleanEnd t := by
  have hstart : (s ++ t).dropWhile isControlOrSpace = s ++ t := by
    cases s with
    | nil => exact absurd rfl hne
    | cons c s =>
        rw [List.cons_append, List.dropWhile_cons, h c List.mem_cons_self]
        rfl
  rw [clean, hstart, rdropWhile_append hne (h _ (List.getLast_mem hne)),
    List.filter_append,
    filter_lineBreaks_of_plain h]
  rfl

theorem cleanEnd_of_plain {s : List Char} (h : ∀ c ∈ s, isControlOrSpace c = false) :
    cleanEnd s = s := by
  have hstop : s.rdropWhile isControlOrSpace = s :=
    List.rdropWhile_eq_self_iff.mpr fun hne => by simp [h _ (List.getLast_mem hne)]
  rw [cleanEnd, hstop, filter_lineBreaks_of_plain h]

theorem clean_of_plain {s : List Char} (h : ∀ c ∈ s, isControlOrSpace c = false) :
    clean s = s := by
  cases s with
  | nil => rfl
  | cons c s =>
      have happend := clean_append (List.cons_ne_nil c s) h []
      rwa [List.append_nil, show cleanEnd [] = [] from rfl, List.append_nil] at happend

/-! ## Origins -/

/-- A character of an authority that ends neither it nor the front. -/
def isAuthorityChar (c : Char) : Bool :=
  !isControlOrSpace c && !isSlash true c && c != '?' && c != '#'

/-- The origin of a web server as it is written: a scheme and an authority that can be
read. -/
structure WebOrigin (H : HostParser) where
  scheme : List Char
  text : List Char
  authority : Authority
  isHttp : scheme = "http".toList ∨ scheme = "https".toList
  chars : ∀ c ∈ text, isAuthorityChar c = true
  read : readAuthority H scheme text = some authority

namespace WebOrigin

def written (o : WebOrigin H) : List Char := o.scheme ++ "://".toList ++ o.text

/-- The URL of a path at the origin. -/
def url (o : WebOrigin H) (path : List (List Char)) : Url :=
  ⟨o.scheme, o.authority.username, o.authority.password, some o.authority.host,
    o.authority.port, .segments path, none, none⟩

theorem isWeb (o : WebOrigin H) : IsWeb o.scheme := by
  rcases o.isHttp with h | h
  · rw [h]
    exact isWeb_http
  · rw [h]
    exact isWeb_https

end WebOrigin

theorem isAuthorityChar_iff {c : Char} : isAuthorityChar c = true ↔
    isControlOrSpace c = false ∧ isSlash true c = false ∧ c ≠ '?' ∧ c ≠ '#' := by
  simp [isAuthorityChar, and_assoc]

/-- A web server has a host. -/
theorem readAuthority_nil {scheme : List Char} (h : IsWeb scheme) :
    readAuthority H scheme [] = none := by
  have hempty : readHost H scheme [] = none := by
    rw [readHost, h.special]
    rfl
  have hunfold : readAuthority H scheme [] = (do
      let port ← readPort scheme []
      let host ← readHost H scheme []
      return ⟨percentEncode userinfoSet [], percentEncode userinfoSet [], host, port⟩) := rfl
  rw [hunfold, hempty]
  rfl

theorem WebOrigin.text_ne_nil (o : WebOrigin H) : o.text ≠ [] := by
  intro hnil
  have hread := o.read
  rw [hnil, readAuthority_nil o.isWeb] at hread
  cases hread

theorem WebOrigin.written_ne_nil (o : WebOrigin H) : o.written ≠ [] := by
  intro h
  exact o.text_ne_nil (List.append_eq_nil_iff.mp h).2

theorem WebOrigin.getLast_written (o : WebOrigin H) :
    o.written.getLast o.written_ne_nil ≠ '/' := by
  intro h
  have hlast : o.text.getLast o.text_ne_nil = '/' := by
    rw [← h]
    exact (List.getLast_append_of_ne_nil _ o.text_ne_nil).symm
  have hchar := o.chars _ (List.getLast_mem o.text_ne_nil)
  rw [hlast] at hchar
  exact absurd hchar (by decide)

theorem WebOrigin.written_eq (o : WebOrigin H) :
    (∀ s, splitScheme (o.written ++ s) = some (o.scheme, "//".toList ++ (o.text ++ s))) ∧
      '?' ∉ o.written ∧ '#' ∉ o.written ∧ (∀ c ∈ o.written, isControlOrSpace c = false) := by
  have htext : ∀ c ∈ o.text, isControlOrSpace c = false ∧ c ≠ '?' ∧ c ≠ '#' := by
    intro c hc
    obtain ⟨hplain, -, hquery, hfragment⟩ := isAuthorityChar_iff.mp (o.chars c hc)
    exact ⟨hplain, hquery, hfragment⟩
  have hfront : '?' ∉ o.scheme ++ "://".toList ∧ '#' ∉ o.scheme ++ "://".toList ∧
      ∀ c ∈ o.scheme ++ "://".toList, isControlOrSpace c = false := by
    rcases o.isHttp with h | h
    · rw [h]
      exact ⟨by decide, by decide, List.all_iff_forall_prop.mp (by decide)⟩
    · rw [h]
      exact ⟨by decide, by decide, List.all_iff_forall_prop.mp (by decide)⟩
  refine ⟨fun s => ?_, fun hc => ?_, fun hc => ?_, fun c hc => ?_⟩
  · rcases o.isHttp with h | h
    · rw [written, h]
      rfl
    · rw [written, h]
      rfl
  · rcases List.mem_append.mp hc with hc | hc
    · exact hfront.1 hc
    · exact (htext _ hc).2.1 rfl
  · rcases List.mem_append.mp hc with hc | hc
    · exact hfront.2.1 hc
    · exact (htext _ hc).2.2 rfl
  · rcases List.mem_append.mp hc with hc | hc
    · exact hfront.2.2 c hc
    · exact (htext c hc).1

/-- The text ends, or goes on with a slash. -/
def AtSlash (s : List Char) : Prop := s.head?.all (· == '/') = true

theorem takeWhile_authority {text s : List Char} (htext : ∀ c ∈ text, isSlash true c = false)
    (hs : AtSlash s) :
    (text ++ s).takeWhile (fun c => !isSlash true c) = text ∧
      (text ++ s).dropWhile (fun c => !isSlash true c) = s := by
  have hkeep : ∀ c ∈ text, (!isSlash true c) = true := by
    intro c hc
    rw [htext c hc]
    rfl
  rw [List.takeWhile_append_of_pos hkeep, List.dropWhile_append_of_pos hkeep]
  cases s with
  | nil => exact ⟨List.append_nil text, rfl⟩
  | cons c s =>
      obtain rfl : c = '/' := by simpa [AtSlash] using hs
      exact ⟨List.append_nil text, rfl⟩

/-- Slashes, an authority and a path. -/
theorem readSpecial_authority {scheme : List Char} (h : IsWeb scheme) {slashes text s : List Char}
    (hslashes : ∀ c ∈ slashes, isSlash true c = true) (hne : text ≠ [])
    (htext : ∀ c ∈ text, isSlash true c = false) (hs : AtSlash s) :
    readSpecial H scheme (slashes ++ (text ++ s)) = (readAuthority H scheme text).map
      fun authority => ⟨scheme, authority.username, authority.password, some authority.host,
        authority.port, .segments (readPath scheme [] s), none, none⟩ := by
  have hstop : (text ++ s).dropWhile (isSlash true) = text ++ s := by
    cases text with
    | nil => exact absurd rfl hne
    | cons c text =>
        rw [List.cons_append, List.dropWhile_cons, htext c List.mem_cons_self]
        rfl
  rw [readSpecial, List.dropWhile_append_of_pos hslashes, hstop, readHostAndPath, h.special,
    (takeWhile_authority htext hs).1, (takeWhile_authority htext hs).2]
  cases readAuthority H scheme text with
  | none => rfl
  | some authority => rfl

theorem atSlash_cut {s : List Char} (h : AtSlash s) : AtSlash (cut (cleanEnd s)).front := by
  cases s with
  | nil => rfl
  | cons c s =>
      obtain rfl : c = '/' := by simpa [AtSlash] using h
      have hclean : cleanEnd ('/' :: s) = ['/'] ++ cleanEnd s := by
        have hdrop := rdropWhile_append (p := isControlOrSpace) (List.cons_ne_nil '/' [])
          rfl s
        rw [cleanEnd, show '/' :: s = ['/'] ++ s from rfl, hdrop, List.filter_append]
        rfl
      rw [hclean, cut_append (by decide) (by decide)]
      rfl

theorem readAbsolute_web {scheme : List Char} (h : IsWeb scheme) (s : List Char) :
    readAbsolute H none scheme s = readSpecial H scheme s := by
  unfold readAbsolute
  simp only [h.notFile, h.special, Bool.false_eq_true, if_false, if_true, Option.filter_none]

/-- A text that begins with the origin, and goes on with a path. -/
theorem parse_origin (o : WebOrigin H) {s : List Char} (hs : AtSlash s) :
    parse H none (o.written ++ s) =
      some (((o.url (readPath o.scheme [] (cut (cleanEnd s)).front)).withQuery
        (cut (cleanEnd s)).query).withFragment (cut (cleanEnd s)).query
        (cut (cleanEnd s)).fragment) := by
  obtain ⟨hscheme, hquery, hfragment, hplain⟩ := o.written_eq
  have hspecial := @readSpecial_authority H _ o.isWeb "//".toList _ _
    (List.all_iff_forall_prop.mp (by decide)) o.text_ne_nil
    (fun c hc => (isAuthorityChar_iff.mp (o.chars c hc)).2.1)
    (atSlash_cut hs)
  rw [parse, clean_append o.written_ne_nil hplain, cut_append hquery hfragment]
  simp only [readFront, hscheme]
  rw [readAbsolute_web o.isWeb, hspecial, o.read]
  rfl

/-- An origin alone. -/
theorem parse_written (o : WebOrigin H) : parse H none o.written = some (o.url [[]]) := by
  have hparse := parse_origin o (s := []) rfl
  rw [List.append_nil] at hparse
  rw [hparse]
  have hempty : readPath o.scheme [] [] = [[]] := by
    rw [readPath, o.isWeb.special, readSegments, o.isWeb.notFile]
    rfl
  exact congrArg (fun path => some (o.url path)) hempty

/-! ## A serialized path against an origin -/

/-- A query as the parser leaves it. -/
def EncodedQuery (query : Option (List Char)) : Prop :=
  ∀ text, query = some text → ∀ c ∈ text, querySet c = false

theorem not_isControlOrSpace_of_querySet {c : Char} (h : querySet c = false) :
    isControlOrSpace c = false ∧ c ≠ '#' := by
  simp only [querySet, controlSet, Bool.or_eq_false_iff, List.contains_eq_mem,
    decide_eq_false_iff_not, List.mem_cons, List.not_mem_nil, or_false, not_or] at h
  simp [isControlOrSpace, h.1.1, h.2.1, h.2.2.2.1]

theorem querySet_of_pathSet {c : Char} (h : pathSet c = false) :
    querySet c = false ∧ c ≠ '?' := by
  simp only [pathSet, Bool.or_eq_false_iff, List.contains_eq_mem, decide_eq_false_iff_not,
    List.mem_cons, not_or] at h
  exact ⟨h.1, h.2.1⟩

/-- A part that is not shown where it is empty. -/
theorem shown_eq_marked (mark : Char) (part : Option (List Char)) :
    shown mark part = marked mark (part.filter (· ≠ [])) := by
  cases part with
  | none => rfl
  | some text =>
      cases text with
      | nil => rfl
      | cons c text => rfl

theorem encodedQuery_percentEncode (query : Option (List Char)) :
    EncodedQuery ((query.map (percentEncode specialQuerySet)).filter (· ≠ [])) := by
  intro text htext c hc
  obtain ⟨hquery, -⟩ := Option.filter_eq_some_iff.mp htext
  obtain ⟨q, -, rfl⟩ := Option.map_eq_some_iff.mp hquery
  have hset := not_set_of_mem_percentEncode escapes_specialQuerySet hc
  simp only [specialQuerySet, Bool.or_eq_false_iff] at hset
  exact hset.1

theorem mem_joinSegments {path : List (List Char)} (hpath : ∀ x ∈ path, Normal x) {c : Char}
    (h : c ∈ joinSegments path) : querySet c = false ∧ c ≠ '?' := by
  obtain ⟨x, hx, hc⟩ := List.mem_flatMap.mp h
  rcases List.mem_cons.mp hc with rfl | hc
  · decide
  · exact querySet_of_pathSet ((hpath x hx).not_pathSet c hc)

/-- A path behind an origin, as it is serialized. -/
theorem parse_origin_joinSegments (o : WebOrigin H) {path : List (List Char)}
    (hpath : ∀ x ∈ path, Normal x) :
    parse H none (o.written ++ joinSegments path) =
      some (o.url (if path = [] then [[]] else path)) := by
  by_cases hnil : path = []
  · subst hnil
    rw [joinSegments, List.flatMap_nil, List.append_nil, if_pos rfl]
    exact parse_written o
  · have hslash : AtSlash (joinSegments path) := by
      obtain ⟨x, rest, rfl⟩ := List.exists_cons_of_ne_nil hnil
      rfl
    have hchars : ∀ c ∈ joinSegments path, isControlOrSpace c = false ∧ c ≠ '#' ∧ c ≠ '?' := by
      intro c hc
      obtain ⟨hset, hquery⟩ := mem_joinSegments hpath hc
      obtain ⟨hplain, hfragment⟩ := not_isControlOrSpace_of_querySet hset
      exact ⟨hplain, hfragment, hquery⟩
    have hcut : cut (joinSegments path) = ⟨joinSegments path, none, none⟩ := by
      rw [cut, splitAtFirst_of_not_mem fun hc => (hchars _ hc).2.1 rfl,
        splitAtFirst_of_not_mem fun hc => (hchars _ hc).2.2 rfl]
    rw [parse_origin o hslash, cleanEnd_of_plain fun c hc => (hchars c hc).1, hcut,
      readPath_of_normal o.isWeb hpath hnil, if_neg hnil]
    rfl

theorem parse_joinSegments {base : Url} {old path : List (List Char)}
    {query : Option (List Char)} (hweb : IsWeb base.scheme) (hold : base.path = .segments old)
    (hpath : ∀ x ∈ path, Normal x) (hne : path ≠ []) (hquery : EncodedQuery query) :
    parse H (some base) (joinSegments path ++ marked '?' query) =
      (readRelative H base (joinSegments path)).map fun u => u.withQuery query := by
  have hset : ∀ c ∈ marked '?' query, querySet c = false := by
    cases query with
    | none => exact fun _ h => nomatch h
    | some text =>
        intro c hc
        rcases List.mem_cons.mp hc with rfl | hc
        · decide
        · exact hquery text rfl c hc
  have hplain : ∀ c ∈ joinSegments path ++ marked '?' query,
      isControlOrSpace c = false ∧ c ≠ '#' := by
    intro c hc
    rcases List.mem_append.mp hc with hc | hc
    · exact not_isControlOrSpace_of_querySet (mem_joinSegments hpath hc).1
    · exact not_isControlOrSpace_of_querySet (hset c hc)
  have hcut : cut (joinSegments path ++ marked '?' query) = ⟨joinSegments path, query, none⟩ := by
    rw [cut, splitAtFirst_of_not_mem fun h => (hplain _ h).2 rfl,
      splitAtFirst_append fun h => (mem_joinSegments hpath h).2 rfl]
    cases query with
    | none => simp [marked, splitAtFirst]
    | some text => simp [marked, splitAtFirst]
  obtain ⟨x, rest, rfl⟩ := List.exists_cons_of_ne_nil hne
  have hscheme : splitScheme (joinSegments (x :: rest)) = none := rfl
  rw [parse, clean_of_plain fun c hc => (hplain c hc).1, hcut]
  simp only [readFront, hscheme, hold]
  rw [readAtBase, hweb.notFile]
  rfl

/-- A path that does not begin with two slashes is the path at the base. -/
theorem readRelative_path {base : Url} (hweb : IsWeb base.scheme) {x : List Char}
    {rest : List (List Char)} (hpath : ∀ y ∈ x :: rest, Normal y) (h : x ≠ [] ∨ rest = []) :
    readRelative H base (joinSegments (x :: rest)) = some { base with
      path := .segments (x :: rest), query := none, fragment := none } := by
  have hsecond : (x ++ joinSegments rest).head?.any (isSlash true) = false := by
    cases x with
    | nil =>
        have hrest : rest = [] := h.resolve_left fun hx => hx rfl
        rw [hrest]
        rfl
    | cons c x => exact (hpath _ List.mem_cons_self).not_slash true c List.mem_cons_self
  have hread := readSegments_of_normal hweb hpath
  rw [joinSegments, List.flatMap_cons, List.cons_append, readRelative]
  rw [joinSegments] at hsecond hread
  simp only [hweb.special, List.tail_cons, hsecond, hread]
  rfl

/-- Two slashes begin an authority. -/
theorem readRelative_authority {base : Url} (hweb : IsWeb base.scheme) (y : List Char)
    (rest : List (List Char)) :
    readRelative H base (joinSegments ([] :: y :: rest)) =
      readSpecial H base.scheme (joinSegments ([] :: y :: rest)) := by
  rw [readRelative, hweb.special]
  rfl

/-- Empty segments, an authority and a path behind it. -/
theorem readSpecial_joinSegments {scheme : List Char} (h : IsWeb scheme) (k : Nat)
    {text : List Char} {rest : List (List Char)} (hne : text ≠ []) (htext : Normal text)
    (hrest : ∀ x ∈ rest, Normal x) :
    readSpecial H scheme (joinSegments (List.replicate k [] ++ text :: rest)) =
      (readAuthority H scheme text).map fun authority =>
        ⟨scheme, authority.username, authority.password, some authority.host, authority.port,
          .segments (if rest = [] then [[]] else rest), none, none⟩ := by
  have hslashes : joinSegments (List.replicate k []) ++ ['/'] = List.replicate (k + 1) '/' := by
    induction k with
    | zero => rfl
    | succ k ih =>
        rw [List.replicate_succ, joinSegments, List.flatMap_cons, ← joinSegments]
        exact congrArg _ ih
  have hsplit : joinSegments (List.replicate k [] ++ text :: rest) =
      List.replicate (k + 1) '/' ++ (text ++ joinSegments rest) := by
    rw [← hslashes]
    simp [joinSegments]
  have hat : AtSlash (joinSegments rest) := by
    cases rest with
    | nil => rfl
    | cons x rest => rfl
  have hslash : ∀ c ∈ List.replicate (k + 1) '/', isSlash true c = true := by
    intro c hc
    rw [(List.mem_replicate.mp hc).2]
    rfl
  rw [hsplit, readSpecial_authority h hslash hne (htext.not_slash true) hat]
  by_cases hnil : rest = []
  · subst hnil
    rw [if_pos rfl, joinSegments, List.flatMap_nil, readPath, h.special, readSegments, h.notFile]
    rfl
  · rw [if_neg hnil, readPath_of_normal h hrest hnil]

/-- Slashes alone are no authority. -/
theorem readSpecial_slashes {scheme : List Char} (h : IsWeb scheme) (k : Nat) :
    readSpecial H scheme (joinSegments (List.replicate k [])) = none := by
  have hdrop : (joinSegments (List.replicate k [])).dropWhile (isSlash true) = [] := by
    induction k with
    | zero => rfl
    | succ k ih =>
        rw [List.replicate_succ, joinSegments, List.flatMap_cons, ← joinSegments]
        exact ih
  rw [readSpecial, hdrop, readHostAndPath]
  simp only [List.takeWhile_nil]
  rw [readAuthority_nil h]
  rfl

/-- A path is empty segments only, or has a first one that is not empty. -/
theorem exists_replicate_append (path : List (List Char)) :
    (∃ k, path = List.replicate k []) ∨
      ∃ k text rest, path = List.replicate k [] ++ text :: rest ∧ text ≠ [] := by
  induction path with
  | nil => exact .inl ⟨0, rfl⟩
  | cons x path ih =>
      by_cases hx : x = []
      · subst hx
        rcases ih with ⟨k, hk⟩ | ⟨k, text, rest, hk, hne⟩
        · exact .inl ⟨k + 1, by rw [hk, List.replicate_succ]⟩
        · exact .inr ⟨k + 1, text, rest, by rw [hk, List.replicate_succ]; rfl, hne⟩
      · exact .inr ⟨0, x, path, rfl, hx⟩

theorem replicate_append_inj {k l : Nat} {text other : List Char}
    {rest rest' : List (List Char)} (htext : text ≠ []) (hother : other ≠ [])
    (h : List.replicate k [] ++ text :: rest = List.replicate l [] ++ other :: rest') :
    k = l ∧ text = other ∧ rest = rest' := by
  induction k generalizing l with
  | zero =>
      cases l with
      | zero => exact ⟨rfl, List.cons.inj h⟩
      | succ l => exact absurd (List.cons.inj h).1 htext
  | succ k ih =>
      cases l with
      | zero => exact absurd (List.cons.inj h).1.symm hother
      | succ l =>
          obtain ⟨rfl, htexts⟩ := ih (List.cons.inj h).2
          exact ⟨rfl, htexts⟩

/-- The path names something behind an authority. -/
def BehindAuthority (H : HostParser) (scheme : List Char) (name : List Char)
    (path : List (List Char)) : Prop :=
  ∃ k text, path = List.replicate (k + 1) [] ++ [text, name] ∧ text ≠ [] ∧
    (readAuthority H scheme text).isSome = true

/-- A serialized path is read at an origin as the name of something exactly when it is that
name, or names it behind an authority. -/
theorem pathname_parse_iff {base : Url} {old path : List (List Char)}
    {query : Option (List Char)} {name : List Char} (hweb : IsWeb base.scheme)
    (hold : base.path = .segments old) (hpath : ∀ x ∈ path, Normal x) (hne : path ≠ [])
    (hquery : EncodedQuery query) (hname : Normal name) (hnamed : name ≠ []) :
    (parse H (some base) (joinSegments path ++ marked '?' query)).map pathname =
        some ('/' :: name) ↔
      path = [name] ∨ BehindAuthority H base.scheme name path := by
  have hinj {other : List (List Char)} (hother : ∀ x ∈ other, Normal x) (hother' : other ≠ []) :
      joinSegments other = '/' :: name ↔ other = [name] := by
    constructor
    · intro h
      have hone : joinSegments [name] = '/' :: name := by simp [joinSegments]
      rw [← readPath_of_normal hweb hother hother', h, ← hone]
      exact readPath_of_normal hweb (by simpa using hname) (List.cons_ne_nil _ _)
    · rintro rfl
      simp [joinSegments]
  have hwithQuery (u : Url) (segments : List (List Char)) (h : u.path = .segments segments) :
      pathname (u.withQuery query) = joinSegments segments :=
    pathname_segments (path_withQuery h query)
  rw [parse_joinSegments hweb hold hpath hne hquery]
  obtain ⟨x, rest, rfl⟩ := List.exists_cons_of_ne_nil hne
  by_cases hfirst : x ≠ [] ∨ rest = []
  · rw [readRelative_path hweb hpath hfirst, Option.map_some, Option.map_some,
      hwithQuery _ (x :: rest) rfl, Option.some.injEq, hinj hpath hne]
    constructor
    · exact .inl
    · rintro (h | ⟨k, text, h, -, -⟩)
      · exact h
      · have hlength := congrArg List.length h
        rcases hfirst with hx | hrest
        · rw [List.replicate_succ] at h
          exact absurd (List.cons.inj h).1 hx
        · rw [hrest] at hlength
          simp at hlength
  · obtain ⟨hx, hrest⟩ := not_or.mp hfirst
    obtain rfl := not_not.mp hx
    obtain ⟨y, rest, rfl⟩ := List.exists_cons_of_ne_nil hrest
    rw [readRelative_authority hweb]
    rcases exists_replicate_append ([] :: y :: rest) with ⟨k, hk⟩ | ⟨k, text, behind, hk, htext⟩
    · rw [hk, readSpecial_slashes hweb]
      constructor
      · exact fun h => (by cases h)
      · rintro (h | ⟨l, text, h, htext, -⟩)
        · have hmem : name ∈ List.replicate k [] := h ▸ List.mem_singleton_self name
          exact absurd (List.mem_replicate.mp hmem).2 hnamed
        · have hmem : text ∈ List.replicate k [] := by
            rw [h]
            exact List.mem_append_right _ List.mem_cons_self
          exact absurd (List.mem_replicate.mp hmem).2 htext
    · rw [hk] at hpath ⊢
      have hbehind : ∀ x ∈ behind, Normal x := fun x hx =>
        hpath x (List.mem_append_right _ (List.mem_cons_of_mem _ hx))
      have hnamed' : joinSegments (if behind = [] then [[]] else behind) = '/' :: name ↔
          behind = [name] := by
        by_cases hnil : behind = []
        · simp [hnil, joinSegments, hnamed.symm]
        · rw [if_neg hnil, hinj hbehind hnil]
      rw [readSpecial_joinSegments hweb k htext
        (hpath text (List.mem_append_right _ List.mem_cons_self)) hbehind]
      constructor
      · intro h
        cases hread : readAuthority H base.scheme text with
        | none =>
            rw [hread] at h
            cases h
        | some authority =>
            rw [hread, Option.map_some, Option.map_some, Option.map_some,
              hwithQuery _ _ rfl, Option.some.injEq, hnamed'] at h
            subst h
            cases k with
            | zero => exact absurd (List.cons.inj hk).1.symm htext
            | succ k => exact .inr ⟨k, text, rfl, htext, by rw [hread]; rfl⟩
      · rintro (h | ⟨l, other, h, hother, hsome⟩)
        · cases k with
          | zero => exact absurd (List.cons.inj hk).1.symm htext
          | succ k =>
              rw [List.replicate_succ] at h
              exact absurd (List.cons.inj h).1.symm hnamed
        · obtain ⟨-, rfl, rfl⟩ := replicate_append_inj htext hother h
          obtain ⟨authority, hread⟩ := Option.isSome_iff_exists.mp hsome
          rw [hread, Option.map_some, Option.map_some, Option.map_some, hwithQuery _ _ rfl,
            Option.some.injEq, hnamed']

end AgentGather.Library.Url
