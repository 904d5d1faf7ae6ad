import AgentGather.Library.UrlHost
import AgentGather.Library.UrlParams

/-!
# Writing parameters

`encodeURIComponent`, of a text that is given by its UTF-16 code units, and the serializer of
`application/x-www-form-urlencoded`.  An encoded component is read back by the parser of
parameters as the text it was made of.
-/

namespace AgentGather.Library

/-! ## UTF-16 -/

namespace Utf16

def isHigh (u : UInt16) : Bool := 0xd800 ≤ u.toNat && u.toNat < 0xdc00

def isLow (u : UInt16) : Bool := 0xdc00 ≤ u.toNat && u.toNat < 0xe000

def pair (high low : UInt16) : Char :=
  Char.ofNat (0x10000 + (high.toNat - 0xd800) * 0x400 + (low.toNat - 0xdc00))

/-- The characters of a text; none where a surrogate stands alone. -/
def decode : List UInt16 → Option (List Char)
  | [] => some []
  | [u] => if isHigh u || isLow u then none else some [Char.ofNat u.toNat]
  | u :: v :: rest =>
      if isHigh u then
        if isLow v then (decode rest).map (pair u v :: ·) else none
      else if isLow u then none
      else (decode (v :: rest)).map (Char.ofNat u.toNat :: ·)

end Utf16

namespace Url

/-! ## Components -/

/-- What `encodeURIComponent` escapes. -/
def componentSet (c : Char) : Bool :=
  !(Text.isWord c || ['-', '.', '!', '~', '*', '\'', '(', ')'].contains c)

/-- `encodeURIComponent`; none where it throws. -/
def encodeComponent (units : List UInt16) : Option (List Char) :=
  (Utf16.decode units).map (percentEncode componentSet)

/-! ## Forms -/

def formSet (c : Char) : Bool := !(Text.isWord c || ['-', '.', '*'].contains c)

def formEncode (s : List Char) : List Char :=
  s.flatMap fun c => if c = ' ' then ['+'] else percentChar formSet c

def serializeForm (params : List (List Char × List Char)) : List Char :=
  ['&'].intercalate (params.map fun param => formEncode param.1 ++ '=' :: formEncode param.2)

/-- `set(name, value)` -/
def setParam (name value : List Char) :
    List (List Char × List Char) → List (List Char × List Char)
  | [] => [(name, value)]
  | param :: params =>
      if param.1 = name then (name, value) :: params.filter fun other => other.1 ≠ name
      else param :: setParam name value params

/-- `searchParams.set(name, value)` -/
def setSearchParam (name value : List Char) (u : Url) : Url :=
  { u with query := some (serializeForm (setParam name value u.searchParams)) }

/-- Assigning to `hash`. -/
def setHash (text : List Char) (u : Url) : Url :=
  if text = [] then { u with fragment := none }
  else
    let fragment := if text.head? = some '#' then text.tail else text
    { u with fragment := some (percentEncode fragmentSet
        (fragment.filter fun c => c != '\t' && c != '\n' && c != '\r')) }

/-! ## What is written -/

/-- The characters of escapes and those that a form does not escape. -/
theorem mem_formEncode {s : List Char} {c : Char} (h : c ∈ formEncode s) :
    c = '+' ∨ formSet c = false ∨ c ∈ '%' :: percentDigits := by
  obtain ⟨d, -, hc⟩ := List.mem_flatMap.mp h
  split at hc
  · exact .inl (List.mem_singleton.mp hc)
  · have hone : c ∈ percentEncode formSet [d] := by
      rw [percentEncode, List.flatMap_singleton]
      exact hc
    rcases mem_percentEncode hone with hc | hc
    · exact .inr (.inl hc.2)
    · exact .inr (.inr hc)

theorem mem_intercalate {sep : List Char} {pieces : List (List Char)} {c : Char}
    (h : c ∈ sep.intercalate pieces) : c ∈ sep ∨ ∃ piece ∈ pieces, c ∈ piece := by
  induction pieces with
  | nil => cases h
  | cons piece pieces ih =>
      cases pieces with
      | nil =>
          rw [List.intercalate_singleton] at h
          exact .inr ⟨piece, List.mem_cons_self, h⟩
      | cons other pieces =>
          rw [List.intercalate_cons_cons, List.mem_append, List.mem_append] at h
          rcases h with (h | h) | h
          · exact .inr ⟨piece, List.mem_cons_self, h⟩
          · exact .inl h
          · rcases ih h with h | ⟨found, hfound, h⟩
            · exact .inl h
            · exact .inr ⟨found, List.mem_cons_of_mem _ hfound, h⟩

/-- A form begins no fragment. -/
theorem hash_not_mem_serializeForm (params : List (List Char × List Char)) :
    '#' ∉ serializeForm params := by
  have hencoded (s : List Char) : '#' ∉ formEncode s := fun h => by
    rcases mem_formEncode h with h | h | h
    · exact absurd h (by decide)
    · exact absurd h (by decide)
    · exact absurd h (by decide)
  intro h
  rcases mem_intercalate h with h | ⟨piece, hpiece, h⟩
  · exact absurd h (by decide)
  · obtain ⟨param, -, rfl⟩ := List.mem_map.mp hpiece
    rcases List.mem_append.mp h with h | h
    · exact hencoded _ h
    · rcases List.mem_cons.mp h with h | h
      · exact absurd h (by decide)
      · exact hencoded _ h

/-- A component has none of the characters that a parser of parameters or of URLs treats in a
way of its own. -/
theorem mem_component {s : List Char} {c : Char} (h : c ∈ percentEncode componentSet s) :
    componentSet c = false ∨ c = '%' := by
  rcases mem_percentEncode h with h | h
  · exact .inl h.2
  · rcases List.mem_cons.mp h with h | h
    · exact .inr h
    · have hdigits : ∀ c ∈ percentDigits, componentSet c = false :=
        List.all_iff_forall_prop.mp (by decide +kernel)
      exact .inl (hdigits c h)

/-! ## What is read back -/

theorem encode_append (s t : List Char) : Utf8.encode (s ++ t) = Utf8.encode s ++ Utf8.encode t :=
  List.flatMap_append

/-- A digit of an escape is read as its value. -/
theorem read_percentDigit {n : Nat} (h : n < 16) :
    Utf8.encodeChar (percentDigit n) = [(percentDigit n).toNat] ∧
      Json.hexValue (Char.ofNat (percentDigit n).toNat) = some n := by
  have hall : ∀ n < 16, Utf8.encodeChar (percentDigit n) = [(percentDigit n).toNat] ∧
      Json.hexValue (Char.ofNat (percentDigit n).toNat) = some n := by decide
  exact hall n h

theorem percentDecode_percentByte {b : Nat} (h : b < 256) (rest : List Nat) :
    percentDecode (Utf8.encode (percentByte b) ++ rest) = b :: percentDecode rest := by
  obtain ⟨hhigh, hhighValue⟩ := read_percentDigit (n := b / 16) (by omega)
  obtain ⟨hlow, hlowValue⟩ := read_percentDigit (n := b % 16) (by omega)
  have hbytes : Utf8.encode (percentByte b) =
      [0x25, (percentDigit (b / 16)).toNat, (percentDigit (b % 16)).toNat] := by
    rw [percentByte, Utf8.encode, List.flatMap_cons, List.flatMap_cons, List.flatMap_singleton,
      hhigh, hlow]
    rfl
  rw [hbytes, List.cons_append, List.cons_append, List.cons_append, List.nil_append,
    percentDecode, hhighValue, hlowValue]
  simp only [Nat.div_add_mod']

theorem lt_of_mem_encodeChar {c : Char} {b : Nat} (h : b ∈ Utf8.encodeChar c) : b < 256 := by
  have hchar : c.toNat < 0x110000 := by
    rcases c.valid with h | ⟨-, h⟩
    · exact lt_trans h (by decide)
    · exact h
  simp only [Utf8.encodeChar] at h
  split_ifs at h <;> simp only [List.mem_cons, List.not_mem_nil, or_false] at h
  all_goals omega

theorem percentDecode_escapes {bytes : List Nat} (h : ∀ b ∈ bytes, b < 256) (rest : List Nat) :
    percentDecode (Utf8.encode (bytes.flatMap percentByte) ++ rest) =
      bytes ++ percentDecode rest := by
  induction bytes with
  | nil => rfl
  | cons b bytes ih =>
      rw [List.forall_mem_cons] at h
      rw [List.flatMap_cons, encode_append, List.append_assoc, percentDecode_percentByte h.1,
        ih h.2, List.cons_append]

/-- What a component keeps is one byte, no escape and no plus sign. -/
theorem componentSet_false {c : Char} (h : componentSet c = false) :
    Utf8.encodeChar c = [c.toNat] ∧ c.toNat ≠ 0x25 ∧ c ≠ '+' := by
  rw [componentSet, Bool.not_eq_false', Bool.or_eq_true, List.contains_iff_mem] at h
  rcases h with hword | hmark
  · simp only [Text.isWord, Text.isLower, Text.isUpper, Text.isDigit, Bool.or_eq_true,
      Bool.and_eq_true, decide_eq_true_eq, beq_iff_eq] at hword
    have hrange : 0x30 ≤ c.toNat ∧ c.toNat < 0x80 := by
      rcases hword with ((hword | hword) | hword) | rfl
      · exact ⟨le_trans (by decide) hword.1, lt_of_le_of_lt hword.2 (by decide)⟩
      · exact ⟨le_trans (by decide) hword.1, lt_of_le_of_lt hword.2 (by decide)⟩
      · exact ⟨le_trans (by decide) hword.1, lt_of_le_of_lt hword.2 (by decide)⟩
      · decide
    refine ⟨if_pos hrange.2, by omega, ?_⟩
    rintro rfl
    exact absurd hrange.1 (by decide)
  · have hmarks : ∀ c ∈ ['-', '.', '!', '~', '*', '\'', '(', ')'],
        Utf8.encodeChar c = [c.toNat] ∧ c.toNat ≠ 0x25 ∧ c ≠ '+' :=
      List.all_iff_forall_prop.mp (by decide +kernel)
    exact hmarks c hmark

/-- What a component keeps, a fragment keeps as well. -/
theorem fragmentSet_of_componentSet {c : Char} (h : componentSet c = false) :
    fragmentSet c = false := by
  rw [componentSet, Bool.not_eq_false', Bool.or_eq_true, List.contains_iff_mem] at h
  rcases h with hword | hmark
  · have hne (d : Char) (hd : Text.isWord d = false) : c ≠ d := by
      rintro rfl
      cases hd.symm.trans hword
    have hrange : ¬ c.toNat ≤ 0x1f ∧ ¬ 0x7e < c.toNat := by
      simp only [Text.isWord, Text.isLower, Text.isUpper, Text.isDigit, Bool.or_eq_true,
        Bool.and_eq_true, decide_eq_true_eq, beq_iff_eq] at hword
      rcases hword with ((⟨hlow, hhigh⟩ | ⟨hlow, hhigh⟩) | ⟨hlow, hhigh⟩) | rfl
      · exact ⟨Nat.not_le_of_lt (Nat.lt_of_lt_of_le (by decide) hlow),
          Nat.not_lt_of_le (Nat.le_trans hhigh (by decide))⟩
      · exact ⟨Nat.not_le_of_lt (Nat.lt_of_lt_of_le (by decide) hlow),
          Nat.not_lt_of_le (Nat.le_trans hhigh (by decide))⟩
      · exact ⟨Nat.not_le_of_lt (Nat.lt_of_lt_of_le (by decide) hlow),
          Nat.not_lt_of_le (Nat.le_trans hhigh (by decide))⟩
      · decide
    simp [fragmentSet, controlSet, isControl, hrange.1, Nat.le_of_not_lt hrange.2,
      hne ' ' (by decide), hne '"' (by decide), hne '<' (by decide), hne '>' (by decide),
      hne '\x60' (by decide)]
  · have hmarks : ∀ c ∈ ['-', '.', '!', '~', '*', '\'', '(', ')'], fragmentSet c = false :=
      List.all_iff_forall_prop.mp (by decide +kernel)
    exact hmarks c hmark

/-- A fragment that needs no escape is kept as it is. -/
theorem setHash_of_plain {text : List Char} {u : Url} (hne : text ≠ [])
    (hhead : text.head? ≠ some '#') (h : ∀ c ∈ text, fragmentSet c = false) :
    setHash text u = { u with fragment := some text } := by
  have hkept : text.filter (fun c => c != '\t' && c != '\n' && c != '\r') = text := by
    rw [List.filter_eq_self]
    intro c hc
    have hset := h c hc
    have hbreak (d : Char) (hd : fragmentSet d = true) : (c != d) = true := by
      rw [bne_iff_ne]
      rintro rfl
      cases hd.symm.trans hset
    rw [hbreak '\t' (by decide), hbreak '\n' (by decide), hbreak '\r' (by decide)]
    rfl
  rw [setHash, if_neg hne]
  simp only [if_neg hhead, hkept, percentEncode_eq_self h]

/-- A component is read as the bytes of its text. -/
theorem percentDecode_component (s : List Char) :
    percentDecode (Utf8.encode (percentEncode componentSet s)) = Utf8.encode s := by
  induction s with
  | nil => rfl
  | cons c s ih =>
      have hcons : percentEncode componentSet (c :: s) =
          percentChar componentSet c ++ percentEncode componentSet s := rfl
      have hbytes : Utf8.encode (c :: s) = Utf8.encodeChar c ++ Utf8.encode s := rfl
      rw [hcons, hbytes, encode_append, percentChar]
      split
      · rw [percentDecode_escapes (fun b => lt_of_mem_encodeChar), ih]
      · rename_i hset
        obtain ⟨hascii, hpercent, -⟩ := componentSet_false (by simpa using hset)
        rw [Utf8.encode, List.flatMap_singleton, hascii, List.singleton_append,
          List.singleton_append, percentDecode.eq_2 _ _ fun _ _ _ hb _ => hpercent hb, ih]

/-- A component is read back as its text. -/
theorem formDecode_component (s : List Char) :
    formDecode (percentEncode componentSet s) = s := by
  have hplus : (percentEncode componentSet s).map (fun c => if c = '+' then ' ' else c) =
      percentEncode componentSet s := by
    rw [List.map_congr_left, List.map_id']
    intro c hc
    rcases mem_component hc with hset | rfl
    · rw [if_neg (componentSet_false hset).2.2]
    · rfl
  rw [formDecode, hplus, percentDecode_component, Utf8.decode_encode]

/-- The pieces of a form that begins with one. -/
theorem formPieces_cons {piece : List Char} (hne : piece ≠ []) (hpiece : '&' ∉ piece)
    (rest : List Char) : formPieces (piece ++ '&' :: rest) = piece :: formPieces rest := by
  have hnone : ∀ c ∈ piece, (c == '&') = false := by
    intro c hc
    rw [beq_eq_false_iff_ne]
    rintro rfl
    exact hpiece hc
  rw [formPieces, List.splitOnP_append_cons_of_forall_mem hnone '&' rfl,
    List.filter_cons_of_pos (by simpa using hne), formPieces]

/-- The first parameter of a form is found by its name. -/
theorem getParam_first {name value : List Char} (hname : '=' ∉ name) (hand : '&' ∉ name)
    (hself : formDecode name = name) (hvalue : '&' ∉ value) (rest : List Char) :
    getParam name (parseForm (name ++ '=' :: value ++ '&' :: rest)) =
      some (formDecode value) := by
  have hpiece : '&' ∉ name ++ '=' :: value := by
    rw [List.mem_append, List.mem_cons, not_or, not_or]
    exact ⟨hand, by decide, hvalue⟩
  have hsplit : splitAtFirst '=' (name ++ '=' :: value) = (name, some value) := by
    rw [splitAtFirst_append hname]
    simp [splitAtFirst]
  rw [getParam_parseForm, formPieces_cons (by simp) hpiece, List.find?_cons_of_pos]
  · rw [Option.map_some, rawValue, hsplit]
    rfl
  · rw [rawName, hsplit, hself]
    exact beq_self_eq_true name

/-- The last parameter of a form of two. -/
theorem getParam_second {first name value : List Char} (hne : first ≠ []) (hfirst : '&' ∉ first)
    (hother : formDecode (rawName first) ≠ name) (hname : '=' ∉ name) (hand : '&' ∉ name)
    (hself : formDecode name = name) (hvalue : '&' ∉ value) :
    getParam name (parseForm (first ++ '&' :: (name ++ '=' :: value))) =
      some (formDecode value) := by
  have hpiece : ∀ c ∈ name ++ '=' :: value, (c == '&') = false := by
    intro c hc
    rw [beq_eq_false_iff_ne]
    rintro rfl
    rcases List.mem_append.mp hc with hc | hc
    · exact hand hc
    · rcases List.mem_cons.mp hc with heq | hc
      · cases heq
      · exact hvalue hc
  have hsplit : splitAtFirst '=' (name ++ '=' :: value) = (name, some value) := by
    rw [splitAtFirst_append hname]
    simp [splitAtFirst]
  have hlast : formPieces (name ++ '=' :: value) = [name ++ '=' :: value] := by
    rw [formPieces, List.splitOnP_eq_singleton hpiece]
    simp
  rw [getParam_parseForm, formPieces_cons hne hfirst, hlast, List.find?_cons_of_neg,
    List.find?_cons_of_pos]
  · rw [Option.map_some, rawValue, hsplit]
    rfl
  · rw [rawName, hsplit, hself]
    exact beq_self_eq_true name
  · simpa using hother

/-! ## Where the fragment begins -/

variable {H : HostParser}

/-- Before its query and its fragment, a web URL has no mark of a fragment. -/
theorem IsWebUrl.hash_not_mem (hlaw : H.Lawful) {u : Url} (h : IsWebUrl H u) :
    '#' ∉ u.scheme ++ ":".toList ++ u.authority ++ u.pathname := by
  obtain ⟨a, ha, hname, hpassword, hhost, hport⟩ := h.authority
  obtain ⟨path, hpath, hnormal, -⟩ := h.path
  have huser {s : List Char} (hs : ∀ c ∈ s, userinfoSet c = false) : '#' ∉ s := fun hc =>
    absurd (hs _ hc) (by decide)
  have hcredentials : '#' ∉ u.credentials := by
    rw [credentials, hname, hpassword]
    split
    · exact List.not_mem_nil
    · simp only [List.mem_append, not_or]
      refine ⟨⟨huser ha.username, ?_⟩, by decide⟩
      split
      · exact List.not_mem_nil
      · rw [List.mem_cons, not_or]
        exact ⟨by decide, huser ha.password⟩
  have hauthority : '#' ∉ a.host ++ portSuffix a.port := fun hc =>
    absurd (isHostChar_hostAndPort hlaw ha _ hc) (by decide)
  have hscheme : '#' ∉ u.scheme := by
    rcases h.http with hhttp | hhttp
    · rw [hhttp]
      decide
    · rw [hhttp]
      decide
  have hpathname : '#' ∉ u.pathname := by
    rw [pathname_segments hpath]
    exact fun hc => (not_isControlOrSpace_of_querySet (mem_joinSegments hnormal hc).1).2 rfl
  rw [List.mem_append, not_or] at hauthority
  simp only [Url.authority, hhost, hport, List.mem_append, not_or]
  exact ⟨⟨⟨hscheme, by decide⟩, ⟨⟨by decide, hcredentials⟩, hauthority.1⟩, hauthority.2⟩,
    hpathname⟩

/-- The fragment of a web address whose query begins none. -/
theorem IsWebUrl.splitAtFirst_href (hlaw : H.Lawful) {u : Url} (h : IsWebUrl H u)
    (hquery : ∀ query, u.query = some query → '#' ∉ query) :
    (splitAtFirst '#' u.href).2 = u.fragment := by
  have hfront : '#' ∉ u.scheme ++ ":".toList ++ u.authority ++ u.pathname ++
      marked '?' u.query := by
    rw [List.mem_append, not_or]
    exact ⟨h.hash_not_mem hlaw, splitAtFirst_mark (by decide) hquery⟩
  rw [href, splitAtFirst_append hfront]
  cases u.fragment with
  | none => rfl
  | some fragment => rfl

end Url

end AgentGather.Library
