import AgentGather.Library.UrlHost

/-!
# Where reading a URL fails

At a web base every text can be read, unless it names an authority that cannot be.
-/

namespace AgentGather.Library.Url

variable {H : HostParser}

/-- The text begins with two slashes of either kind. -/
def twoSlashes (s : List Char) : Bool :=
  s.head?.any (isSlash true) && s.tail.head?.any (isSlash true)

/-- The text up to the next slash, behind the slashes with which it begins. -/
def authorityText (s : List Char) : List Char :=
  (s.dropWhile (isSlash true)).takeWhile fun c => !isSlash true c

/-- The scheme and the authority that a text names at a base with this scheme. -/
def namedAuthority (base input : List Char) : Option (List Char × List Char) :=
  let front := (cut (clean input)).front
  match splitScheme front with
  | none => if twoSlashes front then some (base, authorityText front) else none
  | some (scheme, s) =>
      if isFile scheme then
        if twoSlashes s then some (scheme, (s.drop 2).takeWhile fun c => !isSlash true c)
        else none
      else if isSpecial scheme then
        if scheme = base ∧ twoSlashes s = false then none else some (scheme, authorityText s)
      else
        match s with
        | '/' :: '/' :: t => some (scheme, t.takeWhile fun c => !isSlash false c)
        | _ => none

/-- The authority can be read.  That of a file is a host, a drive or nothing. -/
def readsAuthority (H : HostParser) (scheme text : List Char) : Bool :=
  if isFile scheme then isDriveLetter text || text.isEmpty || (H.special text).isSome
  else (readAuthority H scheme text).isSome

/-- The text names an authority that cannot be read. -/
def NamesUnreadable (H : HostParser) (base input : List Char) : Prop :=
  ∃ scheme text, namedAuthority base input = some (scheme, text) ∧
    readsAuthority H scheme text = false

theorem readHostAndPath_eq_none_iff {scheme s : List Char} :
    readHostAndPath H scheme s = none ↔
      readAuthority H scheme (s.takeWhile fun c => !isSlash (isSpecial scheme) c) = none := by
  rw [readHostAndPath]
  cases readAuthority H scheme (s.takeWhile fun c => !isSlash (isSpecial scheme) c) with
  | none => exact ⟨fun _ => rfl, fun _ => rfl⟩
  | some a => exact ⟨fun h => (by cases h), fun h => (by cases h)⟩

theorem readSpecial_eq_none_iff {scheme s : List Char} (hspecial : isSpecial scheme = true)
    (hfile : isFile scheme = false) :
    readSpecial H scheme s = none ↔ readsAuthority H scheme (authorityText s) = false := by
  rw [readSpecial, readHostAndPath_eq_none_iff, readsAuthority, hfile, hspecial,
    if_neg Bool.false_ne_true, Option.isSome_eq_false_iff, Option.isNone_iff_eq_none]
  rfl

theorem readRelative_eq_none_iff {base : Url} (hweb : IsWeb base.scheme) (s : List Char) :
    readRelative H base s = none ↔
      twoSlashes s = true ∧ readsAuthority H base.scheme (authorityText s) = false := by
  rw [← readSpecial_eq_none_iff hweb.special hweb.notFile, readRelative]
  cases s with
  | nil => exact ⟨fun h => (by cases h), fun h => (by cases h.1)⟩
  | cons c s =>
      simp only [hweb.special, List.isEmpty_cons, List.head?_cons, Option.any_some,
        List.tail_cons, twoSlashes]
      cases isSlash true c with
      | false => simp
      | true => cases s.head?.any (isSlash true) <;> simp

theorem readFile_eq_none_iff (s : List Char) :
    readFile H none s = none ↔ twoSlashes s = true ∧
      readsAuthority H "file".toList ((s.drop 2).takeWhile fun c => !isSlash true c) = false := by
  have hfile : isFile "file".toList = true := by decide
  have hdrop : s.drop 2 = s.tail.tail := by
    cases s with
    | nil => rfl
    | cons c s => cases s <;> rfl
  rw [readFile, twoSlashes, readsAuthority, hfile, if_pos rfl, hdrop]
  cases s.head?.any (isSlash true) with
  | false => exact ⟨fun h => (by cases h), fun h => (by cases h.1)⟩
  | true =>
      rw [if_pos rfl, readFileSlash]
      cases s.tail.head?.any (isSlash true) with
      | false => exact ⟨fun h => (by cases h), fun h => (by cases h.1)⟩
      | true =>
          rw [if_pos rfl, readFileHost]
          dsimp only
          generalize s.tail.tail.takeWhile (fun c => !isSlash true c) = host
          cases isDriveLetter host with
          | true => exact ⟨fun h => (by cases h), fun h => (by cases h.2)⟩
          | false =>
              cases host.isEmpty with
              | true => exact ⟨fun h => (by cases h), fun h => (by cases h.2)⟩
              | false =>
                  cases H.special host with
                  | none => exact ⟨fun _ => ⟨rfl, rfl⟩, fun _ => rfl⟩
                  | some host => exact ⟨fun h => (by cases h), fun h => (by cases h.2)⟩

/-- At a web base a text cannot be read exactly where it names such an authority. -/
theorem parse_eq_none_iff {base : Url} (hbase : IsWebUrl H base) (input : List Char) :
    parse H (some base) input = none ↔ NamesUnreadable H base.scheme input := by
  obtain ⟨path, hpath, -⟩ := hbase.path
  have hweb := isWeb_of_http hbase.http
  rw [parse, Option.map_eq_none_iff, NamesUnreadable, namedAuthority]
  generalize (cut (clean input)).front = front
  generalize (cut (clean input)).query.isNone = bare
  cases hscheme : splitScheme front with
  | none =>
      simp only [readFront, hscheme, hpath, readAtBase, hweb.notFile]
      rw [if_neg Bool.false_ne_true, readRelative_eq_none_iff hweb]
      cases twoSlashes front <;> simp
  | some split =>
      obtain ⟨scheme, s⟩ := split
      simp only [readFront, hscheme, readAbsolute]
      cases hfile : isFile scheme with
      | true =>
          obtain rfl : scheme = "file".toList := by simpa [isFile] using hfile
          have hbaseFile : (some base).filter (fun b => isFile b.scheme) = none := by
            rw [Option.filter_some, hweb.notFile]
            rfl
          rw [if_pos rfl, if_pos rfl, hbaseFile, readFile_eq_none_iff]
          cases twoSlashes s <;> simp
      | false =>
          rw [if_neg Bool.false_ne_true, if_neg Bool.false_ne_true]
          cases hspecial : isSpecial scheme with
          | true =>
              have hread := readSpecial_eq_none_iff (H := H) (s := s) hspecial hfile
              rw [if_pos rfl, if_pos rfl]
              by_cases hsame : base.scheme = scheme
              · subst hsame
                have hfilter : (some base).filter (fun b => b.scheme == base.scheme) =
                    some base := by rw [Option.filter_some, if_pos (beq_self_eq_true _)]
                rw [hfilter]
                dsimp only
                have hrelative := readRelative_eq_none_iff (H := H) hweb s
                by_cases hslashes : (s.head? = some '/' && s.tail.head? = some '/') = true
                · have htwo : twoSlashes s = true := by
                    simp only [Bool.and_eq_true, decide_eq_true_eq] at hslashes
                    rw [twoSlashes, hslashes.1, hslashes.2]
                    rfl
                  rw [if_pos hslashes, hread, htwo]
                  simp
                · rw [if_neg hslashes, hrelative]
                  cases twoSlashes s <;> simp
              · have hfilter : (some base).filter (fun b => b.scheme == scheme) = none := by
                  rw [Option.filter_some, if_neg (by simpa using hsame)]
                have hother : ¬ (scheme = base.scheme ∧ twoSlashes s = false) :=
                  fun h => hsame h.1.symm
                rw [hfilter, if_neg hother]
                simp [hread]
          | false =>
              rw [if_neg Bool.false_ne_true, if_neg Bool.false_ne_true]
              have hread (t : List Char) : readHostAndPath H scheme t = none ↔
                  readsAuthority H scheme (t.takeWhile fun c => !isSlash false c) = false := by
                rw [readHostAndPath_eq_none_iff, readsAuthority, hfile, hspecial,
                  if_neg Bool.false_ne_true, Option.isSome_eq_false_iff, Option.isNone_iff_eq_none]
              split
              · simp [hread]
              · rename_i t hone
                split
                · rename_i other heq
                  exact absurd (List.cons.inj heq).2 (hone other)
                · simp
              · rename_i hone htwo
                split
                · rename_i other heq
                  exact absurd rfl (htwo _)
                · simp

end AgentGather.Library.Url
