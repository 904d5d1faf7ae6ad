import AgentGather.Library.RegexScan
import AgentGather.Protocol.Mentions

/-!
# Where mentions stand

The scan for mentions, told position by position: a name is what follows an `@` that no
character of a name precedes.  And what masking leaves of a text.
-/

namespace AgentGather.Protocol

open AgentGather.Library AgentGather.Library.Regex

/-! ## Positions -/

/-- `[\w-]`: what may not precede an `@`. -/
def isNameChar (c : Char) : Bool := Text.isWord c || c == '-'

/-- Behind this text an `@` may begin a name. -/
def mayBegin (before : List Char) : Bool := before.getLast?.all fun c => !isNameChar c

/-- The name behind an `@` at a place of the text. -/
def nameAt (text : List Char) (i : Nat) : Option (List Char) :=
  let name := (text.drop (i + 1)).takeWhile isSlugChar
  if text[i]? = some '@' ∧ mayBegin (text.take i) ∧ name ≠ [] then
    some name
  else none

/-- The names of a text, in order. -/
def namesOf (text : List Char) : List String :=
  ((List.range text.length).filterMap (nameAt text)).map String.ofList

/-! ## The scan -/

/-- The names of what is left; `free` tells whether an `@` may come next. -/
def scanNames (free : Bool) : List Char → List (List Char)
  | [] => []
  | c :: cs =>
      (if free && c == '@' && cs.takeWhile isSlugChar != [] then [cs.takeWhile isSlugChar]
        else []) ++ scanNames (!isNameChar c) cs

theorem isNameChar_of_isSlugChar {c : Char} (h : isSlugChar c = true) : isNameChar c = true := by
  unfold isSlugChar at h
  unfold isNameChar Text.isWord
  cases hlower : Text.isLower c <;> cases hdigit : Text.isDigit c <;> simp_all

theorem ne_at_of_isSlugChar {c : Char} (h : isSlugChar c = true) : c ≠ '@' := by
  rintro rfl
  cases h

/-- Behind a name, and in it, no name begins. -/
theorem scanNames_run {free : Bool} {run : List Char} (hne : run ≠ [])
    (hrun : ∀ c ∈ run, isSlugChar c = true) (rest : List Char) :
    scanNames free (run ++ rest) = scanNames false rest := by
  induction run generalizing free with
  | nil => exact absurd rfl hne
  | cons c run ih =>
      have hc := hrun c List.mem_cons_self
      have hhere (cs : List Char) : scanNames free (c :: cs) = scanNames false cs := by
        rw [scanNames, beq_false_of_ne (ne_at_of_isSlugChar hc), isNameChar_of_isSlugChar hc,
          Bool.and_false, Bool.false_and]
        rfl
      rw [List.cons_append, hhere]
      cases run with
      | nil => rfl
      | cons d run => exact ih (List.cons_ne_nil d run) fun e he => hrun e (List.mem_cons_of_mem c he)

theorem scanNames_dropWhile {free : Bool} {cs : List Char}
    (hne : cs.takeWhile isSlugChar ≠ []) :
    scanNames free cs = scanNames false (cs.dropWhile isSlugChar) := by
  conv_lhs => rw [← List.takeWhile_append_dropWhile (p := isSlugChar) (l := cs)]
  exact scanNames_run hne (fun c hc => List.mem_takeWhile_imp hc) _

/-- An `@` with a name. -/
def namePattern : Regex Char := .seq (.char (· == '@')) (.group 2 (.plus (.char isSlugChar)))

/-- What may stand in front of it. -/
def frontPattern : Regex Char :=
  .group 1 (.alt .start (.char fun c => !(Text.isWord c || c == '-')))

theorem namePattern_head? (before rest : List Char) (groups : List (Nat × List Char)) :
    (namePattern.results ⟨before, rest, groups⟩).head? =
      match rest with
      | [] => none
      | c :: cs =>
          if c = '@' ∧ cs.takeWhile isSlugChar ≠ [] then
            some ⟨(cs.takeWhile isSlugChar).reverse ++ c :: before, cs.dropWhile isSlugChar,
              (2, cs.takeWhile isSlugChar) :: groups⟩
          else none := by
  cases rest with
  | nil => rfl
  | cons c cs =>
      by_cases hc : c = '@'
      · subst hc
        rw [namePattern, results, results_char_cons rfl rfl, List.flatMap_singleton, results,
          List.head?_map, head?_results_plus_char]
        dsimp only
        by_cases hname : cs.takeWhile isSlugChar = []
        · rw [if_pos hname, if_neg fun h => h.2 hname]
          rfl
        · rw [if_neg hname, if_pos ⟨rfl, hname⟩, Option.map_some, take_length_sub_dropWhile]
      · have hstop : (Regex.char (· == '@')).results ⟨before, c :: cs, groups⟩ = [] :=
          results_char_eq_nil fun d hd => by
            rw [← Option.some.inj hd]
            exact beq_false_of_ne hc
        rw [namePattern, results, hstop]
        exact (if_neg fun h => hc h.1).symm

/-- The match that begins here, of the start of the text or of the character in front. -/
theorem mentionPattern_head? (before rest : List Char) :
    (mentionPattern.results ⟨before, rest, []⟩).head? =
      (if before = [] then (namePattern.results ⟨before, rest, [(1, [])]⟩).head? else none).or
        (match rest with
        | [] => none
        | c :: cs =>
            if isNameChar c then none
            else (namePattern.results ⟨c :: before, cs, [(1, [c])]⟩).head?) := by
  have hpattern : mentionPattern = .seq frontPattern namePattern := rfl
  have hfront : frontPattern.results ⟨before, rest, []⟩ =
      (if before = [] then [⟨before, rest, [(1, [])]⟩] else []) ++
        (match rest with
        | [] => []
        | c :: cs => if isNameChar c then [] else [⟨c :: before, cs, [(1, [c])]⟩]) := by
    simp only [frontPattern, results, List.map_append, List.isEmpty_iff]
    congr 1
    · split
      · simp
      · rfl
    · cases rest with
      | nil => rfl
      | cons c cs =>
          change List.map _ (if (!isNameChar c) = true then _ else _) = _
          cases hc : isNameChar c with
          | false => simp [hc]
          | true => simp [hc]
  rw [hpattern, results, hfront, List.flatMap_append, List.head?_append]
  congr 1
  · split
    · rw [List.flatMap_singleton]
    · rfl
  · cases rest with
    | nil => rfl
    | cons c cs =>
        dsimp only
        split
        · rfl
        · rw [List.flatMap_singleton]

/-- The names of the matches, as the walk over the text finds them. -/
theorem names_allFrom (n : Nat) (before rest : List Char) (hn : rest.length < n) :
    (mentionPattern.allFrom n before rest).filterMap (·.group? 2) =
      scanNames before.isEmpty rest := by
  induction hlength : rest.length using Nat.strong_induction_on generalizing n before rest with
  | _ length ih =>
  subst hlength
  -- A match, and the names behind it.
  have hfound (q : Position Char) (name : List Char) (groups : List (Nat × List Char))
      (h : (mentionPattern.results ⟨before, rest, []⟩).head? = some q)
      (hshorter : q.rest.length < rest.length) (hbefore : q.before ≠ [])
      (hgroups : q.groups = (2, name) :: groups) :
      (mentionPattern.allFrom n before rest).filterMap (·.group? 2) =
        name :: scanNames false q.rest := by
    obtain ⟨n, rfl⟩ := Nat.exists_eq_succ_of_ne_zero (Nat.ne_of_gt (Nat.zero_lt_of_lt hn))
    obtain ⟨m, hall, hm⟩ := allFrom_of_head? n h hshorter
    have hname : m.group? 2 = some name := by
      rw [Match.group?, hm, hgroups]
      rfl
    rw [hall, List.filterMap_cons_some (f := fun m : Match Char => m.group? 2) hname,
      ih q.rest.length hshorter n q.before q.rest (by omega) rfl,
      List.isEmpty_eq_false_iff.mpr hbefore]
  cases rest with
  | nil =>
      have hnone : mentionPattern.matchAt before [] = none := by
        rw [matchAt, mentionPattern_head?, namePattern_head?]
        simp
      rw [allFrom_nil n hnone]
      rfl
  | cons c cs =>
      by_cases hhere : before = [] ∧ c = '@' ∧ cs.takeWhile isSlugChar ≠ []
      · obtain ⟨rfl, rfl, hname⟩ := hhere
        have hhead : (mentionPattern.results ⟨[], '@' :: cs, []⟩).head? =
            some ⟨(cs.takeWhile isSlugChar).reverse ++ ['@'], cs.dropWhile isSlugChar,
              [(2, cs.takeWhile isSlugChar), (1, [])]⟩ := by
          rw [mentionPattern_head?, if_pos rfl, namePattern_head?]
          simp [hname]
        rw [hfound _ _ _ hhead ?_ (by simp) rfl, scanNames, scanNames_dropWhile hname]
        · simp [hname]
        · exact Nat.lt_succ_of_le (List.length_dropWhile_le _ _)
      · have hfront : (if before = [] then
            (namePattern.results ⟨before, c :: cs, [(1, [])]⟩).head? else none) = none := by
          split
          · rename_i hbefore
            rw [namePattern_head?]
            exact if_neg fun h => hhere ⟨hbefore, h⟩
          · rfl
        have hscan : scanNames before.isEmpty (c :: cs) = scanNames (!isNameChar c) cs := by
          rw [scanNames, if_neg, List.nil_append]
          simpa [and_assoc] using hhere
        rw [hscan]
        have hpassed (hnone : (mentionPattern.results ⟨before, c :: cs, []⟩).head? = none) :
            (mentionPattern.allFrom n before (c :: cs)).filterMap (·.group? 2) =
              scanNames false cs := by
          rw [allFrom_of_head?_none n hnone]
          exact ih cs.length (Nat.lt_succ_self _) n (c :: before) cs (by
            rw [List.length_cons] at hn
            omega) rfl
        cases hc : isNameChar c with
        | true =>
            apply hpassed
            rw [mentionPattern_head?, hfront, Option.none_or]
            dsimp only
            rw [hc, if_pos rfl]
        | false =>
            have hhead := mentionPattern_head? before (c :: cs)
            rw [hfront, Option.none_or] at hhead
            dsimp only at hhead
            rw [hc, if_neg Bool.false_ne_true, namePattern_head?] at hhead
            cases cs with
            | nil => exact hpassed hhead
            | cons d ds =>
                by_cases hnext : d = '@' ∧ ds.takeWhile isSlugChar ≠ []
                · obtain ⟨rfl, hname⟩ := hnext
                  dsimp only at hhead
                  rw [if_pos ⟨rfl, hname⟩] at hhead
                  rw [hfound _ _ _ hhead ?_ (by simp) rfl, Bool.not_false, scanNames,
                    scanNames_dropWhile hname]
                  · simp [hname]
                  · have hle := List.length_dropWhile_le isSlugChar ds
                    simp only [List.length_cons]
                    omega
                · dsimp only at hhead
                  rw [if_neg hnext] at hhead
                  have hskip : (true && d == '@' && ds.takeWhile isSlugChar != []) = false := by
                    rw [Bool.eq_false_iff]
                    simpa using hnext
                  rw [hpassed hhead, Bool.not_false, scanNames, scanNames, hskip, Bool.false_and,
                    Bool.false_and]

theorem nameAt_append (before : List Char) (c : Char) (cs : List Char) :
    nameAt (before ++ c :: cs) before.length =
      if mayBegin before && c == '@' && cs.takeWhile isSlugChar != [] then
        some (cs.takeWhile isSlugChar)
      else none := by
  have hhere : (before ++ c :: cs)[before.length]? = some c := by simp
  have hbehind : (before ++ c :: cs).drop (before.length + 1) = cs := by
    rw [List.drop_append]
    simp
  rw [nameAt, hhere, hbehind, List.take_left]
  apply if_congr _ rfl rfl
  simp only [Option.some.injEq, Bool.and_eq_true, beq_iff_eq, bne_iff_ne]
  tauto

/-- The walk finds the names of all places. -/
theorem scanNames_eq (before rest : List Char) :
    scanNames (mayBegin before) rest =
      (List.range rest.length).filterMap fun i => nameAt (before ++ rest) (before.length + i) := by
  induction rest generalizing before with
  | nil => rfl
  | cons c cs ih =>
      have hlast : mayBegin (before ++ [c]) = !isNameChar c := by simp [mayBegin]
      have hlater := ih (before ++ [c])
      rw [hlast, List.length_append, List.length_singleton, List.append_assoc] at hlater
      have hnext (i : Nat) : before.length + 1 + i = before.length + (i + 1) := by omega
      simp only [hnext] at hlater
      rw [scanNames, hlater, List.length_cons, List.range_succ_eq_map, List.filterMap_cons,
        List.filterMap_map, Nat.add_zero, nameAt_append]
      split
      · rfl
      · rfl

theorem namesOf_eq (text : List Char) :
    (mentionPattern.matchAll text).filterMap (fun m => (m.group? 2).map String.ofList) =
      namesOf text := by
  have hscan := scanNames_eq [] text
  have hnames := names_allFrom (text.length + 1) [] text (Nat.lt_succ_self _)
  simp only [List.nil_append, List.length_nil, Nat.zero_add] at hscan
  rw [namesOf, ← hscan]
  change _ = (scanNames ([] : List Char).isEmpty text).map String.ofList
  rw [← hnames, List.map_filterMap]
  rfl

/-! ## Each name once -/

theorem addOnce_eraseDups (name : String) (names : List String) :
    addOnce name names.eraseDups = (names ++ [name]).eraseDups := by
  rw [List.eraseDups_append, addOnce]
  by_cases hin : name ∈ names
  · rw [if_pos (by simpa using hin)]
    simp [List.removeAll, hin]
  · rw [if_neg (by simpa using hin)]
    simp [List.removeAll, hin, List.eraseDups_cons]

theorem nodup_eraseDups (names : List String) : names.eraseDups.Nodup := by
  induction names using List.reverseRecOn with
  | nil => exact List.nodup_nil
  | append_singleton names name ih =>
      rw [← addOnce_eraseDups, addOnce]
      split
      · exact ih
      · rename_i hout
        refine List.nodup_append.mpr ⟨ih, List.pairwise_singleton _ _, ?_⟩
        intro a ha b hb hab
        rw [hab, List.mem_singleton.mp hb] at ha
        exact hout (by simpa using ha)

/-- The names that the roster has, and the others, each once and in order. -/
theorem analyzeMentions_eq (text : String) (participantAliases : List String) :
    analyzeMentions text participantAliases =
      ⟨((namesOf (maskCode text.toList)).filter
          (participantAliases.filter isSafeSlug).contains).eraseDups,
        ((namesOf (maskCode text.toList)).filter
          fun name => !(participantAliases.filter isSafeSlug).contains name).eraseDups⟩ := by
  rw [analyzeMentions, namesOf_eq]
  generalize participantAliases.filter isSafeSlug = roster
  induction namesOf (maskCode text.toList) using List.reverseRecOn with
  | nil => rfl
  | append_singleton names name ih =>
      rw [List.foldl_append, ih, List.foldl_cons, List.foldl_nil, List.filter_append,
        List.filter_append]
      cases hroster : roster.contains name with
      | true =>
          rw [if_pos rfl, addOnce_eraseDups, List.filter_cons_of_pos hroster,
            List.filter_cons_of_neg (by rw [hroster]; exact Bool.false_ne_true)]
          simp
      | false =>
          rw [if_neg Bool.false_ne_true, addOnce_eraseDups,
            List.filter_cons_of_neg (ne_true_of_eq_false hroster),
            List.filter_cons_of_pos (by rw [hroster]; rfl)]
          simp

/-! ## Masked text -/

/-- A line that opens, closes or is in a fenced block. -/
def isFenced (lines : List (List Char)) (i : Nat) : Bool :=
  (lines[i]?).any isFenceLine || (lines.take i).countP isFenceLine % 2 == 1

theorem getElem?_maskLines (inFence : Bool) (lines : List (List Char)) (i : Nat) :
    (maskLines inFence lines)[i]? = (lines[i]?).map fun line =>
      if (lines[i]?).any isFenceLine ||
        ((lines.take i).countP isFenceLine + inFence.toNat) % 2 == 1 then blank line
      else maskInlineCode line := by
  induction lines generalizing inFence i with
  | nil => rfl
  | cons line lines ih =>
      cases i with
      | zero =>
          cases hfence : isFenceLine line with
          | true => simp [maskLines, hfence]
          | false => cases inFence <;> simp [maskLines, hfence]
      | succ i =>
          cases hfence : isFenceLine line with
          | true =>
              have hparity : ((lines.take i).countP isFenceLine + 1 + inFence.toNat) % 2 =
                  ((lines.take i).countP isFenceLine + (!inFence).toNat) % 2 := by
                cases inFence with
                | false => rfl
                | true =>
                    rw [Bool.toNat_true, Bool.not_true, Bool.toNat_false]
                    omega
              simp only [maskLines, hfence, if_true, List.getElem?_cons_succ, ih,
                List.take_succ_cons, List.countP_cons_of_pos hfence, hparity]
          | false =>
              have hcount : (line :: lines.take i).countP isFenceLine =
                  (lines.take i).countP isFenceLine :=
                List.countP_cons_of_neg (ne_true_of_eq_false hfence)
              have hmask : (maskLines inFence (line :: lines))[i + 1]? =
                  (maskLines inFence lines)[i]? := by
                rw [maskLines, hfence, if_neg Bool.false_ne_true]
                split
                · rfl
                · rfl
              rw [hmask, ih, List.getElem?_cons_succ, List.take_succ_cons, hcount]

theorem maskLines_eq (lines : List (List Char)) (i : Nat) :
    (maskLines false lines)[i]? = (lines[i]?).map fun line =>
      if isFenced lines i then blank line else maskInlineCode line :=
  getElem?_maskLines false lines i

theorem utf16Length_append (s t : List Char) :
    Text.utf16Length (s ++ t) = Text.utf16Length s + Text.utf16Length t := by
  simp [Text.utf16Length]

theorem utf16Length_replicate_space (n : Nat) :
    Text.utf16Length (List.replicate n ' ') = n := by
  induction n with
  | zero => rfl
  | succ n ih =>
      rw [List.replicate_succ, Text.utf16Length_cons, ih]
      exact Nat.add_comm _ _

theorem utf16Length_blank (line : List Char) :
    Text.utf16Length (blank line) = Text.utf16Length line := utf16Length_replicate_space _

theorem mem_blank {line : List Char} {c : Char} (h : c ∈ blank line) : c = ' ' :=
  List.eq_of_mem_replicate h

/-- Masking goes on behind a text as the backticks in it say. -/
theorem maskInline_append (inInline : Bool) (before after : List Char) :
    maskInline inInline (before ++ after) =
      maskInline inInline before ++
        maskInline (xor inInline (before.count '`' % 2 == 1)) after := by
  induction before generalizing inInline with
  | nil =>
      rw [List.count_nil]
      exact congrArg (maskInline · after) (Bool.xor_false inInline).symm
  | cons c before ih =>
      by_cases hc : c = '`'
      · have hparity : xor (!inInline) (before.count '`' % 2 == 1) =
            xor inInline ((c :: before).count '`' % 2 == 1) := by
          rw [hc, List.count_cons_self]
          rcases Nat.mod_two_eq_zero_or_one (before.count '`') with h | h
          · cases inInline <;> simp [Nat.add_mod, h]
          · cases inInline <;> simp [Nat.add_mod, h]
        rw [List.cons_append, maskInline, maskInline, if_pos hc, if_pos hc, ih, hparity]
        rfl
      · rw [List.count_cons_of_ne hc, List.cons_append, maskInline, maskInline, if_neg hc,
          if_neg hc, ih]
        split
        · rw [List.append_assoc]
        · rfl

theorem utf16Length_maskInline (inInline : Bool) (line : List Char) :
    Text.utf16Length (maskInline inInline line) = Text.utf16Length line := by
  induction line generalizing inInline with
  | nil => rfl
  | cons c line ih =>
      rw [maskInline]
      split
      · rename_i hc
        rw [Text.utf16Length_cons, Text.utf16Length_cons, ih, hc]
        rfl
      · split
        · rw [utf16Length_append, utf16Length_blank, ih, Text.utf16Length_cons]
          simp [Text.utf16Length]
        · rw [Text.utf16Length_cons, Text.utf16Length_cons, ih]

theorem newline_not_mem_maskInline (inInline : Bool) {line : List Char} (h : '\n' ∉ line) :
    '\n' ∉ maskInline inInline line := by
  induction line generalizing inInline with
  | nil => exact h
  | cons c line ih =>
      rw [List.mem_cons, not_or] at h
      rw [maskInline]
      split
      · rw [List.mem_cons, not_or]
        exact ⟨by decide, ih _ h.2⟩
      · split
        · rw [List.mem_append, not_or]
          exact ⟨fun hblank => absurd (mem_blank hblank) (by decide), ih _ h.2⟩
        · rw [List.mem_cons, not_or]
          exact ⟨h.1, ih _ h.2⟩

theorem length_maskLines (inFence : Bool) (lines : List (List Char)) :
    (maskLines inFence lines).length = lines.length := by
  induction lines generalizing inFence with
  | nil => rfl
  | cons line lines ih =>
      rw [maskLines]
      split
      · rw [List.length_cons, List.length_cons, ih]
      · split
        · rw [List.length_cons, List.length_cons, ih]
        · rw [List.length_cons, List.length_cons, ih]

/-- The lines of a masked text are the masked lines. -/
theorem splitOn_maskCode (text : List Char) :
    (maskCode text).splitOn '\n' = maskLines false (text.splitOn '\n') := by
  refine List.splitOn_intercalate '\n' (fun masked hmasked => ?_) ?_
  · obtain ⟨i, hi⟩ := List.mem_iff_getElem?.mp hmasked
    rw [maskLines_eq] at hi
    obtain ⟨line, hline, rfl⟩ := Option.map_eq_some_iff.mp hi
    have hnewline : '\n' ∉ line := fun hmem =>
      absurd (Text.mem_splitOnP (List.mem_of_getElem? hline) '\n' hmem) (by simp)
    split
    · exact fun hblank => absurd (mem_blank hblank) (by decide)
    · exact newline_not_mem_maskInline false hnewline
  · rw [← List.length_pos_iff, length_maskLines, List.length_pos_iff]
    exact List.splitOn_ne_nil '\n' text

theorem utf16Length_intercalate {lines lines' : List (List Char)}
    (h : lines.map Text.utf16Length = lines'.map Text.utf16Length) :
    Text.utf16Length (['\n'].intercalate lines) =
      Text.utf16Length (['\n'].intercalate lines') := by
  induction lines generalizing lines' with
  | nil =>
      rw [List.map_nil] at h
      rw [List.map_eq_nil_iff.mp h.symm]
  | cons line lines ih =>
      cases lines' with
      | nil => cases h
      | cons line' lines' =>
          rw [List.map_cons, List.map_cons] at h
          obtain ⟨hline, hlines⟩ := List.cons.inj h
          cases lines with
          | nil =>
              rw [List.map_nil] at hlines
              rw [List.map_eq_nil_iff.mp hlines.symm]
              simpa using hline
          | cons next lines =>
              cases lines' with
              | nil => cases hlines
              | cons next' lines' =>
                  rw [List.intercalate_cons_cons, List.intercalate_cons_cons,
                    utf16Length_append, utf16Length_append, utf16Length_append,
                    utf16Length_append, hline, ih hlines]

/-- Masking keeps lengths and lines, and a character outside fences and behind an even
number of backticks of its line stays in its place. -/
structure MaskKeeps (text : List Char) : Prop where
  length : Text.utf16Length (maskCode text) = Text.utf16Length text
  lines : ((maskCode text).splitOn '\n').map Text.utf16Length =
    (text.splitOn '\n').map Text.utf16Length
  visible : ∀ i before c after, (text.splitOn '\n')[i]? = some (before ++ c :: after) →
    isFenced (text.splitOn '\n') i = false → c ≠ '`' → Even (before.count '`') →
      ∃ before' after', ((maskCode text).splitOn '\n')[i]? = some (before' ++ c :: after') ∧
        Text.utf16Length before' = Text.utf16Length before

/-- What the analysis of a text returns, by the places of its names in the masked text. -/
structure MentionsByPlace (text : String) (participantAliases : List String)
    (found : MentionAnalysis) : Prop where
  mentions : found.mentions = ((namesOf (maskCode text.toList)).filter fun name =>
    decide (name ∈ participantAliases) && isSafeSlug name).eraseDups
  unknown : found.unknown = ((namesOf (maskCode text.toList)).filter fun name =>
    !(decide (name ∈ participantAliases) && isSafeSlug name)).eraseDups
  once : found.mentions.Nodup ∧ found.unknown.Nodup

/-- The analysis finds the names of all places, each once, and masking keeps what is not
code. -/
theorem analyzeMentions_byPlace (text : String) (participantAliases : List String) :
    MentionsByPlace text participantAliases (analyzeMentions text participantAliases) ∧
      MaskKeeps text.toList := by
  constructor
  · have hroster (name : String) : (participantAliases.filter isSafeSlug).contains name =
        (decide (name ∈ participantAliases) && isSafeSlug name) := by
      rw [Bool.eq_iff_iff]
      simp
    rw [analyzeMentions_eq]
    constructor
    · dsimp only
      exact congrArg List.eraseDups (List.filter_congr fun name _ => hroster name)
    · dsimp only
      exact congrArg List.eraseDups (List.filter_congr fun name _ => congrArg _ (hroster name))
    · dsimp only
      exact ⟨nodup_eraseDups _, nodup_eraseDups _⟩
  · have hlines : ((maskCode text.toList).splitOn '\n').map Text.utf16Length =
        (text.toList.splitOn '\n').map Text.utf16Length := by
      apply List.ext_getElem?
      intro i
      rw [splitOn_maskCode, List.getElem?_map, List.getElem?_map, maskLines_eq, Option.map_map]
      cases (text.toList.splitOn '\n')[i]? with
      | none => rfl
      | some line =>
          rw [Option.map_some, Option.map_some, Function.comp_apply]
          split
          · rw [utf16Length_blank]
          · rw [maskInlineCode, utf16Length_maskInline]
    refine ⟨?_, hlines, fun i before c after hline hfence hc heven => ?_⟩
    · have hjoin (s : List Char) : ['\n'].intercalate (s.splitOn '\n') = s :=
        List.intercalate_splitOn '\n'
      conv_rhs => rw [← hjoin text.toList]
      conv_lhs => rw [← hjoin (maskCode text.toList)]
      exact utf16Length_intercalate hlines
    · have hvisible : (before.count '`' % 2 == 1) = false := by
        rw [Nat.even_iff.mp heven]
        rfl
      refine ⟨maskInline false before, maskInline false after, ?_, utf16Length_maskInline _ _⟩
      rw [splitOn_maskCode, maskLines_eq, hline, Option.map_some, hfence,
        if_neg Bool.false_ne_true, maskInlineCode, maskInline_append, hvisible, Bool.xor_false,
        maskInline, if_neg hc, if_neg Bool.false_ne_true]

/-! ## Mentions outside code -/

/-- A span of code as the message renderer recognises it. -/
def codeSpanPattern : Regex Char :=
  .seq (.char (· == '`')) (.seq (.plus (.char fun c => c != '`' && c != '\n'))
    (.char (· == '`')))

/-- The place is in no closed span of code of the line. -/
def OutsideSpans (line : List Char) (i : Nat) : Prop :=
  ∀ m ∈ codeSpanPattern.matchAll line,
    i < m.before.length ∨ m.before.length + m.text.length ≤ i

/-- `@name` in a line outside fenced blocks, with no character of a name around it. -/
structure StandsAt (text : List Char) (name : String) (i : Nat) (before after : List Char) :
    Prop where
  line : (text.splitOn '\n')[i]? = some (before ++ '@' :: (name.toList ++ after))
  unfenced : isFenced (text.splitOn '\n') i = false
  front : mayBegin before = true
  behind : ∀ c ∈ after.head?, isSlugChar c = false

/-- A mention that is not code. -/
def PlainMention (text : List Char) (name : String) (i : Nat) (before : List Char) : Prop :=
  ∃ after, StandsAt text name i before after ∧
    OutsideSpans (before ++ '@' :: (name.toList ++ after)) before.length

/-- A mention behind an even number of backticks of its line. -/
def VisibleMention (text : List Char) (name : String) : Prop :=
  ∃ i before after, StandsAt text name i before after ∧ Even (before.count '`')

theorem mayBegin_cons (c : Char) (before : List Char) :
    mayBegin (c :: before) = if before = [] then !isNameChar c else mayBegin before := by
  cases before with
  | nil => rfl
  | cons d before => rw [mayBegin, List.getLast?_cons_cons, if_neg (List.cons_ne_nil _ _), mayBegin]

/-- Masking changes no name, and what ends a name ends it. -/
theorem takeWhile_maskInline (line : List Char) :
    (maskInline false line).takeWhile isSlugChar = line.takeWhile isSlugChar := by
  induction line with
  | nil => rfl
  | cons c line ih =>
      rw [maskInline]
      split
      · rename_i hc
        rw [hc]
        rfl
      · rw [if_neg Bool.false_ne_true, List.takeWhile_cons, List.takeWhile_cons, ih]

theorem takeWhile_eq_iff {p : Char → Bool} {line name : List Char} :
    (∃ after, line = name ++ after ∧ (∀ c ∈ name, p c = true) ∧ ∀ c ∈ after.head?, p c = false) ↔
      line.takeWhile p = name := by
  constructor
  · rintro ⟨after, rfl, hname, hafter⟩
    have hstop : after.takeWhile p = [] := by
      cases after with
      | nil => rfl
      | cons c after => exact List.takeWhile_cons_of_neg (ne_true_of_eq_false (hafter c rfl))
    rw [List.takeWhile_append_of_pos hname, hstop, List.append_nil]
  · rintro rfl
    refine ⟨line.dropWhile p, List.takeWhile_append_dropWhile.symm,
      fun c hc => List.mem_takeWhile_imp hc, fun c hc => ?_⟩
    have hstop := List.head?_dropWhile_not p line
    rw [Option.mem_def.mp hc] at hstop
    exact hstop

/-- The name stands somewhere in the line behind an even number of backticks; `free` and
`inInline` tell what stands before the line. -/
def ShowsName (name : List Char) (free inInline : Bool) (line : List Char) : Prop :=
  ∃ before after, line = before ++ '@' :: (name ++ after) ∧
    (∀ c ∈ name, isSlugChar c = true) ∧ (∀ c ∈ after.head?, isSlugChar c = false) ∧
    (before.count '`' + inInline.toNat) % 2 = 0 ∧
    (if before = [] then free else mayBegin before) = true

/-- Behind an odd number of backticks nothing stands here. -/
theorem ShowsName.of_inline {name : List Char} {free free' : Bool} {line : List Char}
    (h : ShowsName name free true line) : ShowsName name free' true line := by
  obtain ⟨before, after, hline, hname, hafter, hparity, hfront⟩ := h
  refine ⟨before, after, hline, hname, hafter, hparity, ?_⟩
  have hne : before ≠ [] := by
    rintro rfl
    cases hparity
  rwa [if_neg hne] at hfront ⊢

theorem showsName_cons_iff {name : List Char} {free inInline : Bool} {c : Char}
    {line : List Char} : ShowsName name free inInline (c :: line) ↔
      (c = '@' ∧ inInline = false ∧ free = true ∧ line.takeWhile isSlugChar = name) ∨
        ShowsName name (!isNameChar c) (xor inInline (c == '`')) line := by
  have hparity (count : Nat) : (count + (xor inInline (c == '`')).toNat) % 2 =
      (count + (if c = '`' then 1 else 0) + inInline.toNat) % 2 := by
    by_cases hc : c = '`'
    · rw [if_pos hc, hc]
      cases inInline with
      | false => rfl
      | true =>
          change (count + 0) % 2 = (count + 1 + 1) % 2
          omega
    · rw [if_neg hc, beq_false_of_ne hc, Bool.xor_false]
      rfl
  have hcount (before : List Char) : (c :: before).count '`' =
      before.count '`' + (if c = '`' then 1 else 0) := by
    rw [List.count_cons]
    simp
  constructor
  · rintro ⟨before, after, hline, hname, hafter, heven, hfront⟩
    cases before with
    | nil =>
        obtain ⟨rfl, rfl⟩ := List.cons.inj hline
        refine .inl ⟨rfl, ?_, hfront, takeWhile_eq_iff.mp ⟨after, rfl, hname, hafter⟩⟩
        cases inInline with
        | false => rfl
        | true => cases heven
    | cons d before =>
        obtain ⟨rfl, rfl⟩ := List.cons.inj hline
        refine .inr ⟨before, after, rfl, hname, hafter, ?_, ?_⟩
        · rw [hparity, ← hcount]
          exact heven
        · rwa [if_neg (List.cons_ne_nil _ _), mayBegin_cons] at hfront
  · rintro (⟨rfl, rfl, rfl, hname⟩ | ⟨before, after, rfl, hname, hafter, heven, hfront⟩)
    · obtain ⟨after, rfl, hslug, hafter⟩ := takeWhile_eq_iff.mpr hname
      exact ⟨[], after, rfl, hslug, hafter, rfl, rfl⟩
    · refine ⟨c :: before, after, rfl, hname, hafter, ?_, ?_⟩
      · rw [hcount, ← hparity]
        exact heven
      · rwa [if_neg (List.cons_ne_nil _ _), mayBegin_cons]

theorem scanNames_space (free : Bool) (cs : List Char) :
    scanNames free (' ' :: cs) = scanNames true cs := by
  rw [scanNames, show (' ' == '@') = false from rfl, Bool.and_false, Bool.false_and]
  rfl

theorem scanNames_spaces (n : Nat) (free : Bool) :
    scanNames free (List.replicate n ' ') = [] := by
  induction n generalizing free with
  | zero => rfl
  | succ n ih => rw [List.replicate_succ, scanNames_space, ih]

theorem scanNames_blank (free : Bool) (c : Char) (cs : List Char) :
    scanNames free (blank [c] ++ cs) = scanNames true cs := by
  have hspaces (n : Nat) (free : Bool) :
      scanNames free (List.replicate (n + 1) ' ' ++ cs) = scanNames true cs := by
    induction n generalizing free with
    | zero => exact scanNames_space free cs
    | succ n ih => rw [List.replicate_succ, List.cons_append, scanNames_space, ih]
  obtain ⟨n, hn⟩ := Nat.exists_eq_succ_of_ne_zero (Nat.ne_of_gt (Text.codeUnits_pos c))
  have hlength : Text.utf16Length [c] = n + 1 := by
    rw [Text.utf16Length_cons, hn]
    rfl
  rw [blank, hlength, hspaces]

/-- The names of a masked line are those behind an even number of backticks. -/
theorem mem_scanNames_maskInline {name : List Char} (hne : name ≠ []) (free inInline : Bool)
    (line : List Char) :
    name ∈ scanNames free (maskInline inInline line) ↔ ShowsName name free inInline line := by
  induction line generalizing free inInline with
  | nil =>
      refine iff_of_false List.not_mem_nil ?_
      rintro ⟨before, after, hline, -⟩
      cases before <;> cases hline
  | cons c line ih =>
      rw [showsName_cons_iff, maskInline]
      by_cases hc : c = '`'
      · subst hc
        rw [if_pos rfl, scanNames_space, ih]
        simp only [beq_self_eq_true, Bool.xor_true]
        exact (or_iff_right fun h => absurd h.1 (by decide)).symm
      · rw [if_neg hc, beq_false_of_ne hc, Bool.xor_false]
        cases inInline with
        | true =>
            rw [if_pos rfl, scanNames_blank, ih]
            refine ⟨fun h => .inr h.of_inline, fun h => ?_⟩
            exact (h.resolve_left fun h => absurd h.2.1 (by decide)).of_inline
        | false =>
            rw [if_neg Bool.false_ne_true, scanNames, List.mem_append, ih,
              takeWhile_maskInline]
            apply or_congr_left
            split
            · rename_i hhere
              simp only [Bool.and_eq_true, beq_iff_eq, bne_iff_ne] at hhere
              rw [List.mem_singleton]
              exact ⟨fun h => ⟨hhere.1.2, rfl, hhere.1.1, h.symm⟩, fun h => h.2.2.2.symm⟩
            · rename_i hnot
              refine iff_of_false List.not_mem_nil ?_
              rintro ⟨rfl, -, rfl, rfl⟩
              exact hnot (by simpa using hne)

/-! ## Lines -/

theorem takeWhile_newline (line rest : List Char) :
    (line ++ '\n' :: rest).takeWhile isSlugChar = line.takeWhile isSlugChar := by
  induction line with
  | nil => rfl
  | cons c line ih => rw [List.cons_append, List.takeWhile_cons, List.takeWhile_cons, ih]

theorem scanNames_newline (free : Bool) (line rest : List Char) :
    scanNames free (line ++ '\n' :: rest) = scanNames free line ++ scanNames true rest := by
  induction line generalizing free with
  | nil =>
      change scanNames free ('\n' :: rest) = [] ++ scanNames true rest
      rw [scanNames, show ('\n' == '@') = false from rfl, Bool.and_false, Bool.false_and]
      rfl
  | cons c line ih =>
      rw [List.cons_append, scanNames, scanNames, ih, takeWhile_newline, List.append_assoc]

/-- The names of a text are the names of its lines. -/
theorem scanNames_intercalate (lines : List (List Char)) :
    scanNames true (['\n'].intercalate lines) = lines.flatMap (scanNames true) := by
  induction lines with
  | nil => rfl
  | cons line lines ih =>
      cases lines with
      | nil => simp
      | cons next lines =>
          rw [List.intercalate_cons_cons, List.append_assoc, List.singleton_append,
            scanNames_newline, ih]
          rfl

theorem mem_namesOf_maskCode {text : List Char} {name : String}
    (hslug : isSafeSlug name = true) :
    name ∈ namesOf (maskCode text) ↔ VisibleMention text name := by
  have hchars := isSlugChar_of_isSafeSlug hslug
  have hne : name.toList ≠ [] := by
    intro hnil
    simp [isSafeSlug, hnil, Text.utf16Length] at hslug
  have hscan := scanNames_eq [] (maskCode text)
  simp only [List.nil_append, List.length_nil, Nat.zero_add] at hscan
  have hnames : name ∈ namesOf (maskCode text) ↔
      name.toList ∈ scanNames true (maskCode text) := by
    rw [namesOf, ← hscan]
    constructor
    · intro h
      obtain ⟨chars, hmem, rfl⟩ := List.mem_map.mp h
      rwa [String.toList_ofList]
    · exact fun h => List.mem_map.mpr ⟨_, h, String.ofList_toList⟩
  rw [hnames, maskCode, scanNames_intercalate, List.mem_flatMap]
  constructor
  · rintro ⟨masked, hmasked, hname⟩
    obtain ⟨i, hi⟩ := List.mem_iff_getElem?.mp hmasked
    rw [maskLines_eq] at hi
    obtain ⟨line, hline, rfl⟩ := Option.map_eq_some_iff.mp hi
    cases hfenced : isFenced (text.splitOn '\n') i with
    | true =>
        rw [hfenced, if_pos rfl, blank, scanNames_spaces] at hname
        cases hname
    | false =>
        rw [hfenced, if_neg Bool.false_ne_true, maskInlineCode,
          mem_scanNames_maskInline hne] at hname
        obtain ⟨before, after, rfl, -, hafter, hparity, hfront⟩ := hname
        refine ⟨i, before, after, ⟨hline, hfenced, ?_, hafter⟩, Nat.even_iff.mpr hparity⟩
        split at hfront
        · rename_i hnil
          rw [hnil]
          rfl
        · exact hfront
  · rintro ⟨i, before, after, ⟨hline, hfenced, hfront, hafter⟩, heven⟩
    refine ⟨maskInlineCode (before ++ '@' :: (name.toList ++ after)), ?_, ?_⟩
    · apply List.mem_of_getElem? (i := i)
      rw [maskLines_eq, hline, Option.map_some, hfenced, if_neg Bool.false_ne_true]
    · rw [maskInlineCode, mem_scanNames_maskInline hne]
      refine ⟨before, after, rfl, hchars, hafter, Nat.even_iff.mp heven, ?_⟩
      split
      · rfl
      · exact hfront

theorem mem_mentions_iff (text : String) (participantAliases : List String) (name : String) :
    name ∈ (analyzeMentions text participantAliases).mentions ↔
      name ∈ participantAliases ∧ isSafeSlug name = true ∧ VisibleMention text.toList name := by
  rw [analyzeMentions_eq, List.mem_eraseDups, List.mem_filter]
  simp only [List.contains_iff_mem, List.mem_filter]
  constructor
  · rintro ⟨hname, hroster, hslug⟩
    exact ⟨hroster, hslug, (mem_namesOf_maskCode hslug).mp hname⟩
  · rintro ⟨hroster, hslug, hvisible⟩
    exact ⟨(mem_namesOf_maskCode hslug).mpr hvisible, hroster, hslug⟩

/-- Every plain mention of a roster member is found. -/
def OnlyCodeHides (text : String) (participantAliases : List String) : Prop :=
  ∀ name ∈ participantAliases, isSafeSlug name = true → ∀ i before,
    PlainMention text.toList name i before →
      name ∈ (analyzeMentions text participantAliases).mentions

/-- Only code hides a mention exactly if every plain mention of a roster member behind an
odd number of backticks of its line stands elsewhere behind an even number. -/
theorem onlyCodeHides_iff (text : String) (participantAliases : List String) :
    OnlyCodeHides text participantAliases ↔
      ∀ name ∈ participantAliases, isSafeSlug name = true → ∀ i before,
        PlainMention text.toList name i before → ¬ Even (before.count '`') →
          VisibleMention text.toList name := by
  constructor
  · intro h name hroster hslug i before hplain _
    exact ((mem_mentions_iff text participantAliases name).mp
      (h name hroster hslug i before hplain)).2.2
  · intro h name hroster hslug i before hplain
    refine (mem_mentions_iff text participantAliases name).mpr ⟨hroster, hslug, ?_⟩
    by_cases heven : Even (before.count '`')
    · obtain ⟨after, hstands, -⟩ := hplain
      exact ⟨i, before, after, hstands, heven⟩
    · exact h name hroster hslug i before hplain heven

/-- A backtick that nothing closes hides the rest of its line. -/
theorem unclosed_backtick_hides : ¬ OnlyCodeHides "a ` b @agent" ["agent"] := by
  intro h
  have hplain : PlainMention "a ` b @agent".toList "agent" 0 "a ` b ".toList := by
    refine ⟨[], ⟨by decide, by decide, by decide, fun c hc => nomatch hc⟩, fun m hm => ?_⟩
    have hnone : codeSpanPattern.matchAll "a ` b @agent".toList = [] :=
      List.isEmpty_iff.mp (by decide)
    have hm' : m ∈ codeSpanPattern.matchAll "a ` b @agent".toList := hm
    rw [hnone] at hm'
    cases hm'
  exact absurd (h "agent" (by decide) (by decide) 0 _ hplain) (by decide)

end AgentGather.Protocol
