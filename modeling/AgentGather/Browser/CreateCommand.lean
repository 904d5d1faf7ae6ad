import AgentGather.Cli.Args
import AgentGather.Library.Shell

/-!
# The command that creates a room

The dashboard creates no room itself: it composes a command that the host pastes into a shell.
What was typed passes through three readers on its way, the quoting, the shell and the argument
parser, and this module says when it arrives as it was typed.
-/

namespace AgentGather.Browser

open AgentGather.Library AgentGather.Library.Shell AgentGather.Cli AgentGather.Protocol

/-! ## The command -/

/-- The keys of `TEMPLATES`. -/
inductive RoomTemplate where
  | debug
  | review
  | planning
  | product
deriving DecidableEq, Repr

/-- The channels of a template, each with its type. -/
def RoomTemplate.channels : RoomTemplate → List (String × String)
  | .debug => [("general", "chat"), ("findings", "forum")]
  | .review => [("general", "chat"), ("review", "forum")]
  | .planning => [("general", "chat"), ("decisions", "forum")]
  | .product => [("general", "chat"), ("positioning", "forum")]

/-- What is typed and pressed in the overlay. -/
structure CreateForm where
  name : List Char
  goal : List Char
  template : Option RoomTemplate
  pressed : Option AttendancePolicy
deriving DecidableEq, Repr

/-- `replace(/[…]+/g, mark)` for the class of `p`; `within` is whether the run has begun. -/
def replaceRuns (p : Char → Bool) (mark : Char) (within : Bool) : List Char → List Char
  | [] => []
  | c :: s =>
      if !p c then c :: replaceRuns p mark false s
      else if within then replaceRuns p mark true s
      else mark :: replaceRuns p mark true s

def isSlugLetter (c : Char) : Bool := Text.isLower c || Text.isDigit c

/-- `replace(/^-+|-+$/g, "")` -/
def stripDashes (s : List Char) : List Char := (s.dropWhile (· == '-')).rdropWhile (· == '-')

/-- `lower` is `toLowerCase`. -/
def slugText (lower : List Char → List Char) (value : List Char) : List Char :=
  replaceRuns (fun c => !isSlugLetter c) '-' false (Text.trim (lower value))

/-- The slug of a typed name, or a placeholder where nothing of it is left.  Before it is cut, a
slug is plain ASCII. -/
def roomSlug (lower : List Char → List Char) (value : List Char) : List Char :=
  let slug := (stripDashes (slugText lower value)).take 32
  if slug = [] then "<name>".toList else slug

def shellSingleQuote (value : List Char) : List Char := singleQuote value

def normalizedGoal (value : List Char) : List Char :=
  replaceRuns Text.isSpace ' ' false (Text.trim value)

def channelSpec (template : RoomTemplate) : List Char :=
  [','].intercalate (template.channels.map fun c => c.1.toList ++ ':' :: c.2.toList)

def CreateForm.policy (form : CreateForm) : AttendancePolicy :=
  form.pressed.getD .agentsForeground

/-- `updateCreateCommand` -/
def createCommand (lower : List Char → List Char) (form : CreateForm) : List Char :=
  let slug := roomSlug lower form.name
  let policy := form.policy.name.toList
  let goal := normalizedGoal form.goal
  let command :=
    match form.template with
    | some template =>
        "agentgather room create-boardroom ".toList ++ slug ++ " --channels ".toList ++
          channelSpec template ++ " --attendance ".toList ++ policy
    | none => "agentgather room start ".toList ++ slug ++ " --attendance ".toList ++ policy
  if goal = [] then command else command ++ " --brief ".toList ++ shellSingleQuote goal

/-! ## What arrives -/

/-- The room that the program creates when the command is pasted into a shell; none where the
shell runs something else, or the program does. -/
def pastedRoom (command : List Char) : Option RoomRequest :=
  match simpleCommand command with
  | some (program :: argv) => if program = "agentgather".toList then requestedRoom argv else none
  | _ => none

/-- The room that was asked for. -/
def askedRoom (lower : List Char → List Char) (form : CreateForm) : RoomRequest where
  roomId := roomSlug lower form.name
  aliasName := "host".toList
  url := "http://127.0.0.1:8787".toList
  brief :=
    if normalizedGoal form.goal = [] then none else some (.inline (normalizedGoal form.goal))
  expiresAt := none
  kind := .human
  attendance := form.policy
  channels := form.template.map fun t => t.channels.map fun c => (c.1.toList, c.2)
  boardroomName := none

/-! ### Slugs -/

theorem mem_replaceRuns {p : Char → Bool} {mark : Char} {within : Bool} {s : List Char} {c : Char}
    (h : c ∈ replaceRuns p mark within s) : c = mark ∨ p c = false ∧ c ∈ s := by
  induction s generalizing within with
  | nil => cases h
  | cons d s ih =>
      have hrest {b : Bool} (hmem : c ∈ replaceRuns p mark b s) :
          c = mark ∨ p c = false ∧ c ∈ d :: s :=
        (ih hmem).imp_right fun hc => ⟨hc.1, List.mem_cons_of_mem _ hc.2⟩
      rw [replaceRuns] at h
      split_ifs at h with hp hwithin
      · rw [Bool.not_eq_true'] at hp
        rcases List.mem_cons.mp h with rfl | hmem
        · exact .inr ⟨hp, List.mem_cons_self⟩
        · exact hrest hmem
      · exact hrest h
      · rcases List.mem_cons.mp h with rfl | hmem
        · exact .inl rfl
        · exact hrest hmem

/-- What is not of the class stays. -/
theorem mem_replaceRuns_of_mem {p : Char → Bool} {mark : Char} {within : Bool} {s : List Char}
    {c : Char} (hp : p c = false) (h : c ∈ s) : c ∈ replaceRuns p mark within s := by
  induction s generalizing within with
  | nil => cases h
  | cons d s ih =>
      rw [replaceRuns]
      rcases List.mem_cons.mp h with rfl | hmem
      · rw [hp, Bool.not_false, if_pos rfl]
        exact List.mem_cons_self
      · split_ifs
        · exact List.mem_cons_of_mem _ (ih hmem)
        · exact ih hmem
        · exact List.mem_cons_of_mem _ (ih hmem)

theorem mem_dropWhile_of_mem {p : Char → Bool} {s : List Char} {c : Char} (h : c ∈ s)
    (hp : p c = false) : c ∈ s.dropWhile p := by
  rw [← List.takeWhile_append_dropWhile (p := p) (l := s)] at h
  apply (List.mem_append.mp h).resolve_left
  intro htaken
  rw [List.mem_takeWhile_imp htaken] at hp
  cases hp

theorem mem_rdropWhile_of_mem {p : Char → Bool} {s : List Char} {c : Char} (h : c ∈ s)
    (hp : p c = false) : c ∈ s.rdropWhile p :=
  List.mem_reverse.mpr (mem_dropWhile_of_mem (List.mem_reverse.mpr h) hp)

theorem isSlugLetter_iff {c : Char} :
    isSlugLetter c = true ↔
      'a'.toNat ≤ c.toNat ∧ c.toNat ≤ 'z'.toNat ∨ '0'.toNat ≤ c.toNat ∧ c.toNat ≤ '9'.toNat := by
  simp only [isSlugLetter, Text.isLower, Text.isDigit, Bool.or_eq_true, Bool.and_eq_true,
    decide_eq_true_eq]

/-- A letter of a slug is none of the other characters that matter here. -/
theorem ne_of_isSlugLetter {c d : Char} (hc : isSlugLetter c = true)
    (hd : isSlugLetter d = false) : c ≠ d := by
  rintro rfl
  rw [hc] at hd
  cases hd

theorem not_isSpace_of_isSlugLetter {c : Char} (hc : isSlugLetter c = true) :
    Text.isSpace c = false := by
  have hrange : (0x2000 ≤ c.toNat && c.toNat ≤ 0x200a) = false := by
    have hle : c.toNat ≤ 'z'.toNat := by
      rcases isSlugLetter_iff.mp hc with h | h
      · exact h.2
      · exact h.2.trans (by decide)
    rw [Bool.and_eq_false_iff, decide_eq_false_iff_not, not_le]
    exact .inl (hle.trans_lt (by decide))
  have hne (d : Char) (hd : isSlugLetter d = false) : (c == d) = false :=
    beq_eq_false_iff_ne.mpr (ne_of_isSlugLetter hc hd)
  unfold Text.isSpace Text.isLineTerminator
  rw [hrange, hne '\n' (by decide), hne '\r' (by decide), hne '\u2028' (by decide),
    hne '\u2029' (by decide), hne '\t' (by decide), hne '\x0b' (by decide),
    hne '\x0c' (by decide), hne ' ' (by decide), hne '\u00a0' (by decide),
    hne '\u1680' (by decide), hne '\u202f' (by decide), hne '\u205f' (by decide),
    hne '\u3000' (by decide), hne '\ufeff' (by decide)]
  rfl

/-- Something of the name is left. -/
def Named (lower : List Char → List Char) (name : List Char) : Prop :=
  ∃ c ∈ lower name, isSlugLetter c = true

variable {lower : List Char → List Char}

theorem slugText_mem {name : List Char} {c : Char} (h : c ∈ slugText lower name) :
    c = '-' ∨ isSlugLetter c = true ∧ c ∈ lower name := by
  apply (mem_replaceRuns h).imp_right
  rintro ⟨hletter, hmem⟩
  rw [Bool.not_eq_false'] at hletter
  exact ⟨hletter, (List.dropWhile_suffix _).subset ((List.rdropWhile_prefix _ _).subset hmem)⟩

/-- A letter of the name survives the trimming. -/
theorem mem_slugText {name : List Char} {c : Char} (h : c ∈ lower name)
    (hc : isSlugLetter c = true) : c ∈ slugText lower name := by
  have hspace := not_isSpace_of_isSlugLetter hc
  apply mem_replaceRuns_of_mem (by rw [hc]; rfl)
  exact mem_rdropWhile_of_mem (mem_dropWhile_of_mem h hspace) hspace

/-- The slug of a name begins with a letter or digit and has nothing else in it but dashes. -/
theorem roomSlug_of_named {name : List Char} (h : Named lower name) :
    ∃ c s, roomSlug lower name = c :: s ∧ s.length ≤ 31 ∧ isSlugLetter c = true ∧
      ∀ d ∈ s, d = '-' ∨ isSlugLetter d = true := by
  obtain ⟨c, hc, hletter⟩ := h
  have hdash : (c == '-') = false := by
    rw [beq_eq_false_iff_ne]
    exact ne_of_isSlugLetter hletter (by decide)
  have hmem : c ∈ stripDashes (slugText lower name) :=
    mem_rdropWhile_of_mem (mem_dropWhile_of_mem (mem_slugText hc hletter) hdash) hdash
  have hsub : ∀ d ∈ stripDashes (slugText lower name), d = '-' ∨ isSlugLetter d = true := by
    intro d hd
    have hd := (List.dropWhile_suffix _).subset ((List.rdropWhile_prefix _ _).subset hd)
    exact (slugText_mem hd).imp_right And.left
  cases hbody : stripDashes (slugText lower name) with
  | nil =>
      rw [hbody] at hmem
      cases hmem
  | cons d body =>
      rw [hbody] at hsub
      refine ⟨d, body.take 31, ?_, List.length_take_le 31 body, ?_, ?_⟩
      · unfold roomSlug
        simp only [hbody, List.take_succ_cons, List.cons_ne_nil, if_false]
      · apply (hsub d List.mem_cons_self).resolve_left
        rintro rfl
        obtain ⟨rest, hrest⟩ := List.rdropWhile_prefix (· == '-')
          ((slugText lower name).dropWhile (· == '-'))
        have hhead := List.head?_dropWhile_not (· == '-') (slugText lower name)
        rw [← hrest, show ((slugText lower name).dropWhile (· == '-')).rdropWhile (· == '-') =
          '-' :: body from hbody] at hhead
        cases hhead
      · exact fun e he => hsub e (List.mem_cons_of_mem _ (List.mem_of_mem_take he))

/-- The slug of a name is one that a room may have. -/
theorem isSafeSlug_roomSlug {name : List Char} (h : Named lower name) :
    isSafeSlug (String.ofList (roomSlug lower name)) = true := by
  obtain ⟨c, s, hslug, hlength, hc, hs⟩ := roomSlug_of_named h
  have hchar {d : Char} (hd : d = '-' ∨ isSlugLetter d = true) : isSlugChar d = true := by
    unfold isSlugChar
    rcases hd with rfl | hd
    · decide
    · unfold isSlugLetter at hd
      rw [hd]
      rfl
  have hunit {d : Char} (hd : isSlugChar d = true) : Text.codeUnits d = 1 := by
    unfold isSlugChar Text.isLower Text.isDigit at hd
    simp only [Bool.or_eq_true, Bool.and_eq_true, decide_eq_true_eq, beq_iff_eq] at hd
    unfold Text.codeUnits
    rw [if_pos]
    rcases hd with (hd | hd) | rfl
    · exact hd.2.trans_lt (by decide)
    · exact hd.2.trans_lt (by decide)
    · decide
  have hall : ∀ d ∈ c :: s, isSlugChar d = true := by
    intro d hd
    rcases List.mem_cons.mp hd with rfl | hd
    · exact hchar (.inr hc)
    · exact hchar (hs d hd)
  have hunits : Text.utf16Length (c :: s) = s.length + 1 := by
    unfold Text.utf16Length
    rw [List.map_congr_left fun d hd => hunit (hall d hd)]
    simp [Nat.add_comm]
  have htest : slugPattern.test (c :: s) = true := by
    rw [Regex.test_iff]
    refine ⟨[], c :: s, [], by simp, [], c :: s, rfl, ⟨rfl, rfl⟩, c :: s, [], by simp, ?_, rfl,
      rfl⟩
    exact Regex.denotes_plus_char_iff.mpr ⟨List.cons_ne_nil c s, hall⟩
  rw [hslug]
  unfold isSafeSlug
  simp only [String.toList_ofList, hunits, htest, Bool.and_true, Bool.and_eq_true,
    decide_eq_true_eq]
  unfold maxSlugLength
  omega

/-- A name of which nothing is left has a placeholder for its slug. -/
theorem roomSlug_of_not_named {name : List Char} (h : ¬ Named lower name) :
    roomSlug lower name = "<name>".toList := by
  have hdashes : ∀ c ∈ slugText lower name, (c == '-') = true := by
    intro c hc
    rcases slugText_mem hc with rfl | ⟨hletter, hmem⟩
    · rfl
    · exact absurd ⟨c, hmem, hletter⟩ h
  have hnone : (slugText lower name).dropWhile (· == '-') = [] :=
    List.dropWhile_eq_nil_iff.mpr hdashes
  unfold roomSlug stripDashes
  rw [hnone]
  rfl

/-! ### What the shell reads -/

/-- The words in front of the options. -/
def frontWords (lower : List Char → List Char) (form : CreateForm) : List Word :=
  match form.template with
  | some template =>
      [unquoted "agentgather".toList, unquoted "room".toList, unquoted "create-boardroom".toList,
        unquoted (roomSlug lower form.name), unquoted "--channels".toList,
        unquoted (channelSpec template)]
  | none =>
      [unquoted "agentgather".toList, unquoted "room".toList, unquoted "start".toList,
        unquoted (roomSlug lower form.name)]

def optionWords (form : CreateForm) : List Word :=
  [unquoted "--attendance".toList, unquoted form.policy.name.toList] ++
    if normalizedGoal form.goal = [] then []
    else [unquoted "--brief".toList, quoted (normalizedGoal form.goal)]

theorem isPlain_of_slug {c : Char} (h : c = '-' ∨ isSlugLetter c = true) : isPlain c = true := by
  rcases h with rfl | hc
  · decide
  · have hne (d : Char) (hd : isSlugLetter d = false) : (c == d) = false :=
      beq_eq_false_iff_ne.mpr (ne_of_isSlugLetter hc hd)
    simp only [isPlain, Shell.isBlank, startsOperator, List.contains_cons, List.contains_nil,
      hne '\'' (by decide), hne '"' (by decide), hne '\\' (by decide), hne '$' (by decide),
      hne '`' (by decide), hne ' ' (by decide), hne '\t' (by decide), hne '&' (by decide),
      hne '|' (by decide), hne ';' (by decide), hne '<' (by decide), hne '>' (by decide),
      hne '(' (by decide), hne ')' (by decide), hne '\n' (by decide), Bool.or_false,
      Bool.not_false]

theorem isInert_of_slug {c : Char} (h : c = '-' ∨ isSlugLetter c = true) :
    isInert (c, false) = true := by
  rcases h with rfl | hc
  · decide
  · unfold isSlugLetter at hc
    have hword : Text.isWord c = true := by
      unfold Text.isWord
      rw [Bool.or_eq_true] at hc
      rcases hc with hc | hc <;> simp [hc]
    unfold isInert
    rw [hword]
    rfl

theorem reads_roomSlug {name : List Char} (h : Named lower name) :
    Reads (roomSlug lower name) [unquoted (roomSlug lower name)] := by
  obtain ⟨c, s, hslug, -, hc, hs⟩ := roomSlug_of_named h
  rw [hslug]
  exact reads_plain (isPlain_of_slug (.inr hc)) (ne_of_isSlugLetter hc (by decide))
    fun d hd => isPlain_of_slug (hs d hd)

theorem reads_policy (policy : AttendancePolicy) :
    Reads policy.name.toList [unquoted policy.name.toList] := by
  cases policy <;> decide

theorem reads_channelSpec (template : RoomTemplate) :
    Reads (channelSpec template) [unquoted (channelSpec template)] := by
  cases template <;> decide

/-- The text of the command up to the options, and from there on. -/
def frontText (lower : List Char → List Char) (form : CreateForm) : List Char :=
  match form.template with
  | some template =>
      "agentgather room create-boardroom ".toList ++ roomSlug lower form.name ++
        " --channels ".toList ++ channelSpec template
  | none => "agentgather room start ".toList ++ roomSlug lower form.name

def optionText (form : CreateForm) : List Char :=
  "--attendance ".toList ++ form.policy.name.toList ++
    if normalizedGoal form.goal = [] then []
    else " --brief ".toList ++ shellSingleQuote (normalizedGoal form.goal)

theorem createCommand_eq (lower : List Char → List Char) (form : CreateForm) :
    createCommand lower form = frontText lower form ++ ' ' :: optionText form := by
  have htext : " --attendance ".toList = ' ' :: "--attendance ".toList := by decide
  unfold createCommand frontText optionText
  dsimp only
  rw [htext]
  cases form.template with
  | none =>
      split_ifs
      · simp only [List.append_assoc, List.cons_append, List.append_nil]
      · simp only [List.append_assoc, List.cons_append]
  | some template =>
      split_ifs
      · simp only [List.append_assoc, List.cons_append, List.append_nil]
      · simp only [List.append_assoc, List.cons_append]

theorem reads_optionText (form : CreateForm) : Reads (optionText form) (optionWords form) := by
  have hattendance : Reads "--attendance".toList [unquoted "--attendance".toList] := by decide
  have hbrief : Reads "--brief".toList [unquoted "--brief".toList] := by decide
  have hbefore := hattendance.append (reads_policy form.policy)
  have hattendanceText : "--attendance ".toList = "--attendance".toList ++ [' '] := by decide
  have hbriefText : " --brief ".toList = ' ' :: ("--brief".toList ++ [' ']) := by decide
  unfold optionText optionWords
  rw [hattendanceText]
  split_ifs
  · simpa only [List.append_assoc, List.cons_append, List.nil_append, List.append_nil]
      using hbefore
  · have hall := hbefore.append (hbrief.append (reads_singleQuote (normalizedGoal form.goal)))
    rw [hbriefText, shellSingleQuote]
    simpa only [List.append_assoc, List.cons_append, List.nil_append] using hall

theorem reads_frontText {form : CreateForm} (h : Named lower form.name) :
    Reads (frontText lower form) (frontWords lower form) := by
  have hslug := reads_roomSlug h
  unfold frontText frontWords
  cases form.template with
  | none =>
      have hstart : Reads "agentgather room start".toList [unquoted "agentgather".toList,
          unquoted "room".toList, unquoted "start".toList] := by decide
      have htext : "agentgather room start ".toList =
          "agentgather room start".toList ++ [' '] := by decide
      have hall := hstart.append hslug
      dsimp only
      rw [htext]
      simpa only [List.append_assoc, List.cons_append, List.nil_append] using hall
  | some template =>
      have hstart : Reads "agentgather room create-boardroom".toList
          [unquoted "agentgather".toList, unquoted "room".toList,
            unquoted "create-boardroom".toList] := by decide
      have hchannels : Reads "--channels".toList [unquoted "--channels".toList] := by decide
      have htext : "agentgather room create-boardroom ".toList =
          "agentgather room create-boardroom".toList ++ [' '] := by decide
      have hchannelsText : " --channels ".toList = ' ' :: ("--channels".toList ++ [' ']) := by
        decide
      have hall := (hstart.append hslug).append (hchannels.append (reads_channelSpec template))
      dsimp only
      rw [htext, hchannelsText]
      simpa only [List.append_assoc, List.cons_append, List.nil_append] using hall

/-- With a name, the command reads as its words. -/
theorem reads_createCommand {form : CreateForm} (h : Named lower form.name) :
    Reads (createCommand lower form) (frontWords lower form ++ optionWords form) := by
  rw [createCommand_eq]
  exact (reads_frontText h).append (reads_optionText form)

def briefArguments (form : CreateForm) : List (List Char) :=
  if normalizedGoal form.goal = [] then [] else ["--brief".toList, normalizedGoal form.goal]

/-- The arguments behind the name of the program. -/
def commandArguments (lower : List Char → List Char) (form : CreateForm) : List (List Char) :=
  (match form.template with
    | some template => ["room".toList, "create-boardroom".toList, roomSlug lower form.name,
        "--channels".toList, channelSpec template]
    | none => ["room".toList, "start".toList, roomSlug lower form.name]) ++
    ["--attendance".toList, form.policy.name.toList] ++ briefArguments form

theorem map_fst_unquoted (s : List Char) : (unquoted s).map Prod.fst = s := by
  rw [unquoted, List.map_map]
  exact List.map_id s

theorem map_fst_quoted (s : List Char) : (quoted s).map Prod.fst = s := by
  rw [quoted, List.map_map]
  exact List.map_id s

theorem inert_words {form : CreateForm} (h : Named lower form.name) :
    ∀ w ∈ frontWords lower form ++ optionWords form, Inert w := by
  have hslug : Inert (unquoted (roomSlug lower form.name)) := by
    obtain ⟨c, s, hslug, -, hc, hs⟩ := roomSlug_of_named h
    unfold Inert unquoted
    rw [hslug, List.all_map, List.all_eq_true]
    intro d hd
    rcases List.mem_cons.mp hd with rfl | hd
    · exact isInert_of_slug (.inr hc)
    · exact isInert_of_slug (hs d hd)
  have hpolicy : Inert (unquoted form.policy.name.toList) := by
    unfold Inert
    cases form.policy <;> decide
  have hspec (template : RoomTemplate) : Inert (unquoted (channelSpec template)) := by
    unfold Inert
    cases template <;> decide
  have hconst (s : String) (hs : (unquoted s.toList).all isInert = true) :
      Inert (unquoted s.toList) := hs
  intro w hw
  rcases List.mem_append.mp hw with hw | hw
  · unfold frontWords at hw
    cases htemplate : form.template with
    | none =>
        simp only [htemplate, List.mem_cons, List.not_mem_nil, or_false] at hw
        rcases hw with rfl | rfl | rfl | rfl
        · exact hconst _ (by decide)
        · exact hconst _ (by decide)
        · exact hconst _ (by decide)
        · exact hslug
    | some template =>
        simp only [htemplate, List.mem_cons, List.not_mem_nil, or_false] at hw
        rcases hw with rfl | rfl | rfl | rfl | rfl | rfl
        · exact hconst _ (by decide)
        · exact hconst _ (by decide)
        · exact hconst _ (by decide)
        · exact hslug
        · exact hconst _ (by decide)
        · exact hspec template
  · unfold optionWords at hw
    rcases List.mem_append.mp hw with hw | hw
    · simp only [List.mem_cons, List.not_mem_nil, or_false] at hw
      rcases hw with rfl | rfl
      · exact hconst _ (by decide)
      · exact hpolicy
    · split_ifs at hw
      · cases hw
      · simp only [List.mem_cons, List.not_mem_nil, or_false] at hw
        rcases hw with rfl | rfl
        · exact hconst _ (by decide)
        · exact inert_quoted _

/-- The shell runs the program with the arguments as they were composed. -/
theorem simpleCommand_createCommand {form : CreateForm} (h : Named lower form.name) :
    simpleCommand (createCommand lower form) =
      some ("agentgather".toList :: commandArguments lower form) := by
  rw [simpleCommand_of_reads (reads_createCommand h) (inert_words h)]
  unfold frontWords optionWords commandArguments briefArguments
  congr 1
  cases form.template with
  | none =>
      split_ifs
      all_goals simp only [List.cons_append, List.nil_append, List.append_nil, List.map_cons,
        List.map_nil, map_fst_unquoted, map_fst_quoted]
  | some template =>
      split_ifs
      all_goals simp only [List.cons_append, List.nil_append, List.append_nil, List.map_cons,
        List.map_nil, map_fst_unquoted, map_fst_quoted]

/-- Without a name, the placeholder is a redirection. -/
theorem simpleCommand_of_not_named {form : CreateForm} (h : ¬ Named lower form.name) :
    simpleCommand (createCommand lower form) = none := by
  have hslug := roomSlug_of_not_named h
  have hname : "<name>".toList = "<n".toList ++ "ame>".toList := by decide
  have hfront : ∃ front words rest, Reads front words ∧
      createCommand lower form = front ++ ' ' :: ("<n".toList ++ rest) := by
    rw [createCommand_eq]
    unfold frontText
    rw [hslug, hname]
    cases form.template with
    | none =>
        have hstart : Reads "agentgather room start".toList [unquoted "agentgather".toList,
            unquoted "room".toList, unquoted "start".toList] := by decide
        have htext : "agentgather room start ".toList =
            "agentgather room start".toList ++ [' '] := by decide
        refine ⟨_, _, "ame>".toList ++ ' ' :: optionText form, hstart, ?_⟩
        dsimp only
        rw [htext]
        simp only [List.append_assoc, List.cons_append, List.nil_append]
    | some template =>
        have hstart : Reads "agentgather room create-boardroom".toList
            [unquoted "agentgather".toList, unquoted "room".toList,
              unquoted "create-boardroom".toList] := by decide
        have htext : "agentgather room create-boardroom ".toList =
            "agentgather room create-boardroom".toList ++ [' '] := by decide
        refine ⟨_, _, "ame>".toList ++ (" --channels ".toList ++ (channelSpec template ++
          ' ' :: optionText form)), hstart, ?_⟩
        dsimp only
        rw [htext]
        simp only [List.append_assoc, List.cons_append, List.nil_append]
  obtain ⟨front, words, rest, hreads, htext⟩ := hfront
  have hopen : run (.plain none) "<n".toList =
      some ([.operator ['<']], .plain (some [('n', false)])) := by decide
  have htokens : tokens ("<n".toList ++ rest) = _ := tokensFrom_append hopen rest
  rw [htext]
  cases hrest : tokensFrom (.plain (some [('n', false)])) rest with
  | none =>
      rw [hrest] at htokens
      unfold simpleCommand
      rw [hreads.tokens_append, htokens]
      rfl
  | some read =>
      rw [hrest] at htokens
      have hall := hreads.tokens_append ("<n".toList ++ rest)
      rw [htokens] at hall
      apply simpleCommand_eq_none hall
      exact List.mem_append_right _ List.mem_cons_self

/-! ### What the program does -/

theorem requestedRoom_room (subcommand : List Char) (rest : List (List Char)) :
    requestedRoom ("room".toList :: subcommand :: rest) =
      if "--help".toList ∈ subcommand :: rest ∨ "-h".toList ∈ subcommand :: rest then none
      else
        match roomCommand (subcommand :: rest) with
        | some ("start", rest) => (roomRequest false (parseArgs rest)).toOption
        | some ("create-boardroom", rest) => (roomRequest true (parseArgs rest)).toOption
        | _ => none := by
  have hmain : main ("room".toList :: subcommand :: rest) =
      if "--help".toList ∈ subcommand :: rest ∨ "-h".toList ∈ subcommand :: rest then
        .commandHelp "room" else .run "room" (subcommand :: rest) := rfl
  unfold requestedRoom
  rw [hmain]
  split_ifs <;> rfl

/-- What is parsed before the brief. -/
def parsedFront (lower : List Char → List Char) (form : CreateForm) : ParsedArgs :=
  let flags : OrderedMap (List Char) FlagValue :=
    match form.template with
    | some template => OrderedMap.empty.set "channels".toList (.text (channelSpec template))
    | none => .empty
  ⟨[roomSlug lower form.name], flags.set "attendance".toList (.text form.policy.name.toList)⟩

theorem startsFlag_roomSlug {name : List Char} (h : Named lower name) :
    startsFlag (roomSlug lower name) = false := by
  obtain ⟨c, s, hslug, -, hc, -⟩ := roomSlug_of_named h
  have hdash : ('-' == c) = false :=
    beq_eq_false_iff_ne.mpr (ne_of_isSlugLetter hc (by decide)).symm
  rw [hslug, startsFlag, List.isPrefixOf_cons_cons, hdash]
  rfl

/-- The help words among the arguments can only be the goal. -/
theorem help_mem_iff {form : CreateForm} (h : Named lower form.name) {word : List Char}
    (hword : word = "--help".toList ∨ word = "-h".toList) :
    word ∈ (commandArguments lower form).tail ↔ normalizedGoal form.goal = word := by
  have hslug : word ≠ roomSlug lower form.name := by
    obtain ⟨c, s, hslug, -, hc, -⟩ := roomSlug_of_named h
    have hdash : '-' ≠ c := (ne_of_isSlugLetter hc (by decide)).symm
    rw [hslug]
    rcases hword with rfl | rfl
    · exact fun heq => hdash (List.cons.inj heq).1
    · exact fun heq => hdash (List.cons.inj heq).1
  have hpolicy : word ≠ form.policy.name.toList := by
    rcases hword with rfl | rfl <;> cases form.policy <;> decide
  have hspec (template : RoomTemplate) : word ≠ channelSpec template := by
    rcases hword with rfl | rfl <;> cases template <;> decide
  have hconst (s : String) (hs : "--help".toList ≠ s.toList ∧ "-h".toList ≠ s.toList) :
      word ≠ s.toList := by
    rcases hword with rfl | rfl
    · exact hs.1
    · exact hs.2
  have hne : word ≠ [] := by
    rcases hword with rfl | rfl <;> decide
  have hbrief : word ∈ briefArguments form ↔ normalizedGoal form.goal = word := by
    unfold briefArguments
    split_ifs with hgoal
    · rw [hgoal]
      exact ⟨fun hmem => (by cases hmem), fun heq => absurd heq.symm hne⟩
    · rw [List.mem_cons, List.mem_singleton, or_iff_right (hconst "--brief" (by decide)), eq_comm]
  unfold commandArguments
  cases form.template with
  | none =>
      simp only [List.cons_append, List.nil_append, List.tail_cons, List.mem_cons, hslug, hpolicy,
        hconst "start" (by decide), hconst "--attendance" (by decide), hbrief, false_or]
  | some template =>
      simp only [List.cons_append, List.nil_append, List.tail_cons, List.mem_cons, hslug, hpolicy,
        hspec template, hconst "create-boardroom" (by decide), hconst "--channels" (by decide),
        hconst "--attendance" (by decide), hbrief, false_or]

theorem requestedRoom_eq {form : CreateForm} (h : Named lower form.name) :
    requestedRoom (commandArguments lower form) =
      if normalizedGoal form.goal = "--help".toList ∨ normalizedGoal form.goal = "-h".toList then
        none
      else (roomRequest form.template.isSome
        (parseArgsFrom (parsedFront lower form) (briefArguments form))).toOption := by
  have hslug := startsFlag_roomSlug h
  have hpolicy : startsFlag form.policy.name.toList = false := by
    cases form.policy <;> decide
  have hspec (template : RoomTemplate) : startsFlag (channelSpec template) = false := by
    cases template <;> decide
  have hhelp := or_congr (help_mem_iff h (.inl rfl)) (help_mem_iff h (.inr rfl))
  unfold commandArguments at hhelp ⊢
  unfold parsedFront
  cases htemplate : form.template with
  | none =>
      rw [htemplate] at hhelp
      simp only [List.cons_append, List.nil_append, List.tail_cons] at hhelp ⊢
      have hparse : parseArgs (roomSlug lower form.name :: "--attendance".toList ::
          form.policy.name.toList :: briefArguments form) =
          parseArgsFrom ⟨[roomSlug lower form.name], OrderedMap.empty.set "attendance".toList
            (.text form.policy.name.toList)⟩ (briefArguments form) := by
        rw [parseArgs, parseArgsFrom_positional _ hslug, parseArgsFrom_flag _ (by decide) hpolicy]
        rfl
      rw [requestedRoom_room]
      by_cases hasked : normalizedGoal form.goal = "--help".toList ∨
          normalizedGoal form.goal = "-h".toList
      · rw [if_pos (hhelp.mpr hasked), if_pos hasked]
      · rw [if_neg (mt hhelp.mp hasked), if_neg hasked, ← hparse]
        rfl
  | some template =>
      rw [htemplate] at hhelp
      simp only [List.cons_append, List.nil_append, List.tail_cons] at hhelp ⊢
      have hparse : parseArgs (roomSlug lower form.name :: "--channels".toList ::
          channelSpec template :: "--attendance".toList :: form.policy.name.toList ::
            briefArguments form) =
          parseArgsFrom ⟨[roomSlug lower form.name], (OrderedMap.empty.set "channels".toList
            (.text (channelSpec template))).set "attendance".toList
              (.text form.policy.name.toList)⟩ (briefArguments form) := by
        rw [parseArgs, parseArgsFrom_positional _ hslug,
          parseArgsFrom_flag _ (by decide) (hspec template),
          parseArgsFrom_flag _ (by decide) hpolicy]
        rfl
      rw [requestedRoom_room]
      by_cases hasked : normalizedGoal form.goal = "--help".toList ∨
          normalizedGoal form.goal = "-h".toList
      · rw [if_pos (hhelp.mpr hasked), if_pos hasked]
      · rw [if_neg (mt hhelp.mp hasked), if_neg hasked, ← hparse]
        rfl

/-! ### The goal -/

/-- The goal is not taken for a flag, nor for a call for help. -/
def GoalArrives (form : CreateForm) : Prop :=
  startsFlag (normalizedGoal form.goal) = false ∧ normalizedGoal form.goal ≠ "-h".toList

theorem roomRequest_arrives {form : CreateForm}
    (h : startsFlag (normalizedGoal form.goal) = false) :
    roomRequest form.template.isSome
        (parseArgsFrom (parsedFront lower form) (briefArguments form)) =
      .ok (askedRoom lower form) := by
  unfold briefArguments askedRoom parsedFront
  by_cases hgoal : normalizedGoal form.goal = []
  · rw [if_pos hgoal, if_pos hgoal]
    cases form.template with
    | none => cases form.policy <;> rfl
    | some template => cases template <;> cases form.policy <;> rfl
  · rw [if_neg hgoal, if_neg hgoal, parseArgsFrom_flag _ (by decide) h]
    cases form.template with
    | none => cases form.policy <;> rfl
    | some template => cases template <;> cases form.policy <;> rfl

/-- A goal that begins like a flag is taken for one, and the brief is lost. -/
theorem roomRequest_loses {form : CreateForm} (h : startsFlag (normalizedGoal form.goal) = true)
    {request : RoomRequest} (hrequest : roomRequest form.template.isSome
      (parseArgsFrom (parsedFront lower form) (briefArguments form)) = .ok request) :
    request.brief = none := by
  have hgoal : normalizedGoal form.goal ≠ [] := by
    intro hnil
    rw [hnil] at h
    cases h
  unfold briefArguments at hrequest
  rw [if_neg hgoal, parseArgsFrom_flags _ (by decide) h] at hrequest
  have hfront (key : String) (hkey : key.toList ≠ "channels".toList ∧
      key.toList ≠ "attendance".toList) :
      (parsedFront lower form).flags.get? key.toList = none := by
    unfold parsedFront
    cases form.template with
    | none =>
        dsimp only
        rw [OrderedMap.get?_set_ne _ _ hkey.2, OrderedMap.get?_empty]
    | some template =>
        dsimp only
        rw [OrderedMap.get?_set_ne _ _ hkey.2, OrderedMap.get?_set_ne _ _ hkey.1,
          OrderedMap.get?_empty]
  have hlost (key : String) (hkey : key.toList ≠ "channels".toList ∧
      key.toList ≠ "attendance".toList) :
      flagString (((parsedFront lower form).setFlag "--brief".toList .present).setFlag
        (normalizedGoal form.goal) .present) key = none := by
    apply flagString_eq_none
    intro value hvalue
    unfold ParsedArgs.setFlag at hvalue
    rw [OrderedMap.get?_set, OrderedMap.get?_set, hfront key hkey] at hvalue
    split_ifs at hvalue <;> cases hvalue
  exact roomRequest_brief (hlost "brief" (by decide)) (hlost "brief-file" (by decide)) hrequest

/-- What is pasted creates the room that was asked for, with the slug, the policy, the channels
and the goal as they were chosen, exactly when something of the name is left for a slug and the
goal begins with no two dashes and is not `-h`. -/
theorem pastedRoom_createCommand_iff (lower : List Char → List Char) (form : CreateForm) :
    pastedRoom (createCommand lower form) = some (askedRoom lower form) ↔
      Named lower form.name ∧ GoalArrives form := by
  unfold pastedRoom GoalArrives
  by_cases hnamed : Named lower form.name
  · rw [simpleCommand_createCommand hnamed]
    dsimp only
    rw [if_pos rfl, requestedRoom_eq hnamed, and_iff_right hnamed]
    by_cases hflag : startsFlag (normalizedGoal form.goal) = true
    · have hasked : (askedRoom lower form).brief ≠ none := by
        unfold askedRoom
        dsimp only
        rw [if_neg]
        · exact Option.some_ne_none _
        · intro hnil
          rw [hnil] at hflag
          cases hflag
      constructor
      · intro heq
        exfalso
        split_ifs at heq
        obtain ⟨request, hrequest⟩ : ∃ request, roomRequest form.template.isSome
            (parseArgsFrom (parsedFront lower form) (briefArguments form)) = .ok request := by
          cases hcase : roomRequest form.template.isSome
              (parseArgsFrom (parsedFront lower form) (briefArguments form)) with
          | error e =>
              rw [hcase] at heq
              cases heq
          | ok request => exact ⟨request, rfl⟩
        have hlost := roomRequest_loses hflag hrequest
        rw [hrequest] at heq
        obtain rfl := Option.some.inj heq
        exact hasked hlost
      · rintro ⟨hno, -⟩
        rw [hflag] at hno
        cases hno
    · rw [Bool.not_eq_true] at hflag
      have hlong : normalizedGoal form.goal ≠ "--help".toList := by
        intro heq
        rw [heq] at hflag
        cases hflag
      rw [roomRequest_arrives hflag, and_iff_right hflag]
      by_cases hshort : normalizedGoal form.goal = "-h".toList
      · rw [if_pos (.inr hshort)]
        exact ⟨fun heq => (by cases heq), fun hne => absurd hshort hne⟩
      · rw [if_neg (not_or.mpr ⟨hlong, hshort⟩)]
        exact ⟨fun _ => hshort, fun _ => rfl⟩
  · rw [simpleCommand_of_not_named hnamed]
    exact ⟨fun heq => (by cases heq), fun h => absurd h.1 hnamed⟩

-- A goal that begins with two dashes: the room is created, without its brief.
example : (pastedRoom (createCommand id
    ⟨"lab".toList, "--verbose logs, please".toList, none, none⟩)).map (·.brief) = some none := by
  decide +kernel

end AgentGather.Browser
