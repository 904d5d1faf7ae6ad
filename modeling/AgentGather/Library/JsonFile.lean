import AgentGather.Library.JsonIndent
import AgentGather.Library.JsonScan
import AgentGather.Library.Utf8

/-!
# Files of one JSON text

`JSON.stringify(value, null, 2)` and a line break, as bytes.  A whole file reads back as the
value that was written; one that was cut short anywhere before its last brace does not parse.
-/

namespace AgentGather.Library

namespace Json

/-! ## The parser and the spaces of an indented text -/

theorem skipSpace_append {u : List Char} (hu : ∀ c ∈ u, isSpace c = true) (s : List Char) :
    skipSpace (u ++ s) = skipSpace s := by
  rw [skipSpace, List.dropWhile_append_of_pos hu, skipSpace]

theorem isSpace_newLine (depth : Nat) : ∀ c ∈ newLine depth, isSpace c = true := by
  intro c hc
  rcases List.mem_cons.mp hc with rfl | hc
  · rfl
  · rw [List.eq_of_mem_replicate hc]
    rfl

theorem skipSpace_newLine (depth : Nat) (s : List Char) :
    skipSpace (newLine depth ++ s) = skipSpace s :=
  skipSpace_append (isSpace_newLine depth) s

/-- A value is read behind any spaces. -/
theorem parseValue_skip (n : Nat) {u : List Char} (hu : ∀ c ∈ u, isSpace c = true)
    (s : List Char) : parseValue n (u ++ s) = parseValue n s := by
  cases n with
  | zero => rfl
  | succ n => rw [parseValue, skipSpace_append hu, parseValue]

theorem parseMembers_skip (n : Nat) {u : List Char} (hu : ∀ c ∈ u, isSpace c = true)
    (s : List Char) : parseMembers n (u ++ s) = parseMembers n s := by
  cases n with
  | zero => rfl
  | succ n => rw [parseMembers, skipSpace_append hu, parseMembers]

theorem isAtomChar_of_isSpace {c : Char} (h : isSpace c = true) : isAtomChar c = false := by
  simp only [isSpace, Bool.or_eq_true, beq_iff_eq] at h
  rcases h with ((rfl | rfl) | rfl) | rfl <;> rfl

theorem boundary_newLine (depth : Nat) (rest : List Char) :
    Boundary (newLine depth ++ rest) := by
  rintro _ ⟨⟩
  rfl

/-! ## What follows a value -/

theorem boundary_printIndentedItems (depth : Nat) (xs : List Json) (rest : List Char) :
    Boundary (printIndentedItems depth xs ++ rest) := by
  cases xs with
  | nil =>
      rw [printIndentedItems, List.append_assoc]
      exact boundary_newLine depth _
  | cons x xs =>
      rw [printIndentedItems]
      rintro _ ⟨⟩
      rfl

theorem boundary_printIndentedFields (depth : Nat) (fs : List (String × Json))
    (rest : List Char) : Boundary (printIndentedFields depth fs ++ rest) := by
  rcases fs with _ | ⟨⟨k, v⟩, fs⟩
  · rw [printIndentedFields, List.append_assoc]
    exact boundary_newLine depth _
  · rw [printIndentedFields]
    rintro _ ⟨⟩
    rfl

/-- An indented value begins as the compact one does. -/
theorem printIndented_head (depth : Nat) (j : Json) (h : j.Valid) :
    ∃ c t, printIndented depth j = c :: t ∧ isSpace c = false ∧ c ≠ ']' ∧ c ≠ '}' := by
  cases j with
  | null => exact print_head .null h
  | bool b => exact print_head (.bool b) h
  | num n => exact print_head (.num n) h
  | real token => exact print_head (.real token) h
  | str s => exact print_head (.str s) h
  | arr xs =>
      cases xs with
      | nil => exact ⟨_, _, rfl, by decide⟩
      | cons x xs => exact ⟨_, _, by rw [printIndented], by decide⟩
  | obj fs =>
      cases fs with
      | nil => exact ⟨_, _, rfl, by decide⟩
      | cons f fs => exact ⟨_, _, by rw [printIndented], by decide⟩

theorem length_newLine_pos (depth : Nat) : 0 < (newLine depth).length := by
  rw [newLine, List.length_cons]
  exact Nat.succ_pos _

/-! ## The round trip -/

mutual

/-- The parser reads back what the indenting printer wrote, whatever follows. -/
theorem parseValue_printIndented : ∀ (j : Json), j.Valid → ∀ (depth n : Nat)
    (rest : List Char), Boundary rest → 2 * (printIndented depth j).length ≤ n →
    parseValue n (printIndented depth j ++ rest) = some (j, rest)
  | .null, hj, _, n, rest, hb, hn => parseValue_print .null hj n rest hb hn
  | .bool b, hj, _, n, rest, hb, hn => parseValue_print (.bool b) hj n rest hb hn
  | .num i, hj, _, n, rest, hb, hn => parseValue_print (.num i) hj n rest hb hn
  | .real token, hj, _, n, rest, hb, hn => parseValue_print (.real token) hj n rest hb hn
  | .str s, hj, _, n, rest, hb, hn => parseValue_print (.str s) hj n rest hb hn
  | .arr [], hj, _, n, rest, hb, hn => parseValue_print (.arr []) hj n rest hb hn
  | .obj [], hj, _, n, rest, hb, hn => parseValue_print (.obj []) hj n rest hb hn
  | .arr (x :: xs), hj, depth, n, rest, hb, hn => by
    rw [Valid, ValidItems] at hj
    rw [printIndented, List.length_cons, List.length_append, List.length_append] at hn
    obtain ⟨m, rfl⟩ : ∃ m, n = m + 1 := Nat.exists_eq_succ_of_ne_zero (by omega)
    have hitems := parseItems_printIndented x hj.1 xs hj.2 depth m rest (by omega)
    obtain ⟨c, t, hx, hspace, hclose, -⟩ := printIndented_head (depth + 1) x hj.1
    rw [printIndented, List.cons_append, parseValue, skipSpace_cons (by decide)]
    simp only [List.append_assoc, skipSpace_newLine]
    rw [hx, List.cons_append] at hitems ⊢
    simp only [skipSpace_cons hspace, if_neg hclose, hitems]
    rfl
  | .obj ((k, v) :: fs), hj, depth, n, rest, hb, hn => by
    rw [Valid, ValidFields] at hj
    simp only [printIndented, List.length_cons, List.length_append] at hn
    obtain ⟨m, rfl⟩ : ∃ m, n = m + 1 := Nat.exists_eq_succ_of_ne_zero (by omega)
    have hfields := parseMembers_printIndented k v hj.1 fs hj.2 depth m rest (by omega)
    rw [printIndented, List.cons_append, parseValue, skipSpace_cons (by decide)]
    simp only [List.append_assoc, List.cons_append, skipSpace_newLine]
    rw [printString, List.cons_append] at hfields ⊢
    simp only [skipSpace_cons (show isSpace '"' = false by decide),
      if_neg (show ('"' : Char) ≠ '}' by decide), hfields]
    rfl
termination_by _ _ _ n => n

theorem parseItems_printIndented : ∀ (x : Json), x.Valid → ∀ (xs : List Json),
    ValidItems xs → ∀ (depth n : Nat) (rest : List Char),
    2 * (printIndented (depth + 1) x).length + 2 * (printIndentedItems depth xs).length + 1 ≤ n →
    parseItems n (printIndented (depth + 1) x ++ (printIndentedItems depth xs ++ rest)) =
      some (x :: xs, rest)
  | x, hx, xs, hxs, depth, n, rest, hn => by
    obtain ⟨m, rfl⟩ : ∃ m, n = m + 1 := Nat.exists_eq_succ_of_ne_zero (by omega)
    have hvalue := parseValue_printIndented x hx (depth + 1) m
      (printIndentedItems depth xs ++ rest) (boundary_printIndentedItems depth xs rest)
      (by omega)
    match xs, hxs with
    | [], _ =>
        rw [parseItems, hvalue]
        simp only [printIndentedItems, List.append_assoc, Option.bind_eq_bind,
          Option.bind_some, skipSpace_newLine]
        rfl
    | y :: ys, hxs =>
        rw [ValidItems] at hxs
        simp only [printIndentedItems, List.length_cons, List.length_append] at hn
        have hitems := parseItems_printIndented y hxs.1 ys hxs.2 depth m rest (by omega)
        have hskip : parseItems m (newLine (depth + 1) ++ (printIndented (depth + 1) y ++
            (printIndentedItems depth ys ++ rest))) = some (y :: ys, rest) := by
          obtain ⟨l, rfl⟩ : ∃ l, m = l + 1 := Nat.exists_eq_succ_of_ne_zero (by omega)
          rw [parseItems] at hitems ⊢
          rw [parseValue_skip l (isSpace_newLine (depth + 1))]
          exact hitems
        rw [parseItems, hvalue]
        simp only [printIndentedItems, List.cons_append, List.append_assoc,
          Option.bind_eq_bind, Option.bind_some,
          skipSpace_cons (show isSpace ',' = false by decide), if_true, hskip]
        rfl
termination_by _ _ _ _ _ n => n

theorem parseMembers_printIndented : ∀ (k : String) (v : Json), v.Valid →
    ∀ (fs : List (String × Json)), ValidFields fs → ∀ (depth n : Nat) (rest : List Char),
    2 * (printIndented (depth + 1) v).length + 2 * (printIndentedFields depth fs).length + 1
      ≤ n →
    parseMembers n (printString k ++ ':' :: ' ' :: (printIndented (depth + 1) v ++
      (printIndentedFields depth fs ++ rest))) = some ((k, v) :: fs, rest)
  | k, v, hv, fs, hfs, depth, n, rest, hn => by
    obtain ⟨m, rfl⟩ : ∃ m, n = m + 1 := Nat.exists_eq_succ_of_ne_zero (by omega)
    have hspace : ∀ c ∈ [' '], isSpace c = true := List.forall_mem_singleton.mpr rfl
    have hvalue := parseValue_skip m hspace
      (printIndented (depth + 1) v ++ (printIndentedFields depth fs ++ rest))
    rw [parseValue_printIndented v hv (depth + 1) m (printIndentedFields depth fs ++ rest)
      (boundary_printIndentedFields depth fs rest) (by omega), List.singleton_append] at hvalue
    have hkey := parseString_printString k (':' :: ' ' :: (printIndented (depth + 1) v ++
      (printIndentedFields depth fs ++ rest)))
    rw [printString, List.cons_append, List.append_assoc, parseMembers,
      skipSpace_cons (by decide)]
    simp only [List.cons_append, List.nil_append, if_true, hkey, Option.bind_eq_bind,
      Option.bind_some, skipSpace_cons (show isSpace ':' = false by decide), hvalue]
    match fs, hfs with
    | [], _ =>
        simp only [printIndentedFields, List.append_assoc, skipSpace_newLine]
        rfl
    | (k', v') :: fs', hfs =>
        rw [ValidFields] at hfs
        simp only [printIndentedFields, List.length_cons, List.length_append] at hn
        have hfields := parseMembers_printIndented k' v' hfs.1 fs' hfs.2 depth m rest
          (by omega)
        have hskip := parseMembers_skip m (isSpace_newLine (depth + 1))
          (printString k' ++ ':' :: ' ' :: (printIndented (depth + 1) v' ++
            (printIndentedFields depth fs' ++ rest)))
        rw [hfields] at hskip
        simp only [printIndentedFields, List.cons_append, List.append_assoc,
          skipSpace_cons (show isSpace ',' = false by decide), if_true, hskip]
        rfl
termination_by _ _ _ _ _ _ n => n

end

/-- An indented text reads back, with spaces behind it. -/
theorem parse_printIndented (j : Json) (h : j.Valid) {spaces : List Char}
    (hspaces : ∀ c ∈ spaces, isSpace c = true) :
    parse (printIndented 0 j ++ spaces) = some j := by
  have hboundary : Boundary spaces := by
    intro c hc
    exact isAtomChar_of_isSpace (hspaces c (List.mem_of_mem_head? hc))
  have hlength : 2 * (printIndented 0 j).length ≤
      2 * (printIndented 0 j ++ spaces).length + 2 := by
    rw [List.length_append]
    omega
  rw [parse, parseValue_printIndented j h 0 _ spaces hboundary hlength]
  have hnone : skipSpace spaces = [] := List.dropWhile_eq_nil_iff.mpr hspaces
  simp only [hnone, List.isEmpty_nil, if_true]

/-- The indented text of a nonempty object: whole members between two braces. -/
theorem exists_indentedBody (k : String) (v : Json) (fs : List (String × Json))
    (h : (obj ((k, v) :: fs)).Valid) :
    ∃ body, printIndented 0 (obj ((k, v) :: fs)) = '{' :: (body ++ ['}']) ∧ Whole body := by
  rw [Valid, ValidFields] at h
  obtain ⟨body, hbody, hwhole⟩ := parseMembers_scan _ _ _ _
    (parseMembers_printIndented k v h.1 fs h.2 0 _ [] (le_refl _))
  refine ⟨newLine 1 ++ body, ?_, hwhole.spaces_left (isSpace_newLine 1)⟩
  rw [List.append_nil] at hbody
  rw [printIndented, Nat.zero_add, List.append_assoc (newLine 1), List.append_assoc (newLine 1),
    ← hbody]

/-! ## Values of one type -/

def text? : Json → Option String
  | str value => some value
  | _ => none

def number? : Json → Option Int
  | num value => some value
  | _ => none

def texts? : Json → Option (List String)
  | arr items => items.mapM text?
  | _ => none

theorem texts?_map_str (values : List String) : texts? (arr (values.map str)) = some values := by
  rw [texts?]
  induction values with
  | nil => rfl
  | cons value values ih => simp [List.mapM_cons, text?, ih]

theorem validItems_map_str (values : List String) : ValidItems (values.map str) := by
  induction values with
  | nil => trivial
  | cons value values ih => exact ⟨trivial, ih⟩

end Json

namespace JsonFile

open Json

/-- What is written for a value. -/
def text (value : Json) : List Char := printIndented 0 value ++ ['\n']

def bytes (value : Json) : List Nat := Utf8.encode (text value)

/-- `JSON.parse(await readFile(file, "utf8"))`. -/
def read (file : List Nat) : Option Json := parse (Utf8.decode file)

/-- A file reads back as what was written. -/
theorem read_bytes {value : Json} (h : value.Valid) : read (bytes value) = some value := by
  rw [read, bytes, Utf8.decode_encode, text]
  exact parse_printIndented value h (List.forall_mem_singleton.mpr rfl)

/-- Different values have different files. -/
theorem bytes_inj {value other : Json} (h : value.Valid) (hother : other.Valid)
    (heq : bytes value = bytes other) : value = other := by
  have hread := read_bytes h
  rw [heq, read_bytes hother] at hread
  exact (Option.some.inj hread).symm

theorem bytes_eq (value : Json) :
    bytes value = Utf8.encode (printIndented 0 value) ++ Utf8.encode ['\n'] := by
  rw [bytes, text, Utf8.encode, List.flatMap_append]
  rfl

theorem length_bytes (value : Json) :
    (bytes value).length = (Utf8.encode (printIndented 0 value)).length + 1 := by
  rw [bytes_eq, List.length_append]
  rfl

/-- A file that only lacks its line break reads back as what was written. -/
theorem read_take_all {value : Json} (h : value.Valid) {n : Nat}
    (hn : n + 1 = (bytes value).length) : read ((bytes value).take n) = some value := by
  rw [length_bytes, Nat.add_right_cancel_iff] at hn
  rw [bytes_eq, List.take_append_of_le_length (Nat.le_of_eq hn), hn, List.take_length, read,
    Utf8.decode_encode]
  have hparse := @parse_printIndented value h [] (List.forall_mem_nil _)
  rwa [List.append_nil] at hparse

/-- A file that lacks more than its line break does not parse. -/
theorem read_take {k : String} {v : Json} {fs : List (String × Json)}
    (h : (obj ((k, v) :: fs)).Valid) {n : Nat}
    (hn : n + 1 < (bytes (obj ((k, v) :: fs))).length) :
    read ((bytes (obj ((k, v) :: fs))).take n) = none := by
  rw [length_bytes, Nat.add_lt_add_iff_right] at hn
  obtain ⟨m, junk, hm, hjunk, -, hdecode⟩ := Utf8.decode_take _ n hn
  have htext := hdecode [] (fun _ hb => nomatch hb)
  rw [List.append_nil, show Utf8.decode [] = [] from rfl, List.append_nil] at htext
  rw [bytes_eq, List.take_append_of_le_length (Nat.le_of_lt hn), read, htext]
  have hclean : ∀ c ∈ junk, c ≠ '}' ∧ c ≠ ']' := by
    rcases hjunk with rfl | rfl
    · exact List.forall_mem_nil _
    · exact List.forall_mem_singleton.mpr (by decide)
  rcases Nat.eq_zero_or_pos m with rfl | hpos
  · rcases hjunk with rfl | rfl <;> rfl
  · obtain ⟨body, hprint, hwhole⟩ := exists_indentedBody k v fs h
    rw [hprint] at hm ⊢
    obtain ⟨mode, d, hscan⟩ := scan_take_enclosed hwhole hpos hm
    exact parse_open hscan hclean

end JsonFile

end AgentGather.Library
