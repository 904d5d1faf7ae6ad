import AgentGather.Library.JsonScan
import AgentGather.Library.Utf8

/-!
# Line-delimited JSON

A file of JSON texts, one a line, as bytes.  Whole lines read back as the values that
were written.  A line of which only a part was written spoils everything that is written
behind it: the reader gets the part and the next line as one text, which does not parse.
-/

namespace AgentGather.Library.JsonLines

open Json

/-- The text of one line. -/
def line (value : Json) : List Char := print value ++ ['\n']

/-- The bytes of whole lines. -/
def bytes (values : List Json) : List Nat := Utf8.encode (values.flatMap line)

/-- The lines of a text that are not empty. -/
def lines (raw : List Char) : List (List Char) :=
  (raw.splitOn '\n').filter fun line => !line.isEmpty

/-- Read a file, line by line; a blank file has no lines. -/
def read (file : List Nat) : Option (List Json) :=
  let raw := Utf8.decode file
  if (Text.trim raw).isEmpty then some [] else (lines raw).mapM parse

/-- A value as records are written: an object whose first key begins with a small
letter. -/
structure Record (value : Json) : Prop where
  valid : value.Valid
  object : ∃ k v fs a t, value = obj ((k, v) :: fs) ∧ k.toList = a :: t ∧
    Text.isLower a = true

theorem bytes_append (u v : List Json) : bytes (u ++ v) = bytes u ++ bytes v := by
  simp [bytes, Utf8.encode]

theorem bytes_cons (value : Json) (values : List Json) :
    bytes (value :: values) = bytes [value] ++ bytes values := bytes_append [value] values

/-! ## A line has no line break -/

theorem newline_notMem_quoteChar (c : Char) : '\n' ∉ quoteChar c := by
  unfold quoteChar
  split_ifs with h₁ h₂ h₃ h₄ h₅ h₆ h₇ h₈
  all_goals first | decide | skip
  · have hdigit : ∀ n < 0x20, '\n' ∉ ['\\', 'u', '0', '0', hexDigit (n / 16), hexDigit (n % 16)] := by
      decide
    exact hdigit c.toNat h₈
  · simp [Ne.symm h₅]

theorem newline_notMem_printString (s : String) : '\n' ∉ printString s := by
  have hbody : '\n' ∉ s.toList.flatMap quoteChar := by
    intro h
    obtain ⟨c, -, hc⟩ := List.mem_flatMap.mp h
    exact newline_notMem_quoteChar c hc
  simp [printString, hbody]

theorem newline_notMem_of_isAtomChar {token : List Char}
    (h : ∀ c ∈ token, isAtomChar c = true) : '\n' ∉ token := fun hmem => by
  cases h '\n' hmem

mutual

theorem newline_notMem_print : ∀ j : Json, j.Valid → '\n' ∉ print j
  | .null, _ => by decide
  | .bool true, _ => by decide
  | .bool false, _ => by decide
  | .num i, _ => by
    rw [print]
    exact newline_notMem_of_isAtomChar (isAtomChar_printInt i)
  | .real token, h => by
    rw [Valid] at h
    rw [print]
    exact newline_notMem_of_isAtomChar h.1
  | .str s, _ => by
    rw [print]
    exact newline_notMem_printString s
  | .arr [], _ => by decide
  | .arr (x :: xs), h => by
    rw [Valid, ValidItems] at h
    simp [print, newline_notMem_print x h.1, newline_notMem_printItems xs h.2]
  | .obj [], _ => by decide
  | .obj ((k, v) :: fs), h => by
    rw [Valid, ValidFields] at h
    simp [print, newline_notMem_printString, newline_notMem_print v h.1,
      newline_notMem_printFields fs h.2]

theorem newline_notMem_printItems : ∀ xs : List Json, ValidItems xs → '\n' ∉ printItems xs
  | [], _ => by decide
  | x :: xs, h => by
    rw [ValidItems] at h
    simp [printItems, newline_notMem_print x h.1, newline_notMem_printItems xs h.2]

theorem newline_notMem_printFields : ∀ fs : List (String × Json), ValidFields fs →
    '\n' ∉ printFields fs
  | [], _ => by decide
  | (k, v) :: fs, h => by
    rw [ValidFields] at h
    simp [printFields, newline_notMem_printString, newline_notMem_print v h.1,
      newline_notMem_printFields fs h.2]

end

/-! ## Whole lines -/

theorem lines_cons {u : List Char} (hne : u ≠ []) (hu : '\n' ∉ u) (rest : List Char) :
    lines (u ++ '\n' :: rest) = u :: lines rest := by
  have hnone : ∀ c ∈ u, (c == '\n') = false := by
    intro c hc
    rw [beq_eq_false_iff_ne]
    rintro rfl
    exact hu hc
  rw [lines, List.splitOn_eq_splitOnP,
    List.splitOnP_append_cons_of_forall_mem hnone '\n' rfl, List.filter_cons_of_pos (by simpa),
    lines, List.splitOn_eq_splitOnP]

theorem print_ne_nil {value : Json} (h : value.Valid) : print value ≠ [] := by
  obtain ⟨c, t, hprint, -⟩ := print_head value h
  rw [hprint]
  exact List.cons_ne_nil c t

/-- The lines of a text that begins with whole lines. -/
theorem lines_values {values : List Json} (h : ∀ v ∈ values, Json.Valid v)
    (rest : List Char) :
    lines (values.flatMap line ++ rest) = values.map print ++ lines rest := by
  induction values with
  | nil => rfl
  | cons v values ih =>
      have hv := h v List.mem_cons_self
      have hstep : (v :: values).flatMap line ++ rest =
          print v ++ '\n' :: (values.flatMap line ++ rest) := by
        simp [line]
      rw [hstep, lines_cons (print_ne_nil hv) (newline_notMem_print v hv),
        ih fun w hw => h w (List.mem_cons_of_mem v hw)]
      rfl

theorem mapM_parse_append (u v : List (List Char)) :
    (u ++ v).mapM parse = (u.mapM parse).bind fun js => (v.mapM parse).map (js ++ ·) := by
  rw [List.mapM_append]
  refine congrArg _ (funext fun js => ?_)
  cases v.mapM parse with
  | none => rfl
  | some ks => rfl

theorem mapM_parse_print {values : List Json} (h : ∀ v ∈ values, Json.Valid v) :
    (values.map print).mapM parse = some values := by
  induction values with
  | nil => rfl
  | cons v values ih =>
      have hv := parse_print v (h v List.mem_cons_self)
      have hrest := ih fun w hw => h w (List.mem_cons_of_mem v hw)
      simp [List.mapM_cons, hv, hrest]

/-- A text that a record begins is not blank. -/
theorem trim_ne_nil {raw : List Char} (h : '{' ∈ raw) : (Text.trim raw).isEmpty = false := by
  rw [List.isEmpty_eq_false_iff]
  intro hblank
  cases (Text.trim_eq_nil_iff raw).mp hblank '{' h

theorem Record.print_eq {value : Json} (h : Record value) : ∃ t, print value = '{' :: t := by
  obtain ⟨k, v, fs, a, t, rfl, -⟩ := h.object
  exact ⟨_, rfl⟩

/-- Whole lines read back as the values that were written. -/
theorem read_bytes {values : List Json} (h : ∀ v ∈ values, Record v) :
    read (bytes values) = some values := by
  have hvalid : ∀ v ∈ values, Json.Valid v := fun v hv => (h v hv).valid
  cases values with
  | nil => rfl
  | cons v values =>
      obtain ⟨t, ht⟩ := (h v List.mem_cons_self).print_eq
      have hmem : '{' ∈ (v :: values).flatMap line := by simp [line, ht]
      have hlines := lines_values hvalid []
      rw [List.append_nil] at hlines
      rw [read, bytes, Utf8.decode_encode]
      simp only [trim_ne_nil hmem, hlines]
      have hempty : lines [] = [] := rfl
      rw [hempty, List.append_nil]
      exact mapM_parse_print hvalid

/-! ## A line cut short -/

/-- A text with a line that does not parse is not read. -/
theorem read_eq_none {file : List Nat} {segment rest : List Char} {values : List Json}
    (hraw : Utf8.decode file = values.flatMap line ++ (segment ++ '\n' :: rest))
    (h : ∀ v ∈ values, Json.Valid v) (hne : segment ≠ []) (hline : '\n' ∉ segment)
    (hblank : '{' ∈ segment) (hparse : parse segment = none) : read file = none := by
  have hmem : '{' ∈ values.flatMap line ++ (segment ++ '\n' :: rest) := by simp [hblank]
  rw [read, hraw]
  simp only [trim_ne_nil hmem]
  rw [lines_values h, lines_cons hne hline, mapM_parse_append, mapM_parse_print h]
  simp [List.mapM_cons, hparse]

theorem Record.whole {value : Json} (h : Record value) : Whole (print value) := by
  obtain ⟨k, v, fs, a, t, rfl, -⟩ := h.object
  obtain ⟨body, hbody, hwhole⟩ := exists_body k v fs h.valid
  rw [hbody]
  exact hwhole.enclosed (.inl rfl) (.inl rfl)

theorem Record.opens {value : Json} (h : Record value) : OpensObject (print value) := by
  obtain ⟨k, v, fs, a, t, rfl, hk, ha⟩ := h.object
  exact opensObject_print ⟨a, t, hk, ha⟩

/-- A replacement character behind a whole text spoils it. -/
theorem parse_spoiled {u : List Char} (hu : Whole u) (rest : List Char) :
    parse (u ++ '\ufffd' :: rest) = none := by
  cases hparse : parse (u ++ '\ufffd' :: rest) with
  | none => rfl
  | some j =>
      obtain ⟨m, -, hall⟩ := parse_scan hparse 0
      obtain ⟨m₁, hm₁, hscan⟩ := hu 0
      rw [scan_append, hscan, Option.bind_some] at hall
      rcases hm₁ with rfl | rfl <;> cases hall

/-- The part of a record and the record behind it are not one text. -/
theorem parse_part {value next : Json} (h : Record value) (hnext : Record next) {n : Nat}
    (hpos : 0 < n) (hle : n ≤ (print value).length) {junk : List Char}
    (hjunk : junk = [] ∨ junk = ['\ufffd']) :
    parse ((print value).take n ++ (junk ++ print next)) = none := by
  rcases Nat.lt_or_eq_of_le hle with hlt | heq
  · have hclean : ∀ c ∈ junk, c ≠ '}' ∧ c ≠ ']' := by
      intro c hc
      rcases hjunk with rfl | rfl
      · cases hc
      · rw [List.mem_singleton.mp hc]
        decide
    obtain ⟨k, v, fs, a, t, rfl, -⟩ := h.object
    exact parse_glued h.valid hpos hlt hclean hnext.opens hnext.whole
  · rw [heq, List.take_length]
    rcases hjunk with rfl | rfl
    · exact parse_joined h.whole hnext.opens
    · exact parse_spoiled h.whole (print next)

/-- Behind a line that was cut short inside, the next line makes the file unreadable. -/
theorem read_torn {values next : List Json} {value : Json} (h : ∀ v ∈ values, Record v)
    (hvalue : Record value) (hnext : ∀ v ∈ next, Record v) (hne : next ≠ []) {k : Nat}
    (hpos : 0 < k) (hlt : k < (bytes [value]).length) :
    read (bytes values ++ ((bytes [value]).take k ++ bytes next)) = none := by
  obtain ⟨w, next, rfl⟩ := List.exists_cons_of_ne_nil hne
  have hw : Record w := hnext w List.mem_cons_self
  have hone : bytes [value] = Utf8.encode (line value) := by simp [bytes]
  rw [hone] at hlt ⊢
  obtain ⟨n, junk, hn, hjunk, hstart, hdecode⟩ := Utf8.decode_take (line value) k hlt
  obtain ⟨t, ht⟩ := hvalue.print_eq
  obtain ⟨t', ht'⟩ := hw.print_eq
  have hn0 : 0 < n := hstart '{' (by simp [line, ht]) (by decide) hpos
  have hle : n ≤ (print value).length := by
    simp only [line, List.length_append, List.length_cons, List.length_nil] at hn
    omega
  have htake : (line value).take n = (print value).take n := by
    rw [line, List.take_append_of_le_length hle]
  have hhead : ∀ b, (bytes (w :: next)).head? = some b → b < 0x80 := by
    intro b hb
    obtain rfl : 0x7b = b := by simpa [bytes, line, ht', Utf8.encode, Utf8.encodeChar] using hb
    decide
  have hrest : Utf8.decode (bytes (w :: next)) =
      print w ++ '\n' :: next.flatMap line := by
    rw [bytes, Utf8.decode_encode]
    simp [line]
  have hraw : Utf8.decode (bytes values ++ ((Utf8.encode (line value)).take k ++
      bytes (w :: next))) =
      values.flatMap line ++ (((print value).take n ++ (junk ++ print w)) ++
        '\n' :: next.flatMap line) := by
    rw [bytes, Utf8.decode_encode_append, hdecode _ hhead, hrest, htake]
    simp
  have hnewline : '\n' ∉ (print value).take n ++ (junk ++ print w) := by
    intro hmem
    rcases List.mem_append.mp hmem with hmem | hmem
    · exact newline_notMem_print value hvalue.valid (List.mem_of_mem_take hmem)
    · rcases List.mem_append.mp hmem with hmem | hmem
      · rcases hjunk with rfl | rfl <;> revert hmem <;> decide
      · exact newline_notMem_print w hw.valid hmem
  exact read_eq_none hraw (fun v hv => (h v hv).valid)
    (by simp [ht']) hnewline (by simp [ht']) (parse_part hvalue hw hn0 hle hjunk)

end AgentGather.Library.JsonLines
