import AgentGather.Library.Text
import Mathlib.Data.List.Basic

/-!
# Tokens of the shell

The token recognition of the POSIX shell, one character at a time: blanks, quotes, comments,
operators and the numbers before a redirection.  Every character of a word keeps whether it was
quoted, since what is quoted neither ends a word nor is expanded.  Expansions, here-documents and
line continuations are not read: a text with one of them has no tokens.
-/

namespace AgentGather.Library.Shell

/-- The characters of a word, each with whether it was quoted. -/
abbrev Word := List (Char × Bool)

def quoted (s : List Char) : Word := s.map (·, true)

def unquoted (s : List Char) : Word := s.map (·, false)

inductive Token where
  | word (w : Word)
  | ioNumber (digits : List Char)
  | operator (op : List Char)
deriving DecidableEq, Repr

/-- Where the reader is: in unquoted text, with the word that has begun if one has; in a quotation;
behind a backslash; in an operator; or in a comment. -/
inductive Mode where
  | plain (w : Option Word)
  | single (w : Word)
  | double (w : Word)
  | escape (w : Word)
  | doubleEscape (w : Word)
  | operator (op : List Char)
  | comment
deriving DecidableEq, Repr

def isBlank (c : Char) : Bool := c == ' ' || c == '\t'

/-- The operators of more than one character. -/
def longOperators : List (List Char) :=
  ["&&".toList, "||".toList, ";;".toList, "<<".toList, ">>".toList, "<&".toList, ">&".toList,
    "<>".toList, ">|".toList]

def startsOperator (c : Char) : Bool := ['&', '|', ';', '<', '>', '(', ')', '\n'].contains c

/-- A word of unquoted digits. -/
def isNumber (w : Word) : Bool := !w.isEmpty && w.all fun c => c.1.isDigit && !c.2

/-- The token that ends before an operator. -/
def close (op : Char) : Option Word → List Token
  | none => []
  | some w =>
      if (op == '<' || op == '>') && isNumber w then [.ioNumber (w.map (·.1))] else [.word w]

def plainStep (w : Option Word) (c : Char) : Option (List Token × Mode) :=
  if c = '\'' then some ([], .single (w.getD []))
  else if c = '"' then some ([], .double (w.getD []))
  else if c = '\\' then some ([], .escape (w.getD []))
  else if c = '$' ∨ c = '`' then none
  else if isBlank c then some (close c w, .plain none)
  else if startsOperator c then some (close c w, .operator [c])
  else if c = '#' ∧ w = none then some ([], .comment)
  else some ([], .plain (some (w.getD [] ++ [(c, false)])))

/-- What one character does. -/
def step : Mode → Char → Option (List Token × Mode)
  | .plain w, c => plainStep w c
  | .single w, c =>
      if c = '\'' then some ([], .plain (some w)) else some ([], .single (w ++ [(c, true)]))
  | .double w, c =>
      if c = '"' then some ([], .plain (some w))
      else if c = '\\' then some ([], .doubleEscape w)
      else if c = '$' ∨ c = '`' then none
      else some ([], .double (w ++ [(c, true)]))
  | .escape w, c => if c = '\n' then none else some ([], .plain (some (w ++ [(c, true)])))
  | .doubleEscape w, c =>
      if c = '\n' then none
      else if ['$', '`', '"', '\\'].contains c then some ([], .double (w ++ [(c, true)]))
      else some ([], .double (w ++ [('\\', true), (c, true)]))
  | .operator op, c =>
      if longOperators.contains (op ++ [c]) then
        if op ++ [c] = "<<".toList then none else some ([], .operator (op ++ [c]))
      else (plainStep none c).map fun next => (.operator op :: next.1, next.2)
  | .comment, c => if c = '\n' then some ([], .operator [c]) else some ([], .comment)

def run : Mode → List Char → Option (List Token × Mode)
  | mode, [] => some ([], mode)
  | mode, c :: s => do
      let next ← step mode c
      let rest ← run next.2 s
      return (next.1 ++ rest.1, rest.2)

/-- The token that the end of the text ends; none inside of a quotation. -/
def finish : Mode → Option (List Token)
  | .plain none => some []
  | .plain (some w) => some [.word w]
  | .operator op => some [.operator op]
  | .comment => some []
  | _ => none

/-- The tokens from a mode on. -/
def tokensFrom (mode : Mode) (s : List Char) : Option (List Token) := do
  let read ← run mode s
  let last ← finish read.2
  return read.1 ++ last

/-- The tokens of a text. -/
def tokens (s : List Char) : Option (List Token) := tokensFrom (.plain none) s

/-! ## Reading piece by piece -/

theorem run_append (mode : Mode) (s t : List Char) :
    run mode (s ++ t) = (run mode s).bind fun front =>
      (run front.2 t).map fun read => (front.1 ++ read.1, read.2) := by
  induction s generalizing mode with
  | nil =>
      rw [List.nil_append, run, Option.bind_some]
      cases run mode t <;> rfl
  | cons c s ih =>
      rw [List.cons_append, run, run]
      cases step mode c with
      | none => rfl
      | some next =>
          simp only [Option.bind_eq_bind, Option.bind_some, ih]
          cases run next.2 s with
          | none => rfl
          | some front =>
              simp only [Option.bind_some, Option.pure_def]
              cases run front.2 t with
              | none => rfl
              | some read => simp

theorem run_append_of_run {mode next : Mode} {s : List Char} {out : List Token}
    (h : run mode s = some (out, next)) (t : List Char) :
    run mode (s ++ t) = (run next t).map fun read => (out ++ read.1, read.2) := by
  rw [run_append, h, Option.bind_some]

/-- What was read before stands before the tokens of the rest. -/
theorem tokensFrom_append {mode next : Mode} {s : List Char} {out : List Token}
    (h : run mode s = some (out, next)) (t : List Char) :
    tokensFrom mode (s ++ t) = (tokensFrom next t).map (out ++ ·) := by
  rw [tokensFrom, run_append_of_run h, tokensFrom]
  cases run next t with
  | none => rfl
  | some read =>
      simp only [Option.map_some, Option.bind_eq_bind, Option.bind_some]
      cases finish read.2 with
      | none => rfl
      | some last => simp

/-! ## Words of plain characters -/

/-- A character that stays in a word that has begun. -/
def isPlain (c : Char) : Bool :=
  !(['\'', '"', '\\', '$', '`'].contains c || isBlank c || startsOperator c)

theorem plainStep_of_isPlain {c : Char} (h : isPlain c = true) (w : Word) :
    plainStep (some w) c = some ([], .plain (some (w ++ [(c, false)]))) := by
  simp only [isPlain, List.contains_cons, List.contains_nil, Bool.or_false, Bool.not_eq_true',
    Bool.or_eq_false_iff, beq_eq_false_iff_ne] at h
  obtain ⟨⟨⟨hsingle, hdouble, hescape, hdollar, hback⟩, hblank⟩, hop⟩ := h
  simp [plainStep, hsingle, hdouble, hescape, hdollar, hback, hblank, hop]

theorem run_plain {s : List Char} (h : ∀ c ∈ s, isPlain c = true) (w : Word) :
    run (.plain (some w)) s = some ([], .plain (some (w ++ unquoted s))) := by
  induction s generalizing w with
  | nil => simp [run, unquoted]
  | cons c s ih =>
      have hc := h c List.mem_cons_self
      have hs := ih (fun d hd => h d (List.mem_cons_of_mem _ hd)) (w ++ [(c, false)])
      simp only [run, step, plainStep_of_isPlain hc, Option.bind_eq_bind, Option.bind_some, hs]
      simp [unquoted]

/-- The first character of a word must not begin a comment. -/
theorem run_plain_first {c : Char} {s : List Char} (hc : isPlain c = true) (hhash : c ≠ '#')
    (h : ∀ d ∈ s, isPlain d = true) :
    run (.plain none) (c :: s) = some ([], .plain (some (unquoted (c :: s)))) := by
  have hfirst : plainStep none c = plainStep (some []) c := by
    unfold plainStep
    simp only [isPlain, List.contains_cons, List.contains_nil, Bool.or_false, Bool.not_eq_true',
      Bool.or_eq_false_iff, beq_eq_false_iff_ne] at hc
    simp [hc, hhash]
  rw [run, step, hfirst, plainStep_of_isPlain hc, Option.bind_eq_bind, Option.bind_some,
    run_plain h]
  rfl

/-! ## Single quotes -/

/-- A quote cannot stand between single quotes: it is escaped outside of them. -/
def escapeQuote (c : Char) : List Char := if c = '\'' then "'\\''".toList else [c]

/-- The text between single quotes. -/
def singleQuote (s : List Char) : List Char := '\'' :: s.flatMap escapeQuote ++ ['\'']

theorem run_escapeQuote (w : Word) (c : Char) :
    run (.single w) (escapeQuote c) = some ([], .single (w ++ [(c, true)])) := by
  unfold escapeQuote
  by_cases hc : c = '\''
  · subst hc
    rfl
  · simp [run, step, hc]

/-- Between the quotes every character is one of the word. -/
theorem run_flatMap_escapeQuote (s : List Char) (w : Word) :
    run (.single w) (s.flatMap escapeQuote) = some ([], .single (w ++ quoted s)) := by
  induction s generalizing w with
  | nil => simp [run, quoted]
  | cons c s ih =>
      rw [List.flatMap_cons, run_append_of_run (run_escapeQuote w c), ih]
      simp [quoted]

/-- A quoted text adds its characters, quoted, to the word that has begun or begins with it. -/
theorem run_singleQuote (s : List Char) (w : Option Word) :
    run (.plain w) (singleQuote s) = some ([], .plain (some (w.getD [] ++ quoted s))) := by
  have hopen : run (.plain w) ['\''] = some ([], .single (w.getD [])) := by
    simp [run, step, plainStep]
  have hclose : run (.single (w.getD [] ++ quoted s)) ['\''] =
      some ([], .plain (some (w.getD [] ++ quoted s))) := by
    simp [run, step]
  calc run (.plain w) (singleQuote s)
      = run (.plain w) (['\''] ++ (s.flatMap escapeQuote ++ ['\''])) := rfl
    _ = some ([], .plain (some (w.getD [] ++ quoted s))) := by
        rw [run_append_of_run hopen, run_append_of_run (run_flatMap_escapeQuote s _), hclose]
        rfl

/-- A quoted text is read as the one word that it quotes. -/
theorem tokens_singleQuote (s : List Char) : tokens (singleQuote s) = some [.word (quoted s)] := by
  have h := run_singleQuote s none
  rw [tokens, tokensFrom, h]
  rfl

/-- Two texts are quoted alike only if they are equal. -/
theorem singleQuote_injective : Function.Injective singleQuote := by
  intro s t h
  have htokens := tokens_singleQuote s
  rw [h, tokens_singleQuote, Option.some.injEq, List.cons.injEq, Token.word.injEq] at htokens
  have hmap := congrArg (List.map Prod.fst) htokens.1
  simpa [quoted, List.map_map, Function.comp_def] using hmap.symm

/-! ## Commands -/

/-- A text that reads, before a blank, as the words. -/
def Reads (s : List Char) (words : List Word) : Prop :=
  run (.plain none) (s ++ [' ']) = some (words.map .word, .plain none)

instance (s : List Char) (words : List Word) : Decidable (Reads s words) := by
  unfold Reads; infer_instance

/-- A blank ends the word that has begun. -/
theorem run_blank (w : Word) : run (.plain (some w)) [' '] = some ([.word w], .plain none) := rfl

theorem reads_of_run {s : List Char} {w : Word}
    (h : run (.plain none) s = some ([], .plain (some w))) : Reads s [w] := by
  rw [Reads, run_append_of_run h, run_blank]
  rfl

theorem reads_singleQuote (s : List Char) : Reads (singleQuote s) [quoted s] := by
  have h := run_singleQuote s none
  exact reads_of_run (by simpa using h)

/-- Words behind words. -/
theorem Reads.append {s t : List Char} {words more : List Word} (hs : Reads s words)
    (ht : Reads t more) : Reads (s ++ ' ' :: t) (words ++ more) := by
  unfold Reads at *
  rw [show s ++ ' ' :: t ++ [' '] = (s ++ [' ']) ++ (t ++ [' ']) by simp, run_append_of_run hs,
    ht]
  simp

/-- A word of plain characters. -/
theorem reads_plain {c : Char} {s : List Char} (hc : isPlain c = true) (hhash : c ≠ '#')
    (h : ∀ d ∈ s, isPlain d = true) : Reads (c :: s) [unquoted (c :: s)] :=
  reads_of_run (run_plain_first hc hhash h)

/-- A blank ends at most one token, as the end of the text does. -/
theorem finish_of_step_blank {mode : Mode} {out : List Token}
    (h : step mode ' ' = some (out, .plain none)) : finish mode = some out := by
  cases mode with
  | plain w =>
      cases w with
      | none => simpa [step, plainStep, isBlank, close, finish] using h
      | some w => simpa [step, plainStep, isBlank, close, finish] using h
  | single w => simp [step] at h
  | double w => simp [step] at h
  | escape w => simp [step] at h
  | doubleEscape w => simp [step] at h
  | operator op =>
      have hlong : op ++ [' '] ∉ longOperators := by
        intro hmem
        have hlast : (op ++ [' ']).getLast? = some ' ' := by simp
        have hnone : ∀ o ∈ longOperators, o.getLast? ≠ some ' ' := by decide
        exact hnone _ hmem hlast
      simpa [step, hlong, plainStep, isBlank, close, finish] using h
  | comment => simp [step] at h

/-- Words with nothing behind them. -/
theorem Reads.tokens_eq {s : List Char} {words : List Word} (h : Reads s words) :
    tokens s = some (words.map .word) := by
  rw [Reads, run_append] at h
  obtain ⟨front, hfront, h⟩ := Option.bind_eq_some_iff.mp h
  obtain ⟨last, hlast, h⟩ := Option.map_eq_some_iff.mp h
  obtain ⟨next, hstep, hnext⟩ := Option.bind_eq_some_iff.mp hlast
  rw [Prod.mk.injEq] at h
  have hnext : (next.1, next.2) = last := by
    simpa [run] using hnext
  have hfinish : finish front.2 = some last.1 := by
    apply finish_of_step_blank
    rw [hstep, ← h.2, ← hnext]
  rw [tokens, tokensFrom, hfront, Option.bind_eq_bind, Option.bind_some, hfinish, ← h.1]
  rfl

/-- The tokens behind words. -/
theorem Reads.tokens_append {s : List Char} {words : List Word} (h : Reads s words)
    (t : List Char) : tokens (s ++ ' ' :: t) = (tokens t).map (words.map Token.word ++ ·) := by
  rw [Shell.tokens, List.append_cons, tokensFrom_append h]
  rfl

/-! ## Simple commands -/

/-- A character that no expansion of the shell looks at. -/
def isInert (c : Char × Bool) : Bool :=
  c.2 || Text.isWord c.1 || ['-', ':', ',', '.', '/'].contains c.1

/-- The text of a word that nothing is expanded in. -/
def Token.argument : Token → Option (List Char)
  | .word w => if w.all isInert then some (w.map Prod.fst) else none
  | _ => none

/-- The words of a text that is one command without expansions and redirections. -/
def simpleCommand (s : List Char) : Option (List (List Char)) := do
  let read ← tokens s
  read.mapM Token.argument

/-- A word of inert characters, or a quoted one. -/
def Inert (w : Word) : Prop := w.all isInert = true

theorem inert_quoted (s : List Char) : Inert (quoted s) := by
  unfold Inert quoted
  rw [List.all_map, List.all_eq_true]
  exact fun _ _ => rfl

theorem simpleCommand_of_reads {s : List Char} {words : List Word} (h : Reads s words)
    (hinert : ∀ w ∈ words, Inert w) :
    simpleCommand s = some (words.map fun w => w.map Prod.fst) := by
  unfold simpleCommand
  rw [h.tokens_eq, Option.bind_eq_bind, Option.bind_some]
  clear h
  induction words with
  | nil => rfl
  | cons w words ih =>
      have hw : (Token.word w).argument = some (w.map Prod.fst) :=
        if_pos (hinert w List.mem_cons_self)
      have hrest := ih fun v hv => hinert v (List.mem_cons_of_mem _ hv)
      rw [List.map_cons, List.mapM_cons, hw, hrest]
      rfl

/-- An operator anywhere makes it more than one command, or a redirection. -/
theorem simpleCommand_eq_none {s : List Char} {read : List Token} (h : tokens s = some read)
    {op : List Char} (hop : .operator op ∈ read) : simpleCommand s = none := by
  unfold simpleCommand
  rw [h, Option.bind_eq_bind, Option.bind_some]
  clear h
  induction read with
  | nil => cases hop
  | cons t read ih =>
      rw [List.mapM_cons]
      rcases List.mem_cons.mp hop with rfl | hrest
      · rfl
      · rw [ih hrest]
        cases t.argument <;> rfl

end AgentGather.Library.Shell
