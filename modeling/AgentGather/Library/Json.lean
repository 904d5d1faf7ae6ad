import AgentGather.Library.Text
import Mathlib.Algebra.Order.Ring.Int

/-!
# JSON texts

Values, the compact printer (`JSON.stringify`) and the parser (`JSON.parse`), both over
lists of characters.  A number is an integer, or the text of one that is not.  Strings
are sequences of Unicode scalar values: an escaped lone surrogate is read as the
replacement character.  `parse_print` is the round trip.
-/

namespace AgentGather.Library

inductive Json where
  | null
  | bool (value : Bool)
  | num (value : Int)
  | real (token : List Char)
  | str (value : String)
  | arr (items : List Json)
  | obj (fields : List (String × Json))

namespace Json

/-- The value of a member; the last of several members of one name counts. -/
def field? (name : String) : Json → Option Json
  | obj fields => (fields.reverse.find? fun f => f.1 == name).map Prod.snd
  | _ => none

/-! ## Printing -/

def hexDigit (n : Nat) : Char := Nat.digitChar n

/-- One character inside a string literal. -/
def quoteChar (c : Char) : List Char :=
  if c = '"' then ['\\', '"']
  else if c = '\\' then ['\\', '\\']
  else if c = '\x08' then ['\\', 'b']
  else if c = '\x0c' then ['\\', 'f']
  else if c = '\n' then ['\\', 'n']
  else if c = '\r' then ['\\', 'r']
  else if c = '\t' then ['\\', 't']
  else if c.toNat < 0x20 then
    ['\\', 'u', '0', '0', hexDigit (c.toNat / 16), hexDigit (c.toNat % 16)]
  else [c]

def printString (s : String) : List Char := '"' :: (s.toList.flatMap quoteChar ++ ['"'])

def printInt : Int → List Char
  | .ofNat n => Nat.toDigits 10 n
  | .negSucc n => '-' :: Nat.toDigits 10 (n + 1)

mutual

/-- `JSON.stringify(value)`. -/
def print : Json → List Char
  | null => ['n', 'u', 'l', 'l']
  | bool true => ['t', 'r', 'u', 'e']
  | bool false => ['f', 'a', 'l', 's', 'e']
  | num n => printInt n
  | real token => token
  | str s => printString s
  | arr [] => ['[', ']']
  | arr (x :: xs) => '[' :: (print x ++ printItems xs)
  | obj [] => ['{', '}']
  | obj ((k, v) :: fs) => '{' :: (printString k ++ ':' :: (print v ++ printFields fs))

/-- The items after the first, and the closing bracket. -/
def printItems : List Json → List Char
  | [] => [']']
  | x :: xs => ',' :: (print x ++ printItems xs)

/-- The members after the first, and the closing brace. -/
def printFields : List (String × Json) → List Char
  | [] => ['}']
  | (k, v) :: fs => ',' :: (printString k ++ ':' :: (print v ++ printFields fs))

end

/-! ## Parsing -/

def isSpace (c : Char) : Bool := c == ' ' || c == '\t' || c == '\n' || c == '\r'

def skipSpace (s : List Char) : List Char := s.dropWhile isSpace

/-- The characters numbers and the three literals are made of. -/
def isAtomChar (c : Char) : Bool :=
  Text.isDigit c || Text.isLower c || Text.isUpper c || c == '+' || c == '-' || c == '.'

def hexValue (c : Char) : Option Nat :=
  if Text.isDigit c then some (c.toNat - '0'.toNat)
  else if 'a'.toNat ≤ c.toNat ∧ c.toNat ≤ 'f'.toNat then some (c.toNat - 'a'.toNat + 10)
  else if 'A'.toNat ≤ c.toNat ∧ c.toNat ≤ 'F'.toNat then some (c.toNat - 'A'.toNat + 10)
  else none

def hex4 (a b c d : Char) : Option Nat := do
  let a ← hexValue a
  let b ← hexValue b
  let c ← hexValue c
  let d ← hexValue d
  return ((a * 16 + b) * 16 + c) * 16 + d

/-- The character a one-letter escape stands for. -/
def unescape (c : Char) : Option Nat :=
  if c = '"' ∨ c = '\\' ∨ c = '/' then some c.toNat
  else if c = 'b' then some 0x08
  else if c = 'f' then some 0x0c
  else if c = 'n' then some 0x0a
  else if c = 'r' then some 0x0d
  else if c = 't' then some 0x09
  else none

/-- The code units of a string literal whose opening quote has been read, and the text
after its closing quote. -/
def parseUnits : List Char → Option (List Nat × List Char)
  | [] => none
  | '"' :: s => some ([], s)
  | '\\' :: 'u' :: a :: b :: x :: y :: s => do
      let u ← hex4 a b x y
      let (us, rest) ← parseUnits s
      return (u :: us, rest)
  | '\\' :: e :: s => do
      let u ← unescape e
      let (us, rest) ← parseUnits s
      return (u :: us, rest)
  | c :: s =>
      if c = '\\' ∨ c.toNat < 0x20 then none
      else do
        let (us, rest) ← parseUnits s
        return (c.toNat :: us, rest)

/-- A code unit by itself: a lone surrogate is unreadable. -/
def unitChar (u : Nat) : Char :=
  if 0xd800 ≤ u ∧ u < 0xe000 then '\ufffd' else Char.ofNat u

/-- The characters of a sequence of code units, in which escapes may have left
surrogates. -/
def joinSurrogates : List Nat → List Char
  | [] => []
  | [u] => [unitChar u]
  | u :: v :: us =>
      if 0xd800 ≤ u ∧ u < 0xdc00 ∧ 0xdc00 ≤ v ∧ v < 0xe000 then
        Char.ofNat (0x10000 + (u - 0xd800) * 0x400 + (v - 0xdc00)) :: joinSurrogates us
      else unitChar u :: joinSurrogates (v :: us)

def parseString (s : List Char) : Option (String × List Char) := do
  let (units, rest) ← parseUnits s
  return (String.ofList (joinSurrogates units), rest)

/-- The fraction digits of a number token, and what follows them. -/
def readFraction : List Char → Option (List Char × List Char)
  | '.' :: t =>
      if (t.takeWhile Text.isDigit).isEmpty then none
      else some (t.takeWhile Text.isDigit, t.dropWhile Text.isDigit)
  | t => some ([], t)

/-- The exponent of a number token, which ends it. -/
def readExponent : List Char → Option Int
  | [] => some 0
  | e :: t =>
      if e = 'e' ∨ e = 'E' then
        let negative := t.head? = some '-'
        let digits := match t with
          | '-' :: t => t
          | '+' :: t => t
          | t => t
        if digits.isEmpty || !digits.all Text.isDigit then none
        else if negative then some (-(Nat.ofDigitChars 10 digits 0 : Int))
        else some (Nat.ofDigitChars 10 digits 0 : Int)
      else none

/-- The number `mantissa · 10 ^ exponent` written as `token`. -/
def scaled (token : List Char) (negative : Bool) (mantissa : Nat) (exponent : Int) : Json :=
  let signed (n : Nat) : Json := .num (if negative then -(n : Int) else n)
  if 0 ≤ exponent then signed (mantissa * 10 ^ exponent.toNat)
  else if mantissa % 10 ^ (-exponent).toNat = 0 then
    signed (mantissa / 10 ^ (-exponent).toNat)
  else .real token

/-- The digits of a number token, its sign taken off. -/
def readUnsigned (token : List Char) (negative : Bool) (t : List Char) : Option Json :=
  let whole := t.takeWhile Text.isDigit
  if whole.isEmpty || (whole.head? == some '0' && 1 < whole.length) then none
  else do
    let (fraction, t) ← readFraction (t.dropWhile Text.isDigit)
    let exponent ← readExponent t
    return scaled token negative (Nat.ofDigitChars 10 (whole ++ fraction) 0)
      (exponent - fraction.length)

def readNumber (token : List Char) : Option Json :=
  match token with
  | '-' :: t => readUnsigned token true t
  | t => readUnsigned token false t

/-- A literal or a number. -/
def readAtom (token : List Char) : Option Json :=
  if token = ['n', 'u', 'l', 'l'] then some null
  else if token = ['t', 'r', 'u', 'e'] then some (bool true)
  else if token = ['f', 'a', 'l', 's', 'e'] then some (bool false)
  else readNumber token

mutual

/-- A value, and the text after it. -/
def parseValue : Nat → List Char → Option (Json × List Char)
  | 0, _ => none
  | n + 1, s =>
      match skipSpace s with
      | [] => none
      | c :: s =>
          if c = '{' then
            match skipSpace s with
            | [] => none
            | d :: t =>
                if d = '}' then some (obj [], t)
                else do
                  let (fields, rest) ← parseMembers n (d :: t)
                  return (obj fields, rest)
          else if c = '[' then
            match skipSpace s with
            | [] => none
            | d :: t =>
                if d = ']' then some (arr [], t)
                else do
                  let (items, rest) ← parseItems n (d :: t)
                  return (arr items, rest)
          else if c = '"' then do
            let (value, rest) ← parseString s
            return (str value, rest)
          else do
            let value ← readAtom ((c :: s).takeWhile isAtomChar)
            return (value, (c :: s).dropWhile isAtomChar)

/-- The items of an array up to its closing bracket, at least one. -/
def parseItems : Nat → List Char → Option (List Json × List Char)
  | 0, _ => none
  | n + 1, s => do
      let (x, s) ← parseValue n s
      match skipSpace s with
      | [] => none
      | c :: s =>
          if c = ',' then do
            let (xs, rest) ← parseItems n s
            return (x :: xs, rest)
          else if c = ']' then some ([x], s)
          else none

/-- The members of an object up to its closing brace, at least one. -/
def parseMembers : Nat → List Char → Option (List (String × Json) × List Char)
  | 0, _ => none
  | n + 1, s =>
      match skipSpace s with
      | [] => none
      | q :: s =>
          if q = '"' then do
            let (k, s) ← parseString s
            match skipSpace s with
            | [] => none
            | c :: s =>
                if c = ':' then do
                  let (v, s) ← parseValue n s
                  match skipSpace s with
                  | [] => none
                  | d :: s =>
                      if d = ',' then do
                        let (fs, rest) ← parseMembers n s
                        return ((k, v) :: fs, rest)
                      else if d = '}' then some ([(k, v)], s)
                      else none
                else none
          else none

end

/-- `JSON.parse(text)`. -/
def parse (s : List Char) : Option Json :=
  match parseValue (2 * s.length + 2) s with
  | some (value, rest) => if (skipSpace rest).isEmpty then some value else none
  | none => none

/-! ## The round trip -/

/-- The text does not go on with a character of a number or a literal. -/
def Boundary (rest : List Char) : Prop := ∀ c, rest.head? = some c → isAtomChar c = false

theorem skipSpace_cons {c : Char} {s : List Char} (h : isSpace c = false) :
    skipSpace (c :: s) = c :: s := by
  simp [skipSpace, h]

theorem hex4_controls : ∀ n < 0x20,
    hex4 '0' '0' (hexDigit (n / 16)) (hexDigit (n % 16)) = some n := by
  decide

/-- One code unit, read from the front of a string literal's text. -/
theorem parseUnits_plain {c : Char} (h₁ : c ≠ '"') (h₂ : c ≠ '\\') (h₃ : ¬ c.toNat < 0x20)
    (t : List Char) :
    parseUnits (c :: t) = (parseUnits t).map fun r => (c.toNat :: r.1, r.2) := by
  rw [parseUnits.eq_5 _ _ (by simpa using h₁) (by simp [h₂]) (by simp [h₂]),
    if_neg (by simp [h₂, h₃])]
  cases parseUnits t <;> rfl

theorem parseUnits_escape {e : Char} {u : Nat} (he : e ≠ 'u') (hu : unescape e = some u)
    (t : List Char) :
    parseUnits ('\\' :: e :: t) = (parseUnits t).map fun r => (u :: r.1, r.2) := by
  rw [parseUnits.eq_4 _ _ (by simp [he]), hu]
  cases parseUnits t <;> rfl

theorem parseUnits_hex {a b x y : Char} {u : Nat} (hu : hex4 a b x y = some u)
    (t : List Char) :
    parseUnits ('\\' :: 'u' :: a :: b :: x :: y :: t) =
      (parseUnits t).map fun r => (u :: r.1, r.2) := by
  rw [parseUnits.eq_3, hu]
  cases parseUnits t <;> rfl

theorem parseUnits_quoteChar (c : Char) (t : List Char) :
    parseUnits (quoteChar c ++ t) =
      (parseUnits t).map fun r => (c.toNat :: r.1, r.2) := by
  unfold quoteChar
  split_ifs with h₁ h₂ h₃ h₄ h₅ h₆ h₇ h₈
  · subst c; exact parseUnits_escape (by decide) rfl t
  · subst c; exact parseUnits_escape (by decide) rfl t
  · subst c; exact parseUnits_escape (by decide) rfl t
  · subst c; exact parseUnits_escape (by decide) rfl t
  · subst c; exact parseUnits_escape (by decide) rfl t
  · subst c; exact parseUnits_escape (by decide) rfl t
  · subst c; exact parseUnits_escape (by decide) rfl t
  · exact parseUnits_hex (hex4_controls c.toNat h₈) t
  · exact parseUnits_plain h₁ h₂ h₈ t

theorem parseUnits_quoted (s rest : List Char) :
    parseUnits (s.flatMap quoteChar ++ '"' :: rest) = some (s.map Char.toNat, rest) := by
  induction s with
  | nil => rfl
  | cons c s ih =>
      rw [List.flatMap_cons, List.append_assoc, parseUnits_quoteChar, ih]
      rfl

theorem unitChar_toNat (c : Char) : unitChar c.toNat = c := by
  have hvalid : c.toNat < 0xd800 ∨ 0xdfff < c.toNat := by
    rcases c.valid with h | ⟨h, -⟩
    · exact .inl h
    · exact .inr h
  rw [unitChar, if_neg (by omega), Char.ofNat_toNat]

theorem joinSurrogates_toNat (s : List Char) : joinSurrogates (s.map Char.toNat) = s := by
  induction s with
  | nil => rfl
  | cons c s ih =>
      cases s with
      | nil => rw [List.map_cons, List.map_nil, joinSurrogates, unitChar_toNat]
      | cons d s =>
          have hvalid : c.toNat < 0xd800 ∨ 0xdfff < c.toNat := by
            rcases c.valid with h | ⟨h, -⟩
            · exact .inl h
            · exact .inr h
          rw [List.map_cons, List.map_cons, joinSurrogates, if_neg (by omega),
            unitChar_toNat, ← List.map_cons, ih]

theorem parseString_printString (s : String) (rest : List Char) :
    parseString (s.toList.flatMap quoteChar ++ '"' :: rest) = some (s, rest) := by
  simp only [parseString, parseUnits_quoted]
  simp [joinSurrogates_toNat]

theorem ofDigitChars_lt (s : List Char) (h : ∀ c ∈ s, Text.isDigit c = true) :
    Nat.ofDigitChars 10 s 0 < 10 ^ s.length := by
  induction s with
  | nil => simp
  | cons c s ih =>
      have hc := h c (List.mem_cons_self ..)
      have ih := ih fun d hd => h d (List.mem_cons_of_mem _ hd)
      simp only [Text.isDigit, Bool.and_eq_true, decide_eq_true_eq] at hc
      rw [Nat.ofDigitChars_cons, Nat.ofDigitChars_eq_ofDigitChars_zero, List.length_cons,
        Nat.pow_succ]
      have hd : 10 * 0 + (c.toNat - '0'.toNat) ≤ 9 := by
        have h9 : '9'.toNat = 57 := rfl
        have h0 : '0'.toNat = 48 := rfl
        omega
      calc 10 ^ s.length * (10 * 0 + (c.toNat - '0'.toNat)) + Nat.ofDigitChars 10 s 0
          ≤ 10 ^ s.length * 9 + Nat.ofDigitChars 10 s 0 :=
            Nat.add_le_add_right (Nat.mul_le_mul_left _ hd) _
        _ < 10 ^ s.length * 9 + 10 ^ s.length := Nat.add_lt_add_left ih _
        _ = 10 ^ s.length * 10 := by omega

theorem isDigit_toDigits (n : Nat) : ∀ c ∈ Nat.toDigits 10 n, Text.isDigit c = true := by
  intro c hc
  have h := Nat.isDigit_of_mem_toDigits (by decide) (by decide) hc
  exact h

/-- A printed natural number has no leading zero. -/
theorem toDigits_leading (n : Nat) :
    ¬ ((Nat.toDigits 10 n).head? = some '0' ∧ 1 < (Nat.toDigits 10 n).length) := by
  rintro ⟨hhead, hlen⟩
  cases hd : Nat.toDigits 10 n with
  | nil => simp [hd] at hlen
  | cons c s =>
      obtain rfl : c = '0' := by simpa [hd] using hhead
      have hs : ∀ d ∈ s, Text.isDigit d = true := fun d hmem =>
        isDigit_toDigits n d (by rw [hd]; exact List.mem_cons_of_mem _ hmem)
      have hval : Nat.ofDigitChars 10 s 0 = n := by
        have := Nat.ofDigitChars_ten_toDigits (n := n)
        rw [hd, Nat.ofDigitChars_cons] at this
        simpa using this
      have hpos : 0 < s.length := by
        rw [hd, List.length_cons] at hlen
        omega
      have hle := (Nat.length_toDigits_le_iff (n := n) (b := 10) (by decide) hpos).mpr
        (hval ▸ ofDigitChars_lt s hs)
      rw [hd, List.length_cons] at hle
      omega

theorem scaled_zero (token : List Char) (negative : Bool) (n : Nat) :
    scaled token negative n 0 = .num (if negative then -(n : Int) else n) := by
  rw [scaled, if_pos (le_refl _), Int.toNat_zero, pow_zero, Nat.mul_one]

theorem readUnsigned_toDigits (token : List Char) (negative : Bool) (n : Nat) :
    readUnsigned token negative (Nat.toDigits 10 n) =
      some (.num (if negative then -(n : Int) else n)) := by
  have hall := isDigit_toDigits n
  have htake : (Nat.toDigits 10 n).takeWhile Text.isDigit = Nat.toDigits 10 n :=
    List.takeWhile_eq_self_iff.mpr hall
  have hdrop : (Nat.toDigits 10 n).dropWhile Text.isDigit = [] :=
    List.dropWhile_eq_nil_iff.mpr hall
  have hlead := toDigits_leading n
  have hne : (Nat.toDigits 10 n).isEmpty = false := by
    simp [List.isEmpty_eq_false_iff, Nat.toDigits_ne_nil]
  have hzero : (((Nat.toDigits 10 n).head? == some '0') &&
      decide (1 < (Nat.toDigits 10 n).length)) = false := by
    simpa using hlead
  rw [readUnsigned, htake, hdrop]
  simp only [hne, hzero, Bool.or_self, Bool.false_eq_true, if_false]
  have hfraction : readFraction [] = some ([], []) := rfl
  have hexponent : readExponent [] = some 0 := rfl
  simp only [hfraction, hexponent, List.append_nil, Nat.ofDigitChars_ten_toDigits,
    Option.bind_eq_bind, Option.bind_some, List.length_nil, Nat.cast_zero, sub_zero,
    scaled_zero, Option.pure_def]

theorem readNumber_printInt (n : Int) : readNumber (printInt n) = some (.num n) := by
  cases n with
  | ofNat n =>
      have hminus : ∀ t, Nat.toDigits 10 n ≠ '-' :: t := by
        intro t ht
        have := isDigit_toDigits n '-' (by rw [ht]; exact List.mem_cons_self ..)
        exact absurd this (by decide)
      rw [printInt, readNumber.eq_2 _ hminus, readUnsigned_toDigits]
      rfl
  | negSucc n =>
      rw [printInt, readNumber, readUnsigned_toDigits]
      rfl

mutual

/-- Every number kept as text is the text of a number that is not an integer. -/
def Valid : Json → Prop
  | null => True
  | bool _ => True
  | num _ => True
  | str _ => True
  | real token => (∀ c ∈ token, isAtomChar c = true) ∧ readAtom token = some (real token)
  | arr xs => ValidItems xs
  | obj fs => ValidFields fs

def ValidItems : List Json → Prop
  | [] => True
  | x :: xs => x.Valid ∧ ValidItems xs

def ValidFields : List (String × Json) → Prop
  | [] => True
  | (_, v) :: fs => v.Valid ∧ ValidFields fs

end

theorem isAtomChar_of_isDigit {c : Char} (h : Text.isDigit c = true) : isAtomChar c = true := by
  simp [isAtomChar, h]

theorem isAtomChar_printInt (n : Int) : ∀ c ∈ printInt n, isAtomChar c = true := by
  intro c hc
  cases n with
  | ofNat n => exact isAtomChar_of_isDigit (isDigit_toDigits n c hc)
  | negSucc n =>
      rcases List.mem_cons.mp hc with rfl | hc
      · rfl
      · exact isAtomChar_of_isDigit (isDigit_toDigits _ c hc)

theorem printInt_ne_nil (n : Int) : printInt n ≠ [] := by
  cases n with
  | ofNat n => exact Nat.toDigits_ne_nil
  | negSucc n => exact List.cons_ne_nil _ _

/-- An atom is read up to the boundary. -/
theorem parseValue_atom {token rest : List Char} {j : Json} (n : Nat)
    (hall : token.all isAtomChar = true) (hne : token ≠ [])
    (hread : readAtom token = some j) (hb : Boundary rest) :
    parseValue (n + 1) (token ++ rest) = some (j, rest) := by
  have hatom := List.all_eq_true.mp hall
  have htake : (token ++ rest).takeWhile isAtomChar = token := by
    rw [List.takeWhile_append_of_pos hatom]
    cases rest with
    | nil => simp
    | cons c cs => simp [hb c rfl]
  have hdrop : (token ++ rest).dropWhile isAtomChar = rest := by
    rw [List.dropWhile_append_of_pos hatom]
    cases rest with
    | nil => rfl
    | cons c cs => simp [hb c rfl]
  cases token with
  | nil => exact absurd rfl hne
  | cons c cs =>
      have hc := hatom c (List.mem_cons_self ..)
      have hspace : isSpace c = false := by
        cases h : isSpace c with
        | false => rfl
        | true =>
            simp only [isSpace, Bool.or_eq_true, beq_iff_eq] at h
            rcases h with ((rfl | rfl) | rfl) | rfl <;> cases hc
      have hopen : c ≠ '{' ∧ c ≠ '[' ∧ c ≠ '"' := by
        refine ⟨?_, ?_, ?_⟩ <;> rintro rfl <;> cases hc
      rw [List.cons_append] at htake hdrop ⊢
      rw [parseValue, skipSpace_cons hspace]
      simp only [if_neg hopen.1, if_neg hopen.2.1, if_neg hopen.2.2, htake, hread, hdrop]
      rfl

/-- A printed value begins neither with a space nor with a closing bracket. -/
theorem print_head (j : Json) (h : j.Valid) :
    ∃ c t, print j = c :: t ∧ isSpace c = false ∧ c ≠ ']' ∧ c ≠ '}' := by
  have hatoms {token : List Char} (hne : token ≠ [])
      (hatom : ∀ c ∈ token, isAtomChar c = true) :
      ∃ c t, token = c :: t ∧ isSpace c = false ∧ c ≠ ']' ∧ c ≠ '}' := by
    obtain ⟨c, t, rfl⟩ := List.exists_cons_of_ne_nil hne
    have hc := hatom c (List.mem_cons_self ..)
    refine ⟨c, t, rfl, ?_, ?_, ?_⟩
    · cases h : isSpace c with
      | false => rfl
      | true =>
          simp only [isSpace, Bool.or_eq_true, beq_iff_eq] at h
          rcases h with ((rfl | rfl) | rfl) | rfl <;> cases hc
    · rintro rfl; cases hc
    · rintro rfl; cases hc
  match j, h with
  | .null, _ => exact ⟨_, _, rfl, by decide⟩
  | .bool true, _ => exact ⟨_, _, rfl, by decide⟩
  | .bool false, _ => exact ⟨_, _, rfl, by decide⟩
  | .num n, _ => exact hatoms (printInt_ne_nil n) (isAtomChar_printInt n)
  | .real token, h =>
      rw [Valid] at h
      refine hatoms ?_ h.1
      rintro rfl
      cases h.2
  | .str s, _ => exact ⟨_, _, rfl, by decide⟩
  | .arr [], _ => exact ⟨_, _, rfl, by decide⟩
  | .arr (x :: xs), _ => exact ⟨_, _, by rw [print], by decide⟩
  | .obj [], _ => exact ⟨_, _, rfl, by decide⟩
  | .obj ((k, v) :: fs), _ => exact ⟨_, _, by rw [print], by decide⟩

theorem boundary_printItems (xs : List Json) (rest : List Char) :
    Boundary (printItems xs ++ rest) := by
  cases xs with
  | nil => rintro _ ⟨⟩; rfl
  | cons x xs => rw [printItems]; rintro _ ⟨⟩; rfl

theorem boundary_printFields (fs : List (String × Json)) (rest : List Char) :
    Boundary (printFields fs ++ rest) := by
  rcases fs with _ | ⟨⟨k, v⟩, fs⟩
  · rintro _ ⟨⟩; rfl
  · rw [printFields]; rintro _ ⟨⟩; rfl

theorem readAtom_printInt (n : Int) : readAtom (printInt n) = some (.num n) := by
  have hchars : ∀ c ∈ printInt n, c = '-' ∨ Text.isDigit c = true := by
    intro c hc
    cases n with
    | ofNat n => exact .inr (isDigit_toDigits n c hc)
    | negSucc n =>
        rcases List.mem_cons.mp hc with rfl | hc
        · exact .inl rfl
        · exact .inr (isDigit_toDigits _ c hc)
  have hword (c : Char) (t : List Char) (h : ¬ (c = '-' ∨ Text.isDigit c = true)) :
      printInt n ≠ c :: t := by
    intro heq
    exact h (hchars c (by rw [heq]; exact List.mem_cons_self ..))
  rw [readAtom, if_neg (hword _ _ (by decide)), if_neg (hword _ _ (by decide)),
    if_neg (hword _ _ (by decide)), readNumber_printInt]

theorem parseValue_printString (n : Nat) (s : String) (rest : List Char) :
    parseValue (n + 1) (printString s ++ rest) = some (.str s, rest) := by
  rw [printString, List.cons_append, List.append_assoc, parseValue,
    skipSpace_cons (by decide)]
  simp only [List.cons_append, List.nil_append, parseString_printString]
  rfl

theorem length_printString_pos (s : String) : 2 ≤ (printString s).length := by
  simp [printString]

mutual

/-- The parser reads back what the printer wrote, whatever follows. -/
theorem parseValue_print : ∀ (j : Json), j.Valid → ∀ (n : Nat) (rest : List Char),
    Boundary rest → 2 * (print j).length ≤ n →
    parseValue n (print j ++ rest) = some (j, rest)
  | j, hj, n, rest, hb, hn => by
    obtain ⟨c, t, hprint, hhead⟩ := print_head j hj
    obtain ⟨m, rfl⟩ : ∃ m, n = m + 1 := by
      refine Nat.exists_eq_succ_of_ne_zero ?_
      rw [hprint, List.length_cons] at hn
      omega
    match j, hj with
    | .null, _ => exact parseValue_atom m (by decide) (by decide) rfl hb
    | .bool true, _ => exact parseValue_atom m (by decide) (by decide) rfl hb
    | .bool false, _ => exact parseValue_atom m (by decide) (by decide) rfl hb
    | .num i, _ =>
        exact parseValue_atom m (List.all_eq_true.mpr (isAtomChar_printInt i))
          (printInt_ne_nil i) (readAtom_printInt i) hb
    | .real token, hj =>
        rw [Valid] at hj
        refine parseValue_atom m (List.all_eq_true.mpr hj.1) ?_ hj.2 hb
        rintro rfl
        cases hj.2
    | .str s, _ => exact parseValue_printString m s rest
    | .arr [], _ => rfl
    | .arr (x :: xs), hj =>
        rw [Valid, ValidItems] at hj
        rw [print, List.length_cons, List.length_append] at hn
        have hitems := parseItems_print x hj.1 xs hj.2 m rest (by omega)
        obtain ⟨d, t', hx, hspace, hclose, -⟩ := print_head x hj.1
        rw [print, List.cons_append, List.append_assoc, parseValue,
          skipSpace_cons (by decide)]
        rw [hx, List.cons_append] at hitems ⊢
        simp only [skipSpace_cons hspace, if_neg hclose, hitems]
        rfl
    | .obj [], _ => rfl
    | .obj ((k, v) :: fs), hj =>
        rw [Valid, ValidFields] at hj
        rw [print, List.length_cons, List.length_append, List.length_cons,
          List.length_append] at hn
        have hfields := parseMembers_print k v hj.1 fs hj.2 m rest
          (by omega)
        rw [print, List.cons_append, parseValue, skipSpace_cons (by decide)]
        simp only [List.append_assoc, List.cons_append]
        rw [printString, List.cons_append] at hfields ⊢
        simp only [skipSpace_cons (show isSpace '"' = false by decide),
          if_neg (show ('"' : Char) ≠ '}' by decide), hfields]
        rfl
termination_by _ _ n => n

theorem parseItems_print : ∀ (x : Json), x.Valid → ∀ (xs : List Json), ValidItems xs →
    ∀ (n : Nat) (rest : List Char),
    2 * (print x).length + 2 * (printItems xs).length + 1 ≤ n →
    parseItems n (print x ++ (printItems xs ++ rest)) = some (x :: xs, rest)
  | x, hx, xs, hxs, n, rest, hn => by
    obtain ⟨m, rfl⟩ : ∃ m, n = m + 1 := Nat.exists_eq_succ_of_ne_zero (by omega)
    have hvalue := parseValue_print x hx m (printItems xs ++ rest)
      (boundary_printItems xs rest) (by omega)
    match xs, hxs with
    | [], _ =>
        rw [parseItems, hvalue]
        rfl
    | y :: ys, hxs =>
        rw [ValidItems] at hxs
        rw [printItems, List.length_cons, List.length_append] at hn
        have hitems := parseItems_print y hxs.1 ys hxs.2 m rest (by omega)
        rw [parseItems, hvalue]
        simp only [printItems, List.cons_append, List.append_assoc, Option.bind_eq_bind,
          Option.bind_some, skipSpace_cons (show isSpace ',' = false by decide), if_true,
          hitems]
        rfl
termination_by _ _ _ _ n => n

theorem parseMembers_print : ∀ (k : String) (v : Json), v.Valid →
    ∀ (fs : List (String × Json)), ValidFields fs → ∀ (n : Nat) (rest : List Char),
    2 * (print v).length + 2 * (printFields fs).length + 1 ≤ n →
    parseMembers n (printString k ++ ':' :: (print v ++ (printFields fs ++ rest))) =
      some ((k, v) :: fs, rest)
  | k, v, hv, fs, hfs, n, rest, hn => by
    obtain ⟨m, rfl⟩ : ∃ m, n = m + 1 := Nat.exists_eq_succ_of_ne_zero (by omega)
    have hvalue := parseValue_print v hv m (printFields fs ++ rest)
      (boundary_printFields fs rest) (by omega)
    have hkey := parseString_printString k (':' :: (print v ++ (printFields fs ++ rest)))
    match fs, hfs with
    | [], _ =>
        rw [printString, List.cons_append, List.append_assoc, parseMembers,
          skipSpace_cons (by decide)]
        simp only [List.cons_append, List.nil_append, if_true, hkey, Option.bind_eq_bind,
          Option.bind_some, skipSpace_cons (show isSpace ':' = false by decide), hvalue]
        rfl
    | (k', v') :: fs', hfs =>
        rw [ValidFields] at hfs
        rw [printFields, List.length_cons, List.length_append, List.length_cons,
          List.length_append] at hn
        have hfields := parseMembers_print k' v' hfs.1 fs' hfs.2 m rest (by omega)
        rw [printString, List.cons_append, List.append_assoc, parseMembers,
          skipSpace_cons (by decide)]
        simp only [List.cons_append, List.nil_append, if_true, hkey, Option.bind_eq_bind,
          Option.bind_some, skipSpace_cons (show isSpace ':' = false by decide), hvalue]
        simp only [printFields, List.cons_append, List.append_assoc,
          skipSpace_cons (show isSpace ',' = false by decide), if_true, hfields]
        rfl
termination_by _ _ _ _ _ n => n

end

/-- `JSON.parse(JSON.stringify(value))` gives the value back. -/
theorem parse_print (j : Json) (h : j.Valid) : parse (print j) = some j := by
  have hvalue := parseValue_print j h (2 * (print j).length + 2) []
    (fun _ h => nomatch h) (by omega)
  rw [List.append_nil] at hvalue
  rw [parse, hvalue]
  rfl

end Json

end AgentGather.Library
