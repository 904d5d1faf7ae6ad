import AgentGather.Library.Json

/-!
# Numbers from text

`Number(text)` of ECMAScript, as far as its value is an integer.  Decimal texts are not
rounded to a binary fraction: one that is not an integer counts as none.  And the doubles that
are whole numbers, with their rounding.
-/

namespace AgentGather.Library.Number

open Json

/-- Digits in a base, at least one. -/
def ofBase (base : Nat) (s : List Char) : Option Int :=
  if s.isEmpty then none
  else (s.foldlM fun acc c => do
    let d ← hexValue c
    if d < base then some (acc * base + d) else none) 0 |>.map Int.ofNat

/-- A decimal text after its sign. -/
def ofDecimal (s : List Char) : Option Int := do
  let whole := s.takeWhile Text.isDigit
  let rest := s.dropWhile Text.isDigit
  let fraction := match rest with
    | '.' :: t => t.takeWhile Text.isDigit
    | _ => []
  let rest := match rest with
    | '.' :: t => t.dropWhile Text.isDigit
    | t => t
  if whole.isEmpty && fraction.isEmpty then none
  else
    match scaled s false (Nat.ofDigitChars 10 (whole ++ fraction) 0)
        ((← readExponent rest) - fraction.length) with
    | .num n => some n
    | _ => none

/-- The integer `Number(text)` is, if it is one. -/
def toInteger (text : List Char) : Option Int :=
  match Text.trim text with
  | [] => some 0
  | '0' :: 'x' :: t => ofBase 16 t
  | '0' :: 'X' :: t => ofBase 16 t
  | '0' :: 'o' :: t => ofBase 8 t
  | '0' :: 'O' :: t => ofBase 8 t
  | '0' :: 'b' :: t => ofBase 2 t
  | '0' :: 'B' :: t => ofBase 2 t
  | '-' :: t => (ofDecimal t).map Neg.neg
  | '+' :: t => ofDecimal t
  | t => ofDecimal t

/-! ## Doubles -/

/-- A double that is a whole number, or infinity. -/
abbrev WholeDouble := Option Nat

/-- From here on, a number is infinity. -/
def doubleBound : Nat := 2 ^ 1024

/-- The double nearest to a whole number, of two the even one. -/
def toDouble (n : Nat) : WholeDouble :=
  let unit := 2 ^ (n.log2 - 52)
  let rest := n % unit
  let units :=
    if unit < 2 * rest ∨ (2 * rest = unit ∧ n / unit % 2 = 1) then n / unit + 1 else n / unit
  if units * unit < doubleBound then some (units * unit) else none

/-- `x + 1`. -/
def WholeDouble.succ (x : WholeDouble) : WholeDouble := x.bind fun n => toDouble (n + 1)

/-- What a property of type `long` makes of a number. -/
def toInt32 : WholeDouble → Int
  | none => 0
  | some n => Int.bmod n (2 ^ 32)

/-- Small numbers are doubles. -/
theorem toDouble_of_lt {n : Nat} (h : n < 2 ^ 53) : toDouble n = some n := by
  have hlog : n.log2 < 53 := by
    rcases Nat.eq_zero_or_pos n with rfl | hpos
    · decide
    · exact (Nat.log2_lt (Nat.ne_of_gt hpos)).mpr h
  have hunit : 2 ^ (n.log2 - 52) = 1 := by
    rw [Nat.sub_eq_zero_of_le (Nat.le_of_lt_succ hlog), pow_zero]
  have hbound (k : Nat) (hk : 53 ≤ k) : n < 2 ^ k :=
    lt_of_lt_of_le h (Nat.pow_le_pow_right Nat.two_pos hk)
  have hbig : n < doubleBound := by
    unfold doubleBound
    exact hbound 1024 (by omega)
  simp [toDouble, hunit, Nat.mod_one, hbig]

/-- A `long` keeps the numbers it has room for. -/
theorem toInt32_of_lt {n : Nat} (h : n < 2 ^ 31) : toInt32 (some n) = n := by
  have hkept : Int.bmod n (2 ^ 32) = n := Int.bmod_eq_of_le (by omega) (by omega)
  exact hkept

end AgentGather.Library.Number
