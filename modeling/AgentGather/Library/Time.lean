import Mathlib.Tactic.Common

/-!
# Times as text

`new Date(ms).toISOString()` for times since 1970, by the proleptic Gregorian calendar.
-/

namespace AgentGather.Library.Time

/-- Year, month and day of a day counted from 1970-01-01.  Years are counted from March,
in eras of 400 years. -/
def civil (day : Nat) : Nat × Nat × Nat :=
  let shifted := day + 719468
  let era := shifted / 146097
  let dayOfEra := shifted % 146097
  let yearOfEra := (dayOfEra - dayOfEra / 1460 + dayOfEra / 36524 - dayOfEra / 146096) / 365
  let dayOfYear := dayOfEra - (365 * yearOfEra + yearOfEra / 4 - yearOfEra / 100)
  let month := (5 * dayOfYear + 2) / 153
  let year := yearOfEra + era * 400 + if month < 10 then 0 else 1
  (year, if month < 10 then month + 3 else month - 9, dayOfYear - (153 * month + 2) / 5 + 1)

/-- Decimal digits, with leading zeros up to the width. -/
def padded (width n : Nat) : List Char :=
  let digits := Nat.toDigits 10 n
  List.replicate (width - digits.length) '0' ++ digits

def paddedYear (year : Nat) : List Char :=
  if year ≤ 9999 then padded 4 year else '+' :: padded 6 year

def isoString (ms : Nat) : String :=
  let (year, month, day) := civil (ms / 86400000)
  let time := ms % 86400000
  String.ofList (paddedYear year ++ '-' :: padded 2 month ++ '-' :: padded 2 day ++
    'T' :: padded 2 (time / 3600000) ++ ':' :: padded 2 (time / 60000 % 60) ++
    ':' :: padded 2 (time / 1000 % 60) ++ '.' :: padded 3 (time % 1000) ++ ['Z'])

example : isoString 1709208000123 = "2024-02-29T12:00:00.123Z" := by decide

end AgentGather.Library.Time
