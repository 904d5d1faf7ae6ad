import AgentGather.Library.RegexSearch
import AgentGather.Protocol.Types

/-!
# Slugs

Room ids and aliases are safe slugs: file names and mention targets without escaping.
-/

namespace AgentGather.Protocol

open AgentGather.Library

/-- `[a-z0-9-]`. -/
def isSlugChar (c : Char) : Bool := Text.isLower c || Text.isDigit c || c == '-'

/-- `/^[a-z0-9-]+$/`. -/
def slugPattern : Regex Char :=
  .seq .start (.seq (.plus (.char isSlugChar)) .stop)

def maxSlugLength : Nat := 64

/-- The pattern already excludes dots and slashes, so the source's three further checks
for `..`, `/` and `\` never decide anything. -/
def isSafeSlug (value : String) : Bool :=
  let s := value.toList
  0 < Text.utf16Length s && Text.utf16Length s ≤ maxSlugLength && slugPattern.test s

def assertSafeSlug (value label : String) : Except Failure Unit :=
  if isSafeSlug value then .ok ()
  else .error (.error (label ++ " must be lowercase [a-z0-9-], 1-" ++
    toString maxSlugLength ++ " chars"))

/-- A safe slug is made of the characters of slugs. -/
theorem isSlugChar_of_isSafeSlug {value : String} (h : isSafeSlug value = true) :
    ∀ c ∈ value.toList, isSlugChar c = true := by
  simp only [isSafeSlug, Bool.and_eq_true] at h
  obtain ⟨u, v, w, htext, hdenotes⟩ := Regex.test_iff.mp h.2
  obtain ⟨_, v, rfl, ⟨rfl, hu⟩, v', _, rfl, hv', rfl, hw⟩ := hdenotes
  obtain rfl : u = [] := List.reverse_eq_nil_iff.mp hu
  obtain rfl : w = [] := hw
  intro c hc
  refine (Regex.denotes_plus_char_iff.mp hv').2 c ?_
  simpa [htext] using hc

end AgentGather.Protocol
