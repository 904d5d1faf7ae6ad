import AgentGather.Library.UrlHost

/-!
# Base URLs

The base URL of a room as the command line keeps it, and the URLs below it.
-/

namespace AgentGather.Protocol

open AgentGather.Library

/-- A text without one slash at its end. -/
def dropSlash (s : List Char) : List Char := if s.getLast? = some '/' then s.dropLast else s

/-- The serialized URL without one slash at its end; none where it throws. -/
def normalizeBaseUrl (H : HostParser) (baseUrl : List Char) : Option (List Char) :=
  (Url.parse H none baseUrl).map fun url => dropSlash url.href

/-- `new URL(path, base).toString()` below a base URL; none where it throws. -/
def roomUrl (H : HostParser) (baseUrl path : List Char) : Option (List Char) :=
  let normalizedPath := if path.head? = some '/' then path.tail else path
  (normalizeBaseUrl H baseUrl).bind fun base =>
    (Url.resolve H normalizedPath (base ++ ['/'])).map Url.href

theorem dropSlash_append {t : List Char} (ht : t ≠ []) (s : List Char) :
    dropSlash (s ++ t) = s ++ dropSlash t := by
  rw [dropSlash, dropSlash, List.getLast?_append_of_ne_nil s ht,
    List.dropLast_append_of_ne_nil ht]
  split
  · rfl
  · rfl

end AgentGather.Protocol
