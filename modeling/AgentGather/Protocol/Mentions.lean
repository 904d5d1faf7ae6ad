import AgentGather.Protocol.Validation

/-!
# Mentions

The scan of a message for `@alias`, with code masked first.
-/

namespace AgentGather.Protocol

open AgentGather.Library

/-- `/(^|[^\w-])@([a-z0-9-]+)/g`. -/
def mentionPattern : Regex Char :=
  .seq (.group 1 (.alt .start (.char fun c => !(Text.isWord c || c == '-'))))
    (.seq (.char (· == '@')) (.group 2 (.plus (.char isSlugChar))))

/-- Blank out a line, keeping its length. -/
def blank (line : List Char) : List Char := List.replicate (Text.utf16Length line) ' '

/-- Blank out what stands between backticks, and the backticks; `inInline` tells whether
the text starts behind an odd number of them. -/
def maskInline (inInline : Bool) : List Char → List Char
  | [] => []
  | c :: cs =>
      if c = '`' then ' ' :: maskInline (!inInline) cs
      else if inInline then blank [c] ++ maskInline inInline cs
      else c :: maskInline inInline cs

def maskInlineCode (line : List Char) : List Char := maskInline false line

def isFenceLine (line : List Char) : Bool :=
  ['`', '`', '`'].isPrefixOf (Text.trimStart line)

/-- Mask the lines of a text; `inFence` tells whether a fence is open. -/
def maskLines (inFence : Bool) : List (List Char) → List (List Char)
  | [] => []
  | line :: lines =>
      if isFenceLine line then blank line :: maskLines (!inFence) lines
      else if inFence then blank line :: maskLines inFence lines
      else maskInlineCode line :: maskLines inFence lines

def maskCode (text : List Char) : List Char :=
  ['\n'].intercalate (maskLines false (text.splitOn '\n'))

/-- Aliases on the roster and other names, each once, in order of first appearance. -/
structure MentionAnalysis where
  mentions : List String
  unknown : List String
deriving DecidableEq, Repr

/-- Append a name unless it was seen. -/
def addOnce (name : String) (names : List String) : List String :=
  if names.contains name then names else names ++ [name]

def analyzeMentions (text : String) (participantAliases : List String) : MentionAnalysis :=
  let roster := participantAliases.filter isSafeSlug
  let found := (mentionPattern.matchAll (maskCode text.toList)).filterMap fun m =>
    (m.group? 2).map String.ofList
  found.foldl (fun acc name =>
    if roster.contains name then { acc with mentions := addOnce name acc.mentions }
    else { acc with unknown := addOnce name acc.unknown }) ⟨[], []⟩

def parseMentions (text : String) (participantAliases : List String) : List String :=
  (analyzeMentions text participantAliases).mentions

end AgentGather.Protocol
