import AgentGather.Library.JsonIndent
import AgentGather.Library.Regex

/-!
# Redaction

What is stripped from every text that a snapshot stores: whatever looks like a credential.
-/

namespace AgentGather.Storage

open AgentGather.Library

/-- Per-field cap of a stored text. -/
def snapshotMaxTextChars : Nat := 4000

section Patterns

/-- A text in either case; `text` is in lower case. -/
def litIgnoreCase (text : String) : Regex Char :=
  text.toList.foldr (fun c r => .seq (.char fun d => d.toLower == c) r) .empty

def notSpace : Regex Char := .char fun c => !Text.isSpace c

/-- `https?:\/\/(?=\S*(?:token=|snapshot=|tgl_|\/card))\S+`, in either case. -/
def credentialUrlPattern : Regex Char :=
  .seq (litIgnoreCase "http") (.seq (Regex.opt (litIgnoreCase "s")) (.seq (litIgnoreCase "://")
    (.seq
      (.ahead true (.seq (.star true notSpace)
        (.alt (litIgnoreCase "token=") (.alt (litIgnoreCase "snapshot=")
          (.alt (litIgnoreCase "tgl_") (litIgnoreCase "/card"))))))
      (Regex.plus notSpace))))

/-- `Bearer\s+\S+`, in either case. -/
def bearerPattern : Regex Char :=
  .seq (litIgnoreCase "bearer") (.seq (Regex.plus (.char Text.isSpace)) (Regex.plus notSpace))

/-- What the value of a token parameter is made of: no white space, ampersand, number sign
or quote. -/
def isParameterChar (c : Char) : Bool :=
  !(Text.isSpace c || c == '&' || c == '#' || c == '"' || c.toNat == 0x27)

/-- `[#?&]?(?:token|snapshot)=[^\s&#"']+`, in either case. -/
def tokenParameterPattern : Regex Char :=
  .seq (Regex.opt (.char fun c => c == '#' || c == '?' || c == '&'))
    (.seq (.alt (litIgnoreCase "token") (litIgnoreCase "snapshot"))
      (.seq (.char (· == '=')) (Regex.plus (.char isParameterChar))))

/-- `tgl_[A-Za-z0-9_-]+`. -/
def linkTokenPattern : Regex Char :=
  .seq (Regex.lit "tgl_".toList) (Regex.plus (.char fun c => Text.isWord c || c == '-'))

end Patterns

/-- The replacements, before the text is cut. -/
def redactCredentials (text : List Char) : List Char :=
  linkTokenPattern.replaceAll (fun _ => "[redacted-token]".toList)
    (tokenParameterPattern.replaceAll (fun _ => "[redacted-token]".toList)
      (bearerPattern.replaceAll (fun _ => "[redacted-credential]".toList)
        (credentialUrlPattern.replaceAll (fun _ => "[redacted-url]".toList) text)))

/-- A text as it may be stored. -/
def redactText (text : String) : String :=
  .ofList (Text.sliceTo snapshotMaxTextChars (redactCredentials text.toList))

/-- `String(value ?? "")`. -/
def textOf : Option Json → String
  | none => ""
  | some .null => ""
  | some value => .ofList value.toText

def redactSnapshotText (value : Option Json) : String := redactText (textOf value)

example : redactText "go https://h/x?token=a1 or Bearer abc, tgl_9" =
    "go [redacted-url] or [redacted-credential] [redacted-token]" := by decide

end AgentGather.Storage
