import AgentGather.Storage.TokenSecrecy

/-!
# The backup of a room in the browser

The texts that the page stores are redacted as those that the snapshots store.
-/

namespace AgentGather.Browser

open AgentGather.Library AgentGather.Storage

def snapshotMaxTextChars : Nat := 4000

/-- A text as the backup may store it. -/
def redactForBackup (value : Option Json) : String :=
  .ofList (Text.sliceTo snapshotMaxTextChars
    (linkTokenPattern.replaceAll (fun _ => "[redacted-token]".toList)
      (tokenParameterPattern.replaceAll (fun _ => "[redacted-token]".toList)
        (bearerPattern.replaceAll (fun _ => "[redacted-credential]".toList)
          (credentialUrlPattern.replaceAll (fun _ => "[redacted-url]".toList)
            (textOf value).toList)))))

theorem redactForBackup_eq (value : Option Json) :
    redactForBackup value = redactSnapshotText value := rfl

/-! ## Secrets -/

/-- Neither of the two redactions of a text tells which of two secrets of one length stands
behind the marker. -/
def HidesEverywhere (marker : String) (a b : List Char) : Prop :=
  Hides (fun text => redactSnapshotText (some (.str text))) marker a b ∧
    Hides (fun text => redactForBackup (some (.str text))) marker a b

theorem hidesEverywhere_iff {marker : String} {a b : List Char} :
    HidesEverywhere marker a b ↔ Hides redactText marker a b := by
  have hstored : (fun text => redactSnapshotText (some (.str text))) = redactText := by
    funext text
    simp [redactSnapshotText, textOf]
  have hbackup : (fun text => redactForBackup (some (.str text))) = redactText := by
    rw [← hstored]
    rfl
  rw [HidesEverywhere, hstored, hbackup, and_self_iff]

/-- The word `Bearer` is left standing by the stages before, or the text is full with it. -/
def BearerHidden (a : List Char) : Prop :=
  EndsWithBearer (redactBearers (redactUrls (a ++ "Bearer".toList))) ∨
    Storage.snapshotMaxTextChars ≤
      Text.utf16Length (redactCredentials (a ++ "Bearer".toList)) + 1

/-- An earlier stage takes `token=` in, or no word follows the secret, or none that makes a
difference. -/
def TokenHidden (a b : List Char) : Prop :=
  ¬ MarkerStands a ∨ (∀ c ∈ b, Text.isSpace c = true) ∨ StoredAlike (roomBehind a) b

/-- When a secret behind either marker has no influence on what is stored. -/
theorem hidesEverywhere_markers_iff (a b : List Char) (hb : StartsBlank b) :
    (HidesEverywhere "Bearer " a b ↔ BearerHidden a) ∧
      (HidesEverywhere "token=" a b ↔ TokenHidden a b) := by
  rw [hidesEverywhere_iff, hidesEverywhere_iff]
  exact ⟨hides_bearer_iff hb, hides_token_iff hb⟩

theorem hidesEverywhere_markers_last :
    HidesEverywhere "Bearer " "use ".toList " now".toList ∧
      HidesEverywhere "token=" "use ".toList [] := by
  have hblank : StartsBlank " now".toList := startsBlank_cons rfl _
  constructor
  · refine (hidesEverywhere_markers_iff "use ".toList " now".toList hblank).1.mpr (.inl ?_)
    exact ⟨"Bearer".toList, by decide, "use ".toList, by decide⟩
  · exact (hidesEverywhere_markers_iff "use ".toList [] startsBlank_nil).2.mpr
      (.inr (.inl fun _ h => nomatch h))

/-- A second `Bearer` takes the place of the secret, and a secret that ends with `bearer` takes
the next word in. -/
theorem redaction_tells :
    (¬ ∀ a b, StartsBlank b → HidesEverywhere "Bearer " a b) ∧
      ¬ ∀ a b, StartsBlank b → HidesEverywhere "token=" a b := by
  have hsecret {k : List Char} (hne : k ≠ []) (hall : k.all isLinkChar = true) : IsSecret k :=
    ⟨hne, List.all_eq_true.mp hall⟩
  constructor
  · intro h
    have hsame := (h "Bearer ".toList [] startsBlank_nil).1 ['a'] ['b']
      (hsecret (List.cons_ne_nil _ _) (by decide)) (hsecret (List.cons_ne_nil _ _) (by decide)) rfl
    exact absurd hsame (by decide)
  · intro h
    have hsame := (h [] " now".toList (startsBlank_cons rfl _)).1 "bearer".toList "aaaaaa".toList
      (hsecret (List.cons_ne_nil _ _) (by decide)) (hsecret (List.cons_ne_nil _ _) (by decide)) rfl
    exact absurd hsame (by decide)

end AgentGather.Browser
