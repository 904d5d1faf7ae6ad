import AgentGather.Platform.Registry

/-!
# Platform accounts

Who the owner of the rooms is.  An account is read of an untrusted value, or made of the
identity the operator has configured; either way it is read again as itself.
-/

namespace AgentGather.Platform

open AgentGather.Library AgentGather.Protocol

structure PlatformExternalIdentity where
  provider : String
  subject : String
deriving DecidableEq, Repr

structure PlatformAccount where
  userId : String
  displayName : String
  email : Option String
  externalIdentity : Option PlatformExternalIdentity
  createdAt : String
  updatedAt : String
deriving DecidableEq, Repr

structure DevOwnerIdentityConfig where
  userId : Option String
  displayName : Option String
  email : Option String
  externalIdentity : Option PlatformExternalIdentity

/-- The account that a session layer supplies is untrusted. -/
structure PlatformOwnerQuery where
  account : Option Json
  devOwner : Option DevOwnerIdentityConfig
  ownerUserId : Option String

def PlatformExternalIdentity.toJson (identity : PlatformExternalIdentity) : Json :=
  .obj [("provider", .str identity.provider), ("subject", .str identity.subject)]

def PlatformAccount.toJson (account : PlatformAccount) : Json :=
  .obj [("user_id", .str account.userId), ("display_name", .str account.displayName),
    ("email", (account.email.map Json.str).getD .null),
    ("external_identity",
      (account.externalIdentity.map PlatformExternalIdentity.toJson).getD .null),
    ("created_at", .str account.createdAt), ("updated_at", .str account.updatedAt)]

namespace Accounts

def defaultDevOwnerId : String := "local-owner"

def defaultDevOwnerDisplayName : String := "Local Owner"

def accountKeys : List String :=
  ["user_id", "display_name", "email", "external_identity", "created_at", "updated_at"]

def externalIdentityKeys : List String := ["provider", "subject"]

def maxDisplayNameLength : Nat := 100

def maxEmailLength : Nat := 320

/-! ## Texts -/

/-- A character of one kind, and at most some more of another. -/
def isSafeText (first rest : Char → Bool) (more : Nat) : List Char → Bool
  | [] => false
  | c :: s => first c && decide (s.length ≤ more) && s.all rest

def isAlphanumeric (c : Char) : Bool := Text.isLower c || c.isUpper || Text.isDigit c

def isLowerAlphanumeric (c : Char) : Bool := Text.isLower c || Text.isDigit c

/-- `/^[A-Za-z0-9][A-Za-z0-9._-]{0,127}$/` -/
def safeUserId (s : List Char) : Bool :=
  isSafeText isAlphanumeric (fun c => isAlphanumeric c || ['.', '_', '-'].contains c) 127 s

/-- `/^[a-z0-9][a-z0-9._-]{0,63}$/` -/
def safeProvider (s : List Char) : Bool :=
  isSafeText isLowerAlphanumeric
    (fun c => isLowerAlphanumeric c || ['.', '_', '-'].contains c) 63 s

/-- A letter or digit, and at most 199 of these, dots, underscores, colons, at signs, slashes and
hyphens. -/
def safeSubject (s : List Char) : Bool :=
  isSafeText isAlphanumeric
    (fun c => isAlphanumeric c || ['.', '_', ':', '@', '/', '-'].contains c) 199 s

/-- `/tgl_/` -/
def namesToken (s : List Char) : Bool := includes s "tgl_".toList

/-! ## Reading an account -/

/-- A text may be empty here. -/
def asString (value : Option Json) (field : String) : Except Failure String :=
  match value with
  | some (.str text) => .ok text
  | _ => invalid (field ++ " must be a string")

def asUserId (value : Option Json) : Except Failure String := do
  let userId ← asString value "user_id"
  if !safeUserId userId.toList || namesToken userId.toList then invalid "user_id is invalid"
  else return userId

def asDisplayName (value : Option Json) : Except Failure String := do
  let displayName := Text.trim (← asString value "display_name").toList
  if displayName.isEmpty || maxDisplayNameLength < Text.utf16Length displayName then
    invalid "display_name is invalid"
  else return String.ofList displayName

def asNullableEmail (value : Option Json) : Except Failure (Option String) :=
  match value with
  | some .null => .ok none
  | value => do
      let email := Text.trim (← asString value "email").toList
      if email.isEmpty || maxEmailLength < Text.utf16Length email || email.any Text.isSpace ||
          !email.contains '@' then
        invalid "email is invalid"
      else return some (String.ofList email)

def assertKnownKeys (record : Json) (known : List String) (context : String) :
    Except Failure Unit :=
  match record.keys.find? fun key => !known.contains key with
  | some key => invalid (context ++ " has unsupported field " ++ key)
  | none => .ok ()

def asNullableExternalIdentity (value : Option Json) :
    Except Failure (Option PlatformExternalIdentity) :=
  match value with
  | some .null => .ok none
  | none => invalid "external_identity must be an object"
  | some value => do
      let record ← asRecord value "external_identity"
      assertNoForbiddenKeys record "external_identity"
      assertKnownKeys record externalIdentityKeys "external_identity"
      let provider ← asString (record.field? "provider") "external_identity.provider"
      let subject ← asString (record.field? "subject") "external_identity.subject"
      if !safeProvider provider.toList then invalid "external_identity.provider is invalid"
      else if !safeSubject subject.toList || namesToken subject.toList then
        invalid "external_identity.subject is invalid"
      else return some ⟨provider, subject⟩

-- `isIso` are the texts that are the `toISOString` of the date they are read as.
variable (isIso : String → Bool)

def asTimestamp (value : Option Json) (field : String) : Except Failure String := do
  let timestamp ← asString value field
  if isIso timestamp then return timestamp else invalid (field ++ " is invalid")

def sanitizeAccount (input : Json) : Except Failure PlatformAccount := do
  let record ← asRecord input "account"
  assertNoForbiddenKeys record "account"
  assertKnownKeys record accountKeys "account"
  let createdAt ← asTimestamp isIso (record.field? "created_at") "account.created_at"
  let updatedAt ← asTimestamp isIso (record.field? "updated_at") "account.updated_at"
  let userId ← asUserId (record.field? "user_id")
  let displayName ← asDisplayName (record.field? "display_name")
  let email ← asNullableEmail (record.field? "email")
  let externalIdentity ← asNullableExternalIdentity (record.field? "external_identity")
  return { userId, displayName, email, externalIdentity, createdAt, updatedAt }

/-- `now` is the time as an ISO text. -/
def createDevOwnerAccount (now : String) (config : DevOwnerIdentityConfig) :
    Except Failure PlatformAccount := do
  let userId ← asUserId (some (.str (config.userId.getD defaultDevOwnerId)))
  let displayName ← asDisplayName
    (some (.str (config.displayName.getD defaultDevOwnerDisplayName)))
  let email ← asNullableEmail (some ((config.email.map Json.str).getD .null))
  let externalIdentity ← asNullableExternalIdentity
    (some ((config.externalIdentity.map PlatformExternalIdentity.toJson).getD .null))
  return { userId, displayName, email, externalIdentity, createdAt := now, updatedAt := now }

def resolveOwnerAccount (now : String) (query : PlatformOwnerQuery) :
    Except Failure (Option PlatformAccount) :=
  match query.account, query.devOwner, query.ownerUserId with
  | some account, _, _ => (sanitizeAccount isIso account).map some
  | none, some config, _ => (createDevOwnerAccount now config).map some
  | none, none, some ownerUserId =>
      (createDevOwnerAccount now ⟨some ownerUserId, some ownerUserId, none, none⟩).map some
  | none, none, none => .ok none

/-! ## Reading again -/

section Rereading

variable {isIso : String → Bool}

theorem asString_eq {value : Option Json} {field text : String}
    (h : asString value field = .ok text) : value = some (.str text) := by
  unfold asString at h
  split at h
  · rw [Except.ok.inj h]
  · cases h

theorem asUserId_rereads : Rereads asUserId fun userId => some (.str userId) := by
  apply rereads_of_text
  intro value userId h
  obtain ⟨text, hvalue, h⟩ := exists_ok_of_bind h
  split_ifs at h
  · cases h
  · obtain rfl := Except.ok.inj h
    exact asString_eq hvalue

theorem asTimestamp_rereads (field : String) :
    Rereads (asTimestamp isIso · field) fun timestamp => some (.str timestamp) := by
  apply rereads_of_text
  intro value timestamp h
  obtain ⟨text, hvalue, h⟩ := exists_ok_of_bind h
  split_ifs at h
  · obtain rfl := Except.ok.inj h
    exact asString_eq hvalue
  · cases h

/-- A name is trimmed once. -/
theorem asDisplayName_rereads :
    Rereads asDisplayName fun displayName => some (.str displayName) := by
  intro value displayName h
  obtain ⟨text, -, h⟩ := exists_ok_of_bind h
  dsimp only at h
  split_ifs at h with hbad
  · cases h
  · obtain rfl := Except.ok.inj h
    simp only [asDisplayName, asString, bind, Except.bind, String.toList_ofList, Text.trim_trim]
    rw [if_neg hbad]
    rfl

theorem asNullableEmail_rereads :
    Rereads asNullableEmail fun email => some ((email.map Json.str).getD .null) := by
  intro value email h
  unfold asNullableEmail at h
  split at h
  · obtain rfl := Except.ok.inj h
    rfl
  · obtain ⟨text, -, h⟩ := exists_ok_of_bind h
    dsimp only at h
    split_ifs at h with hbad
    · cases h
    · obtain rfl := Except.ok.inj h
      simp only [asNullableEmail, asString, bind, Except.bind, Option.map_some, Option.getD_some,
        String.toList_ofList, Text.trim_trim]
      rw [if_neg hbad]
      rfl

/-- An object with these members passes the checks of its keys. -/
theorem allowed_of_keys {record : Json} {known : List String} (hkeys : record.keys = known)
    (hallowed : known.find? isForbiddenKey = none) (context : String) :
    assertNoForbiddenKeys record context = .ok () ∧
      assertKnownKeys record known context = .ok () := by
  have hknown : record.keys.find? (fun key => !known.contains key) = none := by
    rw [hkeys, List.find?_eq_none]
    intro key hkey
    simpa using hkey
  constructor
  · rw [assertNoForbiddenKeys, hkeys, hallowed]
  · rw [assertKnownKeys, hknown]

theorem asNullableExternalIdentity_rereads : Rereads asNullableExternalIdentity fun identity =>
    some ((identity.map PlatformExternalIdentity.toJson).getD .null) := by
  intro value identity h
  unfold asNullableExternalIdentity at h
  split at h
  · obtain rfl := Except.ok.inj h
    rfl
  · cases h
  · obtain ⟨record, hrecord, h⟩ := exists_ok_of_bind h
    obtain ⟨⟨⟩, -, h⟩ := exists_ok_of_bind h
    obtain ⟨⟨⟩, -, h⟩ := exists_ok_of_bind h
    obtain ⟨provider, -, h⟩ := exists_ok_of_bind h
    obtain ⟨subject, -, h⟩ := exists_ok_of_bind h
    split_ifs at h with hprovider hsubject
    · cases h
    · cases h
    · obtain rfl := Except.ok.inj h
      let fields : List (String × Json) := [("provider", .str provider), ("subject", .str subject)]
      obtain ⟨hallowed, hknown⟩ := allowed_of_keys
        (show (Json.obj fields).keys = externalIdentityKeys from rfl) (by decide +kernel)
        "external_identity"
      have hrecord' : asRecord (.obj fields) "external_identity" = .ok (.obj fields) := rfl
      have hprovider' : (Json.obj fields).field? "provider" = some (.str provider) := rfl
      have hsubject' : (Json.obj fields).field? "subject" = some (.str subject) := rfl
      change asNullableExternalIdentity (some (.obj fields)) = _
      simp only [asNullableExternalIdentity, hallowed, hknown, hrecord', hprovider', hsubject',
        asString, bind, Except.bind]
      rw [if_neg hprovider, if_neg hsubject]
      rfl

/-- What reading an account leaves. -/
structure ReadAccount (isIso : String → Bool) (account : PlatformAccount) : Prop where
  createdAt : isIso account.createdAt = true
  updatedAt : isIso account.updatedAt = true
  userId : asUserId (some (.str account.userId)) = .ok account.userId
  displayName : asDisplayName (some (.str account.displayName)) = .ok account.displayName
  email : asNullableEmail (some ((account.email.map Json.str).getD .null)) = .ok account.email
  externalIdentity : asNullableExternalIdentity (some ((account.externalIdentity.map
    PlatformExternalIdentity.toJson).getD .null)) = .ok account.externalIdentity

theorem isIso_of_asTimestamp {value : Option Json} {field timestamp : String}
    (h : asTimestamp isIso value field = .ok timestamp) : isIso timestamp = true := by
  obtain ⟨text, -, h⟩ := exists_ok_of_bind h
  split_ifs at h with hiso
  · rwa [← Except.ok.inj h]
  · cases h

theorem readAccount_of_sanitize {input : Json} {account : PlatformAccount}
    (h : sanitizeAccount isIso input = .ok account) : ReadAccount isIso account := by
  obtain ⟨record, -, h⟩ := exists_ok_of_bind h
  obtain ⟨⟨⟩, -, h⟩ := exists_ok_of_bind h
  obtain ⟨⟨⟩, -, h⟩ := exists_ok_of_bind h
  obtain ⟨createdAt, hcreatedAt, h⟩ := exists_ok_of_bind h
  obtain ⟨updatedAt, hupdatedAt, h⟩ := exists_ok_of_bind h
  obtain ⟨userId, huserId, h⟩ := exists_ok_of_bind h
  obtain ⟨displayName, hdisplayName, h⟩ := exists_ok_of_bind h
  obtain ⟨email, hemail, h⟩ := exists_ok_of_bind h
  obtain ⟨externalIdentity, hidentity, h⟩ := exists_ok_of_bind h
  obtain rfl := Except.ok.inj h
  exact ⟨isIso_of_asTimestamp hcreatedAt, isIso_of_asTimestamp hupdatedAt,
    asUserId_rereads _ _ huserId, asDisplayName_rereads _ _ hdisplayName,
    asNullableEmail_rereads _ _ hemail, asNullableExternalIdentity_rereads _ _ hidentity⟩

theorem readAccount_of_dev {now : String} (hnow : isIso now = true)
    {config : DevOwnerIdentityConfig} {account : PlatformAccount}
    (h : createDevOwnerAccount now config = .ok account) : ReadAccount isIso account := by
  obtain ⟨userId, huserId, h⟩ := exists_ok_of_bind h
  obtain ⟨displayName, hdisplayName, h⟩ := exists_ok_of_bind h
  obtain ⟨email, hemail, h⟩ := exists_ok_of_bind h
  obtain ⟨externalIdentity, hidentity, h⟩ := exists_ok_of_bind h
  obtain rfl := Except.ok.inj h
  exact ⟨hnow, hnow, asUserId_rereads _ _ huserId, asDisplayName_rereads _ _ hdisplayName,
    asNullableEmail_rereads _ _ hemail, asNullableExternalIdentity_rereads _ _ hidentity⟩

theorem sanitizeAccount_of_read {account : PlatformAccount} (h : ReadAccount isIso account) :
    sanitizeAccount isIso account.toJson = .ok account := by
  obtain ⟨hallowed, hknown⟩ := allowed_of_keys
    (show account.toJson.keys = accountKeys from rfl) (by decide +kernel) "account"
  have hrecord : asRecord account.toJson "account" = .ok account.toJson := rfl
  have hcreatedAt : asTimestamp isIso (account.toJson.field? "created_at")
      "account.created_at" = .ok account.createdAt := if_pos h.createdAt
  have hupdatedAt : asTimestamp isIso (account.toJson.field? "updated_at")
      "account.updated_at" = .ok account.updatedAt := if_pos h.updatedAt
  have huserId : asUserId (account.toJson.field? "user_id") = .ok account.userId := h.userId
  have hdisplayName : asDisplayName (account.toJson.field? "display_name") =
      .ok account.displayName := h.displayName
  have hemail : asNullableEmail (account.toJson.field? "email") = .ok account.email := h.email
  have hidentity : asNullableExternalIdentity (account.toJson.field? "external_identity") =
      .ok account.externalIdentity := h.externalIdentity
  simp only [sanitizeAccount, hrecord, hallowed, hknown, hcreatedAt, hupdatedAt, huserId,
    hdisplayName, hemail, hidentity, bind, Except.bind]
  rfl

theorem readAccount_of_resolve {now : String} (hnow : isIso now = true)
    {query : PlatformOwnerQuery} {account : PlatformAccount}
    (h : resolveOwnerAccount isIso now query = .ok (some account)) :
    ReadAccount isIso account := by
  have hof {made : Except Failure PlatformAccount}
      (hmade : made.map some = .ok (some account)) : made = .ok account := by
    cases made with
    | error e => cases hmade
    | ok other => rw [Option.some.inj (Except.ok.inj hmade)]
  unfold resolveOwnerAccount at h
  split at h
  · exact readAccount_of_sanitize (hof h)
  · exact readAccount_of_dev hnow (hof h)
  · exact readAccount_of_dev hnow (hof h)
  · cases h

end Rereading

end Accounts

end AgentGather.Platform
