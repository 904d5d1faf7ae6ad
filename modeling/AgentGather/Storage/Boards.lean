import AgentGather.Library.JsonLines
import AgentGather.Library.OrderedMap
import AgentGather.Library.RelyGuarantee
import AgentGather.Library.Time
import AgentGather.Protocol.Forum
import AgentGather.Storage.Files

/-!
# The boardroom and the forum of a room

`boardroom.json`, and for each forum post its directory with `post.json` and
`comments.jsonl`.  The boardroom is always replaced as a whole; a post is created in place and
comments are appended in place, so these files are kept as bytes and written byte by byte.
`now` is the date a call is given, or the one it takes when it is made.
-/

namespace AgentGather.Storage.Boards

open AgentGather.Library AgentGather.Protocol

/-- The channel and the id of a post. -/
abbrev PostKey := String × String

/-- `post.json` and `comments.jsonl` of one post. -/
structure PostFiles where
  post : Option (List Nat)
  comments : Option (List Nat)
deriving DecidableEq, Repr

/-- `forum` are the directories `forum/<channelId>/<postId>`. -/
structure BoardFiles where
  room : Stored RoomState
  boardroom : Stored Boardroom
  forum : OrderedMap PostKey PostFiles

/-- `lock` is the caller that holds the writer lock. -/
structure BoardWorld where
  files : BoardFiles
  lock : Option Nat

namespace BoardFiles

variable (key : PostKey) (files : BoardFiles)

def directory : Option PostFiles := files.forum.get? key

def postFile : Option (List Nat) := (files.directory key).bind PostFiles.post

def commentsFile : Option (List Nat) := (files.directory key).bind PostFiles.comments

/-- The directories under `forum/<channelId>`; one that does not exist has none. -/
def entries (channelId : String) : List String :=
  (files.forum.keys.filter fun k => k.1 == channelId).map Prod.snd

/-- `mkdir` with `recursive`. -/
def makeDirectory : BoardFiles :=
  if (files.directory key).isSome then files
  else { files with forum := files.forum.set key ⟨none, none⟩ }

/-- A change in a post's directory. -/
def modify (f : PostFiles → PostFiles) : BoardFiles :=
  match files.directory key with
  | some d => { files with forum := files.forum.set key (f d) }
  | none => files

end BoardFiles

def PostFiles.setPost (bytes : List Nat) (d : PostFiles) : PostFiles :=
  { d with post := some bytes }

def PostFiles.addToPost (byte : Nat) (d : PostFiles) : PostFiles :=
  { d with post := some (d.post.getD [] ++ [byte]) }

def PostFiles.addToComments (byte : Nat) (d : PostFiles) : PostFiles :=
  { d with comments := some (d.comments.getD [] ++ [byte]) }

namespace BoardFiles

variable {key other : PostKey} {files : BoardFiles} {f g : PostFiles → PostFiles}

theorem makeDirectory_of_isSome (h : (files.directory key).isSome) :
    files.makeDirectory key = files := if_pos h

theorem directory_makeDirectory_self (key : PostKey) (files : BoardFiles) :
    (files.makeDirectory key).directory key = some ((files.directory key).getD ⟨none, none⟩) := by
  unfold makeDirectory
  split
  · rename_i h
    obtain ⟨d, hd⟩ := Option.isSome_iff_exists.mp h
    rw [hd, Option.getD_some]
  · rename_i h
    rw [Option.not_isSome_iff_eq_none.mp h]
    exact OrderedMap.get?_set_self files.forum key ⟨none, none⟩

theorem directory_makeDirectory_ne (h : other ≠ key) :
    (files.makeDirectory key).directory other = files.directory other := by
  unfold makeDirectory
  split
  · rfl
  · exact OrderedMap.get?_set_ne files.forum _ h

theorem makeDirectory_makeDirectory (key : PostKey) (files : BoardFiles) :
    (files.makeDirectory key).makeDirectory key = files.makeDirectory key := by
  apply makeDirectory_of_isSome
  rw [directory_makeDirectory_self]
  rfl

/-- A new directory has no files. -/
@[simp] theorem postFile_makeDirectory (key other : PostKey) (files : BoardFiles) :
    (files.makeDirectory key).postFile other = files.postFile other := by
  by_cases h : other = key
  · subst h
    rw [postFile, postFile, directory_makeDirectory_self]
    cases files.directory other with
    | none => rfl
    | some d => rfl
  · rw [postFile, directory_makeDirectory_ne h, postFile]

@[simp] theorem commentsFile_makeDirectory (key other : PostKey) (files : BoardFiles) :
    (files.makeDirectory key).commentsFile other = files.commentsFile other := by
  by_cases h : other = key
  · subst h
    rw [commentsFile, commentsFile, directory_makeDirectory_self]
    cases files.directory other with
    | none => rfl
    | some d => rfl
  · rw [commentsFile, directory_makeDirectory_ne h, commentsFile]

@[simp] theorem room_makeDirectory (key : PostKey) (files : BoardFiles) :
    (files.makeDirectory key).room = files.room := by
  unfold makeDirectory
  split
  · rfl
  · rfl

@[simp] theorem boardroom_makeDirectory (key : PostKey) (files : BoardFiles) :
    (files.makeDirectory key).boardroom = files.boardroom := by
  unfold makeDirectory
  split
  · rfl
  · rfl

theorem directory_modify_self (key : PostKey) (files : BoardFiles) (f : PostFiles → PostFiles) :
    (files.modify key f).directory key = (files.directory key).map f := by
  unfold modify
  cases h : files.directory key with
  | none => exact h
  | some d => exact OrderedMap.get?_set_self files.forum key (f d)

theorem directory_modify_ne (h : other ≠ key) :
    (files.modify key f).directory other = files.directory other := by
  unfold modify
  cases files.directory key with
  | none => rfl
  | some d => exact OrderedMap.get?_set_ne files.forum _ h

@[simp] theorem room_modify (key : PostKey) (files : BoardFiles) (f : PostFiles → PostFiles) :
    (files.modify key f).room = files.room := by
  unfold modify
  cases files.directory key with
  | none => rfl
  | some d => rfl

@[simp] theorem boardroom_modify (key : PostKey) (files : BoardFiles)
    (f : PostFiles → PostFiles) : (files.modify key f).boardroom = files.boardroom := by
  unfold modify
  cases files.directory key with
  | none => rfl
  | some d => rfl

theorem keys_modify (key : PostKey) (files : BoardFiles) (f : PostFiles → PostFiles) :
    (files.modify key f).forum.keys = files.forum.keys := by
  unfold modify
  cases h : files.directory key with
  | none => rfl
  | some d => exact OrderedMap.keys_set_of_mem (OrderedMap.mem_keys_of_get? h) (f d)

/-- Two changes of one directory are one. -/
theorem modify_modify (key : PostKey) (files : BoardFiles) (f g : PostFiles → PostFiles) :
    (files.modify key f).modify key g = files.modify key (g ∘ f) := by
  have hself := directory_modify_self key files f
  rw [modify, hself]
  cases h : files.directory key with
  | none => simp only [modify, h, Option.map_none]
  | some d =>
      simp only [modify, h, Option.map_some, OrderedMap.set_set]
      rfl

end BoardFiles

/-- One step on these files, with the data it wrote. -/
inductive BoardStep where
  | acquired
  | released
  | readRoom
  | readBoardroom
  | wroteBoardroom (boardroom : Boardroom)
  | readDirectory (channelId : String)
  | madeDirectory (key : PostKey)
  | chmodDirectory (key : PostKey)
  | opened (key : PostKey)
  | existed (key : PostKey)
  | wroteByte (key : PostKey)
  | synced (post : ForumPost)
  | closed (key : PostKey)
  | chmod (key : PostKey)
  | readPost (key : PostKey)
  | wrotePost (post : ForumPost)
  | readComments (key : PostKey)
  | appended (comment : ForumComment)
deriving DecidableEq, Repr

/-- What may fail: every step on a file, and taking the lock, also by running out of time. -/
def BoardStep.mayFail : BoardStep → Failure → Bool
  | .acquired, .error _ => true
  | _, .os => true
  | _, _ => false

abbrev BoardProg := Prog BoardWorld BoardStep Failure

/-- Callers with their processes; any step on a file may fail, any process may crash. -/
def boardSystem (process : Nat → Nat) : System BoardWorld BoardStep Failure where
  process := process
  faults := BoardStep.mayFail
  crash p := some fun w =>
    { w with lock := if w.lock.any (fun t => process t == p) then none else w.lock }

/-! ## Steps -/

def acquireWriterLock (t : Nat) : BoardProg Unit :=
  .action (fun _ => .acquired) (fun w => w.lock.isNone) (fun w => { w with lock := some t })
    fun _ => .ok ()

def releaseWriterLock : BoardProg Unit :=
  .update (fun _ => .released) fun w => { w with lock := none }

/-- Run `body` as caller `t` of the writer lock. -/
def withWriterLock {α : Type} (t : Nat) (body : BoardProg α) : BoardProg α :=
  (acquireWriterLock t).bind fun _ => body.finallyDo releaseWriterLock

/-- A step that changes the files. -/
def change (label : BoardStep) (effect : BoardFiles → BoardFiles) : BoardProg Unit :=
  .update (fun _ => label) fun w => { w with files := effect w.files }

/-- A step that looks at the files. -/
def look {α : Type} (label : BoardStep) (result : BoardFiles → Except Failure α) : BoardProg α :=
  .query (fun _ => label) fun w => result w.files

def ensureSecureDir (key : PostKey) : BoardProg Unit := do
  change (.madeDirectory key) fun f => f.makeDirectory key
  change (.chmodDirectory key) id

/-- The bytes of a `writeFile`, one after the other. -/
def writeBytes (key : PostKey) (add : Nat → PostFiles → PostFiles) :
    List Nat → BoardProg Unit
  | [] => .ret ()
  | byte :: bytes => do
      change (.wroteByte key) fun f => f.modify key (add byte)
      writeBytes key add bytes

/-- `open(file, "wx")`. -/
def openNew (key : PostKey) : BoardProg Unit :=
  .action
    (fun w => if (w.files.postFile key).isSome then .existed key else .opened key)
    (fun _ => true)
    (fun w => if (w.files.postFile key).isSome then w
      else { w with files := w.files.modify key (PostFiles.setPost []) })
    fun w => if (w.files.postFile key).isSome then .error .fileExists else .ok ()

/-- The handle is closed whether or not the content was written and synced. -/
def createSecureFile (key : PostKey) (post : ForumPost) : BoardProg Unit := do
  ensureSecureDir key
  openNew key
  let write : BoardProg Unit := do
    writeBytes key PostFiles.addToPost (JsonFile.bytes post.toJson)
    change (.synced post) id
  write.finallyDo (change (.closed key) id)
  change (.chmod key) id

def writeJsonNew (key : PostKey) (post : ForumPost) : BoardProg Unit := do
  ensureSecureDir key
  createSecureFile key post

/-- The file is replaced atomically. -/
def writeJson (key : PostKey) (post : ForumPost) : BoardProg Unit := do
  ensureSecureDir key
  change (.wrotePost post) fun f =>
    f.modify key (PostFiles.setPost (JsonFile.bytes post.toJson))

def appendSecureFile (key : PostKey) (comment : ForumComment) : BoardProg Unit := do
  ensureSecureDir key
  writeBytes key PostFiles.addToComments (JsonLines.bytes [comment.toJson])
  change (.appended comment) id
  change (.chmod key) id

/-! ## The boardroom store -/

def BoardFiles.readBoardroom (files : BoardFiles) : Except Failure Boardroom :=
  files.boardroom.read.map fun persisted => { persisted with legacy := false }

def BoardFiles.projectRoom (files : BoardFiles) : Except Failure Boardroom :=
  files.room.read.map fun state =>
    deriveDefaultBoardroom state.id state.createdAt state.updatedAt none

def readBoardroomUnlocked : BoardProg Boardroom :=
  (look .readBoardroom BoardFiles.readBoardroom).catchErr fun e =>
    if e = .notFound then look .readRoom BoardFiles.projectRoom else .err e

def persistBoardroom (boardroom : Boardroom) : BoardProg Boardroom := do
  let persisted := { boardroom with legacy := false }
  .ofExcept (assertValidBoardroom persisted)
  change (.wroteBoardroom persisted) fun f => { f with boardroom := .whole persisted }
  return persisted

def addChannel (t : Nat) (roomId : String) (channel : Channel) (now : Nat) :
    BoardProg Boardroom := do
  .ofExcept (assertSafeSlug roomId "room id")
  withWriterLock t do
    let current ← readBoardroomUnlocked
    .ofExcept (throwIf (current.channels.any fun c => c.id == channel.id)
      ("channel already exists: " ++ channel.id))
    persistBoardroom { current with
      channels := current.channels ++ [channel]
      updatedAt := now
      legacy := false }

def renameChannel (t : Nat) (roomId channelId name : String) (now : Nat) :
    BoardProg Boardroom := do
  .ofExcept (assertSafeSlug roomId "room id")
  .ofExcept (assertSafeSlug channelId "channel id")
  withWriterLock t do
    let current ← readBoardroomUnlocked
    .ofExcept (throwIf (!current.channels.any fun c => c.id == channelId)
      ("channel not found: " ++ channelId))
    persistBoardroom { current with
      channels := current.channels.map fun c =>
        if c.id == channelId then { c with name := name } else c
      updatedAt := now
      legacy := false }

/-! ## The forum store -/

structure CreateForumPostInput where
  author : String
  title : String
  body : String
  id : Option String
  status : Option String
  tags : Option (List String)

section Forum

variable (toLowerCase : String → String)

def checkForumChannel (channelId : String) (boardroom : Boardroom) : Except Failure Unit :=
  match boardroom.channels.find? fun c => c.id == channelId with
  | none => .error (.error ("channel not found: " ++ channelId))
  | some channel =>
      throwIf (channel.type != "forum") ("channel " ++ channelId ++ " is not a forum channel")

def assertForumChannel (channelId : String) : BoardProg Unit := do
  let boardroom ← readBoardroomUnlocked
  .ofExcept (checkForumChannel channelId boardroom)

/-- The new record; `randomId` is what the random post id has come out as. -/
def newForumPost (channelId : String) (input : CreateForumPostInput) (randomId : String)
    (now : Nat) : Except Failure ForumPost := do
  let id := input.id.getD randomId
  assertSafeSlug id "forum post id"
  let tags ← normalizeForumTags toLowerCase (input.tags.getD [])
  let iso := Time.isoString now
  let post : ForumPost := {
    schemaVersion := forumSchemaVersion
    id := id
    channelId := channelId
    author := input.author
    title := input.title
    body := input.body
    status := input.status.getD defaultForumPostStatus
    tags := tags
    createdAt := iso
    updatedAt := iso }
  assertValidForumPost toLowerCase post
  return post

def createForumPost (t : Nat) (channelId : String) (input : CreateForumPostInput)
    (randomId : String) (now : Nat) : BoardProg ForumPost := do
  .ofExcept (assertSafeSlug channelId "channel id")
  .ofExcept (assertSafeSlug input.author "forum post author")
  .ofExcept (assertForumTitle input.title)
  .ofExcept (assertForumBody input.body)
  assertForumChannel channelId
  let post ← .ofExcept (newForumPost toLowerCase channelId input randomId now)
  withWriterLock t do
    writeJsonNew (channelId, post.id) post
    return post

/-- Reading and parsing `post.json`. -/
def BoardFiles.readPost (key : PostKey) (files : BoardFiles) : Except Failure ForumPost :=
  match files.postFile key with
  | none => .error .notFound
  | some bytes =>
      match (JsonFile.read bytes).bind ForumPost.ofJson with
      | none => .error .malformedJson
      | some post => .ok post

/-- `post.json`, read and checked. -/
def readValidPost (key : PostKey) : BoardProg ForumPost := do
  let post ← look (.readPost key) fun f => f.readPost key
  .ofExcept (assertValidForumPost toLowerCase post)
  return post

def parseComment (line : List Char) : Except Failure ForumComment :=
  match (Json.parse line).bind ForumComment.ofJson with
  | none => .error .malformedJson
  | some comment => do
      assertValidForumComment comment
      return comment

def parseComments (bytes : List Nat) : Except Failure (List ForumComment) :=
  (JsonLines.lines (Utf8.decode bytes)).mapM parseComment

def BoardFiles.readComments (key : PostKey) (files : BoardFiles) :
    Except Failure (List ForumComment) :=
  match files.commentsFile key with
  | none => .ok []
  | some bytes => parseComments bytes

def readCommentsLog (key : PostKey) : BoardProg (List ForumComment) :=
  look (.readComments key) fun f => f.readComments key

structure ForumPostThread where
  post : ForumPost
  comments : List ForumComment
deriving DecidableEq, Repr

def readForumPost (channelId postId : String) : BoardProg ForumPostThread := do
  .ofExcept (assertSafeSlug channelId "channel id")
  .ofExcept (assertSafeSlug postId "forum post id")
  assertForumChannel channelId
  let post ← readValidPost toLowerCase (channelId, postId)
  let comments ← readCommentsLog (channelId, postId)
  return ⟨post, comments⟩

/-- The loop of the list: a directory without a post is passed over. -/
def readPosts (channelId : String) : List String → BoardProg (List ForumPost)
  | [] => .ret []
  | postId :: entries => do
      let read : BoardProg (List ForumPost) := do
        let post ← readValidPost toLowerCase (channelId, postId)
        return [post]
      let found ← read.catchErr fun e => if e = .notFound then .ret [] else .err e
      let posts ← readPosts channelId entries
      return found ++ posts

/-- `localeLE` is `localeCompare` not being positive. -/
def listForumPosts (localeLE : String → String → Bool) (channelId : String) :
    BoardProg (List ForumPost) := do
  .ofExcept (assertSafeSlug channelId "channel id")
  assertForumChannel channelId
  let entries ← look (.readDirectory channelId) fun f => .ok (f.entries channelId)
  let posts ← readPosts toLowerCase channelId entries
  return posts.mergeSort fun a b => localeLE a.createdAt b.createdAt

/-- The next comment of a post that has `existing` ones. -/
def newForumComment (key : PostKey) (author body : String) (existing : List ForumComment)
    (now : Nat) : Except Failure ForumComment := do
  let comment : ForumComment := {
    schemaVersion := forumSchemaVersion
    id := "c" ++ toString (existing.length + 1)
    postId := key.2
    channelId := key.1
    author := author
    body := body
    createdAt := Time.isoString now }
  assertValidForumComment comment
  return comment

def addForumComment (t : Nat) (channelId postId author body : String) (now : Nat) :
    BoardProg ForumComment := do
  .ofExcept (assertSafeSlug channelId "channel id")
  .ofExcept (assertSafeSlug postId "forum post id")
  .ofExcept (assertSafeSlug author "forum comment author")
  .ofExcept (assertForumBody body)
  assertForumChannel channelId
  withWriterLock t do
    let _ ← readValidPost toLowerCase (channelId, postId)
    let existing ← readCommentsLog (channelId, postId)
    let comment ← .ofExcept (newForumComment (channelId, postId) author body existing now)
    appendSecureFile (channelId, postId) comment
    return comment

def setForumPostStatus (t : Nat) (channelId postId status : String) (now : Nat) :
    BoardProg ForumPost := do
  .ofExcept (assertSafeSlug channelId "channel id")
  .ofExcept (assertSafeSlug postId "forum post id")
  .ofExcept (parseForumStatus status)
  withWriterLock t do
    let post ← readValidPost toLowerCase (channelId, postId)
    let updated := { post with status := status, updatedAt := Time.isoString now }
    .ofExcept (assertValidForumPost toLowerCase updated)
    writeJson (channelId, postId) updated
    return updated

end Forum

end AgentGather.Storage.Boards
